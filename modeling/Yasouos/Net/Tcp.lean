import Yasouos.Net.Ipv4

/-!
# TCP headers

`apps/network/tcp/tcp.c`: the checksum over the pseudo-header and the segment, and the
header without options that every outgoing segment gets. The payload is behind the
header before the header is built.

## The model

`tcpChecksum` has the loop of the source over the bytes of the segment, with a 32-bit
sum; `tcpBuildHeader` stores the fields in order and then the checksum over what is in
the buffer, header and payload.

## What is proved

`tcpAddends` lists what is added, in order: `toNat_tcpSum` says that the sum never overflows and
is the sum of the words of the pseudo-header and the segment. `tcpBuildHeader_eq` gives the twenty bytes of the header,
and `fold_segment` that its checksum completes the sum to `0xFFFF`.
-/

namespace Yasouos.Net

open Yasouos.Theory

/-- `TCP_FLAG_FIN`. -/
abbrev tcpFlagFin : UInt8 := 0x01

/-- `TCP_FLAG_SYN`. -/
abbrev tcpFlagSyn : UInt8 := 0x02

/-- `TCP_FLAG_PSH`. -/
abbrev tcpFlagPsh : UInt8 := 0x08

/-- `TCP_FLAG_ACK`. -/
abbrev tcpFlagAck : UInt8 := 0x10

/-- `sizeof(tcp_hdr_t)`. -/
abbrev sizeofTcpHdr : ℕ := 20

/-! ### The checksum -/

/-- The loop of `tcp_checksum` over the segment, and the odd byte after it. -/
def tcpSumSegment (tcpSegment : Buf) (tcpLength : ℕ) : ℕ → ℕ → UInt32 → UInt32
  | remaining + 2, offset, sum =>
    let word := be16 (tcpSegment offset) (tcpSegment (offset + 1))
    tcpSumSegment tcpSegment tcpLength remaining (offset + 2) (sum + word.toUInt32)
  | 1, _, sum => sum + ((tcpSegment (tcpLength - 1)).toUInt32 <<< 8)
  | 0, _, sum => sum

/-- The sum of `tcp_checksum`, before its carries are folded. -/
def tcpSum (srcIp dstIp : UInt32) (tcpSegment : Buf) (tcpLength : UInt16) : UInt32 :=
  let sum : UInt32 := 0
  let sum := sum + (htons (srcIp &&& (0xFFFF : UInt32)).toUInt16).toUInt32
  let sum := sum + (htons (srcIp >>> 16).toUInt16).toUInt32
  let sum := sum + (htons (dstIp &&& (0xFFFF : UInt32)).toUInt16).toUInt32
  let sum := sum + (htons (dstIp >>> 16).toUInt16).toUInt32
  let sum := sum + ipprotoTcp.toUInt32
  let sum := sum + tcpLength.toUInt32
  tcpSumSegment tcpSegment tcpLength.toNat tcpLength.toNat 0 sum

/-- `tcp_checksum`. -/
def tcpChecksum (srcIp dstIp : UInt32) (tcpSegment : Buf) (tcpLength : UInt16) : UInt16 :=
  htons (complement (tcpSum srcIp dstIp tcpSegment tcpLength))

/-- The pseudo-header: the addresses, zero, the protocol and the length. -/
def pseudoHeader (srcIp dstIp : UInt32) (length : UInt16) : List UInt8 :=
  raw32 srcIp ++ raw32 dstIp ++ [0, ipprotoTcp] ++ htonsBytes length

theorem words_load_add_two (ptr : Buf) (o n : ℕ) :
    words (load ptr o (n + 2)) = (be16 (ptr o) (ptr (o + 1))).toNat :: words (load ptr (o + 2) n) := by
  rw [Nat.add_comm n 2, load_append, words_append (by simp)]
  simp [load, List.range_succ, words, toNat_be16]

/-- What the loop of `tcp_checksum` adds for the segment. -/
def segmentAddends (tcpSegment : Buf) (tcpLength : ℕ) : ℕ → ℕ → List UInt32
  | remaining + 2, offset =>
    (be16 (tcpSegment offset) (tcpSegment (offset + 1))).toUInt32 ::
      segmentAddends tcpSegment tcpLength remaining (offset + 2)
  | 1, _ => [(tcpSegment (tcpLength - 1)).toUInt32 <<< 8]
  | 0, _ => []

/-- What `tcp_checksum` adds to its register, in order. -/
def tcpAddends (srcIp dstIp : UInt32) (tcpSegment : Buf) (tcpLength : UInt16) : List UInt32 :=
  [(htons (srcIp &&& (0xFFFF : UInt32)).toUInt16).toUInt32, (htons (srcIp >>> 16).toUInt16).toUInt32,
    (htons (dstIp &&& (0xFFFF : UInt32)).toUInt16).toUInt32, (htons (dstIp >>> 16).toUInt16).toUInt32,
    ipprotoTcp.toUInt32, tcpLength.toUInt32] ++ segmentAddends tcpSegment tcpLength.toNat tcpLength.toNat 0

theorem tcpSumSegment_eq_foldl (tcpSegment : Buf) (tcpLength remaining offset : ℕ) (sum : UInt32) :
    tcpSumSegment tcpSegment tcpLength remaining offset sum =
      (segmentAddends tcpSegment tcpLength remaining offset).foldl (· + ·) sum := by
  induction remaining using Nat.twoStepInduction generalizing offset sum with
  | zero => rfl
  | one => rfl
  | more n ih _ => rw [tcpSumSegment, ih, segmentAddends, List.foldl_cons]

/-- The register at the end is the sum of what has been added. -/
theorem tcpSum_eq_foldl (srcIp dstIp : UInt32) (tcpSegment : Buf) (tcpLength : UInt16) :
    tcpSum srcIp dstIp tcpSegment tcpLength = (tcpAddends srcIp dstIp tcpSegment tcpLength).foldl (· + ·) 0 := by
  rw [tcpSum, tcpSumSegment_eq_foldl, tcpAddends, List.foldl_append]
  rfl

theorem map_toNat_segmentAddends (tcpSegment : Buf) {tcpLength remaining offset : ℕ} (hend : offset + remaining = tcpLength) :
    (segmentAddends tcpSegment tcpLength remaining offset).map UInt32.toNat = words (load tcpSegment offset remaining) := by
  induction remaining using Nat.twoStepInduction generalizing offset with
  | zero => rfl
  | one =>
    have hlast : tcpLength - 1 = offset := by omega
    have hbyte := (tcpSegment offset).toNat_lt
    simp only [segmentAddends, hlast, load, List.range_succ, List.range_zero, List.nil_append, List.map_cons,
      List.map_nil, Nat.add_zero, words, UInt32.toNat_shiftLeft, UInt8.toNat_toUInt32, UInt32.reduceToNat, Nat.reduceMod,
      Nat.shiftLeft_eq, List.cons.injEq, and_true]
    omega
  | more n ih _ => rw [segmentAddends, List.map_cons, ih (by omega), words_load_add_two, UInt16.toNat_toUInt32]

theorem toNat_htons_low (v : UInt32) :
    (htons (v &&& (0xFFFF : UInt32)).toUInt16).toNat = v.toUInt8.toNat * 2 ^ 8 + (v >>> 8).toUInt8.toNat := by
  have hmask : v.toNat &&& 65535 = v.toNat % 2 ^ 16 := Nat.and_two_pow_sub_one_eq_mod v.toNat 16
  simp only [toNat_htons, UInt32.toNat_toUInt16, UInt32.toNat_and, UInt32.toNat_toUInt8, UInt32.toNat_shiftRight,
    UInt32.reduceToNat, Nat.reduceMod, Nat.shiftRight_eq_div_pow, hmask]
  omega

theorem toNat_htons_high (v : UInt32) :
    (htons (v >>> 16).toUInt16).toNat = (v >>> 16).toUInt8.toNat * 2 ^ 8 + (v >>> 24).toUInt8.toNat := by
  have hv := v.toNat_lt
  simp only [toNat_htons, UInt32.toNat_toUInt16, UInt32.toNat_toUInt8, UInt32.toNat_shiftRight,
    UInt32.reduceToNat, Nat.reduceMod, Nat.shiftRight_eq_div_pow]
  omega

/-- What is added are the words of the pseudo-header and of the segment. -/
theorem map_toNat_tcpAddends (srcIp dstIp : UInt32) (tcpSegment : Buf) (tcpLength : UInt16) :
    (tcpAddends srcIp dstIp tcpSegment tcpLength).map UInt32.toNat =
      words (pseudoHeader srcIp dstIp tcpLength) ++ words (load tcpSegment 0 tcpLength.toNat) := by
  have hproto : ipprotoTcp.toUInt32.toNat = (0 : UInt8).toNat * 2 ^ 8 + ipprotoTcp.toNat := by decide
  have hlen : (tcpLength >>> 8).toUInt8.toNat * 2 ^ 8 + tcpLength.toUInt8.toNat = tcpLength.toNat := by
    rw [← toNat_be16, be16_htonsBytes]
  rw [tcpAddends, List.map_append, map_toNat_segmentAddends tcpSegment (Nat.zero_add _)]
  congr 1
  simp only [List.map_cons, List.map_nil, UInt16.toNat_toUInt32, toNat_htons_low, toNat_htons_high, hproto, pseudoHeader,
    raw32, htonsBytes, List.cons_append, List.nil_append, words, hlen]

/-- Numbers whose sum fits a register are added without overflow. -/
theorem toNat_foldl_add {l : List UInt32} {start : UInt32} (h : start.toNat + (l.map UInt32.toNat).sum < 2 ^ 32) :
    (l.foldl (· + ·) start).toNat = start.toNat + (l.map UInt32.toNat).sum := by
  induction l generalizing start with
  | nil => rfl
  | cons a l ih =>
    rw [List.map_cons, List.sum_cons] at h ⊢
    have hadd : (start + a).toNat = start.toNat + a.toNat := by
      rw [UInt32.toNat_add]
      omega
    rw [List.foldl_cons, ih (by rw [hadd]; omega), hadd]
    omega

theorem sum_tcpAddends_lt (srcIp dstIp : UInt32) (tcpSegment : Buf) (tcpLength : UInt16) :
    ((tcpAddends srcIp dstIp tcpSegment tcpLength).map UInt32.toNat).sum < 2 ^ 32 := by
  have hlen := tcpLength.toNat_lt
  have hpseudo := sum_words_le (pseudoHeader srcIp dstIp tcpLength)
  have hsegment := sum_words_le (load tcpSegment 0 tcpLength.toNat)
  have hsize : (pseudoHeader srcIp dstIp tcpLength).length = 12 := rfl
  rw [hsize] at hpseudo
  rw [length_load] at hsegment
  rw [map_toNat_tcpAddends, List.sum_append]
  omega

/-- The sum is that of the words of the pseudo-header and the segment: it does not
overflow. -/
theorem toNat_tcpSum (srcIp dstIp : UInt32) (tcpSegment : Buf) (tcpLength : UInt16) :
    (tcpSum srcIp dstIp tcpSegment tcpLength).toNat =
      (words (pseudoHeader srcIp dstIp tcpLength)).sum + (words (load tcpSegment 0 tcpLength.toNat)).sum := by
  have hlt := sum_tcpAddends_lt srcIp dstIp tcpSegment tcpLength
  rw [tcpSum_eq_foldl, toNat_foldl_add (by simpa using hlt), map_toNat_tcpAddends, UInt32.toNat_zero, Nat.zero_add,
    List.sum_append]

/-! ### The header -/

/-- `tcp_build_header`, for a header at offset `o` of a buffer. -/
def tcpBuildHeader (buf : Buf) (o : ℕ) (srcPort dstPort : UInt16) (seq ack : UInt32) (flags : UInt8)
    (window : UInt16) (srcIp dstIp : UInt32) (payloadLength : UInt16) : Buf :=
  let buf := writeHtonsUnaligned buf o srcPort
  let buf := writeHtonsUnaligned buf (o + 2) dstPort
  let buf := writeHtonlUnaligned buf (o + 4) seq
  let buf := writeHtonlUnaligned buf (o + 8) ack
  let buf := store buf (o + 12) [(5 : UInt8) <<< 4]
  let buf := store buf (o + 13) [flags]
  let buf := writeHtonsUnaligned buf (o + 14) window
  let buf := store16 buf (o + 16) 0
  let buf := store16 buf (o + 18) 0
  let tcpLength := 20 + payloadLength
  store16 buf (o + 16) (tcpChecksum srcIp dstIp (advance buf o) tcpLength)

/-- The twenty bytes of a header. -/
def tcpHeader (srcPort dstPort : UInt16) (seq ack : UInt32) (flags : UInt8) (window checksum : UInt16) : List UInt8 :=
  htonsBytes srcPort ++ htonsBytes dstPort ++ htonlBytes seq ++ htonlBytes ack ++ [0x50, flags] ++
    htonsBytes window ++ htonsBytes checksum ++ [0, 0]

@[simp] theorem length_tcpHeader (srcPort dstPort : UInt16) (seq ack : UInt32) (flags : UInt8)
    (window checksum : UInt16) : (tcpHeader srcPort dstPort seq ack flags window checksum).length = 20 := rfl

/-- The checksum field of a segment, with what is in front of it and behind it. -/
theorem tcpHeader_append (srcPort dstPort : UInt16) (seq ack : UInt32) (flags : UInt8) (window checksum : UInt16)
    (payload : List UInt8) :
    tcpHeader srcPort dstPort seq ack flags window checksum ++ payload =
      (htonsBytes srcPort ++ htonsBytes dstPort ++ htonlBytes seq ++ htonlBytes ack ++ [0x50, flags] ++
        htonsBytes window) ++ htonsBytes checksum ++ ([0, 0] ++ payload) := by
  rw [tcpHeader, List.append_assoc _ [0, 0]]

/-- The sum over a pseudo-header and a segment. -/
def segmentSum (srcIp dstIp : UInt32) (segment : List UInt8) : ℕ :=
  (words (pseudoHeader srcIp dstIp (UInt16.ofNat segment.length))).sum + (words segment).sum

/-- The checksum that completes a segment. -/
def segmentChecksum (srcIp dstIp : UInt32) (segment : List UInt8) : UInt16 :=
  UInt16.ofNat (65535 - fold (segmentSum srcIp dstIp segment))

theorem toNat_segmentChecksum (srcIp dstIp : UInt32) (segment : List UInt8) :
    (segmentChecksum srcIp dstIp segment).toNat = 65535 - fold (segmentSum srcIp dstIp segment) := by
  rw [segmentChecksum, UInt16.toNat_ofNat']
  omega

theorem tcpChecksum_eq {srcIp dstIp : UInt32} {tcpSegment : Buf} {tcpLength : UInt16} {segment : List UInt8}
    (hlen : segment.length = tcpLength.toNat) (hseg : load tcpSegment 0 tcpLength.toNat = segment) :
    tcpChecksum srcIp dstIp tcpSegment tcpLength = htons (segmentChecksum srcIp dstIp segment) := by
  rw [tcpChecksum]
  congr 1
  apply UInt16.toNat_inj.mp
  rw [toNat_complement, toNat_segmentChecksum, toNat_tcpSum, hseg, segmentSum, hlen, UInt16.ofNat_toNat]

/-- What `tcp_build_header` leaves in the buffer, with the payload behind the header. -/
theorem tcpBuildHeader_eq (buf : Buf) (o : ℕ) (srcPort dstPort : UInt16) (seq ack : UInt32) (flags : UInt8)
    (window : UInt16) (srcIp dstIp : UInt32) (payload : List UInt8) (hlen : 20 + payload.length < 2 ^ 16) :
    tcpBuildHeader (store buf (o + 20) payload) o srcPort dstPort seq ack flags window srcIp dstIp
        (UInt16.ofNat payload.length) =
      store buf o (tcpHeader srcPort dstPort seq ack flags window (segmentChecksum srcIp dstIp
        (tcpHeader srcPort dstPort seq ack flags window 0 ++ payload)) ++ payload) := by
  have hfields : store16 (store16 (writeHtonsUnaligned (store (store (writeHtonlUnaligned (writeHtonlUnaligned
      (writeHtonsUnaligned (writeHtonsUnaligned (store buf (o + 20) payload) o srcPort) (o + 2) dstPort)
      (o + 4) seq) (o + 8) ack) (o + 12) [(5 : UInt8) <<< 4]) (o + 13) [flags]) (o + 14) window) (o + 16) 0) (o + 18) 0 =
      store buf o (tcpHeader srcPort dstPort seq ack flags window 0 ++ payload) := by
    simp only [store16, writeHtonsUnaligned, writeHtonlUnaligned]
    rw [store_append _ (by simp), store_append _ (by simp), store_append _ (by simp), store_append _ (by simp),
      store_append _ (by simp), store_append _ (by simp), store_append _ (by simp), store_append _ (by simp),
      store_comm _ (by simp), store_append _ (by simp)]
    rfl
  have hlength : (20 + UInt16.ofNat payload.length).toNat = 20 + payload.length := by
    simp only [UInt16.toNat_add, UInt16.toNat_ofNat', UInt16.reduceToNat]
    omega
  have hck : tcpChecksum srcIp dstIp
      (advance (store buf o (tcpHeader srcPort dstPort seq ack flags window 0 ++ payload)) o)
      (20 + UInt16.ofNat payload.length) =
      htons (segmentChecksum srcIp dstIp (tcpHeader srcPort dstPort seq ack flags window 0 ++ payload)) := by
    apply tcpChecksum_eq
    · rw [hlength, List.length_append, length_tcpHeader]
    · rw [hlength]
      convert load_advance_store buf o _ using 2
      rw [List.length_append, length_tcpHeader]
  simp only [tcpBuildHeader]
  rw [hfields, hck, store16_htons, writeHtonsUnaligned]
  generalize segmentChecksum srcIp dstIp _ = checksum
  rw [tcpHeader_append, tcpHeader_append, store_store buf (by simp) (by simp)]

/-- With its checksum, a segment sums to `0xFFFF`. -/
theorem fold_segment (srcPort dstPort : UInt16) (seq ack : UInt32) (flags : UInt8) (window : UInt16)
    (srcIp dstIp : UInt32) (payload : List UInt8) :
    fold (segmentSum srcIp dstIp (tcpHeader srcPort dstPort seq ack flags window (segmentChecksum srcIp dstIp
      (tcpHeader srcPort dstPort seq ack flags window 0 ++ payload)) ++ payload)) = 65535 := by
  have hsum : ∀ checksum, segmentSum srcIp dstIp (tcpHeader srcPort dstPort seq ack flags window checksum ++ payload) =
      segmentSum srcIp dstIp (tcpHeader srcPort dstPort seq ack flags window 0 ++ payload) + checksum.toNat := by
    intro checksum
    rw [segmentSum, segmentSum, tcpHeader_append, tcpHeader_append, sum_words_checksum _ _ _ (by simp), ← Nat.add_assoc]
    rfl
  rw [hsum, toNat_segmentChecksum, fold_add_complement]

end Yasouos.Net
