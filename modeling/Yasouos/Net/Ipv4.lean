import Yasouos.Net.ByteOrder
import Yasouos.Theory.OnesComplement

/-!
# IPv4 headers

`apps/network/ipv4/ipv4.c`: the header checksum, its verification, and the header
without options that every outgoing packet gets. The addresses are network-order
values: they go from register to memory as they are.

## The model

`ipv4BuildHeader` stores the fields one after another, in the order of the source, and
then the checksum it computes from what is in the buffer. The sum has 32 bits.

## What is proved

`ipv4BuildHeader_eq` gives the twenty bytes of the header, and
`ipv4VerifyChecksum_header` that `ipv4_verify_checksum` accepts them.
-/

namespace Yasouos.Net

open Yasouos.Theory

/-- `IPPROTO_ICMP`. -/
abbrev ipprotoIcmp : UInt8 := 1

/-- `IPPROTO_TCP`. -/
abbrev ipprotoTcp : UInt8 := 6

/-- `IPPROTO_UDP`. -/
abbrev ipprotoUdp : UInt8 := 17

/-- `sizeof(ipv4_hdr_t)`. -/
abbrev sizeofIpv4Hdr : ℕ := 20

/-! ### Sums -/

theorem foldCarries_decreasing {sum : UInt32} (h : sum >>> 16 ≠ 0) :
    ((sum &&& (0xFFFF : UInt32)) + (sum >>> 16)).toNat = sum.toNat % 2 ^ 16 + sum.toNat / 2 ^ 16 ∧ sum.toNat / 2 ^ 16 ≠ 0 := by
  have hs := sum.toNat_lt
  have hmask : sum.toNat &&& 65535 = sum.toNat % 2 ^ 16 := Nat.and_two_pow_sub_one_eq_mod sum.toNat 16
  constructor
  · simp only [UInt32.toNat_add, UInt32.toNat_and, UInt32.toNat_shiftRight, UInt32.reduceToNat, Nat.reduceMod,
      Nat.shiftRight_eq_div_pow, hmask]
    omega
  · intro h0
    apply h
    apply UInt32.toNat_inj.mp
    simpa [Nat.shiftRight_eq_div_pow] using h0

/-- `while (sum >> 16) sum = (sum & 0xFFFF) + (sum >> 16);` -/
def foldCarries (sum : UInt32) : UInt32 :=
  if sum >>> 16 ≠ 0 then foldCarries ((sum &&& (0xFFFF : UInt32)) + (sum >>> 16)) else sum
termination_by sum.toNat
decreasing_by
  have := foldCarries_decreasing ‹_›
  omega

/-- The loop folds the carries, and terminates. -/
theorem toNat_foldCarries (sum : UInt32) : (foldCarries sum).toNat = fold sum.toNat := by
  induction sum using foldCarries.induct with
  | case1 sum h ih =>
    obtain ⟨hnext, h0⟩ := foldCarries_decreasing h
    rw [foldCarries, if_pos h, ih, hnext]
    conv_rhs => rw [fold, if_neg h0]
  | case2 sum h =>
    rw [foldCarries, if_neg h, fold, if_pos]
    have h0 : (sum >>> 16).toNat = 0 := by simpa using congrArg UInt32.toNat (not_not.mp h)
    simpa [Nat.shiftRight_eq_div_pow] using h0

/-- The low half of the complement of a folded sum. -/
def complement (sum : UInt32) : UInt16 := (~~~ foldCarries sum).toUInt16

theorem toNat_complement (sum : UInt32) : (complement sum).toNat = 65535 - fold sum.toNat := by
  have hlt := fold_lt sum.toNat
  have h := toNat_foldCarries sum
  simp only [complement, UInt32.toNat_toUInt16, UInt32.toNat_not, h, UInt32.size]
  omega

/-- `for (i = 0; i < n; i++) sum += ntohs(ptr[i]);` -/
def sumWords (ptr : Buf) (n : ℕ) : UInt32 :=
  (List.range n).foldl (fun sum i => sum + (htons (load16 ptr (2 * i))).toUInt32) 0

theorem words_load_succ (ptr : Buf) (n : ℕ) :
    words (load ptr 0 (2 * (n + 1))) = words (load ptr 0 (2 * n)) ++ [(ntohsUnaligned ptr (2 * n)).toNat] := by
  rw [Nat.mul_add, load_append, words_append (by simp)]
  congr 1
  simp [load, List.range_succ, words, ntohsUnaligned, toNat_be16]

/-- The loop sums the words of the header. -/
theorem toNat_sumWords (ptr : Buf) {n : ℕ} (hn : n ≤ 2 ^ 16) :
    (sumWords ptr n).toNat = (words (load ptr 0 (2 * n))).sum := by
  induction n with
  | zero => rfl
  | succ n ih =>
    have hle := sum_words_le (load ptr 0 (2 * (n + 1)))
    have hlen : (2 * (n + 1) + 1) / 2 = n + 1 := by omega
    rw [length_load, hlen, words_load_succ, List.sum_append, List.sum_singleton] at hle
    rw [words_load_succ, List.sum_append, List.sum_singleton, ← ih (by omega)] at *
    rw [sumWords, List.range_succ, List.foldl_append, List.foldl_cons, List.foldl_nil, ← sumWords, ntohs_load16,
      UInt32.toNat_add, UInt16.toNat_toUInt32]
    omega

/-- A checksum field goes into the sum as one more word. -/
theorem sum_words_checksum (x z : List UInt8) (checksum : UInt16) (hx : x.length % 2 = 0) :
    (words (x ++ htonsBytes checksum ++ z)).sum = (words (x ++ htonsBytes 0 ++ z)).sum + checksum.toNat := by
  have hck : (checksum >>> 8).toUInt8.toNat * 2 ^ 8 + checksum.toUInt8.toNat = checksum.toNat := by
    rw [← toNat_be16, be16_htonsBytes]
  have hx' : ∀ v, (x ++ htonsBytes v).length % 2 = 0 := by
    intro v
    rw [List.length_append, length_htonsBytes]
    omega
  rw [words_append (hx' checksum), words_append (hx' 0), words_append hx, words_append hx]
  simp only [htonsBytes, words, hck, List.sum_append, List.sum_cons, List.sum_nil]
  rw [show ((0 : UInt16) >>> 8).toUInt8.toNat * 2 ^ 8 + (0 : UInt16).toUInt8.toNat = 0 from rfl]
  omega

/-- The complement of the sum with an empty field, put into the field, makes the sum fold to all ones. -/
theorem fold_words_checksum {x z : List UInt8} {n : ℕ} (hx : x.length % 2 = 0) (hn : n ≤ 2 ^ 16)
    (hlen : (x ++ htonsBytes 0 ++ z).length = 2 * n) :
    fold (words (x ++ htonsBytes (complement (sumWords (bufOf (x ++ htonsBytes 0 ++ z)) n)) ++ z)).sum = 65535 := by
  rw [sum_words_checksum _ _ _ hx, toNat_complement, toNat_sumWords _ hn, ← hlen, load_bufOf, fold_add_complement]

/-! ### Headers -/

/-- `ipv4_checksum`. -/
def ipv4Checksum (header : Buf) : UInt16 := htons (complement (sumWords header (sizeofIpv4Hdr / 2)))

/-- `ipv4_verify_checksum`. -/
def ipv4VerifyChecksum (header : Buf) : Bool :=
  foldCarries (sumWords header (sizeofIpv4Hdr / 2)) &&& 0xFFFF == 0xFFFF

/-- `ipv4_build_header`, for a header at offset `o` of a buffer. -/
def ipv4BuildHeader (buf : Buf) (o : ℕ) (srcIp dstIp : UInt32) (protocol : UInt8) (payloadLength : UInt16)
    (ttl : UInt8) : Buf :=
  let buf := store buf o [0x45]
  let buf := store buf (o + 1) [0]
  let buf := store16 buf (o + 2) (htons (20 + payloadLength))
  let buf := store16 buf (o + 4) (htons 1)
  let buf := store16 buf (o + 6) 0
  let buf := store buf (o + 8) [ttl]
  let buf := store buf (o + 9) [protocol]
  let buf := store16 buf (o + 10) 0
  let buf := store32 buf (o + 12) srcIp
  let buf := store32 buf (o + 16) dstIp
  store16 buf (o + 10) (ipv4Checksum (advance buf o))

/-- The twenty bytes of a header. -/
def ipv4Header (srcIp dstIp : UInt32) (protocol : UInt8) (totalLength : UInt16) (ttl : UInt8) (checksum : UInt16) :
    List UInt8 :=
  [0x45, 0] ++ htonsBytes totalLength ++ [0, 1, 0, 0, ttl, protocol] ++ htonsBytes checksum ++
    (raw32 srcIp ++ raw32 dstIp)

@[simp] theorem length_ipv4Header (srcIp dstIp : UInt32) (protocol : UInt8) (totalLength : UInt16) (ttl : UInt8)
    (checksum : UInt16) : (ipv4Header srcIp dstIp protocol totalLength ttl checksum).length = 20 := rfl

/-- The checksum that completes a header. -/
def headerChecksum (srcIp dstIp : UInt32) (protocol : UInt8) (totalLength : UInt16) (ttl : UInt8) : UInt16 :=
  complement (sumWords (bufOf (ipv4Header srcIp dstIp protocol totalLength ttl 0)) (sizeofIpv4Hdr / 2))

theorem sumWords_congr {f g : Buf} {n : ℕ} (hn : n ≤ 2 ^ 16) (h : load f 0 (2 * n) = load g 0 (2 * n)) :
    sumWords f n = sumWords g n := by
  apply UInt32.toNat_inj.mp
  rw [toNat_sumWords f hn, toNat_sumWords g hn, h]

/-- What `ipv4_build_header` leaves in the buffer. -/
theorem ipv4BuildHeader_eq (buf : Buf) (o : ℕ) (srcIp dstIp : UInt32) (protocol : UInt8) (payloadLength : UInt16)
    (ttl : UInt8) :
    ipv4BuildHeader buf o srcIp dstIp protocol payloadLength ttl =
      store buf o (ipv4Header srcIp dstIp protocol (20 + payloadLength) ttl
        (headerChecksum srcIp dstIp protocol (20 + payloadLength) ttl)) := by
  have hfields : store32 (store32 (store16 (store (store (store16 (store16 (store16 (store (store buf o [0x45])
      (o + 1) [0]) (o + 2) (htons (20 + payloadLength))) (o + 4) (htons 1)) (o + 6) 0) (o + 8) [ttl])
      (o + 9) [protocol]) (o + 10) 0) (o + 12) srcIp) (o + 16) dstIp =
      store buf o (ipv4Header srcIp dstIp protocol (20 + payloadLength) ttl 0) := by
    rw [store16_htons, store16_htons]
    simp only [store32, store16, writeHtonsUnaligned]
    rw [store_append _ (by simp), store_append _ (by simp), store_append _ (by simp), store_append _ (by simp),
      store_append _ (by simp), store_append _ (by simp), store_append _ (by simp), store_append _ (by simp),
      store_append _ (by simp)]
    rfl
  have hck : ipv4Checksum (advance (store buf o (ipv4Header srcIp dstIp protocol (20 + payloadLength) ttl 0)) o) =
      htons (headerChecksum srcIp dstIp protocol (20 + payloadLength) ttl) := by
    rw [ipv4Checksum, headerChecksum, sumWords_congr (by decide)]
    exact (load_advance_store _ _ _).trans (load_bufOf _).symm
  simp only [ipv4BuildHeader]
  rw [hfields, hck, store16_htons, writeHtonsUnaligned]
  exact store_store buf rfl rfl

/-- A header that is built sums to all ones. -/
theorem fold_ipv4Header (srcIp dstIp : UInt32) (protocol : UInt8) (totalLength : UInt16) (ttl : UInt8) :
    fold (words (ipv4Header srcIp dstIp protocol totalLength ttl
      (headerChecksum srcIp dstIp protocol totalLength ttl))).sum = 65535 :=
  fold_words_checksum (by simp) (by decide) rfl

/-- `ipv4_verify_checksum` accepts the headers that are built. -/
theorem ipv4VerifyChecksum_header {header : Buf} {srcIp dstIp : UInt32} {protocol : UInt8} {totalLength : UInt16}
    {ttl : UInt8} (h : load header 0 20 = ipv4Header srcIp dstIp protocol totalLength ttl
      (headerChecksum srcIp dstIp protocol totalLength ttl)) :
    ipv4VerifyChecksum header = true := by
  have hfold : foldCarries (sumWords header (sizeofIpv4Hdr / 2)) = 0xFFFF := by
    apply UInt32.toNat_inj.mp
    rw [toNat_foldCarries, toNat_sumWords header (by decide)]
    change fold (words (load header 0 20)).sum = 65535
    rw [h, fold_ipv4Header]
  rw [ipv4VerifyChecksum, hfold]
  rfl

end Yasouos.Net
