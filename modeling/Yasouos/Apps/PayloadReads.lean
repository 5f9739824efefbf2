import Yasouos.Apps.PingPong
import Yasouos.Net.PrintText

/-!
# The bytes that are taken for a payload

The UDP branch of `packet_print.c` takes the payload length from the UDP header: it is the length field
less the eight bytes of the header, as a `size_t`. It bounds the loop that shows the payload, the test
for `ping-` and the loop over the digits; the number of bytes received is not asked again.

## The model

`readPayload` is the branch as a program of `Print`, which reads bytes of the received frame only: a
read behind its end is a fault. Its result is the number of a ping, if there is one. `info` tells whether
the log shows messages of that level.

## What is proved

Without a fault the result is what `handleUdp` finds in its buffer (`readPayload_value`). All bytes that
are read and all that the length counts are in the frame exactly if the length field has at least the
header and no more than was received: `payloadInside_iff`.
-/

namespace Yasouos.Apps.PacketPrint

open Yasouos.Theory Yasouos.Net Yasouos.Net.Print
open Yasouos.Apps.HttpHello (Frame)

/-- `PACKET_PRINT_MAX_PAYLOAD_DISPLAY`. -/
abbrev packetPrintMaxPayloadDisplay : ℕ := 64

/-- The loop that shows the payload, from an index on. -/
def showPayload (frame : Frame) (payload payloadLen i : ℕ) : Print Unit := do
  if i < payloadLen ∧ i < packetPrintMaxPayloadDisplay then
    let c ← byte frame (payload + i)
    if c ≥ 32 ∧ c ≤ 126 then emit [Char.ofNat c.toNat] else puts "."
    showPayload frame payload payloadLen (i + 1)
termination_by payloadLen - i

/-- The tests of bytes one after another: the first that fails is the last. -/
def matchBytes (frame : Frame) (o : ℕ) : List UInt8 → Print Bool
  | [] => pure true
  | b :: l => do
    if (← byte frame o) = b then matchBytes frame (o + 1) l else pure false

/-- The loop over the digits, from an index on. -/
def parseNum (frame : Frame) (payload payloadLen i : ℕ) (num : Int32) : Print Int32 := do
  if i < payloadLen then
    let c ← byte frame (payload + i)
    if 0x30 ≤ c ∧ c ≤ 0x39 then
      parseNum frame payload payloadLen (i + 1) (num * 10 + Int32.ofNat (c.toNat - 0x30))
    else pure num
  else pure num
termination_by payloadLen - i

/-- The message about the payload. -/
def logPayload (frame : Frame) (info : Bool) (payload payloadLen : ℕ) : Print Unit := do
  if info then
    puts "Received UDP payload: "
    showPayload frame payload payloadLen 0
    puts "\n"

/-- The number of a ping. -/
def findPing (frame : Frame) (payload payloadLen : ℕ) : Print (Option Int32) := do
  if payloadLen ≥ 6 then
    if ← matchBytes frame payload [0x70, 0x69, 0x6e, 0x67, 0x2d] then
      return some (← parseNum frame payload payloadLen 5 0)
    else return none
  else return none

/-- What is done with the payload. -/
def usePayload (frame : Frame) (info : Bool) (payload payloadLen : ℕ) : Print (Option Int32) := do
  logPayload frame info payload payloadLen
  findPing frame payload payloadLen

/-- The UDP branch, from the frame to the number of a ping. -/
def readPayload (frame : Frame) (info : Bool) : Print (Option Int32) := do
  if frame.length ≥ sizeofEthHdr + sizeofIpv4Hdr + sizeofUdpHdr then
    if (← readNtohs frame 12) = ethPIp then
      if (← byte frame 23) = ipprotoUdp then
        if (← readNtohl frame 30) = packetPrintIpAddr then
          if (← readNtohs frame 36) = packetPrintUdpPort then
            let udpLength ← readNtohs frame 38
            usePayload frame info (sizeofEthHdr + sizeofIpv4Hdr + sizeofUdpHdr)
              ((udpLength.toNat + (2 ^ 64 - sizeofUdpHdr)) % 2 ^ 64)
          else return none
        else return none
      else return none
    else return none
  else return none

/-- The frame is a datagram to the port, as the branch tests it. -/
structure ReachesPayload (frame : Frame) : Prop where
  length : 42 ≤ frame.length
  ethType : ntohsUnaligned (bufOf frame) 12 = ethPIp
  protocol : bufOf frame 23 = ipprotoUdp
  dstIp : ntohlUnaligned (bufOf frame) 30 = packetPrintIpAddr
  dstPort : ntohsUnaligned (bufOf frame) 36 = packetPrintUdpPort

/-- Such a frame gets to the payload. -/
theorem ReachesPayload.run_eq {frame : Frame} (h : ReachesPayload frame) (info : Bool) :
    (readPayload frame info).run = (usePayload frame info 42 (payloadLen (bufOf frame))).run := by
  have hlen := h.length
  have hlong : frame.length ≥ sizeofEthHdr + sizeofIpv4Hdr + sizeofUdpHdr := hlen
  rw [readPayload, if_pos hlong, run_readNtohs_bind (by omega), if_pos h.ethType,
    run_byte_bind (by omega), if_pos h.protocol, run_readNtohl_bind (by omega), if_pos h.dstIp,
    run_readNtohs_bind (by omega), if_pos h.dstPort, run_readNtohs_bind (by omega)]
  rfl

/-- Any other does not. -/
theorem run_readPayload_of_not {frame : Frame} (h : ¬ ReachesPayload frame) (info : Bool) :
    (readPayload frame info).run = some (none, []) := by
  by_cases hlen : 42 ≤ frame.length
  · have hlong : frame.length ≥ sizeofEthHdr + sizeofIpv4Hdr + sizeofUdpHdr := hlen
    rw [readPayload, if_pos hlong, run_readNtohs_bind (by omega)]
    split_ifs with htype
    · rw [run_byte_bind (by omega)]
      split_ifs with hproto
      · rw [run_readNtohl_bind (by omega)]
        split_ifs with hip
        · rw [run_readNtohs_bind (by omega)]
          split_ifs with hport
          · exact absurd ⟨hlen, htype, hproto, hip, hport⟩ h
          · rfl
        · rfl
      · rfl
    · rfl
  · have hshort : ¬ frame.length ≥ sizeofEthHdr + sizeofIpv4Hdr + sizeofUdpHdr := hlen
    rw [readPayload, if_neg hshort]
    rfl

/-! ### Reads inside the payload -/

section Inside

variable {frame : Frame} {payload payloadLen : ℕ}

theorem inside_showPayload (h : payload + payloadLen ≤ frame.length) (i : ℕ) :
    Inside (showPayload frame payload payloadLen i) := by
  induction hn : payloadLen - i generalizing i with
  | zero =>
    rw [showPayload, if_neg (by omega)]
    exact inside_pure ()
  | succ n ih =>
    rw [showPayload]
    have hrest := ih (i + 1) (by omega)
    simp only [inside_ite, inside_byte_bind, inside_seq, inside_emit, inside_puts, inside_pure, hrest, implies_true,
      and_true]
    omega

theorem inside_parseNum (h : payload + payloadLen ≤ frame.length) (i : ℕ) (num : Int32) :
    Inside (parseNum frame payload payloadLen i num) := by
  induction hn : payloadLen - i generalizing i num with
  | zero =>
    rw [parseNum, if_neg (by omega)]
    exact inside_pure num
  | succ n ih =>
    have hrest := fun v => ih (i + 1) v (by omega)
    rw [parseNum, if_pos (by omega), inside_byte_bind]
    refine ⟨by omega, ?_⟩
    split_ifs
    · exact hrest _
    · exact inside_pure num

theorem inside_matchBytes (o : ℕ) {l : List UInt8} (h : o + l.length ≤ frame.length) : Inside (matchBytes frame o l) := by
  induction l generalizing o with
  | nil => exact inside_pure true
  | cons b l ih =>
    have hlen : o + 1 + l.length ≤ frame.length := by
      rw [List.length_cons] at h
      omega
    rw [matchBytes, inside_byte_bind]
    refine ⟨by omega, ?_⟩
    split_ifs
    · exact ih (o + 1) hlen
    · exact inside_pure false

end Inside

/-! ### What is found -/

section Value

variable {frame : Frame}

theorem parseNum_value {payload payloadLen i : ℕ} {num r : Int32} {text : List Char} {buffer : Buf}
    (hbuf : ∀ j < frame.length, buffer j = bufOf frame j)
    (h : (parseNum frame payload payloadLen i num).run = some (r, text)) :
    r = readNum (advance buffer payload) payloadLen i num := by
  have hdone : ∀ {num : Int32}, (pure num : Print Int32).run = some (r, text) → r = num := by
    intro num hrun
    exact (Prod.mk.inj (Option.some.inj hrun)).1.symm
  induction hn : payloadLen - i generalizing i num with
  | zero =>
    rw [parseNum, if_neg (by omega)] at h
    rw [readNum, if_neg (by omega), hdone h]
  | succ n ih =>
    rw [parseNum, if_pos (by omega)] at h
    obtain ⟨hi, hrest⟩ := of_run_byte_bind h
    have hbyte : advance buffer payload i = bufOf frame (payload + i) := hbuf _ hi
    rw [readNum, hbyte]
    split_ifs at hrest with hdigit
    · rw [if_pos ⟨by omega, hdigit⟩]
      exact ih hrest (by omega)
    · rw [if_neg (fun hc => hdigit hc.2), hdone hrest]

theorem matchBytes_value {o : ℕ} {l : List UInt8} {b : Bool} {text : List Char} {buffer : Buf}
    (hbuf : ∀ j < frame.length, buffer j = bufOf frame j) (h : (matchBytes frame o l).run = some (b, text)) :
    b = decide (load buffer o l.length = l) := by
  have hdone : ∀ {c : Bool}, (pure c : Print Bool).run = some (b, text) → b = c := by
    intro c hrun
    exact (Prod.mk.inj (Option.some.inj hrun)).1.symm
  induction l generalizing o with
  | nil => exact hdone h
  | cons x l ih =>
    rw [matchBytes] at h
    obtain ⟨hi, hrest⟩ := of_run_byte_bind h
    rw [List.length_cons, load_succ, hbuf o hi]
    split_ifs at hrest with hx
    · rw [ih hrest, hx]
      simp
    · rw [hdone hrest]
      simp [hx]

theorem isPing_eq (buffer : Buf) (o payloadLen : ℕ) :
    isPing (advance buffer o) payloadLen =
      (decide (6 ≤ payloadLen) && decide (load buffer o 5 = [0x70, 0x69, 0x6e, 0x67, 0x2d])) := by
  have hload : load buffer o 5 = [buffer o, buffer (o + 1), buffer (o + 2), buffer (o + 3), buffer (o + 4)] := rfl
  rw [isPing, hload, Bool.eq_iff_iff]
  simp [advance, and_assoc]

/-- What is found is what `handleUdp` finds in its buffer. -/
theorem findPing_value {o payloadLen : ℕ} {r : Option Int32} {text : List Char} {buffer : Buf}
    (hbuf : ∀ j < frame.length, buffer j = bufOf frame j) (h : (findPing frame o payloadLen).run = some (r, text)) :
    r = if isPing (advance buffer o) payloadLen then some (readNum (advance buffer o) payloadLen 5 0) else none := by
  have hnone : ∀ {text}, (pure none : Print (Option Int32)).run = some (r, text) → r = none := by
    intro text hrun
    exact (Prod.mk.inj (Option.some.inj hrun)).1.symm
  rw [findPing] at h
  rw [isPing_eq]
  by_cases h6 : 6 ≤ payloadLen
  · rw [if_pos h6] at h
    obtain ⟨b, t, t', hmatch, hrest⟩ := exists_of_run_bind h
    have hb := matchBytes_value hbuf hmatch
    change b = decide (load buffer o 5 = _) at hb
    rw [decide_eq_true h6, Bool.true_and, ← hb]
    cases b with
    | false => exact hnone hrest
    | true =>
      rw [if_pos rfl] at hrest
      obtain ⟨num, t₁, t₂, hnum, hpure⟩ := exists_of_run_bind hrest
      rw [if_pos rfl, ← parseNum_value hbuf hnum]
      exact (Prod.mk.inj (Option.some.inj hpure)).1.symm
  · rw [if_neg h6] at h
    rw [decide_eq_false h6, Bool.false_and, hnone h]
    rfl

/-- What is done with the log changes nothing. -/
theorem usePayload_value {info : Bool} {o payloadLen : ℕ} {r : Option Int32} {text : List Char} {buffer : Buf}
    (hbuf : ∀ j < frame.length, buffer j = bufOf frame j)
    (h : (usePayload frame info o payloadLen).run = some (r, text)) :
    r = if isPing (advance buffer o) payloadLen then some (readNum (advance buffer o) payloadLen 5 0) else none := by
  rw [usePayload] at h
  obtain ⟨-, -, t, -, hping⟩ := exists_of_run_bind h
  exact findPing_value hbuf hping

end Value

/-- Without a fault, the frames that are sent follow from what was found. -/
theorem readPayload_value {frame : Frame} (h : ReachesPayload frame) {info : Bool} {r : Option Int32} {text : List Char}
    (hrun : (readPayload frame info).run = some (r, text)) (mac : Buf) (transmit : Frame → Bool) (s : State) :
    (receive mac transmit s frame).2 =
      r.toList.map fun num =>
        pingFrame mac (store s.buffer 0 frame) ([0x70, 0x6f, 0x6e, 0x67, 0x2d] ++ numStr (num + 1)) := by
  have hlen := h.length
  have hframe : ∀ i < frame.length, store s.buffer 0 frame i = bufOf frame i :=
    fun _ hi => HttpHello.store_zero_apply s.buffer hi
  have hcount : payloadLen (store s.buffer 0 frame) = payloadLen (bufOf frame) := by
    rw [payloadLen, payloadLen, HttpHello.ntohsUnaligned_congr hframe (by omega)]
  have huse : (usePayload frame info 42 (payloadLen (store s.buffer 0 frame))).run = some (r, text) := by
    rw [hcount]
    exact (h.run_eq info).symm.trans hrun
  have hport : udpDstPort (store s.buffer 0 frame) = packetPrintUdpPort :=
    (HttpHello.ntohsUnaligned_congr hframe (show 36 + 2 ≤ frame.length by omega)).trans h.dstPort
  rw [receive_udp hlen h.ethType h.protocol h.dstIp, usePayload_value hframe huse]
  by_cases hp : isPing (advance (store s.buffer 0 frame) 42) (payloadLen (store s.buffer 0 frame)) = true
  · rw [if_pos ⟨hport, hp⟩, if_pos hp, Option.toList_some, List.map_singleton, pong]
  · rw [if_neg (fun hc => hp hc.2), if_neg hp, Option.toList_none, List.map_nil]

/-! ### Inside the frame -/

/-- The length field of the UDP header. -/
def udpLengthField (frame : Frame) : ℕ := (ntohsUnaligned (bufOf frame) 38).toNat

/-- Every byte that is taken for payload was received. -/
structure PayloadInside (frame : Frame) (info : Bool) : Prop where
  /-- No other byte is read. -/
  reads : Inside (readPayload frame info)
  /-- No other byte is counted. -/
  length_le : ReachesPayload frame → 42 ≤ frame.length ∧ payloadLen (bufOf frame) ≤ frame.length - 42

/-- The length that is used is right exactly if the length field has the header and ends in the frame. -/
theorem payloadLen_le_iff {frame : Frame} (hlen : 42 ≤ frame.length) (hsize : frame.length < 2 ^ 64) :
    payloadLen (bufOf frame) ≤ frame.length - 42 ↔
      8 ≤ udpLengthField frame ∧ udpLengthField frame ≤ frame.length - 34 := by
  have hfield : udpLengthField frame < 2 ^ 16 := (ntohsUnaligned (bufOf frame) 38).toNat_lt
  have heq : payloadLen (bufOf frame) = (udpLengthField frame + (2 ^ 64 - 8)) % 2 ^ 64 := rfl
  rw [heq]
  omega

/-- What the length counts is all that is read. -/
theorem inside_usePayload {frame : Frame} (info : Bool) {payload payloadLen : ℕ}
    (h : payload + payloadLen ≤ frame.length) : Inside (usePayload frame info payload payloadLen) := by
  rw [usePayload, inside_seq]
  constructor
  · rw [logPayload]
    cases info with
    | false => exact inside_pure ()
    | true => exact (inside_seq _ _).2 ⟨inside_puts _, (inside_seq _ _).2 ⟨inside_showPayload h 0, inside_puts _⟩⟩
  · rw [findPing]
    split_ifs with h6
    · obtain ⟨⟨b, t⟩, hmatch⟩ := Option.isSome_iff_exists.1
        (inside_matchBytes payload (show payload + 5 ≤ frame.length by omega) :
          (matchBytes frame payload [0x70, 0x69, 0x6e, 0x67, 0x2d]).run.isSome)
      obtain ⟨⟨num, t'⟩, hnum⟩ := Option.isSome_iff_exists.1
        (inside_parseNum h 5 0 : (parseNum frame payload payloadLen 5 0).run.isSome)
      rw [inside_bind hmatch]
      split_ifs
      · rw [inside_bind hnum]
        exact inside_pure _
      · exact inside_pure _
    · exact inside_pure _

/-- Every byte that is taken for payload was received exactly if, in a datagram to the port, the length field has
the header and no more than was received. The length of a frame is a `size_t`. -/
theorem payloadInside_iff {frame : Frame} (hsize : frame.length < 2 ^ 64) (info : Bool) :
    PayloadInside frame info ↔
      (ReachesPayload frame → 8 ≤ udpLengthField frame ∧ udpLengthField frame ≤ frame.length - 34) := by
  constructor
  · intro h hreach
    exact (payloadLen_le_iff hreach.length hsize).1 (h.length_le hreach).2
  · intro h
    by_cases hreach : ReachesPayload frame
    · have hlen := hreach.length
      have hcount := (payloadLen_le_iff hlen hsize).2 (h hreach)
      refine ⟨?_, fun _ => ⟨hlen, hcount⟩⟩
      rw [Inside, hreach.run_eq]
      exact inside_usePayload info (by omega)
    · refine ⟨?_, fun hc => absurd hc hreach⟩
      rw [Inside, run_readPayload_of_not hreach]
      rfl

/-- All of `ping-7` was received. -/
theorem payloadInside_seven : PayloadInside (pingFrom 0x62ba [0x37]) true := by
  have hlength : (pingFrom 0x62ba [0x37]).length = 48 := rfl
  exact (payloadInside_iff (by omega) true).2 fun _ => by decide

/-- Where the payload is cut off, the bytes behind the frame are shown in its place. -/
theorem not_payloadInside_cutOff :
    ¬ ∀ (frame : Frame) (info : Bool), frame.length < 2 ^ 64 → PayloadInside frame info := by
  intro h
  have hlength : ((pingFrom 0x62ba [0x37]).take 42).length = 42 := rfl
  have hsize : ((pingFrom 0x62ba [0x37]).take 42).length < 2 ^ 64 := by omega
  have hreach : ReachesPayload ((pingFrom 0x62ba [0x37]).take 42) :=
    ⟨by decide, rfl, rfl, rfl, rfl⟩
  have hcount := ((h _ true hsize).length_le hreach).2
  exact absurd ((payloadLen_le_iff hreach.length hsize).1 hcount) (by decide)

end Yasouos.Apps.PacketPrint
