import Yasouos.Apps.HttpResponse
import Yasouos.Apps.PacketPrint
import Yasouos.Net.Print
import Mathlib.Data.List.TakeWhile

/-!
# Pings and their answers

A datagram `ping-<number>` to port 5000 is answered by `pong-<number + 1>`. The number is read into an
`int` with no bound on its digits, the successor is written into `num_str` from its lowest digit on, and
the digits are then swapped in place. The datagram is looked for twenty bytes behind the Ethernet header,
whatever length the IP header states.

## The model

`IsPingDatagram` describes the pings that a client may send, with options in the IP header or without,
and `IsPong` the answer that it waits for. `Lookalike` is about the bytes where the application looks.

## What is proved

`answersPing_iff`: a ping is answered as it should be exactly if the successor of its number is an
`int` and the IP header has no options, or has options that look like the same ping.
-/

namespace Yasouos.Apps.PacketPrint

open Yasouos.Theory Yasouos.Net
open Yasouos.Apps.HttpHello (Frame decimalDigits reverse_decimalDigits)

/-! ### The digits of the answer -/

/-- The loop that turns the digits in `num_str` round. -/
def swapDigits (numStr : List UInt8) (i : ℕ) : List UInt8 :=
  if i < numStr.length / 2 then
    let tmp := numStr.getD i 0
    let swapped := (numStr.set i (numStr.getD (numStr.length - 1 - i) 0)).set (numStr.length - 1 - i) tmp
    swapDigits swapped (i + 1)
  else numStr
termination_by numStr.length / 2 - i
decreasing_by simp; omega

/-- The digits that are still to be swapped are those between the two ends. -/
theorem swapDigits_eq (x y z : List UInt8) (h : x.length = z.length) :
    swapDigits (x ++ y ++ z) x.length = x ++ y.reverse ++ z := by
  induction y using List.bidirectionalRec generalizing x z with
  | nil => rw [swapDigits, if_neg (by simp; omega), List.reverse_nil]
  | singleton b => rw [swapDigits, if_neg (by simp; omega), List.reverse_singleton]
  | cons_append a m b ih =>
    have hlast : (x ++ a :: (m ++ [b]) ++ z).length - 1 - x.length = x.length + 1 + m.length := by
      simp
      omega
    have hend : ∀ c, x ++ c :: (m ++ [b]) ++ z = (x ++ c :: m) ++ b :: z := by simp
    have hlen : ∀ c, (x ++ c :: m).length = x.length + 1 + m.length := by
      intro c
      simp
      omega
    have hrest := ih (x ++ [b]) (a :: z) (by simp [h])
    have hfst : (x ++ a :: (m ++ [b]) ++ z).getD x.length 0 = a := by simp
    have hsnd : (x ++ a :: (m ++ [b]) ++ z).getD (x.length + 1 + m.length) 0 = b := by
      rw [hend, ← hlen a]
      simp
    have hset : (x ++ a :: (m ++ [b]) ++ z).set x.length b = x ++ b :: (m ++ [b]) ++ z := by simp
    have hset' : (x ++ b :: (m ++ [b]) ++ z).set (x.length + 1 + m.length) a = (x ++ [b]) ++ m ++ a :: z := by
      rw [hend, ← hlen b]
      simp
    rw [swapDigits, if_pos (by simp; omega), hlast, hfst, hsnd, hset]
    simp only [hset']
    simpa using hrest

/-- The model writes the digits as the loops of the source do. -/
theorem numStr_eq_swapDigits {responseNum : Int32} (h : responseNum ≠ 0) :
    numStr responseNum = swapDigits (decimalDigits responseNum.toInt.toNat) 0 := by
  have hswap := swapDigits_eq [] (decimalDigits responseNum.toInt.toNat) [] rfl
  rw [List.nil_append, List.append_nil] at hswap
  rw [numStr, if_neg h, List.length_nil.symm, hswap]
  simp

/-- A number is written as its numeral; below zero there are no digits. -/
theorem numStr_eq (responseNum : Int32) :
    numStr responseNum = if 0 ≤ responseNum.toInt then numeral responseNum.toInt.toNat else [] := by
  have hzero : (0 : Int32).toInt = 0 := rfl
  by_cases h0 : responseNum = 0
  · subst h0
    rfl
  · have hne : responseNum.toInt ≠ 0 := fun h => h0 (Int32.toInt_inj.1 (h.trans hzero.symm))
    rw [numStr, if_neg h0]
    split_ifs with hpos
    · rw [reverse_decimalDigits (by omega)]
    · rw [show responseNum.toInt.toNat = 0 by omega, decimalDigits, if_neg (by omega), List.reverse_nil]

/-- A numeral is written for its number only. -/
theorem numStr_eq_numeral_iff {responseNum : Int32} {m : ℕ} : numStr responseNum = numeral m ↔ responseNum.toInt = m := by
  rw [numStr_eq]
  split_ifs with hpos
  · constructor
    · intro h
      have := numeral_injective h
      omega
    · intro h
      rw [h, Int.toNat_natCast]
  · constructor
    · intro h
      exact absurd h.symm (numeral_ne_nil m)
    · omega

theorem length_numStr_le (responseNum : Int32) : (numStr responseNum).length ≤ 10 := by
  have hlt : responseNum.toInt < 2 ^ 31 := responseNum.toInt_lt
  rw [numStr_eq]
  split_ifs with hpos
  · rw [length_numeral_le_iff (by decide)]
    omega
  · simp

/-! ### The digits of the ping -/

/-- The digits of a payload from an index on. -/
def digitsAt (payload : Buf) (payloadLen i : ℕ) : List UInt8 := (load payload i (payloadLen - i)).takeWhile isDigit

/-- The loop computes the value of the digits, up to multiples of `2 ^ 32`. -/
theorem readNum_eq (payload : Buf) (payloadLen : ℕ) {i v : ℕ} :
    readNum payload payloadLen i (Int32.ofNat v) = Int32.ofNat (decimalValueFrom v (digitsAt payload payloadLen i)) := by
  induction hn : payloadLen - i generalizing i v with
  | zero =>
    rw [readNum, if_neg (by omega), digitsAt, hn]
    rfl
  | succ n ih =>
    have hi : i < payloadLen := by omega
    have hcons : digitsAt payload payloadLen i =
        if isDigit (payload i) then payload i :: digitsAt payload payloadLen (i + 1) else [] := by
      rw [digitsAt, hn, load_succ, List.takeWhile_cons, digitsAt, show payloadLen - (i + 1) = n by omega]
    have hdigit : (0x30 ≤ payload i ∧ payload i ≤ 0x39) ↔ isDigit (payload i) = true := by
      rw [isDigit, Bool.and_eq_true, decide_eq_true_eq, decide_eq_true_eq]
    rw [readNum, hcons]
    by_cases hd : isDigit (payload i) = true
    · have hstep : Int32.ofNat v * 10 + Int32.ofNat ((payload i).toNat - 0x30) =
          Int32.ofNat (v * 10 + ((payload i).toNat - 0x30)) := by
        rw [Int32.ofNat_add, Int32.ofNat_mul]
        rfl
      rw [if_pos ⟨hi, hdigit.2 hd⟩, if_pos hd, hstep, ih (by omega)]
      rfl
    · rw [if_neg (fun h => hd (hdigit.1 h.2)), if_neg hd]
      rfl

/-- When the successor that is computed is the successor. -/
theorem toInt_succ_eq_iff (v n : ℕ) :
    (Int32.ofNat v + 1).toInt = ((n + 1 : ℕ) : ℤ) ↔ v % 2 ^ 32 = n % 2 ^ 32 ∧ n + 1 < 2 ^ 31 := by
  have hsucc : Int32.ofNat v + 1 = Int32.ofNat (v + 1) := by
    rw [Int32.ofNat_add]
    rfl
  rw [hsucc, Int32.toInt_ofNat', Int.bmod_def, Int32.size]
  split_ifs <;> omega

/-! ### Pings and pongs -/

/-- A UDP datagram to the port of the application in one frame: `ping-` and digits. -/
structure IsPingDatagram (frame : Frame) (digits : List UInt8) : Prop where
  ethType : ntohsUnaligned (bufOf frame) 12 = ethPIp
  version : bufOf frame 14 >>> 4 = 4
  ihl : 20 ≤ ipHeaderLen frame 14
  protocol : bufOf frame 23 = ipprotoUdp
  dstIp : ntohlUnaligned (bufOf frame) 30 = packetPrintIpAddr
  dstPort : ntohsUnaligned (bufOf frame) (14 + ipHeaderLen frame 14 + 2) = packetPrintUdpPort
  udpLength : (ntohsUnaligned (bufOf frame) (14 + ipHeaderLen frame 14 + 4)).toNat = 8 + (5 + digits.length)
  payload : load (bufOf frame) (14 + ipHeaderLen frame 14 + 8) (5 + digits.length) =
    [0x70, 0x69, 0x6e, 0x67, 0x2d] ++ digits
  length : 14 + ipHeaderLen frame 14 + 8 + (5 + digits.length) ≤ frame.length
  length_le : frame.length ≤ 2048
  digits_ne : digits ≠ []
  all_digits : ∀ b ∈ digits, isDigit b = true
  /-- The answer fits into `reply_payload_buf`. -/
  answer_le : 5 + (numeral (decimalValue digits + 1)).length ≤ 64

/-- A UDP datagram back to where the ping came from: `pong-` and the numeral of the next number. -/
structure IsPong (ping reply : Frame) (n : ℕ) : Prop where
  mac : load (bufOf reply) 0 6 = load (bufOf ping) 6 6
  ethType : ntohsUnaligned (bufOf reply) 12 = ethPIp
  versionIhl : bufOf reply 14 = 0x45
  protocol : bufOf reply 23 = ipprotoUdp
  dstIp : load (bufOf reply) 30 4 = load (bufOf ping) 26 4
  dstPort : ntohsUnaligned (bufOf reply) 36 = ntohsUnaligned (bufOf ping) (14 + ipHeaderLen ping 14)
  udpLength : (ntohsUnaligned (bufOf reply) 38).toNat = 8 + (reply.drop 42).length
  payload : reply.drop 42 = [0x70, 0x6f, 0x6e, 0x67, 0x2d] ++ numeral (n + 1)

/-- A ping is answered by one frame, and that is the pong. -/
def AnswersPing (mac : Buf) (transmit : Frame → Bool) (s : State) (frame : Frame) (digits : List UInt8) : Prop :=
  ∃ reply, (receive mac transmit s frame).2 = [reply] ∧ IsPong frame reply (decimalValue digits)

/-- Where the application looks, twenty bytes behind the Ethernet header, there is a ping from the same port with
the same number, up to multiples of `2 ^ 32`. -/
structure Lookalike (buffer : Buf) (frame : Frame) (digits : List UInt8) : Prop where
  dstPort : udpDstPort buffer = packetPrintUdpPort
  isPing : isPing (advance buffer 42) (payloadLen buffer) = true
  srcPort : udpSrcPort buffer = ntohsUnaligned (bufOf frame) (14 + ipHeaderLen frame 14)
  value : decimalValue (digitsAt (advance buffer 42) (payloadLen buffer) 5) % 2 ^ 32 = decimalValue digits % 2 ^ 32

section Ping

variable {frame : Frame} {digits : List UInt8}

/-- When the datagram that is sent is the pong. -/
theorem isPong_pingFrame_iff {buffer : Buf} (hbuf : ∀ i < 42, buffer i = bufOf frame i) (mac : Buf)
    {response : List UInt8} (hlen : response.length ≤ 64) (n : ℕ) :
    IsPong frame (pingFrame mac buffer response) n ↔
      udpSrcPort buffer = ntohsUnaligned (bufOf frame) (14 + ipHeaderLen frame 14) ∧
        response = [0x70, 0x6f, 0x6e, 0x67, 0x2d] ++ numeral (n + 1) := by
  have hport : ntohsUnaligned (bufOf (pingFrame mac buffer response)) 36 = udpSrcPort buffer := be16_htonsBytes _
  have hdrop : (pingFrame mac buffer response).drop 42 = response := rfl
  constructor
  · intro h
    exact ⟨hport.symm.trans h.dstPort, hdrop.symm.trans h.payload⟩
  · rintro ⟨hsrc, hresponse⟩
    have hmac : load buffer 6 6 = load (bufOf frame) 6 6 := load_congr fun i hi => hbuf (6 + i) (by omega)
    have hip : load buffer 26 4 = load (bufOf frame) 26 4 := load_congr fun i hi => hbuf (26 + i) (by omega)
    have hudp : ntohsUnaligned (bufOf (pingFrame mac buffer response)) 38 = 8 + UInt16.ofNat response.length :=
      be16_htonsBytes _
    refine ⟨?_, be16_htonsBytes _, rfl, rfl, ?_, hport.trans hsrc, ?_, hdrop.trans hresponse⟩
    · exact hmac
    · exact (raw32_load32 buffer 26).trans hip
    · rw [hudp, hdrop, UInt16.toNat_add, UInt16.toNat_ofNat', show (8 : UInt16).toNat = 8 from rfl]
      omega

/-- The answer is the pong exactly for a lookalike whose successor is an `int`. -/
theorem IsPingDatagram.answersPing_iff_lookalike (h : IsPingDatagram frame digits) (mac : Buf) (transmit : Frame → Bool)
    (s : State) :
    AnswersPing mac transmit s frame digits ↔
      Lookalike (store s.buffer 0 frame) frame digits ∧ decimalValue digits + 1 < 2 ^ 31 := by
  have hlen := h.length
  have hihl := h.ihl
  have hbuf : ∀ i < 42, store s.buffer 0 frame i = bufOf frame i := by
    intro i hi
    exact HttpHello.store_zero_apply s.buffer (by omega)
  have hpong : ∀ payload len, (pong payload len).length ≤ 64 := by
    intro payload len
    have := length_numStr_le (readNum payload len 5 0 + 1)
    rw [pong, List.length_append]
    change 5 + _ ≤ 64
    omega
  have hvalue : pong (advance (store s.buffer 0 frame) 42) (payloadLen (store s.buffer 0 frame)) =
      [0x70, 0x6f, 0x6e, 0x67, 0x2d] ++ numeral (decimalValue digits + 1) ↔
      decimalValue (digitsAt (advance (store s.buffer 0 frame) 42) (payloadLen (store s.buffer 0 frame)) 5) % 2 ^ 32 =
        decimalValue digits % 2 ^ 32 ∧ decimalValue digits + 1 < 2 ^ 31 := by
    rw [pong, List.append_cancel_left_eq, show (0 : Int32) = Int32.ofNat 0 from rfl, readNum_eq, numStr_eq_numeral_iff,
      toInt_succ_eq_iff]
    rfl
  rw [AnswersPing, receive_udp (by omega) h.ethType h.protocol h.dstIp mac transmit s]
  by_cases hping : udpDstPort (store s.buffer 0 frame) = packetPrintUdpPort ∧
      isPing (advance (store s.buffer 0 frame) 42) (payloadLen (store s.buffer 0 frame)) = true
  · rw [if_pos hping]
    constructor
    · rintro ⟨reply, hreply, his⟩
      obtain rfl := List.singleton_inj.1 hreply
      obtain ⟨hsrc, hresponse⟩ := (isPong_pingFrame_iff hbuf mac (hpong _ _) _).1 his
      obtain ⟨hnum, hlt⟩ := hvalue.1 hresponse
      exact ⟨⟨hping.1, hping.2, hsrc, hnum⟩, hlt⟩
    · rintro ⟨hlook, hlt⟩
      refine ⟨_, rfl, (isPong_pingFrame_iff hbuf mac (hpong _ _) _).2 ⟨hlook.srcPort, hvalue.2 ⟨hlook.value, hlt⟩⟩⟩
  · rw [if_neg hping]
    constructor
    · rintro ⟨reply, hreply, -⟩
      exact absurd hreply (by simp)
    · rintro ⟨hlook, -⟩
      exact absurd ⟨hlook.dstPort, hlook.isPing⟩ hping

/-- Without options the application looks at the ping. -/
theorem IsPingDatagram.lookalike (h : IsPingDatagram frame digits) (h20 : ipHeaderLen frame 14 = 20) (buf : Buf) :
    Lookalike (store buf 0 frame) frame digits := by
  have hlen := h.length
  have hframe : ∀ i < frame.length, store buf 0 frame i = bufOf frame i := fun _ hi => HttpHello.store_zero_apply buf hi
  have hdst := h.dstPort
  have hudp := h.udpLength
  have hpay := h.payload
  rw [h20] at hlen hdst hudp hpay
  have hpos : 0 < digits.length := List.length_pos_iff.2 h.digits_ne
  have hcount : payloadLen (store buf 0 frame) = 5 + digits.length := by
    rw [payloadLen, HttpHello.ntohsUnaligned_congr hframe (by omega), hudp]
    have := h.length_le
    change (8 + (5 + digits.length) + (2 ^ 64 - 8)) % 2 ^ 64 = 5 + digits.length
    omega
  have hload : load (store buf 0 frame) 42 (5 + digits.length) = [0x70, 0x69, 0x6e, 0x67, 0x2d] ++ digits := by
    rw [← hpay]
    exact load_congr fun i hi => hframe (42 + i) (by omega)
  rw [load_append] at hload
  obtain ⟨hword, hdigits⟩ := List.append_inj hload rfl
  constructor
  · exact (HttpHello.ntohsUnaligned_congr hframe (by change 36 + 2 ≤ _; omega)).trans hdst
  · have hbytes : ∀ i (hi : i < 5), store buf 0 frame (42 + i) = [0x70, 0x69, 0x6e, 0x67, 0x2d].getD i 0 := by
      intro i hi
      rw [← hword]
      simp [load, hi]
    rw [isPing, hcount]
    have hfive : (6 : ℕ) ≤ 5 + digits.length := by omega
    simp only [advance, hbytes 0 (by omega), hbytes 1 (by omega), hbytes 2 (by omega), hbytes 3 (by omega),
      hbytes 4 (by omega), hfive]
    rfl
  · rw [h20]
    exact HttpHello.ntohsUnaligned_congr hframe (by change 34 + 2 ≤ _; omega)
  · have hall : (load (store buf 0 frame) (42 + 5) digits.length).takeWhile isDigit = digits := by
      rw [hdigits]
      exact List.takeWhile_eq_self_iff.2 h.all_digits
    have hadvance : load (advance (store buf 0 frame) 42) 5 digits.length =
        load (store buf 0 frame) (42 + 5) digits.length := by
      simp only [load, advance, Nat.add_assoc]
    rw [digitsAt, hcount, Nat.add_sub_cancel_left, hadvance, hall]

end Ping

/-- A ping from port 49152 of `10.0.2.2`, with a given checksum of its IP header. -/
def pingFrom (checksum : UInt16) (digits : List UInt8) : Frame :=
  [0x52, 0x54, 0x00, 0x12, 0x34, 0x56, 0x52, 0x55, 0x0a, 0x00, 0x02, 0x02, 0x08, 0x00] ++ [0x45, 0] ++
    htonsBytes (UInt16.ofNat (33 + digits.length)) ++ [0, 1, 0, 0, 64, 17] ++ htonsBytes checksum ++
    [10, 0, 2, 2, 10, 0, 2, 15] ++ udpHeader 0xc000 5000 (UInt16.ofNat (5 + digits.length)) ++
    [0x70, 0x69, 0x6e, 0x67, 0x2d] ++ digits

/-- The digits of the largest `int`. -/
def intMax : List UInt8 := [0x32, 0x31, 0x34, 0x37, 0x34, 0x38, 0x33, 0x36, 0x34, 0x37]

end Yasouos.Apps.PacketPrint
