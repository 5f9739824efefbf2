import Yasouos.Apps.PacketPrint
import Yasouos.Net.Print

/-!
# Echo requests and their replies

The ICMP branch of `packet_print.c` answers an echo request. It reads the identifier and the sequence
number of the eight bytes that it takes for the ICMP header, twenty bytes behind the Ethernet header, and
builds a reply of eight bytes, whatever data the request has.

## The model

`IsEchoRequest` describes a request with its data, with options in the IP header or without, and
`IsEchoReply` the reply that the client waits for. `echoFrame` is the frame that is sent.

## What is proved

Without options in the IP header, every request gets one reply, which has no data: `receive_echoRequest`.
So a client that waits for its data is answered exactly if it sent none (`answersEcho_iff`).
-/

namespace Yasouos.Apps.PacketPrint

open Yasouos.Theory Yasouos.Net
open Yasouos.Apps.HttpHello (Frame)

/-! ### The reply that is built -/

/-- The eight bytes of an echo reply. -/
def icmpEcho (id sequence checksum : UInt16) : List UInt8 :=
  [icmpEchoReply, 0] ++ htonsBytes checksum ++ (htonsBytes id ++ htonsBytes sequence)

/-- The checksum that completes it. -/
def echoChecksum (id sequence : UInt16) : UInt16 :=
  complement (sumWords (bufOf (icmpEcho id sequence 0)) (sizeofIcmpHdr / 2))

/-- What `icmp_build_response` leaves in the buffer. -/
theorem icmpBuildResponse_eq (buf : Buf) (o : ℕ) (id sequence : UInt16) :
    icmpBuildResponse buf o id sequence = store buf o (icmpEcho id sequence (echoChecksum id sequence)) := by
  have hfields : store16 (store16 (store16 (store (store buf o [icmpEchoReply]) (o + 1) [0]) (o + 2) 0) (o + 4)
      (htons id)) (o + 6) (htons sequence) = store buf o (icmpEcho id sequence 0) := by
    rw [store16_htons, store16_htons]
    simp only [store16, writeHtonsUnaligned]
    rw [store_append _ (by simp), store_append _ (by simp), store_append _ (by simp), store_append _ (by simp)]
    rfl
  have hck : icmpChecksum (advance (store buf o (icmpEcho id sequence 0)) o) sizeofIcmpHdr =
      htons (echoChecksum id sequence) := by
    rw [icmpChecksum, if_neg (by decide), echoChecksum, sumWords_congr (by decide)]
    exact (load_advance_store _ _ _).trans (load_bufOf _).symm
  simp only [icmpBuildResponse]
  rw [hfields, hck, store16_htons, writeHtonsUnaligned]
  exact store_store buf rfl rfl

/-- The frame of a reply. -/
def echoFrame (mac buffer : Buf) (id sequence : UInt16) : Frame :=
  load buffer 6 6 ++ load mac 0 6 ++ htonsBytes ethPIp ++
    ipv4Header (load32 buffer 30) (load32 buffer 26) ipprotoIcmp (20 + 8) 64
      (headerChecksum (load32 buffer 30) (load32 buffer 26) ipprotoIcmp (20 + 8) 64) ++
    icmpEcho id sequence (echoChecksum id sequence)

theorem load_icmpReply (replyBuffer buffer mac : Buf) (id sequence : UInt16) :
    load (icmpBuildResponse (ipv4BuildHeader (buildEthHeader replyBuffer buffer mac) sizeofEthHdr (load32 buffer 30)
      (load32 buffer 26) ipprotoIcmp 8 64) (sizeofEthHdr + sizeofIpv4Hdr) id sequence) 0
      (sizeofEthHdr + sizeofIpv4Hdr + sizeofIcmpHdr) = echoFrame mac buffer id sequence := by
  have hlen : (echoFrame mac buffer id sequence).length = sizeofEthHdr + sizeofIpv4Hdr + sizeofIcmpHdr := rfl
  rw [icmpBuildResponse_eq, ipv4BuildHeader_eq, buildEthHeader, store16_htons, writeHtonsUnaligned,
    store_append _ (by simp), store_append _ (by simp), store_append _ (by simp), store_append _ (by simp), ← hlen]
  exact load_store _ _ _

/-- What is sent after an ICMP packet to the address. -/
theorem receive_icmp {frame : Frame} (hlen : 42 ≤ frame.length) (htype : ntohsUnaligned (bufOf frame) 12 = ethPIp)
    (hproto : bufOf frame 23 = ipprotoIcmp) (hip : ntohlUnaligned (bufOf frame) 30 = packetPrintIpAddr) (mac : Buf)
    (transmit : Frame → Bool) (s : State) :
    (receive mac transmit s frame).2 =
      if bufOf frame 34 = icmpEchoRequest then
        [echoFrame mac (bufOf frame) (ntohsUnaligned (bufOf frame) 38) (ntohsUnaligned (bufOf frame) 40)]
      else [] := by
  have hframe : ∀ i < frame.length, store s.buffer 0 frame i = bufOf frame i :=
    fun _ hi => HttpHello.store_zero_apply s.buffer hi
  have hword : ∀ o, o + 2 ≤ frame.length → ntohsUnaligned (store s.buffer 0 frame) o = ntohsUnaligned (bufOf frame) o :=
    fun o ho => HttpHello.ntohsUnaligned_congr hframe ho
  have hne : ipprotoIcmp ≠ ipprotoUdp ∧ ipprotoIcmp ≠ ipprotoTcp := by decide
  have hip' := (HttpHello.ntohlUnaligned_congr hframe (show 30 + 4 ≤ frame.length by omega)).trans hip
  have hlong : frame.length ≥ sizeofEthHdr + sizeofIpv4Hdr + sizeofIcmpHdr := hlen
  have hparse : icmpParse (advance (store s.buffer 0 frame) (sizeofEthHdr + sizeofIpv4Hdr)) sizeofIcmpHdr =
      some ⟨bufOf frame 34, bufOf frame 35, ntohsUnaligned (bufOf frame) 38, ntohsUnaligned (bufOf frame) 40⟩ := by
    rw [icmpParse, if_neg (by decide), ← hframe 34 (by omega), ← hframe 35 (by omega), ← hword 38 (by omega),
      ← hword 40 (by omega)]
    rfl
  have hecho : ∀ id sequence,
      echoFrame mac (store s.buffer 0 frame) id sequence = echoFrame mac (bufOf frame) id sequence := by
    intro id sequence
    have hsrc : load (store s.buffer 0 frame) 6 6 = load (bufOf frame) 6 6 :=
      load_congr fun i hi => hframe (6 + i) (by omega)
    rw [echoFrame, echoFrame, hsrc, HttpHello.load32_congr hframe (by omega), HttpHello.load32_congr hframe (by omega)]
  rw [receive_ip hlen htype, hproto, if_neg hne.1, if_neg hne.2, if_pos rfl, handleIcmp, if_pos ⟨hlong, hip'⟩, hparse]
  by_cases hrequest : bufOf frame 34 = icmpEchoRequest
  · rw [if_pos hrequest, ← hecho, ← load_icmpReply s.replyBuffer]
    simp only [hrequest, if_true]
  · rw [if_neg hrequest]
    simp only [hrequest, if_false]

/-! ### Requests and replies -/

/-- An ICMP echo request to the address of the application in one frame. -/
structure IsEchoRequest (frame : Frame) (data : List UInt8) : Prop where
  ethType : ntohsUnaligned (bufOf frame) 12 = ethPIp
  version : bufOf frame 14 >>> 4 = 4
  ihl : 20 ≤ ipHeaderLen frame 14
  headerSum : onesSum (words (load (bufOf frame) 14 (ipHeaderLen frame 14))) = 0xFFFF
  totalLength : (ntohsUnaligned (bufOf frame) 16).toNat = ipHeaderLen frame 14 + (8 + data.length)
  protocol : bufOf frame 23 = ipprotoIcmp
  dstIp : ntohlUnaligned (bufOf frame) 30 = packetPrintIpAddr
  type : bufOf frame (14 + ipHeaderLen frame 14) = icmpEchoRequest
  code : bufOf frame (14 + ipHeaderLen frame 14 + 1) = 0
  icmpSum : onesSum (words (load (bufOf frame) (14 + ipHeaderLen frame 14) (8 + data.length))) = 0xFFFF
  payload : load (bufOf frame) (14 + ipHeaderLen frame 14 + 8) data.length = data
  length : 14 + ipHeaderLen frame 14 + (8 + data.length) ≤ frame.length
  length_le : frame.length ≤ 2048

/-- The reply to a request: the addresses are swapped, and the identifier, the sequence number and the data are
those of the request. -/
structure IsEchoReply (request reply : Frame) (data : List UInt8) : Prop where
  ethType : ntohsUnaligned (bufOf reply) 12 = ethPIp
  versionIhl : bufOf reply 14 = 0x45
  protocol : bufOf reply 23 = ipprotoIcmp
  totalLength : (ntohsUnaligned (bufOf reply) 16).toNat = 28 + data.length
  srcIp : load (bufOf reply) 26 4 = load (bufOf request) 30 4
  dstIp : load (bufOf reply) 30 4 = load (bufOf request) 26 4
  headerSum : onesSum (words (load (bufOf reply) 14 20)) = 0xFFFF
  type : bufOf reply 34 = icmpEchoReply
  code : bufOf reply 35 = 0
  id : ntohsUnaligned (bufOf reply) 38 = ntohsUnaligned (bufOf request) (14 + ipHeaderLen request 14 + 4)
  sequence : ntohsUnaligned (bufOf reply) 40 = ntohsUnaligned (bufOf request) (14 + ipHeaderLen request 14 + 6)
  data : reply.drop 42 = data
  icmpSum : onesSum (words (reply.drop 34)) = 0xFFFF

/-- A request is answered by one frame, and that is the reply. -/
def AnswersEcho (mac : Buf) (transmit : Frame → Bool) (s : State) (frame : Frame) (data : List UInt8) : Prop :=
  ∃ reply, (receive mac transmit s frame).2 = [reply] ∧ IsEchoReply frame reply data

/-- Where the application looks, twenty bytes behind the Ethernet header, there is an echo request with the same
identifier and the same sequence number. -/
structure EchoLookalike (frame : Frame) : Prop where
  type : bufOf frame 34 = icmpEchoRequest
  id : ntohsUnaligned (bufOf frame) 38 = ntohsUnaligned (bufOf frame) (14 + ipHeaderLen frame 14 + 4)
  sequence : ntohsUnaligned (bufOf frame) 40 = ntohsUnaligned (bufOf frame) (14 + ipHeaderLen frame 14 + 6)

section Echo

variable {frame : Frame} {data : List UInt8}

/-- When the frame that is sent is the reply. -/
theorem isEchoReply_echoFrame_iff (mac : Buf) (id sequence : UInt16) :
    IsEchoReply frame (echoFrame mac (bufOf frame) id sequence) data ↔
      data = [] ∧ id = ntohsUnaligned (bufOf frame) (14 + ipHeaderLen frame 14 + 4) ∧
        sequence = ntohsUnaligned (bufOf frame) (14 + ipHeaderLen frame 14 + 6) := by
  have hid : ntohsUnaligned (bufOf (echoFrame mac (bufOf frame) id sequence)) 38 = id := be16_htonsBytes id
  have hsequence : ntohsUnaligned (bufOf (echoFrame mac (bufOf frame) id sequence)) 40 = sequence :=
    be16_htonsBytes sequence
  constructor
  · intro h
    exact ⟨h.data.symm, hid.symm.trans h.id, hsequence.symm.trans h.sequence⟩
  · rintro ⟨rfl, hid', hsequence'⟩
    refine ⟨be16_htonsBytes _, rfl, rfl, ?_, raw32_load32 _ _, raw32_load32 _ _, ?_, rfl, rfl, hid.trans hid',
      hsequence.trans hsequence', rfl, ?_⟩
    · exact congrArg UInt16.toNat (be16_htonsBytes (20 + 8))
    · rw [← fold_sum fun _ => word_lt]
      exact fold_ipv4Header (load32 (bufOf frame) 30) (load32 (bufOf frame) 26) ipprotoIcmp (20 + 8) 64
    · rw [← fold_sum fun _ => word_lt]
      exact fold_words_checksum rfl (by decide) rfl

/-- The reply is right exactly for a lookalike without data. -/
theorem IsEchoRequest.answersEcho_iff_lookalike (h : IsEchoRequest frame data) (mac : Buf) (transmit : Frame → Bool)
    (s : State) : AnswersEcho mac transmit s frame data ↔ data = [] ∧ EchoLookalike frame := by
  have hlen := h.length
  have hihl := h.ihl
  rw [AnswersEcho, receive_icmp (by omega) h.ethType h.protocol h.dstIp]
  by_cases htype : bufOf frame 34 = icmpEchoRequest
  · rw [if_pos htype]
    constructor
    · rintro ⟨reply, hreply, his⟩
      obtain rfl := List.singleton_inj.1 hreply
      obtain ⟨hdata, hid, hsequence⟩ := (isEchoReply_echoFrame_iff mac _ _).1 his
      exact ⟨hdata, htype, hid, hsequence⟩
    · rintro ⟨hdata, hlook⟩
      exact ⟨_, rfl, (isEchoReply_echoFrame_iff mac _ _).2 ⟨hdata, hlook.id, hlook.sequence⟩⟩
  · rw [if_neg htype]
    constructor
    · rintro ⟨reply, hreply, -⟩
      exact absurd hreply (by simp)
    · rintro ⟨-, hlook⟩
      exact absurd hlook.type htype

/-- Without options the application looks at the request. -/
theorem IsEchoRequest.lookalike (h : IsEchoRequest frame data) (h20 : ipHeaderLen frame 14 = 20) :
    EchoLookalike frame := by
  have htype := h.type
  rw [h20] at htype
  exact ⟨htype, by rw [h20], by rw [h20]⟩

/-- A client gets its data back exactly if it sent none, and the IP header has no options or options that look like
the same request. -/
theorem answersEcho_iff (h : IsEchoRequest frame data) (mac : Buf) (transmit : Frame → Bool) (s : State) :
    AnswersEcho mac transmit s frame data ↔ data = [] ∧ (ipHeaderLen frame 14 = 20 ∨ EchoLookalike frame) := by
  rw [h.answersEcho_iff_lookalike]
  refine and_congr_right fun _ => ⟨Or.inr, ?_⟩
  rintro (h20 | hlook)
  · exact h.lookalike h20
  · exact hlook

end Echo

/-- A request without options gets one reply with its identifier and its sequence number, and without data. -/
theorem receive_echoRequest {frame : Frame} {data : List UInt8} (h : IsEchoRequest frame data)
    (h20 : ipHeaderLen frame 14 = 20) (mac : Buf) (transmit : Frame → Bool) (s : State) :
    ∃ reply, (receive mac transmit s frame).2 = [reply] ∧ IsEchoReply frame reply [] := by
  have hlook := h.lookalike h20
  have hlen := h.length
  rw [receive_icmp (by omega) h.ethType h.protocol h.dstIp, if_pos hlook.type]
  exact ⟨_, rfl, (isEchoReply_echoFrame_iff mac _ _).2 ⟨rfl, hlook.id, hlook.sequence⟩⟩

/-- An echo request from `10.0.2.2`, with a given header length in words, options, and checksums. -/
def echoFrom (ihl : UInt8) (options : List UInt8) (headerChecksum icmpChecksum : UInt16) (data : List UInt8) : Frame :=
  [0x52, 0x54, 0x00, 0x12, 0x34, 0x56, 0x52, 0x55, 0x0a, 0x00, 0x02, 0x02, 0x08, 0x00] ++ [0x40 + ihl, 0] ++
    htonsBytes (UInt16.ofNat (28 + options.length + data.length)) ++ [0, 1, 0, 0, 64, 1] ++ htonsBytes headerChecksum ++
    [10, 0, 2, 2, 10, 0, 2, 15] ++ options ++ [8, 0] ++ htonsBytes icmpChecksum ++ [0x12, 0x34, 0, 1] ++ data

/-- The reply to a request with one byte of data. -/
theorem receive_echoRequest_byte :
    ∃ reply, (receive (fun _ => 0) (fun _ => true) ⟨fun _ => 0, fun _ => 0, false⟩
      (echoFrom 5 [] 0x62cf 0x84ca [0x61])).2 = [reply] ∧ IsEchoReply (echoFrom 5 [] 0x62cf 0x84ca [0x61]) reply [] := by
  have hrequest : IsEchoRequest (echoFrom 5 [] 0x62cf 0x84ca [0x61]) [0x61] :=
    ⟨rfl, rfl, by decide, rfl, rfl, rfl, rfl, rfl, rfl, rfl, rfl, by decide, by decide⟩
  exact receive_echoRequest hrequest rfl _ _ _

/-- One byte of data is not sent back, and with options there is no reply at all. -/
theorem not_answersEcho_byte :
    (IsEchoRequest (echoFrom 5 [] 0x62cf 0x84ca [0x61]) [0x61] ∧
      ∀ mac transmit s, ¬ AnswersEcho mac transmit s (echoFrom 5 [] 0x62cf 0x84ca [0x61]) [0x61]) ∧
    IsEchoRequest (echoFrom 6 [1, 1, 1, 0] 0x5fcb 0xe5ca []) [] ∧
      ∀ mac transmit s, ¬ AnswersEcho mac transmit s (echoFrom 6 [1, 1, 1, 0] 0x5fcb 0xe5ca []) [] := by
  have hbyte : IsEchoRequest (echoFrom 5 [] 0x62cf 0x84ca [0x61]) [0x61] :=
    ⟨rfl, rfl, by decide, rfl, rfl, rfl, rfl, rfl, rfl, rfl, rfl, by decide, by decide⟩
  have hoptions : IsEchoRequest (echoFrom 6 [1, 1, 1, 0] 0x5fcb 0xe5ca []) [] :=
    ⟨rfl, rfl, by decide, rfl, rfl, rfl, rfl, rfl, rfl, rfl, rfl, by decide, by decide⟩
  refine ⟨⟨hbyte, ?_⟩, hoptions, ?_⟩
  · intro mac transmit s hanswer
    exact absurd ((answersEcho_iff hbyte mac transmit s).1 hanswer).1 (by decide)
  · intro mac transmit s hanswer
    rcases ((answersEcho_iff hoptions mac transmit s).1 hanswer).2 with h20 | hlook
    · exact absurd h20 (by decide)
    · exact absurd hlook.type (by decide)

end Yasouos.Apps.PacketPrint
