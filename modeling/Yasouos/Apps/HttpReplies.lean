import Yasouos.Apps.HttpHello
import Mathlib.Tactic.Ring

/-!
# What the HTTP server answers

## What is proved

* `sendTcpPacket_readsBack` — a frame that is sent, read the way the server reads what it
  receives, gives back all that it was built from, and both its checksums are right.
* `acknowledged_iff` — the answers to a segment acknowledge it exactly when at most one of
  the blocks for SYN, data and FIN has something to do.
* `lengthsRespected_iff` — the payload length the server acts on is that of the frame
  exactly when the length fields agree, or no payload is seen.
* `noninterfering_iff` — what an earlier frame left in the buffer is never seen, but by ARP
  frames that end before their last field.
-/

namespace Yasouos.Apps.HttpHello

open Yasouos.Theory Yasouos.Net

/-! ### Reading a frame back -/

/-- What the server would read in a frame of its own. -/
theorem readSegment_tcpFrame (ourMac theirMac : Buf) (srcIp dstIp : UInt32) (srcPort dstPort : UInt16)
    (seq ack : UInt32) (flags : UInt8) (window : UInt16) (payload : List UInt8) :
    readSegment (bufOf (tcpFrame (load ourMac 0 6) (load theirMac 0 6) srcIp dstIp srcPort dstPort seq ack flags window
      payload)) =
      { srcPort, dstPort, theirSeq := seq, theirAck := ack, flags, dataOffset := 20
        ipTotalLen := 40 + UInt16.ofNat payload.length, tcpPayloadLen := UInt16.ofNat payload.length } := by
  have htotal : 20 + (20 + UInt16.ofNat payload.length) = 40 + UInt16.ofNat payload.length := by
    rw [← UInt16.add_assoc]
    rfl
  have hlen : 40 + UInt16.ofNat payload.length - 20 - UInt8.toUInt16 20 = UInt16.ofNat payload.length := by
    apply UInt16.toNat_inj.mp
    simp only [UInt16.toNat_sub, UInt16.toNat_add, UInt8.toNat_toUInt16, UInt8.reduceToNat, UInt16.reduceToNat,
      UInt16.toNat_ofNat']
    omega
  have hoff : (0x50 : UInt8) >>> 4 * 4 = 20 := by decide
  simp only [readSegment, ntohsUnaligned, ntohlUnaligned, tcpFrame, ipv4Header, tcpHeader, htonsBytes, htonlBytes, raw32,
    load, List.range_succ, List.range_zero, List.nil_append, List.cons_append, List.map_cons, List.map_nil, bufOf,
    List.getD_cons_succ, List.getD_cons_zero, be16_htonsBytes, be32_htonlBytes, hoff, htotal, hlen]

/-- The frame carries what `send_tcp_packet` was given. -/
structure ReadsBack (frame : Frame) (ourMac theirMac : Buf) (srcIpNet dstIpNet : UInt32) (srcPort dstPort : UInt16)
    (seq ack : UInt32) (flags : UInt8) (window : UInt16) (payload : List UInt8) : Prop where
  /-- The length of the frame. -/
  length : frame.length = 54 + payload.length
  /-- `eth->dst`. -/
  dst : load (bufOf frame) 0 6 = load theirMac 0 6
  /-- `eth->src`. -/
  src : load (bufOf frame) 6 6 = load ourMac 0 6
  /-- `eth->type`. -/
  ethType : ntohsUnaligned (bufOf frame) 12 = ethPIp
  /-- The header length in `ip->version_ihl`. -/
  ihl : bufOf frame 14 &&& 0x0F = 5
  /-- `ip->protocol`. -/
  protocol : bufOf frame 23 = ipprotoTcp
  /-- `ip->src_ip`. -/
  srcIp : load32 (bufOf frame) 26 = srcIpNet
  /-- `ip->dst_ip`. -/
  dstIp : load32 (bufOf frame) 30 = dstIpNet
  /-- The fields that the loop reads. -/
  segment : readSegment (bufOf frame) =
    { srcPort, dstPort, theirSeq := seq, theirAck := ack, flags, dataOffset := 20
      ipTotalLen := 40 + UInt16.ofNat payload.length, tcpPayloadLen := UInt16.ofNat payload.length }
  /-- The lengths do not wrap. -/
  totalLength : (readSegment (bufOf frame)).ipTotalLen.toNat = 40 + payload.length
  /-- `tcp->window`. -/
  win : ntohsUnaligned (bufOf frame) 48 = window
  /-- The payload. -/
  data : frame.drop 54 = payload
  /-- The checksum of the IP header. -/
  ipChecksum : ipv4VerifyChecksum (advance (bufOf frame) 14) = true
  /-- The sum of pseudo-header and segment. -/
  tcpChecksum : fold (words (pseudoHeader srcIpNet dstIpNet (UInt16.ofNat (20 + payload.length)) ++ frame.drop 34)).sum =
    0xFFFF

/-- A frame that is sent reads back. -/
theorem tcpFrame_readsBack (ourMac theirMac : Buf) (srcIpNet dstIpNet : UInt32) (srcPort dstPort : UInt16)
    (seq ack : UInt32) (flags : UInt8) (window : UInt16) {payload : List UInt8} (hlen : payload.length ≤ 1994) :
    ReadsBack (tcpFrame (load ourMac 0 6) (load theirMac 0 6) srcIpNet dstIpNet srcPort dstPort seq ack flags window
      payload) ourMac theirMac srcIpNet dstIpNet srcPort dstPort seq ack flags window payload := by
  have hseg := readSegment_tcpFrame ourMac theirMac srcIpNet dstIpNet srcPort dstPort seq ack flags window payload
  have hdrop : (tcpFrame (load ourMac 0 6) (load theirMac 0 6) srcIpNet dstIpNet srcPort dstPort seq ack flags window
      payload).drop 34 = tcpHeader srcPort dstPort seq ack flags window (segmentChecksum srcIpNet dstIpNet
        (tcpHeader srcPort dstPort seq ack flags window 0 ++ payload)) ++ payload :=
    List.drop_left' (by simp)
  have hip : load (advance (bufOf (tcpFrame (load ourMac 0 6) (load theirMac 0 6) srcIpNet dstIpNet srcPort dstPort seq
      ack flags window payload)) 14) 0 20 =
      ipv4Header srcIpNet dstIpNet ipprotoTcp (20 + (20 + UInt16.ofNat payload.length)) 64
        (headerChecksum srcIpNet dstIpNet ipprotoTcp (20 + (20 + UInt16.ofNat payload.length)) 64) := by
    rw [load_advance]
    exact load_bufOf_append _ _ _
  have hlength : (40 + UInt16.ofNat payload.length).toNat = 40 + payload.length := by
    simp only [UInt16.toNat_add, UInt16.toNat_ofNat', UInt16.reduceToNat]
    omega
  have hsum : fold (words (pseudoHeader srcIpNet dstIpNet (UInt16.ofNat (20 + payload.length)) ++
      (tcpFrame (load ourMac 0 6) (load theirMac 0 6) srcIpNet dstIpNet srcPort dstPort seq ack flags window
        payload).drop 34)).sum = 0xFFFF := by
    rw [hdrop, words_append (by simp [pseudoHeader]), List.sum_append,
      ← fold_segment srcPort dstPort seq ack flags window srcIpNet dstIpNet payload, segmentSum, List.length_append,
      length_tcpHeader]
  refine ⟨length_tcpFrame (length_load _ _ _) (length_load _ _ _) _ _ _ _ _ _ _ _ _, ?_, ?_, ?_, ?_, ?_, ?_, ?_, hseg,
    by rw [hseg, hlength], ?_, ?_, ipv4VerifyChecksum_header hip, hsum⟩
  · rw [tcpFrame]
    simp [load, List.range_succ, bufOf]
  · rw [tcpFrame]
    simp [load, List.range_succ, bufOf]
  all_goals simp only [ntohsUnaligned, load32, tcpFrame, ipv4Header, tcpHeader, htonsBytes, htonlBytes, raw32,
    load, List.range_succ, List.range_zero, List.nil_append, List.cons_append, List.map_cons, List.map_nil, bufOf,
    List.getD_cons_succ, List.getD_cons_zero, be16_htonsBytes, be32_htonlBytes, List.drop_succ_cons, List.drop_zero]
  decide

/-- `send_tcp_packet` sends a frame that reads back. -/
theorem sendTcpPacket_readsBack (replyBuffer ourMac theirMac : Buf) (srcIpNet dstIpNet : UInt32)
    (srcPort dstPort : UInt16) (seq ack : UInt32) (flags : UInt8) (window : UInt16) (payload : Buf) (payloadLen : UInt16)
    (hlen : payloadLen.toNat ≤ 1994) :
    ReadsBack (sendTcpPacket replyBuffer ourMac theirMac srcIpNet dstIpNet srcPort dstPort seq ack flags window payload
      payloadLen).2 ourMac theirMac srcIpNet dstIpNet srcPort dstPort seq ack flags window
      (load payload 0 payloadLen.toNat) := by
  rw [sendTcpPacket_eq _ _ _ _ _ _ _ _ _ _ _ _ (by omega)]
  apply tcpFrame_readsBack
  rw [length_load]
  exact hlen

/-- An odd payload. -/
theorem sendTcpPacket_readsBack_three :
    (3 : UInt16).toNat ≤ 1994 ∧
      ReadsBack (sendTcpPacket (bufOf []) (bufOf [1, 2, 3, 4, 5, 6]) (bufOf [7, 8, 9, 10, 11, 12]) 0x0f02000a 0x0202000a 80
        1234 1001 100 (tcpFlagPsh ||| tcpFlagAck) 65535 (bufOf [0x61, 0x62, 0x63]) 3).2 (bufOf [1, 2, 3, 4, 5, 6])
        (bufOf [7, 8, 9, 10, 11, 12]) 0x0f02000a 0x0202000a 80 1234 1001 100 (tcpFlagPsh ||| tcpFlagAck) 65535
        (load (bufOf [0x61, 0x62, 0x63]) 0 (3 : UInt16).toNat) :=
  ⟨by decide, sendTcpPacket_readsBack _ _ _ _ _ _ _ _ _ _ _ _ 3 (by decide)⟩

/-! ### Acknowledgement numbers -/

/-- The segment has the SYN flag. -/
abbrev Segment.Syn (seg : Segment) : Prop := seg.flags &&& tcpFlagSyn ≠ 0

/-- The segment has the FIN flag. -/
abbrev Segment.Fin (seg : Segment) : Prop := seg.flags &&& tcpFlagFin ≠ 0

/-- A TCP/IPv4 segment to the port with `p` bytes of payload, all lengths consistent. -/
structure WellFormed (frame : Frame) (p : ℕ) : Prop where
  /-- It is a segment to the port. -/
  segment : IsHttpSegment (bufOf frame) frame.length
  /-- The IP header has no options. -/
  ihl : bufOf frame 14 &&& 0x0F = 5
  /-- The TCP header is whole. -/
  dataOffset : 20 ≤ (readSegment (bufOf frame)).dataOffset.toNat
  /-- The total length is that of headers and payload. -/
  totalLength : (readSegment (bufOf frame)).ipTotalLen.toNat =
    20 + (readSegment (bufOf frame)).dataOffset.toNat + p
  /-- The payload is in the frame. -/
  present : 34 + (readSegment (bufOf frame)).dataOffset.toNat + p ≤ frame.length

/-- The acknowledgement numbers of some frames. -/
def acks (frames : List Frame) : List UInt32 := frames.map fun frame => (readSegment (bufOf frame)).theirAck

/-- The order of sequence numbers, modulo `2 ^ 32`. -/
def SeqLe (a b : UInt32) : Prop := (b - a).toNat < 2 ^ 31

instance : DecidableRel SeqLe := fun a b => inferInstanceAs (Decidable ((b - a).toNat < 2 ^ 31))

/-- The sequence number after a segment with `p` bytes of payload: a SYN and a FIN take
one each. -/
def Segment.seqEnd (seg : Segment) (p : ℕ) : UInt32 :=
  seg.theirSeq + UInt32.ofNat p + (if seg.Syn then 1 else 0) + (if seg.Fin then 1 else 0)

/-- The answers to a segment acknowledge it: the last one acknowledges all of it, and none
takes back what the one before acknowledged. -/
def Acknowledged (seg : Segment) (p : ℕ) (answers : List Frame) : Prop :=
  (∀ ack ∈ (acks answers).getLast?, ack = seg.seqEnd p) ∧ (acks answers).IsChain SeqLe

theorem theirAck_reply (mac buf : Buf) (seq ack : UInt32) (flags : UInt8) (payload : List UInt8) :
    (readSegment (bufOf (reply mac buf seq ack flags payload))).theirAck = ack := by
  rw [reply, ← load_advance buf, readSegment_tcpFrame]

/-- The payload length is a difference of 16-bit numbers. -/
theorem toNat_tcpPayloadLen (buf : Buf) :
    (readSegment buf).tcpPayloadLen.toNat =
      ((readSegment buf).ipTotalLen.toNat + 2 ^ 17 - 20 - (readSegment buf).dataOffset.toNat) % 2 ^ 16 := by
  have hdef : (readSegment buf).tcpPayloadLen =
      (readSegment buf).ipTotalLen - 20 - (readSegment buf).dataOffset.toUInt16 := rfl
  have hlt := (readSegment buf).ipTotalLen.toNat_lt
  have hoff := (readSegment buf).dataOffset.toNat_lt
  rw [hdef, UInt16.toNat_sub, UInt16.toNat_sub, UInt8.toNat_toUInt16, show (20 : UInt16).toNat = 20 from rfl]
  omega

theorem WellFormed.tcpPayloadLen {frame : Frame} {p : ℕ} (h : WellFormed frame p) :
    (readSegment (bufOf frame)).tcpPayloadLen.toNat = p := by
  have htotal := h.totalLength
  have hlt := (readSegment (bufOf frame)).ipTotalLen.toNat_lt
  rw [toNat_tcpPayloadLen]
  omega

/-- Each block acknowledges what it looks at. -/
theorem acks_receive (mac : Buf) (s : State) {frame : Frame} (h : IsHttpSegment (bufOf frame) frame.length) :
    acks (receive mac s frame).2 =
      (if (readSegment (bufOf frame)).Syn then [(readSegment (bufOf frame)).theirSeq + 1] else []) ++
      (if (readSegment (bufOf frame)).tcpPayloadLen > 0 then
        [(readSegment (bufOf frame)).theirSeq + (readSegment (bufOf frame)).tcpPayloadLen.toUInt32] else []) ++
      (if (readSegment (bufOf frame)).Fin ∧ ¬ (readSegment (bufOf frame)).Syn then
        [(readSegment (bufOf frame)).theirSeq + 1] else []) := by
  rw [(receive_tcp mac s h).1, acks, List.map_append, List.map_append]
  simp only [synReplies, dataReplies, finReplies, Segment.Syn, Segment.Fin, not_not, apply_ite (List.map _),
    List.map_cons, List.map_nil, theirAck_reply]

/-- The answers to a segment acknowledge it exactly when it has at most one of a SYN, a
FIN and a payload: each block acknowledges as if it were the only one. -/
theorem acknowledged_iff (mac : Buf) (s : State) {frame : Frame} {p : ℕ} (h : WellFormed frame p) :
    Acknowledged (readSegment (bufOf frame)) p (receive mac s frame).2 ↔
      ((readSegment (bufOf frame)).Syn → ¬ (readSegment (bufOf frame)).Fin ∧ p = 0) ∧
        ((readSegment (bufOf frame)).Fin → p = 0) := by
  have hlen := h.tcpPayloadLen
  have hlt := (readSegment (bufOf frame)).tcpPayloadLen.toNat_lt
  have hpos : (readSegment (bufOf frame)).tcpPayloadLen > 0 ↔ p ≠ 0 := by
    rw [gt_iff_lt, UInt16.lt_iff_toNat_lt, hlen, show (0 : UInt16).toNat = 0 from rfl]
    omega
  have hof : (readSegment (bufOf frame)).tcpPayloadLen.toUInt32 = UInt32.ofNat p := by
    apply UInt32.toNat_inj.mp
    rw [UInt16.toNat_toUInt32, hlen, UInt32.toNat_ofNat']
    omega
  have hp : (UInt32.ofNat p).toNat = p := by
    rw [UInt32.toNat_ofNat']
    omega
  have hne : p ≠ 0 → UInt32.ofNat p ≠ 0 := fun h0 h => h0 (by rw [← hp, h]; rfl)
  have htwo : ∀ x : UInt32, x ≠ x + 1 + 1 := by
    intro x hx
    have hx := congrArg UInt32.toNat hx
    rw [UInt32.toNat_add, UInt32.toNat_add, show (1 : UInt32).toNat = 1 from rfl] at hx
    omega
  rw [Acknowledged, acks_receive mac s h.segment, hof, Segment.seqEnd]
  simp only [hpos]
  generalize readSegment (bufOf frame) = seg at *
  by_cases hsyn : seg.Syn
  · -- no answer counts the FIN, and the data block does not count the SYN
    by_cases h0 : p = 0
    · by_cases hfin : seg.Fin <;> simp [hsyn, hfin, h0]
    · by_cases hfin : seg.Fin <;> simp [hsyn, hfin, h0, htwo]
  · -- the FIN block does not count the data
    by_cases h0 : p = 0
    · by_cases hfin : seg.Fin <;> simp [hsyn, hfin, h0]
    · by_cases hfin : seg.Fin <;> simp [hsyn, hfin, h0, hne h0]

/-- A segment from 10.0.2.2 with two bytes of payload, and the given flags. -/
def twoBytes (flags : UInt8) : Frame :=
  [0x52, 0x54, 0x00, 0x12, 0x34, 0x56, 0x52, 0x55, 0x0a, 0x00, 0x02, 0x02, 0x08, 0x00,
    0x45, 0x00, 0x00, 0x2a, 0x00, 0x01, 0x00, 0x00, 0x40, 0x06, 0x62, 0xbd, 0x0a, 0x00, 0x02, 0x02, 0x0a, 0x00, 0x02, 0x0f,
    0x04, 0xd2, 0x00, 0x50, 0x00, 0x00, 0x00, 0x64, 0x00, 0x00, 0x03, 0xe9, 0x50, flags, 0xff, 0xff, 0x00, 0x00, 0x00, 0x00,
    0x68, 0x69]

/-- The server as it starts, with empty buffers. -/
def start : State := { buffer := bufOf [], replyBuffer := bufOf [], isnCounter := 1000 }

/-- Data alone is acknowledged. -/
theorem acknowledged_twoBytes :
    Acknowledged (readSegment (bufOf (twoBytes (tcpFlagPsh ||| tcpFlagAck)))) 2
      (receive (bufOf []) start (twoBytes (tcpFlagPsh ||| tcpFlagAck))).2 := by
  apply (acknowledged_iff (bufOf []) start ⟨by decide, by decide, by decide, by decide, by decide⟩).mpr
  decide

/-- Data with a FIN is not: the last answer acknowledges one byte of it. -/
theorem not_acknowledged_fin :
    ¬ ∀ (mac : Buf) (s : State) (frame : Frame) (p : ℕ), WellFormed frame p →
      Acknowledged (readSegment (bufOf frame)) p (receive mac s frame).2 := by
  intro h
  have hwf : WellFormed (twoBytes (tcpFlagFin ||| tcpFlagPsh ||| tcpFlagAck)) 2 :=
    ⟨by decide, by decide, by decide, by decide, by decide⟩
  have hlast := (h (bufOf []) start _ 2 hwf).1
  rw [acks_receive _ _ hwf.segment] at hlast
  exact absurd (hlast 101 (by decide)) (by decide)

/-! ### Payload lengths -/

/-- The length fields of a frame contradict each other, or the length of the frame. -/
def Inconsistent (frame : Frame) : Prop :=
  (readSegment (bufOf frame)).ipTotalLen.toNat < 20 + (readSegment (bufOf frame)).dataOffset.toNat ∨
    (readSegment (bufOf frame)).dataOffset.toNat < 20 ∨
    frame.length - 14 < (readSegment (bufOf frame)).ipTotalLen.toNat

/-- A frame with inconsistent lengths gets no response, and the payload length never
exceeds what follows the TCP header. -/
def LengthsRespected (mac : Buf) (s : State) (frame : Frame) : Prop :=
  (Inconsistent frame → ∀ answer ∈ (receive mac s frame).2,
    answer.drop 54 ≠ buildHttpResponse (ntohlUnaligned (bufOf frame) 26)) ∧
  (readSegment (bufOf frame)).tcpPayloadLen.toNat ≤
    frame.length - (34 + (readSegment (bufOf frame)).dataOffset.toNat)

theorem drop_reply (mac buf : Buf) (seq ack : UInt32) (flags : UInt8) {payload : List UInt8}
    (h : payload.length ≤ 1994) : (reply mac buf seq ack flags payload).drop 54 = payload := by
  rw [reply, ← load_advance buf]
  exact (tcpFrame_readsBack _ _ _ _ _ _ _ _ _ _ h).data

theorem tcpPayloadLen_eq_zero_iff (buf : Buf) :
    (readSegment buf).tcpPayloadLen.toNat = 0 ↔
      (readSegment buf).ipTotalLen.toNat = 20 + (readSegment buf).dataOffset.toNat := by
  have hlt := (readSegment buf).ipTotalLen.toNat_lt
  have hoff := (readSegment buf).dataOffset.toNat_lt
  rw [toNat_tcpPayloadLen]
  omega

/-- No frame carries the response exactly when no payload is seen. -/
theorem no_response_iff (mac : Buf) (s : State) {frame : Frame} (h : IsHttpSegment (bufOf frame) frame.length) :
    (∀ answer ∈ (receive mac s frame).2, answer.drop 54 ≠ buildHttpResponse (ntohlUnaligned (bufOf frame) 26)) ↔
      (readSegment (bufOf frame)).tcpPayloadLen.toNat = 0 := by
  have hresponse := length_buildHttpResponse (ntohlUnaligned (bufOf frame) 26)
  have hpos : (readSegment (bufOf frame)).tcpPayloadLen > 0 ↔ (readSegment (bufOf frame)).tcpPayloadLen.toNat ≠ 0 := by
    rw [gt_iff_lt, UInt16.lt_iff_toNat_lt, show (0 : UInt16).toNat = 0 from rfl]
    omega
  have hempty : ∀ seq ack flags, (reply mac (bufOf frame) seq ack flags []).drop 54 ≠
      buildHttpResponse (ntohlUnaligned (bufOf frame) 26) := by
    intro seq ack flags heq
    rw [drop_reply _ _ _ _ _ (by simp)] at heq
    rw [← heq] at hresponse
    simp at hresponse
  rw [(receive_tcp mac s h).1]
  constructor
  · intro hno
    by_contra h0
    refine hno (reply mac (bufOf frame) (readSegment (bufOf frame)).theirAck
      ((readSegment (bufOf frame)).theirSeq + (readSegment (bufOf frame)).tcpPayloadLen.toUInt32)
      (tcpFlagPsh ||| tcpFlagAck) (buildHttpResponse (ntohlUnaligned (bufOf frame) 26))) ?_ ?_
    · simp [dataReplies, hpos.mpr h0]
    · exact drop_reply _ _ _ _ _ (by omega)
  · intro h0 answer hmem
    have hdata : dataReplies mac (bufOf frame) = [] := if_neg (by rw [hpos]; exact not_not.mpr h0)
    rw [hdata, List.append_nil, List.mem_append, synReplies, finReplies] at hmem
    rcases hmem with hmem | hmem <;> split_ifs at hmem
    · rw [List.mem_singleton.mp hmem]
      exact hempty _ _ _
    · simp at hmem
    · rw [List.mem_singleton.mp hmem]
      exact hempty _ _ _
    · simp at hmem

/-- Lengths are respected exactly when they are consistent or the total length is just
that of the two headers: the payload length is compared with nothing, and wraps. -/
theorem lengthsRespected_iff (mac : Buf) (s : State) {frame : Frame} (h : IsHttpSegment (bufOf frame) frame.length) :
    LengthsRespected mac s frame ↔
      (Inconsistent frame → (readSegment (bufOf frame)).ipTotalLen.toNat =
        20 + (readSegment (bufOf frame)).dataOffset.toNat) := by
  rw [LengthsRespected, no_response_iff mac s h, ← tcpPayloadLen_eq_zero_iff]
  constructor
  · exact And.left
  · intro hcons
    refine ⟨hcons, ?_⟩
    by_cases hin : Inconsistent frame
    · rw [hcons hin]
      exact Nat.zero_le _
    · have hlt := (readSegment (bufOf frame)).ipTotalLen.toNat_lt
      simp only [Inconsistent, not_or, not_lt] at hin
      rw [toNat_tcpPayloadLen]
      omega

/-- An acknowledgement from 10.0.2.2 without payload, with a given low byte of the total
length. -/
def bareAck (totalLength : UInt8) : Frame :=
  [0x52, 0x54, 0x00, 0x12, 0x34, 0x56, 0x52, 0x55, 0x0a, 0x00, 0x02, 0x02, 0x08, 0x00,
    0x45, 0x00, 0x00, totalLength, 0x00, 0x01, 0x00, 0x00, 0x40, 0x06, 0x00, 0x00, 0x0a, 0x00, 0x02, 0x02, 0x0a, 0x00,
    0x02, 0x0f, 0x04, 0xd2, 0x00, 0x50, 0x00, 0x00, 0x00, 0x64, 0x00, 0x00, 0x03, 0xe9, 0x50, tcpFlagAck, 0xff, 0xff,
    0x00, 0x00, 0x00, 0x00]

instance (frame : Frame) : Decidable (Inconsistent frame) := inferInstanceAs (Decidable (_ ∨ _ ∨ _))

/-- The right total length is respected. -/
theorem lengthsRespected_bareAck : LengthsRespected (bufOf []) start (bareAck 40) := by
  apply (lengthsRespected_iff (bufOf []) start (by decide)).mpr
  decide

/-- A total length one byte short of the headers is taken for 65535 bytes of payload, and
the response is sent. -/
theorem not_lengthsRespected_short :
    ¬ ∀ (mac : Buf) (s : State) (frame : Frame), IsHttpSegment (bufOf frame) frame.length → Inconsistent frame →
      ∀ answer ∈ (receive mac s frame).2, answer.drop 54 ≠ buildHttpResponse (ntohlUnaligned (bufOf frame) 26) := by
  intro h
  have hno := h (bufOf []) start (bareAck 39) (by decide) (by decide)
  rw [no_response_iff _ _ (by decide)] at hno
  exact absurd hno (by decide)

/-! ### What is left in the buffer -/

/-- The answers do not depend on what an earlier frame left in the buffers. -/
def Noninterfering (mac : Buf) (frame : Frame) : Prop :=
  ∀ s t : State, s.isnCounter = t.isnCounter → (receive mac s frame).2 = (receive mac t frame).2

/-- A frame too short for an ARP packet that can pass for a request. -/
def ShortArpRequest (frame : Frame) : Prop :=
  (14 ≤ frame.length ∧ frame.length < 42) ∧ ntohsUnaligned (bufOf frame) 12 = ethPArp ∧
    (20 < frame.length → bufOf frame 20 = 0) ∧ (21 < frame.length → bufOf frame 21 = 1)

instance (frame : Frame) : Decidable (ShortArpRequest frame) := inferInstanceAs (Decidable (_ ∧ _ ∧ _ ∧ _))

theorem toUInt8_be32 (a b c d : UInt8) : (be32 a b c d).toUInt8 = d := by
  apply UInt8.toNat_inj.mp
  rw [UInt32.toNat_toUInt8, toNat_be32]
  have := d.toNat_lt
  omega

theorem be16_eq_one_iff (a b : UInt8) : be16 a b = 1 ↔ a = 0 ∧ b = 1 := by
  rw [← UInt16.toNat_inj, ← UInt8.toNat_inj, ← UInt8.toNat_inj, toNat_be16]
  have := b.toNat_lt
  simp
  omega

/-- The answer to an ARP frame. -/
theorem receive_arp (mac : Buf) (s : State) {frame : Frame} (hlen : 14 ≤ frame.length)
    (htype : ntohsUnaligned (bufOf frame) 12 = ethPArp) :
    (receive mac s frame).2 =
      if ntohsUnaligned (store s.buffer 0 frame) 20 = arpOpRequest then
        [arpReply (load mac 0 6) (ntohlUnaligned (store s.buffer 0 frame) 38) (load (store s.buffer 0 frame) 22 6)
          (ntohlUnaligned (store s.buffer 0 frame) 28)]
      else [] := by
  have hread : ∀ i < 14, store s.buffer 0 frame i = bufOf frame i := fun i hi => store_zero_apply _ (by omega)
  rw [← ntohsUnaligned_congr hread (by omega)] at htype
  rw [receive, handleFrame, if_neg (by simpa using hlen), if_pos htype, handleArp]
  split_ifs
  · simp only [load_arpBuildReply, load_advance]
  · rfl

/-- What is not ARP and not a segment to the port is not answered. -/
theorem receive_other (mac : Buf) (s : State) {frame : Frame}
    (harp : ¬ (14 ≤ frame.length ∧ ntohsUnaligned (bufOf frame) 12 = ethPArp))
    (htcp : ¬ IsHttpSegment (bufOf frame) frame.length) : (receive mac s frame).2 = [] := by
  have hread : ∀ i < frame.length, store s.buffer 0 frame i = bufOf frame i := fun i hi => store_zero_apply _ hi
  rw [receive, handleFrame_other]
  · rintro ⟨hlen, htype⟩
    rw [ntohsUnaligned_congr hread (by omega)] at htype
    exact harp ⟨hlen, htype⟩
  · intro h
    have hlen := h.1
    exact htcp ((isHttpSegment_congr (fun i hi => hread i (by omega)) _).mp h)

/-- A whole ARP packet is answered from its own bytes. -/
theorem noninterfering_arp (mac : Buf) {frame : Frame} (hlen : 42 ≤ frame.length)
    (htype : ntohsUnaligned (bufOf frame) 12 = ethPArp) : Noninterfering mac frame := by
  intro s t _
  have hread : ∀ i < 42, store s.buffer 0 frame i = store t.buffer 0 frame i := by
    intro i hi
    rw [store_zero_apply _ (by omega), store_zero_apply _ (by omega)]
  have hmac : load (store s.buffer 0 frame) 22 6 = load (store t.buffer 0 frame) 22 6 :=
    load_congr fun i hi => hread (22 + i) (by omega)
  rw [receive_arp mac s (by omega) htype, receive_arp mac t (by omega) htype, hmac,
    ntohsUnaligned_congr hread (o := 20) (by omega), ntohlUnaligned_congr hread (o := 38) (by omega),
    ntohlUnaligned_congr hread (o := 28) (by omega)]

/-- A short ARP frame is answered if the opcode is there by chance: an opcode that is in
the frame, and is another, prevents it. -/
theorem receive_arp_opcode (mac : Buf) (s : State) {frame : Frame} (hlen : 14 ≤ frame.length)
    (htype : ntohsUnaligned (bufOf frame) 12 = ethPArp)
    (hop : ¬ ((20 < frame.length → bufOf frame 20 = 0) ∧ (21 < frame.length → bufOf frame 21 = 1))) :
    (receive mac s frame).2 = [] := by
  rw [receive_arp mac s hlen htype, if_neg]
  rw [ntohsUnaligned, be16_eq_one_iff]
  rintro ⟨h20, h21⟩
  refine hop ⟨fun h => ?_, fun h => ?_⟩
  · rw [← h20, store_zero_apply _ h]
  · rw [← h21, store_zero_apply _ h]

/-- A buffer in which a short frame passes for a request, with one byte of the target
address free. -/
def staleBuffer (last : UInt8) : Buf := fun i => if i = 21 then 1 else if i = 41 then last else 0

/-- The address asked for, and so the answer, is read behind the end of a short request. -/
theorem receive_stale (mac replyBuffer : Buf) (isn : UInt32) {frame : Frame} (h : ShortArpRequest frame) (last : UInt8) :
    ∃ answer, (receive mac { buffer := staleBuffer last, replyBuffer, isnCounter := isn } frame).2 = [answer] ∧
      bufOf answer 31 = last := by
  obtain ⟨⟨hlen, hshort⟩, htype, h20, h21⟩ := h
  have hbyte : ∀ i, store (staleBuffer last) 0 frame i = if i < frame.length then bufOf frame i else staleBuffer last i := by
    intro i
    split_ifs with hi
    · exact store_zero_apply _ hi
    · exact store_outside _ _ _ (by omega)
  have hop : ntohsUnaligned (store (staleBuffer last) 0 frame) 20 = arpOpRequest := by
    rw [ntohsUnaligned, be16_eq_one_iff, hbyte, hbyte]
    constructor
    · split_ifs with hi
      · exact h20 hi
      · rfl
    · split_ifs with hi
      · exact h21 hi
      · rfl
  refine ⟨_, by rw [receive_arp mac _ hlen htype, if_pos hop], ?_⟩
  have hlast : store (staleBuffer last) 0 frame 41 = last := by
    rw [hbyte, if_neg (by omega)]
    rfl
  simp only [arpReply, load, List.range_succ, List.range_zero, List.nil_append, List.cons_append, List.map_cons,
    List.map_nil, htonlBytes, bufOf, List.getD_cons_succ, List.getD_cons_zero, ntohlUnaligned, toUInt8_be32, hlast]

theorem interfering_of_short (mac : Buf) {frame : Frame} (h : ShortArpRequest frame) : ¬ Noninterfering mac frame := by
  intro hni
  obtain ⟨a, ha, ha31⟩ := receive_stale mac (bufOf []) 1000 h 0
  obtain ⟨b, hb, hb31⟩ := receive_stale mac (bufOf []) 1000 h 1
  have hsame := hni { buffer := staleBuffer 0, replyBuffer := bufOf [], isnCounter := 1000 }
    { buffer := staleBuffer 1, replyBuffer := bufOf [], isnCounter := 1000 } rfl
  rw [ha, hb, List.singleton_inj] at hsame
  rw [hsame, hb31] at ha31
  exact absurd ha31 (by decide)

/-- The answers depend on what is left in the buffer exactly for short ARP frames that can
pass for a request. -/
theorem noninterfering_iff (mac : Buf) (frame : Frame) : Noninterfering mac frame ↔ ¬ ShortArpRequest frame := by
  constructor
  · intro h hshort
    exact interfering_of_short mac hshort h
  · intro h
    by_cases harp : 14 ≤ frame.length ∧ ntohsUnaligned (bufOf frame) 12 = ethPArp
    · by_cases hlen : 42 ≤ frame.length
      · exact noninterfering_arp mac hlen harp.2
      · have hop : ¬ ((20 < frame.length → bufOf frame 20 = 0) ∧ (21 < frame.length → bufOf frame 21 = 1)) :=
          fun hop => h ⟨⟨harp.1, by omega⟩, harp.2, hop⟩
        intro s t _
        rw [receive_arp_opcode mac s harp.1 harp.2 hop, receive_arp_opcode mac t harp.1 harp.2 hop]
    · intro s t hisn
      by_cases htcp : IsHttpSegment (bufOf frame) frame.length
      · rw [(receive_tcp mac s htcp).1, (receive_tcp mac t htcp).1, hisn]
      · rw [receive_other mac s harp htcp, receive_other mac t harp htcp]

/-- The first fourteen bytes of an ARP request, and nothing else. -/
def arpHeaderOnly : Frame := [0xff, 0xff, 0xff, 0xff, 0xff, 0xff, 0x52, 0x55, 0x0a, 0x00, 0x02, 0x02, 0x08, 0x06]

/-- A frame that ends before the ARP packet begins is answered out of the buffer. -/
theorem interfering_arpHeaderOnly : ¬ ∀ (mac : Buf) (frame : Frame), Noninterfering mac frame := by
  intro h
  exact interfering_of_short (bufOf []) (by decide : ShortArpRequest arpHeaderOnly) (h _ _)

end Yasouos.Apps.HttpHello
