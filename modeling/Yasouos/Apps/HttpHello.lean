import Yasouos.Net.Arp
import Yasouos.Net.Tcp
import Mathlib.Tactic.SplitIfs

/-!
# The HTTP server

`apps/http-hello/http_hello.c`: an HTTP server without connections. A SYN is answered
with the next initial sequence number, a segment with payload with a whole response
whose sequence number is what the client acknowledged, and a FIN with an
acknowledgement. One buffer receives every frame, so behind a short frame it still
holds the end of an earlier one.

## The model

`State` has the receive buffer, the reply buffer and the counter of the initial
sequence numbers. The buffers are on the stack and are not initialised, so every state
is one the loop can start in. `receive` is one turn of the loop, for a frame that the
device delivered: it gives the next state and the frames that are transmitted.
`sendTcpPacket` builds each of them in the reply buffer, in the order of the source.

## What is proved

* `sendTcpPacket_eq` — the frame that is sent, byte for byte, whatever was in the reply
  buffer.
* `handleFrame_tcp` — the frames that answer a segment to the port.
-/

namespace Yasouos.Apps.HttpHello

open Yasouos.Theory Yasouos.Net

/-- A frame on the wire. -/
abbrev Frame := List UInt8

/-- `HTTP_HELLO_PORT`. -/
abbrev httpHelloPort : UInt16 := 80

/-! ### The response -/

/-- The bytes of a string. -/
def ascii (s : String) : List UInt8 := s.toList.map fun c => UInt8.ofNat c.toNat

/-- `write_decimal_u8`. -/
def writeDecimalU8 (value : UInt8) : List UInt8 :=
  if value ≥ 100 then
    let rest := value % 100
    [0x30 + value / 100, 0x30 + rest / 10, 0x30 + rest % 10]
  else if value ≥ 10 then [0x30 + value / 10, 0x30 + value % 10]
  else [0x30 + value]

/-- `write_hello_ip`. -/
def writeHelloIp (ipHost : UInt32) : List UInt8 :=
  ascii "Hello, " ++ writeDecimalU8 (ipHost >>> 24).toUInt8 ++ ascii "." ++
    writeDecimalU8 (ipHost >>> 16).toUInt8 ++ ascii "." ++ writeDecimalU8 (ipHost >>> 8).toUInt8 ++ ascii "." ++
    writeDecimalU8 ipHost.toUInt8 ++ ascii "\n"

/-- The array `digits` of `write_decimal_size`, the lowest digit first. -/
def decimalDigits (value : ℕ) : List UInt8 :=
  if value > 0 then (0x30 + UInt8.ofNat (value % 10)) :: decimalDigits (value / 10) else []
termination_by value
decreasing_by omega

/-- `write_decimal_size`. -/
def writeDecimalSize (value : ℕ) : List UInt8 := if value = 0 then [0x30] else (decimalDigits value).reverse

/-- `build_http_response`. -/
def buildHttpResponse (clientIpHost : UInt32) : List UInt8 :=
  let body := writeHelloIp clientIpHost
  ascii "HTTP/1.1 200 OK\r\nConnection: keep-alive\r\nContent-Type: text/plain\r\nContent-Length: " ++
    writeDecimalSize body.length ++ ascii "\r\n\r\n" ++ body

/-! ### Sending -/

/-- `send_tcp_packet`: the reply buffer, and the frame that is transmitted. -/
def sendTcpPacket (replyBuffer ourMac theirMac : Buf) (srcIpNet dstIpNet : UInt32) (srcPort dstPort : UInt16)
    (seq ack : UInt32) (flags : UInt8) (window : UInt16) (payload : Buf) (payloadLen : UInt16) : Buf × Frame :=
  let dst := store replyBuffer 0 (load theirMac 0 6)
  let dst := store dst 6 (load ourMac 0 6)
  let dst := writeHtonsUnaligned dst 12 ethPIp
  let dst := ipv4BuildHeader dst sizeofEthHdr srcIpNet dstIpNet ipprotoTcp (20 + payloadLen) 64
  let dst := store dst (sizeofEthHdr + sizeofIpv4Hdr + sizeofTcpHdr) (load payload 0 payloadLen.toNat)
  let dst := tcpBuildHeader dst (sizeofEthHdr + sizeofIpv4Hdr) srcPort dstPort seq ack flags window srcIpNet dstIpNet
    payloadLen
  let totalLen := sizeofEthHdr + sizeofIpv4Hdr + sizeofTcpHdr + payloadLen.toNat
  (dst, load dst 0 totalLen)

/-- The bytes of the frame that `send_tcp_packet` sends. -/
def tcpFrame (ourMac theirMac : List UInt8) (srcIp dstIp : UInt32) (srcPort dstPort : UInt16) (seq ack : UInt32)
    (flags : UInt8) (window : UInt16) (payload : List UInt8) : Frame :=
  let totalLength := 20 + (20 + UInt16.ofNat payload.length)
  theirMac ++ ourMac ++ htonsBytes ethPIp ++
    ipv4Header srcIp dstIp ipprotoTcp totalLength 64 (headerChecksum srcIp dstIp ipprotoTcp totalLength 64) ++
    (tcpHeader srcPort dstPort seq ack flags window
      (segmentChecksum srcIp dstIp (tcpHeader srcPort dstPort seq ack flags window 0 ++ payload)) ++ payload)

theorem length_tcpFrame {ourMac theirMac : List UInt8} (ho : ourMac.length = 6) (ht : theirMac.length = 6)
    (srcIp dstIp : UInt32) (srcPort dstPort : UInt16) (seq ack : UInt32) (flags : UInt8) (window : UInt16)
    (payload : List UInt8) :
    (tcpFrame ourMac theirMac srcIp dstIp srcPort dstPort seq ack flags window payload).length =
      54 + payload.length := by
  simp [tcpFrame, ho, ht]
  omega

/-- `send_tcp_packet` sends this frame, whatever was in the reply buffer. -/
theorem sendTcpPacket_eq (replyBuffer ourMac theirMac : Buf) (srcIp dstIp : UInt32) (srcPort dstPort : UInt16)
    (seq ack : UInt32) (flags : UInt8) (window : UInt16) (payload : Buf) {payloadLen : UInt16}
    (hlen : 20 + payloadLen.toNat < 2 ^ 16) :
    sendTcpPacket replyBuffer ourMac theirMac srcIp dstIp srcPort dstPort seq ack flags window payload payloadLen =
      let frame := tcpFrame (load ourMac 0 6) (load theirMac 0 6) srcIp dstIp srcPort dstPort seq ack flags window
        (load payload 0 payloadLen.toNat)
      (store replyBuffer 0 frame, frame) := by
  have hof : UInt16.ofNat (load payload 0 payloadLen.toNat).length = payloadLen := by simp
  have htcp := fun buf => tcpBuildHeader_eq buf (sizeofEthHdr + sizeofIpv4Hdr) srcPort dstPort seq ack flags window srcIp
    dstIp (load payload 0 payloadLen.toNat) (by simpa using hlen)
  rw [hof] at htcp
  have hbuf : (sendTcpPacket replyBuffer ourMac theirMac srcIp dstIp srcPort dstPort seq ack flags window payload
      payloadLen).1 = store replyBuffer 0 (tcpFrame (load ourMac 0 6) (load theirMac 0 6) srcIp dstIp srcPort dstPort seq
        ack flags window (load payload 0 payloadLen.toNat)) := by
    simp only [sendTcpPacket, tcpFrame, hof]
    rw [htcp, ipv4BuildHeader_eq, writeHtonsUnaligned, store_append _ (by simp), store_append _ (by simp),
      store_append _ (by simp), store_append _ (by simp)]
    simp only [List.append_assoc]
  have hsize := length_tcpFrame (length_load ourMac 0 6) (length_load theirMac 0 6) srcIp dstIp srcPort dstPort seq ack
    flags window (load payload 0 payloadLen.toNat)
  rw [length_load] at hsize
  apply Prod.ext
  · exact hbuf
  · change load (sendTcpPacket replyBuffer ourMac theirMac srcIp dstIp srcPort dstPort seq ack flags window payload
      payloadLen).1 0 (54 + payloadLen.toNat) = _
    rw [hbuf, ← hsize, load_store]

/-! ### The receive loop -/

/-- The variables of the loop. -/
structure State where
  /-- `buffer`. -/
  buffer : Buf
  /-- `reply_buffer`. -/
  replyBuffer : Buf
  /-- `isn_counter`. -/
  isnCounter : UInt32

/-- The TCP fields of the frame in a buffer, as the loop reads them. -/
structure Segment where
  /-- `src_port`. -/
  srcPort : UInt16
  /-- `dst_port`. -/
  dstPort : UInt16
  /-- `their_seq`. -/
  theirSeq : UInt32
  /-- `their_ack`. -/
  theirAck : UInt32
  /-- `flags`. -/
  flags : UInt8
  /-- `data_offset`. -/
  dataOffset : UInt8
  /-- `ip_total_len`. -/
  ipTotalLen : UInt16
  /-- `tcp_payload_len`. -/
  tcpPayloadLen : UInt16

/-- The reads of the loop. -/
def readSegment (buffer : Buf) : Segment :=
  let dataOffset := (buffer 46 >>> 4) * 4
  let ipTotalLen := ntohsUnaligned buffer 16
  { srcPort := ntohsUnaligned buffer 34
    dstPort := ntohsUnaligned buffer 36
    theirSeq := ntohlUnaligned buffer 38
    theirAck := ntohlUnaligned buffer 42
    flags := buffer 47
    dataOffset
    ipTotalLen
    tcpPayloadLen := ipTotalLen - 20 - dataOffset.toUInt16 }

/-- A call of `send_tcp_packet` from the loop: the answer goes back to where the frame in
the buffer came from. -/
def answer (mac : Buf) (s : State) (seq ack : UInt32) (flags : UInt8) (payload : List UInt8) : State × List Frame :=
  let seg := readSegment s.buffer
  let (replyBuffer, frame) := sendTcpPacket s.replyBuffer mac (advance s.buffer 6) (load32 s.buffer 30)
    (load32 s.buffer 26) seg.dstPort seg.srcPort seq ack flags 65535 (bufOf payload) (UInt16.ofNat payload.length)
  ({ s with replyBuffer }, [frame])

/-- The SYN block. -/
def handleSyn (mac : Buf) (s : State) : State × List Frame :=
  let seg := readSegment s.buffer
  if seg.flags &&& tcpFlagSyn ≠ 0 then
    let ourIsn := s.isnCounter
    let s := { s with isnCounter := s.isnCounter + 1 }
    answer mac s ourIsn (seg.theirSeq + 1) (tcpFlagSyn ||| tcpFlagAck) []
  else (s, [])

/-- The data block. -/
def handleData (mac : Buf) (s : State) : State × List Frame :=
  let seg := readSegment s.buffer
  if seg.tcpPayloadLen > 0 then
    let clientIp := ntohlUnaligned s.buffer 26
    answer mac s seg.theirAck (seg.theirSeq + seg.tcpPayloadLen.toUInt32) (tcpFlagPsh ||| tcpFlagAck)
      (buildHttpResponse clientIp)
  else (s, [])

/-- The FIN block. -/
def handleFin (mac : Buf) (s : State) : State × List Frame :=
  let seg := readSegment s.buffer
  if seg.flags &&& tcpFlagFin ≠ 0 ∧ seg.flags &&& tcpFlagSyn = 0 then
    answer mac s seg.theirAck (seg.theirSeq + 1) tcpFlagAck []
  else (s, [])

/-- The ARP branch: the length of the frame is not looked at. -/
def handleArp (mac : Buf) (s : State) : State × List Frame :=
  if ntohsUnaligned s.buffer 20 = arpOpRequest then
    let targetIp := ntohlUnaligned s.buffer 38
    let senderIp := ntohlUnaligned s.buffer 28
    let replyBuffer := arpBuildReply s.replyBuffer mac targetIp (advance s.buffer 22) senderIp
    ({ s with replyBuffer }, [load replyBuffer 0 arpPacketSize])
  else (s, [])

/-- The body of the loop, once a frame of `receivedLength` bytes is in the buffer. -/
def handleFrame (mac : Buf) (s : State) (receivedLength : ℕ) : State × List Frame :=
  let ethType := ntohsUnaligned s.buffer 12
  if receivedLength < sizeofEthHdr then (s, [])
  else if ethType = ethPArp then handleArp mac s
  else if ethType ≠ ethPIp then (s, [])
  else if receivedLength < sizeofEthHdr + sizeofIpv4Hdr + sizeofTcpHdr then (s, [])
  else if s.buffer 23 ≠ ipprotoTcp then (s, [])
  else if (readSegment s.buffer).dstPort ≠ httpHelloPort then (s, [])
  else
    let (s, syn) := handleSyn mac s
    let (s, data) := handleData mac s
    let (s, fin) := handleFin mac s
    (s, syn ++ data ++ fin)

/-- One turn of the loop: `netdev_receive` puts a frame into the buffer. -/
def receive (mac : Buf) (s : State) (frame : Frame) : State × List Frame :=
  handleFrame mac { s with buffer := store s.buffer 0 frame } frame.length

/-! ### The answers -/

theorem length_writeDecimalU8 (value : UInt8) :
    1 ≤ (writeDecimalU8 value).length ∧ (writeDecimalU8 value).length ≤ 3 := by
  unfold writeDecimalU8
  split_ifs <;> simp

theorem length_decimalDigits {value k : ℕ} (h : value < 10 ^ k) : (decimalDigits value).length ≤ k := by
  induction k generalizing value with
  | zero =>
    rw [decimalDigits, if_neg (by omega)]
    simp
  | succ k ih =>
    rw [decimalDigits]
    split_ifs with h0
    · rw [List.length_cons]
      apply Nat.succ_le_succ
      apply ih
      rw [Nat.div_lt_iff_lt_mul (by omega), ← pow_succ]
      exact h
    · simp

theorem length_writeHelloIp (ipHost : UInt32) : (writeHelloIp ipHost).length ≤ 23 := by
  have h1 := length_writeDecimalU8 (ipHost >>> 24).toUInt8
  have h2 := length_writeDecimalU8 (ipHost >>> 16).toUInt8
  have h3 := length_writeDecimalU8 (ipHost >>> 8).toUInt8
  have h4 := length_writeDecimalU8 ipHost.toUInt8
  simp [writeHelloIp, ascii]
  omega

/-- The response is never empty, and fits `http_buf`. -/
theorem length_buildHttpResponse (clientIpHost : UInt32) :
    0 < (buildHttpResponse clientIpHost).length ∧ (buildHttpResponse clientIpHost).length ≤ 192 := by
  have hbody := length_writeHelloIp clientIpHost
  have hsize : (writeDecimalSize (writeHelloIp clientIpHost).length).length ≤ 2 := by
    rw [writeDecimalSize]
    split_ifs
    · simp
    · rw [List.length_reverse]
      exact length_decimalDigits (by omega)
  simp only [buildHttpResponse, List.length_append]
  simp [ascii]
  omega

/-- The frame that answers the segment in a buffer. -/
def reply (mac buf : Buf) (seq ack : UInt32) (flags : UInt8) (payload : List UInt8) : Frame :=
  tcpFrame (load mac 0 6) (load buf 6 6) (load32 buf 30) (load32 buf 26) (readSegment buf).dstPort
    (readSegment buf).srcPort seq ack flags 65535 payload

theorem answer_eq (mac : Buf) (s : State) (seq ack : UInt32) (flags : UInt8) {payload : List UInt8}
    (h : payload.length ≤ 192) :
    answer mac s seq ack flags payload =
      ({ s with replyBuffer := store s.replyBuffer 0 (reply mac s.buffer seq ack flags payload) },
        [reply mac s.buffer seq ack flags payload]) := by
  have hlen : (UInt16.ofNat payload.length).toNat = payload.length := by
    rw [UInt16.toNat_ofNat']
    omega
  rw [answer, sendTcpPacket_eq _ _ _ _ _ _ _ _ _ _ _ _ (by omega)]
  simp only [hlen, load_bufOf, load_advance, reply]

/-- The answer to a SYN. -/
def synReplies (mac : Buf) (isn : UInt32) (buf : Buf) : List Frame :=
  if (readSegment buf).flags &&& tcpFlagSyn ≠ 0 then
    [reply mac buf isn ((readSegment buf).theirSeq + 1) (tcpFlagSyn ||| tcpFlagAck) []]
  else []

/-- The answer to data. -/
def dataReplies (mac buf : Buf) : List Frame :=
  if (readSegment buf).tcpPayloadLen > 0 then
    [reply mac buf (readSegment buf).theirAck
      ((readSegment buf).theirSeq + (readSegment buf).tcpPayloadLen.toUInt32) (tcpFlagPsh ||| tcpFlagAck)
      (buildHttpResponse (ntohlUnaligned buf 26))]
  else []

/-- The answer to a FIN. -/
def finReplies (mac buf : Buf) : List Frame :=
  if (readSegment buf).flags &&& tcpFlagFin ≠ 0 ∧ (readSegment buf).flags &&& tcpFlagSyn = 0 then
    [reply mac buf (readSegment buf).theirAck ((readSegment buf).theirSeq + 1) tcpFlagAck []]
  else []

/-- The counter after a segment. -/
def nextIsn (isn : UInt32) (buf : Buf) : UInt32 :=
  if (readSegment buf).flags &&& tcpFlagSyn ≠ 0 then isn + 1 else isn

/-- The frame in a buffer passes for a segment to the port. -/
def IsHttpSegment (buf : Buf) (receivedLength : ℕ) : Prop :=
  54 ≤ receivedLength ∧ ntohsUnaligned buf 12 = ethPIp ∧ buf 23 = ipprotoTcp ∧
    (readSegment buf).dstPort = httpHelloPort

instance (buf : Buf) (receivedLength : ℕ) : Decidable (IsHttpSegment buf receivedLength) :=
  inferInstanceAs (Decidable (_ ∧ _ ∧ _ ∧ _))

theorem handleSyn_eq (mac : Buf) (s : State) :
    (handleSyn mac s).2 = synReplies mac s.isnCounter s.buffer ∧ (handleSyn mac s).1.buffer = s.buffer ∧
      (handleSyn mac s).1.isnCounter = nextIsn s.isnCounter s.buffer := by
  simp only [handleSyn, synReplies, nextIsn]
  split_ifs with h
  · rw [answer_eq _ _ _ _ _ (by simp)]
    exact ⟨rfl, rfl, rfl⟩
  · exact ⟨rfl, rfl, rfl⟩

theorem handleData_eq (mac : Buf) (s : State) :
    (handleData mac s).2 = dataReplies mac s.buffer ∧ (handleData mac s).1.buffer = s.buffer ∧
      (handleData mac s).1.isnCounter = s.isnCounter := by
  simp only [handleData, dataReplies]
  split_ifs with h
  · rw [answer_eq _ _ _ _ _ (length_buildHttpResponse _).2]
    exact ⟨rfl, rfl, rfl⟩
  · exact ⟨rfl, rfl, rfl⟩

theorem handleFin_eq (mac : Buf) (s : State) :
    (handleFin mac s).2 = finReplies mac s.buffer ∧ (handleFin mac s).1.buffer = s.buffer ∧
      (handleFin mac s).1.isnCounter = s.isnCounter := by
  simp only [handleFin, finReplies]
  split_ifs with h
  · rw [answer_eq _ _ _ _ _ (by simp)]
    exact ⟨rfl, rfl, rfl⟩
  · exact ⟨rfl, rfl, rfl⟩

/-- The frames that answer a segment to the port. -/
theorem handleFrame_tcp (mac : Buf) {s : State} {receivedLength : ℕ} (h : IsHttpSegment s.buffer receivedLength) :
    (handleFrame mac s receivedLength).2 =
        synReplies mac s.isnCounter s.buffer ++ dataReplies mac s.buffer ++ finReplies mac s.buffer ∧
      (handleFrame mac s receivedLength).1.isnCounter = nextIsn s.isnCounter s.buffer := by
  obtain ⟨hlen, htype, hproto, hport⟩ := h
  obtain ⟨hs, hsb, hsi⟩ := handleSyn_eq mac s
  obtain ⟨hd, hdb, hdi⟩ := handleData_eq mac (handleSyn mac s).1
  obtain ⟨hf, -, hfi⟩ := handleFin_eq mac (handleData mac (handleSyn mac s).1).1
  have hunfold : handleFrame mac s receivedLength =
      ((handleFin mac (handleData mac (handleSyn mac s).1).1).1,
        (handleSyn mac s).2 ++ (handleData mac (handleSyn mac s).1).2 ++
          (handleFin mac (handleData mac (handleSyn mac s).1).1).2) := by
    simp only [handleFrame, htype, hproto, hport, sizeofEthHdr, sizeofIpv4Hdr, sizeofTcpHdr]
    rw [if_neg (by omega), if_neg (by decide), if_neg (by simp), if_neg (by omega), if_neg (by simp), if_neg (by simp)]
  rw [hunfold]
  exact ⟨by rw [hs, hd, hf, hdb, hsb], by rw [hfi, hdi, hsi]⟩

/-- Nothing else is answered, but ARP. -/
theorem handleFrame_other (mac : Buf) {s : State} {receivedLength : ℕ}
    (harp : ¬ (14 ≤ receivedLength ∧ ntohsUnaligned s.buffer 12 = ethPArp))
    (htcp : ¬ IsHttpSegment s.buffer receivedLength) : handleFrame mac s receivedLength = (s, []) := by
  unfold IsHttpSegment at htcp
  simp only [handleFrame, sizeofEthHdr, sizeofIpv4Hdr, sizeofTcpHdr]
  split_ifs with h1 h2 h3 h4 h5 h6
  · rfl
  · exact absurd ⟨by omega, h2⟩ harp
  · rfl
  · rfl
  · rfl
  · rfl
  · exact absurd ⟨by omega, not_not.mp h3, not_not.mp h5, not_not.mp h6⟩ htcp

/-! ### The frame in the buffer -/

theorem ntohsUnaligned_congr {f g : Buf} {n o : ℕ} (h : ∀ i < n, f i = g i) (ho : o + 2 ≤ n) :
    ntohsUnaligned f o = ntohsUnaligned g o := by
  rw [ntohsUnaligned, ntohsUnaligned, h o (by omega), h (o + 1) (by omega)]

theorem ntohlUnaligned_congr {f g : Buf} {n o : ℕ} (h : ∀ i < n, f i = g i) (ho : o + 4 ≤ n) :
    ntohlUnaligned f o = ntohlUnaligned g o := by
  rw [ntohlUnaligned, ntohlUnaligned, h o (by omega), h (o + 1) (by omega), h (o + 2) (by omega), h (o + 3) (by omega)]

theorem load32_congr {f g : Buf} {n o : ℕ} (h : ∀ i < n, f i = g i) (ho : o + 4 ≤ n) : load32 f o = load32 g o := by
  rw [load32, load32, h o (by omega), h (o + 1) (by omega), h (o + 2) (by omega), h (o + 3) (by omega)]

theorem store_zero_apply (buf : Buf) {frame : Frame} {i : ℕ} (h : i < frame.length) :
    store buf 0 frame i = bufOf frame i := by
  simp [store, bufOf, h]

section Congr

variable {f g : Buf} (h : ∀ i < 54, f i = g i)

include h

theorem readSegment_congr : readSegment f = readSegment g := by
  simp only [readSegment, ntohsUnaligned_congr h (o := 16) (by omega), ntohsUnaligned_congr h (o := 34) (by omega),
    ntohsUnaligned_congr h (o := 36) (by omega), ntohlUnaligned_congr h (o := 38) (by omega),
    ntohlUnaligned_congr h (o := 42) (by omega), h 46 (by omega), h 47 (by omega)]

theorem reply_congr (mac : Buf) (seq ack : UInt32) (flags : UInt8) (payload : List UInt8) :
    reply mac f seq ack flags payload = reply mac g seq ack flags payload := by
  have hsrc : load f 6 6 = load g 6 6 := load_congr fun i hi => h (6 + i) (by omega)
  rw [reply, reply, hsrc, load32_congr h (o := 30) (by omega), load32_congr h (o := 26) (by omega),
    readSegment_congr h]

theorem isHttpSegment_congr (n : ℕ) : IsHttpSegment f n ↔ IsHttpSegment g n := by
  rw [IsHttpSegment, IsHttpSegment, ntohsUnaligned_congr h (o := 12) (by omega), h 23 (by omega), readSegment_congr h]

end Congr

/-- The frames that answer a segment to the port, and the counter after it. They depend on
the frame only, and on the counter. -/
theorem receive_tcp (mac : Buf) (s : State) {frame : Frame} (h : IsHttpSegment (bufOf frame) frame.length) :
    (receive mac s frame).2 = synReplies mac s.isnCounter (bufOf frame) ++ dataReplies mac (bufOf frame) ++
        finReplies mac (bufOf frame) ∧
      (receive mac s frame).1.isnCounter = nextIsn s.isnCounter (bufOf frame) := by
  have hread : ∀ i < 54, store s.buffer 0 frame i = bufOf frame i := fun i hi => by
    have := h.1
    exact store_zero_apply _ (by omega)
  obtain ⟨hsent, hisn⟩ := handleFrame_tcp mac (s := { s with buffer := store s.buffer 0 frame })
    ((isHttpSegment_congr hread _).mpr h)
  rw [receive, hsent, hisn]
  simp only [synReplies, dataReplies, finReplies, nextIsn, readSegment_congr hread, reply_congr hread,
    ntohlUnaligned_congr hread (o := 26) (by omega), and_self]

end Yasouos.Apps.HttpHello
