import Yasouos.Apps.HttpHello

/-!
# The packet printer

`apps/packet-print/packet_print.c`: an application that prints every frame and answers four
kinds of it: a UDP datagram `ping-<number>` with `pong-<number + 1>`, an ICMP echo request and
an ARP request for its address with their replies, and a TCP segment to its port with nothing
but the end of its loop. The builders of `udp.c` and `icmp.c` that it uses are here too.

## The model

`State` has the two buffers and `handled_request`. `receive` is one turn of the loop for a frame
that the device delivered, with the frames that it tries to transmit; `transmit` tells for each
whether `netdev_transmit` returned zero. The number in a ping is an `int` and wraps.

## What is proved

`pingReply_eq` gives the datagram that answers a ping, and `receive_arpRequest` the answer to an
ARP request for the address; the same request gets the same answer from the HTTP server, and what
the parser finds in it are the addresses of the request with the roles swapped
(`receive_arpBuildRequest`).
-/

namespace Yasouos.Apps.PacketPrint

open Yasouos.Theory Yasouos.Net
open Yasouos.Apps.HttpHello (Frame decimalDigits)

/-- `PACKET_PRINT_IP_ADDR`, `10.0.2.15`. -/
abbrev packetPrintIpAddr : UInt32 := 0x0A00020F

/-- `PACKET_PRINT_UDP_PORT`. -/
abbrev packetPrintUdpPort : UInt16 := 5000

/-- `PACKET_PRINT_IPV4_PORT`. -/
abbrev packetPrintIpv4Port : UInt16 := 8080

/-! ### UDP and ICMP headers -/

/-- `sizeof(udp_hdr_t)`. -/
abbrev sizeofUdpHdr : ℕ := 8

/-- `sizeof(icmp_hdr_t)`. -/
abbrev sizeofIcmpHdr : ℕ := 8

/-- `ICMP_ECHO_REPLY`. -/
abbrev icmpEchoReply : UInt8 := 0

/-- `ICMP_ECHO_REQUEST`. -/
abbrev icmpEchoRequest : UInt8 := 8

/-- `udp_build_header`, for a header at offset `o` of a buffer. -/
def udpBuildHeader (buf : Buf) (o : ℕ) (srcPort dstPort payloadLength : UInt16) : Buf :=
  let buf := store16 buf o (htons srcPort)
  let buf := store16 buf (o + 2) (htons dstPort)
  let buf := store16 buf (o + 4) (htons (8 + payloadLength))
  store16 buf (o + 6) 0

/-- `icmp_checksum`. -/
def icmpChecksum (header : Buf) (length : ℕ) : UInt16 :=
  if length < sizeofIcmpHdr then 0 else htons (complement (sumWords header (sizeofIcmpHdr / 2)))

/-- `icmp_build_response`. -/
def icmpBuildResponse (buf : Buf) (o : ℕ) (id sequence : UInt16) : Buf :=
  let buf := store buf o [icmpEchoReply]
  let buf := store buf (o + 1) [0]
  let buf := store16 buf (o + 2) 0
  let buf := store16 buf (o + 4) (htons id)
  let buf := store16 buf (o + 6) (htons sequence)
  store16 buf (o + 2) (icmpChecksum (advance buf o) sizeofIcmpHdr)

/-- What `icmp_parse` gives back. -/
structure Icmp where
  type : UInt8
  code : UInt8
  id : UInt16
  sequence : UInt16

/-- `icmp_parse`. -/
def icmpParse (packet : Buf) (length : ℕ) : Option Icmp :=
  if length < sizeofIcmpHdr then none
  else some ⟨packet 0, packet 1, ntohsUnaligned packet 4, ntohsUnaligned packet 6⟩

/-! ### The receive loop -/

/-- The variables of the loop. -/
structure State where
  /-- `buffer`. -/
  buffer : Buf
  /-- `reply_buffer`. -/
  replyBuffer : Buf
  /-- `handled_request`. -/
  handledRequest : Bool

/-- The Ethernet header of a reply. -/
def buildEthHeader (replyBuffer buffer mac : Buf) : Buf :=
  let reply := store replyBuffer 0 (load buffer 6 6)
  let reply := store reply 6 (load mac 0 6)
  store16 reply 12 (htons ethPIp)

/-- `udp->src_port`, as the source reads it. -/
def udpSrcPort (buffer : Buf) : UInt16 := ntohsUnaligned buffer (sizeofEthHdr + sizeofIpv4Hdr)

/-- `udp->dst_port`. -/
def udpDstPort (buffer : Buf) : UInt16 := ntohsUnaligned buffer (sizeofEthHdr + sizeofIpv4Hdr + 2)

/-- `tcp->dst_port`. -/
def tcpDstPort (buffer : Buf) : UInt16 := ntohsUnaligned buffer (sizeofEthHdr + sizeofIpv4Hdr + 2)

/-- `payload_len`: a UDP length below that of the header wraps. -/
def payloadLen (buffer : Buf) : ℕ := ((ntohsUnaligned buffer 38).toNat + (2 ^ 64 - sizeofUdpHdr)) % 2 ^ 64

/-- The loop that reads the number of a ping. -/
def readNum (payload : Buf) (payloadLen i : ℕ) (num : Int32) : Int32 :=
  if i < payloadLen ∧ 0x30 ≤ payload i ∧ payload i ≤ 0x39 then
    readNum payload payloadLen (i + 1) (num * 10 + Int32.ofNat ((payload i).toNat - 0x30))
  else num
termination_by payloadLen - i
decreasing_by omega

/-- `num_str`, the highest digit first; a number below zero has no digits. -/
def numStr (responseNum : Int32) : List UInt8 :=
  if responseNum = 0 then [0x30] else (decimalDigits responseNum.toInt.toNat).reverse

/-- The payload is a ping. -/
def isPing (payload : Buf) (payloadLen : ℕ) : Bool :=
  6 ≤ payloadLen && payload 0 == 0x70 && payload 1 == 0x69 && payload 2 == 0x6e && payload 3 == 0x67 && payload 4 == 0x2d

/-- `reply_payload_buf`: `pong-` and the number. -/
def pong (payload : Buf) (payloadLen : ℕ) : List UInt8 :=
  [0x70, 0x6f, 0x6e, 0x67, 0x2d] ++ numStr (readNum payload payloadLen 5 0 + 1)

/-- The reply buffer with the answer to a ping, and the frame. -/
def pingReply (replyBuffer buffer mac : Buf) (response : List UInt8) : Buf × Frame :=
  let responseLen := UInt16.ofNat response.length
  let reply := buildEthHeader replyBuffer buffer mac
  let reply := ipv4BuildHeader reply sizeofEthHdr (load32 buffer 30) (load32 buffer 26) ipprotoUdp (8 + responseLen) 64
  let srcPort := udpDstPort buffer
  let dstPort := udpSrcPort buffer
  let reply := udpBuildHeader reply (sizeofEthHdr + sizeofIpv4Hdr) srcPort dstPort responseLen
  let reply := store reply (sizeofEthHdr + sizeofIpv4Hdr + sizeofUdpHdr) response
  (reply, load reply 0 (sizeofEthHdr + sizeofIpv4Hdr + sizeofUdpHdr + response.length))

/-- The UDP branch. -/
def handleUdp (mac : Buf) (transmit : Frame → Bool) (s : State) : State × List Frame :=
  let dstIp := ntohlUnaligned s.buffer 30
  let dstPort := udpDstPort s.buffer
  if dstIp = packetPrintIpAddr then
    if dstPort = packetPrintUdpPort then
      let payload := advance s.buffer (sizeofEthHdr + sizeofIpv4Hdr + sizeofUdpHdr)
      if isPing payload (payloadLen s.buffer) then
        let (replyBuffer, frame) := pingReply s.replyBuffer s.buffer mac (pong payload (payloadLen s.buffer))
        ({ s with replyBuffer, handledRequest := s.handledRequest || transmit frame }, [frame])
      else (s, [])
    else (s, [])
  else (s, [])

/-- The TCP branch. -/
def handleTcp (s : State) (receivedLength : ℕ) : State × List Frame :=
  let dstIp := ntohlUnaligned s.buffer 30
  let dstPort := tcpDstPort s.buffer
  if receivedLength ≥ sizeofEthHdr + sizeofIpv4Hdr + 20 ∧ dstIp = packetPrintIpAddr ∧
      dstPort = packetPrintIpv4Port then
    ({ s with handledRequest := true }, [])
  else (s, [])

/-- The ICMP branch. -/
def handleIcmp (mac : Buf) (transmit : Frame → Bool) (s : State) (receivedLength : ℕ) : State × List Frame :=
  if receivedLength ≥ sizeofEthHdr + sizeofIpv4Hdr + sizeofIcmpHdr ∧
      ntohlUnaligned s.buffer 30 = packetPrintIpAddr then
    match icmpParse (advance s.buffer (sizeofEthHdr + sizeofIpv4Hdr)) sizeofIcmpHdr with
    | some icmp =>
      if icmp.type = icmpEchoRequest then
        let reply := buildEthHeader s.replyBuffer s.buffer mac
        let reply := ipv4BuildHeader reply sizeofEthHdr (load32 s.buffer 30) (load32 s.buffer 26) ipprotoIcmp 8 64
        let reply := icmpBuildResponse reply (sizeofEthHdr + sizeofIpv4Hdr) icmp.id icmp.sequence
        let frame := load reply 0 (sizeofEthHdr + sizeofIpv4Hdr + sizeofIcmpHdr)
        ({ s with replyBuffer := reply, handledRequest := s.handledRequest || transmit frame }, [frame])
      else (s, [])
    | none => (s, [])
  else (s, [])

/-- The ARP branch. A reply does not end the loop. -/
def handleArp (mac : Buf) (s : State) : State × List Frame :=
  let opcode := ntohsUnaligned s.buffer 20
  let targetIp := ntohlUnaligned s.buffer 38
  if opcode = arpOpRequest ∧ targetIp = packetPrintIpAddr then
    let senderIp := ntohlUnaligned s.buffer 28
    let reply := arpBuildReply s.replyBuffer mac packetPrintIpAddr (advance s.buffer 22) senderIp
    ({ s with replyBuffer := reply }, [load reply 0 arpPacketSize])
  else (s, [])

/-- The body of the loop, once a frame of `receivedLength` bytes is in the buffer. -/
def handleFrame (mac : Buf) (transmit : Frame → Bool) (s : State) (receivedLength : ℕ) : State × List Frame :=
  let ethType := ntohsUnaligned s.buffer 12
  let protocol := s.buffer 23
  if receivedLength ≥ sizeofEthHdr + sizeofIpv4Hdr + sizeofUdpHdr then
    if ethType = ethPIp then
      if protocol = ipprotoUdp then handleUdp mac transmit s
      else if protocol = ipprotoTcp then handleTcp s receivedLength
      else if protocol = ipprotoIcmp then handleIcmp mac transmit s receivedLength
      else (s, [])
    else if ethType = ethPArp then handleArp mac s
    else (s, [])
  else (s, [])

/-- One turn of the loop: `netdev_receive` puts a frame into the buffer. -/
def receive (mac : Buf) (transmit : Frame → Bool) (s : State) (frame : Frame) : State × List Frame :=
  handleFrame mac transmit { s with buffer := store s.buffer 0 frame } frame.length

/-! ### The answer to a ping -/

/-- The bytes of a UDP header. -/
def udpHeader (srcPort dstPort payloadLength : UInt16) : List UInt8 :=
  htonsBytes srcPort ++ htonsBytes dstPort ++ htonsBytes (8 + payloadLength) ++ [0, 0]

@[simp] theorem length_udpHeader (srcPort dstPort payloadLength : UInt16) :
    (udpHeader srcPort dstPort payloadLength).length = 8 := rfl

theorem udpBuildHeader_eq (buf : Buf) (o : ℕ) (srcPort dstPort payloadLength : UInt16) :
    udpBuildHeader buf o srcPort dstPort payloadLength = store buf o (udpHeader srcPort dstPort payloadLength) := by
  simp only [udpBuildHeader, store16_htons, writeHtonsUnaligned]
  rw [store16, store_append _ (by simp), store_append _ (by simp), store_append _ (by simp)]
  simp only [udpHeader, List.append_assoc]
  rfl

/-- The datagram that answers a ping: it goes back to where the ping came from. -/
def pingFrame (mac buffer : Buf) (response : List UInt8) : Frame :=
  let responseLen := UInt16.ofNat response.length
  load buffer 6 6 ++ load mac 0 6 ++ htonsBytes ethPIp ++
    ipv4Header (load32 buffer 30) (load32 buffer 26) ipprotoUdp (20 + (8 + responseLen)) 64
      (headerChecksum (load32 buffer 30) (load32 buffer 26) ipprotoUdp (20 + (8 + responseLen)) 64) ++
    udpHeader (udpDstPort buffer) (udpSrcPort buffer) responseLen ++ response

theorem pingReply_eq (replyBuffer buffer mac : Buf) (response : List UInt8) :
    pingReply replyBuffer buffer mac response =
      (store replyBuffer 0 (pingFrame mac buffer response), pingFrame mac buffer response) := by
  have hbuf : (pingReply replyBuffer buffer mac response).1 = store replyBuffer 0 (pingFrame mac buffer response) := by
    simp only [pingReply, buildEthHeader]
    rw [udpBuildHeader_eq, ipv4BuildHeader_eq, store16_htons, writeHtonsUnaligned, store_append _ (by simp),
      store_append _ (by simp), store_append _ (by simp), store_append _ (by simp), store_append _ (by simp)]
    rfl
  have hlen : (pingFrame mac buffer response).length = 42 + response.length := by
    simp [pingFrame]
    omega
  apply Prod.ext
  · exact hbuf
  · change load (pingReply replyBuffer buffer mac response).1 0 (42 + response.length) = _
    rw [hbuf, ← hlen, load_store]

/-- A frame of the IP type goes to the branch of its protocol. -/
theorem receive_ip {frame : Frame} (hlen : 42 ≤ frame.length) (htype : ntohsUnaligned (bufOf frame) 12 = ethPIp) (mac : Buf)
    (transmit : Frame → Bool) (s : State) :
    receive mac transmit s frame =
      if bufOf frame 23 = ipprotoUdp then handleUdp mac transmit { s with buffer := store s.buffer 0 frame }
      else if bufOf frame 23 = ipprotoTcp then handleTcp { s with buffer := store s.buffer 0 frame } frame.length
      else if bufOf frame 23 = ipprotoIcmp then
        handleIcmp mac transmit { s with buffer := store s.buffer 0 frame } frame.length
      else ({ s with buffer := store s.buffer 0 frame }, []) := by
  have hframe : ∀ i < frame.length, store s.buffer 0 frame i = bufOf frame i :=
    fun _ hi => HttpHello.store_zero_apply s.buffer hi
  have htype' : ntohsUnaligned (store s.buffer 0 frame) 12 = ethPIp :=
    (HttpHello.ntohsUnaligned_congr hframe (by omega)).trans htype
  have hlong : frame.length ≥ sizeofEthHdr + sizeofIpv4Hdr + sizeofUdpHdr := hlen
  simp only [receive, handleFrame, htype', hframe 23 (by omega), if_pos hlong, if_true]

/-- What is sent after a UDP datagram to the address: the answer, if the port is right and there is a ping. -/
theorem receive_udp {frame : Frame} (hlen : 42 ≤ frame.length) (htype : ntohsUnaligned (bufOf frame) 12 = ethPIp)
    (hproto : bufOf frame 23 = ipprotoUdp) (hip : ntohlUnaligned (bufOf frame) 30 = packetPrintIpAddr) (mac : Buf)
    (transmit : Frame → Bool) (s : State) :
    let buffer := store s.buffer 0 frame
    (receive mac transmit s frame).2 =
      if udpDstPort buffer = packetPrintUdpPort ∧ isPing (advance buffer 42) (payloadLen buffer) = true then
        [pingFrame mac buffer (pong (advance buffer 42) (payloadLen buffer))]
      else [] := by
  intro buffer
  have hframe : ∀ i < frame.length, buffer i = bufOf frame i := fun _ hi => HttpHello.store_zero_apply s.buffer hi
  have hip' : ntohlUnaligned buffer 30 = packetPrintIpAddr :=
    (HttpHello.ntohlUnaligned_congr hframe (by omega)).trans hip
  rw [receive_ip hlen htype, if_pos hproto, handleUdp, if_pos hip']
  change (if udpDstPort buffer = packetPrintUdpPort then
    if isPing (advance buffer 42) (payloadLen buffer) = true then _ else _ else _ : State × List Frame).2 = _
  by_cases hport : udpDstPort buffer = packetPrintUdpPort
  · by_cases hping : isPing (advance buffer 42) (payloadLen buffer) = true
    · rw [if_pos hport, if_pos hping, if_pos ⟨hport, hping⟩, pingReply_eq]
      rfl
    · rw [if_pos hport, if_neg hping, if_neg (fun hc => hping hc.2)]
  · rw [if_neg hport, if_neg (fun hc => hport hc.1)]

/-! ### The answer to an ARP request -/

/-- One reply to a request for the address, and nothing else changes. -/
theorem receive_arpRequest (mac senderMac : Buf) (senderIp : UInt32) (transmit : Frame → Bool) (s : State) :
    let frame := arpRequest (load senderMac 0 6) senderIp packetPrintIpAddr
    let reply := arpReply (load mac 0 6) packetPrintIpAddr (load senderMac 0 6) senderIp
    receive mac transmit s frame =
      ({ s with buffer := store s.buffer 0 frame, replyBuffer := store s.replyBuffer 0 reply }, [reply]) := by
  intro frame reply
  have hlen : frame.length = 42 := length_arpRequest (length_load _ _ _) _ _
  have hne : ethPArp ≠ ethPIp := by decide
  simp only [receive, handleFrame, hlen, frame, ethType_arpRequest]
  rw [if_pos (by decide), if_neg hne, if_pos trivial]
  simp only [handleArp, opcode_arpRequest, targetIp_arpRequest, senderIp_arpRequest, and_self, if_true]
  rw [load_arpBuildReply, arpBuildReply_eq, load_advance, senderMac_arpRequest]

/-- The HTTP server answers a request for any address. -/
theorem httpHello_receive_arpRequest (mac senderMac : Buf) (senderIp targetIp : UInt32) (s : HttpHello.State) :
    let frame := arpRequest (load senderMac 0 6) senderIp targetIp
    let reply := arpReply (load mac 0 6) targetIp (load senderMac 0 6) senderIp
    HttpHello.receive mac s frame =
      ({ s with buffer := store s.buffer 0 frame, replyBuffer := store s.replyBuffer 0 reply }, [reply]) := by
  intro frame reply
  have hlen : frame.length = 42 := length_arpRequest (length_load _ _ _) _ _
  simp only [HttpHello.receive, HttpHello.handleFrame, hlen, frame, ethType_arpRequest]
  rw [if_neg (by decide), if_pos trivial]
  simp only [HttpHello.handleArp, opcode_arpRequest, targetIp_arpRequest, senderIp_arpRequest, if_true]
  rw [load_arpBuildReply, arpBuildReply_eq, load_advance, senderMac_arpRequest]

/-- A frame that `arp_build_request` wrote gets exactly one answer: a reply whose sender is the responder with
the address asked for, and whose target is the requester. Apart from the buffers, the applications stay as
they are. -/
theorem receive_arpBuildRequest (packet m r : Buf) (s t : UInt32) (transmit : Frame → Bool) (http : HttpHello.State)
    (printer : State) :
    (∃ reply, IsReply reply (load r 0 6) t (load m 0 6) s ∧
      HttpHello.receive r http (load (arpBuildRequest packet m s t) 0 arpPacketSize) =
        ({ buffer := store http.buffer 0 (load (arpBuildRequest packet m s t) 0 arpPacketSize)
           replyBuffer := store http.replyBuffer 0 reply
           isnCounter := http.isnCounter }, [reply])) ∧
    ∃ reply, IsReply reply (load r 0 6) packetPrintIpAddr (load m 0 6) s ∧
      receive r transmit printer (load (arpBuildRequest packet m s packetPrintIpAddr) 0 arpPacketSize) =
        ({ buffer := store printer.buffer 0 (load (arpBuildRequest packet m s packetPrintIpAddr) 0 arpPacketSize)
           replyBuffer := store printer.replyBuffer 0 reply
           handledRequest := printer.handledRequest }, [reply]) := by
  rw [load_arpBuildRequest, load_arpBuildRequest]
  exact ⟨⟨_, isReply_arpReply r m t s, httpHello_receive_arpRequest r m s t http⟩,
    ⟨_, isReply_arpReply r m packetPrintIpAddr s, receive_arpRequest r m s transmit printer⟩⟩

end Yasouos.Apps.PacketPrint
