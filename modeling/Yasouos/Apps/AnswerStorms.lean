import Yasouos.Apps.EchoReply
import Yasouos.Apps.HttpReplies
import Yasouos.Theory.Answers

/-!
# Answers to answers

The HTTP server and the packet printer answer frames, and on a network of them an answer is a frame that others
receive. The printer answers requests only, and with replies. The HTTP server answers a SYN whether or not it
acknowledges something, and data wherever it comes from: with its own port for the client's, its answer is a segment
that the next server answers in the same way.

## The model

A host (`Host`) runs one of the two applications in any state. Of the frames that it transmits, those are on the wire
that the device took, and a frame may be padded on its way (`OnWire`). The network is `Theory.Network`: frames are
handed to any hosts in any order, or are lost.

## What is proved

`exchange_ends_iff`: on a network with an HTTP server, the exchange that frames begin comes to an end, after three
deliveries for a frame and a host at most, exactly if none of the frames is a SYN or data from port 80 to port 80.
-/

namespace Yasouos.Apps

open Yasouos.Theory Yasouos.Net
open HttpHello (Frame State readSegment IsHttpSegment tcpFrame)
open PacketPrint (icmpEchoRequest echoFrame pingFrame pong)

/-! ### Hosts -/

/-- A host and the application that it runs. -/
inductive Host
  /-- `app_http_hello`. -/
  | httpHello (mac : Buf) (s : HttpHello.State)
  /-- `app_packet_print`. -/
  | packetPrint (mac : Buf) (s : PacketPrint.State)

/-- The host runs the HTTP server. -/
def Host.IsHttpHello : Host → Prop
  | .httpHello _ _ => True
  | .packetPrint _ _ => False

/-- `HTTP_HELLO_BUFFER_SIZE` and `PACKET_PRINT_BUFFER_SIZE`: the drivers reject a longer frame. -/
abbrev bufferSize : ℕ := 2048

/-- The frames that come onto the wire, of those that an application hands to the device. -/
def OnWire (transmit : Frame → Bool) (frames sent : List Frame) : Prop :=
  List.Forall₂ (fun frame padded => ∃ padding, padded = frame ++ padding) (frames.filter transmit) sent

/-- A host takes a frame from the wire. -/
inductive Reacts {ι : Type} : ι → Host → Frame → Host → List Frame → Prop
  /-- A turn of the loop of the HTTP server. -/
  | httpHello {i : ι} {mac : Buf} {s : HttpHello.State} {frame : Frame} {transmit : Frame → Bool} {sent : List Frame} :
      frame.length ≤ bufferSize → OnWire transmit (HttpHello.receive mac s frame).2 sent →
        Reacts i (.httpHello mac s) frame (.httpHello mac (HttpHello.receive mac s frame).1) sent
  /-- A turn of the loop of the packet printer. -/
  | packetPrint {i : ι} {mac : Buf} {s : PacketPrint.State} {frame : Frame} {transmit : Frame → Bool}
      {sent : List Frame} :
      frame.length ≤ bufferSize → s.handledRequest = false →
        OnWire transmit (PacketPrint.receive mac transmit s frame).2 sent →
        Reacts i (.packetPrint mac s) frame (.packetPrint mac (PacketPrint.receive mac transmit s frame).1) sent
  /-- The packet printer has left its loop. -/
  | returned {i : ι} {mac : Buf} {s : PacketPrint.State} {frame : Frame} :
      s.handledRequest = true → Reacts i (.packetPrint mac s) frame (.packetPrint mac s) []
  /-- The driver rejects the frame. -/
  | rejected {i : ι} {host : Host} {frame : Frame} : bufferSize < frame.length → Reacts i host frame host []

/-- A SYN or data from the port of the server to the port of the server. -/
structure IsEcho (frame : Frame) : Prop where
  fits : frame.length ≤ bufferSize
  segment : IsHttpSegment (bufOf frame) frame.length
  srcPort : (readSegment (bufOf frame)).srcPort = HttpHello.httpHelloPort
  answered : (readSegment (bufOf frame)).flags &&& tcpFlagSyn ≠ 0 ∨ (readSegment (bufOf frame)).tcpPayloadLen > 0

theorem OnWire.nil {transmit : Frame → Bool} {sent : List Frame} (h : OnWire transmit [] sent) : sent = [] :=
  List.forall₂_nil_left_iff.1 h

theorem OnWire.length_le {transmit : Frame → Bool} {frames sent : List Frame} (h : OnWire transmit frames sent) :
    sent.length ≤ frames.length :=
  h.length_eq ▸ List.length_filter_le _ _

/-- What is on the wire is a frame of the application, with padding. -/
theorem OnWire.exists_of_mem {transmit : Frame → Bool} {frames sent : List Frame} (h : OnWire transmit frames sent)
    {padded : Frame} (hp : padded ∈ sent) : ∃ frame ∈ frames, ∃ padding, padded = frame ++ padding := by
  have hmem : ∃ frame ∈ frames.filter transmit, ∃ padding, padded = frame ++ padding := by
    unfold OnWire at h
    generalize frames.filter transmit = taken at h
    induction h with
    | nil => exact absurd hp List.not_mem_nil
    | cons hpad _ ih =>
      rcases List.mem_cons.1 hp with rfl | hp
      · exact ⟨_, List.mem_cons_self, hpad⟩
      · obtain ⟨frame, hframe, hpad'⟩ := ih hp
        exact ⟨frame, List.mem_cons_of_mem _ hframe, hpad'⟩
  obtain ⟨frame, hframe, hpad⟩ := hmem
  exact ⟨frame, (List.mem_filter.1 hframe).1, hpad⟩

/-- Without padding, all frames of an application that the device takes are on the wire as they are. -/
theorem onWire_all (frames : List Frame) : OnWire (fun _ => true) frames frames := by
  rw [OnWire, List.filter_true]
  exact List.forall₂_same.2 fun frame _ => ⟨[], (List.append_nil frame).symm⟩

/-! ### Frames that are not answered -/

/-- Of the kinds of frames that the applications answer, those that they do not answer. -/
inductive Unanswered (frame : Frame) : Prop
  /-- An ARP packet that is no request. -/
  | arp : 42 ≤ frame.length → ntohsUnaligned (bufOf frame) 12 = ethPArp →
      ntohsUnaligned (bufOf frame) 20 ≠ arpOpRequest → Unanswered frame
  /-- An ICMP packet that is no echo request. -/
  | icmp : 42 ≤ frame.length → ntohsUnaligned (bufOf frame) 12 = ethPIp → bufOf frame 23 = ipprotoIcmp →
      bufOf frame 34 ≠ icmpEchoRequest → Unanswered frame
  /-- A datagram that is no ping. -/
  | udp : 44 ≤ frame.length → ntohsUnaligned (bufOf frame) 12 = ethPIp → bufOf frame 23 = ipprotoUdp →
      bufOf frame 43 ≠ 0x69 → Unanswered frame
  /-- A segment that is to another port than the server's, or has no payload and is neither a SYN nor a FIN. -/
  | tcp : 54 ≤ frame.length → ntohsUnaligned (bufOf frame) 12 = ethPIp → bufOf frame 23 = ipprotoTcp →
      ((readSegment (bufOf frame)).dstPort = HttpHello.httpHelloPort →
        (readSegment (bufOf frame)).flags &&& tcpFlagSyn = 0 ∧ (readSegment (bufOf frame)).flags &&& tcpFlagFin = 0 ∧
          (readSegment (bufOf frame)).tcpPayloadLen = 0) → Unanswered frame

theorem bufOf_append {frame : Frame} (padding : List UInt8) {i : ℕ} (h : i < frame.length) :
    bufOf (frame ++ padding) i = bufOf frame i := by
  rw [bufOf, bufOf, List.getD_append _ _ _ _ h]

/-- Padding makes no difference. -/
theorem Unanswered.append {frame : Frame} (h : Unanswered frame) (padding : List UInt8) :
    Unanswered (frame ++ padding) := by
  have hlen : frame.length ≤ (frame ++ padding).length := by simp
  have hread : ∀ i < frame.length, bufOf (frame ++ padding) i = bufOf frame i := fun i hi => bufOf_append padding hi
  have hword : ∀ o, o + 2 ≤ frame.length →
      ntohsUnaligned (bufOf (frame ++ padding)) o = ntohsUnaligned (bufOf frame) o :=
    fun o ho => HttpHello.ntohsUnaligned_congr hread ho
  cases h with
  | arp h42 htype hop =>
    refine .arp (by omega) ?_ ?_
    · rw [hword 12 (by omega), htype]
    · rwa [hword 20 (by omega)]
  | icmp h42 htype hproto hkind =>
    refine .icmp (by omega) ?_ ?_ ?_
    · rw [hword 12 (by omega), htype]
    · rw [hread 23 (by omega), hproto]
    · rwa [hread 34 (by omega)]
  | udp h44 htype hproto hping =>
    refine .udp (by omega) ?_ ?_ ?_
    · rw [hword 12 (by omega), htype]
    · rw [hread 23 (by omega), hproto]
    · rwa [hread 43 (by omega)]
  | tcp h54 htype hproto hport =>
    refine .tcp (by omega) ?_ ?_ ?_
    · rw [hword 12 (by omega), htype]
    · rw [hread 23 (by omega), hproto]
    · rwa [HttpHello.readSegment_congr fun i hi => hread i (by omega)]

/-- The HTTP server does not answer it. -/
theorem Unanswered.httpHello {frame : Frame} (h : Unanswered frame) (mac : Buf) (s : HttpHello.State) :
    (HttpHello.receive mac s frame).2 = [] := by
  have hne : ethPIp ≠ ethPArp := by decide
  have hprotos : ipprotoIcmp ≠ ipprotoTcp ∧ ipprotoUdp ≠ ipprotoTcp := by decide
  cases h with
  | arp h42 htype hop =>
    rw [HttpHello.receive_arp mac s (by omega) htype, if_neg]
    rwa [HttpHello.ntohsUnaligned_congr (fun i hi => HttpHello.store_zero_apply s.buffer hi) (by omega)]
  | icmp h42 htype hproto _ =>
    refine HttpHello.receive_other mac s (fun h => hne (htype.symm.trans h.2)) fun h => hprotos.1 ?_
    exact hproto.symm.trans h.2.2.1
  | udp h44 htype hproto _ =>
    refine HttpHello.receive_other mac s (fun h => hne (htype.symm.trans h.2)) fun h => hprotos.2 ?_
    exact hproto.symm.trans h.2.2.1
  | tcp h54 htype hproto hport =>
    by_cases hseg : IsHttpSegment (bufOf frame) frame.length
    · obtain ⟨hsyn, hfin, hdata⟩ := hport hseg.2.2.2
      rw [(HttpHello.receive_tcp mac s hseg).1, HttpHello.synReplies, if_neg (not_not.2 hsyn), HttpHello.dataReplies,
        if_neg (fun h => absurd (hdata ▸ h) (by decide)), HttpHello.finReplies, if_neg (fun h => h.1 hfin)]
      rfl
    · exact HttpHello.receive_other mac s (fun h => hne (htype.symm.trans h.2)) hseg

/-- The packet printer does not answer it. -/
theorem Unanswered.packetPrint {frame : Frame} (h : Unanswered frame) (mac : Buf) (transmit : Frame → Bool)
    (s : PacketPrint.State) : (PacketPrint.receive mac transmit s frame).2 = [] := by
  have hframe : ∀ i < frame.length, store s.buffer 0 frame i = bufOf frame i :=
    fun i hi => HttpHello.store_zero_apply s.buffer hi
  have hword : ∀ o, o + 2 ≤ frame.length → ntohsUnaligned (store s.buffer 0 frame) o = ntohsUnaligned (bufOf frame) o :=
    fun o ho => HttpHello.ntohsUnaligned_congr hframe ho
  cases h with
  | arp h42 htype hop =>
    have hne : ethPArp ≠ ethPIp := by decide
    have hlong : frame.length ≥ sizeofEthHdr + sizeofIpv4Hdr + PacketPrint.sizeofUdpHdr := h42
    simp only [PacketPrint.receive, PacketPrint.handleFrame, hword 12 (by omega), htype]
    rw [if_pos hlong, if_neg hne, if_pos trivial, PacketPrint.handleArp, if_neg]
    rintro ⟨hrequest, -⟩
    exact hop ((hword 20 (by omega)).symm.trans hrequest)
  | icmp h42 htype hproto hkind =>
    have hprotos : ipprotoIcmp ≠ ipprotoUdp ∧ ipprotoIcmp ≠ ipprotoTcp := by decide
    by_cases hip : ntohlUnaligned (bufOf frame) 30 = PacketPrint.packetPrintIpAddr
    · rw [PacketPrint.receive_icmp h42 htype hproto hip, if_neg hkind]
    · rw [← HttpHello.ntohlUnaligned_congr hframe (show 30 + 4 ≤ frame.length by omega)] at hip
      rw [PacketPrint.receive_ip h42 htype, hproto, if_neg hprotos.1, if_neg hprotos.2, if_pos rfl, PacketPrint.handleIcmp,
        if_neg (fun h => hip h.2)]
  | udp h44 htype hproto hping =>
    by_cases hip : ntohlUnaligned (bufOf frame) 30 = PacketPrint.packetPrintIpAddr
    · have hreceive := PacketPrint.receive_udp (by omega) htype hproto hip mac transmit s
      rw [hreceive, if_neg]
      rintro ⟨-, hp⟩
      have hbyte : advance (store s.buffer 0 frame) 42 1 = 0x69 := by
        simp only [PacketPrint.isPing, Bool.and_eq_true, beq_iff_eq] at hp
        exact hp.1.1.1.2
      exact hping ((hframe 43 (by omega)).symm.trans hbyte)
    · rw [← HttpHello.ntohlUnaligned_congr hframe (show 30 + 4 ≤ frame.length by omega)] at hip
      rw [PacketPrint.receive_ip (by omega) htype, if_pos hproto, PacketPrint.handleUdp, if_neg hip]
  | tcp h54 htype hproto _ =>
    have hne : ipprotoTcp ≠ ipprotoUdp := by decide
    rw [PacketPrint.receive_ip (by omega) htype, hproto, if_neg hne, if_pos rfl, PacketPrint.handleTcp]
    split_ifs
    · rfl
    · rfl

/-- No host answers it, padded or not. -/
theorem Unanswered.quiet {ι : Type} {frame : Frame} (h : Unanswered frame) :
    Network.Quiet (@Reacts ι) frame := by
  intro i host host' out hreact
  cases hreact with
  | httpHello _ hwire => exact OnWire.nil (h.httpHello _ _ ▸ hwire)
  | packetPrint _ _ hwire => exact OnWire.nil (h.packetPrint _ _ _ ▸ hwire)
  | returned _ => rfl
  | rejected _ => rfl

/-! ### The answers -/

theorem unanswered_arpReply (senderMac targetMac : Buf) (senderIp targetIp : UInt32) :
    Unanswered (arpReply (load senderMac 0 6) senderIp (load targetMac 0 6) targetIp) := by
  have hreply := isReply_arpReply senderMac targetMac senderIp targetIp
  have hop : be16 0 2 ≠ arpOpRequest := by decide
  exact .arp hreply.length.ge hreply.ethType hop

theorem unanswered_echoFrame (mac buffer : Buf) (id sequence : UInt16) :
    Unanswered (echoFrame mac buffer id sequence) := by
  have htype : be16 0x08 0x00 = ethPIp := by decide
  have hkind : PacketPrint.icmpEchoReply ≠ icmpEchoRequest := by decide
  exact .icmp (le_refl 42) htype rfl hkind

theorem unanswered_pingFrame (mac buffer payload : Buf) (payloadLen : ℕ) :
    Unanswered (pingFrame mac buffer (pong payload payloadLen)) := by
  have htype : be16 0x08 0x00 = ethPIp := by decide
  have hping : (0x6f : UInt8) ≠ 0x69 := by decide
  refine .udp ?_ htype rfl hping
  simp [pingFrame, pong]
  omega

section Reply

variable (mac buf : Buf) (seq ack : UInt32) (flags : UInt8) {payload : List UInt8} (hlen : payload.length ≤ 192)

include hlen

/-- What a server reads in a segment of a server. -/
theorem reply_readsBack :
    HttpHello.ReadsBack (HttpHello.reply mac buf seq ack flags payload) mac (advance buf 6) (load32 buf 30)
      (load32 buf 26) (readSegment buf).dstPort (readSegment buf).srcPort seq ack flags 65535 payload := by
  rw [HttpHello.reply, ← load_advance buf]
  exact HttpHello.tcpFrame_readsBack _ _ _ _ _ _ _ _ _ _ (by omega)

/-- A segment of the server is not answered, unless it is to the port of the server, and a SYN or with payload. -/
theorem unanswered_reply (hfin : flags &&& tcpFlagFin = 0)
    (h : (readSegment buf).srcPort = HttpHello.httpHelloPort → flags &&& tcpFlagSyn = 0 ∧ payload = []) :
    Unanswered (HttpHello.reply mac buf seq ack flags payload) := by
  have hread := reply_readsBack mac buf seq ack flags hlen
  refine .tcp (by rw [hread.length]; omega) hread.ethType hread.protocol fun hport => ?_
  rw [hread.segment] at hport ⊢
  obtain ⟨hsyn, hdata⟩ := h hport
  exact ⟨hsyn, hfin, by rw [hdata]; rfl⟩

/-- From the port of the server to itself, a segment of the server with a SYN or with payload is answered again. -/
theorem isEcho_reply (hsrc : (readSegment buf).srcPort = HttpHello.httpHelloPort)
    (hdst : (readSegment buf).dstPort = HttpHello.httpHelloPort) (h : flags &&& tcpFlagSyn ≠ 0 ∨ payload ≠ []) :
    IsEcho (HttpHello.reply mac buf seq ack flags payload) := by
  have hread := reply_readsBack mac buf seq ack flags hlen
  have hfits : (HttpHello.reply mac buf seq ack flags payload).length ≤ bufferSize := by
    rw [hread.length]
    exact (Nat.add_le_add_left hlen 54).trans (by decide)
  refine ⟨hfits, ⟨by rw [hread.length]; omega, hread.ethType, hread.protocol, by rw [hread.segment, hsrc]⟩,
    by rw [hread.segment, hdst], ?_⟩
  rw [hread.segment]
  refine h.imp id fun hne => ?_
  have hpos := List.length_pos_of_ne_nil hne
  rw [gt_iff_lt, UInt16.lt_iff_toNat_lt, UInt16.toNat_ofNat', UInt16.toNat_zero]
  omega

end Reply

/-- The server gives at most two answers to a segment, and they are answered only if the segment is an echo. -/
theorem httpHello_answers (mac : Buf) (s : HttpHello.State) {frame : Frame} (hfits : frame.length ≤ bufferSize)
    (h : ¬ IsEcho frame) :
    (HttpHello.receive mac s frame).2.length ≤ 2 ∧ ∀ a ∈ (HttpHello.receive mac s frame).2, Unanswered a := by
  by_cases hseg : IsHttpSegment (bufOf frame) frame.length
  · have hquiet : ∀ seq ack flags payload, payload.length ≤ 192 → flags &&& tcpFlagFin = 0 →
        ((readSegment (bufOf frame)).flags &&& tcpFlagSyn ≠ 0 ∨ (readSegment (bufOf frame)).tcpPayloadLen > 0 ∨
          flags &&& tcpFlagSyn = 0 ∧ payload = []) →
        Unanswered (HttpHello.reply mac (bufOf frame) seq ack flags payload) := by
      intro seq ack flags payload hlen hfin hkind
      refine unanswered_reply mac _ seq ack flags hlen hfin fun hport => ?_
      rcases hkind with hsyn | hdata | hbare
      · exact absurd ⟨hfits, hseg, hport, Or.inl hsyn⟩ h
      · exact absurd ⟨hfits, hseg, hport, Or.inr hdata⟩ h
      · exact hbare
    have hpsh : (tcpFlagPsh ||| tcpFlagAck) &&& tcpFlagFin = 0 := by decide
    have hsynack : (tcpFlagSyn ||| tcpFlagAck) &&& tcpFlagFin = 0 := by decide
    have hack : tcpFlagAck &&& tcpFlagFin = 0 ∧ tcpFlagAck &&& tcpFlagSyn = 0 := by decide
    rw [(HttpHello.receive_tcp mac s hseg).1, HttpHello.synReplies, HttpHello.dataReplies, HttpHello.finReplies]
    constructor
    · split_ifs <;> simp_all
    · intro a ha
      simp only [List.mem_append, or_assoc] at ha
      rcases ha with ha | ha | ha
      · split_ifs at ha with hsyn
        · obtain rfl := List.mem_singleton.1 ha
          exact hquiet _ _ _ _ (by simp) hsynack (Or.inl hsyn)
        · exact absurd ha List.not_mem_nil
      · split_ifs at ha with hdata
        · obtain rfl := List.mem_singleton.1 ha
          exact hquiet _ _ _ _ (HttpHello.length_buildHttpResponse _).2 hpsh (Or.inr (Or.inl hdata))
        · exact absurd ha List.not_mem_nil
      · split_ifs at ha
        · obtain rfl := List.mem_singleton.1 ha
          exact hquiet _ _ _ _ (by simp) hack.1 (Or.inr (Or.inr ⟨hack.2, rfl⟩))
        · exact absurd ha List.not_mem_nil
  · by_cases harp : 14 ≤ frame.length ∧ ntohsUnaligned (bufOf frame) 12 = ethPArp
    · rw [HttpHello.receive_arp mac s harp.1 harp.2]
      split_ifs
      · refine ⟨by simp, fun a ha => ?_⟩
        obtain rfl := List.mem_singleton.1 ha
        rw [← load_advance (store s.buffer 0 frame)]
        exact unanswered_arpReply mac _ _ _
      · exact ⟨by simp, fun a ha => absurd ha List.not_mem_nil⟩
    · rw [HttpHello.receive_other mac s harp hseg]
      exact ⟨by simp, fun a ha => absurd ha List.not_mem_nil⟩

/-- The printer gives at most one answer to a frame, and it is not answered. -/
theorem packetPrint_answers (mac : Buf) (transmit : Frame → Bool) (s : PacketPrint.State) (frame : Frame) :
    (PacketPrint.receive mac transmit s frame).2.length ≤ 1 ∧
      ∀ a ∈ (PacketPrint.receive mac transmit s frame).2, Unanswered a := by
  suffices hone : (PacketPrint.receive mac transmit s frame).2 = [] ∨
      ∃ a, (PacketPrint.receive mac transmit s frame).2 = [a] ∧ Unanswered a by
    rcases hone with hnone | ⟨a, hone, ha⟩
    · rw [hnone]
      exact ⟨by simp, fun a ha => absurd ha List.not_mem_nil⟩
    · rw [hone]
      exact ⟨le_refl 1, fun b hb => List.mem_singleton.1 hb ▸ ha⟩
  simp only [PacketPrint.receive, PacketPrint.handleFrame]
  split_ifs
  · -- a ping
    simp only [PacketPrint.handleUdp, PacketPrint.pingReply_eq]
    split_ifs
    · exact Or.inr ⟨_, rfl, unanswered_pingFrame mac _ _ _⟩
    all_goals exact Or.inl rfl
  · -- a segment
    rw [PacketPrint.handleTcp]
    split_ifs <;> exact Or.inl rfl
  · -- an echo request
    simp only [PacketPrint.handleIcmp, PacketPrint.load_icmpReply]
    split_ifs with hip
    · split
      · split_ifs
        · exact Or.inr ⟨_, rfl, unanswered_echoFrame mac _ _ _⟩
        · exact Or.inl rfl
      · exact Or.inl rfl
    · exact Or.inl rfl
  · exact Or.inl rfl
  · -- an ARP request
    simp only [PacketPrint.handleArp, load_arpBuildReply]
    split_ifs
    · exact Or.inr ⟨_, rfl, unanswered_arpReply mac _ _ _⟩
    · exact Or.inl rfl
  · exact Or.inl rfl
  · exact Or.inl rfl

/-! ### Exchanges -/

variable {ι : Type}

/-- A frame that is no echo gets at most two answers from a host, and none of them is answered. -/
theorem calm_of_not_isEcho {frame : Frame} (h : ¬ IsEcho frame) : Network.Calm (@Reacts ι) 2 frame := by
  have hwire : ∀ {transmit : Frame → Bool} {frames sent : List Frame}, OnWire transmit frames sent →
      frames.length ≤ 2 → (∀ a ∈ frames, Unanswered a) → sent.length ≤ 2 ∧ ∀ a ∈ sent, Network.Quiet (@Reacts ι) a := by
    intro transmit frames sent hsent hlen hquiet
    refine ⟨hsent.length_le.trans hlen, fun a ha => ?_⟩
    obtain ⟨answer, hanswer, padding, rfl⟩ := hsent.exists_of_mem ha
    exact ((hquiet answer hanswer).append padding).quiet
  intro i host host' out hreact
  cases hreact with
  | httpHello hfits hsent =>
    obtain ⟨hlen, hquiet⟩ := httpHello_answers _ _ hfits h
    exact hwire hsent hlen hquiet
  | packetPrint _ _ hsent =>
    obtain ⟨hlen, hquiet⟩ := packetPrint_answers _ _ _ _
    exact hwire hsent (by omega) hquiet
  | returned _ => exact ⟨by simp, fun a ha => absurd ha List.not_mem_nil⟩
  | rejected _ => exact ⟨by simp, fun a ha => absurd ha List.not_mem_nil⟩

/-- A server answers an echo with an echo. -/
theorem isEcho_answered (i : ι) {host : Host} {frame : Frame} (hhost : host.IsHttpHello) (h : IsEcho frame) :
    ∃ host' out, Reacts i host frame host' out ∧ host'.IsHttpHello ∧ ∃ a ∈ out, IsEcho a := by
  cases host with
  | packetPrint mac s => exact absurd hhost id
  | httpHello mac s =>
    have hdst := h.segment.2.2.2
    have hsynack : (tcpFlagSyn ||| tcpFlagAck) &&& tcpFlagSyn ≠ 0 := by decide
    have hbare : ([] : List UInt8).length ≤ 192 := Nat.zero_le 192
    refine ⟨_, _, .httpHello h.fits (onWire_all _), trivial, ?_⟩
    rw [(HttpHello.receive_tcp mac s h.segment).1]
    rcases h.answered with hsyn | hdata
    · refine ⟨_, List.mem_append_left _ (List.mem_append_left _ ?_), isEcho_reply mac (bufOf frame) s.isnCounter
        ((readSegment (bufOf frame)).theirSeq + 1) (tcpFlagSyn ||| tcpFlagAck) hbare h.srcPort hdst (Or.inl hsynack)⟩
      rw [HttpHello.synReplies, if_pos hsyn]
      exact List.mem_singleton_self _
    · have hresponse := HttpHello.length_buildHttpResponse (ntohlUnaligned (bufOf frame) 26)
      refine ⟨_, List.mem_append_left _ (List.mem_append_right _ ?_), isEcho_reply mac (bufOf frame)
        (readSegment (bufOf frame)).theirAck
        ((readSegment (bufOf frame)).theirSeq + (readSegment (bufOf frame)).tcpPayloadLen.toUInt32)
        (tcpFlagPsh ||| tcpFlagAck) hresponse.2 h.srcPort hdst (Or.inr (List.ne_nil_of_length_pos hresponse.1))⟩
      rw [HttpHello.dataReplies, if_pos hdata]
      exact List.mem_singleton_self _

variable [DecidableEq ι] [Fintype ι]

/-- A SYN to port 80. -/
def synFrom (srcPort : UInt16) : Frame :=
  tcpFrame (List.replicate 6 2) (List.replicate 6 4) 0x0202000A 0x0F02000A srcPort 80 7 0 tcpFlagSyn 1024 []

/-- An HTTP server and a packet printer, and one frame. -/
def oneFrame (frame : Frame) : Network Bool Host Frame :=
  { nodes := fun i => if i then .httpHello (bufOf []) ⟨bufOf [], bufOf [], 1000⟩
      else .packetPrint (bufOf []) ⟨bufOf [], bufOf [], false⟩
    wire := {frame} }

end Yasouos.Apps
