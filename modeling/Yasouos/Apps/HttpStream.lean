import Yasouos.Apps.HttpReplies
import Mathlib.Logic.Relation

/-!
# The stream of a connection

The server keeps no connections: the sequence number of a response is what the client
acknowledged in the request. A client that acknowledges only what it has received in
order then always acknowledges whole responses, and so the responses that are sent at
different times never contradict each other.

## The model

A `World` has the server, the client of one connection, and all frames that were sent
either way. A frame that was sent can be received at any time, any number of times, or
never: that is loss, duplication and reordering. Other clients may send any frame that
the server does not take for one of this connection. The client knows how much it has
received so far, and at earlier times; `rcvNxt` is the 32-bit number that goes with it.
Every frame carries, for the proof only, how much its sender had received when it wrote
the acknowledgement, and an answer carries what the request carried: that is the
unwrapped stream offset of a response.

## What is proved

`stream_consistent`: in every run, the bytes of every response are those that the stream
has at its offset, the response repeated over and over.
-/

namespace Yasouos.Apps.HttpHello

open Yasouos.Theory Yasouos.Net
open Relation (ReflTransGen)

/-! ### The frames of a connection -/

/-- A connection to the port. The addresses are in network order. -/
structure Connection where
  /-- The address of the client. -/
  clientIp : UInt32
  /-- The port of the client. -/
  clientPort : UInt16
  /-- The address the client uses for the server. -/
  serverIp : UInt32

/-- `ntohl`: the bytes swapped. -/
def ntohl (x : UInt32) : UInt32 := be32 x.toUInt8 (x >>> 8).toUInt8 (x >>> 16).toUInt8 (x >>> 24).toUInt8

theorem ntohlUnaligned_eq (buf : Buf) (o : ℕ) : ntohlUnaligned buf o = ntohl (load32 buf o) := by
  have h := raw32_load32 buf o
  simp only [raw32, load, List.range_succ, List.range_zero, List.nil_append, List.cons_append, List.map_cons,
    List.map_nil, Nat.add_zero, List.cons.injEq, and_true] at h
  rw [ntohlUnaligned, ntohl, h.1, h.2.1, h.2.2.1, h.2.2.2]

/-- The payload of a segment. -/
def payload (frame : Frame) : List UInt8 :=
  (frame.drop (34 + (readSegment (bufOf frame)).dataOffset.toNat)).take
    (readSegment (bufOf frame)).tcpPayloadLen.toNat

namespace Connection

/-- The response to this client. -/
def response (conn : Connection) : List UInt8 := buildHttpResponse (ntohl conn.clientIp)

/-- The frame is one of the client's to the port. -/
def Sends (conn : Connection) (frame : Frame) : Prop :=
  IsHttpSegment (bufOf frame) frame.length ∧ load32 (bufOf frame) 26 = conn.clientIp ∧
    load32 (bufOf frame) 30 = conn.serverIp ∧ (readSegment (bufOf frame)).srcPort = conn.clientPort

/-- The frame is one of the server's to the client. -/
def Receives (conn : Connection) (frame : Frame) : Prop :=
  54 ≤ frame.length ∧ ntohsUnaligned (bufOf frame) 12 = ethPIp ∧ bufOf frame 23 = ipprotoTcp ∧
    load32 (bufOf frame) 26 = conn.serverIp ∧ load32 (bufOf frame) 30 = conn.clientIp ∧
    (readSegment (bufOf frame)).srcPort = httpHelloPort ∧ (readSegment (bufOf frame)).dstPort = conn.clientPort

end Connection

variable {conn : Connection} {mac : Buf}

theorem payload_tcpFrame (ourMac theirMac : Buf) (srcIp dstIp : UInt32) (srcPort dstPort : UInt16)
    (seq ack : UInt32) (flags : UInt8) (window : UInt16) {data : List UInt8} (h : data.length ≤ 1994) :
    payload (tcpFrame (load ourMac 0 6) (load theirMac 0 6) srcIp dstIp srcPort dstPort seq ack flags window data) =
      data := by
  have hback := tcpFrame_readsBack ourMac theirMac srcIp dstIp srcPort dstPort seq ack flags window h
  rw [payload, hback.segment]
  change List.take (UInt16.ofNat data.length).toNat (List.drop 54 _) = data
  rw [hback.data, UInt16.toNat_ofNat', Nat.mod_eq_of_lt (by omega), List.take_length]

theorem payload_reply (mac buf : Buf) (seq ack : UInt32) (flags : UInt8) {data : List UInt8}
    (h : data.length ≤ 1994) : payload (reply mac buf seq ack flags data) = data := by
  rw [reply, ← load_advance buf, payload_tcpFrame _ _ _ _ _ _ _ _ _ _ h]

theorem theirSeq_reply (mac buf : Buf) (seq ack : UInt32) (flags : UInt8) (data : List UInt8) :
    (readSegment (bufOf (reply mac buf seq ack flags data))).theirSeq = seq := by
  rw [reply, ← load_advance buf, readSegment_tcpFrame]

/-- An answer goes back to where the request came from. -/
theorem receives_reply {frame : Frame} (hseg : IsHttpSegment (bufOf frame) frame.length) (seq ack : UInt32)
    (flags : UInt8) {data : List UInt8} (h : data.length ≤ 1994) :
    conn.Receives (reply mac (bufOf frame) seq ack flags data) ↔ conn.Sends frame := by
  have hback := tcpFrame_readsBack mac (advance (bufOf frame) 6) (load32 (bufOf frame) 30) (load32 (bufOf frame) 26)
    (readSegment (bufOf frame)).dstPort (readSegment (bufOf frame)).srcPort seq ack flags 65535 h
  rw [load_advance] at hback
  rw [Connection.Receives, Connection.Sends, reply, hback.length, hback.ethType, hback.protocol, hback.srcIp, hback.dstIp,
    hback.segment]
  have hport := hseg.2.2.2
  constructor
  · rintro ⟨-, -, -, hdst, hsrc, -, hclient⟩
    exact ⟨hseg, hsrc, hdst, hclient⟩
  · rintro ⟨-, hsrc, hdst, hclient⟩
    exact ⟨by omega, rfl, rfl, hdst, hsrc, hport, hclient⟩

theorem not_receives_arpReply (senderMac targetMac : Buf) (o : ℕ) (senderIp targetIp : UInt32) :
    ¬ conn.Receives (arpReply (load senderMac 0 6) senderIp (load targetMac o 6) targetIp) := by
  rintro ⟨-, htype, -⟩
  have harp : ntohsUnaligned (bufOf (arpReply (load senderMac 0 6) senderIp (load targetMac o 6) targetIp)) 12 =
      ethPArp := by
    simp only [arpReply, load, List.range_succ, List.range_zero, List.nil_append, List.cons_append, List.map_cons,
      List.map_nil, htonlBytes, bufOf, List.getD_cons_succ, List.getD_cons_zero, ntohsUnaligned]
    decide
  rw [harp] at htype
  exact absurd htype (by decide)

/-- A frame that answers a segment to the port is empty, or a response that starts where
the segment acknowledged. -/
theorem mem_replies {frame g : Frame} {isn : UInt32}
    (hg : g ∈ synReplies mac isn (bufOf frame) ++ dataReplies mac (bufOf frame) ++ finReplies mac (bufOf frame)) :
    (∃ seq ack flags, g = reply mac (bufOf frame) seq ack flags []) ∨
      (0 < (readSegment (bufOf frame)).tcpPayloadLen ∧ ∃ ack flags, g = reply mac (bufOf frame)
        (readSegment (bufOf frame)).theirAck ack flags (buildHttpResponse (ntohlUnaligned (bufOf frame) 26))) := by
  rw [List.mem_append, List.mem_append, synReplies, dataReplies, finReplies] at hg
  rcases hg with (hg | hg) | hg <;> split_ifs at hg with hif
  · exact .inl ⟨_, _, _, List.mem_singleton.mp hg⟩
  · simp at hg
  · exact .inr ⟨hif, _, _, List.mem_singleton.mp hg⟩
  · simp at hg
  · exact .inl ⟨_, _, _, List.mem_singleton.mp hg⟩
  · simp at hg

/-- What the server sends on a connection answers a frame of the connection: it is empty,
or the whole response, starting where the frame acknowledged. -/
theorem receive_receives {s : State} {frame g : Frame} (hg : g ∈ (receive mac s frame).2) (hr : conn.Receives g) :
    conn.Sends frame ∧ (payload g = [] ∨ (0 < (readSegment (bufOf frame)).tcpPayloadLen.toNat ∧
      payload g = conn.response ∧ (readSegment (bufOf g)).theirSeq = (readSegment (bufOf frame)).theirAck)) := by
  by_cases harp : 14 ≤ frame.length ∧ ntohsUnaligned (bufOf frame) 12 = ethPArp
  · rw [receive_arp mac s harp.1 harp.2] at hg
    split_ifs at hg
    · rw [List.mem_singleton.mp hg] at hr
      exact absurd hr (not_receives_arpReply _ _ _ _ _)
    · simp at hg
  by_cases hseg : IsHttpSegment (bufOf frame) frame.length
  · rw [(receive_tcp mac s hseg).1] at hg
    obtain ⟨seq, ack, flags, rfl⟩ | ⟨hpos, ack, flags, rfl⟩ := mem_replies hg
    · exact ⟨(receives_reply hseg _ _ _ (by simp)).mp hr, .inl (payload_reply _ _ _ _ _ (by simp))⟩
    · have hlen := (length_buildHttpResponse (ntohlUnaligned (bufOf frame) 26)).2
      have hsends := (receives_reply hseg _ _ _ (by omega)).mp hr
      refine ⟨hsends, .inr ⟨hpos, ?_, theirSeq_reply _ _ _ _ _ _⟩⟩
      rw [payload_reply _ _ _ _ _ (by omega), Connection.response, ntohlUnaligned_eq, hsends.2.1]
  · rw [receive_other mac s harp hseg] at hg
    simp at hg

/-! ### Runs -/

/-- The client of a connection, once it has accepted a SYN-ACK. -/
structure Client where
  /-- The sequence number of the SYN-ACK. -/
  isn : UInt32
  /-- How many bytes of the stream it has received. -/
  received : ℕ
  /-- How many it had received at earlier times. -/
  earlier : List ℕ

/-- `rcv_nxt`, when so many bytes have been received. -/
def Client.rcvNxt (c : Client) (offset : ℕ) : UInt32 := c.isn + 1 + UInt32.ofNat offset

/-- The server, the client, and all frames that were sent. With a request goes how much
was received when its acknowledgement was written, and with an answer the same number of
the request it answers. -/
structure World where
  /-- The server. -/
  server : State
  /-- The client of the connection, once it is established. -/
  client : Option Client
  /-- The frames to the server. -/
  requests : List (ℕ × Frame)
  /-- The frames from the server. -/
  answers : List (ℕ × Frame)

/-- One event. -/
inductive Step (conn : Connection) (mac : Buf) : World → World → Prop where
  /-- Somebody else sends a frame. -/
  | other {w : World} {frame : Frame} : ¬ conn.Sends frame →
      Step conn mac w { w with requests := (0, frame) :: w.requests }
  /-- The client sends a segment without payload: a SYN, a FIN, an acknowledgement. -/
  | control {w : World} {frame : Frame} : conn.Sends frame → WellFormed frame 0 →
      Step conn mac w { w with requests := (0, frame) :: w.requests }
  /-- The client sends data, with its value of `rcv_nxt` or an earlier one. -/
  | data {w : World} {c : Client} {frame : Frame} {p offset : ℕ} : w.client = some c → conn.Sends frame →
      WellFormed frame p → offset ∈ c.received :: c.earlier →
      (readSegment (bufOf frame)).theirAck = c.rcvNxt offset →
      Step conn mac w { w with requests := (offset, frame) :: w.requests }
  /-- The server receives a frame. -/
  | serve {w : World} {offset : ℕ} {frame : Frame} : (offset, frame) ∈ w.requests →
      Step conn mac w { w with
        server := (receive mac w.server frame).1
        answers := (receive mac w.server frame).2.map (Prod.mk offset) ++ w.answers }
  /-- The client accepts a SYN-ACK. -/
  | accept {w : World} {offset : ℕ} {frame : Frame} : (offset, frame) ∈ w.answers → w.client = none →
      conn.Receives frame → (readSegment (bufOf frame)).flags = tcpFlagSyn ||| tcpFlagAck →
      Step conn mac w { w with
        client := some { isn := (readSegment (bufOf frame)).theirSeq, received := 0, earlier := [] } }
  /-- The client receives the segment it expects. -/
  | deliver {w : World} {c : Client} {offset : ℕ} {frame : Frame} : (offset, frame) ∈ w.answers →
      w.client = some c → conn.Receives frame → (readSegment (bufOf frame)).theirSeq = c.rcvNxt c.received →
      Step conn mac w { w with
        client := some { c with
          received := c.received + (payload frame).length
          earlier := c.received :: c.earlier } }

/-- Nothing has been sent yet. -/
def World.Initial (w : World) : Prop := w.client = none ∧ w.requests = [] ∧ w.answers = []

/-- What holds all along: whole responses have been received, were acknowledged, and are
sent. -/
structure Inv (conn : Connection) (w : World) : Prop where
  /-- Whole responses have been received. -/
  received : ∀ c, w.client = some c → ∀ k ∈ c.received :: c.earlier, conn.response.length ∣ k
  /-- Requests acknowledge whole responses. -/
  requests : ∀ k frame, (k, frame) ∈ w.requests → conn.Sends frame →
    0 < (readSegment (bufOf frame)).tcpPayloadLen.toNat →
    ∃ c, w.client = some c ∧ conn.response.length ∣ k ∧ (readSegment (bufOf frame)).theirAck = c.rcvNxt k
  /-- Responses start where whole responses end. -/
  answers : ∀ k frame, (k, frame) ∈ w.answers → conn.Receives frame → payload frame = [] ∨
    ∃ c, w.client = some c ∧ conn.response.length ∣ k ∧ payload frame = conn.response ∧
      (readSegment (bufOf frame)).theirSeq = c.rcvNxt k

theorem Inv.initial {w : World} (h : w.Initial) : Inv conn w := by
  obtain ⟨hclient, hrequests, hanswers⟩ := h
  refine ⟨fun c hc => ?_, fun k frame hmem => ?_, fun k frame hmem => ?_⟩
  · rw [hclient] at hc
    simp at hc
  · rw [hrequests] at hmem
    simp at hmem
  · rw [hanswers] at hmem
    simp at hmem

/-- A frame sent to the server keeps the invariant, if it acknowledges whole responses. -/
theorem Inv.request {w : World} (h : Inv conn w) {k : ℕ} {frame : Frame}
    (hk : conn.Sends frame → 0 < (readSegment (bufOf frame)).tcpPayloadLen.toNat →
      ∃ c, w.client = some c ∧ conn.response.length ∣ k ∧ (readSegment (bufOf frame)).theirAck = c.rcvNxt k) :
    Inv conn { w with requests := (k, frame) :: w.requests } := by
  refine ⟨h.received, fun k' frame' hmem hsends hpos => ?_, h.answers⟩
  rcases List.mem_cons.mp hmem with heq | hmem
  · obtain ⟨rfl, rfl⟩ := Prod.mk.inj heq
    exact hk hsends hpos
  · exact h.requests k' frame' hmem hsends hpos

/-- So does what the client learns, as long as its sequence number stays. -/
theorem Inv.learn {w : World} (h : Inv conn w) {c' : Client}
    (hisn : ∀ c, w.client = some c → c'.isn = c.isn)
    (hrec : ∀ k ∈ c'.received :: c'.earlier, conn.response.length ∣ k) : Inv conn { w with client := some c' } := by
  have hnxt : ∀ c, w.client = some c → ∀ k, c'.rcvNxt k = c.rcvNxt k := by
    intro c hc k
    rw [Client.rcvNxt, Client.rcvNxt, hisn c hc]
  refine ⟨fun c hc => ?_, fun k frame hmem hsends hpos => ?_, fun k frame hmem hr => ?_⟩
  · obtain rfl := Option.some_inj.mp hc
    exact hrec
  · obtain ⟨c, hc, hdvd, hack⟩ := h.requests k frame hmem hsends hpos
    exact ⟨c', rfl, hdvd, by rw [hack, hnxt c hc]⟩
  · rcases h.answers k frame hmem hr with hempty | ⟨c, hc, hdvd, hdata, hseq⟩
    · exact .inl hempty
    · exact .inr ⟨c', rfl, hdvd, hdata, by rw [hseq, hnxt c hc]⟩

/-- Every event keeps the invariant. -/
theorem Inv.step {w w' : World} (h : Inv conn w) (hstep : Step conn mac w w') : Inv conn w' := by
  cases hstep with
  | other hother => exact h.request fun hsends _ => absurd hsends hother
  | control hsends hwf =>
    apply h.request
    intro _ hpos
    rw [hwf.tcpPayloadLen] at hpos
    omega
  | data hc hsends hwf hmem hack =>
    apply h.request
    intro _ _
    exact ⟨_, hc, h.received _ hc _ hmem, hack⟩
  | @serve offset frame hmem =>
    refine ⟨h.received, h.requests, fun k g hg hr => ?_⟩
    rcases List.mem_append.mp hg with hg | hg
    · obtain ⟨g', hsent, heq⟩ := List.mem_map.mp hg
      obtain ⟨rfl, rfl⟩ := Prod.mk.inj heq
      obtain ⟨hsends, hempty | ⟨hpos, hdata, hseq⟩⟩ := receive_receives hsent hr
      · exact .inl hempty
      · obtain ⟨c, hc, hdvd, hack⟩ := h.requests _ _ hmem hsends hpos
        exact .inr ⟨c, hc, hdvd, hdata, hseq.trans hack⟩
    · exact h.answers k g hg hr
  | accept hmem hc hr hflags =>
    apply h.learn
    · intro c hc'
      rw [hc] at hc'
      simp at hc'
    · intro k hk
      rw [List.mem_singleton.mp hk]
      exact Nat.dvd_zero _
  | @deliver c offset frame hmem hc hr hseq =>
    have hrec := h.received c hc
    apply h.learn
    · intro c' hc'
      rw [hc] at hc'
      rw [← Option.some_inj.mp hc']
    · intro k hk
      rcases List.mem_cons.mp hk with rfl | hk
      · -- the segment is empty or a whole response
        apply Nat.dvd_add (hrec _ List.mem_cons_self)
        rcases h.answers _ _ hmem hr with hempty | ⟨-, -, -, hdata, -⟩
        · rw [hempty]
          exact Nat.dvd_zero _
        · rw [hdata]
      · exact hrec k hk

/-- So it holds in every world that is reached. -/
theorem Inv.run {w w' : World} (h : Inv conn w) (hrun : ReflTransGen (Step conn mac) w w') : Inv conn w' := by
  induction hrun with
  | refl => exact h
  | tail _ hstep ih => exact ih.step hstep

/-- In every run, every data segment that is sent on the connection belongs at an offset of
the stream, and its bytes are those that the repeated response has there. So two segments
never have different bytes for the same place in the stream. -/
theorem stream_consistent {w₀ w : World} (h₀ : w₀.Initial) (hrun : ReflTransGen (Step conn mac) w₀ w) :
    (∀ k frame, (k, frame) ∈ w.answers → conn.Receives frame → payload frame ≠ [] →
      ∃ c, w.client = some c ∧ (readSegment (bufOf frame)).theirSeq = c.rcvNxt k ∧
        ∀ j < (payload frame).length,
          (payload frame)[j]? = conn.response[(k + j) % conn.response.length]?) ∧
    ∀ k frame k' frame', (k, frame) ∈ w.answers → (k', frame') ∈ w.answers → conn.Receives frame →
      conn.Receives frame' → ∀ j < (payload frame).length, ∀ j' < (payload frame').length, k + j = k' + j' →
        (payload frame)[j]? = (payload frame')[j']? := by
  have hinv : Inv conn w := (Inv.initial h₀).run hrun
  have hbyte : ∀ k frame, (k, frame) ∈ w.answers → conn.Receives frame → payload frame ≠ [] →
      ∃ c, w.client = some c ∧ (readSegment (bufOf frame)).theirSeq = c.rcvNxt k ∧
        ∀ j < (payload frame).length,
          (payload frame)[j]? = conn.response[(k + j) % conn.response.length]? := by
    intro k frame hmem hr hne
    rcases hinv.answers k frame hmem hr with hempty | ⟨c, hc, hdvd, hdata, hseq⟩
    · exact absurd hempty hne
    · refine ⟨c, hc, hseq, fun j hj => ?_⟩
      obtain ⟨m, rfl⟩ := hdvd
      rw [hdata] at hj ⊢
      rw [Nat.mul_add_mod, Nat.mod_eq_of_lt hj]
  refine ⟨hbyte, fun k frame k' frame' hmem hmem' hr hr' j hj j' hj' hoff => ?_⟩
  obtain ⟨-, -, -, hb⟩ := hbyte k frame hmem hr (List.ne_nil_of_length_pos (by omega))
  obtain ⟨-, -, -, hb'⟩ := hbyte k' frame' hmem' hr' (List.ne_nil_of_length_pos (by omega))
  rw [hb j hj, hb' j' hj', hoff]

/-! ### A request and its answer -/

/-- A segment of the client. -/
def Connection.segment (conn : Connection) (seq ack : UInt32) (flags : UInt8) (data : List UInt8) : Frame :=
  tcpFrame (load (bufOf []) 0 6) (load (bufOf []) 0 6) conn.clientIp conn.serverIp conn.clientPort httpHelloPort seq ack
    flags 65535 data

section Segment

variable (conn) (seq ack : UInt32) (flags : UInt8) (data : List UInt8) (h : data.length ≤ 1994)

include h

theorem sends_segment : conn.Sends (conn.segment seq ack flags data) := by
  have hback := tcpFrame_readsBack (bufOf []) (bufOf []) conn.clientIp conn.serverIp conn.clientPort httpHelloPort seq ack
    flags 65535 h
  refine ⟨⟨?_, hback.ethType, hback.protocol, ?_⟩, hback.srcIp, hback.dstIp, ?_⟩
  · rw [Connection.segment, hback.length]
    omega
  · rw [Connection.segment, hback.segment]
  · rw [Connection.segment, hback.segment]

theorem wellFormed_segment : WellFormed (conn.segment seq ack flags data) data.length := by
  have hback := tcpFrame_readsBack (bufOf []) (bufOf []) conn.clientIp conn.serverIp conn.clientPort httpHelloPort seq ack
    flags 65535 h
  have hoff : (readSegment (bufOf (conn.segment seq ack flags data))).dataOffset = 20 := by
    rw [Connection.segment, hback.segment]
  have htotal := hback.totalLength
  have hlength := hback.length
  rw [← Connection.segment] at htotal hlength
  refine ⟨(sends_segment conn seq ack flags data h).1, hback.ihl, ?_, ?_, ?_⟩
  · rw [hoff]
    decide
  · rw [hoff, htotal]
    change _ = 20 + 20 + data.length
    omega
  · rw [hoff, hlength]
    change 34 + 20 + data.length ≤ _
    omega

theorem readSegment_segment :
    readSegment (bufOf (conn.segment seq ack flags data)) =
      { srcPort := conn.clientPort, dstPort := httpHelloPort, theirSeq := seq, theirAck := ack, flags, dataOffset := 20
        ipTotalLen := 40 + UInt16.ofNat data.length, tcpPayloadLen := UInt16.ofNat data.length } :=
  (tcpFrame_readsBack (bufOf []) (bufOf []) conn.clientIp conn.serverIp conn.clientPort httpHelloPort seq ack flags 65535
    h).segment

end Segment

/-- A SYN is answered with the next sequence number. -/
theorem receive_syn (conn : Connection) (mac : Buf) (s : State) (seq ack : UInt32) :
    (receive mac s (conn.segment seq ack tcpFlagSyn [])).2 =
      [reply mac (bufOf (conn.segment seq ack tcpFlagSyn [])) s.isnCounter (seq + 1) (tcpFlagSyn ||| tcpFlagAck) []] := by
  have hread := readSegment_segment conn seq ack tcpFlagSyn [] (by simp)
  have hsyn : tcpFlagSyn &&& tcpFlagSyn ≠ 0 := by decide
  have hempty : ¬ UInt16.ofNat ([] : List UInt8).length > 0 := by decide
  rw [(receive_tcp mac s (sends_segment conn seq ack tcpFlagSyn [] (by simp)).1).1, synReplies, dataReplies, finReplies,
    hread, if_pos hsyn, if_neg hempty, if_neg fun hfin => hsyn hfin.2]
  rfl

/-- Data is answered with the response, where it acknowledged. -/
theorem receive_data (conn : Connection) (mac : Buf) (s : State) (seq ack : UInt32) (byte : UInt8) :
    (receive mac s (conn.segment seq ack (tcpFlagPsh ||| tcpFlagAck) [byte])).2 =
      [reply mac (bufOf (conn.segment seq ack (tcpFlagPsh ||| tcpFlagAck) [byte])) ack (seq + 1)
        (tcpFlagPsh ||| tcpFlagAck) conn.response] := by
  have hsends := sends_segment conn seq ack (tcpFlagPsh ||| tcpFlagAck) [byte] (by simp)
  have hread := readSegment_segment conn seq ack (tcpFlagPsh ||| tcpFlagAck) [byte] (by simp)
  have hsyn : ¬ (tcpFlagPsh ||| tcpFlagAck) &&& tcpFlagSyn ≠ 0 := by decide
  have hfin : ¬ (tcpFlagPsh ||| tcpFlagAck) &&& tcpFlagFin ≠ 0 := by decide
  have hdata : UInt16.ofNat [byte].length > 0 := by simp
  rw [(receive_tcp mac s hsends.1).1, synReplies, dataReplies, finReplies, hread, ntohlUnaligned_eq, hsends.2.1,
    if_neg hsyn, if_pos hdata, if_neg fun h => hfin h.1]
  rfl

/-- A client can connect. -/
theorem run_handshake (conn : Connection) (mac : Buf) {w : World} (hc : w.client = none) :
    ∃ w', ReflTransGen (Step conn mac) w w' ∧ ∃ c, w'.client = some c := by
  have hsends := sends_segment conn 0 0 tcpFlagSyn [] (by simp)
  have hwf := wellFormed_segment conn 0 0 tcpFlagSyn [] (by simp)
  have hsent := receive_syn conn mac w.server 0 0
  have hr : conn.Receives (reply mac (bufOf (conn.segment 0 0 tcpFlagSyn [])) w.server.isnCounter (0 + 1)
      (tcpFlagSyn ||| tcpFlagAck) []) := (receives_reply hsends.1 _ _ _ (by simp)).mpr hsends
  have hflags : (readSegment (bufOf (reply mac (bufOf (conn.segment 0 0 tcpFlagSyn [])) w.server.isnCounter (0 + 1)
      (tcpFlagSyn ||| tcpFlagAck) []))).flags = tcpFlagSyn ||| tcpFlagAck := by
    rw [reply, ← load_advance (bufOf _), readSegment_tcpFrame]
  have h1 := @Step.control conn mac w _ hsends hwf
  have h2 := @Step.serve conn mac { w with requests := (0, conn.segment 0 0 tcpFlagSyn []) :: w.requests } 0
    (conn.segment 0 0 tcpFlagSyn []) List.mem_cons_self
  rw [hsent] at h2
  exact ⟨_, ((ReflTransGen.single h1).tail h2).tail (Step.accept List.mem_cons_self hc hr hflags), _, rfl⟩

/-- A client that is connected can ask, and the response is sent. -/
theorem run_request (conn : Connection) (mac : Buf) {w : World} {c : Client} (hc : w.client = some c) :
    ∃ w' frame, ReflTransGen (Step conn mac) w w' ∧ (c.received, frame) ∈ w'.answers ∧ conn.Receives frame ∧
      payload frame = conn.response := by
  have hlen := length_buildHttpResponse (ntohl conn.clientIp)
  have hsends := sends_segment conn 1 (c.rcvNxt c.received) (tcpFlagPsh ||| tcpFlagAck) [0x47] (by simp)
  have hwf := wellFormed_segment conn 1 (c.rcvNxt c.received) (tcpFlagPsh ||| tcpFlagAck) [0x47] (by simp)
  have hread := readSegment_segment conn 1 (c.rcvNxt c.received) (tcpFlagPsh ||| tcpFlagAck) [0x47] (by simp)
  have hsent := receive_data conn mac w.server 1 (c.rcvNxt c.received) 0x47
  set request := conn.segment 1 (c.rcvNxt c.received) (tcpFlagPsh ||| tcpFlagAck) [0x47]
  have h1 := @Step.data conn mac w c _ 1 c.received hc hsends hwf List.mem_cons_self (by rw [hread])
  have h2 := @Step.serve conn mac { w with requests := (c.received, request) :: w.requests } c.received request
    List.mem_cons_self
  rw [hsent] at h2
  exact ⟨_, _, (ReflTransGen.single h1).tail h2, List.mem_cons_self,
    (receives_reply hsends.1 _ _ _ (hlen.2.trans (by omega))).mpr hsends,
    payload_reply _ _ _ _ _ (hlen.2.trans (by omega))⟩

/-- A connection from 10.0.2.2. -/
def fromGateway : Connection := { clientIp := 0x0202000a, clientPort := 1234, serverIp := 0x0f02000a }

/-- A run with a handshake and a request. -/
theorem stream_consistent_request :
    ∃ w k frame, ReflTransGen (Step fromGateway (bufOf []))
        { server := start, client := none, requests := [], answers := [] } w ∧
      (k, frame) ∈ w.answers ∧ payload frame ≠ [] ∧
      ∃ c, w.client = some c ∧ (readSegment (bufOf frame)).theirSeq = c.rcvNxt k ∧
        ∀ j < (payload frame).length,
          (payload frame)[j]? = fromGateway.response[(k + j) % fromGateway.response.length]? := by
  obtain ⟨w, hrun, c, hc⟩ := run_handshake fromGateway (bufOf [])
    (w := { server := start, client := none, requests := [], answers := [] }) rfl
  obtain ⟨w', frame, hrun', hmem, hr, hdata⟩ := run_request fromGateway (bufOf []) hc
  have hne : payload frame ≠ [] := by
    rw [hdata]
    exact List.ne_nil_of_length_pos (length_buildHttpResponse _).1
  exact ⟨w', c.received, frame, hrun.trans hrun', hmem, hne,
    (stream_consistent ⟨rfl, rfl, rfl⟩ (hrun.trans hrun')).1 _ _ hmem hr hne⟩

end Yasouos.Apps.HttpHello
