import Yasouos.Apps.HttpStream
import Mathlib.Data.List.Basic

/-!
# Requests in several segments

The server does not put the segments of a request together: each of them is answered
with a response. Those that acknowledge the same number are answered with the same
segment, and the client drops all but the first. A segment that was sent after a response
had come in acknowledges it, and its answer is one more copy in the stream.

## The model

A `Pipe` has a client that sends the pieces of a request, the server, and two channels
that neither lose nor reorder frames. The client puts its value of `rcv_nxt` into every
segment, and appends to its stream the segments that start there.

## What is proved

`stream_eq_copies`: when everything has arrived, the stream is as many copies of the
response as there were different acknowledgements, one after another, in the segments of
the request. So it is one copy exactly if they all carried the same one.
-/

namespace Yasouos.Apps.HttpHello

open Yasouos.Theory Yasouos.Net
open Relation (ReflTransGen)

/-- A client, the server, and the frames between them. -/
structure Pipe where
  /-- The server. -/
  server : State
  /-- The pieces of the request that have not been sent. -/
  unsent : List (List UInt8)
  /-- The frames to the server, the oldest first. -/
  requests : List Frame
  /-- The frames to the client, the oldest first. -/
  answers : List Frame
  /-- What the client has received. -/
  stream : List UInt8
  /-- The acknowledgement numbers of the segments sent, the latest first. -/
  acked : List UInt32

/-- `rcv_nxt` of a client that accepted the sequence number `isn`. -/
def rcvNxt (isn : UInt32) (offset : ℕ) : UInt32 := isn + 1 + UInt32.ofNat offset

/-- One event. -/
inductive Pipe.Step (conn : Connection) (mac : Buf) (isn : UInt32) : Pipe → Pipe → Prop where
  /-- The client sends the next piece. -/
  | send {w : Pipe} {piece : List UInt8} {rest : List (List UInt8)} {frame : Frame} : w.unsent = piece :: rest →
      conn.Sends frame → WellFormed frame piece.length → payload frame = piece →
      (readSegment (bufOf frame)).theirAck = rcvNxt isn w.stream.length →
      Pipe.Step conn mac isn w { w with
        unsent := rest
        requests := w.requests ++ [frame]
        acked := (readSegment (bufOf frame)).theirAck :: w.acked }
  /-- The server receives the next frame. -/
  | serve {w : Pipe} {frame : Frame} {rest : List Frame} : w.requests = frame :: rest →
      Pipe.Step conn mac isn w { w with
        server := (receive mac w.server frame).1
        requests := rest
        answers := w.answers ++ (receive mac w.server frame).2 }
  /-- The client receives the next frame: it is what is expected. -/
  | accept {w : Pipe} {frame : Frame} {rest : List Frame} : w.answers = frame :: rest → conn.Receives frame →
      (readSegment (bufOf frame)).theirSeq = rcvNxt isn w.stream.length →
      Pipe.Step conn mac isn w { w with answers := rest, stream := w.stream ++ payload frame }
  /-- The client receives the next frame: it is not. -/
  | drop {w : Pipe} {frame : Frame} {rest : List Frame} : w.answers = frame :: rest →
      ¬ (conn.Receives frame ∧ (readSegment (bufOf frame)).theirSeq = rcvNxt isn w.stream.length) →
      Pipe.Step conn mac isn w { w with answers := rest }

/-- A request cut into pieces, none of them empty, before the first is sent. -/
def Pipe.Initial (w : Pipe) (pieces : List (List UInt8)) : Prop :=
  w.unsent = pieces ∧ w.requests = [] ∧ w.answers = [] ∧ w.stream = [] ∧ w.acked = [] ∧ ∀ piece ∈ pieces, piece ≠ []

/-- Everything has arrived. -/
def Pipe.Done (w : Pipe) : Prop := w.unsent = [] ∧ w.requests = [] ∧ w.answers = []

/-- How many different numbers stand one after another in a list. -/
def blocks : List UInt32 → ℕ
  | [] => 0
  | [_] => 1
  | a :: b :: l => blocks (b :: l) + if a = b then 0 else 1

/-- So many copies of the response. -/
def copies (conn : Connection) (n : ℕ) : List UInt8 := (List.replicate n conn.response).flatten

variable {conn : Connection} {mac : Buf} {isn : UInt32}

theorem length_copies (conn : Connection) (n : ℕ) : (copies conn n).length = n * conn.response.length := by
  simp [copies]

theorem copies_succ (conn : Connection) (n : ℕ) : copies conn (n + 1) = copies conn n ++ conn.response := by
  simp [copies, List.replicate_succ']

/-- One response more or less is another number. -/
theorem rcvNxt_ne (isn : UInt32) (conn : Connection) {n : ℕ} (h : 0 < n) :
    rcvNxt isn ((n - 1) * conn.response.length) ≠ rcvNxt isn (n * conn.response.length) := by
  obtain ⟨m, rfl⟩ := Nat.exists_eq_add_of_lt h
  have hlen := length_buildHttpResponse (ntohl conn.clientIp)
  rw [← Connection.response] at hlen
  intro heq
  rw [rcvNxt, rcvNxt, UInt32.add_right_inj] at heq
  have hnat := congrArg UInt32.toNat heq
  rw [UInt32.toNat_ofNat', UInt32.toNat_ofNat', Nat.zero_add, Nat.add_sub_cancel, Nat.add_mul] at hnat
  omega

theorem blocks_cons (x : UInt32) (l : List UInt32) :
    blocks (x :: l) = blocks l + if l.head? = some x then 0 else 1 := by
  cases l with
  | nil => rfl
  | cons y l => simp [blocks, eq_comm]

/-! ### What is on its way -/

/-- The responses on their way, and those still to be made: where each of them starts. -/
def Pipe.flight (w : Pipe) : List UInt32 :=
  (w.answers.filter fun g => payload g ≠ []).map (fun g => (readSegment (bufOf g)).theirSeq) ++
    w.requests.map fun frame => (readSegment (bufOf frame)).theirAck

/-- The answers to a piece: one of them is a response. -/
theorem receive_piece (mac : Buf) (s : State) {frame : Frame} (hsends : conn.Sends frame)
    (hpos : 0 < (readSegment (bufOf frame)).tcpPayloadLen.toNat) :
    (((receive mac s frame).2.filter fun g => payload g ≠ []).map fun g => (readSegment (bufOf g)).theirSeq) =
        [(readSegment (bufOf frame)).theirAck] ∧
      ∀ g ∈ (receive mac s frame).2, conn.Receives g ∧ (payload g = [] ∨ payload g = conn.response) := by
  have hlen := length_buildHttpResponse (ntohlUnaligned (bufOf frame) 26)
  have hresponse : buildHttpResponse (ntohlUnaligned (bufOf frame) 26) = conn.response := by
    rw [Connection.response, ntohlUnaligned_eq, hsends.2.1]
  have hne : buildHttpResponse (ntohlUnaligned (bufOf frame) 26) ≠ [] := List.ne_nil_of_length_pos hlen.1
  have hempty : ∀ seq ack flags, payload (reply mac (bufOf frame) seq ack flags []) = [] :=
    fun seq ack flags => payload_reply _ _ _ _ _ (by simp)
  have hdata : ∀ seq ack flags, payload (reply mac (bufOf frame) seq ack flags
      (buildHttpResponse (ntohlUnaligned (bufOf frame) 26))) = buildHttpResponse (ntohlUnaligned (bufOf frame) 26) :=
    fun seq ack flags => payload_reply _ _ _ _ _ (by omega)
  have hsyn : (synReplies mac s.isnCounter (bufOf frame)).filter (fun g => payload g ≠ []) = [] := by
    rw [synReplies]
    split_ifs <;> simp [hempty]
  have hfin : (finReplies mac (bufOf frame)).filter (fun g => payload g ≠ []) = [] := by
    rw [finReplies]
    split_ifs <;> simp [hempty]
  have hsees : (readSegment (bufOf frame)).tcpPayloadLen > 0 := hpos
  rw [(receive_tcp mac s hsends.1).1]
  constructor
  · rw [List.filter_append, List.filter_append, hsyn, hfin, dataReplies, if_pos hsees]
    simp [hdata, hne, theirSeq_reply]
  · intro g hg
    obtain ⟨seq, ack, flags, rfl⟩ | ⟨-, ack, flags, rfl⟩ := mem_replies hg
    · exact ⟨(receives_reply hsends.1 _ _ _ (by simp)).mpr hsends, .inl (hempty _ _ _)⟩
    · exact ⟨(receives_reply hsends.1 _ _ _ (by omega)).mpr hsends, .inr ((hdata _ _ _).trans hresponse)⟩

/-- What holds all along: `n` copies have been received; on their way are first `a`
responses that the client has already, and then `b` times the next one. -/
structure Pipe.Inv (conn : Connection) (isn : UInt32) (w : Pipe) (n a b : ℕ) : Prop where
  /-- The copies that have been received. -/
  stream : w.stream = copies conn n
  /-- The pieces are not empty. -/
  unsent : ∀ piece ∈ w.unsent, piece ≠ []
  /-- The requests are the client's, with payload. -/
  requests : ∀ frame ∈ w.requests, conn.Sends frame ∧ 0 < (readSegment (bufOf frame)).tcpPayloadLen.toNat
  /-- The answers are to the client, empty or the response. -/
  answers : ∀ g ∈ w.answers, conn.Receives g ∧ (payload g = [] ∨ payload g = conn.response)
  /-- What is on its way. -/
  flight : w.flight = List.replicate a (rcvNxt isn ((n - 1) * conn.response.length)) ++
    List.replicate b (rcvNxt isn (n * conn.response.length))
  /-- There is something to have already. -/
  stale : 0 < a → 0 < n
  /-- The acknowledgements that were sent. -/
  blocks : blocks w.acked = n + if b = 0 then 0 else 1
  /-- The last of them. -/
  last : w.acked.head? = if b ≠ 0 then some (rcvNxt isn (n * conn.response.length))
    else if n ≠ 0 then some (rcvNxt isn ((n - 1) * conn.response.length)) else none

section Steps

variable {w : Pipe} {n a b : ℕ} (h : w.Inv conn isn n a b)

include h

theorem Pipe.Inv.rcvNxt_stream : rcvNxt isn w.stream.length = rcvNxt isn (n * conn.response.length) := by
  rw [h.stream, length_copies]

/-- A new segment asks for the next response. -/
theorem Pipe.Inv.send {piece : List UInt8} {rest : List (List UInt8)} {frame : Frame} (hunsent : w.unsent = piece :: rest)
    (hsends : conn.Sends frame) (hwf : WellFormed frame piece.length)
    (hack : (readSegment (bufOf frame)).theirAck = rcvNxt isn w.stream.length) :
    Pipe.Inv conn isn { w with
      unsent := rest
      requests := w.requests ++ [frame]
      acked := (readSegment (bufOf frame)).theirAck :: w.acked } n a (b + 1) := by
  have hpieces := h.unsent
  rw [hunsent] at hpieces
  have hpos : 0 < (readSegment (bufOf frame)).tcpPayloadLen.toNat := by
    rw [hwf.tcpPayloadLen]
    exact List.length_pos_of_ne_nil (hpieces piece List.mem_cons_self)
  rw [h.rcvNxt_stream] at hack
  refine ⟨h.stream, fun p hp => hpieces p (List.mem_cons_of_mem _ hp), fun f hf => ?_, h.answers, ?_, h.stale, ?_, ?_⟩
  · rcases List.mem_append.mp hf with hf | hf
    · exact h.requests f hf
    · rw [List.mem_singleton.mp hf]
      exact ⟨hsends, hpos⟩
  · have hflight := h.flight
    rw [Pipe.flight] at hflight ⊢
    rw [List.map_append, ← List.append_assoc, hflight, List.map_singleton, hack, List.append_assoc,
      ← List.replicate_succ']
  · -- the number is new unless it was sent before
    rw [blocks_cons, h.blocks, h.last, hack, if_neg (Nat.succ_ne_zero b)]
    by_cases hb : b = 0
    · rw [if_pos hb, if_neg (not_not.mpr hb)]
      by_cases hn : n = 0
      · simp [hn]
      · rw [if_pos hn, if_neg]
        rw [Option.some_inj]
        exact rcvNxt_ne isn conn (Nat.pos_of_ne_zero hn)
    · simp [hb]
  · rw [hack, if_pos (Nat.succ_ne_zero b)]
    rfl

/-- The server turns a request into a response. -/
theorem Pipe.Inv.serve {frame : Frame} {rest : List Frame} (hreq : w.requests = frame :: rest) :
    Pipe.Inv conn isn { w with
      server := (receive mac w.server frame).1
      requests := rest
      answers := w.answers ++ (receive mac w.server frame).2 } n a b := by
  have hrequests := h.requests
  rw [hreq] at hrequests
  obtain ⟨hsends, hpos⟩ := hrequests frame List.mem_cons_self
  obtain ⟨hsent, hanswers⟩ := receive_piece mac w.server hsends hpos
  refine ⟨h.stream, h.unsent, fun f hf => hrequests f (List.mem_cons_of_mem _ hf), fun g hg => ?_, ?_, h.stale, h.blocks,
    h.last⟩
  · rcases List.mem_append.mp hg with hg | hg
    · exact h.answers g hg
    · exact hanswers g hg
  · rw [← h.flight, Pipe.flight, Pipe.flight, hreq, List.filter_append, List.map_append, hsent, List.append_assoc]
    rfl

/-- A frame without payload changes nothing. -/
theorem Pipe.Inv.empty {frame : Frame} {rest : List Frame} (hans : w.answers = frame :: rest) (hempty : payload frame = []) :
    Pipe.Inv conn isn { w with answers := rest } n a b := by
  have hanswers := h.answers
  rw [hans] at hanswers
  refine ⟨h.stream, h.unsent, h.requests, fun g hg => hanswers g (List.mem_cons_of_mem _ hg), ?_, h.stale, h.blocks, h.last⟩
  rw [← h.flight, Pipe.flight, Pipe.flight, hans, List.filter_cons, if_neg (by simp [hempty])]

/-- The first of the responses on their way. -/
theorem Pipe.Inv.flight_cons {frame : Frame} {rest : List Frame} (hans : w.answers = frame :: rest)
    (hdata : payload frame ≠ []) :
    (readSegment (bufOf frame)).theirSeq :: Pipe.flight { w with answers := rest } =
      List.replicate a (rcvNxt isn ((n - 1) * conn.response.length)) ++
        List.replicate b (rcvNxt isn (n * conn.response.length)) := by
  rw [← h.flight, Pipe.flight, Pipe.flight, hans, List.filter_cons, if_pos (by simp [hdata])]
  rfl

/-- The response that is expected is the first of those on their way. -/
theorem Pipe.Inv.accept {frame : Frame} {rest : List Frame} (hans : w.answers = frame :: rest)
    (hdata : payload frame ≠ []) (hseq : (readSegment (bufOf frame)).theirSeq = rcvNxt isn w.stream.length) :
    Pipe.Inv conn isn { w with answers := rest, stream := w.stream ++ payload frame } (n + 1) (b - 1) 0 ∧ a = 0 := by
  have hflight := h.flight_cons hans hdata
  have hanswers := h.answers
  rw [hans] at hanswers
  have hpayload : payload frame = conn.response := (hanswers frame List.mem_cons_self).2.resolve_left hdata
  rw [h.rcvNxt_stream] at hseq
  -- nothing that the client has already is in front of it
  have ha : a = 0 := by
    by_contra ha
    obtain ⟨a', rfl⟩ := Nat.exists_eq_succ_of_ne_zero ha
    rw [List.replicate_succ, List.cons_append, List.cons.injEq, hseq] at hflight
    exact rcvNxt_ne isn conn (h.stale (by omega)) hflight.1.symm
  subst ha
  have hb : b ≠ 0 := by
    rintro rfl
    simp at hflight
  obtain ⟨b', rfl⟩ := Nat.exists_eq_succ_of_ne_zero hb
  rw [List.replicate_zero, List.nil_append, List.replicate_succ, List.cons.injEq] at hflight
  refine ⟨⟨?_, h.unsent, h.requests, fun g hg => hanswers g (List.mem_cons_of_mem _ hg), ?_, fun _ => by omega, ?_, ?_⟩, rfl⟩
  · change w.stream ++ payload frame = _
    rw [h.stream, hpayload, copies_succ]
  · simpa [Pipe.flight] using hflight.2
  · have := h.blocks
    simpa using this
  · have := h.last
    simpa using this

/-- A response that is dropped is one that the client has already. -/
theorem Pipe.Inv.drop {frame : Frame} {rest : List Frame} (hans : w.answers = frame :: rest)
    (hdata : payload frame ≠ []) (hseq : (readSegment (bufOf frame)).theirSeq ≠ rcvNxt isn w.stream.length) :
    Pipe.Inv conn isn { w with answers := rest } n (a - 1) b := by
  have hflight := h.flight_cons hans hdata
  have hanswers := h.answers
  rw [hans] at hanswers
  rw [h.rcvNxt_stream] at hseq
  have ha : a ≠ 0 := by
    rintro rfl
    cases b with
    | zero => simp at hflight
    | succ b =>
      rw [List.replicate_zero, List.nil_append, List.replicate_succ, List.cons.injEq] at hflight
      exact hseq hflight.1
  obtain ⟨a', rfl⟩ := Nat.exists_eq_succ_of_ne_zero ha
  rw [List.replicate_succ, List.cons_append, List.cons.injEq] at hflight
  exact ⟨h.stream, h.unsent, h.requests, fun g hg => hanswers g (List.mem_cons_of_mem _ hg), hflight.2,
    fun _ => h.stale (by omega), h.blocks, h.last⟩

end Steps

theorem Pipe.Inv.initial (conn : Connection) (isn : UInt32) {w : Pipe} {pieces : List (List UInt8)}
    (h : w.Initial pieces) : w.Inv conn isn 0 0 0 := by
  obtain ⟨hunsent, hreq, hans, hstream, hacked, hne⟩ := h
  refine ⟨?_, ?_, ?_, ?_, ?_, by omega, ?_, ?_⟩
  · rw [hstream]
    rfl
  · rw [hunsent]
    exact hne
  · simp [hreq]
  · simp [hans]
  · simp [Pipe.flight, hreq, hans]
  · rw [hacked]
    rfl
  · rw [hacked]
    rfl

/-- Every event keeps the invariant. -/
theorem Pipe.Inv.step {w w' : Pipe} {n a b : ℕ} (h : w.Inv conn isn n a b) (hstep : Pipe.Step conn mac isn w w') :
    ∃ n' a' b', w'.Inv conn isn n' a' b' := by
  cases hstep with
  | send hunsent hsends hwf _ hack => exact ⟨_, _, _, h.send hunsent hsends hwf hack⟩
  | serve hreq => exact ⟨_, _, _, h.serve hreq⟩
  | @accept frame rest hans _ hseq =>
    by_cases hdata : payload frame = []
    · rw [hdata, List.append_nil]
      exact ⟨_, _, _, h.empty hans hdata⟩
    · exact ⟨_, _, _, (h.accept hans hdata hseq).1⟩
  | @drop frame rest hans hnot =>
    by_cases hdata : payload frame = []
    · exact ⟨_, _, _, h.empty hans hdata⟩
    · have hr : conn.Receives frame := (h.answers frame (by rw [hans]; exact List.mem_cons_self)).1
      exact ⟨_, _, _, h.drop hans hdata fun hseq => hnot ⟨hr, hseq⟩⟩

theorem Pipe.Inv.run {w w' : Pipe} {n a b : ℕ} (h : w.Inv conn isn n a b)
    (hrun : ReflTransGen (Pipe.Step conn mac isn) w w') : ∃ n' a' b', w'.Inv conn isn n' a' b' := by
  induction hrun with
  | refl => exact ⟨n, a, b, h⟩
  | tail _ hstep ih =>
    obtain ⟨n', a', b', h'⟩ := ih
    exact h'.step hstep

/-- Every piece goes out in one segment. -/
theorem Pipe.Step.length_acked {w w' : Pipe} (h : Pipe.Step conn mac isn w w') :
    w'.acked.length + w'.unsent.length = w.acked.length + w.unsent.length := by
  cases h with
  | send hunsent _ _ _ _ =>
    simp only [hunsent, List.length_cons]
    omega
  | serve _ => rfl
  | accept _ _ _ => rfl
  | drop _ _ => rfl

theorem length_acked {w w' : Pipe} (hrun : ReflTransGen (Pipe.Step conn mac isn) w w') :
    w'.acked.length + w'.unsent.length = w.acked.length + w.unsent.length := by
  induction hrun with
  | refl => rfl
  | tail _ hstep ih => rw [hstep.length_acked, ih]

/-! ### The stream at the end -/

theorem blocks_eq_zero_iff {l : List UInt32} : blocks l = 0 ↔ l = [] := by
  cases l with
  | nil => simp [blocks]
  | cons x l =>
    rw [blocks_cons]
    cases l with
    | nil => simp [blocks]
    | cons y l =>
      have : 0 < blocks (y :: l) := by
        induction l generalizing y with
        | nil => simp [blocks]
        | cons z l ih =>
          rw [blocks]
          have := ih z
          omega
      simp
      omega

/-- One block is a list of equal numbers. -/
theorem blocks_eq_one_iff {x : UInt32} {l : List UInt32} : blocks (x :: l) = 1 ↔ ∀ y ∈ l, y = x := by
  induction l generalizing x with
  | nil => simp [blocks]
  | cons y l ih =>
    have hpos : blocks (y :: l) ≠ 0 := fun h => by simp [blocks_eq_zero_iff] at h
    rw [blocks_cons]
    by_cases hxy : y = x
    · subst hxy
      simp [ih]
    · simp [hxy]
      omega

theorem copies_eq_response_iff {n : ℕ} : copies conn n = conn.response ↔ n = 1 := by
  have hlen := (length_buildHttpResponse (ntohl conn.clientIp)).1
  rw [← Connection.response] at hlen
  constructor
  · intro h
    have hl := congrArg List.length h
    rw [length_copies] at hl
    exact Nat.eq_of_mul_eq_mul_right hlen (by rw [hl, Nat.one_mul])
  · rintro rfl
    simp [copies]

/-- When everything has arrived, the stream is one copy of the response for each block of
equal acknowledgements: one copy exactly if all segments carried the same, as when there is
only one segment. -/
theorem stream_eq_copies {pieces : List (List UInt8)} {w₀ w : Pipe} (h₀ : w₀.Initial pieces)
    (hrun : ReflTransGen (Pipe.Step conn mac isn) w₀ w) (hdone : w.Done) :
    w.stream = copies conn (blocks w.acked) ∧ w.acked.length = pieces.length ∧
      (pieces ≠ [] → (w.stream = conn.response ↔ ∀ x ∈ w.acked, ∀ y ∈ w.acked, x = y)) ∧
      (pieces.length = 1 → w.stream = conn.response) := by
  obtain ⟨n, a, b, hinv⟩ := (Pipe.Inv.initial conn isn h₀).run hrun
  obtain ⟨hunsent, hreq, hans⟩ := hdone
  have hb : b = 0 := by
    have hflight := congrArg List.length hinv.flight
    simp [Pipe.flight, hreq, hans] at hflight
    omega
  have hn : blocks w.acked = n := by
    rw [hinv.blocks, hb]
    rfl
  have hlength : w.acked.length = pieces.length := by
    have h := length_acked hrun
    obtain ⟨hu, -, -, -, hacked, -⟩ := h₀
    simpa [hunsent, hu, hacked] using h
  have hone : pieces ≠ [] → (w.stream = conn.response ↔ ∀ x ∈ w.acked, ∀ y ∈ w.acked, x = y) := by
    intro hne
    rw [hinv.stream, copies_eq_response_iff, ← hn]
    cases hacked : w.acked with
    | nil =>
      rw [hacked] at hlength
      exact absurd (List.length_eq_zero_iff.mp hlength.symm) hne
    | cons x l =>
      rw [blocks_eq_one_iff]
      constructor
      · intro h y hy z hz
        have hx : ∀ y ∈ x :: l, y = x := by simpa using h
        rw [hx y hy, hx z hz]
      · intro h y hy
        exact h y (List.mem_cons_of_mem _ hy) x List.mem_cons_self
  refine ⟨by rw [hinv.stream, hn], hlength, hone, fun h1 => ?_⟩
  rw [hone (List.ne_nil_of_length_pos (by omega))]
  obtain ⟨x, hx⟩ := List.length_eq_one_iff.mp (hlength.trans h1)
  rw [hx]
  simp

/-- A piece may be sent, answered and the answer received before the next is sent. -/
theorem exchange (conn : Connection) (mac : Buf) (isn : UInt32) (w : Pipe) (byte : UInt8) (rest : List (List UInt8))
    (hunsent : w.unsent = [byte] :: rest) (hreq : w.requests = []) (hans : w.answers = []) :
    ∃ w', ReflTransGen (Pipe.Step conn mac isn) w w' ∧ w'.unsent = rest ∧ w'.requests = [] ∧ w'.answers = [] ∧
      w'.stream = w.stream ++ conn.response := by
  have hlen := length_buildHttpResponse (ntohl conn.clientIp)
  have hsends := sends_segment conn 1 (rcvNxt isn w.stream.length) (tcpFlagPsh ||| tcpFlagAck) [byte] (by simp)
  have hwf := wellFormed_segment conn 1 (rcvNxt isn w.stream.length) (tcpFlagPsh ||| tcpFlagAck) [byte] (by simp)
  have hread := readSegment_segment conn 1 (rcvNxt isn w.stream.length) (tcpFlagPsh ||| tcpFlagAck) [byte] (by simp)
  have hpiece : payload (conn.segment 1 (rcvNxt isn w.stream.length) (tcpFlagPsh ||| tcpFlagAck) [byte]) = [byte] :=
    payload_tcpFrame _ _ _ _ _ _ _ _ _ _ (by simp)
  have hsent := receive_data conn mac w.server 1 (rcvNxt isn w.stream.length) byte
  set frame := conn.segment 1 (rcvNxt isn w.stream.length) (tcpFlagPsh ||| tcpFlagAck) [byte]
  set answer := reply mac (bufOf frame) (rcvNxt isn w.stream.length) (1 + 1) (tcpFlagPsh ||| tcpFlagAck) conn.response
  have hr : conn.Receives answer := (receives_reply hsends.1 _ _ _ (hlen.2.trans (by omega))).mpr hsends
  have hpayload : payload answer = conn.response := payload_reply _ _ _ _ _ (hlen.2.trans (by omega))
  have h1 := @Pipe.Step.send conn mac isn w [byte] rest frame hunsent hsends hwf hpiece (by rw [hread])
  rw [hreq, hans] at h1
  have h2 := @Pipe.Step.serve conn mac isn { w with
    unsent := rest, requests := [frame], acked := (readSegment (bufOf frame)).theirAck :: w.acked } frame [] rfl
  rw [hsent, hans] at h2
  have h3 := @Pipe.Step.accept conn mac isn { w with
    server := (receive mac w.server frame).1, unsent := rest, requests := [], answers := [answer]
    acked := (readSegment (bufOf frame)).theirAck :: w.acked } answer [] rfl hr (theirSeq_reply _ _ _ _ _ _)
  refine ⟨_, ((ReflTransGen.single h1).tail h2).tail h3, rfl, rfl, rfl, ?_⟩
  rw [hpayload]

/-- The server, and a client that is about to send a request. -/
def Pipe.request (pieces : List (List UInt8)) : Pipe :=
  { server := start, unsent := pieces, requests := [], answers := [], stream := [], acked := [] }

/-- A request in one segment. -/
theorem stream_eq_copies_one :
    ∃ w, ReflTransGen (Pipe.Step fromGateway (bufOf []) 1000) (Pipe.request [[0x47]]) w ∧ w.Done ∧
      w.stream = fromGateway.response := by
  obtain ⟨w, hrun, hunsent, hreq, hans, -⟩ := exchange fromGateway (bufOf []) 1000 (Pipe.request [[0x47]]) 0x47 []
    rfl rfl rfl
  have hdone : w.Done := ⟨hunsent, hreq, hans⟩
  exact ⟨w, hrun, hdone, (stream_eq_copies ⟨rfl, rfl, rfl, rfl, rfl, by simp [Pipe.request]⟩ hrun hdone).2.2.2 rfl⟩

/-- A request in two segments, the second of them sent when the response had come in: the
client receives it twice. -/
theorem stream_two_segments :
    ¬ ∀ (conn : Connection) (mac : Buf) (isn : UInt32) (pieces : List (List UInt8)) (w₀ w : Pipe), w₀.Initial pieces →
      pieces ≠ [] → ReflTransGen (Pipe.Step conn mac isn) w₀ w → w.Done → w.stream = conn.response := by
  intro h
  obtain ⟨w, hrun, hunsent, hreq, hans, hstream⟩ := exchange fromGateway (bufOf []) 1000
    (Pipe.request [[0x47], [0x45]]) 0x47 [[0x45]] rfl rfl rfl
  obtain ⟨w', hrun', hunsent', hreq', hans', hstream'⟩ := exchange fromGateway (bufOf []) 1000 w 0x45 [] hunsent hreq
    hans
  have hone := h fromGateway (bufOf []) 1000 [[0x47], [0x45]] _ w' ⟨rfl, rfl, rfl, rfl, rfl, by simp⟩ (by simp)
    (hrun.trans hrun') ⟨hunsent', hreq', hans'⟩
  have hlen := (length_buildHttpResponse (ntohl fromGateway.clientIp)).1
  rw [← Connection.response] at hlen
  rw [hstream', hstream] at hone
  have hl := congrArg List.length hone
  simp only [Pipe.request, List.length_append, List.length_nil] at hl
  omega

end Yasouos.Apps.HttpHello
