import Yasouos.Apps.HttpReplies
import Yasouos.Drivers.VirtioNetRx
import Yasouos.Drivers.VirtioNetSend

/-!
# The HTTP server on a virtio device

The loop of `app_http_hello` polls the device for a frame and transmits the answers to it before it
polls again. It does not look at whether a transmit succeeds. This module puts the loop on top of the
driver, and the driver on top of a conforming device that moves whenever it likes.

## The model

`Loop` is the loop between two calls of the driver: its variables, and the frames that it is still to
transmit. `Loop.call` is the call that it makes next, and `Loop.next` what it does with the result.
`Loop.after` is the loop after the calls of a log, so the runs of the server are those that `client`
drives. `serve` is the server without a driver: a function from frames to answers.

## What is proved

`server_exact`: in every run, the loop hands to the driver, in order, the answers of `serve` to the
packets that the device has delivered; and what the device takes are those of them that the driver has
accepted, in order, each once and with its bytes.
-/

namespace Yasouos.Apps.HttpHello

open Yasouos.Theory Yasouos.Net Yasouos.Drivers.VirtioNet

/-! ### The loop -/

/-- The loop between two calls of the driver. -/
structure Loop where
  /-- Its variables. -/
  state : State
  /-- The answers that are still to be transmitted. -/
  todo : List Frame

/-- `HTTP_HELLO_BUFFER_SIZE`. -/
abbrev httpHelloBufferSize : ℕ := 2048

/-- The call that the loop makes next. -/
def Loop.call (loop : Loop) : Call :=
  match loop.todo with
  | [] => .receive httpHelloBufferSize
  | frame :: _ => .transmit frame

/-- The frame that a call has received, if it has: `result` is zero and `received_length` is not. -/
def frameOf (ret : Ret) : Option Frame :=
  if ret.code ≠ 0 ∨ ret.receivedLength.getD 0 = 0 then none else some ret.buffer

/-- What the loop does with the result of the call. -/
def Loop.next (mac : Buf) (loop : Loop) (ret : Ret) : Loop :=
  match loop.todo with
  | [] =>
    match frameOf ret with
    | none => loop
    | some frame => ⟨(receive mac loop.state frame).1, (receive mac loop.state frame).2⟩
  | _ :: todo => ⟨loop.state, todo⟩

/-- The loop after the calls of a log. -/
def Loop.after (mac : Buf) (s : State) (log : List Entry) : Loop :=
  log.foldl (fun loop e => loop.next mac e.result) ⟨s, []⟩

/-- The server as a client of the driver. -/
def client (mac : Buf) (s : State) (log : List Entry) (k : Call) : Prop := k = (Loop.after mac s log).call

/-- The server without a driver: the answers to frames. -/
def serve (mac : Buf) : State → List Frame → List Frame
  | _, [] => []
  | s, frame :: frames => (receive mac s frame).2 ++ serve mac (receive mac s frame).1 frames

/-- The variables of the server after frames. -/
def serveState (mac : Buf) (s : State) (frames : List Frame) : State :=
  frames.foldl (fun s frame => (receive mac s frame).1) s

instance (mac : Buf) (s : State) (log : List Entry) (k : Call) : Decidable (client mac s log k) :=
  inferInstanceAs (Decidable (_ = _))

theorem serve_append (mac : Buf) (s : State) (frames frames' : List Frame) :
    serve mac s (frames ++ frames') = serve mac s frames ++ serve mac (serveState mac s frames) frames' := by
  induction frames generalizing s with
  | nil => rfl
  | cons frame frames ih =>
    rw [List.cons_append, serve, serve, ih, List.append_assoc]
    rfl

/-! ### The answers fit -/

/-- An answer is the reply to an ARP request, or a segment with a payload of at most 192 bytes. -/
theorem mem_receive (mac : Buf) (s : State) (frame : Frame) {a : Frame} (ha : a ∈ (receive mac s frame).2) :
    (∃ ip target targetIp, a = arpReply (load mac 0 6) ip (load target 0 6) targetIp) ∨
      ∃ seq ack flags payload, payload.length ≤ 192 ∧ a = reply mac (bufOf frame) seq ack flags payload := by
  by_cases hseg : IsHttpSegment (bufOf frame) frame.length
  · right
    rw [(receive_tcp mac s hseg).1, synReplies, dataReplies, finReplies] at ha
    simp only [List.mem_append, or_assoc] at ha
    rcases ha with ha | ha | ha
    · split_ifs at ha
      · exact ⟨_, _, _, [], by simp, List.mem_singleton.1 ha⟩
      · exact absurd ha List.not_mem_nil
    · split_ifs at ha
      · exact ⟨_, _, _, _, (length_buildHttpResponse _).2, List.mem_singleton.1 ha⟩
      · exact absurd ha List.not_mem_nil
    · split_ifs at ha
      · exact ⟨_, _, _, [], by simp, List.mem_singleton.1 ha⟩
      · exact absurd ha List.not_mem_nil
  · left
    by_cases harp : 14 ≤ frame.length ∧ ntohsUnaligned (bufOf frame) 12 = ethPArp
    · rw [receive_arp mac s harp.1 harp.2] at ha
      split_ifs at ha
      · rw [← load_advance (store s.buffer 0 frame)] at ha
        exact ⟨_, _, _, List.mem_singleton.1 ha⟩
      · exact absurd ha List.not_mem_nil
    · rw [receive_other mac s harp hseg] at ha
      exact absurd ha List.not_mem_nil

theorem length_of_mem_receive (mac : Buf) (s : State) (frame : Frame) {a : Frame} (ha : a ∈ (receive mac s frame).2) :
    0 < a.length ∧ a.length ≤ 246 := by
  rcases mem_receive mac s frame ha with ⟨ip, target, targetIp, rfl⟩ | ⟨seq, ack, flags, payload, hpay, rfl⟩
  · rw [length_arpReply (length_load _ _ _) (length_load _ _ _)]
    decide
  · rw [reply, length_tcpFrame (length_load _ _ _) (length_load _ _ _)]
    omega

/-- Every answer fits a buffer of the driver, with the header and the offset. -/
theorem fitsBuffer_receive (arch : Drivers.VirtioNet.Arch) (mac : Buf) (s : State) (frame : Frame) {a : Frame}
    (ha : a ∈ (receive mac s frame).2) : FitsBuffer arch (.transmit a) := by
  have hoff : rxBufferOffset arch ≤ 2 := by cases arch <;> decide
  have hlen := length_of_mem_receive mac s frame ha
  simp only [FitsBuffer, hdrLen, maxPacketSize]
  omega

/-- Every call of the server is as the driver needs it. -/
theorem client_fits (arch : Drivers.VirtioNet.Arch) (mac : Buf) (s : State) (log : List Entry) (k : Call) (h : client mac s log k) :
    FitsBuffer arch k := by
  have htodo : ∀ a ∈ (Loop.after mac s log).todo, FitsBuffer arch (.transmit a) := by
    clear h
    induction log using List.reverseRecOn with
    | nil => exact fun a ha => absurd ha List.not_mem_nil
    | append_singleton log e ih =>
      rw [Loop.after, List.foldl_append, List.foldl_cons, List.foldl_nil]
      change ∀ a ∈ ((Loop.after mac s log).next mac e.result).todo, _
      generalize Loop.after mac s log = loop at ih
      obtain ⟨state, todo⟩ := loop
      cases todo with
      | nil =>
        simp only [Loop.next]
        cases frameOf e.result with
        | none => exact ih
        | some frame => exact fun a ha => fitsBuffer_receive arch mac state frame ha
      | cons frame todo => exact fun a ha => ih a (List.mem_cons_of_mem _ ha)
  rw [show k = _ from h, Loop.call]
  cases hcase : (Loop.after mac s log).todo with
  | nil => exact trivial
  | cons frame todo =>
    exact htodo frame (by rw [hcase]; exact List.mem_cons_self)

/-! ### What the loop hands to the driver -/

/-- The frames that the calls of a log have received. -/
def framesOf (log : List Entry) : List Frame :=
  log.filterMap fun e =>
    match e.call with
    | .receive _ => frameOf e.result
    | .transmit _ => none

/-- The frames that were handed to the driver in the calls of a log. -/
def transmitted (log : List Entry) : List Frame :=
  log.filterMap fun e =>
    match e.call with
    | .receive _ => none
    | .transmit frame => some frame

/-- The loop transmits what the server answers, in order. -/
theorem after_eq (mac : Buf) (s : State) {log : List Entry}
    (h : ∀ before e after, log = before ++ e :: after → client mac s before e.call) :
    (Loop.after mac s log).state = serveState mac s (framesOf log) ∧
      transmitted log ++ (Loop.after mac s log).todo = serve mac s (framesOf log) := by
  induction log using List.reverseRecOn with
  | nil => exact ⟨rfl, rfl⟩
  | append_singleton log e ih =>
    obtain ⟨hstate, htodo⟩ := ih fun before e' after heq => h before e' (after ++ [e]) (by rw [heq]; simp)
    have hcall : e.call = (Loop.after mac s log).call := h log e [] rfl
    have hafter : Loop.after mac s (log ++ [e]) = (Loop.after mac s log).next mac e.result := by
      rw [Loop.after, List.foldl_append]
      rfl
    have hframes : framesOf (log ++ [e]) = framesOf log ++ framesOf [e] := by simp [framesOf, List.filterMap_append]
    have hsent : transmitted (log ++ [e]) = transmitted log ++ transmitted [e] := by
      simp [transmitted, List.filterMap_append]
    rw [hafter, hframes, hsent]
    generalize Loop.after mac s log = loop at *
    obtain ⟨state, todo⟩ := loop
    cases todo with
    | nil =>
      -- a poll
      have hnone : transmitted [e] = [] := by simp [transmitted, hcall, Loop.call]
      have hpoll : framesOf [e] = (frameOf e.result).toList := by
        cases hf : frameOf e.result <;> simp [framesOf, hcall, Loop.call, hf]
      simp only [List.append_nil] at htodo
      obtain rfl : state = _ := hstate
      rw [hnone, hpoll, List.append_nil, serve_append, htodo]
      simp only [Loop.next]
      cases frameOf e.result with
      | none => exact ⟨by simp, rfl⟩
      | some frame =>
        refine ⟨?_, ?_⟩
        · rw [serveState, serveState, List.foldl_append]
          rfl
        · simp [serve]
    | cons frame todo =>
      -- a transmit
      have hone : transmitted [e] = [frame] := by simp [transmitted, hcall, Loop.call]
      have hnone : framesOf [e] = [] := by simp [framesOf, hcall, Loop.call]
      rw [hone, hnone, List.append_nil, ← htodo]
      exact ⟨hstate, by simp [Loop.next]⟩

/-! ### What the device delivers and takes -/

/-- The packets that the device has delivered and the loop has received: empty ones are no frames. -/
def deliveredFrames (log : List Entry) (done : List Completion) : List Frame :=
  ((done.take (consumers log).length).map Completion.packet).filter fun packet => !packet.isEmpty

theorem mem_serve {mac : Buf} {s : State} {frames : List Frame} {a : Frame} (ha : a ∈ serve mac s frames) :
    ∃ s' frame, a ∈ (receive mac s' frame).2 := by
  induction frames generalizing s with
  | nil => exact absurd ha List.not_mem_nil
  | cons frame frames ih =>
    rw [serve, List.mem_append] at ha
    rcases ha with ha | ha
    · exact ⟨s, frame, ha⟩
    · exact ih ha

/-- What is received are the packets of the completions that the calls have consumed. -/
theorem framesOf_eq {log : List Entry} {done : List Completion} (hle : (consumers log).length ≤ done.length)
    (hn : ∀ n ∈ consumers log, n = httpHelloBufferSize)
    (hlen : ∀ c ∈ done, hdrLen ≤ c.bytes.length ∧ c.packet.length ≤ httpHelloBufferSize)
    (hrec : received log = ((consumers log).zip done).filterMap delivery) :
    framesOf log = deliveredFrames log done := by
  have hframes : framesOf log = (received log).filterMap fun p => if p.1.getD 0 = 0 then none else some p.2 := by
    rw [framesOf, received, List.filterMap_filterMap]
    refine List.filterMap_congr fun e _ => ?_
    rw [Entry.packet]
    cases e.call with
    | transmit frame => rfl
    | receive n =>
      by_cases hcode : e.result.code = 0
      · simp [frameOf, hcode]
      · simp [frameOf, hcode]
  have hzip : ((consumers log).zip done).map Prod.snd = done.take (consumers log).length := by
    rw [List.zip_eq_zip_take_min, Nat.min_eq_left hle, List.take_length, List.map_snd_zip]
    rw [List.length_take]
    omega
  rw [hframes, hrec, List.filterMap_filterMap, deliveredFrames, ← hzip, List.map_map, ← List.filterMap_eq_filter,
    List.filterMap_map]
  refine List.filterMap_congr fun p hp => ?_
  obtain ⟨hmem, hdone⟩ := List.of_mem_zip hp
  obtain ⟨hhdr, hfit⟩ := hlen p.2 hdone
  have hpacket : p.2.packet.length = p.2.bytes.length - hdrLen := by simp [Completion.packet]
  rw [delivery, hn p.1 hmem, if_pos ⟨hhdr, hpacket ▸ hfit⟩]
  rw [Option.bind_some, Option.getD_some, ← hpacket]
  cases hcase : p.2.packet with
  | nil => simp [Option.guard, hcase]
  | cons b bs => simp [Option.guard, hcase]

/-- The loop receives into a buffer of 2048 bytes. -/
theorem consumers_eq {mac : Buf} {s : State} {log : List Entry}
    (h : ∀ before e after, log = before ++ e :: after → client mac s before e.call) :
    ∀ n ∈ consumers log, n = httpHelloBufferSize := by
  intro n hn
  obtain ⟨e, he, hcons⟩ := List.mem_filterMap.1 hn
  obtain ⟨before, after, hlog⟩ := List.append_of_mem he
  have hcall : e.call = (Loop.after mac s before).call := h before e after hlog
  rw [Loop.call] at hcall
  cases htodo : (Loop.after mac s before).todo with
  | nil =>
    rw [htodo] at hcall
    simp only [Entry.consumer, hcall] at hcons
    split_ifs at hcons
    exact (Option.some.inj hcons).symm
  | cons frame todo =>
    rw [htodo] at hcall
    simp only [Entry.consumer, hcall] at hcons
    cases hcons

/-- What is accepted has been transmitted. -/
theorem accepted_sublist (log : List Entry) : (accepted log).Sublist (transmitted log) := by
  induction log with
  | nil => exact List.Sublist.refl _
  | cons e log ih =>
    obtain ⟨call, before, result, after⟩ := e
    cases call with
    | receive n => exact ih
    | transmit frame =>
      by_cases hcode : result.code = 0
      · simpa [accepted, transmitted, hcode] using ih
      · simpa [accepted, transmitted, hcode] using ih.cons frame

/-- A transmit returns 0 or -1. -/
theorem transmit_code (arch : Drivers.VirtioNet.Arch) (tr : Transport) (packet : List UInt8) (ctx : Ctx) :
    (virtioNetTransmit arch tr packet ctx).All (fun _ => True) fun r => r.2.code = 0 ∨ r.2.code = -1 := by
  unfold virtioNetTransmit
  split_ifs
  · exact .inr rfl
  · refine (Prog.all_true _).bind fun c _ => ?_
    cases findFree c.txDescInUse with
    | none => exact .inr rfl
    | some d =>
      refine (Prog.all_true _).bind fun _ _ => (Prog.all_true _).bind fun _ _ => (Prog.all_true _).bind fun _ _ => ?_
      exact (Prog.all_true _).bind fun _ _ => .inl rfl

/-- What is transmitted is 0 or refused. -/
theorem transmit_result {arch : Drivers.VirtioNet.Arch} {tr : Transport} {minLen : ℕ} {c : Cfg Op Ans Mem Call Ctx Ret}
    (h : (net arch tr minLen).Reach (Drivers.VirtioNet.start arch tr) c) {e : Entry} (he : e ∈ c.log) {frame : Frame}
    (hcall : e.call = .transmit frame) : e.result.code = 0 ∨ e.result.code = -1 := by
  have hall : ∀ e ∈ c.log, ∀ frame, e.call = .transmit frame → e.result.code = 0 ∨ e.result.code = -1 := by
    refine System.log_of_all (S := net arch tr minLen) (fun k p => ?_)
      (show (Drivers.VirtioNet.start arch tr).Idle from rfl) (fun e he => absurd he List.not_mem_nil) h
    cases k with
    | receive n => exact (Prog.all_true _).mono (fun _ h => h) fun r _ frame hk => (by cases hk)
    | transmit packet => exact (transmit_code arch tr packet p).mono (fun _ h => h) fun r hr _ _ => hr
  exact hall e he frame hcall

/-- **The HTTP server, end to end.** Take any run of the server's loop on the driver and a conforming device that
reports a whole header with each packet, whenever no call is running:

* what the loop has handed to the driver, followed by the answers that it has not handed over yet, are the
  answers of the server to the packets that the device has delivered, in their order;
* what the device has taken, followed by what is still in the available ring, are those of them whose transmit has
  returned 0, in their order, each behind ten zero bytes;
* where a transmit has not returned 0, all 16 descriptors were in use. -/
theorem server_exact (arch : Drivers.VirtioNet.Arch) (tr : Transport) (mac : Buf) (s : State)
    (c : Cfg Op Ans (Mem × Found) Call Ctx Ret)
    (h : (netFound arch tr hdrLen).Driven (client mac s) (startFound arch tr) c) (hc : c.Idle) :
    transmitted c.log ++ (Loop.after mac s c.log).todo = serve mac s (deliveredFrames c.log c.shared.1.done) ∧
      c.shared.2.taken ++ (c.shared.1.txq.pending (ringSize tr)).map c.shared.1.txBytes =
        (accepted c.log).map withHeader ∧
      (accepted c.log).Sublist (transmitted c.log) ∧
      ∀ e ∈ c.log, ∀ frame, e.call = .transmit frame →
        e.result.code = 0 ∨ ∀ i < queueSize, e.after.txDescInUse i = true := by
  have hstart : System.Follows (client mac s) (startFound arch tr) :=
    ⟨fun k p hk => (by cases hk), fun before e after heq =>
      absurd heq.symm (List.append_ne_nil_of_right_ne_nil _ (List.cons_ne_nil _ _))⟩
  have hfollows := System.Driven.follows hstart h
  have hunder : (netFound arch tr hdrLen).ReachUnder (fun k _ _ => FitsBuffer arch k) (startFound arch tr) c :=
    System.Driven.reachUnder (client_fits arch mac s) hstart h
  have hnet : (net arch tr hdrLen).ReachUnder (fun k _ _ => FitsBuffer arch k) (Drivers.VirtioNet.start arch tr) c.erase :=
    @System.ReachUnder.erase Op Ans Mem Dev Call Ctx Ret Found (net arch tr hdrLen) (look tr)
      (fun k _ _ => FitsBuffer arch k) _ _ hunder
  have hreach := System.ReachUnder.reach _ hnet
  obtain ⟨hle, hrec, -⟩ := delivered hreach
  obtain ⟨-, -, ⟨out, hcore, -⟩, -⟩ := (rx_good hreach).idle hc
  have hframes : framesOf c.log = deliveredFrames c.log c.shared.1.done := by
    refine framesOf_eq hle (consumers_eq hfollows.log) (fun d hd => ⟨(hcore.len d hd).1, ?_⟩) hrec
    have hlen := (hcore.len d hd).2
    simp only [Completion.packet, List.length_drop, httpHelloBufferSize]
    simp only [maxPacketSize] at hlen
    omega
  obtain ⟨-, hafter⟩ := after_eq mac s hfollows.log
  rw [hframes] at hafter
  refine ⟨hafter, ((sent_good hunder).idle hc).2.taken, accepted_sublist c.log, fun e he frame hcall => ?_⟩
  rcases transmit_result hreach he hcall with hcode | hcode
  · exact .inl hcode
  · right
    have hsent : frame ∈ transmitted c.log := List.mem_filterMap.2 ⟨e, he, by rw [hcall]⟩
    obtain ⟨s', frame', ha⟩ := mem_serve (hafter ▸ List.mem_append_left _ hsent)
    have hlen := length_of_mem_receive mac s' frame' ha
    exact ((tx_good hreach).idle hc).2.2 e he ⟨frame, hcall, hlen.1, by simp only [maxPacketSize]; omega, hcode⟩

/-- The start of an ARP request arrives, the rest of the buffer being zero, and is answered. -/
def arpExchange (mac : Buf) : List (Event Call Dev) :=
  [.env .rxTake, .env (.rxWrite 0 22 8), .env (.rxWrite 0 23 6), .env (.rxWrite 0 31 1), .env (.rxComplete 0 32),
    .call (.receive 2048)] ++ List.replicate 30 .tick ++
  [.call (.transmit (arpReply (load mac 0 6) 0 (List.replicate 6 0) 0))] ++ List.replicate 60 .tick ++ [.env .txTake]

/-- The answer to the ARP request has been handed to the driver, and taken by the device. -/
theorem server_exact_arpExchange :
    ∃ c, (netFound .riscv .mmio hdrLen).drive (client (fun _ => 2) start) (startFound .riscv .mmio)
        (arpExchange fun _ => 2) = some c ∧
      c.shared.2.taken = [withHeader (arpReply (List.replicate 6 2) 0 (List.replicate 6 0) 0)] ∧
      transmitted c.log ++ (Loop.after (fun _ => 2) start c.log).todo =
        serve (fun _ => 2) start (deliveredFrames c.log c.shared.1.done) := by
  obtain ⟨c, hrun⟩ : ∃ c, (netFound .riscv .mmio hdrLen).drive (client (fun _ => 2) start) (startFound .riscv .mmio)
      (arpExchange fun _ => 2) = some c := Option.isSome_iff_exists.mp (by decide +kernel)
  have hobs : ((netFound .riscv .mmio hdrLen).drive (client (fun _ => 2) start) (startFound .riscv .mmio)
      (arpExchange fun _ => 2)).map (fun c => (c.cur.isNone, c.shared.2.taken)) =
      some (true, [withHeader (arpReply (List.replicate 6 2) 0 (List.replicate 6 0) 0)]) := by decide +kernel
  rw [hrun, Option.map_some, Option.some.injEq, Prod.mk.injEq] at hobs
  obtain ⟨hidle, htaken⟩ := hobs
  exact ⟨c, hrun, htaken, (server_exact .riscv .mmio (fun _ => 2) start c (System.driven_of_drive hrun)
    (Option.isNone_iff_eq_none.mp hidle)).1⟩

end Yasouos.Apps.HttpHello
