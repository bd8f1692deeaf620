import SnapcastClient.Model.Exchange
import SnapcastClient.Verification.ClientMachine
import SnapcastClient.Verification.Session

/-! # What travels between client and server, and what each step does with it -/

namespace SnapcastClient

/-- What a request's bytes are. -/
def Request.frame (q : Request) : Frame :=
  Time.frame q.id 0 (.fromMicros q.stamp) (.fromMicros q.stamp) (.fromMicros q.stamp)

/-- What a reply's bytes are: it refers to its request and echoes its timestamp. -/
def Reply.frame (r : Reply) (id : UInt16) : Frame :=
  Time.frame id r.request.id (.fromMicros r.sent) (.fromMicros r.received)
    (.fromMicros r.request.stamp)

namespace Exchange

variable {json : SerdeJson} {s s' : Exchange} {l : Label}

/-- The machine waits for the payload of the frame whose header it handled. -/
def Awaits : Option Incoming → Framing → Prop
  | none, f => f = .new
  | some (.reply r), f =>
      ∃ id, r.bytes = (r.frame id).bytes ∧ f = ⟨.readingPacket (r.frame id).base⟩
  | some (.other frame), f => frame.base.mtype ≠ .time ∧ f = ⟨.readingPacket frame.base⟩

/-- Everything in flight is well formed and both machines are where it finds them. -/
structure Wired (s : Exchange) : Prop where
  sized : s.machine.Sized
  session : s.session = ⟨.new, true⟩
  lastSent : s.machine.lastSentTime = .fromMicros s.machine.lastTimeSentUs
  requests : ∀ q ∈ s.requests, q.bytes = q.frame.bytes
  replies : ∀ r ∈ s.replies, ∃ id, r.bytes = (r.frame id).bytes
  framing : Awaits s.pending s.machine.framing

/-- Half of what the two directions of an exchange differ by, when the request is taken to
have left at `stamp`. -/
def halfDifference (r : Reply) (handled stamp : ℤ) : ℤ :=
  ((TimeVal.fromMicros r.received).toMicros - (TimeVal.fromMicros stamp).toMicros -
    ((TimeVal.fromMicros handled).toMicros - (TimeVal.fromMicros r.sent).toMicros)).tdiv 2

/-- The effect of each step on a wired state. -/
inductive Effect : Exchange → Label → Exchange → Prop where
  | request {s : Exchange} {now : ℤ} {q : Request} :
      s.machine.Due now → q.stamp = now → q.bytes = q.frame.bytes →
      Effect s (.request now)
        { s with machine := s.machine.requested now, requests := s.requests ++ [q] }
  | serve {s : Exchange} {r : Reply} {id : UInt16} :
      r.request ∈ s.requests → r.bytes = (r.frame id).bytes →
      Effect s (.serve r.request r.received r.sent)
        { s with requests := s.requests.erase r.request, replies := s.replies ++ [r] }
  | replyHeader {s : Exchange} {r : Reply} {id : UInt16} :
      r ∈ s.replies → s.pending = none → r.bytes = (r.frame id).bytes →
      Effect s (.replyHeader r)
        { s with
          machine := s.machine.pending (r.frame id).base, replies := s.replies.erase r,
          pending := some (.reply r) }
  | otherHeader {s : Exchange} {frame : Frame} :
      frame.base.mtype ≠ .time → s.pending = none →
      Effect s (.otherHeader frame)
        { s with machine := s.machine.pending frame.base, pending := some (.other frame) }
  | replyPacket {s : Exchange} {r : Reply} {now : ℤ} {offset : TimeVal} {m : ClientMachine} :
      s.pending = some (.reply r) → offset.Canonical →
      offset.toMicros = halfDifference r now s.machine.lastTimeSentUs →
      ClientMachine.Recorded { s.machine with framing := .new } offset m →
      Effect s (.packet now)
        { s with
          machine := m, pending := none,
          answers := s.answers ++ [⟨r, now, s.machine.lastTimeSentUs, offset⟩] }
  | otherPacket {s : Exchange} {frame : Frame} {now : ℤ} {message : Message}
      {m : ClientMachine} :
      s.pending = some (.other frame) →
      ClientMachine.KeepsClock { s.machine with framing := .new } m →
      ((∃ st, message.settings = some st ∧
          ClientMachine.processSettings { s.machine with framing := .new } st = .ok m) ∨
        message.settings = none ∧ m = { s.machine with framing := .new }) →
      Effect s (.packet now)
        { s with machine := m, pending := none, settings := message.settings.or s.settings }

/-- Handling a reply pushes half the difference seen against the newest request. -/
theorem replyPacket_effect {r : Reply} {now : ℤ} {message : Message} {m : ClientMachine}
    (hw : s.Wired) (hpending : s.pending = some (.reply r))
    (h : s.machine.handleEvent json (.packetReceived (r.bytes.drop Base.baseSize)) now =
      (.ok message, m)) :
    ∃ offset, offset.Canonical ∧
      offset.toMicros = halfDifference r now s.machine.lastTimeSentUs ∧
      ClientMachine.Recorded { s.machine with framing := .new } offset m := by
  have hawaits := hw.framing
  rw [hpending] at hawaits
  obtain ⟨id, hbytes, hframing⟩ := hawaits
  rw [hbytes, Frame.bytes, List.drop_left' (r.frame id).header_length,
    ClientMachine.handleEvent_packet hframing] at h
  change ClientMachine.processPacket json _ _ (TimeVal.fromMicros r.request.stamp).asBuf now = _
    at h
  rw [ClientMachine.processPacket_time rfl] at h
  split at h
  · cases h
  · rename_i m₁ htime
    obtain ⟨-, rfl⟩ := Prod.mk.inj h
    obtain ⟨offset, hmeasure, hrecord⟩ := bind_eq_ok.mp htime
    obtain ⟨hcanonical, hmicros⟩ := ClientMachine.measure_spec hmeasure
    obtain ⟨m₂, hm₂, hrecorded⟩ := ClientMachine.record_spec
      (m := { s.machine with framing := .new }) hw.sized offset
    obtain rfl := Except.ok.inj (hm₂.symm.trans hrecord)
    refine ⟨offset, hcanonical, ?_, hrecorded⟩
    rw [hmicros, hw.lastSent]
    rfl

/-- A recorded sample is the newest in the window. -/
theorem getLastD_recorded {m m' : ClientMachine} {offset : TimeVal}
    (h : m.Recorded offset m') : m'.latencyBuf.items.getLastD .zero = offset := by
  rw [h.latencyBuf]
  simp [CircularBuffer.pushBack, List.rtake_eq_reverse_take_reverse, latencySamples]

theorem serve_effect (r : Reply) (id : UInt16) (hq : r.request ∈ s.requests)
    (hbytes : r.bytes = (r.frame id).bytes) :
    Effect s (.serve r.request r.received r.sent)
      { s with requests := s.requests.erase r.request, replies := s.replies ++ [r] } :=
  .serve hq hbytes

theorem Step.effect (hw : s.Wired) (h : Step json s l s') : Effect s l s' := by
  cases h with
  | @request now n out out' machine hout h =>
      by_cases hdue : s.machine.Due now
      · rw [ClientMachine.pollTransmit_of_due hdue out hout] at h
        simp only [Except.ok.injEq, Prod.mk.injEq, Option.some.injEq] at h
        obtain ⟨rfl, rfl, rfl⟩ := h
        rw [List.take_left' (Time.frame_bytes_length ..)]
        exact .request hdue rfl rfl
      · rw [ClientMachine.pollTransmit_of_not_due hdue] at h
        cases h
  | @serve q received sent refersTo id clientSent receivedTv session bytes hq hfeed hbuf =>
      rw [hw.session, hw.requests q hq, Request.frame, ServerSession.feed_time] at hfeed
      obtain ⟨hout, rfl⟩ := Prod.mk.inj hfeed
      obtain ⟨rfl, rfl, rfl⟩ := SessionOutput.timeRequest.inj (Except.ok.inj hout)
      rw [Time.asBuf_eq_frame, Except.ok.injEq] at hbuf
      rw [← hw.session]
      exact serve_effect ⟨q, received, sent, bytes⟩ id hq hbuf.symm
  | @replyHeader r now message machine hr hpending h =>
      obtain ⟨id, hbytes⟩ := hw.replies r hr
      rw [hbytes, Frame.bytes, List.take_left' (r.frame id).header_length,
        ClientMachine.handleEvent_header] at h
      obtain ⟨-, rfl⟩ := Prod.mk.inj h
      exact .replyHeader hr hpending hbytes
  | otherHeader htype hpending h =>
      rw [ClientMachine.handleEvent_header] at h
      obtain ⟨-, rfl⟩ := Prod.mk.inj h
      exact .otherHeader htype hpending
  | replyPacket hpending h =>
      obtain ⟨offset, hcanonical, hmicros, hrecorded⟩ := replyPacket_effect hw hpending h
      rw [getLastD_recorded hrecorded]
      exact .replyPacket hpending hcanonical hmicros hrecorded
  | otherPacket hpending h =>
      have hawaits := hw.framing
      rw [hpending] at hawaits
      obtain ⟨htype, hframing⟩ := hawaits
      rw [ClientMachine.handleEvent_packet hframing] at h
      obtain ⟨hkeeps, hsettings⟩ := ClientMachine.processPacket_other htype h
      exact .otherPacket hpending hkeeps hsettings

theorem wired_new : new.Wired where
  sized := by simp [new, ClientMachine.new, ClientMachine.Sized]
  session := rfl
  lastSent := by decide
  requests := by simp [new]
  replies := by simp [new]
  framing := rfl

theorem Effect.wired (hw : s.Wired) (h : Effect s l s') : s'.Wired := by
  cases h with
  | request hdue hstamp hbytes =>
      exact { hw with
        lastSent := rfl
        requests := by
          intro q hq
          rcases List.mem_append.mp hq with hq | hq
          · exact hw.requests q hq
          · rw [List.mem_singleton.mp hq]
            exact hbytes }
  | serve hq hbytes =>
      exact { hw with
        requests := fun q hq => hw.requests q (List.mem_of_mem_erase hq)
        replies := by
          intro r hr
          rcases List.mem_append.mp hr with hr | hr
          · exact hw.replies r hr
          · rw [List.mem_singleton.mp hr]
            exact ⟨_, hbytes⟩ }
  | replyHeader hr hpending hbytes =>
      exact { hw with
        replies := fun r hr => hw.replies r (List.mem_of_mem_erase hr)
        framing := ⟨_, hbytes, rfl⟩ }
  | otherHeader htype hpending => exact { hw with framing := ⟨htype, rfl⟩ }
  | replyPacket hpending hcanonical hmicros hrecorded =>
      exact { hw with
        sized := hrecorded.sized.trans hw.sized
        lastSent := by rw [hrecorded.unchanged]; exact hw.lastSent
        framing := by rw [hrecorded.unchanged]; rfl }
  | otherPacket hpending hkeeps hsettings =>
      exact { hw with
        sized := by rw [ClientMachine.Sized, hkeeps.sorted]; exact hw.sized
        lastSent := by rw [hkeeps.lastSentTime, hkeeps.lastTimeSentUs]; exact hw.lastSent
        framing := hkeeps.framing }

variable {ok : Exchange → Label → Prop}

theorem wired_of_reach (h : (system json).Reach ok s) : s.Wired :=
  h.invariant (by rintro _ rfl; exact wired_new) fun _ _ _ hw _ hstep => (hstep.effect hw).wired hw

/-- What every effect of a step keeps holds in every state reached. -/
theorem reach_invariant {I : Exchange → Prop} (h : (system json).Reach ok s) (hnew : I new)
    (heffect : ∀ s l s', s.Wired → I s → ok s l → Effect s l s' → I s') : I s :=
  h.invariant_of (fun _ => wired_of_reach) (by rintro _ rfl; exact hnew)
    fun s l s' hw hI hok hstep => heffect s l s' hw hI hok (hstep.effect hw)

/-! ## Requests and replies in flight -/

/-- The server has answered and the client has not handled the answer. -/
def Replied (s : Exchange) (r : Reply) : Prop :=
  r ∈ s.replies ∨ s.pending = some (.reply r)

/-- The client has not handled the answer to this request. -/
def Outstanding (s : Exchange) (q : Request) : Prop :=
  q ∈ s.requests ∨ ∃ r, s.Replied r ∧ r.request = q

theorem Effect.replied {r : Reply} (h : Effect s l s') (hr : s'.Replied r) :
    s.Replied r ∨ r.request ∈ s.requests ∧ l = .serve r.request r.received r.sent := by
  cases h with
  | request => exact .inl hr
  | serve hq hbytes =>
      rcases hr with hr | hr
      · rcases List.mem_append.mp hr with hr | hr
        · exact .inl (.inl hr)
        · obtain rfl := List.mem_singleton.mp hr
          exact .inr ⟨hq, rfl⟩
      · exact .inl (.inr hr)
  | replyHeader hr' =>
      rcases hr with hr | hr
      · exact .inl (.inl (List.mem_of_mem_erase hr))
      · obtain rfl := Incoming.reply.inj (Option.some.inj hr)
        exact .inl (.inl hr')
  | otherHeader =>
      rcases hr with hr | hr
      · exact .inl (.inl hr)
      · cases Option.some.inj hr
  | replyPacket =>
      rcases hr with hr | hr
      · exact .inl (.inl hr)
      · cases hr
  | otherPacket =>
      rcases hr with hr | hr
      · exact .inl (.inl hr)
      · cases hr

theorem Effect.outstanding {q : Request} (h : Effect s l s') (hq : s'.Outstanding q) :
    s.Outstanding q ∨ l = .request q.stamp := by
  rcases hq with hq | ⟨r, hr, rfl⟩
  · cases h with
    | request hdue hstamp =>
        rcases List.mem_append.mp hq with hq | hq
        · exact .inl (.inl hq)
        · obtain rfl := List.mem_singleton.mp hq
          exact .inr (by rw [hstamp])
    | serve => exact .inl (.inl (List.mem_of_mem_erase hq))
    | replyHeader => exact .inl (.inl hq)
    | otherHeader => exact .inl (.inl hq)
    | replyPacket => exact .inl (.inl hq)
    | otherPacket => exact .inl (.inl hq)
  · rcases h.replied hr with hr | ⟨hq, -⟩
    · exact .inl (.inr ⟨r, hr, rfl⟩)
    · exact .inl (.inl hq)

/-- Only a request moves the time of the newest request. -/
theorem Effect.lastTimeSentUs (h : Effect s l s') :
    s'.machine.lastTimeSentUs = s.machine.lastTimeSentUs ∧ (∀ now, l ≠ .request now) ∨
      s.machine.Due s'.machine.lastTimeSentUs ∧ l = .request s'.machine.lastTimeSentUs := by
  cases h with
  | request hdue => exact .inr ⟨hdue, rfl⟩
  | serve => exact .inl ⟨rfl, nofun⟩
  | replyHeader => exact .inl ⟨rfl, nofun⟩
  | otherHeader => exact .inl ⟨rfl, nofun⟩
  | replyPacket _ _ _ hrecorded => exact .inl ⟨by rw [hrecorded.unchanged], nofun⟩
  | otherPacket _ hkeeps => exact .inl ⟨hkeeps.lastTimeSentUs, nofun⟩

/-- A new answer belongs to a reply that was waiting. -/
theorem Effect.answers {a : Answer} (h : Effect s l s') (ha : a ∈ s'.answers) :
    a ∈ s.answers ∨ l = .packet a.handled ∧ s.Replied a.reply ∧
      a.newest = s.machine.lastTimeSentUs ∧ a.sample.Canonical ∧
      a.sample.toMicros = halfDifference a.reply a.handled a.newest := by
  cases h with
  | replyPacket hpending hcanonical hmicros =>
      rcases List.mem_append.mp ha with ha | ha
      · exact .inl ha
      · obtain rfl := List.mem_singleton.mp ha
        exact .inr ⟨rfl, .inr hpending, rfl, hcanonical, hmicros⟩
  | request => exact .inl ha
  | serve => exact .inl ha
  | replyHeader => exact .inl ha
  | otherHeader => exact .inl ha
  | otherPacket => exact .inl ha

/-! ## The sample log -/

/-- The machine's window and offset are those of the log of answers. -/
structure Logged (s : Exchange) : Prop where
  measured : ∀ a ∈ s.answers, a.sample.Canonical ∧
    a.sample.toMicros = halfDifference a.reply a.handled a.newest
  window : s.machine.latencyBuf.items = (s.answers.map Answer.sample).rtake latencySamples
  median : latencySamples ≤ s.answers.length →
    (s.machine.latencyBuf.items.insertionSort (· ≤ ·))[latencySamples / 2]? =
      some s.machine.clockOffset

theorem Effect.logged (hw : s.Wired) (hlog : s.Logged) (h : Effect s l s') : s'.Logged := by
  have hmeasured : ∀ a ∈ s'.answers, a.sample.Canonical ∧
      a.sample.toMicros = halfDifference a.reply a.handled a.newest := by
    intro a ha
    rcases h.answers ha with ha | ⟨-, -, -, ha⟩
    · exact hlog.measured a ha
    · exact ha
  cases h with
  | replyPacket hpending hcanonical hmicros hrecorded =>
      rename_i r now offset m
      let a : Answer := ⟨r, now, s.machine.lastTimeSentUs, offset⟩
      have hwindow : m.latencyBuf.items =
          ((s.answers ++ [a]).map Answer.sample).rtake latencySamples := by
        rw [hrecorded.latencyBuf, List.map_append]
        exact CircularBuffer.pushBack_items_of_rtake hlog.window offset
      refine ⟨hmeasured, hwindow, fun hlen => ?_⟩
      have hfull : m.latencyBuf.len = latencySamples := by
        rw [CircularBuffer.len, hwindow, List.rtake, List.length_drop, List.length_map]
        exact Nat.sub_sub_self hlen
      have hmedian := hrecorded.median (hfull.trans (hrecorded.sized.trans hw.sized).symm)
      rwa [hfull] at hmedian
  | otherPacket hpending hkeeps =>
      exact ⟨hmeasured, by rw [hkeeps.latencyBuf]; exact hlog.window,
        by rw [hkeeps.latencyBuf, hkeeps.clockOffset]; exact hlog.median⟩
  | request => exact ⟨hmeasured, hlog.window, hlog.median⟩
  | serve => exact ⟨hmeasured, hlog.window, hlog.median⟩
  | replyHeader => exact ⟨hmeasured, hlog.window, hlog.median⟩
  | otherHeader => exact ⟨hmeasured, hlog.window, hlog.median⟩

theorem logged_new : new.Logged where
  measured := by simp [new]
  window := rfl
  median := by simp [new, latencySamples]

theorem logged_of_reach (h : (system json).Reach ok s) : s.Logged :=
  reach_invariant h logged_new fun _ _ _ hw hlog _ heffect => heffect.logged hw hlog

/-! ## Building runs -/

/-- The request that is emitted now. -/
def newRequest (s : Exchange) (now : ℤ) : Request :=
  { id := s.machine.pktId, stamp := now,
    bytes := (Time.frame s.machine.pktId 0 (.fromMicros now) (.fromMicros now)
      (.fromMicros now)).bytes }

theorem request_step (json : SerdeJson) {now : ℤ} (hdue : s.machine.Due now) :
    Step json s (.request now)
      { s with
        machine := s.machine.requested now, requests := s.requests ++ [s.newRequest now] } := by
  have hstep : Step json s (.request now) _ := Step.request (by simp)
    (ClientMachine.pollTransmit_of_due hdue (List.replicate Time.wireSize 0) (by simp))
  rwa [List.take_left' (Time.frame_bytes_length ..)] at hstep

/-- The server may answer any request, at any two readings of its clock. -/
theorem serve_step (json : SerdeJson) (hw : s.Wired) {q : Request} (hq : q ∈ s.requests)
    (received sent : ℤ) (id : UInt16) :
    ∃ r : Reply, r.request = q ∧ r.received = received ∧ r.sent = sent ∧
      Step json s (.serve q received sent)
        { s with requests := s.requests.erase q, replies := s.replies ++ [r] } := by
  have hfeed : s.session.feed json q.bytes (.fromMicros received) =
      (.ok (.timeRequest q.id (.fromMicros q.stamp) (.fromMicros received)), s.session) := by
    rw [hw.session, hw.requests q hq, Request.frame, ServerSession.feed_time]
  exact ⟨⟨q, received, sent, _⟩, rfl, rfl, rfl, .serve hq hfeed (Time.asBuf_eq_frame id ..)⟩

theorem replyHeader_step (json : SerdeJson) (hw : s.Wired) {r : Reply} (hr : r ∈ s.replies)
    (hpending : s.pending = none) :
    ∃ base, Step json s (.replyHeader r)
      { s with
        machine := s.machine.pending base, replies := s.replies.erase r,
        pending := some (.reply r) } := by
  obtain ⟨id, hbytes⟩ := hw.replies r hr
  have hevent : s.machine.handleEvent json (.headerReceived (r.bytes.take Base.baseSize)) 0 =
      (.ok .nothing, s.machine.pending (r.frame id).base) := by
    rw [hbytes, Frame.bytes, List.take_left' (r.frame id).header_length,
      ClientMachine.handleEvent_header]
  exact ⟨_, .replyHeader hr hpending hevent⟩

/-- Handling a reply never fails while all readings are in range. -/
theorem replyPacket_step (json : SerdeJson) (hw : s.Wired) {r : Reply}
    (hpending : s.pending = some (.reply r)) {now : ℤ} (hreceived : TimeVal.InClock r.received)
    (hlast : TimeVal.InClock s.machine.lastTimeSentUs) (hsent : TimeVal.InClock r.sent)
    (hnow : TimeVal.InClock now) :
    ∃ m offset, Step json s (.packet now)
        { s with
          machine := m, pending := none,
          answers := s.answers ++ [⟨r, now, s.machine.lastTimeSentUs, offset⟩] } ∧
      ClientMachine.Recorded { s.machine with framing := .new } offset m := by
  have hawaits := hw.framing
  rw [hpending] at hawaits
  obtain ⟨id, hbytes, hframing⟩ := hawaits
  obtain ⟨offset, hoffset⟩ := ClientMachine.measure_returns
    { s.machine with framing := .new } (r.frame id).base rfl hw.lastSent rfl hreceived hlast
    hsent hnow
  obtain ⟨m, hm, hrecorded⟩ :=
    ClientMachine.record_spec (m := { s.machine with framing := .new }) hw.sized offset
  have hevent : s.machine.handleEvent json (.packetReceived (r.bytes.drop Base.baseSize)) now =
      (.ok .nothing, m) := by
    rw [hbytes, Frame.bytes, List.drop_left' (r.frame id).header_length,
      ClientMachine.handleEvent_packet hframing]
    change ClientMachine.processPacket json _ _ (TimeVal.fromMicros r.request.stamp).asBuf now = _
    rw [ClientMachine.processPacket_time rfl, ClientMachine.processTime, hoffset, ok_bind, hm]
  have hstep : Step json s (.packet now) _ := .replyPacket hpending hevent
  rw [getLastD_recorded hrecorded] at hstep
  exact ⟨m, offset, hstep, hrecorded⟩

end Exchange

end SnapcastClient
