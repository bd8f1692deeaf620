import Mathlib.Data.List.Chain
import SnapcastClient.Model.ConnectedClient
import SnapcastClient.Model.SerdeJson
import SnapcastClient.Verification.ClientRun
import SnapcastClient.Verification.Framing

/-! # The cadence of the requests

A machine asks for the time as soon as its gap has passed: a millisecond while its window
fills, a second from then on. -/

namespace SnapcastClient

theorem copyAt_eq_ok {out out' src : List UInt8} {start : ℕ} (h : copyAt out start src = .ok out') :
    start + src.length ≤ out.length ∧ out'.length = out.length := by
  rw [copyAt] at h
  split at h
  · rename_i hle
    obtain rfl := Except.ok.inj h
    refine ⟨hle, ?_⟩
    simp only [List.length_append, List.length_take, List.length_drop]
    omega
  · cases h

/-- `write` needs room for the header and the payload. -/
theorem Base.le_length_of_write {b : Base} {out payload : List UInt8} {r : List UInt8 × ℕ}
    (h : b.write out payload = .ok r) : baseSize + payload.length ≤ out.length := by
  obtain ⟨o₁, h₁, h⟩ := bind_eq_ok.mp h
  obtain ⟨o₂, h₂, h⟩ := bind_eq_ok.mp h
  obtain ⟨o₃, h₃, h⟩ := bind_eq_ok.mp h
  obtain ⟨o₄, h₄, h⟩ := bind_eq_ok.mp h
  obtain ⟨o₅, h₅, h⟩ := bind_eq_ok.mp h
  obtain ⟨o₆, h₆, h⟩ := bind_eq_ok.mp h
  obtain ⟨o₇, h₇, -⟩ := bind_eq_ok.mp h
  rw [← (copyAt_eq_ok h₁).2, ← (copyAt_eq_ok h₂).2, ← (copyAt_eq_ok h₃).2, ← (copyAt_eq_ok h₄).2,
    ← (copyAt_eq_ok h₅).2, ← (copyAt_eq_ok h₆).2]
  exact (copyAt_eq_ok h₇).1

namespace ClientMachine

open TransitionSystem (WithHistory)

variable {json : SerdeJson} {m m' : ClientMachine} {c : Call}
  {p p' : WithHistory ClientMachine Timeline}

/-! ## One poll -/

/-- The request that a machine emits at a time. -/
def request (m : ClientMachine) (nowUs : ℤ) : Frame :=
  Time.frame m.pktId 0 (.fromMicros nowUs) (.fromMicros nowUs) (.fromMicros nowUs)

theorem request_bytes_length (m : ClientMachine) (nowUs : ℤ) :
    (m.request nowUs).bytes.length = Time.wireSize :=
  Time.frame_bytes_length ..

/-- The gap of a synchronized machine is a second, of any other a millisecond. -/
theorem due_iff (m : ClientMachine) (nowUs : ℤ) :
    m.Due nowUs ↔ 1000 ≤ nowUs - m.lastTimeSentUs ∧
      (m.Synchronized → 1000000 ≤ nowUs - m.lastTimeSentUs) := by
  rw [Due]
  by_cases hsync : m.Synchronized
  · simp only [hsync, not_true, false_and, false_or, true_imp_iff]
    omega
  · simp only [hsync, not_false_eq_true, true_and, false_imp_iff, and_true]
    omega

theorem pollTransmit_cases {nowUs : ℤ} {out out' : List UInt8} {n : Option ℕ}
    (h : m.pollTransmit nowUs out = .ok (n, out', m')) :
    (¬ m.Due nowUs ∧ n = none ∧ m' = m) ∨
      m.Due nowUs ∧ n = some Time.wireSize ∧
        out'.take Time.wireSize = (m.request nowUs).bytes ∧ m' = m.requested nowUs := by
  by_cases hdue : m.Due nowUs
  · have hout : Time.wireSize ≤ out.length := by
      rw [pollTransmit, if_pos hdue] at h
      obtain ⟨r, hwrite, -⟩ := bind_eq_ok.mp h
      exact Base.le_length_of_write hwrite
    rw [pollTransmit_of_due hdue out hout] at h
    obtain ⟨rfl, hrest⟩ := Prod.mk.inj (Except.ok.inj h)
    obtain ⟨rfl, rfl⟩ := Prod.mk.inj hrest
    exact .inr ⟨hdue, rfl, List.take_left' (m.request_bytes_length nowUs), rfl⟩
  · rw [pollTransmit_of_not_due hdue] at h
    obtain ⟨rfl, hrest⟩ := Prod.mk.inj (Except.ok.inj h)
    obtain ⟨-, rfl⟩ := Prod.mk.inj hrest
    exact .inl ⟨hdue, rfl, rfl⟩

theorem not_due_requested (m : ClientMachine) (nowUs : ℤ) : ¬ (m.requested nowUs).Due nowUs := by
  simp [Due, requested]

/-! ## Synchronization -/

theorem synchronized_iff (hm : m.Sized) : m.Synchronized ↔ m.latencyBuf.len = latencySamples := by
  rw [Synchronized, hm]

theorem pushBack_len_of_full {b : CircularBuffer latencySamples TimeVal} (x : TimeVal)
    (h : b.len = latencySamples) : (b.pushBack x).len = latencySamples := by
  rw [CircularBuffer.len] at h ⊢
  simp only [CircularBuffer.pushBack, List.rtake, List.length_drop, List.length_append,
    List.length_singleton, h]
  rfl

/-- A machine that is synchronized stays so. -/
theorem Effect.synchronized (hm : m.Sized) (h : Effect json m c m') (hsync : m.Synchronized) :
    m'.Synchronized := by
  cases h with
  | requested => exact hsync
  | kept framing hnone => exact hsync
  | @recorded _ _ _ sample _ _ _ hrecord =>
      obtain ⟨m₁, hm₁, hrecorded⟩ := record_spec (m := { m with framing := .new }) hm sample
      obtain rfl := Except.ok.inj (hm₁.symm.trans hrecord)
      have hfull := pushBack_len_of_full sample ((synchronized_iff hm).mp hsync)
      rw [Synchronized, hrecorded.latencyBuf, hrecorded.sized]
      exact hfull.trans hm.symm
  | settled hnone hsettings =>
      rw [(processSettings_spec hsettings).2.2]
      exact hsync

/-! ## Runs -/

/-- When the last request was emitted. -/
def lastUs (emissions : List Emission) : ℤ :=
  (emissions.getLast?.map Emission.nowUs).getD 0

/-- The gap between two requests in a row. -/
def Spaced (a b : Emission) : Prop :=
  1000 ≤ b.nowUs - a.nowUs ∧ (b.synchronized → 1000000 ≤ b.nowUs - a.nowUs)

/-- Request `i` is the `Time` frame with the id `i` modulo `2 ^ 16`, stamped with its time. -/
structure Numbered (i : ℕ) (e : Emission) : Prop where
  bytes : e.bytes = (Time.frame (UInt16.ofNat i) 0 (.fromMicros e.nowUs) (.fromMicros e.nowUs)
    (.fromMicros e.nowUs)).bytes
  nonneg : 0 ≤ e.nowUs
  lt : e.nowUs < 2147483648000000

/-- The machine knows when it emitted its last request, and how many there were. -/
structure Punctual (p : WithHistory ClientMachine Timeline) : Prop where
  clock : 0 ≤ p.history.clock
  last : p.state.lastTimeSentUs = lastUs p.history.emissions
  count : p.state.pktId = UInt16.ofNat p.history.emissions.length
  spaced : p.history.emissions.IsChain Spaced
  numbered : ∀ i e, p.history.emissions[i]? = some e → Numbered i e

@[simp] theorem lastUs_append (emissions : List Emission) (e : Emission) :
    lastUs (emissions ++ [e]) = e.nowUs := by
  simp [lastUs]

/-- A poll by whether a request was due. -/
theorem poll_cases {nowUs : ℤ} {out : List UInt8}
    (h : m.call json (.pollTransmit nowUs out) = some m') :
    (m.emission? (.pollTransmit nowUs out) = none ∧ m' = m) ∨
      m.Due nowUs ∧ m' = m.requested nowUs ∧
        m.emission? (.pollTransmit nowUs out) =
          some ⟨nowUs, m.Synchronized, (m.request nowUs).bytes⟩ := by
  rw [call] at h
  split at h
  · rename_i hpoll
    obtain rfl := Option.some.inj h
    rw [emission?, hpoll]
    rcases pollTransmit_cases hpoll with ⟨-, rfl, rfl⟩ | ⟨hdue, rfl, hbytes, rfl⟩
    · exact .inl ⟨rfl, rfl⟩
    · exact .inr ⟨hdue, rfl, by rw [← hbytes]⟩
  · cases h

/-- An event changes neither the time of the last request nor their number. -/
theorem event_cadence (hm : m.Sized) {event : Event} {nowUs : ℤ}
    (h : m.call json (.handleEvent event nowUs) = some m') :
    m'.lastTimeSentUs = m.lastTimeSentUs ∧ m'.pktId = m.pktId := by
  cases call_effect hm h with
  | kept framing _ => exact ⟨rfl, rfl⟩
  | @recorded _ _ _ sample _ _ _ hrecord =>
      obtain ⟨m₁, hm₁, hrecorded⟩ := record_spec (m := { m with framing := .new }) hm sample
      obtain rfl := Except.ok.inj (hm₁.symm.trans hrecord)
      rw [hrecorded.unchanged]
      exact ⟨rfl, rfl⟩
  | settled _ hsettings =>
      rw [(processSettings_spec hsettings).2.2]
      exact ⟨rfl, rfl⟩

theorem Punctual.idle {clock : ℤ} {emissions : List Emission} (hp : Punctual ⟨m, clock, emissions⟩)
    {nowUs : ℤ} (hclock : clock ≤ nowUs) (hlast : m'.lastTimeSentUs = m.lastTimeSentUs)
    (hcount : m'.pktId = m.pktId) : Punctual ⟨m', nowUs, emissions⟩ :=
  ⟨hp.clock.trans hclock, hlast.trans hp.last, hcount.trans hp.count, hp.spaced, hp.numbered⟩

theorem Punctual.emit {clock : ℤ} {emissions : List Emission} (hp : Punctual ⟨m, clock, emissions⟩)
    {nowUs : ℤ} (hclock : clock ≤ nowUs) (hlt : nowUs < 2147483648000000) (hdue : m.Due nowUs) :
    Punctual ⟨m.requested nowUs, nowUs,
      emissions ++ [⟨nowUs, m.Synchronized, (m.request nowUs).bytes⟩]⟩ := by
  obtain ⟨hgap, hsync⟩ := (due_iff m nowUs).mp hdue
  have hlast : m.lastTimeSentUs = lastUs emissions := hp.last
  have hcount : m.pktId = UInt16.ofNat emissions.length := hp.count
  have hnonneg : 0 ≤ nowUs := hp.clock.trans hclock
  rw [hlast] at hgap hsync
  refine ⟨hnonneg, ?_, ?_, ?_, ?_⟩
  · change nowUs = lastUs _
    rw [lastUs_append]
  · change m.pktId + 1 = _
    rw [hcount, List.length_append, List.length_singleton, UInt16.ofNat_add]
    rfl
  · refine hp.spaced.append (List.isChain_singleton _) fun a ha b hb => ?_
    obtain rfl := Option.some.inj hb
    have ha : lastUs emissions = a.nowUs := by simp [lastUs, Option.mem_def.mp ha]
    rw [ha] at hgap hsync
    exact ⟨hgap, fun h => hsync (of_decide_eq_true h)⟩
  · intro i e he
    rcases Nat.lt_or_ge i emissions.length with hi | hi
    · rw [List.getElem?_append_left hi] at he
      exact hp.numbered i e he
    · have hlen := (List.getElem?_eq_some_iff.mp he).1
      obtain rfl : i = emissions.length := by
        rw [List.length_append, List.length_singleton] at hlen
        omega
      rw [List.getElem?_concat_length] at he
      obtain rfl := Option.some.inj he
      exact ⟨by rw [request, hcount], hnonneg, hlt⟩

theorem punctual_of_reach
    (h : (timedSystem json).Reach (fun p c => steady p c = true) p) : Punctual p := by
  refine h.invariant_of (I := fun p => p.state.Sized)
    (fun p hp => (timed_of_reach hp.forget).sized) ?_ ?_
  · rintro ⟨m, timeline⟩ ⟨hinit, hempty⟩
    obtain rfl : m = new := hinit
    obtain rfl : timeline = ⟨0, []⟩ := hempty
    exact ⟨le_rfl, rfl, rfl, .nil, by simp⟩
  · rintro ⟨m, clock, emissions⟩ c ⟨m', timeline⟩ hsized hp hok ⟨hstep, hhistory⟩
    have hcall : m.call json c = some m' := hstep
    obtain rfl : timeline = ⟨c.nowUs, emissions ++ (m.emission? c).toList⟩ := hhistory
    obtain ⟨hclock, hlt⟩ := of_decide_eq_true hok
    cases c with
    | pollTransmit nowUs out =>
        rcases poll_cases hcall with ⟨hnone, rfl⟩ | ⟨hdue, rfl, hsome⟩
        · rw [hnone, Option.toList_none, List.append_nil]
          exact hp.idle hclock rfl rfl
        · rw [hsome, Option.toList_some]
          exact hp.emit hclock hlt hdue
    | handleEvent event nowUs =>
        obtain ⟨hlast, hcount⟩ := event_cadence hsized hcall
        rw [emission?, Option.toList_none, List.append_nil]
        exact hp.idle hclock hlast hcount

/-! ## The requests on the wire -/

/-- What the peer reads of request `i`. -/
structure Decoded (json : SerdeJson) (i : ℕ) (e : Emission) : Prop where
  length : e.bytes.length = Time.wireSize
  decodes : ∃ base t, Base.tryFrom (e.bytes.take Base.baseSize) = .ok base ∧
    base.decodeC json (e.bytes.drop Base.baseSize) = .ok (.time t) ∧
    base.id.toNat = i % 65536 ∧ base.sentTv.toMicros = e.nowUs

theorem Numbered.decoded {i : ℕ} {e : Emission} (h : Numbered i e) (json : SerdeJson) :
    Decoded json i e := by
  obtain ⟨hbytes, hnonneg, hlt⟩ := h
  let tv := TimeVal.fromMicros e.nowUs
  let frame := Time.frame (UInt16.ofNat i) 0 tv tv tv
  have hframe : e.bytes = frame.header ++ frame.payload := hbytes
  have hsent : frame.base.sentTv.toMicros = e.nowUs :=
    TimeVal.toMicros_fromMicros (by omega) hlt
  refine ⟨hbytes ▸ Time.frame_bytes_length .., frame.base, ⟨tv⟩, ?_, ?_, ?_, hsent⟩
  · rw [hframe, List.take_left' frame.header_length, frame.accepted]
  · rw [hframe, List.drop_left' frame.header_length]
    change Base.decodeC json (Time.base ..) tv.asBuf = _
    simp [Base.decodeC, Time.base]
  · change (UInt16.ofNat i).toNat = _
    rw [UInt16.toNat_ofNat']

/-! ## The send loop of a tick -/

theorem sendLoop_of_not_due {c : ConnectedClient} {input : TickInput}
    (hdue : ¬ c.machine.Due input.txNow) : c.sendLoop input = (.ok (), c) := by
  rw [ConnectedClient.sendLoop]
  split <;> rename_i h <;> rw [pollTransmit_of_not_due hdue] at h <;> cases h

/-- The connection when a due request has been written into its buffer. -/
def polled (c : ConnectedClient) (nowUs : ℤ) : ConnectedClient :=
  { c with
    machine := c.machine.requested nowUs
    txBuf := (c.machine.request nowUs).bytes ++ c.txBuf.drop Time.wireSize }

/-- A due request is the only one of its tick. -/
theorem sendLoop_of_due {c : ConnectedClient} {input : TickInput}
    (hdue : c.machine.Due input.txNow) (hbuf : Time.wireSize ≤ c.txBuf.length) :
    c.sendLoop input =
      if input.writeOk then
        (.ok (), { polled c input.txNow with
          written := c.written ++ (c.machine.request input.txNow).bytes })
      else (bail "writing time request", polled c input.txNow) := by
  have hpoll := pollTransmit_of_due hdue c.txBuf hbuf
  rw [ConnectedClient.sendLoop]
  split <;> rename_i h <;> rw [hpoll] at h <;> cases h
  split
  · rw [sendLoop_of_not_due (not_due_requested c.machine input.txNow)]
    have htake : ((c.machine.request input.txNow).bytes ++ c.txBuf.drop Time.wireSize).take
        Time.wireSize = (c.machine.request input.txNow).bytes :=
      List.take_left' (c.machine.request_bytes_length input.txNow)
    rw [request] at htake
    rw [htake]
    rfl
  · rfl

/-- The send loop of a tick ends after at most one request. -/
structure SendsOnce (c : ConnectedClient) (input : TickInput) : Prop where
  machine : (c.sendLoop input).2.machine = c.machine ∨
    (c.sendLoop input).2.machine = c.machine.requested input.txNow
  written : ∃ sent, (sent = [] ∨ sent = (c.machine.request input.txNow).bytes) ∧
    (c.sendLoop input).2.written = c.written ++ sent
  ended : (c.sendLoop input).1 = .ok () ∨ input.writeOk = false
  exhausted : ¬ (c.sendLoop input).2.machine.Due input.txNow

theorem sendsOnce {c : ConnectedClient} (hbuf : Time.wireSize ≤ c.txBuf.length)
    (input : TickInput) : SendsOnce c input := by
  by_cases hdue : c.machine.Due input.txNow
  · have hloop := sendLoop_of_due hdue hbuf
    have hnot := not_due_requested c.machine input.txNow
    cases hok : input.writeOk with
    | true =>
        rw [hok, if_pos rfl] at hloop
        constructor
        · exact .inr (by rw [hloop]; rfl)
        · exact ⟨_, .inr rfl, by rw [hloop]⟩
        · exact .inl (by rw [hloop])
        · rw [hloop]
          exact hnot
    | false =>
        rw [hok, if_neg Bool.false_ne_true] at hloop
        constructor
        · exact .inr (by rw [hloop]; rfl)
        · exact ⟨[], .inl rfl, by rw [hloop, List.append_nil]; rfl⟩
        · exact .inr hok
        · rw [hloop]
          exact hnot
  · have hloop := sendLoop_of_not_due hdue
    constructor
    · exact .inl (by rw [hloop])
    · exact ⟨[], .inl rfl, by rw [hloop, List.append_nil]⟩
    · exact .inl (by rw [hloop])
    · rwa [hloop]

/-! ## The cadence -/

/-- The cadence of a machine that has emitted these requests. -/
structure Cadence (json : SerdeJson) (m : ClientMachine) (emissions : List Emission) : Prop where
  decoded : ∀ i e, emissions[i]? = some e → Decoded json i e
  spaced : emissions.IsChain Spaced
  emits : ∀ nowUs out, Time.wireSize ≤ out.length → 1000 ≤ nowUs - lastUs emissions →
    (m.Synchronized → 1000000 ≤ nowUs - lastUs emissions) →
      ∃ out', m.pollTransmit nowUs out = .ok (some Time.wireSize, out', m.requested nowUs)
  stays : ∀ c m', m.call json c = some m' → m.Synchronized → m'.Synchronized
  once : ∀ nowUs out n out' m', m.pollTransmit nowUs out = .ok (n, out', m') →
    ∀ again, m'.pollTransmit nowUs again = .ok (none, again, m')
  sendLoop : ∀ c input, c.machine = m → Time.wireSize ≤ c.txBuf.length → SendsOnce c input

/-- The requests keep their cadence in every run on a steady clock. -/
theorem request_cadence (json : SerdeJson) {p : WithHistory ClientMachine Timeline}
    (h : (timedSystem json).Reach (fun p c => steady p c = true) p) :
    Cadence json p.state p.history.emissions := by
  have hp := punctual_of_reach h
  have hsized := (timed_of_reach h.forget).sized
  constructor
  case decoded => exact fun i e he => (hp.numbered i e he).decoded json
  case spaced => exact hp.spaced
  case emits =>
    intro nowUs out hout hgap hsync
    rw [← hp.last] at hgap hsync
    exact ⟨_, pollTransmit_of_due ((due_iff _ _).mpr ⟨hgap, hsync⟩) out hout⟩
  case stays => exact fun c m' hcall hsync => (call_effect hsized hcall).synchronized hsized hsync
  case once =>
    intro nowUs out n out' m' hpoll again
    refine pollTransmit_of_not_due ?_ again
    rcases pollTransmit_cases hpoll with ⟨hnot, -, rfl⟩ | ⟨-, -, -, rfl⟩
    · exact hnot
    · exact not_due_requested _ _
  case sendLoop => exact fun c input _ hbuf => sendsOnce hbuf input

/-- Three polls, the second too early. -/
theorem request_cadence_polls :
    ∃ p : WithHistory ClientMachine Timeline,
      p.history.emissions.map Emission.nowUs = [1000, 2000] ∧
        Cadence .compact p.state p.history.emissions := by
  let out : List UInt8 := List.replicate 34 0
  let calls : List Call :=
    [.pollTransmit 1000 out, .pollTransmit 1500 out, .pollTransmit 2000 out]
  have hrun : (TransitionSystem.run (TransitionSystem.stepWithHistory (call .compact)
      fun m timeline c => (⟨c.nowUs, timeline.emissions ++ (m.emission? c).toList⟩ : Timeline))
      steady calls ⟨new, 0, []⟩).any
        (fun p => p.history.emissions.map Emission.nowUs = [1000, 2000]) = true := by
    decide +kernel
  obtain ⟨p, hp, hemissions⟩ := (Option.any_eq_true _ _).mp hrun
  have hreach : (timedSystem .compact).Reach (fun p c => steady p c = true) ⟨new, 0, []⟩ :=
    .init ⟨rfl, rfl⟩
  rw [timedSystem, system, TransitionSystem.withHistory_ofStep] at hreach
  have hpolls := TransitionSystem.reach_of_run hreach hp
  rw [← TransitionSystem.withHistory_ofStep] at hpolls
  exact ⟨p, of_decide_eq_true hemissions, request_cadence .compact hpolls⟩

end ClientMachine

end SnapcastClient
