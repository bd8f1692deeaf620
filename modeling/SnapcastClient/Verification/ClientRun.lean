import SnapcastClient.Model.ClientRun
import SnapcastClient.Verification.ClientMachine

/-! # What holds of a client machine after any calls -/

namespace SnapcastClient

namespace ClientMachine

variable {json : SerdeJson} {m m' : ClientMachine} {c : Call}

/-- The calls by what they change. -/
inductive Effect (json : SerdeJson) (m : ClientMachine) : Call → ClientMachine → Prop where
  | requested {nowUs : ℤ} {out : List UInt8} :
      Effect json m (.pollTransmit nowUs out) (m.requested nowUs)
  /-- Nothing happens, a header is taken in, or a payload leaves no trace. -/
  | kept {c : Call} (framing : Framing) :
      m.sample? json c = none → Effect json m c { m with framing }
  | recorded {bytes : List UInt8} {nowUs : ℤ} {base : Base} {sample : TimeVal}
      {m' : ClientMachine} :
      m.sample? json (.handleEvent (.packetReceived bytes) nowUs) = some sample →
      m.measure base (.fromMicros nowUs) = .ok sample →
      record { m with framing := .new } sample = .ok m' →
      Effect json m (.handleEvent (.packetReceived bytes) nowUs) m'
  | settled {c : Call} {st : ServerSettings} {m' : ClientMachine} :
      m.sample? json c = none → processSettings { m with framing := .new } st = .ok m' →
      Effect json m c m'

theorem poll_effect {nowUs : ℤ} {out : List UInt8}
    (h : m.call json (.pollTransmit nowUs out) = some m') :
    Effect json m (.pollTransmit nowUs out) m' := by
  rw [call] at h
  split at h
  · rename_i hpoll
    obtain rfl := Option.some.inj h
    rw [pollTransmit] at hpoll
    split at hpoll
    · obtain ⟨_, -, hpoll⟩ := bind_eq_ok.mp hpoll
      obtain ⟨-, hpoll⟩ := Prod.mk.inj (Except.ok.inj hpoll)
      obtain ⟨-, rfl⟩ := Prod.mk.inj hpoll
      exact .requested
    · obtain ⟨-, hpoll⟩ := Prod.mk.inj (Except.ok.inj hpoll)
      obtain ⟨-, rfl⟩ := Prod.mk.inj hpoll
      exact .kept m.framing rfl
  · cases h

theorem left_eq_some {α : Type} {x : Outcome α × ClientMachine} :
    left x = some m' ↔ Returns x.1 ∧ x.2 = m' := by
  obtain ⟨result, m₁⟩ := x
  cases result with
  | ok a => simp [left]
  | error fault =>
      cases fault with
      | error message =>
          have hreturns : Returns (.error (.error message) : Outcome α) := returns_bail message
          simp [left, hreturns]
      | panicked reason =>
          have hpanics : ¬ Returns (.error (.panicked reason) : Outcome α) :=
            not_returns_abort reason
          simp [left, hpanics]

theorem header_effect {bytes : List UInt8} {nowUs : ℤ}
    (h : m.call json (.handleEvent (.headerReceived bytes) nowUs) = some m') :
    Effect json m (.handleEvent (.headerReceived bytes) nowUs) m' := by
  obtain ⟨-, rfl⟩ := left_eq_some.mp h
  rw [handleEvent]
  split
  · exact .kept m.framing rfl
  · exact .kept _ rfl

variable (json) in
theorem sample?_packet {base : Base} (hm : m.framing = ⟨.readingPacket base⟩)
    (bytes : List UInt8) (nowUs : ℤ) :
    m.sample? json (.handleEvent (.packetReceived bytes) nowUs) =
      match base.decode json bytes with
      | .ok (.time _) => (m.measure base (.fromMicros nowUs)).toOption
      | _ => none := by
  cases m
  cases hm
  rfl

theorem packet_effect (hsized : m.Sized) {bytes : List UInt8} {nowUs : ℤ}
    (h : m.call json (.handleEvent (.packetReceived bytes) nowUs) = some m') :
    Effect json m (.handleEvent (.packetReceived bytes) nowUs) m' := by
  obtain ⟨hreturns, rfl⟩ := left_eq_some.mp h
  rcases hframing : m.framing with ⟨state⟩
  cases state with
  | readingHeader =>
      rw [handleEvent, hframing] at hreturns
      exact absurd hreturns (not_returns_abort _)
  | readingPacket base =>
      have hsample := sample?_packet json hframing bytes nowUs
      rw [handleEvent_packet hframing, processPacket] at hreturns ⊢
      cases hdecode : base.decode json bytes with
      | error fault =>
          rw [hdecode] at hsample
          exact .kept _ hsample
      | ok message =>
          rw [hdecode] at hsample hreturns
          cases message with
          | time t =>
              have hsame : measure { m with framing := .new } base (.fromMicros nowUs) =
                  m.measure base (.fromMicros nowUs) := rfl
              dsimp only at hsample ⊢
              rw [processTime, hsame]
              cases hmeasure : m.measure base (.fromMicros nowUs) with
              | error fault =>
                  rw [hmeasure] at hsample
                  exact .kept _ hsample
              | ok sample =>
                  rw [hmeasure] at hsample
                  obtain ⟨m', hrecord, -⟩ :=
                    record_spec (m := { m with framing := .new }) hsized sample
                  rw [ok_bind, hrecord]
                  exact .recorded hsample hmeasure hrecord
          | wireChunk wc => exact .kept _ hsample
          | serverSettings st =>
              dsimp only
              split
              · exact .kept _ hsample
              · rename_i hsettings
                exact .settled hsample hsettings
          | codecHeader ch => exact .kept _ hsample

/-- The inversion of a call. -/
theorem call_effect (hsized : m.Sized) (h : m.call json c = some m') : Effect json m c m' := by
  cases c with
  | pollTransmit nowUs out => exact poll_effect h
  | handleEvent event nowUs =>
      cases event with
      | headerReceived bytes => exact header_effect h
      | packetReceived bytes => exact packet_effect hsized h

/-! ## The times a machine holds -/

/-- The fields hold what the calls can have put there. -/
structure Timed (m : ClientMachine) : Prop where
  sized : m.Sized
  window : ∀ t ∈ m.latencyBuf.items, t.Canonical
  scratch : ∀ t ∈ m.sortedLatencyBuf, t.Canonical
  clockOffset : m.clockOffset.Canonical
  serverBuffer : m.serverBufferMs.Short
  localLatency : m.localLatency.Short
  lastSent : ∃ us, m.lastSentTime = .fromMicros us

theorem timed_new : new.Timed where
  sized := by simp [new, Sized]
  window := nofun
  scratch t ht := by
    obtain rfl := List.eq_of_mem_replicate ht
    decide
  clockOffset := by decide
  serverBuffer := by constructor <;> decide
  localLatency := by constructor <;> decide
  lastSent := ⟨0, rfl⟩

theorem Timed.framing (hm : m.Timed) (framing : Framing) : Timed { m with framing } :=
  ⟨hm.sized, hm.window, hm.scratch, hm.clockOffset, hm.serverBuffer, hm.localLatency, hm.lastSent⟩

theorem Timed.record (hm : m.Timed) {sample : TimeVal} (hsample : sample.Canonical)
    (h : m.record sample = .ok m') : m'.Timed := by
  obtain ⟨median, hrecord, hmedian⟩ := record_eq hm.sized sample
  obtain rfl := Except.ok.inj (hrecord.symm.trans h)
  have hwindow : ∀ t ∈ (m.latencyBuf.pushBack sample).items, t.Canonical := by
    intro t ht
    rcases List.mem_append.mp (List.mem_of_mem_drop ht) with ht | ht
    · exact hm.window t ht
    · exact List.mem_singleton.mp ht ▸ hsample
  have hscratch : ∀ t ∈ m.scratch sample, t.Canonical := by
    intro t ht
    rcases List.mem_append.mp ((List.perm_insertionSort _ _).mem_iff.mp ht) with ht | ht
    · exact hwindow t ht
    · exact hm.scratch t (List.mem_of_mem_drop ht)
  exact ⟨scratch_length hm.sized sample, hwindow, hscratch,
    hscratch median (List.mem_of_getElem? hmedian), hm.serverBuffer, hm.localLatency, hm.lastSent⟩

theorem Timed.processSettings (hm : m.Timed) {st : ServerSettings}
    (h : m.processSettings st = .ok m') : m'.Timed := by
  obtain ⟨buffer, hbuffer, h⟩ := bind_eq_ok.mp h
  obtain ⟨latency, hlatency, h⟩ := bind_eq_ok.mp h
  obtain rfl := Except.ok.inj h
  exact ⟨hm.sized, hm.window, hm.scratch, hm.clockOffset, TimeVal.short_of_fromMillis hbuffer,
    TimeVal.short_of_fromMillis hlatency, hm.lastSent⟩

theorem Effect.timed (hm : m.Timed) (h : Effect json m c m') : m'.Timed := by
  cases h with
  | requested =>
      exact ⟨hm.sized, hm.window, hm.scratch, hm.clockOffset, hm.serverBuffer, hm.localLatency,
        ⟨_, rfl⟩⟩
  | kept framing => exact hm.framing _
  | recorded _ hmeasure hrecord =>
      exact (hm.framing .new).record (measure_spec hmeasure).1 hrecord
  | settled _ hsettings => exact (hm.framing .new).processSettings hsettings

theorem timed_of_reach {ok : ClientMachine → Call → Prop} (h : (system json).Reach ok m) :
    m.Timed := by
  refine h.invariant ?_ ?_
  · rintro m rfl
    exact timed_new
  · intro m c m' hm _ hstep
    exact (call_effect hm.sized hstep).timed hm

end ClientMachine

end SnapcastClient
