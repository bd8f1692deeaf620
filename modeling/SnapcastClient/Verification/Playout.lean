import SnapcastClient.Verification.ClockRecovery
import SnapcastClient.Verification.Stream

/-! # Playout agreement

Two clients that recovered their clocks and hold the same settings make the same chunk
audible at the same server instant, up to their remaining clock errors. -/

namespace SnapcastClient

theorem toInt_toInt32 {x : UInt32} (h : x.toNat ≤ 2147483) : x.toInt32.toInt = x.toNat := by
  have hx : x.toInt32 = Int32.ofNat x.toNat := by
    rw [← UInt32.toInt32_ofNat', UInt32.ofNat_toNat]
  rw [hx, Int32.toInt_ofNat_of_lt (by omega)]

namespace Exchange

variable {json : SerdeJson} {s s' : Exchange} {l : Label}

/-! ## Settings -/

/-- The machine plays by the settings handled last. -/
def Settled (s : Exchange) : Prop :=
  ∀ st, s.settings = some st →
    s.machine.serverBufferMs.toMicros = st.bufferMs.toInt32.toInt * 1000 ∧
      s.machine.localLatency.toMicros = st.latency.toInt32.toInt * 1000

theorem Effect.settled (hs : s.Settled) (h : Effect s l s') : s'.Settled := by
  intro st hst
  cases h with
  | request => exact hs st hst
  | serve => exact hs st hst
  | replyHeader => exact hs st hst
  | otherHeader => exact hs st hst
  | replyPacket _ _ _ hrecorded =>
      rw [hrecorded.unchanged]
      exact hs st hst
  | otherPacket _ _ hsettings =>
      rcases hsettings with ⟨st', hmessage, hprocess⟩ | ⟨hmessage, rfl⟩
      · rw [hmessage] at hst
        obtain rfl := Option.some.inj hst
        obtain ⟨hbuffer, hlatency, -⟩ := ClientMachine.processSettings_spec hprocess
        exact ⟨hbuffer, hlatency⟩
      · rw [hmessage] at hst
        exact hs st hst

theorem settled_of_reach {ok : Exchange → Label → Prop} (h : (system json).Reach ok s) :
    s.Settled :=
  reach_invariant h nofun fun _ _ _ _ hs _ heffect => heffect.settled hs

/-- A full window has seen as many answers as it holds samples. -/
theorem latencySamples_le_of_synchronized {ok : Exchange → Label → Prop}
    (h : (system json).Reach ok s) (hsync : s.machine.Synchronized) :
    latencySamples ≤ s.answers.length := by
  have hlen : s.machine.latencyBuf.len = latencySamples := hsync.trans (wired_of_reach h).sized
  rw [CircularBuffer.len, (logged_of_reach h).window, List.rtake, List.length_drop,
    List.length_map] at hlen
  omega

/-! ## Chunks -/

/-- The client handles a frame that carries the chunk, and hands `played` out for
`audibleAt`. -/
def Plays (json : SerdeJson) (s : Exchange) (wc played : WireChunk) (audibleAt : TimeVal) : Prop :=
  ∃ (frame : Frame) (now : ℤ), s.pending = some (.other frame) ∧
    frame.base.decode json frame.payload = .ok (.wireChunk wc) ∧
    (s.machine.handleEvent json (.packetReceived frame.payload) now).1 =
      .ok (.wireChunk played audibleAt)

theorem Plays.spec (hw : s.Wired) {wc played : WireChunk} {audibleAt : TimeVal}
    (h : s.Plays json wc played audibleAt) :
    played = wc ∧ audibleAt.toMicros = wc.timestamp.toMicros - s.machine.clockOffset.toMicros +
      s.machine.serverBufferMs.toMicros - s.machine.localLatency.toMicros := by
  obtain ⟨frame, now, hpending, hdecode, h⟩ := h
  have hawaits := hw.framing
  rw [hpending] at hawaits
  obtain ⟨-, hframing⟩ := hawaits
  rw [ClientMachine.handleEvent_packet hframing, ClientMachine.processPacket, hdecode] at h
  exact ClientMachine.processWireChunk_spec (m := { s.machine with framing := .new }) h

/-- A client with recovered clock: its window is full, eleven of its last twenty exchanges
are balanced, and it handled `st` last. -/
structure Recovered (json : SerdeJson) (θ eps : ℤ) (st : ServerSettings) (s : Exchange) : Prop where
  reach : (system json).Reach Alternating s
  synchronized : s.machine.Synchronized
  balanced : 11 ≤ ((s.answers.rtake latencySamples).countP fun a => a.Balanced θ eps)
  settings : s.settings = some st

/-- The audible instant is exact on the client clock and off by at most `eps` on the
server's. -/
theorem Recovered.audible {θ eps : ℤ} {st : ServerSettings} (hs : Recovered json θ eps st s)
    (hbuffer : st.bufferMs.toNat ≤ 2147483) (hlatency : st.latency.toNat ≤ 2147483)
    {wc played : WireChunk} {audibleAt : TimeVal} (h : s.Plays json wc played audibleAt) :
    played = wc ∧ audibleAt.toMicros = wc.timestamp.toMicros - s.machine.clockOffset.toMicros +
        st.bufferMs.toNat * 1000 - st.latency.toNat * 1000 ∧
      |s.machine.clockOffset.toMicros - θ| ≤ eps := by
  obtain ⟨hplayed, haudible⟩ := h.spec (wired_of_reach hs.reach)
  obtain ⟨hserver, hlocal⟩ := settled_of_reach hs.reach st hs.settings
  rw [toInt_toInt32 hbuffer] at hserver
  rw [toInt_toInt32 hlatency] at hlocal
  refine ⟨hplayed, by rw [haudible, hserver, hlocal], ?_⟩
  exact clockOffset_mem (logged_of_reach hs.reach)
    (fun a ha => sample_eq_of_alternating hs.reach θ ha)
    (latencySamples_le_of_synchronized hs.reach hs.synchronized) hs.balanced

/-- Whenever two recovered clients with the same settings play the same chunk, each at the
exact instant its offset and settings give, these instants lie within `2 * eps` of each other
on the server clock. -/
theorem playout_agreement {θ₁ θ₂ eps : ℤ} {st : ServerSettings} {s₁ s₂ : Exchange}
    (h₁ : Recovered json θ₁ eps st s₁) (h₂ : Recovered json θ₂ eps st s₂)
    (hbuffer : st.bufferMs.toNat ≤ 2147483) (hlatency : st.latency.toNat ≤ 2147483)
    {wc played₁ played₂ : WireChunk} {audible₁ audible₂ : TimeVal}
    (hplays₁ : s₁.Plays json wc played₁ audible₁) (hplays₂ : s₂.Plays json wc played₂ audible₂) :
    (played₁ = wc ∧ audible₁.toMicros = wc.timestamp.toMicros -
        s₁.machine.clockOffset.toMicros + st.bufferMs.toNat * 1000 - st.latency.toNat * 1000) ∧
      (played₂ = wc ∧ audible₂.toMicros = wc.timestamp.toMicros -
        s₂.machine.clockOffset.toMicros + st.bufferMs.toNat * 1000 - st.latency.toNat * 1000) ∧
      |(audible₁.toMicros + θ₁) - (audible₂.toMicros + θ₂)| ≤ 2 * eps := by
  obtain ⟨hplayed₁, haudible₁, hoffset₁⟩ := h₁.audible hbuffer hlatency hplays₁
  obtain ⟨hplayed₂, haudible₂, hoffset₂⟩ := h₂.audible hbuffer hlatency hplays₂
  refine ⟨⟨hplayed₁, haudible₁⟩, ⟨hplayed₂, haudible₂⟩, ?_⟩
  rw [abs_le] at hoffset₁ hoffset₂ ⊢
  omega

/-! ## Two clients -/

/-- An idle client takes in settings whose times fit. -/
theorem settings_run (hjson : json.SettingsLaws) (h : (system json).Reach Alternating s)
    (hidle : s.Idle) {st : ServerSettings} {buffer latency : TimeVal}
    (hbuffer : TimeVal.fromMillis st.bufferMs.toInt32 = .ok buffer)
    (hlatency : TimeVal.fromMillis st.latency.toInt32 = .ok latency) :
    (system json).Reach Alternating
      { s with
        machine := { s.machine with
          framing := .new, serverBufferMs := buffer, localLatency := latency }
        pending := none, settings := some st } := by
  let w : ServerWrite := .serverSettings st 0 .zero
  have htype : w.frame.base.mtype ≠ .time := nofun
  have h₁ : (system json).Reach Alternating _ :=
    .step h (by trivial)
      (.otherHeader htype hidle.pending (ClientMachine.handleEvent_header json _ w.frame 0))
  have hdecode : w.frame.base.decode json w.frame.payload = .ok (.serverSettings st) :=
    ServerWrite.decode_payload hjson w
  have hevent : (s.machine.pending w.frame.base).handleEvent json
      (.packetReceived w.frame.payload) 0 = (.ok (.serverSettings st), { s.machine with
        framing := .new, serverBufferMs := buffer, localLatency := latency }) := by
    rw [ClientMachine.handleEvent_packet rfl, ClientMachine.processPacket, hdecode]
    simp only [ClientMachine.processSettings, hbuffer, hlatency, ok_bind]
    rfl
  have hstep : Step json _ (.packet 0) _ := Step.otherPacket (s := { s with
    machine := s.machine.pending w.frame.base, pending := some (.other w.frame) }) rfl hevent
  exact .step h₁ (by exact (by decide : TimeVal.InClock 0)) hstep

/-- Twenty exchanges with equal delays and the default settings recover a client's clock. -/
theorem recovered_run {θ : ℤ} (hθ : |θ| ≤ 1000000000) {offset : TimeVal}
    (hoffset : offset.Canonical) (hmicros : offset.toMicros = θ) :
    ∃ s, Recovered .compact θ 0 ⟨2000, 0, false, 42⟩ s ∧ s.pending = none ∧
      s.machine.clockOffset = offset ∧ s.machine.serverBufferMs = ⟨1, 1000000⟩ ∧
      s.machine.localLatency = .zero := by
  obtain ⟨s, hs, hidle, hlen, hbalanced⟩ := symmetric_run .compact hθ 20 (by omega)
  have hfull : latencySamples ≤ s.answers.length := by
    rw [hlen]
    decide
  have hlog := logged_of_reach hs
  have heleven := eleven_le_countP hfull hbalanced
  have hmedian := clockOffset_mem hlog (fun a ha => sample_eq_of_alternating hs θ ha) hfull heleven
  obtain ⟨a, ha, hsample⟩ := hlog.exists_sample hfull
  have hcanonical := (hlog.measured a ha).1
  rw [hsample] at hcanonical
  have hclock : s.machine.clockOffset = offset := by
    refine hcanonical.eq_of_toMicros hoffset ?_
    rw [abs_le] at hmedian
    omega
  have hwindow : s.machine.latencyBuf.len = latencySamples := by
    rw [CircularBuffer.len, hlog.window, List.rtake, List.length_drop, List.length_map]
    exact Nat.sub_sub_self hfull
  exact ⟨_, ⟨settings_run SerdeJson.compact_settingsLaws hs hidle (by decide +kernel)
    (by decide +kernel), hwindow.trans (wired_of_reach hs).sized.symm, heleven, rfl⟩, rfl, hclock,
    rfl, rfl⟩

/-- A recovered client receives a chunk and plays it. -/
theorem plays_run {θ eps : ℤ} {st : ServerSettings} (hs : Recovered .compact θ eps st s)
    (hpending : s.pending = none) {wc : WireChunk}
    (hfits : wc.payload.length ≤ Base.maxPayload - 12) {now : ℤ} {audibleAt : TimeVal}
    (hplay : s.machine.processWireChunk wc (.fromMicros now) = .ok (.wireChunk wc audibleAt)) :
    ∃ s', Recovered .compact θ eps st s' ∧ s'.Plays .compact wc wc audibleAt := by
  let w : ServerWrite := .wireChunk wc hfits 0 .zero
  have htype : w.frame.base.mtype ≠ .time := nofun
  have hdecode : w.frame.base.decode .compact w.frame.payload = .ok (.wireChunk wc) :=
    ServerWrite.decode_payload SerdeJson.compact_settingsLaws w
  refine ⟨_, ⟨.step hs.reach (by trivial) (.otherHeader htype hpending
    (ClientMachine.handleEvent_header .compact _ w.frame 0)), hs.synchronized, hs.balanced,
    hs.settings⟩, w.frame, now, rfl, hdecode, ?_⟩
  rw [ClientMachine.handleEvent_packet rfl, ClientMachine.processPacket, hdecode]
  exact hplay

/-- Clocks a quarter of a second ahead and forty milliseconds behind play a chunk at one
server instant. -/
theorem playout_agreement_pair :
    ∃ (s₁ s₂ : Exchange) (wc : WireChunk) (audible₁ audible₂ : TimeVal),
      s₁.Plays .compact wc wc audible₁ ∧ s₂.Plays .compact wc wc audible₂ ∧
      |(audible₁.toMicros + 250000) - (audible₂.toMicros + -40000)| ≤ 2 * 0 := by
  let wc : WireChunk := ⟨⟨10, 0⟩, [1, 2, 3]⟩
  obtain ⟨s₁, hs₁, hpending₁, hoffset₁, hbuffer₁, hlatency₁⟩ :=
    recovered_run (θ := 250000) (by decide) (by decide : TimeVal.Canonical ⟨0, 250000⟩) rfl
  obtain ⟨s₂, hs₂, hpending₂, hoffset₂, hbuffer₂, hlatency₂⟩ :=
    recovered_run (θ := -40000) (by decide) (by decide : TimeVal.Canonical ⟨-1, 960000⟩) rfl
  have hplay₁ : s₁.machine.processWireChunk wc (.fromMicros 0) =
      .ok (.wireChunk wc ⟨11, 750000⟩) := by
    rw [ClientMachine.processWireChunk, hoffset₁, hbuffer₁, hlatency₁]
    decide +kernel
  have hplay₂ : s₂.machine.processWireChunk wc (.fromMicros 0) =
      .ok (.wireChunk wc ⟨12, 40000⟩) := by
    rw [ClientMachine.processWireChunk, hoffset₂, hbuffer₂, hlatency₂]
    decide +kernel
  obtain ⟨t₁, ht₁, hplays₁⟩ := plays_run hs₁ hpending₁ (by decide) hplay₁
  obtain ⟨t₂, ht₂, hplays₂⟩ := plays_run hs₂ hpending₂ (by decide) hplay₂
  exact ⟨t₁, t₂, wc, _, _, hplays₁, hplays₂,
    (playout_agreement ht₁ ht₂ (by decide) (by decide) hplays₁ hplays₂).2.2⟩

end Exchange

end SnapcastClient
