import SnapcastClient.Verification.ClientRun
import SnapcastClient.Verification.Stream

/-! # When the clock arithmetic overflows

The timestamps of a frame are arbitrary `i32` pairs. Each operation of the client on them is
followed over the integers, which gives the exact inputs that stay in range. -/

namespace SnapcastClient

/-- The arithmetic of a reply stays in range. -/
structure TimeFits (received lastSent now sent : Span) : Prop where
  toServer : (received.sub lastSent).Fits
  toClient : (now.sub sent).Fits
  difference : ((received.sub lastSent).carry.sub (now.sub sent).carry).Fits

/-- The arithmetic of a chunk stays in range. -/
structure ChunkFits (timestamp offset buffer latency now : Span) : Prop where
  client : (timestamp.sub offset).Fits
  buffered : ((timestamp.sub offset).carry.add buffer).Fits
  audible : (((timestamp.sub offset).carry.add buffer).carry.sub latency).Fits
  remaining :
    ((((timestamp.sub offset).carry.add buffer).carry.sub latency).carry.sub now).Fits

/-- A clock reading that counts up from zero. -/
theorem TimeVal.span_fromMicros {us : ℤ} (h0 : 0 ≤ us) (hus : us < 2147483648000000) :
    (TimeVal.fromMicros us).span = ⟨us / 1000000, us % 1000000⟩ := by
  obtain ⟨hsec, husec⟩ := fromMicros_toInt (by omega) hus
  rw [Int.tdiv_eq_ediv_of_nonneg h0] at hsec
  rw [Int.tmod_eq_emod_of_nonneg h0] at husec
  exact Span.ext hsec husec

namespace ClientMachine

variable {json : SerdeJson} {m : ClientMachine}

theorem checked_measure (m : ClientMachine) (base : Base) (recvTs : TimeVal) :
    Checked (m.measure base recvTs) :=
  checked_bind (TimeVal.checked_sub _ _) fun _ _ =>
    checked_bind (TimeVal.checked_sub _ _) fun _ _ =>
    checked_bind (TimeVal.checked_sub _ _) fun _ _ => TimeVal.checked_normalize _

/-- Halving never overflows, so a reply is measured when its three subtractions fit. -/
theorem measure_returns_iff (m : ClientMachine) (base : Base) (recvTs : TimeVal) :
    (∃ offset, m.measure base recvTs = .ok offset) ↔
      TimeFits base.receivedTv.span m.lastSentTime.span recvTs.span base.sentTv.span := by
  constructor
  · rintro ⟨offset, h⟩
    obtain ⟨c2s, hc2s, h⟩ := bind_eq_ok.mp h
    obtain ⟨s2c, hs2c, h⟩ := bind_eq_ok.mp h
    obtain ⟨diff, hdiff, -⟩ := bind_eq_ok.mp h
    obtain ⟨hfits₁, hspan₁⟩ := TimeVal.sub_eq_ok.mp hc2s
    obtain ⟨hfits₂, hspan₂⟩ := TimeVal.sub_eq_ok.mp hs2c
    have hfits₃ := (TimeVal.sub_eq_ok.mp hdiff).1
    rw [hspan₁, hspan₂] at hfits₃
    exact ⟨hfits₁, hfits₂, hfits₃⟩
  · intro h
    obtain ⟨c2s, hc2s⟩ := TimeVal.exists_sub h.toServer
    obtain ⟨s2c, hs2c⟩ := TimeVal.exists_sub h.toClient
    have hdifference := h.difference
    rw [← (TimeVal.sub_eq_ok.mp hc2s).2, ← (TimeVal.sub_eq_ok.mp hs2c).2] at hdifference
    obtain ⟨diff, hdiff⟩ := TimeVal.exists_sub hdifference
    obtain ⟨-, hlo, hhi⟩ := TimeVal.sub_spec hdiff
    obtain ⟨hmin, hmax⟩ := diff.toMicros_mem hlo hhi
    have hhalf := tdiv_eq_ite diff.toMicros 2
    obtain ⟨offset, hoffset, -⟩ :=
      TimeVal.normalize_fromMicros (diff.toMicros.tdiv 2) (by grind) (by grind)
    exact ⟨offset, by rw [measure, hc2s, ok_bind, hs2c, ok_bind, hdiff, ok_bind, hoffset]⟩

theorem checked_processWireChunk (m : ClientMachine) (wc : WireChunk) (recvTs : TimeVal) :
    Checked (m.processWireChunk wc recvTs) := by
  refine checked_bind (TimeVal.checked_sub _ _) fun _ _ =>
    checked_bind (TimeVal.checked_add _ _) fun _ _ =>
    checked_bind (TimeVal.checked_sub _ _) fun _ _ =>
    checked_bind (TimeVal.checked_sub _ _) fun cmp _ => ?_
  by_cases hlate : cmp.sec.toInt < 0
  · rw [if_pos hlate]
    exact checked_ok _
  · rw [if_neg hlate]
    exact checked_ok _

/-- A chunk is placed in time: the instant it is audible, and how far ahead that is. -/
structure Placed (m : ClientMachine) (wc : WireChunk) (recvTs audibleAt cmp : TimeVal) : Prop where
  audible : audibleAt.span = (((wc.timestamp.span.sub m.clockOffset.span).carry.add
    m.serverBufferMs.span).carry.sub m.localLatency.span).carry
  remaining : cmp.span = (audibleAt.span.sub recvTs.span).carry
  result : m.processWireChunk wc recvTs =
    .ok (if cmp.sec.toInt < 0 then .expired cmp else .wireChunk wc audibleAt)

theorem exists_placed {wc : WireChunk} {recvTs : TimeVal}
    (h : ChunkFits wc.timestamp.span m.clockOffset.span m.serverBufferMs.span
      m.localLatency.span recvTs.span) :
    ∃ audibleAt cmp, m.Placed wc recvTs audibleAt cmp := by
  obtain ⟨hclient, hbuffered, haudible, hremaining⟩ := h
  obtain ⟨tc, htc⟩ := TimeVal.exists_sub hclient
  have htc' := (TimeVal.sub_eq_ok.mp htc).2
  rw [← htc'] at hbuffered haudible hremaining
  obtain ⟨buffered, hbuf⟩ := TimeVal.exists_add hbuffered
  have hbuf' := (TimeVal.add_eq_ok.mp hbuf).2
  rw [← hbuf'] at haudible hremaining
  obtain ⟨audibleAt, haud⟩ := TimeVal.exists_sub haudible
  have haud' := (TimeVal.sub_eq_ok.mp haud).2
  rw [← haud'] at hremaining
  obtain ⟨cmp, hcmp⟩ := TimeVal.exists_sub hremaining
  refine ⟨audibleAt, cmp, by rw [haud', hbuf', htc'], (TimeVal.sub_eq_ok.mp hcmp).2, ?_⟩
  rw [processWireChunk, htc, ok_bind, hbuf, ok_bind, haud, ok_bind, hcmp, ok_bind]
  split <;> rfl

theorem processWireChunk_returns_iff (m : ClientMachine) (wc : WireChunk) (recvTs : TimeVal) :
    (∃ message, m.processWireChunk wc recvTs = .ok message) ↔
      ChunkFits wc.timestamp.span m.clockOffset.span m.serverBufferMs.span m.localLatency.span
        recvTs.span := by
  constructor
  · rintro ⟨message, h⟩
    obtain ⟨tc, htc, h⟩ := bind_eq_ok.mp h
    obtain ⟨buffered, hbuf, h⟩ := bind_eq_ok.mp h
    obtain ⟨audibleAt, haud, h⟩ := bind_eq_ok.mp h
    obtain ⟨cmp, hcmp, -⟩ := bind_eq_ok.mp h
    obtain ⟨hclient, htc⟩ := TimeVal.sub_eq_ok.mp htc
    obtain ⟨hbuffered, hbuf⟩ := TimeVal.add_eq_ok.mp hbuf
    obtain ⟨haudible, haud⟩ := TimeVal.sub_eq_ok.mp haud
    have hremaining := (TimeVal.sub_eq_ok.mp hcmp).1
    rw [haud, hbuf, htc] at hremaining
    rw [hbuf, htc] at haudible
    rw [htc] at hbuffered
    exact ⟨hclient, hbuffered, haudible, hremaining⟩
  · intro h
    obtain ⟨audibleAt, cmp, hplaced⟩ := exists_placed h
    exact ⟨_, hplaced.result⟩

/-- Handling a reply goes as far as its measurement: recording the sample always succeeds. -/
theorem processPacket_time_ok_iff (hm : m.Sized) {base : Base} {payload : List UInt8} {t : Time}
    (hdecode : base.decode json payload = .ok (.time t)) (nowUs : ℤ) :
    (∃ message, (processPacket json m base payload nowUs).1 = .ok message) ↔
      ∃ offset, m.measure base (.fromMicros nowUs) = .ok offset := by
  rw [processPacket, hdecode]
  dsimp only
  rw [processTime]
  cases m.measure base (.fromMicros nowUs) with
  | error fault =>
      refine iff_of_false ?_ ?_
      · rintro ⟨message, h⟩
        cases h
      · rintro ⟨offset, h⟩
        cases h
  | ok offset =>
      obtain ⟨m', hrecord, -⟩ := record_spec hm offset
      rw [ok_bind, hrecord]
      exact iff_of_true ⟨_, rfl⟩ ⟨offset, rfl⟩

theorem checked_processPacket_time (hm : m.Sized) {base : Base} {payload : List UInt8} {t : Time}
    (hdecode : base.decode json payload = .ok (.time t)) (nowUs : ℤ) :
    Checked (processPacket json m base payload nowUs).1 := by
  have hmeasure := checked_measure m base (.fromMicros nowUs)
  rw [processPacket, hdecode]
  dsimp only
  rw [processTime]
  cases h : m.measure base (.fromMicros nowUs) with
  | error fault =>
      obtain rfl := hmeasure fault h
      exact checked_overflow
  | ok offset =>
      obtain ⟨m', hrecord, -⟩ := record_spec hm offset
      rw [ok_bind, hrecord]
      exact checked_ok _

theorem processPacket_wireChunk {base : Base} {payload : List UInt8} {wc : WireChunk}
    (hdecode : base.decode json payload = .ok (.wireChunk wc)) (nowUs : ℤ) :
    processPacket json m base payload nowUs =
      (m.processWireChunk wc (.fromMicros nowUs), m) := by
  rw [processPacket, hdecode]

/-- In every state reached, handling a reply or a chunk overflows exactly when its chain of
integer operations leaves the range. -/
theorem not_overflow_iff (hm : (system json).Reachable m) {base : Base}
    (hframing : m.framing = ⟨.readingPacket base⟩) (payload : List UInt8) {nowUs : ℤ}
    (h0 : 0 ≤ nowUs) (hnow : nowUs < 2147483648000000) :
    (∀ t, base.decode json payload = .ok (.time t) →
      ((m.handleEvent json (.packetReceived payload) nowUs).1 ≠ abort .overflow ↔
        TimeFits base.receivedTv.span m.lastSentTime.span ⟨nowUs / 1000000, nowUs % 1000000⟩
          base.sentTv.span)) ∧
      ∀ wc, base.decode json payload = .ok (.wireChunk wc) →
        ((m.handleEvent json (.packetReceived payload) nowUs).1 ≠ abort .overflow ↔
          ChunkFits wc.timestamp.span m.clockOffset.span m.serverBufferMs.span
            m.localLatency.span ⟨nowUs / 1000000, nowUs % 1000000⟩) := by
  have hspan := TimeVal.span_fromMicros h0 hnow
  have hsized : Sized { m with framing := .new } := (timed_of_reach hm).sized
  rw [handleEvent_packet hframing, ← hspan]
  constructor
  · intro t hdecode
    rw [Ne, (checked_processPacket_time hsized hdecode nowUs).eq_overflow_iff, not_not,
      processPacket_time_ok_iff hsized hdecode, measure_returns_iff]
  · intro wc hdecode
    rw [processPacket_wireChunk hdecode, Ne, (checked_processWireChunk _ _ _).eq_overflow_iff,
      not_not, processWireChunk_returns_iff]

/-- The two calls of a reply received by the server at `receivedUs`, to a request at zero. -/
def replyCalls (receivedUs nowUs : ℤ) : List Call :=
  let frame := Time.frame 0 0 .zero (.fromMicros receivedUs) .zero
  [.handleEvent (.headerReceived frame.header) 0,
    .handleEvent (.packetReceived frame.payload) nowUs]

/-- A machine that has taken in the header of a frame. -/
theorem reachable_pending (hm : (system json).Reachable m) (frame : Frame) :
    (system json).Reachable (m.pending frame.base) := by
  refine .step hm trivial (a := .handleEvent (.headerReceived frame.header) 0) ?_
  exact left_eq_some.mpr (by rw [handleEvent_header]; exact ⟨returns_ok _, rfl⟩)

/-- The frame of a chunk without samples. -/
def emptyChunk (timestamp : TimeVal) : ServerWrite :=
  .wireChunk ⟨timestamp, []⟩ (Nat.zero_le _) 0 .zero

/-- Twenty replies that measure 0 to 19 ms, the settings, and a request at five seconds. -/
def synchronizingCalls : List Call :=
  let settings : ServerWrite := .serverSettings ⟨1000, 30, false, 42⟩ 0 .zero
  ((List.range 20).flatMap fun i => replyCalls (2000 * i) 0) ++
    [.handleEvent (.headerReceived settings.frame.header) 0,
      .handleEvent (.packetReceived settings.frame.payload) 0,
      .pollTransmit 5000000 (List.replicate 34 0)]

/-- A client with a full window, settings and a request on the way can be reached. -/
theorem exists_synchronized :
    ∃ m, (system .compact).Reachable m ∧ m.Synchronized ∧ m.clockOffset = ⟨0, 10000⟩ ∧
      m.serverBufferMs = ⟨0, 1000000⟩ ∧ m.localLatency = ⟨0, 30000⟩ ∧
      m.lastSentTime = ⟨5, 0⟩ := by
  have hrun : (TransitionSystem.run (call .compact) (fun _ _ => true) synchronizingCalls new).any
      (fun m => m.Synchronized ∧ m.clockOffset = ⟨0, 10000⟩ ∧
        m.serverBufferMs = ⟨0, 1000000⟩ ∧ m.localLatency = ⟨0, 30000⟩ ∧
        m.lastSentTime = ⟨5, 0⟩) = true := by
    decide +kernel
  obtain ⟨m, hm, hgoal⟩ := (Option.any_eq_true _ _).mp hrun
  exact ⟨m, (TransitionSystem.reach_of_run (.init rfl) hm).reachable, of_decide_eq_true hgoal⟩

/-- A reply to the request at five seconds. -/
def sampleReply : ServerWrite :=
  .time 3 0 ⟨5, 12000⟩ ⟨5, 11000⟩ ⟨0, 11000⟩

/-- A chunk for 20.25 s. -/
def sampleChunk : ServerWrite :=
  .wireChunk ⟨⟨20, 250000⟩, [1, 2, 3, 4]⟩ (by decide +kernel) 3 ⟨20, 300000⟩

theorem not_overflow_iff_synchronized :
    ∃ m, (system .compact).Reachable m ∧ m.Synchronized ∧ m.clockOffset = ⟨0, 10000⟩ ∧
      m.lastSentTime = ⟨5, 0⟩ ∧
      (((m.pending sampleReply.base).handleEvent .compact (.packetReceived sampleReply.payload)
        5003000).1 ≠ abort .overflow ↔
          TimeFits sampleReply.base.receivedTv.span m.lastSentTime.span ⟨5, 3000⟩
            sampleReply.base.sentTv.span) ∧
      (((m.pending sampleChunk.base).handleEvent .compact (.packetReceived sampleChunk.payload)
        20500000).1 ≠ abort .overflow ↔
          ChunkFits (TimeVal.mk 20 250000).span m.clockOffset.span m.serverBufferMs.span
            m.localLatency.span ⟨20, 500000⟩) := by
  obtain ⟨m, hm, hsync, hoffset, -, -, hlast⟩ := exists_synchronized
  exact ⟨m, hm, hsync, hoffset, hlast,
    (not_overflow_iff (reachable_pending hm sampleReply.frame) rfl _ (by decide) (by decide)).1 _
      (ServerWrite.decode_payload SerdeJson.compact_settingsLaws sampleReply),
    (not_overflow_iff (reachable_pending hm sampleChunk.frame) rfl _ (by decide) (by decide)).2 _
      (ServerWrite.decode_payload SerdeJson.compact_settingsLaws sampleChunk)⟩

/-- A chunk stamped with the least `i32` second overflows a fresh machine. -/
theorem overflow_least_second :
    ¬ ∀ (m : ClientMachine) (base : Base) (payload : List UInt8) (wc : WireChunk) (nowUs : ℤ),
      (system .compact).Reachable m → m.framing = ⟨.readingPacket base⟩ →
      base.decode .compact payload = .ok (.wireChunk wc) → 0 ≤ nowUs →
      nowUs ≤ 2147483647000000 →
      (m.handleEvent .compact (.packetReceived payload) nowUs).1 ≠ abort .overflow := by
  intro hall
  let w := emptyChunk ⟨-2147483648, 0⟩
  have hsafe := hall (new.pending w.base) w.base w.payload _ 0
    (reachable_pending (.init rfl) w.frame) rfl
    (ServerWrite.decode_payload SerdeJson.compact_settingsLaws w) le_rfl (by decide)
  revert hsafe
  decide +kernel

end ClientMachine

end SnapcastClient
