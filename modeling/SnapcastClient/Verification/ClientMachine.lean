import SnapcastClient.Model.ClientMachine
import SnapcastClient.Verification.CircularBuffer
import SnapcastClient.Verification.Framing
import SnapcastClient.Verification.TimeVal

/-! # What one call of the client machine does -/

namespace SnapcastClient

namespace ClientMachine

/-! ## Requests -/

/-- The machine after it emitted a request. -/
def requested (m : ClientMachine) (nowUs : ℤ) : ClientMachine :=
  { m with
    lastSentTime := TimeVal.fromMicros nowUs, lastTimeSentUs := nowUs, pktId := m.pktId + 1 }

theorem pollTransmit_of_due {m : ClientMachine} {nowUs : ℤ} (hdue : m.Due nowUs)
    (out : List UInt8) (hout : Time.wireSize ≤ out.length) :
    m.pollTransmit nowUs out =
      .ok (some Time.wireSize,
        (Time.frame m.pktId 0 (.fromMicros nowUs) (.fromMicros nowUs) (.fromMicros nowUs)).bytes ++
          out.drop Time.wireSize, m.requested nowUs) := by
  simp only [pollTransmit, hdue, if_true, Time.write_eq out hout, ok_bind]
  rfl

theorem pollTransmit_of_not_due {m : ClientMachine} {nowUs : ℤ} (hdue : ¬ m.Due nowUs)
    (out : List UInt8) : m.pollTransmit nowUs out = .ok (none, out, m) := by
  simp [pollTransmit, hdue]

/-- Requests are at least a millisecond apart. -/
theorem Due.le_sub {m : ClientMachine} {nowUs : ℤ} (h : m.Due nowUs) :
    1000 ≤ nowUs - m.lastTimeSentUs := by
  rcases h with ⟨-, h⟩ | h <;> omega

/-! ## Samples -/

theorem measure_spec {m : ClientMachine} {base : Base} {recvTs offset : TimeVal}
    (h : m.measure base recvTs = .ok offset) :
    offset.Canonical ∧ offset.toMicros =
      (base.receivedTv.toMicros - m.lastSentTime.toMicros -
        (recvTs.toMicros - base.sentTv.toMicros)).tdiv 2 := by
  obtain ⟨c2s, hc2s, h⟩ := bind_eq_ok.mp h
  obtain ⟨s2c, hs2c, h⟩ := bind_eq_ok.mp h
  obtain ⟨diff, hdiff, h⟩ := bind_eq_ok.mp h
  obtain ⟨hc2s, -, -⟩ := TimeVal.sub_spec hc2s
  obtain ⟨hs2c, -, -⟩ := TimeVal.sub_spec hs2c
  obtain ⟨hdiff, hlo, hhi⟩ := TimeVal.sub_spec hdiff
  obtain ⟨hmin, hmax⟩ := diff.toMicros_mem hlo hhi
  have hhalf := tdiv_eq_ite diff.toMicros 2
  obtain ⟨r, hr, hmicros, hcanonical⟩ :=
    TimeVal.normalize_fromMicros (diff.toMicros.tdiv 2) (by grind) (by grind)
  obtain rfl : r = offset := Except.ok.inj (hr.symm.trans h)
  exact ⟨hcanonical, by rw [hmicros, hdiff, hc2s, hs2c]⟩

/-- Readings below `2 ^ 29` seconds never overflow the measurement. -/
theorem measure_returns (m : ClientMachine) (base : Base) {received last sent now : ℤ}
    (hreceivedTv : base.receivedTv = .fromMicros received)
    (hlastSent : m.lastSentTime = .fromMicros last) (hsentTv : base.sentTv = .fromMicros sent)
    (hreceived : TimeVal.InClock received) (hlast : TimeVal.InClock last)
    (hsent : TimeVal.InClock sent) (hnow : TimeVal.InClock now) :
    ∃ offset, m.measure base (.fromMicros now) = .ok offset := by
  obtain ⟨c2s, hc2s⟩ := TimeVal.sub_fromMicros_returns hreceived hlast
  obtain ⟨s2c, hs2c⟩ := TimeVal.sub_fromMicros_returns hnow hsent
  obtain ⟨hc2sMicros, hc2sLo, hc2sHi⟩ := TimeVal.sub_spec hc2s
  obtain ⟨hs2cMicros, hs2cLo, hs2cHi⟩ := TimeVal.sub_spec hs2c
  rw [hreceived.toMicros_eq, hlast.toMicros_eq] at hc2sMicros
  rw [hnow.toMicros_eq, hsent.toMicros_eq] at hs2cMicros
  have hdiffMicros : c2s.toMicros - s2c.toMicros = (received - last) - (now - sent) := by
    rw [hc2sMicros, hs2cMicros]
  rw [TimeVal.toMicros] at hc2sMicros hs2cMicros
  obtain ⟨hreceivedLo, hreceivedHi⟩ := hreceived
  obtain ⟨hlastLo, hlastHi⟩ := hlast
  obtain ⟨hsentLo, hsentHi⟩ := hsent
  obtain ⟨hnowLo, hnowHi⟩ := hnow
  obtain ⟨diff, hdiff⟩ := TimeVal.sub_returns (x := c2s) (y := s2c) (by omega) (by omega)
    (by omega) (by omega)
  obtain ⟨-, hlo, hhi⟩ := TimeVal.sub_spec hdiff
  obtain ⟨hmin, hmax⟩ := diff.toMicros_mem hlo hhi
  have hhalf := tdiv_eq_ite diff.toMicros 2
  obtain ⟨offset, hoffset, -⟩ :=
    TimeVal.normalize_fromMicros (diff.toMicros.tdiv 2) (by grind) (by grind)
  refine ⟨offset, ?_⟩
  rw [measure, hreceivedTv, hlastSent, hsentTv, hc2s, ok_bind, hs2c, ok_bind, hdiff, ok_bind,
    hoffset]

theorem storeFront_eq {tvs buf : List TimeVal} (h : tvs.length ≤ buf.length) :
    storeFront tvs buf = .ok (tvs ++ buf.drop tvs.length) := by
  induction tvs generalizing buf with
  | nil => rfl
  | cons tv tvs ih =>
      match buf, h with
      | _ :: buf, h =>
        rw [storeFront, ih (by simpa using h)]
        rfl

/-- The scratch buffer has one slot for each sample of a full window. -/
def Sized (m : ClientMachine) : Prop :=
  m.sortedLatencyBuf.length = latencySamples

/-- The scratch buffer after a sample: the window over its front, all of it sorted. -/
def scratch (m : ClientMachine) (offset : TimeVal) : List TimeVal :=
  ((m.latencyBuf.pushBack offset).items ++
    m.sortedLatencyBuf.drop (m.latencyBuf.pushBack offset).len).insertionSort (· ≤ ·)

theorem scratch_length {m : ClientMachine} (hsized : m.Sized) (offset : TimeVal) :
    (m.scratch offset).length = latencySamples := by
  have hbounded := (m.latencyBuf.pushBack offset).bounded
  rw [Sized] at hsized
  rw [scratch, List.length_insertionSort, List.length_append, List.length_drop, hsized,
    CircularBuffer.len]
  omega

/-- The median is taken at the middle of the upper end of the scratch buffer. -/
theorem record_eq {m : ClientMachine} (hsized : m.Sized) (offset : TimeVal) :
    ∃ median, m.record offset = .ok { m with
        latencyBuf := m.latencyBuf.pushBack offset, sortedLatencyBuf := m.scratch offset,
        clockOffset := median } ∧
      (m.scratch offset)[latencySamples - (m.latencyBuf.pushBack offset).len +
        (m.latencyBuf.pushBack offset).len / 2]? = some median := by
  have hlength := scratch_length hsized offset
  rw [Sized] at hsized
  set window := m.latencyBuf.pushBack offset with hwindow
  have hbounded : window.len ≤ latencySamples := window.bounded
  have hpos : 0 < window.len := by
    simp only [hwindow, CircularBuffer.len, CircularBuffer.pushBack, List.rtake, List.length_drop,
      List.length_append, List.length_singleton, latencySamples]
    omega
  have hstore : storeFront window.items m.sortedLatencyBuf =
      .ok (window.items ++ m.sortedLatencyBuf.drop window.len) :=
    storeFront_eq (hbounded.trans_eq hsized.symm)
  have hnot : ¬ (m.scratch offset).length < window.len := by omega
  have hdrop : ((m.scratch offset).drop (latencySamples - window.len)).length = window.len := by
    rw [List.length_drop, hlength]
    omega
  obtain ⟨median, hmedian⟩ :
      ∃ median, (m.scratch offset)[latencySamples - window.len + window.len / 2]? =
        some median := by
    refine ⟨_, List.getElem?_eq_getElem ?_⟩
    rw [hlength]
    omega
  refine ⟨median, ?_, hmedian⟩
  have hinto : recordInto (CircularBuffer.ring latencySamples TimeVal) m.latencyBuf
      m.sortedLatencyBuf offset = .ok (window, m.scratch offset, median) := by
    rw [← List.getElem?_drop] at hmedian
    simp only [recordInto, CircularBuffer.ring, ← hwindow, hstore, ok_bind]
    change (if (m.scratch offset).length < window.len then _ else _) = _
    rw [if_neg hnot]
    have hget : ((m.scratch offset).drop ((m.scratch offset).length - window.len))[
        ((m.scratch offset).drop ((m.scratch offset).length - window.len)).length / 2]? =
          some median := by
      rw [hlength, hdrop, hmedian]
    split
    · rename_i median' hmedian'
      obtain rfl := Option.some.inj (hget.symm.trans hmedian')
      rfl
    · rename_i hnone
      exact absurd hget (hnone median)
  rw [record, hinto]
  rfl

/-- What pushing a sample changes. -/
structure Recorded (m : ClientMachine) (offset : TimeVal) (m' : ClientMachine) : Prop where
  latencyBuf : m'.latencyBuf = m.latencyBuf.pushBack offset
  sized : m'.sortedLatencyBuf.length = m.sortedLatencyBuf.length
  median : m'.Synchronized →
    (m'.latencyBuf.items.insertionSort (· ≤ ·))[m'.latencyBuf.len / 2]? = some m'.clockOffset
  unchanged : m' = { m with
    latencyBuf := m'.latencyBuf, sortedLatencyBuf := m'.sortedLatencyBuf,
    clockOffset := m'.clockOffset }

theorem record_spec {m : ClientMachine} (hsized : m.Sized) (offset : TimeVal) :
    ∃ m', m.record offset = .ok m' ∧ m.Recorded offset m' := by
  have hlength := scratch_length hsized offset
  obtain ⟨median, hrecord, hmedian⟩ := record_eq hsized offset
  refine ⟨_, hrecord, rfl, hlength.trans hsized.symm, ?_, rfl⟩
  intro hsync
  have hfull : (m.latencyBuf.pushBack offset).len = latencySamples := hsync.trans hlength
  have hitems : m.scratch offset =
      (m.latencyBuf.pushBack offset).items.insertionSort (· ≤ ·) := by
    rw [scratch, List.drop_of_length_le (hsized.trans hfull.symm).le, List.append_nil]
  rw [Nat.sub_eq_zero_of_le hfull.ge, Nat.zero_add, hitems] at hmedian
  exact hmedian

/-! ## Other buffers of samples -/

section Ring

variable {ring : RingBuffer latencySamples TimeVal} (h : ring.Laws)

/-- Samples recorded one after the other. -/
def recordAll (ring : RingBuffer latencySamples TimeVal) :
    List TimeVal → ring.Carrier × List TimeVal × TimeVal →
      Outcome (ring.Carrier × List TimeVal × TimeVal)
  | [], buffers => .ok buffers
  | offset :: samples, buffers =>
      recordInto ring buffers.1 buffers.2.1 offset >>= recordAll ring samples

/-- The buffers with the samples listed. -/
def viewed (buffers : ring.Carrier × List TimeVal × TimeVal) :
    (CircularBuffer.ring latencySamples TimeVal).Carrier × List TimeVal × TimeVal :=
  (h.view buffers.1, buffers.2)

/-- Any buffer that behaves as documented takes in a sample as the listed one does. -/
theorem recordInto_map_viewed (b : ring.Carrier) (scratch : List TimeVal) (offset : TimeVal) :
    (recordInto ring b scratch offset).map (viewed h) =
      recordInto (CircularBuffer.ring latencySamples TimeVal) (h.view b) scratch offset := by
  simp only [recordInto, CircularBuffer.ring, ← h.view_pushBack, h.view_items, h.view_len]
  cases storeFront (ring.iter (ring.pushBack b offset)) scratch with
  | error fault => rfl
  | ok stored =>
      rw [ok_bind, ok_bind]
      split_ifs
      · rfl
      · cases ((stored.insertionSort (· ≤ ·)).drop _)[(_ : ℕ)]? <;> rfl

/-- And any number of samples. -/
theorem recordAll_map_viewed (samples : List TimeVal)
    (buffers : ring.Carrier × List TimeVal × TimeVal) :
    (recordAll ring samples buffers).map (viewed h) =
      recordAll (CircularBuffer.ring latencySamples TimeVal) samples (viewed h buffers) := by
  induction samples generalizing buffers with
  | nil => rfl
  | cons offset samples ih =>
      have hfirst := recordInto_map_viewed h buffers.1 buffers.2.1 offset
      rw [recordAll, recordAll, viewed, ← hfirst]
      cases recordInto ring buffers.1 buffers.2.1 offset with
      | error fault => rfl
      | ok buffers' => exact ih buffers'

end Ring

/-! ## Settings and chunks -/

theorem processSettings_spec {m m' : ClientMachine} {st : ServerSettings}
    (h : m.processSettings st = .ok m') :
    m'.serverBufferMs.toMicros = st.bufferMs.toInt32.toInt * 1000 ∧
      m'.localLatency.toMicros = st.latency.toInt32.toInt * 1000 ∧
      m' = { m with serverBufferMs := m'.serverBufferMs, localLatency := m'.localLatency } := by
  obtain ⟨buffer, hbuffer, h⟩ := bind_eq_ok.mp h
  obtain ⟨latency, hlatency, h⟩ := bind_eq_ok.mp h
  obtain rfl := Except.ok.inj h
  exact ⟨TimeVal.fromMillis_spec hbuffer, TimeVal.fromMillis_spec hlatency, rfl⟩

/-- The instant a chunk is audible, exactly, on the client clock. -/
theorem processWireChunk_spec {m : ClientMachine} {wc wc' : WireChunk} {recvTs audibleAt : TimeVal}
    (h : m.processWireChunk wc recvTs = .ok (.wireChunk wc' audibleAt)) :
    wc' = wc ∧ audibleAt.toMicros = wc.timestamp.toMicros - m.clockOffset.toMicros +
      m.serverBufferMs.toMicros - m.localLatency.toMicros := by
  obtain ⟨tc, htc, h⟩ := bind_eq_ok.mp h
  obtain ⟨buffered, hbuffered, h⟩ := bind_eq_ok.mp h
  obtain ⟨audible, haudible, h⟩ := bind_eq_ok.mp h
  obtain ⟨cmp, -, h⟩ := bind_eq_ok.mp h
  by_cases hlate : cmp.sec.toInt < 0
  · rw [if_pos hlate] at h
    cases h
  · rw [if_neg hlate] at h
    obtain ⟨rfl, rfl⟩ := Message.wireChunk.inj (Except.ok.inj h)
    refine ⟨rfl, ?_⟩
    rw [(TimeVal.sub_spec haudible).1, (TimeVal.add_spec hbuffered).1, (TimeVal.sub_spec htc).1]

/-! ## Events -/

/-- The machine between the two halves of a frame. -/
def pending (m : ClientMachine) (base : Base) : ClientMachine :=
  { m with framing := ⟨.readingPacket base⟩ }

theorem handleEvent_header (json : SerdeJson) (m : ClientMachine) (frame : Frame) (nowUs : ℤ) :
    m.handleEvent json (.headerReceived frame.header) nowUs =
      (.ok .nothing, m.pending frame.base) := by
  rw [handleEvent, m.framing.onHeader_frame]
  rfl

variable {json : SerdeJson}

theorem handleEvent_packet {m : ClientMachine} {base : Base}
    (hm : m.framing = ⟨.readingPacket base⟩) (payload : List UInt8) (nowUs : ℤ) :
    m.handleEvent json (.packetReceived payload) nowUs =
      processPacket json { m with framing := .new } base payload nowUs := by
  rw [handleEvent, hm]
  rfl

/-- Handling a `Time` payload measures and records a sample. -/
theorem processPacket_time {m : ClientMachine} {base : Base} (hbase : base.mtype = .time)
    (latency : TimeVal) (nowUs : ℤ) :
    processPacket json m base latency.asBuf nowUs =
      match m.processTime base (.fromMicros nowUs) with
      | .error fault => (.error fault, m)
      | .ok m' => (.ok .nothing, m') := by
  have hdecode : base.decode json latency.asBuf = .ok (.time ⟨latency⟩) := by
    rw [Base.decode, hbase, Time.tryFrom_asBuf]
    rfl
  cases htime : m.processTime base (.fromMicros nowUs) <;>
    simp only [processPacket, hdecode, htime]

/-! ## The framing across calls -/

theorem pollTransmit_framing {m m' : ClientMachine} {nowUs : ℤ} {out out' : List UInt8}
    {n : Option ℕ} (h : m.pollTransmit nowUs out = .ok (n, out', m')) :
    m'.framing = m.framing := by
  rw [pollTransmit] at h
  split at h
  · obtain ⟨_, -, h⟩ := bind_eq_ok.mp h
    obtain ⟨-, h⟩ := Prod.mk.inj (Except.ok.inj h)
    obtain ⟨-, rfl⟩ := Prod.mk.inj h
    rfl
  · obtain ⟨-, h⟩ := Prod.mk.inj (Except.ok.inj h)
    obtain ⟨-, rfl⟩ := Prod.mk.inj h
    rfl

theorem record_framing {m m' : ClientMachine} {offset : TimeVal} (h : m.record offset = .ok m') :
    m'.framing = m.framing := by
  obtain ⟨buffers, -, h⟩ := bind_eq_ok.mp h
  obtain rfl := Except.ok.inj h
  rfl

theorem processPacket_framing (m : ClientMachine) (base : Base) (payload : List UInt8)
    (nowUs : ℤ) : (processPacket json m base payload nowUs).2.framing = m.framing := by
  rw [processPacket]
  split
  · rfl
  · split
    · rfl
    · rename_i htime
      obtain ⟨offset, -, hrecord⟩ := bind_eq_ok.mp htime
      exact record_framing hrecord
  · rfl
  · split
    · rfl
    · rename_i hsettings
      rw [(processSettings_spec hsettings).2.2]
  · rfl

/-- However its payload is handled, a packet ends at a frame boundary. -/
theorem handleEvent_packet_framing {m : ClientMachine} {base : Base}
    (hm : m.framing = ⟨.readingPacket base⟩) (payload : List UInt8) (nowUs : ℤ) :
    (m.handleEvent json (.packetReceived payload) nowUs).2.framing = .new := by
  rw [handleEvent_packet hm, processPacket_framing]

/-! ## Payloads of other types -/

/-- What a payload that is not a `Time` message leaves alone. -/
structure KeepsClock (m m' : ClientMachine) : Prop where
  latencyBuf : m'.latencyBuf = m.latencyBuf
  sorted : m'.sortedLatencyBuf = m.sortedLatencyBuf
  clockOffset : m'.clockOffset = m.clockOffset
  lastSentTime : m'.lastSentTime = m.lastSentTime
  lastTimeSentUs : m'.lastTimeSentUs = m.lastTimeSentUs
  framing : m'.framing = m.framing

theorem decode_ne_time {base : Base} (hbase : base.mtype ≠ .time) (payload : List UInt8)
    (t : Time) : base.decode json payload ≠ .ok (.time t) := by
  intro h
  rw [Base.decode] at h
  split at h
  · obtain ⟨_, -, h⟩ := map_eq_ok.mp h
    cases h
  · obtain ⟨_, -, h⟩ := map_eq_ok.mp h
    cases h
  · obtain ⟨_, -, h⟩ := map_eq_ok.mp h
    cases h
  · rename_i htime
    exact hbase htime
  · cases h

/-- What handling a frame of another type returns and changes. -/
theorem processPacket_other {m m' : ClientMachine} {base : Base} (hbase : base.mtype ≠ .time)
    {payload : List UInt8} {nowUs : ℤ} {message : Message}
    (h : processPacket json m base payload nowUs = (.ok message, m')) :
    m.KeepsClock m' ∧
      ((∃ st, message.settings = some st ∧ m.processSettings st = .ok m') ∨
        message.settings = none ∧ m' = m) := by
  have hkeep : m.KeepsClock m := ⟨rfl, rfl, rfl, rfl, rfl, rfl⟩
  rw [processPacket] at h
  split at h
  · cases h
  · rename_i t hdecode
    exact absurd hdecode (decode_ne_time hbase payload t)
  · rename_i wc hdecode
    obtain ⟨hmessage, rfl⟩ := Prod.mk.inj h
    refine ⟨hkeep, .inr ⟨?_, rfl⟩⟩
    obtain ⟨tc, -, h⟩ := bind_eq_ok.mp hmessage
    obtain ⟨buffered, -, h⟩ := bind_eq_ok.mp h
    obtain ⟨audible, -, h⟩ := bind_eq_ok.mp h
    obtain ⟨cmp, -, h⟩ := bind_eq_ok.mp h
    split at h <;> obtain rfl := Except.ok.inj h <;> rfl
  · rename_i st hdecode
    split at h
    · cases h
    · rename_i m₁ hsettings
      obtain ⟨hmessage, rfl⟩ := Prod.mk.inj h
      obtain rfl := Except.ok.inj hmessage
      have hunchanged := (processSettings_spec hsettings).2.2
      exact ⟨by rw [hunchanged]; exact ⟨rfl, rfl, rfl, rfl, rfl, rfl⟩, .inl ⟨st, rfl, hsettings⟩⟩
  · obtain ⟨hmessage, rfl⟩ := Prod.mk.inj h
    obtain rfl := Except.ok.inj hmessage
    exact ⟨hkeep, .inr ⟨rfl, rfl⟩⟩

end ClientMachine

end SnapcastClient
