import SnapcastClient.Model.ClientStream
import SnapcastClient.Verification.ClientRun
import SnapcastClient.Verification.Decode
import SnapcastClient.Verification.Overflow

/-! # Rejected frames leave no trace

The header of a frame is consumed before its packet is known to be good. A packet that ends in
an `Err` leaves everything but the framing alone, and the framing where the header found it. -/

namespace SnapcastClient

theorem Checked.infallible {α : Type} {x : Outcome α} (h : Checked x) : Infallible x := by
  intro message hx
  cases h _ hx

/-! ## Which packets are rejected -/

theorem Time.tryFrom_eq_bail_iff (buf : List UInt8) :
    (∃ message, tryFrom buf = bail message) ↔ buf.length < 8 := by
  by_cases hlen : 8 ≤ buf.length
  · refine iff_of_false ?_ (by omega)
    obtain ⟨s, tv, hs, htv⟩ := exists_timeVal buf 0 hlen
    rw [tryFrom, ensure_of _ hlen, ok_bind, hs, ok_bind, htv]
    rintro ⟨message, h⟩
    cases h
  · rw [tryFrom, ensure_of_not _ hlen]
    exact iff_of_true ⟨_, rfl⟩ (by omega)

theorem map_eq_bail_iff {α β : Type} {x : Outcome α} {f : α → β} :
    (∃ message, f <$> x = bail message) ↔ ∃ message, x = bail message := by
  cases x with
  | ok a =>
      constructor
      · rintro ⟨message, h⟩
        cases h
      · rintro ⟨message, h⟩
        cases h
  | error fault =>
      constructor
      · rintro ⟨message, h⟩
        exact ⟨message, congrArg Except.error (Except.error.inj h)⟩
      · rintro ⟨message, h⟩
        exact ⟨message, congrArg Except.error (Except.error.inj h)⟩

theorem Infallible.not_bail {α : Type} {x : Outcome α} (h : Infallible x) :
    ¬ ∃ message, x = bail message := by
  rintro ⟨message, hx⟩
  exact h message hx

theorem Base.decode_eq_bail_iff (json : SerdeJson) (b : Base) (payload : List UInt8) :
    (∃ message, b.decode json payload = bail message) ↔ b.Rejects payload := by
  obtain ⟨mtype, id, refersTo, sentTv, receivedTv, size⟩ := b
  cases mtype with
  | codecHeader =>
      have hnot := (infallible_map ServerMessage.codecHeader
        (CodecHeader.infallible_ofSlice payload)).not_bail
      exact iff_of_false hnot (by simp [Rejects, MessageType.served])
  | serverSettings =>
      have hnot := (infallible_map ServerMessage.serverSettings
        (ServerSettings.infallible_ofSlice json payload)).not_bail
      exact iff_of_false hnot (by simp [Rejects, MessageType.served])
  | wireChunk =>
      have hnot := (infallible_map ServerMessage.wireChunk
        (WireChunk.infallible_ofSlice payload)).not_bail
      exact iff_of_false hnot (by simp [Rejects, MessageType.served])
  | time =>
      have hrejects : Rejects ⟨.time, id, refersTo, sentTv, receivedTv, size⟩ payload ↔
          payload.length < 8 := by
        simp [Rejects, MessageType.served]
      rw [hrejects, ← Time.tryFrom_eq_bail_iff]
      exact map_eq_bail_iff
  | base => exact iff_of_true ⟨_, rfl⟩ (.inl (by simp [MessageType.served]))
  | hello => exact iff_of_true ⟨_, rfl⟩ (.inl (by simp [MessageType.served]))
  | streamTags => exact iff_of_true ⟨_, rfl⟩ (.inl (by simp [MessageType.served]))
  | clientInfo => exact iff_of_true ⟨_, rfl⟩ (.inl (by simp [MessageType.served]))

namespace ClientMachine

variable {json : SerdeJson} {m m' : ClientMachine}

theorem infallible_storeFront (tvs buf : List TimeVal) : Infallible (storeFront tvs buf) := by
  induction tvs generalizing buf with
  | nil => exact infallible_ok _
  | cons tv tvs ih =>
      cases buf with
      | nil => exact infallible_abort _
      | cons t buf => exact infallible_bind (ih buf) fun _ => infallible_ok _

theorem infallible_recordInto (ring : RingBuffer latencySamples TimeVal) (b : ring.Carrier)
    (scratch : List TimeVal) (offset : TimeVal) :
    Infallible (recordInto ring b scratch offset) := by
  refine infallible_bind (infallible_storeFront _ _) fun stored => ?_
  dsimp only
  split
  · exact infallible_abort _
  · split
    · exact infallible_ok _
    · exact infallible_abort _

theorem infallible_record (m : ClientMachine) (offset : TimeVal) :
    Infallible (m.record offset) :=
  infallible_bind (infallible_recordInto _ _ _ _) fun _ => infallible_ok _

theorem infallible_processTime (m : ClientMachine) (base : Base) (recvTs : TimeVal) :
    Infallible (m.processTime base recvTs) :=
  infallible_bind (checked_measure m base recvTs).infallible fun _ => infallible_record m _

theorem checked_processSettings (m : ClientMachine) (st : ServerSettings) :
    Checked (m.processSettings st) :=
  checked_bind (TimeVal.checked_fromMillis _) fun _ _ =>
    checked_bind (TimeVal.checked_fromMillis _) fun _ _ => checked_ok _

/-- A packet is answered by an `Err` exactly when its payload is not decoded. -/
theorem processPacket_bail_iff (json : SerdeJson) (m : ClientMachine) (base : Base)
    (payload : List UInt8) (nowUs : ℤ) :
    (∃ message, (processPacket json m base payload nowUs).1 = bail message) ↔
      base.Rejects payload := by
  rw [← base.decode_eq_bail_iff json, processPacket]
  cases base.decode json payload with
  | error fault =>
      constructor
      · rintro ⟨message, h⟩
        exact ⟨message, congrArg Except.error (Except.error.inj h)⟩
      · rintro ⟨message, h⟩
        exact ⟨message, congrArg Except.error (Except.error.inj h)⟩
  | ok message =>
      refine iff_of_false ?_ (by rintro ⟨_, ⟨⟩⟩)
      cases message with
      | time t =>
          have hnot := infallible_processTime m base (.fromMicros nowUs)
          dsimp only
          cases htime : m.processTime base (.fromMicros nowUs) with
          | ok m' => rintro ⟨_, ⟨⟩⟩
          | error fault =>
              rintro ⟨message, h⟩
              exact hnot message (htime.trans (congrArg Except.error (Except.error.inj h)))
      | wireChunk wc => exact (checked_processWireChunk m wc _).infallible.not_bail
      | serverSettings st =>
          have hnot := (checked_processSettings m st).infallible
          dsimp only
          cases hsettings : m.processSettings st with
          | ok m' => rintro ⟨_, ⟨⟩⟩
          | error fault =>
              rintro ⟨message, h⟩
              exact hnot message (hsettings.trans (congrArg Except.error (Except.error.inj h)))
      | codecHeader ch => rintro ⟨_, ⟨⟩⟩

theorem processPacket_of_rejects (json : SerdeJson) (m : ClientMachine) {base : Base}
    {payload : List UInt8} (h : base.Rejects payload) (nowUs : ℤ) :
    ∃ message, processPacket json m base payload nowUs = (bail message, m) := by
  obtain ⟨message, hdecode⟩ := (base.decode_eq_bail_iff json payload).mpr h
  refine ⟨message, ?_⟩
  rw [processPacket, hdecode]
  rfl

/-! ## One frame -/

theorem handleEvent_header_bail {header : List UInt8} {nowUs : ℤ} {message : String}
    (h : (m.handleEvent json (.headerReceived header) nowUs).1 = bail message) :
    (m.handleEvent json (.headerReceived header) nowUs).2 = m := by
  rw [handleEvent] at h ⊢
  split at h
  · rfl
  · cases h

theorem handleEvent_header_ok (json : SerdeJson) (m : ClientMachine) {header : List UInt8}
    {base : Base} (h : Base.tryFrom header = .ok base) (nowUs : ℤ) :
    m.handleEvent json (.headerReceived header) nowUs = (.ok .nothing, m.pending base) := by
  rw [handleEvent, Framing.onHeader, h]
  rfl

theorem handleEvent_pending (json : SerdeJson) (hm : m.framing = .new) (base : Base)
    (payload : List UInt8) (nowUs : ℤ) :
    (m.pending base).handleEvent json (.packetReceived payload) nowUs =
      processPacket json m base payload nowUs := by
  rw [handleEvent_packet rfl]
  obtain ⟨framing⟩ := m
  obtain rfl : framing = .new := hm
  rfl

/-! ## Polls between a header and its packet -/

theorem servePoll_pending (base : Base) (m : ClientMachine) (poll : Poll) :
    (m.pending base).servePoll poll = (m.servePoll poll).map fun m' => m'.pending base := by
  have hdue : (m.pending base).Due poll.nowUs ↔ m.Due poll.nowUs := Iff.rfl
  rw [servePoll, servePoll]
  by_cases h : m.Due poll.nowUs
  · rw [pollTransmit, if_pos (hdue.mpr h), pollTransmit, if_pos h]
    dsimp only [pending]
    cases Time.write poll.out m.pktId 0 (.fromMicros poll.nowUs) (.fromMicros poll.nowUs)
        (.fromMicros poll.nowUs) <;> rfl
  · rw [pollTransmit_of_not_due (hdue.not.mpr h), pollTransmit_of_not_due h]
    rfl

theorem servePoll_framing {poll : Poll} (hm : m.framing = .new)
    (h : (m.servePoll poll).left = some m') : m'.framing = .new := by
  rw [servePoll] at h
  split at h
  · rename_i hpoll
    obtain rfl := Option.some.inj h
    rw [pollTransmit_framing hpoll, hm]
  · cases h

/-- What is heard is no rejection. -/
def accepted (reply : Heard) : Bool :=
  !reply.isRejection

theorem servePoll_filter (m : ClientMachine) (poll : Poll) :
    (m.servePoll poll).filter accepted = m.servePoll poll := by
  rw [servePoll]
  split <;> rfl

theorem runPolls_framing {polls : List Poll} (hm : m.framing = .new)
    (h : (Transcript.run servePoll m polls).left = some m') : m'.framing = .new :=
  Transcript.run_invariant (I := fun m => m.framing = .new)
    (fun _ _ _ hm h => servePoll_framing hm h) hm h

/-- A frame is served by its polls, then by its packet. -/
theorem serve_frame (json : SerdeJson) (hm : m.framing = .new) (frame : Frame) (headerUs : ℤ)
    (polls : List Poll) (packetUs : ℤ) :
    m.serve json (.frame frame headerUs polls packetUs) =
      (Transcript.run servePoll m polls).andThen fun m' =>
        let x := processPacket json m' frame.base frame.payload packetUs
        ⟨[.packet x.1], left x⟩ := by
  have hpolls := Transcript.run_view (servePoll_pending frame.base) m polls
  rw [serve, handleEvent_header]
  change (Transcript.run servePoll (m.pending frame.base) polls).andThen _ = _
  rw [hpolls, Transcript.map_andThen]
  refine Transcript.andThen_congr fun m' hm' => ?_
  rw [handleEvent_pending json (runPolls_framing hm hm')]

/-- After any entry the machine waits for a header again. -/
theorem serve_framing {entry : StreamEntry} (hm : m.framing = .new)
    (h : (m.serve json entry).left = some m') : m'.framing = .new := by
  cases entry with
  | poll poll => exact servePoll_framing hm h
  | refused header refused nowUs =>
      obtain ⟨-, rfl⟩ := left_eq_some.mp h
      rw [handleEvent]
      split
      · exact hm
      · rename_i hheader
        obtain ⟨base, hbase, -⟩ := bind_eq_ok.mp hheader
        exact absurd hbase (refused base)
  | frame frame headerUs polls packetUs =>
      rw [serve_frame json hm] at h
      have hpolls (m₁ : ClientMachine) (hm₁ : (Transcript.run servePoll m polls).left = some m₁) :
          m₁.framing = .new := runPolls_framing hm hm₁
      generalize Transcript.run servePoll m polls = t at h hpolls
      obtain ⟨replies, _ | m₁⟩ := t
      · cases h
      · obtain ⟨-, rfl⟩ := left_eq_some.mp h
        rw [processPacket_framing]
        exact hpolls m₁ rfl

/-- What is kept of an entry is heard as the entry is, rejections apart. -/
theorem run_keep (hm : m.framing = .new) (entry : StreamEntry) :
    Transcript.run (serve json) m entry.keep = (m.serve json entry).filter accepted := by
  cases entry with
  | poll poll =>
      rw [StreamEntry.keep, Transcript.run_singleton]
      exact (servePoll_filter m poll).symm
  | refused header refused nowUs =>
      rw [StreamEntry.keep, Transcript.run_singleton]
      rfl
  | frame frame headerUs polls packetUs =>
      rw [StreamEntry.keep, serve_frame json hm, Transcript.filter_andThen,
        Transcript.run_filter_eq_self servePoll_filter]
      split
      · rename_i hrejects
        rw [Transcript.run_map, ← Transcript.andThen_silent (t := Transcript.run _ m polls)]
        refine Transcript.andThen_congr fun m' _ => ?_
        obtain ⟨message, hpacket⟩ := processPacket_of_rejects json m' hrejects packetUs
        rw [hpacket]
        rfl
      · rename_i hrejects
        rw [Transcript.run_singleton, serve_frame json hm]
        refine Transcript.andThen_congr fun m' _ => ?_
        have hnot := (processPacket_bail_iff json m' frame.base frame.payload packetUs).not.mpr
          hrejects
        dsimp only
        generalize processPacket json m' frame.base frame.payload packetUs = x at hnot
        obtain ⟨result, m''⟩ := x
        cases result with
        | ok message => rfl
        | error fault =>
            cases fault with
            | error message => exact absurd ⟨message, rfl⟩ hnot
            | panicked reason => rfl

/-- A refused header and a frame with a rejected packet leave the machine as it was, and without
its rejected frames a stream is heard as before, but for the rejections. -/
theorem rejected_no_trace (json : SerdeJson) {m : ClientMachine} (hm : m.framing = .new) :
    (∀ header nowUs message,
      (m.handleEvent json (.headerReceived header) nowUs).1 = bail message →
        (m.handleEvent json (.headerReceived header) nowUs).2 = m) ∧
      (∀ header base headerUs payload packetUs, Base.tryFrom header = .ok base →
        let pending := (m.handleEvent json (.headerReceived header) headerUs).2
        let x := pending.handleEvent json (.packetReceived payload) packetUs
        ((∃ message, x.1 = bail message) ↔ base.Rejects payload) ∧
          ((∃ message, x.1 = bail message) → x.2 = m)) ∧
      ∀ entries : List StreamEntry,
        m.hear json (entries.flatMap StreamEntry.keep) = (m.hear json entries).filter accepted := by
  refine ⟨fun _ _ _ h => handleEvent_header_bail h, ?_, ?_⟩
  · intro header base headerUs payload packetUs hbase
    rw [handleEvent_header_ok json m hbase]
    dsimp only
    rw [handleEvent_pending json hm, processPacket_bail_iff]
    refine ⟨Iff.rfl, fun hrejects => ?_⟩
    obtain ⟨message, hpacket⟩ := processPacket_of_rejects json m hrejects packetUs
    rw [hpacket]
  · intro entries
    exact Transcript.run_flatMap (I := fun m => m.framing = .new)
      (fun m entry hm => run_keep hm entry) (fun m entry m' hm h => serve_framing hm h) hm entries

/-- A greeting, which the client does not take, with a request polled before its packet. -/
theorem rejected_no_trace_greeting :
    ∃ greeting : Frame, ∃ early late : Poll,
      new.hear .compact [.poll early, .poll late] =
        (new.hear .compact [.frame greeting 0 [early] 2000, .poll late]).filter accepted := by
  let greeting := Frame.ofBase ⟨.hello, 0, 0, .zero, .zero, 0⟩ [] rfl (by decide)
  let early : Poll := ⟨1000, List.replicate 34 0⟩
  let late : Poll := ⟨3000, List.replicate 34 0⟩
  have hkeep : List.flatMap StreamEntry.keep [.frame greeting 0 [early] 2000, .poll late] =
      [.poll early, .poll late] := rfl
  refine ⟨greeting, early, late, ?_⟩
  rw [← hkeep]
  exact (rejected_no_trace .compact rfl).2.2 _

end ClientMachine

end SnapcastClient
