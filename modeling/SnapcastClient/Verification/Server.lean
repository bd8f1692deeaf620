import SnapcastClient.Model.Server
import SnapcastClient.Verification.Pacing
import SnapcastClient.Verification.Playback
import SnapcastClient.Verification.Sink

/-! # From the source to the player

The runs of a server with a source are runs of its threads. What a client gets is a stretch of
what the source has made. -/

namespace SnapcastClient

variable {α β ρ ε : Type}

/-- A packet fits into `enc_out`. -/
def Setup.Fills (S : Setup α ρ ε) : Prop :=
  ∀ e buf data, (S.encodeFloat e buf).1 = .ok data → data.length ≤ encOutBytes

/-! ## The pipeline of a sink -/

namespace Pipeline

variable {S : Setup α ρ ε} {p p' : Pipeline S} {resampler : ρ} {encoder : ε}

theorem Micro.broadcast_grows (h : Micro p p') : p.broadcast <+: p'.broadcast := by
  rcases h.pacer with ⟨-, h⟩ | ⟨-, encIn, data, h⟩ | ⟨-, h⟩ <;> rw [h]
  exact List.prefix_append _ _

theorem step_broadcast_grows {c : Call α} (h : p.step c = some p') :
    p.broadcast <+: p'.broadcast := by
  have hsteps := micro_call p c
  rw [← step_eq_some h] at hsteps
  clear h
  induction hsteps with
  | refl => exact List.prefix_refl _
  | tail _ hlast ih => exact ih.trans hlast.broadcast_grows

theorem data_length_of_reach (hfills : S.Fills) (h : (system S resampler encoder).Reachable p)
    {b : List α × EncodedChunk} (hb : b ∈ p.broadcast) : b.2.data.length ≤ encOutBytes := by
  have hmem : b.2.data ∈ p.broadcast.map fun b => b.2.data := List.mem_map.mpr ⟨b, hb, rfl⟩
  rw [packed_of_reach h] at hmem
  obtain ⟨e, buf, hok⟩ := Mealy.exists_of_mem_values S.encodeFloat hmem
  exact hfills e buf _ hok

end Pipeline

/-- A call of a sink that returns is a call of its pipeline, or none. -/
theorem PipelineSink.step_pipeline {S : Setup α ρ ε} {narrow : β → α} {s s' : PipelineSink S}
    {c : Call β} (h : s.step narrow c = some s') :
    s'.pipeline = s.pipeline ∨ ∃ call, s.pipeline.step call = some s'.pipeline := by
  cases c with
  | start =>
      obtain rfl := Option.some.inj h
      exact .inr ⟨.reanchor, rfl⟩
  | stop =>
      refine .inr ⟨.flushWithSilence, ?_⟩
      simp only [step, call, stop] at h
      simp only [Pipeline.step, Pipeline.call]
      rcases hflush : s.pipeline.flushWithSilence with ⟨(message | reason) | u, pipeline⟩ <;>
        rw [hflush] at h <;> cases h <;> rfl
  | write packet =>
      obtain ⟨e | samples⟩ := packet
      · obtain rfl := Option.some.inj h
        exact .inl rfl
      · refine .inr ⟨.push (samples.map narrow), ?_⟩
        simp only [step, call, write] at h
        simp only [Pipeline.step, Pipeline.call]
        rcases hpush : s.pipeline.push (samples.map narrow) with
          ⟨(message | reason) | u, pipeline⟩ <;>
          rw [hpush] at h <;> cases h <;> rfl

namespace Net

variable {json : SerdeJson} {s s' : Net} {l : Label} {k : ConnId} {service : Service}

theorem Recorded.id_lt (hr : s.Recorded json k service) {id : ClientId}
    (hid : service.id = some id) : id < s.registry.nextId := by
  cases htx : service.tx with
  | none =>
      rw [(hr.unattended htx).2] at hid
      cases hid
  | some tx => exact (hr.served tx htx).known.lt id hid

theorem Recorded.registering (hr : s.Recorded json k service) {tx : ChannelId}
    (hreader : (s.conns k).reader = .registering tx) : service.id = none := by
  cases htx : service.tx with
  | none =>
      rw [(hr.unattended htx).2]
      rfl
  | some tx' => exact (hr.served tx' htx).known.registering tx hreader

/-- Only its registration gives a connection a handle. -/
theorem Recorded.handled_before (hr : s.Recorded json k service) (h : Act json s l s')
    (hl : l ≠ .register k) (hhandle : (s'.handle? (s.attend json k service l)).isSome) :
    (s.handle? service).isSome := by
  rw [handle?, attend_id hl] at hhandle
  rw [handle?]
  cases hid : service.id with
  | none =>
      rw [hid] at hhandle
      cases hhandle
  | some id =>
      rw [hid] at hhandle
      obtain ⟨c, hget⟩ := Option.isSome_iff_exists.mp hhandle
      by_cases hregister : ∃ j, l = .register j
      · obtain ⟨j, rfl⟩ := hregister
        cases h with
        | register hreader hscan =>
            rcases Registry.mem_register.mp (Registry.mem_of_get? hget) with hmem | ⟨rfl, -⟩
            · exact Option.isSome_iff_exists.mpr ⟨c, Registry.get?_eq_some_iff.mpr hmem⟩
            · exact absurd (hr.id_lt hid) (Nat.lt_irrefl _)
      · obtain ⟨hentry, -⟩ := h.shrinks fun j hj => hregister ⟨j, hj⟩
        obtain ⟨c₀, hmem, -, -⟩ := hentry id c (Registry.mem_of_get? hget)
        exact Option.isSome_iff_exists.mpr ⟨c₀, Registry.get?_eq_some_iff.mpr hmem⟩

theorem broadcast_eq_nil (hl : ∀ chunk, l ≠ .startScan chunk) : s.broadcast service l = [] := by
  cases l with
  | startScan chunk => exact absurd rfl (hl chunk)
  | _ => rfl

/-- The chunks of a record are a stretch of those broadcast, which goes on to the last of them
while the connection is registered. -/
def Stretch (s : Net) (service : Service) (sent : List EncodedChunk) : Prop :=
  (service.id = none → service.chunks = []) ∧
    ∃ before after, sent = before ++ service.chunks ++ after ∧
      ((s.handle? service).isSome → after = [])

theorem Stretch.startScan {sent : List EncodedChunk} (hs : s.Stretch service sent)
    {chunk : EncodedChunk} (h : Act json s (.startScan chunk) s') :
    s'.Stretch (s.attend json k service (.startScan chunk)) (sent ++ [chunk]) := by
  obtain ⟨hnone, before, after, rfl, hafter⟩ := hs
  have hid : (s.attend json k service (.startScan chunk)).id = service.id := attend_id (by simp)
  have hchunks : (s.attend json k service (.startScan chunk)).chunks =
      service.chunks ++ if (s.handle? service).isSome then [chunk] else [] := rfl
  have hhandle : s'.handle? (s.attend json k service (.startScan chunk)) = s.handle? service := by
    cases h with
    | startScan hscan hlimit => rw [handle?, hid]; rfl
  cases hsome : (s.handle? service).isSome with
  | true =>
      rw [hsome, if_pos rfl] at hchunks
      refine ⟨fun h => ?_, before, [], ?_, fun _ => rfl⟩
      · rw [handle?, ← hid, h] at hsome
        cases hsome
      · rw [hchunks, hafter hsome]
        simp
  | false =>
      rw [hsome, if_neg Bool.false_ne_true, List.append_nil] at hchunks
      refine ⟨fun h => ?_, before, after ++ [chunk], ?_, fun h => ?_⟩
      · rw [hchunks]
        exact hnone (hid ▸ h)
      · rw [hchunks]
        simp
      · rw [hhandle, hsome] at h
        cases h

theorem Stretch.step {sent : List EncodedChunk} (hr : s.Recorded json k service)
    (hs : s.Stretch service sent) (h : Act json s l s') (hl : ∀ chunk, l ≠ .startScan chunk) :
    s'.Stretch (s.attend json k service l) sent := by
  obtain ⟨hnone, before, after, hsent, hafter⟩ := hs
  have hchunks : (s.attend json k service l).chunks = service.chunks := by
    change service.chunks ++ s.broadcast service l = service.chunks
    rw [broadcast_eq_nil hl, List.append_nil]
  by_cases hregister : l = .register k
  · subst hregister
    have hempty : service.chunks = [] := by
      cases h with
      | register hreader hscan => exact hnone (hr.registering hreader)
    refine ⟨fun _ => hchunks.trans hempty, sent, [], ?_, fun _ => rfl⟩
    rw [hchunks, hempty]
    simp
  · refine ⟨?_, before, after, by rw [hchunks]; exact hsent, fun hhandle => ?_⟩
    · rw [hchunks, attend_id hregister]
      exact hnone
    · exact hafter (hr.handled_before h hregister hhandle)

end Net

namespace Server

variable {S : Setup α ρ ε} {json : SerdeJson} {narrow : β → α} {s s' : Server S} {l : Label β}

/-! ## The steps of the server -/

/-- The steps by what they do. -/
inductive Act (json : SerdeJson) (narrow : β → α) (s : Server S) : Label β → Server S → Prop where
  | call {c : PipelineSink.Call β} {sink : PipelineSink S} :
      s.scanned = s.sink.pipeline.broadcast.length → s.sink.step narrow c = some sink →
      Act json narrow s (.call c) { s with sink }
  | broadcast {b : List α × EncodedChunk} {net : Net} :
      s.Returned → s.sink.pipeline.broadcast[s.scanned]? = some b →
      s.net.step json (.startScan b.2) = some net →
      Act json narrow s .broadcast { s with net, scanned := s.scanned + 1 }
  | volumeChanged {volume : UInt16} {net : Net} :
      s.net.pending = [] → s.net.step json (.storeVolume (percent volume)) = some net →
      Act json narrow s (.volumeChanged volume) { s with net, volumes := s.volumes ++ [volume] }
  | thread {m : Net.Label} {net : Net} :
      begins m = false → s.net.step json m = some net →
      Act json narrow s (.thread m) { s with net }

theorem step_act (h : s.step json narrow l = some s') : Act json narrow s l s' := by
  cases l with
  | call c =>
      simp only [step] at h
      split at h
      next hidle =>
        obtain ⟨sink, hsink, rfl⟩ := Option.map_eq_some_iff.mp h
        exact .call hidle.2 hsink
      next => cases h
  | broadcast =>
      obtain ⟨m, hm, h⟩ := Option.bind_eq_some_iff.mp h
      obtain ⟨net, hnet, hs'⟩ := Option.bind_eq_some_iff.mp h
      obtain rfl := Option.some.inj hs'
      rw [netLabel?] at hm
      split at hm
      next hreturned =>
        obtain ⟨chunk, hchunk, rfl⟩ := Option.map_eq_some_iff.mp hm
        obtain ⟨b, hb, rfl⟩ := Option.map_eq_some_iff.mp hchunk
        exact .broadcast hreturned hb hnet
      next => cases hm
  | volumeChanged volume =>
      obtain ⟨m, hm, h⟩ := Option.bind_eq_some_iff.mp h
      obtain ⟨net, hnet, hs'⟩ := Option.bind_eq_some_iff.mp h
      obtain rfl := Option.some.inj hs'
      rw [netLabel?] at hm
      split at hm
      next hpending =>
        obtain rfl := Option.some.inj hm
        exact .volumeChanged hpending hnet
      next => cases hm
  | thread m =>
      obtain ⟨m', hm, h⟩ := Option.bind_eq_some_iff.mp h
      obtain ⟨net, hnet, hs'⟩ := Option.bind_eq_some_iff.mp h
      obtain rfl := Option.some.inj hs'
      rw [netLabel?] at hm
      split at hm
      next => cases hm
      next hbegins =>
        obtain rfl := Option.some.inj hm
        exact .thread (Bool.not_eq_true _ ▸ hbegins) hnet

/-! ## The record of a connection -/

/-- Record what a step means to a connection. -/
def attend (json : SerdeJson) (k : ConnId) (s : Server S) (service : Service) (l : Label β) :
    Service :=
  match s.netLabel? l with
  | some m => s.net.attend json k service m
  | none => service

/-- The runs of a server with the record of a connection. -/
def attendedSystem (json : SerdeJson) (narrow : β → α) (k : ConnId) (resampler : ρ) (encoder : ε)
    (bufferMs : UInt32) : TransitionSystem (TransitionSystem.WithHistory (Server S) Service)
      (Label β) :=
  (system json narrow resampler encoder bufferMs).withHistory .empty (attend json k)

/-- The connection sends no second greeting, and its writer meets no write error. -/
def courteous (json : SerdeJson) (k : ConnId)
    (p : TransitionSystem.WithHistory (Server S) Service) (l : Label β) : Bool :=
  match p.state.netLabel? l with
  | some m => Net.courteous json k ⟨p.state.net, p.history⟩ m
  | none => true

theorem Act.netLabel? (h : Act json narrow s l s') :
    (s.netLabel? l = none ∧ s'.net = s.net ∧ s.scanned = s.sink.pipeline.broadcast.length ∧
      s'.scanned = s.scanned ∧ ∃ c, s.sink.step narrow c = some s'.sink) ∨
    ∃ m, s.netLabel? l = some m ∧ s.net.step json m = some s'.net ∧ s'.sink = s.sink ∧
      ((∃ b, m = .startScan b.2 ∧ s.sink.pipeline.broadcast[s.scanned]? = some b ∧
        s'.scanned = s.scanned + 1) ∨
      (∀ chunk, m ≠ .startScan chunk) ∧ s'.scanned = s.scanned) := by
  cases h with
  | call hidle hsink => exact .inl ⟨rfl, rfl, hidle, rfl, _, hsink⟩
  | broadcast hreturned hb hnet =>
      refine .inr ⟨_, ?_, hnet, rfl, .inl ⟨_, rfl, hb, rfl⟩⟩
      rw [Server.netLabel?, if_pos hreturned, next?, hb]
      rfl
  | volumeChanged hpending hnet =>
      refine .inr ⟨_, ?_, hnet, rfl, .inr ⟨fun _ => Net.Label.noConfusion, rfl⟩⟩
      exact if_pos hpending
  | thread hbegins hnet =>
      refine .inr ⟨_, ?_, hnet, rfl, .inr ⟨?_, rfl⟩⟩
      · exact if_neg (by rw [hbegins]; exact Bool.false_ne_true)
      · rintro chunk rfl
        cases hbegins

variable {k : ConnId} {resampler : ρ} {encoder : ε} {bufferMs : UInt32}
  {p : TransitionSystem.WithHistory (Server S) Service}
  {ok : TransitionSystem.WithHistory (Server S) Service → Label β → Prop}

theorem pipeline_of_reach
    (h : (attendedSystem json narrow k resampler encoder bufferMs).Reach ok p) :
    (Pipeline.system S resampler encoder).Reachable p.state.sink.pipeline := by
  refine h.invariant
    (I := fun p => (Pipeline.system S resampler encoder).Reachable p.state.sink.pipeline) ?_ ?_
  · rintro ⟨s, service⟩ ⟨hs, -⟩
    obtain rfl : s = start resampler encoder bufferMs := hs
    exact .init rfl
  · rintro ⟨s, service⟩ l ⟨s', service'⟩ hp - ⟨hstep, -⟩
    rcases (step_act hstep).netLabel? with ⟨-, -, -, -, c, hsink⟩ | ⟨m, -, -, hsink, -⟩
    · rcases PipelineSink.step_pipeline hsink with heq | ⟨call, hcall⟩
      · change (Pipeline.system S resampler encoder).Reachable s'.sink.pipeline
        rw [heq]
        exact hp
      · exact .step hp trivial hcall
    · change (Pipeline.system S resampler encoder).Reachable s'.sink.pipeline
      rw [hsink]
      exact hp

/-- A run of the server is one of its threads. -/
theorem net_of_reach (hfills : S.Fills)
    (h : (attendedSystem json narrow k resampler encoder bufferMs).Reach
      (fun p l => courteous json k p l = true) p) :
    (Net.attendedSystem json k bufferMs 100).Reach
      (fun p l => (Net.courteous json k p l && l.roomy) = true) ⟨p.state.net, p.history⟩ := by
  refine h.invariant_of
    (I := fun p => (Pipeline.system S resampler encoder).Reachable p.state.sink.pipeline)
    (J := fun p => (Net.attendedSystem json k bufferMs 100).Reach
      (fun p l => (Net.courteous json k p l && l.roomy) = true) ⟨p.state.net, p.history⟩)
    (fun p hp => pipeline_of_reach hp) ?_ ?_
  · rintro ⟨s, service⟩ ⟨hs, hservice⟩
    obtain rfl : s = start resampler encoder bufferMs := hs
    obtain rfl : service = .empty := hservice
    exact .init ⟨rfl, rfl⟩
  · rintro ⟨s, service⟩ l ⟨s', service'⟩ hpipeline hp hok ⟨hstep, hservice⟩
    obtain rfl : service' = s.attend json k service l := hservice
    rcases (step_act hstep).netLabel? with ⟨hl, hnet, -⟩ | ⟨m, hl, hnet, -, hm⟩
    · change (Net.attendedSystem json k bufferMs 100).Reach _
        ⟨s'.net, s.attend json k service l⟩
      rw [attend, hl, hnet]
      exact hp
    · have hattend : s.attend json k service l = s.net.attend json k service m := by
        rw [attend, hl]
      have hcourteous : Net.courteous json k ⟨s.net, service⟩ m = true := by
        rw [courteous] at hok
        simpa only [hl] using hok
      have hroomy : m.roomy = true := by
        rcases hm with ⟨b, rfl, hb, -⟩ | ⟨hm, -⟩
        · refine decide_eq_true ?_
          have hlen := Pipeline.data_length_of_reach hfills hpipeline (List.mem_of_getElem? hb)
          rw [encOutBytes] at hlen
          rw [Base.maxPayload]
          omega
        · cases m with
          | startScan chunk => exact absurd rfl (hm chunk)
          | _ => rfl
      refine .step hp ?_ ⟨hnet, hattend⟩
      exact Bool.and_eq_true_iff.mpr ⟨hcourteous, hroomy⟩

/-! ## A server and a client to run -/

theorem through_fills : Pipeline.through.Fills := by
  intro e buf data h
  obtain rfl := Except.ok.inj h
  exact Nat.zero_le _

theorem through_monotone : Monotone Pipeline.through.clock := by
  intro i j hij
  have hsquare := Nat.mul_le_mul hij hij
  simp only [Pipeline.through]
  omega

/-- A build with Opus only. -/
def opusOnly : Codecs Unit where
  opusFeature := true
  flacFeature := false
  debugAssertions := true
  opusInit _ := .ok ()
  opusDecode _ _ _ := (.ok [1, 2], ())
  claxon := .ofReader fun _ => []

/-- A client is greeted and has its requests answered. The source pushes 882 frames and its first
chunk is sent, and then the volume changes. -/
def sampleLabels : List (Label ℤ) :=
  let request := Time.frame 7 0 .zero .zero .zero
  let answered : List Net.Label :=
    [.read 0 request.header 0, .read 0 request.payload 0, .send 0, .recv 0, .write 0 0]
  let greeted : List Net.Label :=
    .accept :: Net.helloLabels 0 .sample ++ Net.greetLabels 0 ++
      [.recv 0, .write 0 0, .recv 0, .write 0 0] ++
      (List.replicate latencySamples answered).flatten
  greeted.map .thread ++
    [.call .start, .call (.write ⟨.ok (List.replicate 1764 1)⟩), .broadcast] ++
    ([.offer 0 0 0, .endScan, .recv 0, .write 0 0] : List Net.Label).map .thread ++
    [.volumeChanged 32767] ++
    ([.sendSettings 0 ⟨1000, 0, false, 50⟩, .recv 0, .write 0 0] : List Net.Label).map .thread

/-- The client hears all that and plays the chunk on time. -/
def playLabels : List App.Label :=
  let tick := App.Label.tick ⟨0, 0, true⟩
  [tick, tick, .storeDecoder, .makePlayer none, .storePlayer] ++
    List.replicate latencySamples tick ++
    [tick, .recv, .schedule, .elapse 1000000000, .lockDecoder, .lockPlayer, .decode false none,
      .write none, tick]

theorem exists_sample :
    ∃ (p : TransitionSystem.WithHistory (Server Pipeline.through) Service) (a : App Unit),
      (attendedSystem .compact id 0 () () 1000).Reach
        (fun p l => courteous .compact 0 p l = true) p ∧
      p.history.tx = some 0 ∧
      (App.system .compact opusOnly .file
        (.new ((p.state.net.units 0).flatten.map .byte))).Reachable a ∧
      p.state.sink.pipeline.Slept Pipeline.through.clock ∧
      p.state.net.delivered 0 = [⟨.zero, []⟩] ∧
      a.handled.map (fun x => x.1.samples) = [[]] ∧
      (true, .serverSettings ⟨1000, 0, false, 50⟩) ∈ a.heard := by
  have hrun : (TransitionSystem.run (TransitionSystem.stepWithHistory (step .compact id)
      (attend .compact 0)) (courteous .compact 0) sampleLabels
        ⟨start () () 1000, .empty⟩).any (fun p : TransitionSystem.WithHistory
          (Server Pipeline.through) Service => p.history.tx = some 0 ∧
      (∀ sleep ∈ p.state.sink.pipeline.sleeps,
        sleep.target ≤ Pipeline.through.clock sleep.woke) ∧
      p.state.net.delivered 0 = [⟨.zero, []⟩] ∧
      (TransitionSystem.run (App.step .compact opusOnly .file) (fun _ _ => true) playLabels
        (App.start (.new ((p.state.net.units 0).flatten.map .byte)))).any (fun a =>
          a.handled.map (fun x => x.1.samples) = [[]] ∧
            (true, .serverSettings ⟨1000, 0, false, 50⟩) ∈ a.heard) = true) = true := by
    decide +kernel
  obtain ⟨p, hp, hP⟩ := (Option.any_eq_true _ _).mp hrun
  obtain ⟨htx, hslept, hdelivered, hplay⟩ := of_decide_eq_true hP
  obtain ⟨a, ha, hA⟩ := (Option.any_eq_true _ _).mp hplay
  obtain ⟨hhandled, hheard⟩ := of_decide_eq_true hA
  have hreach := TransitionSystem.reach_of_run (.init rfl) hp
  rw [← TransitionSystem.withHistory_ofStep] at hreach
  have hplayed := TransitionSystem.reach_of_run (.init rfl) ha
  exact ⟨p, a, hreach, htx, hplayed.reachable, hslept, hdelivered, hhandled, hheard⟩

/-! ## What a client gets -/

/-- The chunks whose broadcast has begun. -/
def sent (s : Server S) : List EncodedChunk :=
  (s.sink.pipeline.broadcast.take s.scanned).map Prod.snd

theorem sent_call (hscanned : s'.scanned = s.scanned)
    (hidle : s.scanned = s.sink.pipeline.broadcast.length)
    (hgrows : s.sink.pipeline.broadcast <+: s'.sink.pipeline.broadcast) : s'.sent = s.sent := by
  obtain ⟨rest, hrest⟩ := hgrows
  rw [sent, sent, hscanned, hidle, ← hrest, List.take_length, List.take_left]

theorem sent_broadcast {b : List α × EncodedChunk} (hsink : s'.sink = s.sink)
    (hscanned : s'.scanned = s.scanned + 1)
    (hb : s.sink.pipeline.broadcast[s.scanned]? = some b) : s'.sent = s.sent ++ [b.2] := by
  rw [sent, hsink, hscanned, List.take_add_one, hb, List.map_append]
  rfl

theorem sink_broadcast_grows {c : PipelineSink.Call β}
    (h : s.sink.step narrow c = some s'.sink) :
    s.sink.pipeline.broadcast <+: s'.sink.pipeline.broadcast := by
  rcases PipelineSink.step_pipeline h with heq | ⟨call, hcall⟩
  · rw [heq]
  · exact Pipeline.step_broadcast_grows hcall

theorem recorded_of_reach (hjson : json.SettingsLaws) (hfills : S.Fills)
    (h : (attendedSystem json narrow k resampler encoder bufferMs).Reach
      (fun p l => courteous json k p l = true) p) :
    p.state.net.Recorded json k p.history := by
  have hnet := (net_of_reach hfills h).mono fun p l hok => (Bool.and_eq_true_iff.mp hok).1
  exact Net.reach_recorded (fun st => ⟨_, hjson.print st⟩) hnet

theorem stretch_of_reach (hjson : json.SettingsLaws) (hfills : S.Fills)
    (h : (attendedSystem json narrow k resampler encoder bufferMs).Reach
      (fun p l => courteous json k p l = true) p) :
    p.state.net.Stretch p.history p.state.sent := by
  refine h.invariant_of (I := fun p => p.state.net.Recorded json k p.history)
    (J := fun p => p.state.net.Stretch p.history p.state.sent)
    (fun p hp => recorded_of_reach hjson hfills hp) ?_ ?_
  · rintro ⟨s, service⟩ ⟨hs, hservice⟩
    obtain rfl : s = start resampler encoder bufferMs := hs
    obtain rfl : service = .empty := hservice
    exact ⟨fun _ => rfl, [], [], rfl, fun _ => rfl⟩
  · rintro ⟨s, service⟩ l ⟨s', service'⟩ hr hs - ⟨hstep, hservice⟩
    obtain rfl : service' = s.attend json k service l := hservice
    change s'.net.Stretch (s.attend json k service l) s'.sent
    rcases (step_act hstep).netLabel? with
      ⟨hl, hnet, hidle, hscanned, c, hsink⟩ | ⟨m, hl, hnet, hsink, hm⟩
    · rw [attend, hl, hnet, sent_call hscanned hidle (sink_broadcast_grows hsink)]
      exact hs
    · rw [attend, hl]
      rcases hm with ⟨b, rfl, hb, hscanned⟩ | ⟨hm, hscanned⟩
      · rw [sent_broadcast hsink hscanned hb]
        exact hs.startScan (Net.step_act hnet)
      · have hsent : s'.sent = s.sent := by rw [sent, sent, hsink, hscanned]
        rw [hsent]
        exact hs.step hr (Net.step_act hnet) hm

/-- While a connection is registered, the source's chunks are offered to its queue one by one.
What is not queued is counted as dropped. -/
theorem stretch_offered (hjson : json.SettingsLaws) (hfills : S.Fills)
    (h : (attendedSystem json narrow k resampler encoder bufferMs).Reach
      (fun p l => courteous json k p l = true) p) {tx : ChannelId} (htx : p.history.tx = some tx) :
    ∃ before offered after,
      p.state.sent = before ++ (offered ++ p.state.net.unoffered p.history) ++ after ∧
        ((p.state.net.handle? p.history).isSome → after = []) ∧
        (p.state.net.delivered tx).Sublist offered ∧
        (p.state.net.delivered tx).length + p.state.net.dropped p.history = offered.length := by
  obtain ⟨-, before, after, hsent, hafter⟩ := stretch_of_reach hjson hfills h
  obtain ⟨offered, hchunks, hdelivered, hdropped⟩ :=
    ((recorded_of_reach hjson hfills h).served tx htx).counted
  exact ⟨before, offered, after, hchunks ▸ hsent, hafter, hdelivered, hdropped⟩

theorem stretch_offered_sample :
    ∃ p : TransitionSystem.WithHistory (Server Pipeline.through) Service,
      p.state.net.delivered 0 = [⟨.zero, []⟩] ∧ ∃ before offered after,
        p.state.sent = before ++ (offered ++ p.state.net.unoffered p.history) ++ after ∧
          ((p.state.net.handle? p.history).isSome → after = []) ∧
          (p.state.net.delivered 0).Sublist offered ∧
          (p.state.net.delivered 0).length + p.state.net.dropped p.history = offered.length := by
  obtain ⟨p, -, hp, htx, -, -, hdelivered, -⟩ := exists_sample
  exact ⟨p, hdelivered, stretch_offered SerdeJson.compact_settingsLaws through_fills hp htx⟩

theorem sent_sublist (s : Server S) :
    s.sent.Sublist (s.sink.pipeline.broadcast.map Prod.snd) :=
  (List.take_sublist _ _).map Prod.snd

theorem chunks_sublist (hjson : json.SettingsLaws) (hfills : S.Fills)
    (h : (attendedSystem json narrow k resampler encoder bufferMs).Reach
      (fun p l => courteous json k p l = true) p) :
    p.history.chunks.Sublist (p.state.sink.pipeline.broadcast.map Prod.snd) := by
  obtain ⟨-, before, after, hsent, -⟩ := stretch_of_reach hjson hfills h
  refine List.Sublist.trans ?_ p.state.sent_sublist
  rw [hsent]
  exact (List.sublist_append_right _ _).trans (List.sublist_append_left _ _)

theorem data_sublist (hjson : json.SettingsLaws) (hfills : S.Fills)
    (h : (attendedSystem json narrow k resampler encoder bufferMs).Reach
      (fun p l => courteous json k p l = true) p) :
    (p.history.chunks.map EncodedChunk.data).Sublist
      (Mealy.values S.encodeFloat encoder p.state.sink.pipeline.handed) := by
  rw [← Pipeline.packed_of_reach (pipeline_of_reach h)]
  have hdata := (chunks_sublist hjson hfills h).map EncodedChunk.data
  rwa [List.map_map] at hdata

variable {σ : Type} {codecs : Codecs σ} {backend : PlayerBackend} {a : App σ} {tx : ChannelId}
  {arrivals : List Arrival}

theorem heard_sublist (hjson : json.SettingsLaws) (hfills : S.Fills)
    (h : (attendedSystem json narrow k resampler encoder bufferMs).Reach
      (fun p l => courteous json k p l = true) p)
    (htx : p.history.tx = some tx) (harrivals : Aligned (p.state.net.units tx) arrivals)
    (ha : (App.system json codecs backend (.new arrivals)).Reachable a) :
    ((a.heard.map Prod.snd).filterMap Message.chunk?).Sublist p.history.chunks :=
  App.heard_of_broadcast (p := ⟨p.state.net, p.history⟩) hjson (net_of_reach hfills h) htx
    harrivals ha

/-- From the source to the player: what the playing thread of a client handles are packets that
the encoder made of the frames handed to it, in their order and each at most once. -/
theorem handled_of_source (hjson : json.SettingsLaws) (hfills : S.Fills)
    (h : (attendedSystem json narrow k resampler encoder bufferMs).Reach
      (fun p l => courteous json k p l = true) p)
    (htx : p.history.tx = some tx) (harrivals : Aligned (p.state.net.units tx) arrivals)
    (ha : (App.system json codecs backend (.new arrivals)).Reachable a) :
    (a.handled.map fun x => x.1.samples).Sublist
      (Mealy.values S.encodeFloat encoder p.state.sink.pipeline.handed) := by
  refine (App.handled_sublist ha).trans (List.Sublist.trans ?_ (data_sublist hjson hfills h))
  exact (heard_sublist hjson hfills h htx harrivals ha).map EncodedChunk.data

theorem handled_of_source_sample :
    ∃ (p : TransitionSystem.WithHistory (Server Pipeline.through) Service) (a : App Unit),
      a.handled.map (fun x => x.1.samples) = [[]] ∧
        (a.handled.map fun x => x.1.samples).Sublist
          (Mealy.values Pipeline.through.encodeFloat () p.state.sink.pipeline.handed) := by
  obtain ⟨p, a, hp, htx, ha, -, -, hhandled, -⟩ := exists_sample
  exact ⟨p, a, hhandled, handled_of_source SerdeJson.compact_settingsLaws through_fills hp htx
    (.at_once _) ha⟩

/-- The timestamps that a client hears are some of those of the source's pacing, and do not go
back, restarts included. -/
theorem heard_in_time (hjson : json.SettingsLaws) (hfills : S.Fills)
    (h : (attendedSystem json narrow k resampler encoder bufferMs).Reach
      (fun p l => courteous json k p l = true) p)
    (hclock : Monotone S.clock) (hslept : p.state.sink.pipeline.Slept S.clock)
    (htx : p.history.tx = some tx) (harrivals : Aligned (p.state.net.units tx) arrivals)
    (ha : (App.system json codecs backend (.new arrivals)).Reachable a) :
    ∃ times : List ℤ, times.Sublist (p.state.sink.pipeline.stamps.map Stamp.timestamp) ∧
      times.Pairwise (· ≤ ·) ∧
      ((a.heard.map Prod.snd).filterMap Message.chunk?).map EncodedChunk.timestamp =
        times.map TimeVal.fromMicros := by
  have hpipeline := pipeline_of_reach h
  have hsorted := (Pipeline.wellPaced_of_reach hpipeline hclock hslept).sorted
  have hheard := ((heard_sublist hjson hfills h htx harrivals ha).trans
    (chunks_sublist hjson hfills h)).map EncodedChunk.timestamp
  have hstamps := Pipeline.broadcast_of_reach hpipeline
  rw [List.map_map, show (EncodedChunk.timestamp ∘ Prod.snd : List α × EncodedChunk → TimeVal) =
    fun b => b.2.timestamp from rfl, hstamps] at hheard
  obtain ⟨stamps, hsublist, htimes⟩ := List.sublist_map_iff.mp hheard
  refine ⟨stamps.map Stamp.timestamp, hsublist.map _, ?_, ?_⟩
  · exact List.pairwise_map.mpr (hsorted.sublist hsublist)
  · rw [htimes, List.map_map]
    rfl

theorem heard_in_time_sample :
    ∃ (p : TransitionSystem.WithHistory (Server Pipeline.through) Service) (a : App Unit),
      a.handled.map (fun x => x.1.samples) = [[]] ∧
        ∃ times : List ℤ, times.Sublist (p.state.sink.pipeline.stamps.map Stamp.timestamp) ∧
          times.Pairwise (· ≤ ·) ∧
          ((a.heard.map Prod.snd).filterMap Message.chunk?).map EncodedChunk.timestamp =
            times.map TimeVal.fromMicros := by
  obtain ⟨p, a, hp, htx, ha, hslept, -, hhandled, -⟩ := exists_sample
  exact ⟨p, a, hhandled, heard_in_time SerdeJson.compact_settingsLaws through_fills hp
    through_monotone hslept htx (.at_once _) ha⟩

end Server

end SnapcastClient
