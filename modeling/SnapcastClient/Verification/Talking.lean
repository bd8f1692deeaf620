import SnapcastClient.Verification.Progress
import SnapcastClient.Verification.Refinement

/-! # Whole conversations

In a run in which no write to the client fails, neither side refuses what the other sends, and
what the client has seen at any time is what an exchange would have shown it. -/

namespace SnapcastClient

def Incoming.reply? : Incoming → Option Reply
  | reply r => some r
  | other _ => none

/-- The requests of an exchange, the answered ones first and the unanswered ones last. -/
def Exchange.inOrder (s : Exchange) : List Request :=
  (s.answers.map Answer.reply ++ (s.pending.bind Incoming.reply?).toList ++ s.replies).map
    Reply.request ++ s.requests

namespace Conversation

variable {json : SerdeJson} {k : ConnId} {g : Greeter} {bufferMs : UInt32} {initialVolume : UInt8}
  {c c' : Conversation} {l : Label} {cur : Cursor Delivery} {msgs : List Outbound} {s : Exchange}

/-- What holds of both sides in every state of a healthy run. -/
structure Talking (json : SerdeJson) (g : Greeter) (k : ConnId) (bufferMs : UInt32)
    (initialVolume : UInt8) (c : Conversation) : Prop where
  attended : (Net.attendedSystem json k bufferMs initialVolume).Reach
    (fun p l => Net.courteous json k p l = true) c.server
  fits : c.server.state.Fits
  txBuf : c.txBuf.length = Time.wireSize
  upstream : ∃ up, c.Upstream g k up
  fault : ∀ fault, c.fault = some fault → fault = .panicked .overflow

/-- What the client has seen is what an exchange shows. -/
def Matches (json : SerdeJson) (c : Conversation) (s : Exchange) : Prop :=
  ∃ cur msgs, c.Downstream json cur msgs ∧ c.Simulated cur s

theorem talking_start (json : SerdeJson) (g : Greeter) (k : ConnId) (bufferMs : UInt32)
    (initialVolume : UInt8) :
    (start bufferMs initialVolume (g.frame none).bytes).Talking json g k bufferMs
      initialVolume where
  attended := .init ⟨rfl, rfl⟩
  fits := Net.fits_new bufferMs initialVolume
  txBuf := List.length_replicate
  upstream := ⟨_, upstream_start g k bufferMs initialVolume⟩
  fault := by rintro fault ⟨⟩

theorem matches_start (json : SerdeJson) (bufferMs : UInt32) (initialVolume : UInt8)
    (greeting : List UInt8) : (start bufferMs initialVolume greeting).Matches json .new :=
  ⟨.start [], [],
    ⟨fun _ => rfl, by rintro tx ⟨⟩, by rintro tx ⟨⟩, .nil, Nat.zero_le _, rfl, rfl, .nil⟩,
    ⟨Exchange.wired_new, rfl, rfl, rfl, rfl, rfl⟩⟩

/-- A genuine client sends no second greeting. -/
theorem Talking.courteous (hjson : json.HelloLaws)
    (ht : c.Talking json g k bufferMs initialVolume) {l : Net.Label} (hok : c.healthy (.serve l))
    (h : c.serve json k l = some c') : Net.courteous json k c.server l = true := by
  cases l with
  | read j bytes now =>
      rw [Net.courteous]
      split
      · rename_i hello houtput
        refine decide_eq_true ?_
        rintro ⟨rfl, hgreeted⟩
        obtain ⟨up, s, hup, hstep, rfl⟩ := serve_eq_some.mp h
        obtain ⟨_, hu⟩ := ht.upstream
        obtain ⟨out, hout, hhello⟩ := hu.output hjson (length_of_read hstep) (takes_read hup).1
        have hfalse := hhello hello (Except.ok.inj (hout.symm.trans houtput))
        exact Bool.false_ne_true (hfalse.symm.trans hgreeted)
      · rfl
  | writeFails tx => exact hok
  | _ => rfl

theorem Talking.serve (hjson : json.HelloLaws) (ht : c.Talking json g k bufferMs initialVolume)
    {l : Net.Label} (hok : c.healthy (.serve l)) (h : c.serve json k l = some c') :
    c'.Talking json g k bufferMs initialVolume := by
  have hcourteous := ht.courteous hjson hok h
  obtain ⟨up, hu⟩ := ht.upstream
  have hread : ∃ up', c'.Upstream g k up' := by
    by_cases hl : ∀ bytes now, l ≠ .read k bytes now
    · exact ⟨up, hu.waits hl h⟩
    · push Not at hl
      obtain ⟨bytes, now, rfl⟩ := hl
      exact hu.read hjson (Net.reach_wired ht.attended.forget) h
  obtain ⟨up', net, hup, hstep, rfl⟩ := serve_eq_some.mp h
  refine ⟨.step ht.attended hcourteous ⟨hstep, rfl⟩, (Net.step_act hstep).fits ht.fits ?_,
    ht.txBuf, hread, ht.fault⟩
  rintro chunk rfl
  exact of_decide_eq_true hok

theorem Talking.poll (ht : c.Talking json g k bufferMs initialVolume) {now : ℤ}
    (h : c.poll now = some c') : c'.Talking json g k bufferMs initialVolume := by
  obtain ⟨up, hu⟩ := ht.upstream
  obtain ⟨hfault, rfl | ⟨q, -, -, -, hbytes, -, rfl⟩⟩ := poll_cases ht.txBuf h
  · exact ht
  · exact ⟨ht.attended, ht.fits, by rw [hbytes]; exact Time.frame_bytes_length ..,
      ⟨_, hu.push hbytes rfl rfl rfl⟩, ht.fault⟩

theorem Talking.hear (ht : c.Talking json g k bufferMs initialVolume) (hm : c.Matches json s)
    {now : ℤ} (hfault : c.fault = none) (h : c.hear json now = some c') :
    c'.Talking json g k bufferMs initialVolume := by
  obtain ⟨up, hu⟩ := ht.upstream
  obtain ⟨cur, msgs, hd, hs⟩ := hm
  obtain ⟨cur', hhears, -, -⟩ := hd.hears h
  have hfaults := hd.fault_eq (hs.machine ▸ hs.wired.sized) hhears hfault
  cases hhears with
  | header hinside hahead =>
      exact ⟨ht.attended, ht.fits, ht.txBuf, ⟨up, hu.congr rfl rfl rfl⟩, hfaults⟩
  | packet hinside hpacket =>
      exact ⟨ht.attended, ht.fits, ht.txBuf, ⟨up, hu.congr rfl rfl rfl⟩, hfaults⟩
  | fails hinside hpacket =>
      exact ⟨ht.attended, ht.fits, ht.txBuf, ⟨up, hu.congr rfl rfl rfl⟩, hfaults⟩

/-- What a step of the server does to what the client sees, if anything. -/
theorem Talking.serves (hjson : json.SettingsLaws) (ht : c.Talking json g k bufferMs initialVolume)
    (hd : c.Downstream json cur msgs) {l : Net.Label} (hok : c.healthy (.serve l))
    (h : c.serve json k l = some c') : Serves json c c' cur msgs l := by
  obtain ⟨up, hu⟩ := ht.upstream
  have hr := Net.reach_recorded (fun st => ⟨_, hjson.print st⟩) ht.attended
  cases htx : c.server.history.tx with
  | none =>
      refine .quiet (replying_eq_nil fun t now ht => ?_) (hd.serve_unattended htx h)
      cases htx.symm.trans ht
  | some tx =>
      have hl : l ≠ .writeFails tx := by
        rintro rfl
        simp [healthy, htx] at hok
      exact hd.serves hjson hu ht.fits (hr.served tx htx) htx hl h

/-- The server does not touch the client. -/
theorem serve_spec {l : Net.Label} (h : c.serve json k l = some c') :
    c'.machine = c.machine ∧ c'.requests = c.requests ∧ c'.messages = c.messages ∧
      c'.fault = c.fault := by
  obtain ⟨up, net, -, -, rfl⟩ := serve_eq_some.mp h
  exact ⟨rfl, rfl, rfl, rfl⟩

/-- What a step of the server is to the exchange. -/
theorem Matches.serve (hjson : json.SettingsLaws)
    (ht : c.Talking json g k bufferMs initialVolume) (hm : c.Matches json s) {l : Net.Label}
    (hok : c.healthy (.serve l)) (h : c.serve json k l = some c') :
    c'.Matches json s ∨ ∃ b s', Exchange.Step json s b s' ∧ c'.Matches json s' := by
  obtain ⟨cur, msgs, hd, hs⟩ := hm
  obtain ⟨hmachine, hrequests, -, -⟩ := serve_spec h
  cases ht.serves hjson hd hok h with
  | quiet hreplying hd' =>
      exact .inl ⟨cur, msgs, hd', hs.congr rfl rfl rfl hmachine hrequests⟩
  | @other _ d msg hreplying hreply hd' =>
      refine .inl ⟨_, _, hd', hs.congr rfl rfl ?_ hmachine hrequests⟩
      simp [Cursor.push, hreply]
  | @reply tx now msg r later q rest id hreplying hq hdrop hlater hd' =>
      obtain ⟨received, hreceived⟩ := hq.received
      obtain ⟨s', hstep, -, -, hs'⟩ :=
        hs.serve json (hs.requests_eq hdrop) received now id hmachine hrequests
      exact .inr ⟨_, s', hstep, _, _, hd' received hreceived, hs'⟩

theorem Matches.poll (hm : c.Matches json s) (htxBuf : c.txBuf.length = Time.wireSize) {now : ℤ}
    (h : c.poll now = some c') :
    c'.Matches json s ∨ ∃ b s', Exchange.Step json s b s' ∧ c'.Matches json s' := by
  obtain ⟨cur, msgs, hd, hs⟩ := hm
  have hd' := hd.poll htxBuf h
  exact (hs.poll json htxBuf h).imp (fun hs' => ⟨cur, msgs, hd', hs'⟩)
    fun ⟨_, s', hstep, _, _, hs'⟩ => ⟨_, s', hstep, cur, msgs, hd', hs'⟩

/-- A read of the client is a step of the exchange, unless its arithmetic overflows. -/
theorem Matches.hear (hm : c.Matches json s) {now : ℤ} (h : c.hear json now = some c')
    (hup : c'.fault = none) : ∃ b s', Exchange.Step json s b s' ∧ c'.Matches json s' := by
  obtain ⟨cur, msgs, hd, hs⟩ := hm
  obtain ⟨cur', hhears, hread, hrest⟩ := hd.hears h
  have hd' := hd.advance hhears hread hrest hup
  cases hhears with
  | header hinside hahead =>
      obtain ⟨s', hstep, -, -, hs'⟩ := hs.header json hinside hahead
      exact ⟨_, s', hstep, _, _, hd', hs'⟩
  | packet hinside hpacket =>
      obtain ⟨s', hstep, -, -, hs'⟩ :=
        hs.packet json hinside (hd.readingPacket hinside) hpacket
      exact ⟨_, s', hstep, _, _, hd', hs'⟩
  | fails hinside hpacket => cases hup

theorem poll_spec {now : ℤ} (h : c.poll now = some c') :
    c'.server = c.server ∧ c'.messages = c.messages := by
  rw [poll] at h
  split at h
  · split at h <;> cases h <;> exact ⟨rfl, rfl⟩
  · cases h

theorem hear_spec {now : ℤ} (h : c.hear json now = some c') :
    c.fault = none ∧ c'.server = c.server ∧ c'.requests = c.requests := by
  rw [hear] at h
  split at h
  · rename_i hready
    obtain rfl := Option.some.inj h
    refine ⟨hready.1, ?_⟩
    generalize c.machine.handleEvent json _ now = result
    obtain ⟨_ | message, machine⟩ := result
    · cases c.machine.nextAction <;> exact ⟨rfl, rfl⟩
    · cases c.machine.nextAction <;> exact ⟨rfl, rfl⟩
  · cases h

/-- A read that times out before its first byte leaves everything as it is. -/
theorem eq_of_timeout {n : ℕ} (hn : n = 0) (h : c.timeout n = some c') : c' = c := by
  subst hn
  rw [timeout] at h
  split at h
  · exact (Option.some.inj h).symm
  · cases h

/-- A state of a conversation and one of an exchange, as long as the client is up. -/
def Refines (json : SerdeJson) (g : Greeter) (k : ConnId) (bufferMs : UInt32)
    (initialVolume : UInt8) (c : Conversation) (s : Exchange) : Prop :=
  c.Talking json g k bufferMs initialVolume ∧ (c.fault = none → c.Matches json s)

/-- Every step of a conversation is a step of the exchange or none. -/
theorem Refines.step (hhello : json.HelloLaws) (hsettings : json.SettingsLaws)
    (hr : c.Refines json g k bufferMs initialVolume s) {l : Label} (hok : c.healthy l)
    (h : c.step json k l = some c') :
    c'.Refines json g k bufferMs initialVolume s ∨
      ∃ b s', Exchange.Step json s b s' ∧ c'.Refines json g k bufferMs initialVolume s' := by
  obtain ⟨ht, hm⟩ := hr
  cases l with
  | serve l =>
      change c.serve json k l = some c' at h
      have ht' := ht.serve hhello hok h
      obtain ⟨-, -, -, hfault⟩ := serve_spec h
      by_cases hup : c.fault = none
      · exact ((hm hup).serve hsettings ht hok h).imp (fun hm' => ⟨ht', fun _ => hm'⟩)
          fun ⟨b, s', hstep, hm'⟩ => ⟨b, s', hstep, ht', fun _ => hm'⟩
      · exact .inl ⟨ht', fun hup' => absurd (hfault.symm.trans hup') hup⟩
  | poll now =>
      change c.poll now = some c' at h
      have ht' := ht.poll h
      have hup := (poll_cases ht.txBuf h).1
      exact ((hm hup).poll ht.txBuf h).imp (fun hm' => ⟨ht', fun _ => hm'⟩)
        fun ⟨b, s', hstep, hm'⟩ => ⟨b, s', hstep, ht', fun _ => hm'⟩
  | hear now =>
      change c.hear json now = some c' at h
      have hup := (hear_spec h).1
      have ht' := ht.hear (hm hup) hup h
      by_cases hup' : c'.fault = none
      · obtain ⟨b, s', hstep, hm'⟩ := (hm hup).hear h hup'
        exact .inr ⟨b, s', hstep, ht', fun _ => hm'⟩
      · exact .inl ⟨ht', fun h => absurd h hup'⟩
  | pollFails now n => cases hok
  | timeout n =>
      obtain rfl := eq_of_timeout (of_decide_eq_true hok) h
      exact .inl ⟨ht, hm⟩
  | hearFails message => cases hok

theorem reach_refines (hhello : json.HelloLaws) (hsettings : json.SettingsLaws)
    (h : (system json k g.hello bufferMs initialVolume).Reach
      (fun c l => c.healthy l = true) c) :
    ∃ s, (Exchange.system json).Reachable s ∧ c.Refines json g k bufferMs initialVolume s := by
  refine h.exists_related ?_ fun c l c' s hr hok hstep =>
    (hr.step hhello hsettings hok hstep).imp_right fun ⟨b, s', hb, hr'⟩ =>
      ⟨b, s', trivial, hb, hr'⟩
  rintro c ⟨greeting, hgreeting, rfl⟩
  obtain rfl := Except.ok.inj ((g.asBuf_eq hhello).symm.trans hgreeting)
  exact ⟨.new, rfl, talking_start json g k bufferMs initialVolume,
    fun _ => matches_start json bufferMs initialVolume _⟩

theorem Simulated.inOrder (hs : c.Simulated cur s) : s.inOrder = c.requests := by
  rw [← hs.requests, Exchange.inOrder, hs.answers, hs.pending, hs.replies]
  have hinside : ((cur.inside.map Delivery.incoming).bind Incoming.reply?).toList =
      cur.inside.toList.filterMap Delivery.reply? := by
    cases cur.inside with
    | none => rfl
    | some d => cases d <;> rfl
  rw [hinside, Delivery.answered, Cursor.items]
  simp only [List.filterMap_append]

/-- A greeting of the session tests. -/
def sampleGreeter : Greeter :=
  ⟨.sample, by decide +kernel, by decide +kernel⟩

/-- A run from the start. -/
theorem exists_reach_of_labels (labels : List Label) (P : Conversation → Bool)
    (h : (TransitionSystem.run (step .compact 0) healthy labels
      (start 1000 50 (sampleGreeter.frame none).bytes)).any P = true) :
    ∃ c, (system .compact 0 sampleGreeter.hello 1000 50).Reach (fun c l => c.healthy l = true) c ∧
      P c = true := by
  obtain ⟨c, hrun, hP⟩ := (Option.any_eq_true _ _).mp h
  have hstart : (system .compact 0 sampleGreeter.hello 1000 50).Reach
      (fun c l => c.healthy l = true) (start 1000 50 (sampleGreeter.frame none).bytes) :=
    .init ⟨_, sampleGreeter.asBuf_eq SerdeJson.compact_helloLaws, rfl⟩
  exact ⟨c, hstart.run (fun _ _ _ hstep => hstep) hrun, hP⟩

/-- The client is accepted and greeted, and makes its first request. -/
def requestLabels : List Label :=
  let greeting : List Net.Label := .accept :: Net.helloLabels 0 .sample ++ Net.greetLabels 0 ++
    [.recv 0, .write 0 0, .recv 0, .write 0 0]
  greeting.map .serve ++ [.poll 1000]

/-- The request is answered, and the client hears its first three messages. -/
def answerLabels : List Label :=
  let request := Request.frame ⟨0, 1000, []⟩
  [.serve (.read 0 request.header 400), .serve (.read 0 request.payload 500), .serve (.send 0),
    .serve (.recv 0), .serve (.write 0 600), .hear 2000, .hear 2000, .hear 2000, .hear 2000,
    .hear 3000, .hear 3100]

/-! ## Results -/

/-- All messages that entered the queue of the connection. -/
def queued (c : Conversation) : List Outbound :=
  c.server.history.tx.elim [] fun tx => (c.server.state.channels tx).history

/-- In a run in which no write to the client fails, nor any call of the client, and no read of the
client times out within a header or payload, its machine is where some run of an exchange takes it,
with the same requests answered in the order they were made, and it has handed out the first
messages of its queue in the order they were queued. -/
theorem refines (hhello : json.HelloLaws) (hsettings : json.SettingsLaws)
    (h : (system json k g.hello bufferMs initialVolume).Reach (fun c l => c.healthy l = true) c)
    (hup : c.fault = none) :
    (∃ s, (Exchange.system json).Reachable s ∧ s.machine = c.machine ∧ s.inOrder = c.requests) ∧
      ∃ msgs, msgs <+: c.queued ∧ List.Forall₂ Outbound.HeardAs msgs c.messages := by
  obtain ⟨s, hs, -, hm⟩ := reach_refines hhello hsettings h
  obtain ⟨cur, msgs, hd, hsim⟩ := hm hup
  refine ⟨⟨s, hs, hsim.machine, hsim.inOrder⟩, _, ?_, hd.heard⟩
  refine (List.take_prefix _ _).trans ?_
  cases htx : c.server.history.tx with
  | none =>
      rw [hd.unattended htx]
      exact List.nil_prefix
  | some tx =>
      have htaken := hd.taken tx htx
      rw [queued, htx]
      exact (htaken ▸ List.prefix_append _ _ : msgs <+: _).trans
        (c.server.state.channels tx).taken_prefix_history

/-- The client has heard the settings, the codec header and the reply to its request. -/
theorem refines_answered :
    ∃ c : Conversation, c.messages.length = 3 ∧ c.requests.length = 1 ∧
      c.machine.clockOffset ≠ ClientMachine.new.clockOffset ∧
      (∃ s, (Exchange.system .compact).Reachable s ∧ s.machine = c.machine ∧
        s.inOrder = c.requests) ∧
      ∃ msgs, msgs <+: c.queued ∧ List.Forall₂ Outbound.HeardAs msgs c.messages := by
  obtain ⟨c, hc, hP⟩ := exists_reach_of_labels (requestLabels ++ answerLabels)
    (fun c => c.fault.isNone ∧ c.messages.length = 3 ∧ c.requests.length = 1 ∧
      c.machine.clockOffset ≠ ClientMachine.new.clockOffset) (by decide +kernel)
  obtain ⟨hup, hmessages, hrequests, hoffset⟩ := of_decide_eq_true hP
  exact ⟨c, hmessages, hrequests, hoffset,
    refines SerdeJson.compact_helloLaws SerdeJson.compact_settingsLaws hc
      (Option.isNone_iff_eq_none.mp hup)⟩

/-- Neither side refuses what the other sends in such a run: whatever of the client's bytes the
reader takes, the session accepts, and the client stops only when arithmetic on timestamps
overflows. -/
theorem neither_refuses (hhello : json.HelloLaws) (hsettings : json.SettingsLaws)
    (h : (system json k g.hello bufferMs initialVolume).Reach (fun c l => c.healthy l = true) c) :
    (∀ bytes now, bytes.length = (c.session k).nextAction.bytes →
        c.up.take bytes.length = bytes →
        ∃ out, c.server.state.output json k bytes now = .ok out) ∧
      ∀ fault, c.fault = some fault → fault = .panicked .overflow := by
  obtain ⟨s, -, ht, -⟩ := reach_refines hhello hsettings h
  obtain ⟨up, hu⟩ := ht.upstream
  refine ⟨fun bytes now hlen htake => ?_, ht.fault⟩
  obtain ⟨out, hout, -⟩ := hu.output hhello hlen htake
  exact ⟨out, hout⟩

theorem neither_refuses_request :
    ∃ (c : Conversation) (bytes : List UInt8), c.requests.length = 1 ∧
      bytes.length = (c.session 0).nextAction.bytes ∧ c.up.take bytes.length = bytes ∧
        (∃ out, c.server.state.output .compact 0 bytes 400 = .ok out) ∧
          ∀ fault, c.fault = some fault → fault = .panicked .overflow := by
  let request := Request.frame ⟨0, 1000, []⟩
  obtain ⟨c, hc, hP⟩ := exists_reach_of_labels requestLabels
    (fun c => c.requests.length = 1 ∧ request.header.length = (c.session 0).nextAction.bytes ∧
      c.up.take request.header.length = request.header) (by decide +kernel)
  obtain ⟨hrequests, hlen, htake⟩ := of_decide_eq_true hP
  have hnone := neither_refuses SerdeJson.compact_helloLaws SerdeJson.compact_settingsLaws hc
  exact ⟨c, request.header, hrequests, hlen, htake, hnone.1 request.header 400 hlen htake, hnone.2⟩

/-! ## At rest -/

/-- The steps of the server's threads, of the connection's reader and of the client's reading, in
which no call fails, while the sockets outside `accepts` take nothing. -/
def Label.Own (accepts : ChannelId → Prop) (k : ConnId) : Label → Prop
  | .serve l => l.Flows accepts ∨ ∃ bytes now, l = .read k bytes now
  | .hear _ => True
  | _ => False

variable {accepts : ChannelId → Prop}

theorem takes_smooth {l : Net.Label} (hl : l.Smooth) : c.takes k l = some c.up := by
  cases l with
  | read j bytes now => exact hl.elim
  | _ => rfl

theorem stuck_of_settled
    (h : (system json k g.hello bufferMs initialVolume).Settled (Label.Own accepts k) c) :
    c.server.state.Stuck json accepts := by
  intro l hl
  rw [Option.eq_none_iff_forall_ne_some]
  intro s' hstep
  exact h (.serve l) _ (.inl hl) (serve_eq_some.mpr ⟨_, s', takes_smooth hl.smooth, hstep, rfl⟩)

theorem exists_read {bytes : List UInt8}
    (hreading : (c.server.state.conns k).reader = .reading)
    (hlen : bytes.length = (c.session k).nextAction.bytes)
    (htake : c.up.take bytes.length = bytes) (now : ℤ) :
    ∃ c', c.serve json k (.read k bytes now) = some c' := by
  obtain ⟨s', hstep⟩ : ∃ s', c.server.state.step json (.read k bytes now) = some s' :=
    ⟨_, if_pos ⟨hreading, hlen⟩⟩
  have htakes : c.takes k (.read k bytes now) = some (c.up.drop bytes.length) := by
    rw [takes, if_pos rfl, if_pos htake]
  exact ⟨_, serve_eq_some.mpr ⟨_, s', htakes, hstep, rfl⟩⟩

/-- A reader that is left waits for more than the client has written. -/
theorem short_of_settled
    (h : (system json k g.hello bufferMs initialVolume).Settled (Label.Own accepts k) c)
    (hreading : (c.server.state.conns k).reader = .reading) :
    c.up.length < (c.session k).nextAction.bytes := by
  by_contra hlong
  have hlen := List.length_take_of_le (Nat.le_of_not_lt hlong)
  obtain ⟨c', hc'⟩ : ∃ c', c.serve json k (.read k _ 0) = some c' :=
    exists_read hreading hlen (by rw [hlen]) 0
  exact h (.serve (.read k _ 0)) c' (.inr ⟨_, _, rfl⟩) hc'

/-- The client waits for more than the writer has written. -/
theorem unheard_of_settled
    (h : (system json k g.hello bufferMs initialVolume).Settled (Label.Own accepts k) c)
    (hup : c.fault = none) : c.down.length < c.machine.nextAction.bytes := by
  by_contra hlong
  exact h (.hear 0) _ trivial (if_pos ⟨hup, Nat.le_of_not_lt hlong⟩)

theorem Upstream.wanted {up : Cursor (Option Request)} (hu : c.Upstream g k up) :
    (c.session k).nextAction.bytes = up.wanted (Frame.wire g.frame) := by
  rw [ServerSession.nextAction, hu.framing, Cursor.wanted]
  cases up.inside with
  | none => rfl
  | some item => exact (g.frame item).payload_length.symm

theorem Downstream.wanted (hd : c.Downstream json cur msgs) :
    c.machine.nextAction.bytes = cur.wanted (Frame.wire Delivery.frame) := by
  rw [ClientMachine.nextAction, hd.framing, Cursor.wanted]
  cases cur.inside with
  | none => rfl
  | some d => exact d.frame.payload_length.symm

/-- A connection that is read from after its greeting has a channel. -/
theorem Talking.exists_tx (hsettings : json.SettingsLaws)
    (ht : c.Talking json g k bufferMs initialVolume)
    (hreading : (c.server.state.conns k).reader = .reading)
    (hgreeted : (c.session k).greeted = true) :
    ∃ tx, c.server.history.tx = some tx ∧
      c.server.state.InService json k tx c.server.history := by
  have hr := Net.reach_recorded (fun st => ⟨_, hsettings.print st⟩) ht.attended
  cases htx : c.server.history.tx with
  | none =>
      have hfalse := (hr.unattended htx).1.reading hreading
      exact absurd (hfalse.symm.trans hgreeted) Bool.false_ne_true
  | some tx => exact ⟨tx, rfl, hr.served tx htx⟩

/-- Where nothing is left to do the client has heard all that was queued for it, and every request
it made is answered, as long as its socket takes what is written, the connection is read from and
the client is up. -/
theorem Refines.answered (hsettings : json.SettingsLaws)
    (hr : c.Refines json g k bufferMs initialVolume s)
    (h : (system json k g.hello bufferMs initialVolume).Settled (Label.Own accepts k) c)
    (haccepts : ∀ tx, c.server.history.tx = some tx → accepts tx)
    (hup : c.fault = none) (hreading : (c.server.state.conns k).reader = .reading) :
    s.machine = c.machine ∧ s.answers.map (·.reply.request) = c.requests ∧
      List.Forall₂ Outbound.HeardAs c.queued c.messages ∧ c.up = [] ∧ c.down = [] := by
  obtain ⟨ht, hm⟩ := hr
  obtain ⟨up, hu⟩ := ht.upstream
  obtain ⟨cur, msgs, hd, hs⟩ := hm hup
  have hstaffed := (Net.reach_kept ht.attended.forget).staffed
  -- The reader has taken every frame of the client, and the client every frame of the writer.
  have hshort := short_of_settled h hreading
  rw [hu.wanted, hu.rest] at hshort
  obtain ⟨hinside, hahead⟩ := Cursor.exhausted_of_length_lt hshort
  obtain ⟨hread, hnil⟩ := Cursor.items_of_exhausted (w := Frame.wire g.frame) hinside hahead
  have hunheard := unheard_of_settled h hup
  rw [hd.wanted, hd.rest] at hunheard
  obtain ⟨hinside', hahead'⟩ := Cursor.exhausted_of_length_lt hunheard
  obtain ⟨hheard, hnil'⟩ :=
    Cursor.items_of_exhausted (w := Frame.wire Delivery.frame) hinside' hahead'
  rw [hu.items] at hread
  have hgreeted : (c.session k).greeted = true := by
    rw [hu.greeted, ← hread]
    rfl
  obtain ⟨tx, htx, hserved⟩ := ht.exists_tx hsettings hreading hgreeted
  -- The queue is empty, and so is the writer's hand.
  have hline : (c.server.state.channels tx).queue = [] ∧
      (c.server.state.writers tx).state.inHand = [] := by
    rcases (stuck_of_settled h).writer tx with hstopped | ⟨hreceiving, hqueue, -⟩ | ⟨hrefused, -⟩
    · have hgone : (c.server.state.channels tx).connected = false := by
        by_contra hconnected
        exact (hstaffed.line tx).writer.mp (by simpa using hconnected) hstopped
      exact ⟨(hstaffed.line tx).queue hgone, by rw [hstopped]; rfl⟩
    · exact ⟨hqueue, by rw [hreceiving]; rfl⟩
    · exact absurd (haccepts tx htx) hrefused
  have htaken := hd.taken tx htx
  rw [hline.2, List.append_nil] at htaken
  have hhistory : (c.server.state.channels tx).history = msgs :=
    (Channel.history_of_queue_eq_nil hline.1).trans htaken
  -- As many replies were queued as the client made requests.
  have hcount : (Delivery.answered cur.items).length = c.requests.length := by
    have hanswered := hserved.answered
    have hasked := hu.asked.length_eq
    rw [Net.Answered, hhistory, hreading] at hanswered
    rw [← hread, List.reduceOption_cons_of_none, List.reduceOption, List.filterMap_map,
      Function.id_comp, List.filterMap_some] at hasked
    rw [Delivery.length_answered hd.carried, hasked, ← hanswered]
    exact congrArg List.length (List.append_nil _).symm
  have hrequests := hs.requests
  have hpending : s.requests = [] := by
    have hlength := congrArg List.length hrequests
    rw [List.length_append, hcount] at hlength
    exact List.eq_nil_of_length_eq_zero (by omega)
  have hmsgs : msgs.take cur.taken.length = msgs := by
    rw [← hheard, hd.carried.length_eq, List.take_length]
  refine ⟨hs.machine, ?_, ?_, hu.rest.trans hnil, hd.rest.trans hnil'⟩
  · rw [hpending, List.append_nil, hheard, Delivery.answered, ← hs.answers] at hrequests
    rw [← hrequests, List.map_map]
    rfl
  · have hqueued : c.queued = msgs := by
      rw [queued, htx]
      exact hhistory
    rw [hqueued, ← hmsgs]
    exact hd.heard

end Conversation

end SnapcastClient
