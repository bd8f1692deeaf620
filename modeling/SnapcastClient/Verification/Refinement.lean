import SnapcastClient.Verification.Conversation
import SnapcastClient.Verification.Rejected

/-! # A conversation refines an exchange

Through the threads of the server, the queue of the connection and both byte streams, a client
sees what it would see of a session that answers its requests one by one. -/

namespace SnapcastClient

/-! ## What the client makes of a message -/

/-- The message a client's machine hands out for a message of its queue. -/
inductive Outbound.HeardAs : Outbound → Message → Prop where
  | expired {ec : EncodedChunk} {lateness : TimeVal} : HeardAs (.chunk ec) (.expired lateness)
  | wireChunk {ec : EncodedChunk} {audibleAt : TimeVal} :
      HeardAs (.chunk ec) (.wireChunk ⟨ec.timestamp, ec.data⟩ audibleAt)
  | settings {st : ServerSettings} : HeardAs (.settings st) (.serverSettings st)
  | codecHeader : HeardAs .codecHeader (.codecHeader opusCodecHeader)
  | timeReply {refersTo : UInt16} {clientSent received : TimeVal} :
      HeardAs (.timeReply refersTo clientSent received) .nothing

theorem ClientMachine.processWireChunk_heard {m : ClientMachine} {ec : EncodedChunk}
    {recvTs : TimeVal} {message : Message}
    (h : m.processWireChunk ⟨ec.timestamp, ec.data⟩ recvTs = .ok message) :
    (Outbound.chunk ec).HeardAs message := by
  obtain ⟨tc, -, h⟩ := bind_eq_ok.mp h
  obtain ⟨buffered, -, h⟩ := bind_eq_ok.mp h
  obtain ⟨audible, -, h⟩ := bind_eq_ok.mp h
  obtain ⟨cmp, -, h⟩ := bind_eq_ok.mp h
  split at h
  · obtain rfl := Except.ok.inj h
    exact .expired
  · obtain rfl := Except.ok.inj h
    exact .wireChunk

/-- A frame that carries a message is heard as that message. -/
theorem ClientMachine.heardAs_of_processPacket {json : SerdeJson} {m : ClientMachine}
    {msg : Outbound} {frame : Frame} (h : msg.Travels json frame) {now : ℤ} {message : Message}
    (hmessage : (processPacket json m frame.base frame.payload now).1 = .ok message) :
    msg.HeardAs message := by
  have hdecode := h.decode
  cases msg with
  | chunk ec =>
      rw [processPacket_wireChunk hdecode] at hmessage
      exact processWireChunk_heard hmessage
  | settings st =>
      simp only [processPacket, hdecode, Outbound.message] at hmessage
      split at hmessage
      · cases hmessage
      · cases hmessage
        exact .settings
  | codecHeader =>
      simp only [processPacket, hdecode, Outbound.message] at hmessage
      cases hmessage
      exact .codecHeader
  | timeReply refersTo clientSent received =>
      simp only [processPacket, hdecode, Outbound.message] at hmessage
      split at hmessage
      · cases hmessage
      · cases hmessage
        exact .timeReply

/-- A reply hands nothing out. -/
theorem ClientMachine.nothing_of_time {json : SerdeJson} {m m' : ClientMachine} {base : Base}
    (hbase : base.mtype = .time) {latency : TimeVal} {now : ℤ} {message : Message}
    (h : processPacket json m base latency.asBuf now = (.ok message, m')) : message = .nothing := by
  rw [processPacket_time hbase] at h
  split at h
  · cases h
  · cases h
    rfl

/-- It is heard unless the arithmetic on its timestamps overflows. -/
theorem ClientMachine.checked_processPacket {json : SerdeJson} {m : ClientMachine}
    (hsized : m.Sized) {msg : Outbound} {frame : Frame} (h : msg.Travels json frame) (now : ℤ) :
    Checked (processPacket json m frame.base frame.payload now).1 := by
  have hdecode := h.decode
  cases msg with
  | chunk ec =>
      rw [processPacket_wireChunk hdecode]
      exact checked_processWireChunk m _ _
  | settings st =>
      have hchecked := checked_processSettings m st
      simp only [processPacket, hdecode, Outbound.message]
      cases hsettings : m.processSettings st with
      | error fault =>
          rintro f ⟨⟩
          exact hchecked _ hsettings
      | ok m' => exact checked_ok _
  | codecHeader =>
      simp only [processPacket, hdecode, Outbound.message]
      exact checked_ok _
  | timeReply refersTo clientSent received =>
      exact checked_processPacket_time hsized hdecode now

/-! ## Deliveries -/

/-- The step of an exchange that handles a header. -/
def Incoming.header : Incoming → Exchange.Label
  | reply r => .replyHeader r
  | other frame => .otherHeader frame

/-- A frame of the server, with the request it answers and when if it is a reply. -/
inductive Delivery where
  | reply (request : Request) (received sent : ℤ) (id : UInt16)
  | other (frame : Frame) (notTime : frame.base.mtype ≠ .time)

namespace Delivery

variable {json : SerdeJson}

def frame : Delivery → Frame
  | reply q received sent id =>
      Time.frame id q.id (.fromMicros sent) (.fromMicros received) (.fromMicros q.stamp)
  | other frame _ => frame

def reply? (d : Delivery) : Option Reply :=
  match d with
  | reply q received sent _ => some ⟨q, received, sent, d.frame.bytes⟩
  | other _ _ => none

/-- How the exchange sees it arrive. -/
def incoming (d : Delivery) : Incoming :=
  match d with
  | reply q received sent _ => .reply ⟨q, received, sent, d.frame.bytes⟩
  | other frame _ => .other frame

/-- The requests that are answered. -/
def answered (ds : List Delivery) : List Request :=
  (ds.filterMap reply?).map Reply.request

@[simp] theorem answered_nil : answered [] = [] := rfl

@[simp] theorem answered_append (ds ds' : List Delivery) :
    answered (ds ++ ds') = answered ds ++ answered ds' := by
  simp [answered]

/-- A delivery carries a message of the queue. -/
structure Carries (json : SerdeJson) (d : Delivery) (msg : Outbound) : Prop where
  travels : msg.Travels json d.frame
  reply : ∀ r, d.reply? = some r →
    msg = .timeReply r.request.id (.fromMicros r.request.stamp) (.fromMicros r.received)

theorem Carries.isSome_iff {d : Delivery} {msg : Outbound} (h : d.Carries json msg) :
    d.reply?.isSome ↔ msg.request?.isSome := by
  rw [← h.travels.time]
  cases d with
  | reply q received sent id => exact iff_of_true rfl rfl
  | other frame notTime => exact iff_of_false (by simp [reply?]) notTime

theorem length_answered {ds : List Delivery} {msgs : List Outbound}
    (h : List.Forall₂ (Carries json) ds msgs) :
    (answered ds).length = (msgs.filterMap Outbound.request?).length := by
  induction h with
  | nil => rfl
  | @cons d msg ds msgs hd _ ih =>
      have hsome := hd.isSome_iff
      simp only [answered, List.length_map, List.filterMap_cons] at ih ⊢
      cases hreply : d.reply? with
      | none =>
          have hnone : msg.request? = none := by simpa [hreply] using hsome
          rw [hnone]
          exact ih
      | some r =>
          obtain ⟨request, hrequest⟩ := Option.isSome_iff_exists.mp (hsome.mp (by simp [hreply]))
          rw [hrequest, List.length_cons, List.length_cons, ih]

/-- What is written for a reply to a request of the client. -/
theorem reply_spec {q : Request} {r : TimeRequest} (hq : q.Asks r) {received : ℤ}
    (hreceived : r.received = .fromMicros received) {msg : Outbound}
    (hmsg : msg.request? = some r) {id : UInt16} {sent : ℤ} {buf : List UInt8}
    (hbuf : msg.asBuf json id (.fromMicros sent) = .ok buf) :
    (reply q received sent id).frame.bytes = buf ∧
      (reply q received sent id).Carries json msg := by
  have hid := hq.id
  have hclientSent := hq.clientSent
  cases msg with
  | timeReply refersTo clientSent receivedTv =>
      obtain rfl := Option.some.inj hmsg
      simp only at hid hclientSent hreceived
      subst hid hclientSent hreceived
      refine ⟨?_, ?_, ?_⟩
      · rw [Outbound.asBuf, Time.asBuf_eq_frame] at hbuf
        exact Except.ok.inj hbuf
      · refine ⟨?_, iff_of_true rfl rfl⟩
        change ServerMessage.time <$> Time.tryFrom (TimeVal.fromMicros q.stamp).asBuf = _
        rw [Time.tryFrom_asBuf]
        rfl
      · rintro r ⟨⟩
        rfl
  | _ => cases hmsg

/-- What is written for any other message. -/
theorem exists_other (hjson : json.SettingsLaws) {msg : Outbound} (hmsg : msg.request? = none)
    (hfits : ∀ ec, msg = .chunk ec → ec.data.length ≤ Base.maxPayload - 12) {id : UInt16}
    {now : TimeVal} {buf : List UInt8} (hbuf : msg.asBuf json id now = .ok buf) :
    ∃ d : Delivery, d.frame.bytes = buf ∧ d.Carries json msg ∧ d.reply? = none := by
  obtain ⟨frame, hframe, htravels, -⟩ := msg.exists_frame hjson hfits id now
  have htime : frame.base.mtype ≠ .time := fun h => by
    have hsome := htravels.time.mp h
    rw [hmsg] at hsome
    cases hsome
  exact ⟨.other frame htime, Except.ok.inj (hframe.symm.trans hbuf),
    ⟨htravels, by rintro r ⟨⟩⟩, rfl⟩

end Delivery

/-! ## The writer of the connection -/

namespace Net

variable {json : SerdeJson} {s s' : Net} {l : Label} {k : ConnId} {tx : ChannelId}

/-- What a step does to the messages taken from a queue and to the buffers written. -/
inductive Puts (json : SerdeJson) (s s' : Net) (tx : ChannelId) : Label → Prop where
  | keeps {l : Label} :
      (s'.channels tx).taken = (s.channels tx).taken →
      (s'.writers tx).state.inHand = (s.writers tx).state.inHand →
      (s'.writers tx).written = (s.writers tx).written → Puts json s s' tx l
  | takes {l : Label} {msg : Outbound} :
      (s'.channels tx).taken = (s.channels tx).taken ++ [msg] →
      (s.writers tx).state.inHand = [] → (s'.writers tx).state.inHand = [msg] →
      (s'.writers tx).written = (s.writers tx).written → Puts json s s' tx l
  | writes {msg : Outbound} {id : UInt16} {now : ℤ} {buf : List UInt8} :
      (s'.channels tx).taken = (s.channels tx).taken →
      (s.writers tx).state.inHand = [msg] → (s'.writers tx).state.inHand = [] →
      msg.asBuf json id (.fromMicros now) = .ok buf →
      (s'.writers tx).written = (s.writers tx).written ++ [buf] →
      Puts json s s' tx (.write tx now)

theorem Turn.puts (h : Turn json s k tx l s') : Puts json s s' tx l := by
  cases h with
  | waits hconcerns hconn hchannel hwriter =>
      exact .keeps (by rw [hchannel]) (by rw [hwriter]) (by rw [hwriter])
  | moves hmove hchannel hwriter =>
      exact .keeps (by rw [hchannel]) (by rw [hwriter]) (by rw [hwriter])
  | sends hsends hsent hwriter =>
      exact .keeps hsent.taken (by rw [hwriter]) (by rw [hwriter])
  | carries hline hconn =>
      generalize hc : s'.channels tx = c, hw : s'.writers tx = w at hline
      cases hline with
      | settings hsent => exact .keeps (hc ▸ hsent.taken) (by rw [hw]) (by rw [hw])
      | @offered id now later scan h result c hscan hget htx hsend =>
          refine .keeps ?_ (by rw [hw]) (by rw [hw])
          rw [hc]
          cases result with
          | sent => exact (Channel.trySend_sent hsend).taken
          | full => rw [Channel.trySend_full hsend]
          | disconnected => rw [(Channel.trySend_disconnected hsend).1]
      | recv hstate hrecv =>
          exact .takes (hc ▸ (Channel.recv_spec hrecv).2.1) (by rw [hstate]; rfl) (by rw [hw]; rfl)
            (by rw [hw])
      | wrote hstate hbuf =>
          exact .writes (by rw [hc]) (by rw [hstate]; rfl) (by rw [hw]; rfl) hbuf (by rw [hw])
      | hangup hstate hqueue hheld =>
          exact .keeps (by rw [hc]; rfl) (by rw [hw, hstate]; rfl) (by rw [hw])

/-- A writer that writes has a message in hand, and none afterwards. -/
theorem Act.inHand_of_write (hjson : ∀ st, ∃ text, json.settingsToString st = .ok text) {now : ℤ}
    (h : Act json s (.write tx now) s') :
    (s.writers tx).state.inHand ≠ [] ∧ (s'.writers tx).state.inHand = [] := by
  cases h with
  | wrote hstate hbuf =>
      refine ⟨?_, by simp only [setWriter, Function.update_self, WriterState.inHand]⟩
      rw [hstate]
      exact List.cons_ne_nil _ _
  | @writePanics _ _ msg fault hbuf =>
      obtain ⟨base, payload, hasBuf, -⟩ :=
        msg.exists_asBuf hjson (s.writers tx).id (.fromMicros now)
      cases hasBuf.symm.trans hbuf

end Net

namespace Conversation

variable {json : SerdeJson} {k : ConnId} {g : Greeter} {c c' : Conversation} {l : Net.Label}
  {tx : ChannelId} {up : Cursor (Option Request)} {cur : Cursor Delivery} {msgs : List Outbound}
  {s : Exchange}

/-- The client has read the frames of its messages up to a cursor. -/
structure Downstream (json : SerdeJson) (c : Conversation) (cur : Cursor Delivery)
    (msgs : List Outbound) : Prop where
  unattended : c.server.history.tx = none → msgs = []
  taken : ∀ tx, c.server.history.tx = some tx →
    (c.server.state.channels tx).taken = msgs ++ (c.server.state.writers tx).state.inHand
  written : ∀ tx, c.server.history.tx = some tx →
    (c.server.state.writers tx).written = cur.items.map fun d => d.frame.bytes
  carried : List.Forall₂ (Delivery.Carries json) cur.items msgs
  read_le : c.read ≤ c.written.length
  rest : c.down = cur.rest (Frame.wire Delivery.frame)
  framing : c.machine.framing = .within (cur.inside.map Delivery.frame)
  heard : List.Forall₂ Outbound.HeardAs (msgs.take cur.taken.length) c.messages

/-- What the client has read, and what it has yet to read, as an exchange. -/
structure Simulated (c : Conversation) (cur : Cursor Delivery) (s : Exchange) : Prop where
  wired : s.Wired
  machine : s.machine = c.machine
  pending : s.pending = cur.inside.map Delivery.incoming
  replies : s.replies = cur.ahead.filterMap Delivery.reply?
  answers : s.answers.map Answer.reply = cur.taken.filterMap Delivery.reply?
  requests : Delivery.answered cur.items ++ s.requests = c.requests

theorem written_of_tx (htx : c.server.history.tx = some tx) :
    c.written = (c.server.state.writers tx).written.flatten := by
  rw [written, htx]
  rfl

theorem written_of_none (htx : c.server.history.tx = none) : c.written = [] := by
  rw [written, htx]
  rfl

theorem length_down : c.down.length = c.written.length - c.read := by
  rw [down, List.length_drop]

/-- Steps that write nothing on the connection keep the stream. -/
theorem Downstream.keeps (hd : c.Downstream json cur msgs)
    (htx : c'.server.history.tx = c.server.history.tx)
    (htaken : ∀ tx, c.server.history.tx = some tx → (c'.server.state.channels tx).taken =
      msgs ++ (c'.server.state.writers tx).state.inHand)
    (hwritten : ∀ tx, c.server.history.tx = some tx →
      (c'.server.state.writers tx).written = (c.server.state.writers tx).written)
    (hread : c'.read = c.read) (hmachine : c'.machine.framing = c.machine.framing)
    (hmessages : c'.messages = c.messages) : c'.Downstream json cur msgs := by
  have hall : c'.written = c.written := by
    cases htx' : c.server.history.tx with
    | none => rw [written_of_none (htx.trans htx'), written_of_none htx']
    | some tx => rw [written_of_tx (htx.trans htx'), written_of_tx htx', hwritten tx htx']
  refine ⟨htx ▸ hd.unattended, fun tx h => htaken tx (htx ▸ h),
    fun tx h => (hwritten tx (htx ▸ h)).trans (hd.written tx (htx ▸ h)), hd.carried, ?_, ?_,
    hmachine.trans hd.framing, hmessages ▸ hd.heard⟩
  · rw [hread, hall]
    exact hd.read_le
  · rw [down, hread, hall]
    exact hd.rest

/-- A buffer of the writer is a frame at the end of the stream. -/
theorem Downstream.push (hd : c.Downstream json cur msgs) {d : Delivery} {msg : Outbound}
    (hcarries : d.Carries json msg) (htx : c.server.history.tx = some tx)
    (htx' : c'.server.history.tx = some tx)
    (htaken : (c'.server.state.channels tx).taken =
      msgs ++ [msg] ++ (c'.server.state.writers tx).state.inHand)
    (hwritten : (c'.server.state.writers tx).written =
      (c.server.state.writers tx).written ++ [d.frame.bytes])
    (hread : c'.read = c.read) (hmachine : c'.machine.framing = c.machine.framing)
    (hmessages : c'.messages = c.messages) : c'.Downstream json (cur.push d) (msgs ++ [msg]) := by
  have hall : c'.written = c.written ++ d.frame.bytes := by
    rw [written_of_tx htx', written_of_tx htx, hwritten, List.flatten_append,
      List.flatten_singleton]
  have hlength := hd.carried.length_eq
  have htakenLength : cur.taken.length ≤ msgs.length := by
    rw [← hlength, Cursor.items, List.length_append, List.length_append]
    omega
  refine ⟨fun h => absurd (htx'.symm.trans h) (by simp), ?_, ?_, ?_, ?_, ?_,
    hmachine.trans hd.framing, ?_⟩
  · intro t ht
    obtain rfl := Option.some.inj (htx'.symm.trans ht)
    exact htaken
  · intro t ht
    obtain rfl := Option.some.inj (htx'.symm.trans ht)
    rw [hwritten, hd.written tx htx, Cursor.items_push, List.map_append]
    rfl
  · rw [Cursor.items_push]
    exact List.rel_append hd.carried (.cons hcarries .nil)
  · rw [hread, hall, List.length_append]
    exact hd.read_le.trans (Nat.le_add_right _ _)
  · rw [down, hread, hall, List.drop_append_of_le_length hd.read_le, Cursor.rest_push, ← hd.rest]
    rfl
  · change List.Forall₂ _ ((msgs ++ [msg]).take cur.taken.length) _
    rw [List.take_append_of_le_length htakenLength, hmessages]
    exact hd.heard

/-! ### Steps of the server -/

/-- A message that answers a request answers the next one of the client's. -/
theorem Upstream.request (hu : c.Upstream g k up)
    (hanswered : c.server.state.Answered k tx c.server.history) {msg : Outbound} {r : TimeRequest}
    (hmsg : msg.request? = some r) (htaken : (c.server.state.channels tx).taken = msgs ++ [msg]) :
    ∃ q rest later, q.Asks r ∧
      c.requests.drop (msgs.filterMap Outbound.request?).length = q :: rest ∧
      c.server.history.requests.drop (msgs.filterMap Outbound.request?).length = r :: later := by
  obtain ⟨later, hlater⟩ := (c.server.state.channels tx).taken_prefix_history
  rw [Net.Answered, ← hlater, htaken] at hanswered
  simp only [List.filterMap_append, List.filterMap_cons, hmsg, List.filterMap_nil,
    List.append_assoc] at hanswered
  have hasked := List.forall₂_drop (msgs.filterMap Outbound.request?).length hu.asked
  have hserved : c.server.history.requests.drop (msgs.filterMap Outbound.request?).length = _ :=
    (congrArg _ hanswered.symm).trans (List.drop_left' rfl)
  rw [hserved] at hasked
  have hrequests : up.taken.reduceOption ++ (up.inside.toList ++ up.ahead).reduceOption =
      c.requests := by
    have hitems := congrArg List.reduceOption hu.items
    rwa [Cursor.items, List.append_assoc, List.reduceOption_append, List.reduceOption_cons_of_none,
      List.reduceOption, List.filterMap_map, Function.id_comp, List.filterMap_some] at hitems
  obtain ⟨q, rest, hq, -, hdrop⟩ := List.forall₂_cons_right_iff.mp hasked
  exact ⟨q, _, _, hq, by rw [← hrequests, List.drop_append, hdrop, List.cons_append], hserved⟩

/-- A frame that is no reply is nothing to the exchange, and neither is a step that leaves the
client and its stream alone. -/
theorem Simulated.congr {cur' : Cursor Delivery} (hs : c.Simulated cur s)
    (htaken : cur'.taken = cur.taken) (hinside : cur'.inside = cur.inside)
    (hahead : cur'.ahead.filterMap Delivery.reply? = cur.ahead.filterMap Delivery.reply?)
    (hmachine : c'.machine = c.machine) (hrequests : c'.requests = c.requests) :
    c'.Simulated cur' s := by
  refine ⟨hs.wired, hs.machine.trans hmachine.symm, hinside ▸ hs.pending, hs.replies.trans
    hahead.symm, htaken ▸ hs.answers, ?_⟩
  rw [hrequests, ← hs.requests, Delivery.answered, Delivery.answered, Cursor.items, Cursor.items]
  simp only [List.filterMap_append, htaken, hinside, hahead]

/-- A reply of the server is one of the exchange. -/
theorem Simulated.serve (json : SerdeJson) (hs : c.Simulated cur s) {q : Request}
    {rest : List Request} (hq : s.requests = q :: rest) (received sent : ℤ) (id : UInt16)
    (hmachine : c'.machine = c.machine) (hrequests : c'.requests = c.requests) :
    ∃ s', Exchange.Step json s (.serve q received sent) s' ∧ s'.answers = s.answers ∧
      s'.settings = s.settings ∧ c'.Simulated (cur.push (.reply q received sent id)) s' := by
  have hmem : q ∈ s.requests := hq ▸ List.mem_cons_self
  have hfeed : s.session.feed json q.bytes (.fromMicros received) =
      (.ok (.timeRequest q.id (.fromMicros q.stamp) (.fromMicros received)), s.session) := by
    rw [hs.wired.session, hs.wired.requests q hmem, Request.frame, ServerSession.feed_time]
  have hstep : Exchange.Step json s (.serve q received sent) _ :=
    .serve hmem hfeed (Time.asBuf_eq_frame id ..)
  refine ⟨_, hstep, rfl, rfl, (hstep.effect hs.wired).wired hs.wired,
    hs.machine.trans hmachine.symm, hs.pending, ?_, hs.answers, ?_⟩
  · rw [hs.replies]
    simp [Cursor.push, Delivery.reply?, Delivery.frame]
  · rw [hrequests, ← hs.requests, hq, List.erase_cons_head, Cursor.items_push,
      Delivery.answered_append, List.append_assoc]
    rfl

/-- The stream of a connection that has no channel yet. -/
theorem Downstream.spawned (hd : c.Downstream json cur msgs)
    (htx : c.server.history.tx = none) (htx' : c'.server.history.tx = some tx)
    (htaken : (c'.server.state.channels tx).taken = [])
    (hwriter : c'.server.state.writers tx = ⟨.receiving, 0, []⟩)
    (hread : c'.read = c.read) (hmachine : c'.machine.framing = c.machine.framing)
    (hmessages : c'.messages = c.messages) : c'.Downstream json cur msgs := by
  obtain rfl := hd.unattended htx
  have hitems : cur.items = [] := List.forall₂_nil_right_iff.mp hd.carried
  have hwritten : c.written = [] := written_of_none htx
  have hwritten' : c'.written = [] := by rw [written_of_tx htx', hwriter, List.flatten_nil]
  refine ⟨fun _ => rfl, ?_, ?_, hd.carried, ?_, ?_, hmachine.trans hd.framing, hmessages ▸ hd.heard⟩
  · intro t ht
    obtain rfl := Option.some.inj (htx'.symm.trans ht)
    rw [htaken, hwriter]
    rfl
  · intro t ht
    obtain rfl := Option.some.inj (htx'.symm.trans ht)
    rw [hwriter, hitems]
    rfl
  · rw [hread, hwritten', ← hwritten]
    exact hd.read_le
  · rw [down, hread, hwritten', ← hwritten]
    exact hd.rest

/-- While the connection has no channel nothing is written on it. -/
theorem Downstream.serve_unattended (hd : c.Downstream json cur msgs)
    (htx : c.server.history.tx = none) (h : c.serve json k l = some c') :
    c'.Downstream json cur msgs := by
  obtain ⟨up, s, hup, hstep, rfl⟩ := serve_eq_some.mp h
  by_cases hl : l = .spawn k
  · subst hl
    have htx' : (c.server.state.attend json k c.server.history (.spawn k)).tx =
      some c.server.state.created := if_pos rfl
    refine hd.spawned htx htx' ?_ ?_ rfl rfl rfl
    · cases Net.step_act hstep with
      | spawn hreader => simp [Net.setWriter, Net.setChannel, Channel.new]
    · cases Net.step_act hstep with
      | spawn hreader => simp [Net.setWriter]
  · exact hd.keeps (Net.attend_tx hl) (by simp [htx]) (by simp [htx]) rfl rfl rfl

/-- The requests whose replies a step of the server writes on the connection. -/
def replying (c : Conversation) : Net.Label → List TimeRequest
  | .write tx _ =>
      if c.server.history.tx = some tx then
        (c.server.state.writers tx).state.inHand.filterMap Outbound.request?
      else []
  | _ => []

theorem replying_write (htx : c.server.history.tx = some tx) (now : ℤ) :
    c.replying (.write tx now) =
      (c.server.state.writers tx).state.inHand.filterMap Outbound.request? :=
  if_pos htx

theorem replying_eq_nil (hl : ∀ tx now, c.server.history.tx = some tx → l ≠ .write tx now) :
    c.replying l = [] := by
  cases l with
  | write tx now => exact if_neg fun htx => hl tx now htx rfl
  | _ => rfl

/-- What a step of the server does to the client's stream: nothing, or it puts a frame at its end,
which may be the reply to the next request. -/
inductive Serves (json : SerdeJson) (c c' : Conversation) (cur : Cursor Delivery)
    (msgs : List Outbound) : Net.Label → Prop where
  | quiet {l : Net.Label} :
      c.replying l = [] → c'.Downstream json cur msgs → Serves json c c' cur msgs l
  | other {l : Net.Label} {d : Delivery} {msg : Outbound} :
      c.replying l = [] → d.reply? = none → c'.Downstream json (cur.push d) (msgs ++ [msg]) →
      Serves json c c' cur msgs l
  | reply {tx : ChannelId} {now : ℤ} {msg : Outbound} {r : TimeRequest} {later : List TimeRequest}
      {q : Request} {rest : List Request} {id : UInt16} :
      c.replying (.write tx now) = [r] → q.Asks r →
      c.requests.drop (Delivery.answered cur.items).length = q :: rest →
      c.server.history.requests.drop (Delivery.answered cur.items).length = r :: later →
      (∀ received, r.received = .fromMicros received →
        c'.Downstream json (cur.push (.reply q received now id)) (msgs ++ [msg])) →
      Serves json c c' cur msgs (.write tx now)

theorem Downstream.serves (hjson : json.SettingsLaws) (hd : c.Downstream json cur msgs)
    (hu : c.Upstream g k up) (hf : c.server.state.Fits)
    (hserved : c.server.state.InService json k tx c.server.history)
    (htx : c.server.history.tx = some tx) (hl : l ≠ .writeFails tx)
    (h : c.serve json k l = some c') : Serves json c c' cur msgs l := by
  obtain ⟨up', net, hup, hstep, rfl⟩ := serve_eq_some.mp h
  have hact := Net.step_act hstep
  have hspawn : l ≠ .spawn k := by
    rintro rfl
    cases hact with
    | spawn hreader => exact hserved.attended.cloned hreader
  have htx' : (c.server.state.attend json k c.server.history l).tx = c.server.history.tx :=
    Net.attend_tx hspawn
  have htaken := hd.taken tx htx
  have hsilent (hno : ∀ now, l ≠ .write tx now) : c.replying l = [] := by
    refine replying_eq_nil fun t now ht => ?_
    obtain rfl := Option.some.inj (htx.symm.trans ht)
    exact hno now
  have hhands (now : ℤ) (hwrite : l = .write tx now) :
      (c.server.state.writers tx).state.inHand ≠ [] ∧ (net.writers tx).state.inHand = [] := by
    subst hwrite
    exact hact.inHand_of_write fun st => ⟨_, hjson.print st⟩
  cases (hserved.attended.turn (fun st => ⟨_, hjson.print st⟩) hl hact).puts with
  | keeps htaken' hinHand hwritten =>
      refine .quiet (hsilent fun now hwrite => ?_) (hd.keeps htx' ?_ ?_ rfl rfl rfl)
      · obtain ⟨hne, hnil⟩ := hhands now hwrite
        exact hne (hinHand.symm.trans hnil)
      · intro t ht
        obtain rfl := Option.some.inj (htx.symm.trans ht)
        exact (htaken'.trans htaken).trans (hinHand ▸ rfl)
      · intro t ht
        obtain rfl := Option.some.inj (htx.symm.trans ht)
        exact hwritten
  | @takes _ msg htaken' hinHand hinHand' hwritten =>
      refine .quiet (hsilent fun now hwrite => (hhands now hwrite).1 hinHand)
        (hd.keeps htx' ?_ ?_ rfl rfl rfl)
      · intro t ht
        obtain rfl := Option.some.inj (htx.symm.trans ht)
        rw [hinHand, List.append_nil] at htaken
        change (net.channels tx).taken = msgs ++ (net.writers tx).state.inHand
        rw [htaken', htaken, hinHand']
      · intro t ht
        obtain rfl := Option.some.inj (htx.symm.trans ht)
        exact hwritten
  | @writes msg id now buf htaken' hinHand hinHand' hbuf hwritten =>
      have hreplying := replying_write htx now
      rw [hinHand] at htaken hreplying
      have hkeep : (net.channels tx).taken = msgs ++ [msg] ++ (net.writers tx).state.inHand := by
        rw [htaken', htaken, hinHand', List.append_nil]
      cases hrequest : msg.request? with
      | none =>
          have hfits (ec : EncodedChunk) (hec : msg = .chunk ec) :
              ec.data.length ≤ Base.maxPayload - 12 := by
            refine hf.queued tx ec ((c.server.state.channels tx).taken_prefix_history.mem ?_)
            rw [htaken, hec]
            exact List.mem_append_right _ List.mem_cons_self
          obtain ⟨d, rfl, hcarries, hreply⟩ := Delivery.exists_other hjson hrequest hfits hbuf
          refine .other (hreplying.trans ?_) hreply
            (hd.push hcarries htx (htx'.trans htx) hkeep hwritten rfl rfl rfl)
          rw [List.filterMap_cons_none hrequest, List.filterMap_nil]
      | some r =>
          obtain ⟨q, rest, later, hq, hdrop, hlater⟩ := hu.request hserved.answered hrequest htaken
          rw [← Delivery.length_answered hd.carried] at hdrop hlater
          have hone : [msg].filterMap Outbound.request? = [r] := by
            rw [List.filterMap_cons_some hrequest, List.filterMap_nil]
          refine .reply (hreplying.trans hone) hq hdrop hlater
            (?_ : ∀ received, r.received = .fromMicros received →
              Downstream json _ (cur.push (.reply q received now id)) (msgs ++ [msg]))
          intro received hreceived
          obtain ⟨rfl, hcarries⟩ := Delivery.reply_spec hq hreceived hrequest hbuf
          exact hd.push hcarries htx (htx'.trans htx) hkeep hwritten rfl rfl rfl

/-- The server answers the requests from the front of those that wait. -/
theorem Simulated.requests_eq (hs : c.Simulated cur s) {q : Request} {rest : List Request}
    (hdrop : c.requests.drop (Delivery.answered cur.items).length = q :: rest) :
    s.requests = q :: rest := by
  rw [← hdrop, ← hs.requests, List.drop_left' rfl]

/-! ### Steps of the client -/

/-- A turn of the request loop is a request of the exchange, or nothing. -/
theorem Simulated.poll (json : SerdeJson) (hs : c.Simulated cur s)
    (htxBuf : c.txBuf.length = Time.wireSize) {now : ℤ} (h : c.poll now = some c') :
    c'.Simulated cur s ∨ c.machine.Due now ∧ ∃ s', Exchange.Step json s (.request now) s' ∧
      s'.answers = s.answers ∧ s'.settings = s.settings ∧ c'.Simulated cur s' := by
  obtain ⟨-, rfl | ⟨q, hdue, hid, hstamp, hbytes, -, rfl⟩⟩ := poll_cases htxBuf h
  · exact .inl hs
  · refine .inr ⟨hdue, ?_⟩
    rw [← hs.machine] at hdue hid
    have hstep := Exchange.request_step json hdue
    refine ⟨_, hstep, rfl, rfl, (hstep.effect hs.wired).wired hs.wired,
      congrArg (·.requested now) hs.machine, hs.pending, hs.replies, hs.answers, ?_⟩
    have hq : s.newRequest now = q := by
      obtain ⟨id, stamp, bytes⟩ := q
      obtain rfl : id = s.machine.pktId := hid
      obtain rfl : stamp = now := hstamp
      exact congrArg (Request.mk _ _) hbytes.symm
    rw [← List.append_assoc, hs.requests, hq]

theorem Downstream.poll (hd : c.Downstream json cur msgs) (htxBuf : c.txBuf.length = Time.wireSize)
    {now : ℤ} (h : c.poll now = some c') : c'.Downstream json cur msgs := by
  obtain ⟨-, rfl | ⟨q, -, -, -, -, -, rfl⟩⟩ := poll_cases htxBuf h
  · exact hd
  · exact hd.keeps rfl hd.taken (fun _ _ => rfl) rfl rfl rfl

/-- What a read of the client does. -/
inductive Hears (json : SerdeJson) (c : Conversation) (cur : Cursor Delivery) (now : ℤ) :
    Conversation → Cursor Delivery → Prop where
  | header {d : Delivery} {ahead : List Delivery} :
      cur.inside = none → cur.ahead = d :: ahead →
      Hears json c cur now
        { c with machine := c.machine.pending d.frame.base, read := c.read + Base.baseSize }
        { cur with inside := some d, ahead }
  | packet {d : Delivery} {message : Message} {machine : ClientMachine} :
      cur.inside = some d →
      ClientMachine.processPacket json { c.machine with framing := .new } d.frame.base
        d.frame.payload now = (.ok message, machine) →
      Hears json c cur now
        { c with
          machine, read := c.read + d.frame.payload.length, messages := c.messages ++ [message] }
        { cur with taken := cur.taken ++ [d], inside := none }
  | fails {d : Delivery} {fault : Fault} {machine : ClientMachine} :
      cur.inside = some d →
      ClientMachine.processPacket json { c.machine with framing := .new } d.frame.base
        d.frame.payload now = (.error fault, machine) →
      Hears json c cur now
        { c with machine, read := c.read + d.frame.payload.length, fault := some fault }
        { cur with taken := cur.taken ++ [d], inside := none }

theorem Downstream.hears (hd : c.Downstream json cur msgs) {now : ℤ}
    (h : c.hear json now = some c') :
    ∃ cur', Hears json c cur now c' cur' ∧ c'.read ≤ c'.written.length ∧
      c'.down = cur'.rest (Frame.wire Delivery.frame) := by
  have hframing := hd.framing
  have hdrop (n : ℕ) : c.written.drop (c.read + n) = c.down.drop n := (List.drop_drop ..).symm
  have hread {n : ℕ} (hn : n ≤ c.down.length) : c.read + n ≤ c.written.length := by
    rw [length_down] at hn
    have := hd.read_le
    omega
  rw [hear] at h
  split at h
  · rename_i hready
    obtain ⟨-, hlen⟩ := hready
    obtain rfl := Option.some.inj h
    cases hinside : cur.inside with
    | none =>
        rw [hinside] at hframing
        have haction : c.machine.nextAction = .readHeader := congrArg Framing.nextAction hframing
        rw [haction] at hlen ⊢
        have hlong : (Frame.wire Delivery.frame).headLength ≤
            (cur.rest (Frame.wire Delivery.frame)).length := hd.rest ▸ hlen
        obtain ⟨d, ahead, hahead, hhead, hrest⟩ := Cursor.exists_head hinside hlong
        have hbytes : c.down.take Action.readHeader.bytes = d.frame.header := hd.rest ▸ hhead
        rw [hbytes, Action.event, ClientMachine.handleEvent_header]
        exact ⟨_, .header hinside hahead, hread hlen,
          (hdrop _).trans ((congrArg _ hd.rest).trans hrest)⟩
    | some d =>
        rw [hinside] at hframing
        have haction : c.machine.nextAction = .readPacket d.frame.base.size :=
          congrArg Framing.nextAction hframing
        have hsize : (Action.readPacket d.frame.base.size).bytes = d.frame.payload.length :=
          d.frame.payload_length.symm
        rw [haction] at hlen ⊢
        obtain ⟨hbody, hrest⟩ := Cursor.take_body (w := Frame.wire Delivery.frame) hinside
        have hbytes :
            c.down.take (Action.readPacket d.frame.base.size).bytes = d.frame.payload := by
          rw [hsize, hd.rest]
          exact hbody
        have hrest' : c.written.drop (c.read + (Action.readPacket d.frame.base.size).bytes) = _ :=
          (hdrop _).trans ((congrArg₂ List.drop hsize hd.rest).trans hrest)
        rw [hbytes, Action.event, ClientMachine.handleEvent_packet hframing]
        generalize hresult : ClientMachine.processPacket json _ _ _ _ = result
        obtain ⟨_ | message, machine⟩ := result
        · refine ⟨_, ?_, hread hlen, hrest'⟩
          rw [Conversation.heard, hsize]
          exact .fails hinside hresult
        · refine ⟨_, ?_, hread hlen, hrest'⟩
          have hpacket := Hears.packet (c := c) hinside hresult
          rw [d.frame.payload_length] at hpacket
          exact hpacket
  · cases h

/-- A header is one of the exchange. -/
theorem Simulated.header (json : SerdeJson) (hs : c.Simulated cur s) {d : Delivery}
    {ahead : List Delivery} (hinside : cur.inside = none) (hahead : cur.ahead = d :: ahead) :
    ∃ s', Exchange.Step json s d.incoming.header s' ∧ s'.answers = s.answers ∧
      s'.settings = s.settings ∧
      Simulated
        { c with machine := c.machine.pending d.frame.base, read := c.read + Base.baseSize }
        { cur with inside := some d, ahead } s' := by
  have hpending : s.pending = none := by rw [hs.pending, hinside, Option.map_none]
  have hreplies := hs.replies
  have hitems := hs.requests
  rw [← Cursor.items_of_head hinside hahead] at hitems
  cases d with
  | reply q received sent id =>
      let r : Reply := ⟨q, received, sent, (Delivery.reply q received sent id).frame.bytes⟩
      rw [hahead] at hreplies
      change s.replies = r :: ahead.filterMap Delivery.reply? at hreplies
      have hmem : r ∈ s.replies := hreplies ▸ List.mem_cons_self
      have hevent : s.machine.handleEvent json (.headerReceived (r.bytes.take Base.baseSize)) 0 =
          (.ok .nothing, s.machine.pending (Delivery.reply q received sent id).frame.base) := by
        rw [← ClientMachine.handleEvent_header]
        exact congrArg (fun bytes => s.machine.handleEvent json (.headerReceived bytes) 0)
          (List.take_left' (Frame.header_length _))
      have hstep := Exchange.Step.replyHeader hmem hpending hevent
      refine ⟨_, hstep, rfl, rfl, (hstep.effect hs.wired).wired hs.wired, ?_, rfl, ?_, hs.answers,
        hitems⟩
      · rw [← hs.machine]
      · rw [hreplies, List.erase_cons_head]
  | other frame notTime =>
      have hevent : s.machine.handleEvent json (.headerReceived frame.header) 0 = _ :=
        ClientMachine.handleEvent_header ..
      have hstep := Exchange.Step.otherHeader notTime hpending hevent
      refine ⟨_, hstep, rfl, rfl, (hstep.effect hs.wired).wired hs.wired, ?_, rfl, ?_, hs.answers,
        hitems⟩
      · rw [← hs.machine]
        rfl
      · rw [hahead] at hreplies
        exact hreplies

/-- A payload is one of the exchange. -/
theorem Simulated.packet (json : SerdeJson) (hs : c.Simulated cur s) {d : Delivery}
    {message : Message} {machine : ClientMachine} {now : ℤ} (hinside : cur.inside = some d)
    (hframing : c.machine.framing = ⟨.readingPacket d.frame.base⟩)
    (hpacket : ClientMachine.processPacket json { c.machine with framing := .new } d.frame.base
      d.frame.payload now = (.ok message, machine)) :
    ∃ s', Exchange.Step json s (.packet now) s' ∧
      s'.answers.map Answer.handled =
        s.answers.map Answer.handled ++ d.reply?.toList.map (fun _ => now) ∧
      s'.settings = message.settings.or s.settings ∧
      Simulated
        { c with
          machine, read := c.read + d.frame.payload.length, messages := c.messages ++ [message] }
        { cur with taken := cur.taken ++ [d], inside := none } s' := by
  have hpending : s.pending = some d.incoming := by rw [hs.pending, hinside, Option.map_some]
  have hevent : s.machine.handleEvent json (.packetReceived d.frame.payload) now =
      (.ok message, machine) := by
    rw [hs.machine, ClientMachine.handleEvent_packet hframing, hpacket]
  have hitems := hs.requests
  rw [← Cursor.items_of_body hinside] at hitems
  cases d with
  | reply q received sent id =>
      have hbody : (Delivery.reply q received sent id).frame.bytes.drop Base.baseSize =
          (Delivery.reply q received sent id).frame.payload :=
        List.drop_left' (Frame.header_length _)
      rw [← hbody] at hevent
      have hstep := Exchange.Step.replyPacket hpending hevent
      have hnothing : message = .nothing := ClientMachine.nothing_of_time rfl hpacket
      refine ⟨_, hstep, List.map_append, hnothing ▸ rfl, (hstep.effect hs.wired).wired hs.wired,
        rfl, rfl, hs.replies, ?_, hitems⟩
      rw [List.map_append, hs.answers, List.filterMap_append]
      rfl
  | other frame notTime =>
      have hstep := Exchange.Step.otherPacket hpending hevent
      refine ⟨_, hstep, (List.append_nil _).symm, rfl, (hstep.effect hs.wired).wired hs.wired, rfl,
        rfl, hs.replies, ?_, hitems⟩
      rw [hs.answers, List.filterMap_append]
      exact (List.append_nil _).symm

theorem Downstream.exists_carried (hd : c.Downstream json cur msgs) {d : Delivery}
    (hinside : cur.inside = some d) :
    ∃ msg, d.Carries json msg ∧
      msgs.take (cur.taken ++ [d]).length = msgs.take cur.taken.length ++ [msg] := by
  have hcarried := List.forall₂_drop cur.taken.length hd.carried
  rw [Cursor.items, hinside, Option.toList_some, List.append_assoc, List.drop_left' rfl] at hcarried
  obtain ⟨msg, rest, hmsg, -, hdrop⟩ := List.forall₂_cons_left_iff.mp hcarried
  exact ⟨msg, hmsg, by rw [List.length_append, List.take_add, hdrop]; rfl⟩

/-- The client's place in the stream after a read. -/
theorem Downstream.advance (hd : c.Downstream json cur msgs) {cur' : Cursor Delivery} {now : ℤ}
    (h : Hears json c cur now c' cur') (hread : c'.read ≤ c'.written.length)
    (hrest : c'.down = cur'.rest (Frame.wire Delivery.frame)) (hup : c'.fault = none) :
    c'.Downstream json cur' msgs := by
  cases h with
  | header hinside hahead =>
      refine ⟨hd.unattended, hd.taken, ?_, ?_, hread, hrest, rfl, hd.heard⟩
      · rw [Cursor.items_of_head hinside hahead]
        exact hd.written
      · rw [Cursor.items_of_head hinside hahead]
        exact hd.carried
  | @packet d message machine hinside hpacket =>
      obtain ⟨msg, hcarries, htake⟩ := hd.exists_carried hinside
      refine ⟨hd.unattended, hd.taken, ?_, ?_, hread, hrest, ?_, ?_⟩
      · rw [Cursor.items_of_body hinside]
        exact hd.written
      · rw [Cursor.items_of_body hinside]
        exact hd.carried
      · exact (congrArg (fun p => p.2.framing) hpacket).symm.trans
          (ClientMachine.processPacket_framing ..)
      · rw [htake]
        refine List.rel_append hd.heard (.cons ?_ .nil)
        exact ClientMachine.heardAs_of_processPacket hcarries.travels (congrArg Prod.fst hpacket)
  | fails hinside hpacket => cases hup

/-- The payload that the machine waits for. -/
theorem Downstream.readingPacket (hd : c.Downstream json cur msgs) {d : Delivery}
    (hinside : cur.inside = some d) : c.machine.framing = ⟨.readingPacket d.frame.base⟩ := by
  rw [hd.framing, hinside]
  rfl

/-- Only its arithmetic stops the client. -/
theorem Downstream.fault_eq (hd : c.Downstream json cur msgs) (hsized : c.machine.Sized)
    {cur' : Cursor Delivery} {now : ℤ} (h : Hears json c cur now c' cur') (hup : c.fault = none)
    (fault : Fault) (hfault : c'.fault = some fault) : fault = .panicked .overflow := by
  cases h with
  | header hinside hahead => cases hup.symm.trans hfault
  | packet hinside hpacket => cases hup.symm.trans hfault
  | @fails d fault' machine hinside hpacket =>
      obtain ⟨msg, hcarries, -⟩ := hd.exists_carried hinside
      obtain rfl := Option.some.inj hfault
      exact ClientMachine.checked_processPacket (m := { c.machine with framing := .new }) hsized
        hcarries.travels now fault' (congrArg Prod.fst hpacket)

end Conversation

end SnapcastClient
