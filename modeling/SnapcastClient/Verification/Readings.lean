import SnapcastClient.Verification.ClockRecovery
import SnapcastClient.Verification.Talking

/-! # The clocks of a conversation

What both clocks read as a request is read, its reply is written and its reply is handled. A client
that waits for each reply recovers the server's clock, through all that lies between the two. -/

namespace SnapcastClient

open TimeVal (InClock)

/-- The readings of the server's clock for the requests it read and the replies it wrote, and those
of the client's for the replies it handled. -/
structure Readings where
  received : List ℤ
  sent : List ℤ
  handled : List ℤ

def Readings.empty : Readings := ⟨[], [], []⟩

/-- The payload of a `Time` message comes next. -/
def Framing.awaitsTime (f : Framing) : Bool :=
  match f.state with
  | .readingHeader => false
  | .readingPacket base => base.mtype = .time

/-- The four readings of an answered request. -/
structure RoundTrip where
  stamp : ℤ
  received : ℤ
  sent : ℤ
  handled : ℤ

def Answer.roundTrip (a : Answer) : RoundTrip :=
  ⟨a.reply.request.stamp, a.reply.received, a.reply.sent, a.handled⟩

/-- The delays of the request and of its reply differ by at most `2 * eps`, with the server clock
`θ` ahead of the client's. -/
def RoundTrip.Balanced (θ eps : ℤ) (r : RoundTrip) : Prop :=
  |(r.received - (r.stamp + θ)) - (r.handled + θ - r.sent)| ≤ 2 * eps

instance (θ eps : ℤ) (r : RoundTrip) : Decidable (r.Balanced θ eps) :=
  inferInstanceAs (Decidable (_ ≤ _))

/-- When every request is answered none is on its way. -/
theorem Exchange.not_outstanding (s : Exchange) (h : s.inOrder.length = s.answers.length)
    (q : Request) : ¬ s.Outstanding q := by
  simp only [Exchange.inOrder, List.length_append, List.length_map] at h
  have hrequests : s.requests = [] := List.eq_nil_of_length_eq_zero (by omega)
  have hreplies : s.replies = [] := List.eq_nil_of_length_eq_zero (by omega)
  have hpending : (s.pending.bind Incoming.reply?).toList = [] :=
    List.eq_nil_of_length_eq_zero (by omega)
  rintro (hq | ⟨r, hr | hr, -⟩)
  · rw [hrequests] at hq
    cases hq
  · rw [hreplies] at hr
    cases hr
  · rw [hr] at hpending
    cases hpending

namespace Conversation

variable {json : SerdeJson} {k : ConnId} {g : Greeter} {bufferMs : UInt32} {initialVolume : UInt8}
  {c c' : Conversation} {r : Readings} {l : Net.Label} {cur : Cursor Delivery}
  {msgs : List Outbound} {s : Exchange}

/-- The reading at which a step of the server reads a request of the connection. -/
def receivedBy (json : SerdeJson) (k : ConnId) (c : Conversation) : Net.Label → List ℤ
  | .read j bytes now =>
      (c.server.state.requested json k (.read j bytes now)).map fun _ => now
  | _ => []

/-- The reading at which a step of the server writes a reply on the connection. -/
def sentBy (c : Conversation) : Net.Label → List ℤ
  | .write tx now => (c.replying (.write tx now)).map fun _ => now
  | _ => []

/-- Note the readings of a step. -/
def note (json : SerdeJson) (k : ConnId) (c : Conversation) (r : Readings) : Label → Readings
  | .serve l =>
      { r with received := r.received ++ c.receivedBy json k l, sent := r.sent ++ c.sentBy l }
  | .hear now =>
      { r with handled := r.handled ++ if c.machine.framing.awaitsTime then [now] else [] }
  | _ => r

/-- The runs of a conversation with the readings of both clocks. -/
def clockedSystem (json : SerdeJson) (k : ConnId) (hello : ClientHello) (bufferMs : UInt32)
    (initialVolume : UInt8) :
    TransitionSystem (TransitionSystem.WithHistory Conversation Readings) Label :=
  (system json k hello bufferMs initialVolume).withHistory .empty (note json k)

/-- The clocks are in range, the run is healthy, and a request goes out only when the reply to the
one before has been handled. -/
def orderly (json : SerdeJson) (k : ConnId)
    (p : TransitionSystem.WithHistory Conversation Readings) : Label → Bool
  | .serve l =>
      p.state.healthy (.serve l) ∧
        ∀ now ∈ p.state.receivedBy json k l ++ p.state.sentBy l, InClock now
  | .poll now =>
      p.state.machine.Due now →
        InClock now ∧ p.history.handled.length = p.state.requests.length
  | .hear now => InClock now
  | l => p.state.healthy l

/-- The requests with their readings, as far as they are answered. -/
def roundTrips (p : TransitionSystem.WithHistory Conversation Readings) : List RoundTrip :=
  ((p.state.requests.zip p.history.received).zip (p.history.sent.zip p.history.handled)).map
    fun ((q, received), sent, handled) => ⟨q.stamp, received, sent, handled⟩

/-! ## What the readings are of -/

/-- A request is received at the reading of the step that reads it. -/
theorem requested_received (s : Net) (bytes : List UInt8) (now : ℤ) (j : ConnId) :
    ∀ r ∈ s.requested json k (.read j bytes now), r.received = .fromMicros now := by
  intro r hr
  rw [Net.requested] at hr
  split at hr
  · revert hr
    rw [Net.output, ServerSession.handleEvent.eq_def]
    split
    · split <;> simp [requestsOf]
    · split
      · simp [requestsOf]
      · dsimp only
        split
        · simp [requestsOf]
        · simp [requestsOf]
        · split
          · simp only [requestsOf, List.mem_singleton]
            rintro rfl
            rfl
          · simp [requestsOf, bail]
  · cases hr

theorem map_received (l : Net.Label) :
    (c.server.state.requested json k l).map TimeRequest.received =
      (c.receivedBy json k l).map TimeVal.fromMicros := by
  cases l with
  | read j bytes now =>
      rw [receivedBy, List.map_map]
      exact List.map_congr_left fun r hr => requested_received _ bytes now j r hr
  | _ => rfl

theorem sentBy_eq (hl : c.replying l = []) : c.sentBy l = [] := by
  cases l with
  | write tx now => rw [sentBy, hl, List.map_nil]
  | _ => rfl

/-- The settings that the client has handed out last. -/
def lastSettings (c : Conversation) : Option ServerSettings :=
  (c.messages.filterMap Message.settings).getLast?

theorem lastSettings_eq {message : Message} (h : c'.messages = c.messages ++ [message]) :
    c'.lastSettings = message.settings.or c.lastSettings := by
  rw [lastSettings, lastSettings, h, List.filterMap_append, List.getLast?_append]
  cases message <;> rfl

/-- The readings and the settings are those of the exchange that the client sees. -/
structure Clocked (c : Conversation) (r : Readings) (cur : Cursor Delivery) (s : Exchange) :
    Prop where
  inClock : ∀ now ∈ r.received, InClock now
  received : c.server.history.requests.map TimeRequest.received = r.received.map TimeVal.fromMicros
  answered : (cur.items.filterMap Delivery.reply?).map Reply.received <+: r.received
  sent : (cur.items.filterMap Delivery.reply?).map Reply.sent = r.sent
  handled : s.answers.map Answer.handled = r.handled
  settings : s.settings = c.lastSettings

/-- The next reply answers a request that was received at the next reading. -/
theorem Clocked.next (hc : c.Clocked r cur s) {asked : TimeRequest} {later : List TimeRequest}
    (h : c.server.history.requests.drop (Delivery.answered cur.items).length = asked :: later) :
    ∃ received, InClock received ∧ asked.received = .fromMicros received ∧
      (cur.items.filterMap Delivery.reply?).map Reply.received ++ [received] <+: r.received := by
  obtain ⟨rest, hrest⟩ := hc.answered
  have hreceived := congrArg (List.drop (Delivery.answered cur.items).length) hc.received
  rw [← List.map_drop, h, ← hrest, List.map_append,
    List.drop_left' (by simp [Delivery.answered])] at hreceived
  cases rest with
  | nil => cases hreceived
  | cons received rest =>
      refine ⟨received, hc.inClock received ?_, (List.cons.inj hreceived).1, rest, ?_⟩
      · rw [← hrest]
        exact List.mem_append_right _ List.mem_cons_self
      · rw [List.append_assoc]
        exact hrest

/-- What a step of the server adds to the readings. -/
theorem Clocked.serve (hc : c.Clocked r cur s) {l : Net.Label}
    (h : c.serve json k l = some c') (hok : ∀ now ∈ c.receivedBy json k l, InClock now)
    {cur' : Cursor Delivery} {s' : Exchange}
    (hanswered : (cur'.items.filterMap Delivery.reply?).map Reply.received <+: r.received)
    (hsent : (cur'.items.filterMap Delivery.reply?).map Reply.sent = r.sent ++ c.sentBy l)
    (hhandled : s'.answers = s.answers) (hsettings : s'.settings = s.settings) :
    c'.Clocked (c.note json k r (.serve l)) cur' s' := by
  obtain ⟨up, net, -, -, rfl⟩ := serve_eq_some.mp h
  refine ⟨?_, ?_, hanswered.trans (List.prefix_append _ _), hsent, hhandled ▸ hc.handled,
    hsettings.trans hc.settings⟩
  · intro now hnow
    exact (List.mem_append.mp hnow).elim (hc.inClock now) (hok now)
  · change (_ ++ Net.requested json _ k l).map TimeRequest.received = _
    rw [List.map_append, map_received, hc.received, note, List.map_append]

/-- The client's steps read no request and write no reply. -/
theorem Clocked.client (hc : c.Clocked r cur s) {cur' : Cursor Delivery} {s' : Exchange}
    {handled : List ℤ} (hserver : c'.server = c.server) (hitems : cur'.items = cur.items)
    (hhandled : s'.answers.map Answer.handled = s.answers.map Answer.handled ++ handled)
    (hsettings : s'.settings = c'.lastSettings) :
    c'.Clocked { r with handled := r.handled ++ handled } cur' s' := by
  refine ⟨hc.inClock, hserver ▸ hc.received, hitems ▸ hc.answered, hitems ▸ hc.sent, ?_,
    hsettings⟩
  rw [hhandled, hc.handled]

/-- What the client has seen, and when, is what an exchange shows. -/
def Shows (json : SerdeJson) (c : Conversation) (r : Readings) (s : Exchange) : Prop :=
  ∃ cur msgs, c.Downstream json cur msgs ∧ c.Simulated cur s ∧ c.Clocked r cur s

/-- An orderly step of the server is one of an alternating exchange, or none. -/
theorem Shows.serve (hjson : json.SettingsLaws) (ht : c.Talking json g k bufferMs initialVolume)
    (hs : c.Shows json r s) {l : Net.Label} (hok : orderly json k ⟨c, r⟩ (.serve l) = true)
    (h : c.serve json k l = some c') :
    c'.Shows json (c.note json k r (.serve l)) s ∨ ∃ b s', s.Alternating b ∧
      Exchange.Step json s b s' ∧ c'.Shows json (c.note json k r (.serve l)) s' := by
  obtain ⟨cur, msgs, hd, hs, hc⟩ := hs
  obtain ⟨hhealthy, hreadings⟩ := of_decide_eq_true hok
  have hreceived : ∀ now ∈ c.receivedBy json k l, InClock now := fun now hnow =>
    hreadings now (List.mem_append_left _ hnow)
  obtain ⟨hmachine, hrequests, -, -⟩ := serve_spec h
  cases ht.serves hjson hd hhealthy h with
  | quiet hreplying hd' =>
      refine .inl ⟨cur, msgs, hd', hs.congr rfl rfl rfl hmachine hrequests, ?_⟩
      refine hc.serve h hreceived hc.answered ?_ rfl rfl
      rw [sentBy_eq hreplying, List.append_nil, hc.sent]
  | @other _ d msg hreplying hreply hd' =>
      have hitems : (cur.push d).items.filterMap Delivery.reply? =
          cur.items.filterMap Delivery.reply? := by
        rw [Cursor.items_push, List.filterMap_append, List.filterMap_cons_none hreply,
          List.filterMap_nil, List.append_nil]
      refine .inl ⟨_, _, hd', hs.congr rfl rfl ?_ hmachine hrequests, ?_⟩
      · simp [Cursor.push, hreply]
      · refine hc.serve h hreceived (hitems ▸ hc.answered) ?_ rfl rfl
        rw [hitems, sentBy_eq hreplying, List.append_nil, hc.sent]
  | @reply tx now msg asked later q rest id hreplying hq hdrop hlater hd' =>
      obtain ⟨received, hclock, hasked, hanswered⟩ := hc.next hlater
      obtain ⟨s', hstep, hanswers, hsettings, hs'⟩ :=
        hs.serve json (hs.requests_eq hdrop) received now id hmachine hrequests
      have hsent : c.sentBy (.write tx now) = [now] := by
        rw [sentBy, hreplying, List.map_singleton]
      have hitems (f : Reply → ℤ) :
          ((cur.push (.reply q received now id)).items.filterMap Delivery.reply?).map f =
            (cur.items.filterMap Delivery.reply?).map f ++
              [f ⟨q, received, now, (Delivery.reply q received now id).frame.bytes⟩] := by
        rw [Cursor.items_push, List.filterMap_append, List.map_append]
        rfl
      have halternating : s.Alternating (.serve q received now) := by
        refine ⟨hclock, hreadings now (List.mem_append_right _ ?_)⟩
        exact hsent ▸ List.mem_singleton_self now
      refine .inr ⟨_, s', halternating, hstep, _, _, hd' received hasked, hs', ?_⟩
      refine hc.serve h hreceived (hitems _ ▸ hanswered) ?_ hanswers hsettings
      rw [hitems, hc.sent, hsent]

/-- A request goes out when nothing is outstanding. -/
theorem Shows.poll (hs : c.Shows json r s) (htxBuf : c.txBuf.length = Time.wireSize) {now : ℤ}
    (hok : orderly json k ⟨c, r⟩ (.poll now) = true) (h : c.poll now = some c') :
    c'.Shows json r s ∨ ∃ b s', s.Alternating b ∧ Exchange.Step json s b s' ∧
      c'.Shows json r s' := by
  obtain ⟨cur, msgs, hd, hs, hc⟩ := hs
  have hd' := hd.poll htxBuf h
  obtain ⟨hserver, hmessages⟩ := poll_spec h
  have hclient {s' : Exchange} (hanswers : s'.answers = s.answers)
      (hsettings : s'.settings = s.settings) : c'.Clocked r cur s' := by
    have hlast : s'.settings = c'.lastSettings := by
      rw [hsettings, hc.settings, lastSettings, lastSettings, hmessages]
    have hnone : c'.Clocked { r with handled := r.handled ++ [] } cur s' :=
      hc.client hserver rfl (by rw [hanswers, List.append_nil]) hlast
    rwa [List.append_nil] at hnone
  rcases hs.poll json htxBuf h with hs' | ⟨hdue, s', hstep, hanswers, hsettings, hs'⟩
  · exact .inl ⟨cur, msgs, hd', hs', hclient rfl rfl⟩
  · obtain ⟨hclock, hall⟩ := of_decide_eq_true hok hdue
    have halternating : s.Alternating (.request now) := by
      refine ⟨hclock, s.not_outstanding ?_⟩
      rw [hs.inOrder, ← hall, ← hc.handled, List.length_map]
    exact .inr ⟨_, s', halternating, hstep, cur, msgs, hd', hs', hclient hanswers hsettings⟩

/-- What the client handles is the reply whose header it has read. -/
theorem Shows.hear (hs : c.Shows json r s) {now : ℤ} (hok : InClock now)
    (h : c.hear json now = some c') (hup : c'.fault = none) :
    ∃ b s', s.Alternating b ∧ Exchange.Step json s b s' ∧
      c'.Shows json (c.note json k r (.hear now)) s' := by
  obtain ⟨cur, msgs, hd, hs, hc⟩ := hs
  obtain ⟨-, hserver, -⟩ := hear_spec h
  obtain ⟨cur', hhears, hread, hrest⟩ := hd.hears h
  have hd' := hd.advance hhears hread hrest hup
  have hframing := hd.framing
  cases hhears with
  | @header d ahead hinside hahead =>
      rw [hinside] at hframing
      obtain ⟨s', hstep, hanswers, hsettings, hs'⟩ := hs.header json hinside hahead
      have halternating : s.Alternating d.incoming.header := by
        cases d <;> trivial
      refine ⟨_, s', halternating, hstep, _, _, hd', hs', ?_⟩
      refine hc.client hserver (Cursor.items_of_head hinside hahead) ?_
        (hsettings.trans hc.settings)
      rw [hanswers, hframing]
      exact (List.append_nil _).symm
  | @packet d message machine hinside hpacket =>
      obtain ⟨s', hstep, hhandled, hsettings, hs'⟩ :=
        hs.packet json hinside (hd.readingPacket hinside) hpacket
      have halternating : s.Alternating (.packet now) := hok
      refine ⟨_, s', halternating, hstep, _, _, hd', hs', ?_⟩
      have hlast := hsettings.trans (congrArg _ hc.settings)
      refine hc.client hserver (Cursor.items_of_body hinside) (hhandled.trans ?_)
        (hlast.trans (lastSettings_eq rfl).symm)
      rw [hd.readingPacket hinside, Framing.awaitsTime]
      cases d with
      | reply q received sent id => rfl
      | other frame notTime =>
          exact congrArg _ (if_neg fun htime => notTime (of_decide_eq_true htime)).symm
  | fails hinside hpacket => cases hup

/-! ## Whole runs -/

variable {p : TransitionSystem.WithHistory Conversation Readings}

/-- A state of a conversation with its readings and one of an alternating exchange. -/
def Tracks (json : SerdeJson) (g : Greeter) (k : ConnId) (bufferMs : UInt32)
    (initialVolume : UInt8) (p : TransitionSystem.WithHistory Conversation Readings)
    (s : Exchange) : Prop :=
  p.state.Talking json g k bufferMs initialVolume ∧
    (p.state.fault = none → p.state.Shows json p.history s)

theorem Tracks.step (hhello : json.HelloLaws) (hsettings : json.SettingsLaws)
    (hs : Tracks json g k bufferMs initialVolume ⟨c, r⟩ s) {l : Label}
    (hok : orderly json k ⟨c, r⟩ l = true) (h : c.step json k l = some c') :
    Tracks json g k bufferMs initialVolume ⟨c', c.note json k r l⟩ s ∨
      ∃ b s', s.Alternating b ∧ Exchange.Step json s b s' ∧
        Tracks json g k bufferMs initialVolume ⟨c', c.note json k r l⟩ s' := by
  obtain ⟨ht, hs⟩ := hs
  cases l with
  | serve l =>
      change c.serve json k l = some c' at h
      have ht' := ht.serve hhello (of_decide_eq_true hok).1 h
      obtain ⟨-, -, -, hfault⟩ := serve_spec h
      by_cases hup : c.fault = none
      · exact ((hs hup).serve hsettings ht hok h).imp (fun hs' => ⟨ht', fun _ => hs'⟩)
          fun ⟨b, s', hb, hstep, hs'⟩ => ⟨b, s', hb, hstep, ht', fun _ => hs'⟩
      · exact .inl ⟨ht', fun hup' => absurd (hfault.symm.trans hup') hup⟩
  | poll now =>
      change c.poll now = some c' at h
      have ht' := ht.poll h
      have hup := (poll_cases ht.txBuf h).1
      exact ((hs hup).poll ht.txBuf hok h).imp (fun hs' => ⟨ht', fun _ => hs'⟩)
        fun ⟨b, s', hb, hstep, hs'⟩ => ⟨b, s', hb, hstep, ht', fun _ => hs'⟩
  | hear now =>
      change c.hear json now = some c' at h
      have hup := (hear_spec h).1
      have ht' : c'.Talking json g k bufferMs initialVolume := by
        obtain ⟨cur, msgs, hd, hsim, -⟩ := hs hup
        exact ht.hear ⟨cur, msgs, hd, hsim⟩ hup h
      by_cases hup' : c'.fault = none
      · obtain ⟨b, s', hb, hstep, hs'⟩ := (hs hup).hear (k := k) (of_decide_eq_true hok) h hup'
        exact .inr ⟨b, s', hb, hstep, ht', fun _ => hs'⟩
      · exact .inl ⟨ht', fun h => absurd h hup'⟩
  | pollFails now n => cases hok
  | timeout n =>
      obtain rfl := eq_of_timeout (of_decide_eq_true hok) h
      exact .inl ⟨ht, hs⟩
  | hearFails message => cases hok

theorem shows_start (json : SerdeJson) (bufferMs : UInt32) (initialVolume : UInt8)
    (greeting : List UInt8) :
    (start bufferMs initialVolume greeting).Shows json .empty .new :=
  ⟨.start [], [],
    ⟨fun _ => rfl, by rintro tx ⟨⟩, by rintro tx ⟨⟩, .nil, Nat.zero_le _, rfl, rfl, .nil⟩,
    ⟨Exchange.wired_new, rfl, rfl, rfl, rfl, rfl⟩,
    ⟨by rintro now ⟨⟩, rfl, List.nil_prefix, rfl, rfl, rfl⟩⟩

/-- An orderly conversation shows its client an alternating exchange. -/
theorem reach_tracks (hhello : json.HelloLaws) (hsettings : json.SettingsLaws)
    (h : (clockedSystem json k g.hello bufferMs initialVolume).Reach
      (fun p l => orderly json k p l = true) p) :
    ∃ s, (Exchange.system json).Reach Exchange.Alternating s ∧
      Tracks json g k bufferMs initialVolume p s := by
  refine h.exists_related ?_ ?_
  · rintro ⟨c, r⟩ ⟨⟨greeting, hgreeting, hc⟩, hr⟩
    obtain rfl := Except.ok.inj ((g.asBuf_eq hhello).symm.trans hgreeting)
    obtain rfl : c = _ := hc
    obtain rfl : r = .empty := hr
    exact ⟨.new, rfl, talking_start json g k bufferMs initialVolume,
      fun _ => shows_start json bufferMs initialVolume _⟩
  · rintro ⟨c, r⟩ l ⟨c', r'⟩ s hs hok ⟨hstep, hr⟩
    obtain rfl : r' = c.note json k r l := hr
    exact hs.step hhello hsettings hok hstep

/-! ## Round trips -/

/-- Lists that start like two projections of a list zip to one that starts like both. -/
theorem isPrefix_zip {ι α β : Type*} {is : List ι} {f : ι → α} {g : ι → β} {as : List α}
    {bs : List β} (has : is.map f <+: as) (hbs : is.map g <+: bs) :
    is.map (fun i => (f i, g i)) <+: as.zip bs := by
  obtain ⟨as, rfl⟩ := has
  obtain ⟨bs, rfl⟩ := hbs
  rw [List.zip_append (by rw [List.length_map, List.length_map]), List.zip_map']
  exact List.prefix_append _ _

/-- The round trips that were noted are those of the answers. -/
theorem Shows.roundTrips_eq (hs : p.state.Shows json p.history s) :
    roundTrips p = s.answers.map Answer.roundTrip := by
  obtain ⟨cur, msgs, hd, hs, hc⟩ := hs
  have hreplies : s.answers.map Answer.reply <+: cur.items.filterMap Delivery.reply? := by
    rw [hs.answers]
    exact ((List.prefix_append _ _).trans (List.prefix_append _ _)).filterMap _
  have hrequests : s.answers.map (·.reply.request) <+: p.state.requests := by
    have hmap := hreplies.map Reply.request
    rw [List.map_map] at hmap
    exact hmap.trans (hs.requests ▸ List.prefix_append _ _)
  have hreceived : s.answers.map (·.reply.received) <+: p.history.received := by
    have hmap := hreplies.map Reply.received
    rw [List.map_map] at hmap
    exact hmap.trans hc.answered
  have hsent : s.answers.map (·.reply.sent) <+: p.history.sent := by
    have hmap := hreplies.map Reply.sent
    rw [List.map_map, hc.sent] at hmap
    exact hmap
  have hhandled : s.answers.map Answer.handled <+: p.history.handled := by
    rw [hc.handled]
  have hzip := isPrefix_zip (isPrefix_zip hrequests hreceived) (isPrefix_zip hsent hhandled)
  have hlength : ((p.state.requests.zip p.history.received).zip
      (p.history.sent.zip p.history.handled)).length ≤ s.answers.length := by
    have hanswers := congrArg List.length hc.handled
    rw [List.length_map] at hanswers
    simp only [List.length_zip]
    omega
  have heq := hzip.eq_of_length_le (by rwa [List.length_map])
  rw [roundTrips, ← heq, List.map_map]
  rfl

/-- The offset of a client whose exchange alternates is as good as its balanced round trips. -/
theorem Shows.clockOffset_mem (hs : p.state.Shows json p.history s)
    (hreach : (Exchange.system json).Reach Exchange.Alternating s) {θ eps : ℤ}
    (hlen : latencySamples ≤ (roundTrips p).length)
    (hcount : 11 ≤ ((roundTrips p).rtake latencySamples).countP fun r => r.Balanced θ eps) :
    |p.state.machine.clockOffset.toMicros - θ| ≤ eps := by
  rw [hs.roundTrips_eq] at hlen hcount
  obtain ⟨cur, msgs, -, hsim, -⟩ := hs
  rw [← hsim.machine]
  rw [List.length_map] at hlen
  refine Exchange.clockOffset_mem (Exchange.logged_of_reach hreach)
    (fun a ha => Exchange.sample_eq_of_alternating hreach θ ha) hlen (hcount.trans_eq ?_)
  rw [List.rtake, List.length_map, ← List.map_drop, List.countP_map]
  rfl

theorem Shows.length_roundTrips (hs : p.state.Shows json p.history s) :
    (roundTrips p).length = p.history.handled.length := by
  rw [hs.roundTrips_eq]
  obtain ⟨cur, msgs, -, -, hc⟩ := hs
  rw [List.length_map, ← hc.handled, List.length_map]

/-- In an orderly run the round trips that the two clocks have seen are as many as the client has
handled replies, and once eleven of the last twenty are balanced the client's offset is as close to
the distance of the clocks as these are. -/
theorem recovers_clock (hhello : json.HelloLaws) (hsettings : json.SettingsLaws)
    (h : (clockedSystem json k g.hello bufferMs initialVolume).Reach
      (fun p l => orderly json k p l = true) p) (hup : p.state.fault = none) :
    (roundTrips p).length = p.history.handled.length ∧
      ∀ θ eps, latencySamples ≤ (roundTrips p).length →
        11 ≤ ((roundTrips p).rtake latencySamples).countP (fun r => r.Balanced θ eps) →
        |p.state.machine.clockOffset.toMicros - θ| ≤ eps := by
  obtain ⟨s, hs, -, hshows⟩ := reach_tracks hhello hsettings h
  exact ⟨(hshows hup).length_roundTrips, fun θ eps => (hshows hup).clockOffset_mem hs⟩

/-! ## A client by itself -/

/-- The steps that the other clients have no part in: only this connection is read, and no writer
fails. -/
def Label.alone (k : ConnId) : Label → Bool
  | .serve (.read j _ _) => j = k
  | .serve (.writeFails _) => false
  | .serve (.write _ now) => InClock now
  | _ => true

/-- A round trip with five milliseconds each way, with the server's clock `θ` ahead. -/
def tripLabels (k : ConnId) (θ : ℤ) (id : UInt16) (stamp : ℤ) : List Label :=
  let request := Request.frame ⟨id, stamp, []⟩
  [.poll stamp, .serve (.read k request.header (stamp + θ + 4000)),
    .serve (.read k request.payload (stamp + θ + 5000)), .serve (.send k), .serve (.recv 0),
    .serve (.write 0 (stamp + θ + 6000)), .hear (stamp + 10500), .hear (stamp + 11000)]

/-- The client is greeted, and makes twenty requests; then a chunk is broadcast, and its header
read. -/
def recoveryLabels (k : ConnId) (θ : ℤ) : List Label :=
  let greeting : List Net.Label := List.replicate (k + 1) .accept ++ Net.helloLabels k .sample ++
    Net.greetLabels k ++ [.recv 0, .write 0 0, .recv 0, .write 0 0]
  let chunk : List Net.Label := [.startScan ⟨⟨0, 900000⟩, [1, 2, 3]⟩, .offer 0 910000 910000,
    .endScan, .recv 0, .write 0 920000]
  greeting.map .serve ++ [.hear 500, .hear 500, .hear 600, .hear 600] ++
    ((List.range 20).flatMap fun i => tripLabels k θ (.ofNat i) (100000 + 20000 * i)) ++
      chunk.map .serve ++ [.hear (925000 - θ)]

/-- The clock of a run is recovered, and the payload of its chunk comes next. -/
def recovers (θ : ℤ) (audibleAt : TimeVal)
    (p : TransitionSystem.WithHistory Conversation Readings) : Bool :=
  p.state.fault.isNone ∧ latencySamples ≤ (roundTrips p).length ∧
    11 ≤ ((roundTrips p).rtake latencySamples).countP (fun r => r.Balanced θ 0) ∧
    (p.state.hear .compact (930000 - θ)).any fun c' =>
      c'.messages = p.state.messages ++ [.wireChunk ⟨⟨0, 900000⟩, [1, 2, 3]⟩ audibleAt]

theorem exists_recovered (k : ConnId) (θ : ℤ) (audibleAt : TimeVal)
    (h : (TransitionSystem.run (TransitionSystem.stepWithHistory (step .compact k)
      (note .compact k)) (fun p l => orderly .compact k p l && l.alone k) (recoveryLabels k θ)
        ⟨start 1000 50 (sampleGreeter.frame none).bytes, .empty⟩).any (recovers θ audibleAt) =
          true) :
    ∃ p c', (clockedSystem .compact k sampleGreeter.hello 1000 50).Reach
        (fun p l => orderly .compact k p l = true ∧ l.alone k = true) p ∧
      p.state.fault = none ∧ latencySamples ≤ (roundTrips p).length ∧
      11 ≤ ((roundTrips p).rtake latencySamples).countP (fun r => r.Balanced θ 0) ∧
      p.state.hear .compact (930000 - θ) = some c' ∧
      c'.messages = p.state.messages ++ [.wireChunk ⟨⟨0, 900000⟩, [1, 2, 3]⟩ audibleAt] := by
  obtain ⟨p, hrun, hp⟩ := (Option.any_eq_true _ _).mp h
  have hstart : (clockedSystem .compact k sampleGreeter.hello 1000 50).Reach
      (fun p l => (orderly .compact k p l && l.alone k) = true)
      ⟨start 1000 50 (sampleGreeter.frame none).bytes, .empty⟩ :=
    .init ⟨⟨_, sampleGreeter.asBuf_eq SerdeJson.compact_helloLaws, rfl⟩, rfl⟩
  have hreach := hstart.run (fun p l p' hstep => by
    obtain ⟨c', hc', rfl⟩ := Option.map_eq_some_iff.mp hstep
    exact ⟨hc', rfl⟩) hrun
  obtain ⟨hup, hlen, hcount, hhear⟩ := of_decide_eq_true hp
  obtain ⟨c', hhear, hmessages⟩ := (Option.any_eq_true _ _).mp hhear
  exact ⟨p, c', hreach.mono fun _ _ => Bool.and_eq_true_iff.mp, Option.isNone_iff_eq_none.mp hup,
    hlen, hcount, hhear, of_decide_eq_true hmessages⟩

/-- A client a quarter of a second behind the server. -/
theorem exists_recovered_quarter :
    ∃ p c', (clockedSystem .compact 0 sampleGreeter.hello 1000 50).Reach
        (fun p l => orderly .compact 0 p l = true ∧ l.alone 0 = true) p ∧
      p.state.fault = none ∧ latencySamples ≤ (roundTrips p).length ∧
      11 ≤ ((roundTrips p).rtake latencySamples).countP (fun r => r.Balanced 250000 0) ∧
      p.state.hear .compact (930000 - 250000) = some c' ∧
      c'.messages = p.state.messages ++
        [.wireChunk ⟨⟨0, 900000⟩, [1, 2, 3]⟩ ⟨1, 650000⟩] :=
  exists_recovered 0 250000 ⟨1, 650000⟩ (by decide +kernel)

theorem recovers_clock_quarter :
    ∃ p, (clockedSystem .compact 0 sampleGreeter.hello 1000 50).Reach
      (fun p l => orderly .compact 0 p l = true) p ∧
        |p.state.machine.clockOffset.toMicros - 250000| ≤ 0 := by
  obtain ⟨p, c', hp, hup, hlen, hcount, -⟩ := exists_recovered_quarter
  have horderly := hp.mono fun _ _ => And.left
  have hrecovers := recovers_clock SerdeJson.compact_helloLaws SerdeJson.compact_settingsLaws
    horderly hup
  exact ⟨p, horderly, hrecovers.2 250000 0 hlen hcount⟩

end Conversation

end SnapcastClient
