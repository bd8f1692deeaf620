import Mathlib.Data.List.ReduceOption
import SnapcastClient.Library.Cursor
import SnapcastClient.Model.Conversation
import SnapcastClient.Verification.Exchange
import SnapcastClient.Verification.Stream

/-! # The two byte streams of a conversation

What the client writes is a greeting and then its requests, and the server reads it so. What the
server writes are the messages of the client's queue. -/

namespace SnapcastClient

/-- Frames on a stream. -/
def Frame.wire {ι : Type*} (frame : ι → Frame) : Wire ι UInt8 where
  head i := (frame i).header
  body i := (frame i).payload
  headLength := Base.baseSize
  length_head i := (frame i).header_length
  headLength_pos := by decide

/-- The framing of a reader that has taken the header of a frame, or stands before the next. -/
def Framing.within : Option Frame → Framing
  | none => .new
  | some frame => ⟨.readingPacket frame.base⟩

/-- The greeting as it travels. -/
def ClientHello.frame (h : ClientHello)
    (hfits : (encode (h.mapStrings escape).text).length ≤ Base.maxPayload) : Frame :=
  .ofBase (base (h.mapStrings escape).text) (encode (h.mapStrings escape).text)
    (toNat_ofNat_length (lt_size_of_le_maxPayload hfits)).symm hfits

/-- A greeting that a session can be sent: it fits a payload, and none of its strings needs an
escape. -/
structure Greeter where
  hello : ClientHello
  plain : hello.Plain
  fits : (ClientHello.encode (hello.mapStrings escape).text).length ≤ Base.maxPayload

namespace Greeter

variable {json : SerdeJson}

/-- What the client writes: its greeting, and requests. -/
def frame (g : Greeter) : Option Request → Frame
  | none => g.hello.frame g.fits
  | some q => q.frame

theorem asBuf_eq (hjson : json.HelloLaws) (g : Greeter) :
    g.hello.asBuf json = .ok (g.frame none).bytes :=
  ClientHello.asBuf_eq hjson g.hello

/-- What a session makes of a frame of the client. -/
def output (g : Greeter) (now : TimeVal) : Option Request → SessionOutput
  | none => .hello g.hello
  | some q => .timeRequest q.id (.fromMicros q.stamp) now

theorem tryFrom_payload (hjson : json.HelloLaws) (g : Greeter) :
    ClientHello.tryFrom json (g.frame none).payload = .ok g.hello := by
  have hfits := g.fits
  rw [ClientHello.encode_length] at hfits
  exact (ClientHello.tryFrom_encode_iff hjson g.hello (by omega)).mpr g.plain

/-- A greeting is accepted by any session, a request by one that was greeted. -/
theorem handleEvent_packet (hjson : json.HelloLaws) (g : Greeter) {item : Option Request}
    {greeted : Bool} (hgreeted : item ≠ none → greeted = true) (now : TimeVal) :
    ServerSession.handleEvent json ⟨⟨.readingPacket (g.frame item).base⟩, greeted⟩
      (.packetReceived (g.frame item).payload) now = (.ok (g.output now item), ⟨.new, true⟩) := by
  cases item with
  | none =>
      have hdecode : (g.frame none).base.decodeC json (g.frame none).payload =
          .ok (.hello g.hello) := by
        change ClientMessage.hello <$> ClientHello.tryFrom json _ = _
        rw [g.tryFrom_payload hjson]
        rfl
      simp only [ServerSession.handleEvent, Framing.takeBase, hdecode]
      rfl
  | some q =>
      obtain rfl := hgreeted (by simp)
      have hfeed := ServerSession.feed_frame json (s := ⟨.new, true⟩) rfl (g.frame (some q)) now
      exact hfeed.symm.trans (ServerSession.feed_time ..)

end Greeter

/-! ## From the client to the server -/

/-- The output for a request of the client. -/
structure Request.Asks (q : Request) (r : TimeRequest) : Prop where
  id : r.id = q.id
  clientSent : r.clientSent = .fromMicros q.stamp
  received : ∃ now, r.received = .fromMicros now

namespace Conversation

variable {json : SerdeJson} {k : ConnId} {g : Greeter} {c c' : Conversation} {l : Net.Label}
  {cur : Cursor (Option Request)}

/-- The session of the connection. -/
def session (k : ConnId) (c : Conversation) : ServerSession :=
  (c.server.state.conns k).session

/-- The server has read the frames of the client up to a cursor, and made requests of them. -/
structure Upstream (g : Greeter) (k : ConnId) (c : Conversation) (cur : Cursor (Option Request)) :
    Prop where
  items : cur.items = none :: c.requests.map some
  rest : c.up = cur.rest (Frame.wire g.frame)
  framing : (c.session k).framing = .within (cur.inside.map g.frame)
  greeted : (c.session k).greeted = !cur.taken.isEmpty
  asked : List.Forall₂ Request.Asks cur.taken.reduceOption c.server.history.requests
  fresh : c.server.state.accepted ≤ k → c.session k = .new

/-- The greeting comes first, and only once. -/
theorem Upstream.inside_iff (hu : c.Upstream g k cur) {item : Option Request}
    (hinside : cur.inside = some item) : item = none ↔ cur.taken = [] := by
  have hitems := hu.items
  rw [Cursor.items, hinside, Option.toList_some] at hitems
  cases htaken : cur.taken with
  | nil =>
      rw [htaken] at hitems
      exact iff_of_true (List.cons.inj hitems).1 rfl
  | cons first taken =>
      rw [htaken] at hitems
      refine iff_of_false ?_ (by simp)
      rintro rfl
      have hmem : none ∈ c.requests.map some := by
        rw [← (List.cons.inj hitems).2]
        simp
      simp at hmem

/-- What the session makes of the bytes it asked for, and where it stands afterwards. -/
inductive Reads (g : Greeter) (session : ServerSession) (cur : Cursor (Option Request))
    (now : TimeVal) : Outcome SessionOutput → ServerSession → Cursor (Option Request) → Prop where
  | header {item : Option Request} {ahead : List (Option Request)} :
      cur.inside = none → cur.ahead = item :: ahead →
      Reads g session cur now (.ok .none) (session.pending (g.frame item).base)
        { cur with inside := some item, ahead }
  | packet {item : Option Request} :
      cur.inside = some item → (item = none ↔ cur.taken = []) →
      Reads g session cur now (.ok (g.output now item)) ⟨.new, true⟩
        { cur with taken := cur.taken ++ [item], inside := none }

theorem Upstream.reads (hjson : json.HelloLaws) (hu : c.Upstream g k cur) {bytes : List UInt8}
    (hlen : bytes.length = (c.session k).nextAction.bytes)
    (htake : c.up.take bytes.length = bytes) (now : TimeVal) :
    ∃ result session cur', Reads g (c.session k) cur now result session cur' ∧
      c.up.drop bytes.length = cur'.rest (Frame.wire g.frame) ∧
      (c.session k).handleEvent json ((c.session k).nextAction.event bytes) now =
        (result, session) := by
  have hframing := hu.framing
  rw [ServerSession.nextAction, hframing] at hlen ⊢
  rw [hu.rest] at htake ⊢
  cases hinside : cur.inside with
  | none =>
      rw [hinside] at hlen
      have hlen : bytes.length = (Frame.wire g.frame).headLength := hlen
      have hlong : bytes.length ≤ (cur.rest (Frame.wire g.frame)).length := by
        rw [← htake, List.length_take]
        exact Nat.min_le_right _ _
      obtain ⟨item, ahead, hahead, hhead, hdrop⟩ := Cursor.exists_head hinside (hlen ▸ hlong)
      rw [hlen] at htake ⊢
      refine ⟨_, _, _, .header hinside hahead, hdrop, ?_⟩
      rw [← htake, hhead]
      exact ServerSession.handleEvent_header json _ (g.frame item) now
  | some item =>
      rw [hinside] at hlen
      have hpayload : bytes.length = ((Frame.wire g.frame).body item).length :=
        hlen.trans (g.frame item).payload_length.symm
      obtain ⟨hbody, hdrop⟩ := Cursor.take_body (w := Frame.wire g.frame) hinside
      rw [hpayload] at htake ⊢
      refine ⟨_, _, _, .packet hinside (hu.inside_iff hinside), hdrop, ?_⟩
      rw [← htake, hbody]
      have hsession : c.session k = ⟨⟨.readingPacket (g.frame item).base⟩, !cur.taken.isEmpty⟩ := by
        rw [← hu.greeted]
        rw [hinside] at hframing
        exact congrArg (ServerSession.mk · _) hframing
      rw [hsession]
      refine g.handleEvent_packet hjson (fun hitem => ?_) now
      have htaken : cur.taken ≠ [] := fun h => hitem ((hu.inside_iff hinside).mpr h)
      simpa using htaken

theorem serve_eq_some :
    c.serve json k l = some c' ↔ ∃ up s, c.takes k l = some up ∧
      c.server.state.step json l = some s ∧
      c' = { c with
        server := ⟨s, c.server.state.attend json k c.server.history l⟩
        up } := by
  simp only [serve, TransitionSystem.stepWithHistory, Option.bind_eq_bind,
    Option.bind_eq_some_iff, Option.map_eq_some_iff, Option.pure_def, Option.some_inj]
  constructor
  · rintro ⟨up, hup, server, ⟨s, hstep, rfl⟩, rfl⟩
    exact ⟨up, s, hup, hstep, rfl⟩
  · rintro ⟨up, s, hup, hstep, rfl⟩
    exact ⟨up, hup, _, ⟨s, hstep, rfl⟩, rfl⟩

theorem takes_read {bytes up : List UInt8} {now : ℤ}
    (h : c.takes k (.read k bytes now) = some up) :
    c.up.take bytes.length = bytes ∧ up = c.up.drop bytes.length := by
  rw [takes, if_pos rfl] at h
  split at h
  · rename_i htake
    exact ⟨htake, (Option.some.inj h).symm⟩
  · cases h

theorem takes_other {up : List UInt8} (hl : ∀ bytes now, l ≠ .read k bytes now)
    (h : c.takes k l = some up) : up = c.up := by
  cases l with
  | read j bytes now =>
      rw [takes, if_neg (by rintro rfl; exact hl _ _ rfl)] at h
      exact (Option.some.inj h).symm
  | _ => exact (Option.some.inj h).symm

end Conversation

/-- The session of a connection changes when it is fed, and is new until it is accepted. -/
theorem Net.Act.session_eq {json : SerdeJson} {s s' : Net} {l : Net.Label} {k : ConnId}
    (h : Net.Act json s l s') (hl : ∀ bytes now, l ≠ .read k bytes now)
    (hfresh : s.accepted ≤ k → (s.conns k).session = .new) :
    (s'.conns k).session = (s.conns k).session := by
  have hupdate {j : ConnId} {c : Conn} (hc : j = k → c.session = (s.conns k).session) :
      (Function.update s.conns j c k).session = (s.conns k).session := by
    by_cases hj : k = j
    · subst hj
      rw [Function.update_self]
      exact hc rfl
    · rw [Function.update_of_ne hj]
  cases h with
  | accept => exact hupdate (by rintro rfl; exact (hfresh le_rfl).symm)
  | read hreader hevent => exact hupdate (by rintro rfl; exact absurd rfl (hl _ _))
  | readFails hreader => exact hupdate (by rintro rfl; rfl)
  | spawn hreader => exact hupdate (by rintro rfl; rfl)
  | cloneFails hreader => exact hupdate (by rintro rfl; rfl)
  | register hreader hscan => exact hupdate (by rintro rfl; rfl)
  | currentSettings hreader => exact hupdate (by rintro rfl; rfl)
  | sent hsends hsent => exact hupdate (by rintro rfl; cases hsends <;> rfl)
  | sendFails hsends hconnected => exact hupdate (by rintro rfl; rfl)
  | unregister hreader hmyId hscan => exact hupdate (by rintro rfl; rfl)
  | leave hreader hmyId => exact hupdate (by rintro rfl; rfl)
  | _ => rfl

namespace Conversation

variable {json : SerdeJson} {k : ConnId} {g : Greeter} {c c' : Conversation} {l : Net.Label}
  {cur : Cursor (Option Request)}

theorem requested_of_ne (s : Net) (hl : ∀ bytes now, l ≠ .read k bytes now) :
    s.requested json k l = [] := by
  cases l with
  | read j bytes now => exact if_neg (by rintro rfl; exact hl _ _ rfl)
  | _ => rfl

/-- The other steps of the server leave the client's bytes alone. -/
theorem Upstream.waits (hu : c.Upstream g k cur) (hl : ∀ bytes now, l ≠ .read k bytes now)
    (h : c.serve json k l = some c') : c'.Upstream g k cur := by
  obtain ⟨up, s, hup, hstep, rfl⟩ := serve_eq_some.mp h
  obtain rfl := takes_other hl hup
  have hact := Net.step_act hstep
  have hsession := hact.session_eq hl hu.fresh
  have haccepted := hact.effect.naming.le.1
  refine ⟨hu.items, hu.rest, (congrArg ServerSession.framing hsession).trans hu.framing,
    (congrArg ServerSession.greeted hsession).trans hu.greeted, ?_, ?_⟩
  · change List.Forall₂ _ _ (_ ++ Net.requested json _ k l)
    rw [requested_of_ne _ hl, List.append_nil]
    exact hu.asked
  · intro hk
    exact hsession.trans (hu.fresh (haccepted.trans hk))

/-- The output of a read of the client's bytes is never an error, and is a greeting only for a
session that was not greeted. -/
theorem Upstream.output (hjson : json.HelloLaws) (hu : c.Upstream g k cur) {bytes : List UInt8}
    {now : ℤ} (hlen : bytes.length = (c.session k).nextAction.bytes)
    (htake : c.up.take bytes.length = bytes) :
    ∃ out, c.server.state.output json k bytes now = .ok out ∧
      ∀ h, out = .hello h → (c.session k).greeted = false := by
  obtain ⟨result, session, cur', hreads, -, hevent⟩ :=
    hu.reads hjson hlen htake (.fromMicros now)
  have houtput : c.server.state.output json k bytes now = result := congrArg Prod.fst hevent
  rw [houtput]
  cases hreads with
  | header hinside hahead => exact ⟨_, rfl, by rintro h ⟨⟩⟩
  | @packet item hinside hitem =>
      refine ⟨_, rfl, fun h hout => ?_⟩
      have hnone : item = none := by
        cases item with
        | none => rfl
        | some q => cases hout
      rw [hu.greeted, hitem.mp hnone]
      rfl

theorem read_eq_some {s s' : Net} {bytes : List UInt8} {now : ℤ} {result : Outcome SessionOutput}
    {session : ServerSession} (h : s.step json (.read k bytes now) = some s')
    (hevent : (s.conns k).session.handleEvent json ((s.conns k).session.nextAction.event bytes)
      (.fromMicros now) = (result, session)) :
    (s.conns k).reader = .reading ∧ (s'.conns k).session = session ∧ s'.accepted = s.accepted := by
  change s.read json k bytes now = some s' at h
  rw [Net.read] at h
  split at h
  · rename_i hread
    rw [hevent] at h
    obtain rfl := Option.some.inj h
    refine ⟨hread.1, ?_, rfl⟩
    simp only [Net.setConn, Function.update_self]
    exact (Net.handled_cases (c := { s.conns k with session }) hread.1 result).1
  · cases h

theorem length_of_read {s s' : Net} {bytes : List UInt8} {now : ℤ}
    (h : s.step json (.read k bytes now) = some s') :
    bytes.length = (s.conns k).session.nextAction.bytes := by
  change s.read json k bytes now = some s' at h
  rw [Net.read] at h
  split at h
  · rename_i hread
    exact hread.2
  · cases h

/-- A read of the connection takes a header or a payload of the client. -/
theorem Upstream.read (hjson : json.HelloLaws) (hu : c.Upstream g k cur) (hw : c.server.state.Wired)
    {bytes : List UInt8} {now : ℤ} (h : c.serve json k (.read k bytes now) = some c') :
    ∃ cur', c'.Upstream g k cur' := by
  obtain ⟨up, s, hup, hstep, rfl⟩ := serve_eq_some.mp h
  obtain ⟨htake, rfl⟩ := takes_read hup
  obtain ⟨result, session, cur', hreads, hdrop, hevent⟩ :=
    hu.reads hjson (length_of_read hstep) htake (.fromMicros now)
  obtain ⟨hreader, hsession, haccepted⟩ := read_eq_some hstep hevent
  have hk : k < s.accepted := by
    rw [haccepted]
    exact hw.lt_accepted (by simp [hreader])
  have houtput : c.server.state.output json k bytes now = result := congrArg Prod.fst hevent
  have hrequested : c.server.state.requested json k (.read k bytes now) = requestsOf result := by
    rw [Net.requested, if_pos rfl, houtput]
  refine ⟨cur', ?_⟩
  cases hreads with
  | @header item ahead hinside hahead =>
      refine ⟨(Cursor.items_of_head hinside hahead).trans hu.items, hdrop,
        congrArg ServerSession.framing hsession, (congrArg ServerSession.greeted hsession).trans
        hu.greeted, ?_, fun h => absurd hk (Nat.not_lt_of_le h)⟩
      change List.Forall₂ _ _ (_ ++ Net.requested json _ k _)
      rw [hrequested]
      simpa [requestsOf] using hu.asked
  | @packet item hinside hitem =>
      refine ⟨(Cursor.items_of_body hinside).trans hu.items, hdrop,
        congrArg ServerSession.framing hsession, (congrArg ServerSession.greeted hsession).trans
        (by simp), ?_, fun h => absurd hk (Nat.not_lt_of_le h)⟩
      change List.Forall₂ _ (cur.taken ++ [item]).reduceOption (_ ++ Net.requested json _ k _)
      rw [hrequested, List.reduceOption_append]
      cases item with
      | none => simpa [requestsOf, Greeter.output] using hu.asked
      | some q =>
          refine List.rel_append hu.asked (.cons ⟨rfl, rfl, now, rfl⟩ .nil)

/-- What a poll does: a request goes out if one is due. -/
theorem poll_cases (htxBuf : c.txBuf.length = Time.wireSize) {now : ℤ} (h : c.poll now = some c') :
    c.fault = none ∧ (c' = c ∨ ∃ q : Request, c.machine.Due now ∧ q.id = c.machine.pktId ∧
      q.stamp = now ∧ q.bytes = q.frame.bytes ∧
      c.machine.pollTransmit now c.txBuf =
        .ok (some Time.wireSize, q.bytes, c.machine.requested now) ∧
      c' = { c with
        machine := c.machine.requested now, txBuf := q.bytes, up := c.up ++ q.bytes
        requests := c.requests ++ [q] }) := by
  rw [poll] at h
  split at h
  · rename_i hfault
    refine ⟨hfault, ?_⟩
    by_cases hdue : c.machine.Due now
    · have hpoll := ClientMachine.pollTransmit_of_due hdue c.txBuf htxBuf.ge
      rw [List.drop_of_length_le htxBuf.le, List.append_nil] at hpoll
      let q : Request := ⟨c.machine.pktId, now, (Time.frame c.machine.pktId 0 (.fromMicros now)
        (.fromMicros now) (.fromMicros now)).bytes⟩
      have htake : (Time.frame c.machine.pktId 0 (.fromMicros now) (.fromMicros now)
          (.fromMicros now)).bytes.take Time.wireSize = q.bytes :=
        List.take_of_length_le (Time.frame_bytes_length ..).le
      rw [hpoll] at h
      simp only [htake, Option.some_inj] at h
      exact .inr ⟨q, hdue, rfl, rfl, rfl, hpoll, h.symm⟩
    · rw [ClientMachine.pollTransmit_of_not_due hdue] at h
      exact .inl (Option.some.inj h).symm
  · cases h

/-- A request of the client follows what it has written. -/
theorem Upstream.push (hu : c.Upstream g k cur) {q : Request} (hbytes : q.bytes = q.frame.bytes)
    (hserver : c'.server = c.server) (hup : c'.up = c.up ++ q.bytes)
    (hrequests : c'.requests = c.requests ++ [q]) : c'.Upstream g k (cur.push (some q)) := by
  have hsession : c'.session k = c.session k := by rw [session, hserver, session]
  refine ⟨?_, ?_, hsession ▸ hu.framing, hsession ▸ hu.greeted, hserver ▸ hu.asked,
    fun h => hsession.trans (hu.fresh (hserver ▸ h))⟩
  · rw [Cursor.items_push, hu.items, hrequests, List.map_append]
    rfl
  · rw [Cursor.rest_push, hup, hu.rest, hbytes]
    rfl

/-- What the client reads is nothing to what it writes. -/
theorem Upstream.congr (hu : c.Upstream g k cur) (hserver : c'.server = c.server)
    (hup : c'.up = c.up) (hrequests : c'.requests = c.requests) : c'.Upstream g k cur := by
  have hsession : c'.session k = c.session k := by rw [session, hserver, session]
  exact ⟨hrequests ▸ hu.items, hup ▸ hu.rest, hsession ▸ hu.framing, hsession ▸ hu.greeted,
    hserver ▸ hu.asked, fun h => hsession.trans (hu.fresh (hserver ▸ h))⟩

theorem upstream_start (g : Greeter) (k : ConnId) (bufferMs : UInt32) (initialVolume : UInt8) :
    (start bufferMs initialVolume (g.frame none).bytes).Upstream g k (.start [none]) where
  items := rfl
  rest := by
    rw [Cursor.rest_start, List.flatMap_singleton]
    rfl
  framing := rfl
  greeted := rfl
  asked := .nil
  fresh _ := rfl

/-! ## From the server to the client -/

end Conversation

/-- Every chunk under way leaves room in its payload for its timestamp and its length. -/
structure Net.Fits (s : Net) : Prop where
  scan : ∀ scan, s.scan = some scan → scan.chunk.data.length ≤ Base.maxPayload - 12
  queued : ∀ tx ec, Outbound.chunk ec ∈ (s.channels tx).history →
    ec.data.length ≤ Base.maxPayload - 12

namespace Net

variable {json : SerdeJson} {s s' : Net} {l : Label}

theorem fits_new (bufferMs : UInt32) (initialVolume : UInt8) :
    (new bufferMs initialVolume).Fits :=
  ⟨by rintro scan ⟨⟩, by rintro tx ec ⟨⟩⟩

theorem Sends.chunk?_eq_none {k : ConnId} {tx : ChannelId} {msg : Outbound} {next : Conn}
    (h : s.Sends k tx msg next) : msg.chunk? = none := by
  cases h <;> rfl

/-- The chunks of a channel fit if those it had do, and those that were added. -/
theorem Fits.update (hf : s.Fits) {t : ChannelId} {c : Channel channelSlots Outbound}
    (hc : ∀ ec, .chunk ec ∈ c.history → .chunk ec ∈ (s.channels t).history ∨
      ec.data.length ≤ Base.maxPayload - 12) (tx : ChannelId) (ec : EncodedChunk)
    (hmem : .chunk ec ∈ (Function.update s.channels t c tx).history) :
    ec.data.length ≤ Base.maxPayload - 12 := by
  by_cases ht : tx = t
  · subst ht
    rw [Function.update_self] at hmem
    exact (hc ec hmem).elim (hf.queued tx ec) id
  · rw [Function.update_of_ne ht] at hmem
    exact hf.queued tx ec hmem

theorem chunk_of_sent {c c' : Channel channelSlots Outbound} {msg : Outbound}
    (hsent : c.Sent msg c') {ec : EncodedChunk} (hmem : .chunk ec ∈ c'.history) :
    .chunk ec ∈ c.history ∨ msg = .chunk ec := by
  rw [hsent.history] at hmem
  exact (List.mem_append.mp hmem).imp_right fun h => (List.mem_singleton.mp h).symm

theorem Act.fits (hf : s.Fits)
    (hl : ∀ chunk, l = .startScan chunk → chunk.data.length ≤ Base.maxPayload - 12)
    (h : Act json s l s') : s'.Fits := by
  cases h with
  | spawn hreader =>
      refine ⟨hf.scan, hf.update (t := s.created) (c := .new) ?_⟩
      rintro ec ⟨⟩
  | sent hsends hsent =>
      refine ⟨hf.scan, hf.update fun ec hmem => .inl ?_⟩
      refine (chunk_of_sent hsent hmem).resolve_right ?_
      rintro rfl
      cases hsends.chunk?_eq_none
  | recv hstate hrecv =>
      refine ⟨hf.scan, hf.update fun ec hmem => .inl ?_⟩
      rwa [(Channel.recv_spec hrecv).1] at hmem
  | writePanics hbuf =>
      refine ⟨hf.scan, hf.update fun ec hmem => .inl ?_⟩
      rw [Channel.history_close] at hmem
      exact (Channel.taken_prefix_history _).mem hmem
  | writeFails =>
      refine ⟨hf.scan, hf.update fun ec hmem => .inl ?_⟩
      rw [Channel.history_close] at hmem
      exact (Channel.taken_prefix_history _).mem hmem
  | hangup hstate hqueue hheld =>
      refine ⟨hf.scan, hf.update fun ec hmem => .inl ?_⟩
      rw [Channel.history_close] at hmem
      exact (Channel.taken_prefix_history _).mem hmem
  | settingsSent hmem' hsent =>
      refine ⟨hf.scan, hf.update fun ec hmem => .inl ?_⟩
      exact (chunk_of_sent hsent hmem).resolve_right (by rintro ⟨⟩)
  | startScan hscan hlimit =>
      refine ⟨?_, hf.queued⟩
      rintro scan ⟨⟩
      exact hl _ rfl
  | @offer id now later scan handle result c hscan hmem' hget hsend =>
      refine ⟨?_, hf.update fun ec hmem => ?_⟩
      · rintro scan' ⟨⟩
        exact hf.scan scan hscan
      · cases result with
        | sent =>
            refine (chunk_of_sent (Channel.trySend_sent hsend) hmem).imp_right ?_
            rintro ⟨⟩
            exact hf.scan scan hscan
        | full => exact .inl (Channel.trySend_full hsend ▸ hmem)
        | disconnected => exact .inl ((Channel.trySend_disconnected hsend).1 ▸ hmem)
  | endScan hscan hremaining => exact ⟨by rintro scan ⟨⟩, hf.queued⟩
  | _ => exact ⟨hf.scan, hf.queued⟩

end Net

/-- What the client decodes of a message. -/
def Outbound.message : Outbound → ServerMessage
  | chunk ec => .wireChunk ⟨ec.timestamp, ec.data⟩
  | settings st => .serverSettings st
  | codecHeader => .codecHeader opusCodecHeader
  | timeReply _ clientSent _ => .time ⟨clientSent⟩

/-- A message travels as a frame that decodes to it. -/
structure Outbound.Travels (json : SerdeJson) (msg : Outbound) (frame : Frame) : Prop where
  decode : frame.base.decode json frame.payload = .ok msg.message
  time : frame.base.mtype = .time ↔ msg.request?.isSome

theorem Outbound.exists_frame {json : SerdeJson} (hjson : json.SettingsLaws) (msg : Outbound)
    (hfits : ∀ ec, msg = .chunk ec → ec.data.length ≤ Base.maxPayload - 12) (id : UInt16)
    (now : TimeVal) :
    ∃ frame : Frame, msg.asBuf json id now = .ok frame.bytes ∧ msg.Travels json frame ∧
      frame.base.id = id := by
  have htravels (w : ServerWrite) (hbuf : msg.asBuf json id now = w.asBuf json)
      (hmessage : w.message = msg.message) (htime : w.base.mtype = .time ↔ msg.request?.isSome)
      (hid : w.base.id = id) : ∃ frame : Frame, msg.asBuf json id now = .ok frame.bytes ∧
        msg.Travels json frame ∧ frame.base.id = id :=
    ⟨w.frame, hbuf.trans (w.asBuf_eq hjson), ⟨hmessage ▸ w.decode_payload hjson, htime⟩, hid⟩
  cases msg with
  | chunk ec =>
      exact htravels (.wireChunk ⟨ec.timestamp, ec.data⟩ (hfits ec rfl) id now) rfl rfl
        (by simp [ServerWrite.base, request?]) rfl
  | settings st =>
      exact htravels (.serverSettings st id now) rfl rfl (by simp [ServerWrite.base, request?]) rfl
  | codecHeader =>
      exact htravels (.opusHeader { sampleRate := 48000, bitDepth := 16, channelCount := 2 } id now)
        rfl rfl (by simp [ServerWrite.base, request?]) rfl
  | timeReply refersTo clientSent received =>
      exact htravels (.time id refersTo now received clientSent) rfl rfl
        (by simp [ServerWrite.base, request?]) rfl

end SnapcastClient
