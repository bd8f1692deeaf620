import SnapcastClient.Verification.Traffic

/-! # What a connection is served

The threads of a server share the queue of a connection: its reader and the settings
broadcasts wait for room, the chunk broadcasts do not. Only chunks are dropped, and those are
counted. -/

namespace SnapcastClient

/-! ## The record of a connection -/

/-- A `Time` request as the session outputs it. -/
structure TimeRequest where
  id : UInt16
  clientSent : TimeVal
  received : TimeVal
  deriving DecidableEq, Repr

/-- The request among the outcomes of a packet. -/
def requestsOf : Outcome SessionOutput → List TimeRequest
  | .ok (.timeRequest id clientSent received) => [⟨id, clientSent, received⟩]
  | _ => []

/-- The request a message answers. -/
def Outbound.request? : Outbound → Option TimeRequest
  | timeReply refersTo clientSent received => some ⟨refersTo, clientSent, received⟩
  | _ => none

def Outbound.chunk? : Outbound → Option EncodedChunk
  | chunk ec => some ec
  | _ => none

/-- The request whose reply waits for room in the queue. -/
def Reader.pending : Reader → List TimeRequest
  | replying _ refersTo clientSent received => [⟨refersTo, clientSent, received⟩]
  | _ => []

/-- What a greeting still has to send. -/
def Reader.due : Reader → List Outbound
  | greeting _ _ (.sendSettings st) => [.settings st, .codecHeader]
  | greeting _ _ .sendCodecHeader => [.codecHeader]
  | _ => []

/-- The message the writer has taken and not written yet. -/
def WriterState.inHand : WriterState → List Outbound
  | writing msg => [msg]
  | _ => []

/-- One connection in a run: its channel, its client id, the requests its session has output,
the settings and codec headers it is due, the chunks broadcast while it was registered, and the
dropped count of its handle, kept when the handle is gone. -/
structure Service where
  tx : Option ChannelId
  id : Option ClientId
  requests : List TimeRequest
  controls : List Outbound
  chunks : List EncodedChunk
  dropped : ℕ

def Service.empty : Service := ⟨none, none, [], [], [], 0⟩

namespace Net

def handle? (s : Net) (service : Service) : Option ClientHandle :=
  service.id.bind s.registry.get?

def dropped (s : Net) (service : Service) : ℕ :=
  (s.handle? service).elim service.dropped ClientHandle.dropped

/-- The request that the connection's session outputs. -/
def requested (json : SerdeJson) (s : Net) (k : ConnId) : Label → List TimeRequest
  | .read j bytes now => if j = k then requestsOf (s.output json k bytes now) else []
  | _ => []

/-- The settings and the codec header that a step makes due. -/
def fallsDue (s : Net) (k : ConnId) (service : Service) : Label → List Outbound
  | .currentSettings j =>
      if j = k then [.settings s.registry.currentSettings, .codecHeader] else []
  | .storeVolume volume =>
      if (s.handle? service).isSome then
        [.settings (s.registry.storeVolume volume).2.currentSettings]
      else []
  | _ => []

/-- The chunk that a step begins to broadcast to the client. -/
def broadcast (s : Net) (service : Service) : Label → List EncodedChunk
  | .startScan chunk => if (s.handle? service).isSome then [chunk] else []
  | _ => []

/-- Record what a step means to the connection. -/
def attend (json : SerdeJson) (k : ConnId) (s : Net) (service : Service) (l : Label) :
    Service where
  tx :=
    match l with
    | .spawn j => if j = k then some s.created else service.tx
    | _ => service.tx
  id :=
    match l with
    | .register j => if j = k then some s.registry.nextId else service.id
    | _ => service.id
  requests := service.requests ++ s.requested json k l
  controls := service.controls ++ s.fallsDue k service l
  chunks := service.chunks ++ s.broadcast service l
  dropped := s.dropped service

/-- The runs of a server with the record of a connection. -/
def attendedSystem (json : SerdeJson) (k : ConnId) (bufferMs : UInt32) (initialVolume : UInt8) :
    TransitionSystem (TransitionSystem.WithHistory Net Service) Label :=
  (system json bufferMs initialVolume).withHistory .empty (attend json k)

/-- The connection sends no second greeting, and its writer meets no write error. -/
def courteous (json : SerdeJson) (k : ConnId) (p : TransitionSystem.WithHistory Net Service) :
    Label → Bool
  | .read j bytes now =>
      match p.state.output json k bytes now with
      | .ok (.hello _) => ¬ (j = k ∧ (p.state.conns k).session.greeted)
      | _ => true
  | .writeFails tx => p.history.tx ≠ some tx
  | _ => true

/-- The chunk of a running broadcast that was not offered to the client yet. -/
def unoffered (s : Net) (service : Service) : List EncodedChunk :=
  match s.scan, service.id with
  | some scan, some id => if id ∈ scan.remaining then [scan.chunk] else []
  | _, _ => []

/-- The settings that `broadcast_settings` calls still have to send on a channel. -/
def unsent (s : Net) (tx : ChannelId) : List Outbound :=
  s.pending.filterMap fun send => if send.1 = tx then some (.settings send.2) else none

variable {json : SerdeJson} {s s' : Net} {l : Label} {k : ConnId} {tx : ChannelId}
  {service : Service}

/-! ## Steps that leave no record -/

theorem attend_tx (hl : l ≠ .spawn k) : (s.attend json k service l).tx = service.tx := by
  cases l with
  | spawn j => exact if_neg fun h => hl (congrArg Label.spawn h)
  | _ => rfl

theorem attend_id (hl : l ≠ .register k) : (s.attend json k service l).id = service.id := by
  cases l with
  | register j => exact if_neg fun h => hl (congrArg Label.register h)
  | _ => rfl

theorem requested_eq_nil (hl : l.reader? ≠ some k) : s.requested json k l = [] := by
  cases l with
  | read j bytes now => exact if_neg fun h => hl (congrArg some h)
  | _ => rfl

/-! ## The client id of a connection -/

/-- The client with the connection's channel is the one that its reader registered. -/
structure Known (k : ConnId) (tx : ChannelId) (s : Net) (service : Service) : Prop where
  registering : ∀ t, (s.conns k).reader = .registering t → service.id = none
  entry : ∀ id h, (id, h) ∈ s.registry.clients → (h.tx = tx ↔ service.id = some id)
  lt : ∀ id, service.id = some id → id < s.registry.nextId
  dropped : service.id = none → service.dropped = 0

theorem Turn.registering (h : Turn json s k tx l s') {t : ChannelId}
    (hreader : (s'.conns k).reader = .registering t) :
    (s.conns k).reader = .registering t ∧ l ≠ .register k := by
  cases h with
  | waits hconcerns hconn hchannel hwriter =>
      refine ⟨hconn ▸ hreader, ?_⟩
      rintro rfl
      exact hconcerns (.inl rfl)
  | moves hmove hchannel hwriter =>
      generalize s'.conns k = c at hmove hreader
      cases hmove with
      | @read bytes now result session hreading hevent =>
          have hreturns := (s.conns k).session.returns_handleEvent json bytes (.fromMicros now)
          rw [hevent] at hreturns
          obtain ⟨reader, hhandled, -, hnot⟩ :=
            handled_spec (c := { s.conns k with session }) hreading hreturns
          rw [hhandled] at hreader
          exact absurd hreader (hnot t)
      | _ => cases hreader
  | sends hsends hsent hwriter =>
      exact ⟨hsends.follows.registering t hreader, by rintro ⟨⟩⟩
  | carries hline hconn =>
      refine ⟨hconn ▸ hreader, ?_⟩
      rintro rfl
      cases hline.reader?_eq_none

theorem Act.shrinks (h : Act json s l s') (hl : ∀ j, l ≠ .register j) :
    s.registry.Shrinks s'.registry := by
  cases h.effect.naming with
  | accept => exact .refl _
  | spawn hreader => exact .refl _
  | register hreader => exact absurd rfl (hl _)
  | keeps hregistry haccepted hcreated hreader => exact hregistry

theorem dropped_of_id_eq_none (hid : service.id = none) : s.dropped service = service.dropped := by
  rw [dropped, handle?, hid]
  rfl

theorem Known.step (ha : s.Attended k tx) (hk : s.Known k tx service) (h : Act json s l s')
    (hturn : Turn json s k tx l s') : s'.Known k tx (s.attend json k service l) := by
  have hregistering (t : ChannelId) (hreader : (s'.conns k).reader = .registering t) :
      (s.attend json k service l).id = none := by
    obtain ⟨hreader, hl⟩ := hturn.registering hreader
    rw [attend_id hl]
    exact hk.registering t hreader
  have hdropped (hid : service.id = none) : (s.attend json k service l).dropped = 0 :=
    (dropped_of_id_eq_none hid).trans (hk.dropped hid)
  by_cases hl : ∃ j, l = .register j
  · obtain ⟨j, rfl⟩ := hl
    cases h with
    | @register _ t hreader hscan =>
        by_cases hj : j = k
        · subst hj
          obtain rfl := ha.own t (.inl (by rw [hreader]; rfl))
          have hid : (s.attend json j service (.register j)).id = some s.registry.nextId :=
            if_pos rfl
          have hnone := hk.registering t hreader
          refine ⟨hregistering, ?_, ?_, fun _ => hdropped hnone⟩
          · intro id h hmem
            rw [hid]
            rcases Registry.mem_register.mp hmem with hmem | ⟨rfl, rfl⟩
            · rw [hk.entry id h hmem, hnone]
              simp [(Registry.id_ne_nextId hmem).symm]
            · simp
          · intro id h
            rw [hid] at h
            obtain rfl := Option.some.inj h
            exact Nat.lt_succ_self _
        · have hid : (s.attend json k service (.register j)).id = service.id :=
            attend_id fun h => hj (Label.register.inj h)
          have ht : t ≠ tx := by
            rintro rfl
            exact hj (ha.sole j (.inl (by rw [hreader]; rfl)))
          refine ⟨hregistering, ?_, ?_, fun h => hdropped (hid ▸ h)⟩
          · intro id h hmem
            rw [hid]
            rcases Registry.mem_register.mp hmem with hmem | ⟨rfl, rfl⟩
            · exact hk.entry id h hmem
            · exact iff_of_false ht fun h => Nat.lt_irrefl _ (hk.lt _ h)
          · intro id h
            exact Nat.lt_succ_of_lt (hk.lt id (hid ▸ h))
  · have hl' (j : ConnId) : l ≠ .register j := fun h => hl ⟨j, h⟩
    have hid : (s.attend json k service l).id = service.id := attend_id (hl' k)
    obtain ⟨hentry, hnextId⟩ := h.shrinks hl'
    refine ⟨hregistering, ?_, ?_, fun h => hdropped (hid ▸ h)⟩
    · intro id h hmem
      obtain ⟨h₀, hmem₀, htx, -⟩ := hentry id h hmem
      rw [hid, htx]
      exact hk.entry id h₀ hmem₀
    · intro id h
      rw [hnextId]
      exact hk.lt id (hid ▸ h)

/-! ## Replies -/

/-- The replies queued so far and the one that waits answer the requests in their order. -/
def Answered (k : ConnId) (tx : ChannelId) (s : Net) (service : Service) : Prop :=
  (s.channels tx).history.filterMap Outbound.request? ++ (s.conns k).reader.pending =
    service.requests

theorem pending_handled {c : Conn} (hreader : c.reader = .reading) (hmyTx : c.myTx = some tx)
    (result : Outcome SessionOutput) : (c.handled result).reader.pending = requestsOf result := by
  have hhandles := c.handles result
  generalize c.handled result = c' at hhandles
  cases hhandles with
  | goesOn => exact congrArg Reader.pending hreader
  | unserved hnone => cases hnone.symm.trans hmyTx
  | _ => rfl

theorem Turn.answered (ha : s.Attended k tx) (hr : s.Answered k tx service)
    (h : Turn json s k tx l s') : s'.Answered k tx (s.attend json k service l) := by
  rw [Answered] at hr
  change _ = service.requests ++ s.requested json k l
  rw [← hr]
  cases h with
  | waits hconcerns hconn hchannel hwriter =>
      rw [hconn, hchannel, requested_eq_nil fun h => hconcerns (.inl h), List.append_nil]
  | moves hmove hchannel hwriter =>
      rw [hchannel, List.append_assoc, List.append_cancel_left_eq]
      generalize s'.conns k = c at hmove
      cases hmove with
      | @read bytes now result session hreader hevent =>
          have hpending := pending_handled (c := { s.conns k with session }) hreader
            (ha.serves (by rw [hreader]; trivial)) result
          have hresult : s.output json k bytes now = result := congrArg Prod.fst hevent
          rw [hpending, hreader, requested, if_pos rfl, hresult]
          rfl
      | readFails hreader => rw [hreader]; rfl
      | cloneFails hreader => rw [hreader]; rfl
      | register hreader => rw [hreader]; rfl
      | currentSettings hreader => rw [hreader]; rfl
      | stops hreader => rw [hreader]; rfl
  | sends hsends hsent hwriter =>
      rw [hsent.history]
      generalize s'.conns k = c at hsends
      cases hsends with
      | settings hreader => simp [hreader, Outbound.request?, Reader.pending, requested]
      | codecHeader hreader => simp [hreader, Outbound.request?, Reader.pending, requested]
      | reply hreader => simp [hreader, Outbound.request?, Reader.pending, requested]
  | carries hline hconn =>
      rw [hconn, requested_eq_nil (by rw [hline.reader?_eq_none]; rintro ⟨⟩), List.append_nil,
        List.append_cancel_right_eq]
      rcases hline.history with h | ⟨st, -, h⟩ | ⟨id, now, later, ec, -, h⟩
      · rw [h]
      · rw [h]
        simp [Outbound.request?]
      · rw [h]
        simp [Outbound.request?]

/-! ## Frames -/

/-- Buffer `i` is message `i`, encoded under the id `i` modulo 2 ^ 16. -/
def Encodes (json : SerdeJson) (msgs : List Outbound) (bufs : List (List UInt8)) : Prop :=
  msgs.length = bufs.length ∧ ∀ i buf, bufs[i]? = some buf →
    ∃ (msg : Outbound) (now : TimeVal), msgs[i]? = some msg ∧
      msg.asBuf json (UInt16.ofNat i) now = .ok buf

theorem Encodes.concat {msgs : List Outbound} {bufs : List (List UInt8)} {msg : Outbound}
    {buf : List UInt8} {now : TimeVal} (h : Encodes json msgs bufs)
    (hbuf : msg.asBuf json (UInt16.ofNat bufs.length) now = .ok buf) :
    Encodes json (msgs ++ [msg]) (bufs ++ [buf]) := by
  refine ⟨by simp [h.1], ?_⟩
  intro i buf' hi
  rcases Nat.lt_trichotomy i bufs.length with hlt | rfl | hgt
  · rw [List.getElem?_append_left hlt] at hi
    rw [List.getElem?_append_left (h.1 ▸ hlt)]
    exact h.2 i buf' hi
  · rw [List.getElem?_concat_length] at hi
    obtain rfl := Option.some.inj hi
    refine ⟨msg, now, ?_, hbuf⟩
    rw [← h.1, List.getElem?_concat_length]
  · rw [List.getElem?_eq_none (by simpa using Nat.succ_le_of_lt hgt)] at hi
    cases hi

/-- The writer has written all that it took, but for the message in hand. -/
def Written (json : SerdeJson) (tx : ChannelId) (s : Net) : Prop :=
  (s.writers tx).id = UInt16.ofNat (s.writers tx).written.length ∧
    ∃ msgs, (s.channels tx).taken = msgs ++ (s.writers tx).state.inHand ∧
      Encodes json msgs (s.writers tx).written

theorem Turn.written (hw : s.Written json tx) (h : Turn json s k tx l s') :
    s'.Written json tx := by
  obtain ⟨hid, msgs, htaken, hencodes⟩ := hw
  cases h with
  | waits hconcerns hconn hchannel hwriter =>
      rw [Written, hchannel, hwriter]
      exact ⟨hid, msgs, htaken, hencodes⟩
  | moves hmove hchannel hwriter =>
      rw [Written, hchannel, hwriter]
      exact ⟨hid, msgs, htaken, hencodes⟩
  | sends hsends hsent hwriter =>
      rw [Written, hsent.taken, hwriter]
      exact ⟨hid, msgs, htaken, hencodes⟩
  | carries hline hconn =>
      rw [Written]
      generalize s'.channels tx = c, s'.writers tx = w at hline
      cases hline with
      | settings hsent => exact ⟨hid, msgs, hsent.taken.trans htaken, hencodes⟩
      | @offered id now later scan h result c hscan hget htx hsend =>
          refine ⟨hid, msgs, ?_, hencodes⟩
          rw [← htaken]
          cases result with
          | sent => exact (Channel.trySend_sent hsend).taken
          | full => rw [Channel.trySend_full hsend]
          | disconnected => rw [(Channel.trySend_disconnected hsend).1]
      | recv hstate hrecv =>
          refine ⟨hid, msgs, ?_, hencodes⟩
          rw [(Channel.recv_spec hrecv).2.1, htaken, hstate, List.append_assoc]
          rfl
      | @wrote now msg buf hstate hbuf =>
          rw [hid] at hbuf
          refine ⟨?_, msgs ++ [msg], ?_, hencodes.concat hbuf⟩
          · simp [hid]
          · rw [htaken, hstate]
            simp [WriterState.inHand]
      | hangup hstate hqueue hheld =>
          refine ⟨hid, msgs, ?_, hencodes⟩
          rw [hstate] at htaken
          exact htaken

/-! ## Chunks -/

/-- The chunks queued so far. -/
def delivered (s : Net) (tx : ChannelId) : List EncodedChunk :=
  (s.channels tx).history.filterMap Outbound.chunk?

/-- Of the chunks offered so far, those that are not in the queue's history are counted as
dropped. -/
def Counted (tx : ChannelId) (s : Net) (service : Service) : Prop :=
  ∃ offered, service.chunks = offered ++ s.unoffered service ∧ (s.delivered tx).Sublist offered ∧
    (s.delivered tx).length + s.dropped service = offered.length

/-- A broadcast still has each client before it at most once. -/
def Scanning (s : Net) : Prop :=
  ∀ scan, s.scan = some scan → scan.remaining.Nodup

theorem Act.scanning (hn : s.Scanning) (h : Act json s l s') : s'.Scanning := by
  cases h with
  | startScan hscan hlimit =>
      rintro scan ⟨⟩
      exact s.registry.nodup
  | offer hscan hmem hget hsend =>
      rintro scan ⟨⟩
      exact (hn _ hscan).erase _
  | endScan hscan hremaining =>
      rintro scan ⟨⟩
  | _ => exact hn

theorem Turn.delivered (h : Turn json s k tx l s')
    (hl : ∀ id now later, l ≠ .offer id now later) : s'.delivered tx = s.delivered tx := by
  rw [Net.delivered, Net.delivered]
  cases h with
  | waits hconcerns hconn hchannel hwriter => rw [hchannel]
  | moves hmove hchannel hwriter => rw [hchannel]
  | sends hsends hsent hwriter =>
      rw [hsent.history]
      generalize s'.conns k = c at hsends
      cases hsends with
      | settings hreader => simp [Outbound.chunk?]
      | codecHeader hreader => simp [Outbound.chunk?]
      | reply hreader => simp [Outbound.chunk?]
  | carries hline hconn =>
      rcases hline.history with h | ⟨st, -, h⟩ | ⟨id, now, later, ec, hlabel, -⟩
      · rw [h]
      · rw [h]
        simp [Outbound.chunk?]
      · exact absurd hlabel (hl id now later)

theorem Act.get? (h : Act json s l s') (hl : ∀ id now later, l ≠ .offer id now later)
    {id : ClientId} (hid : id < s.registry.nextId) :
    s'.registry.get? id = s.registry.get? id ∨ s'.registry.get? id = none := by
  cases h with
  | register hreader hscan => exact .inl (Registry.get?_register_of_ne (Nat.ne_of_lt hid))
  | unregister hreader hmyId hscan => exact s.registry.get?_remove _ _
  | disconnect hscan hmem => exact s.registry.get?_remove _ _
  | offer hscan hmem hget hsend => exact absurd rfl (hl _ _ _)
  | _ => exact .inl rfl

/-- The dropped count stays as long as the handle does, and when the handle goes. -/
theorem dropped_congr {service' : Service} (hid : service'.id = service.id)
    (hdropped : service'.dropped = s.dropped service)
    (hget : ∀ id, service.id = some id →
      s'.registry.get? id = s.registry.get? id ∨ s'.registry.get? id = none) :
    s'.dropped service' = s.dropped service := by
  rw [Net.dropped, handle?, hid, hdropped]
  cases hservice : service.id with
  | none => rfl
  | some id =>
      rcases hget id hservice with h | h
      · simp only [Option.bind_some, h, Net.dropped, handle?, hservice]
        cases s.registry.get? id <;> rfl
      · simp [h]

theorem Act.dropped (hk : s.Known k tx service) (h : Act json s l s')
    (hl : ∀ id now later, l ≠ .offer id now later) (hregister : l ≠ .register k) :
    s'.dropped (s.attend json k service l) = s.dropped service :=
  dropped_congr (attend_id hregister) rfl fun id hid => h.get? hl (hk.lt id hid)

theorem unoffered_of_scan_eq_none (hscan : s.scan = none) : s.unoffered service = [] := by
  rw [unoffered, hscan]

theorem unoffered_of_id_eq_none (hid : service.id = none) : s.unoffered service = [] := by
  rw [unoffered, hid]
  cases s.scan <;> rfl

theorem unoffered_of_eq_some {scan : Scan} {id : ClientId} (hscan : s.scan = some scan)
    (hid : service.id = some id) :
    s.unoffered service = if id ∈ scan.remaining then [scan.chunk] else [] := by
  rw [unoffered, hscan, hid]

/-- A broadcast begins to offer its chunk to the clients that are registered. -/
theorem unoffered_startScan {scan : Scan}
    (hremaining : scan.remaining = s.registry.clients.map Prod.fst) :
    unoffered { s with scan := some scan } service =
      if (s.handle? service).isSome then [scan.chunk] else [] := by
  cases hid : service.id with
  | none => simp [unoffered_of_id_eq_none hid, handle?, hid]
  | some id =>
      rw [unoffered_of_eq_some rfl hid, hremaining, handle?, hid]
      simp only [Registry.mem_keys_iff, Option.bind_some]

theorem Counted.of_eq (hc : s.Counted tx service) {service' : Service}
    (chunks : List EncodedChunk) (hdelivered : s'.delivered tx = s.delivered tx)
    (hdropped : s'.dropped service' = s.dropped service)
    (hchunks : service'.chunks = service.chunks ++ chunks)
    (hunoffered : s'.unoffered service' = s.unoffered service ++ chunks) :
    s'.Counted tx service' := by
  obtain ⟨offered, hoffered, hsublist, hlength⟩ := hc
  refine ⟨offered, ?_, ?_, ?_⟩
  · rw [hchunks, hunoffered, hoffered, List.append_assoc]
  · rwa [hdelivered]
  · rwa [hdelivered, hdropped]

/-- An offer to the client queues its chunk or counts it. -/
theorem Counted.offer (hn : s.Scanning) (hconnected : (s.channels tx).connected = true)
    (hc : s.Counted tx service) {id : ClientId} {now later : ℤ} {scan scan' : Scan}
    {h : ClientHandle} {result : SendResult} {c : Channel channelSlots Outbound}
    (hid : service.id = some id) (hscan : s.scan = some scan) (hmem : id ∈ scan.remaining)
    (hget : s.registry.get? id = some h)
    (hsend : (s.channels tx).trySend (.chunk scan.chunk) = (result, c))
    (hregistry : s'.registry = s.registry.setHandle id (h.offered scan.limit now later result).1)
    (hscan' : s'.scan = some scan') (hremaining : scan'.remaining = scan.remaining.erase id)
    (hchannel : s'.channels tx = c) :
    s'.Counted tx (s.attend json k service (.offer id now later)) := by
  obtain ⟨offered, hchunks, hsublist, hlength⟩ := hc
  have hunoffered : s.unoffered service = [scan.chunk] :=
    (unoffered_of_eq_some hscan hid).trans (if_pos hmem)
  have hid' : (s.attend json k service (.offer id now later)).id = some id := hid
  have hunoffered' : s'.unoffered (s.attend json k service (.offer id now later)) = [] := by
    refine (unoffered_of_eq_some hscan' hid').trans (if_neg ?_)
    rw [hremaining]
    exact (hn scan hscan).not_mem_erase
  have hdropped : s.dropped service = h.dropped := by
    simp [dropped, handle?, hid, hget]
  have hdropped' : s'.dropped (s.attend json k service (.offer id now later)) =
      (h.offered scan.limit now later result).1.dropped := by
    have hget' : s'.registry.get? id = some (h.offered scan.limit now later result).1 := by
      rw [hregistry]
      exact Registry.get?_setHandle_self (Registry.mem_of_get? hget)
    simp [dropped, handle?, hid', hget']
  have hresult : s'.delivered tx = s.delivered tx ++ [scan.chunk] ∧
        (h.offered scan.limit now later result).1.dropped = h.dropped ∨
      s'.delivered tx = s.delivered tx ∧
        (h.offered scan.limit now later result).1.dropped = h.dropped + 1 := by
    rw [delivered, delivered, hchannel]
    cases result with
    | sent =>
        refine .inl ⟨?_, rfl⟩
        rw [(Channel.trySend_sent hsend).history, List.filterMap_append]
        rfl
    | full =>
        refine .inr ⟨?_, rfl⟩
        rw [Channel.trySend_full hsend]
    | disconnected =>
        have hgone := (Channel.trySend_disconnected hsend).2
        exact absurd (hgone.symm.trans hconnected) Bool.false_ne_true
  refine ⟨offered ++ [scan.chunk], ?_, ?_, ?_⟩
  · rw [hunoffered', List.append_nil, ← hunoffered, ← hchunks]
    exact List.append_nil _
  · rcases hresult with ⟨hdelivered', -⟩ | ⟨hdelivered', -⟩
    · rw [hdelivered']
      exact hsublist.append (List.Sublist.refl _)
    · rw [hdelivered']
      exact hsublist.trans (List.sublist_append_left _ _)
  · rw [hdropped', List.length_append, List.length_singleton, ← hlength, hdropped]
    rcases hresult with ⟨hdelivered', hcount⟩ | ⟨hdelivered', hcount⟩
    · rw [hdelivered', hcount, List.length_append, List.length_singleton]
      omega
    · rw [hdelivered', hcount]
      omega

theorem Counted.step (ha : s.Attended k tx) (hk : s.Known k tx service) (hn : s.Scanning)
    (hc : s.Counted tx service) (h : Act json s l s') (hturn : Turn json s k tx l s') :
    s'.Counted tx (s.attend json k service l) := by
  have hact := h
  cases h with
  | @offer id now later scan handle result c hscan hmem hget hsend =>
      have hentry := hk.entry id handle (Registry.mem_of_get? hget)
      by_cases hid : service.id = some id
      · obtain rfl := hentry.mpr hid
        have hheld : s.Held handle.tx := .inl ⟨_, Registry.mem_of_get? hget, rfl⟩
        exact hc.offer hn (ha.connected hheld) hid hscan hmem hget hsend rfl rfl rfl
          (Function.update_self ..)
      · have htx : tx ≠ handle.tx := fun h => hid (hentry.mp h.symm)
        refine hc.of_eq [] ?_ ?_ rfl ?_
        · simp [delivered, setChannel, htx]
        · refine dropped_congr rfl rfl fun id' hid' => .inl ?_
          have hne : id' ≠ id := by
            rintro rfl
            exact hid hid'
          exact Registry.get?_setHandle_of_ne (Registry.mem_of_get? hget) hne
        · rw [List.append_nil]
          cases hid' : service.id with
          | none => exact (unoffered_of_id_eq_none hid').trans (unoffered_of_id_eq_none hid').symm
          | some id' =>
              have hne : id' ≠ id := by
                rintro rfl
                exact hid hid'
              refine (unoffered_of_eq_some rfl hid').trans ?_
              simp only [unoffered_of_eq_some hscan hid', List.mem_erase_of_ne hne]
  | @startScan chunk limit hscan hlimit =>
      refine hc.of_eq (s.broadcast service (.startScan chunk)) (hturn.delivered (by simp))
        (hact.dropped hk (by simp) (by simp)) rfl ?_
      rw [unoffered_of_scan_eq_none hscan, List.nil_append]
      exact unoffered_startScan rfl
  | @endScan scan hscan hremaining =>
      refine hc.of_eq [] (hturn.delivered (by simp)) (hact.dropped hk (by simp) (by simp)) rfl ?_
      rw [unoffered_of_scan_eq_none rfl, List.append_nil]
      cases hid : service.id with
      | none => exact (unoffered_of_id_eq_none hid).symm
      | some id => rw [unoffered_of_eq_some hscan hid, hremaining, if_neg List.not_mem_nil]
  | @register j t hreader hscan =>
      refine hc.of_eq [] (hturn.delivered (by simp)) ?_ rfl ?_
      · by_cases hj : j = k
        · subst hj
          have hnone := hk.registering t hreader
          rw [dropped_of_id_eq_none hnone, hk.dropped hnone]
          simp [dropped, handle?, attend, setReader, setConn, Registry.get?_register_self]
        · exact hact.dropped hk (by simp) fun h => hj (Label.register.inj h)
      · rw [unoffered_of_scan_eq_none hscan]
        exact unoffered_of_scan_eq_none hscan
  | _ =>
      exact hc.of_eq [] (hturn.delivered (by simp)) (hact.dropped hk (by simp) (by simp)) rfl
        (List.append_nil _).symm

/-! ## Settings and codec headers -/

/-- The settings and codec headers that fell due are queued, or a greeting or a broadcast has
still to send them. -/
def Controlled (k : ConnId) (tx : ChannelId) (s : Net) (service : Service) : Prop :=
  ∀ msg : Outbound, msg.chunk? = none → msg.request? = none →
    (s.channels tx).history.count msg + (s.conns k).reader.due.count msg +
      (s.unsent tx).count msg = service.controls.count msg

theorem fallsDue_eq_nil (hl : l ≠ .currentSettings k) (hstore : ∀ volume, l ≠ .storeVolume volume) :
    s.fallsDue k service l = [] := by
  cases l with
  | currentSettings j => exact if_neg fun h => hl (congrArg Label.currentSettings h)
  | storeVolume volume => exact absurd rfl (hstore volume)
  | _ => rfl

theorem due_handled {c : Conn} (hreader : c.reader = .reading) (result : Outcome SessionOutput) :
    (c.handled result).reader.due = [] := by
  have hhandles := c.handles result
  generalize c.handled result = c' at hhandles
  cases hhandles with
  | goesOn => exact congrArg Reader.due hreader
  | unserved hmyTx => exact congrArg Reader.due hreader
  | _ => rfl

/-- What falls due in a greeting goes to the queue. -/
theorem Turn.controls (service : Service) (h : Turn json s k tx l s')
    (hl : ∀ st, l ≠ .sendSettings tx st) (hstore : ∀ volume, l ≠ .storeVolume volume)
    {msg : Outbound} (hchunk : msg.chunk? = none) (hrequest : msg.request? = none) :
    (s'.channels tx).history.count msg + (s'.conns k).reader.due.count msg =
      (s.channels tx).history.count msg + (s.conns k).reader.due.count msg +
        (s.fallsDue k service l).count msg := by
  cases h with
  | waits hconcerns hconn hchannel hwriter =>
      have hl : l ≠ .currentSettings k := by
        rintro rfl
        exact hconcerns (.inl rfl)
      rw [hconn, hchannel, fallsDue_eq_nil hl hstore]
      rfl
  | moves hmove hchannel hwriter =>
      rw [hchannel]
      generalize s'.conns k = c at hmove
      cases hmove with
      | @read bytes now result session hreader hevent =>
          have hdue := due_handled (c := { s.conns k with session }) hreader result
          rw [hdue, hreader]
          rfl
      | readFails hreader => rw [hreader]; rfl
      | cloneFails hreader => rw [hreader]; rfl
      | register hreader => rw [hreader]; rfl
      | currentSettings hreader =>
          rw [hreader, fallsDue, if_pos rfl]
          simp [Reader.due]
      | stops hreader => rw [hreader]; rfl
  | sends hsends hsent hwriter =>
      rw [hsent.history, List.count_append]
      generalize s'.conns k = c at hsends
      cases hsends with
      | settings hreader =>
          simp only [hreader, Reader.due, fallsDue, List.count_cons, List.count_nil]
          omega
      | codecHeader hreader =>
          simp only [hreader, Reader.due, fallsDue, List.count_cons, List.count_nil]
      | @reply _ refersTo clientSent received hreader =>
          have hne : msg ∉ [Outbound.timeReply refersTo clientSent received] := by
            rintro hmem
            obtain rfl := List.mem_singleton.mp hmem
            cases hrequest
          rw [hreader, List.count_eq_zero.mpr hne]
          rfl
  | carries hline hconn =>
      have hl' : l ≠ .currentSettings k := by
        rintro rfl
        cases hline.reader?_eq_none
      rw [hconn, fallsDue_eq_nil hl' hstore]
      rcases hline.history with h | ⟨st, hlabel, -⟩ | ⟨id, now, later, ec, -, h⟩
      · rw [h]
        rfl
      · exact absurd hlabel (hl st)
      · have hne : msg ∉ [Outbound.chunk ec] := by
          rintro hmem
          obtain rfl := List.mem_singleton.mp hmem
          cases hchunk
        rw [h, List.count_append, List.count_eq_zero.mpr hne]
        rfl

theorem unsent_congr (hpending : s'.pending = s.pending) : s'.unsent tx = s.unsent tx := by
  rw [unsent, unsent, hpending]

theorem count_unsent_erase {t : ChannelId} {st : ServerSettings} (hmem : (t, st) ∈ s.pending)
    (hpending : s'.pending = s.pending.erase (t, st)) (msg : Outbound) :
    (s.unsent tx).count msg =
      (s'.unsent tx).count msg + (if t = tx then [Outbound.settings st] else []).count msg := by
  have hperm := (List.perm_cons_erase hmem).filterMap fun send =>
    if send.1 = tx then some (Outbound.settings send.2) else none
  rw [unsent, hperm.count_eq, unsent, hpending]
  by_cases ht : t = tx
  · simp [ht, List.count_cons]
  · simp [ht]

theorem Act.pending_eq (h : Act json s l s') (hl : ∀ t st, l ≠ .sendSettings t st)
    (hstore : ∀ volume, l ≠ .storeVolume volume) : s'.pending = s.pending := by
  cases h with
  | storeVolume => exact absurd rfl (hstore _)
  | settingsSent hmem hsent => exact absurd rfl (hl _ _)
  | settingsDropped hmem hconnected => exact absurd rfl (hl _ _)
  | _ => rfl

/-- One of the sends of a broadcast is for the client of the connection, while it has one. -/
theorem Known.filterMap_clients (hk : s.Known k tx service) (msg : Outbound) :
    s.registry.clients.filterMap (fun p => if p.2.tx = tx then some msg else none) =
      if (s.handle? service).isSome then [msg] else [] := by
  have hnil {clients : List (ClientId × ClientHandle)} (h : ∀ p ∈ clients, p.2.tx ≠ tx) :
      clients.filterMap (fun p => if p.2.tx = tx then some msg else none) = [] :=
    List.filterMap_eq_nil_iff.mpr fun p hp => if_neg (h p hp)
  cases hhandle : s.handle? service with
  | none =>
      refine hnil fun ⟨id, h⟩ hmem htx => ?_
      have hid := (hk.entry id h hmem).mp htx
      rw [handle?, hid, Option.bind_some, Registry.get?_eq_some_iff.mpr hmem] at hhandle
      cases hhandle
  | some h =>
      obtain ⟨id, hid, hget⟩ := Option.bind_eq_some_iff.mp hhandle
      have hmem := Registry.mem_of_get? hget
      obtain ⟨front, back, hclients⟩ := List.append_of_mem hmem
      have hnodup := s.registry.nodup
      rw [hclients, List.map_append, List.map_cons, List.nodup_middle, List.nodup_cons] at hnodup
      have hother (p : ClientId × ClientHandle) (hp : p ∈ front ++ back) : p.2.tx ≠ tx := by
        intro htx
        have hp' : p ∈ s.registry.clients := by
          rw [hclients]
          rcases List.mem_append.mp hp with hp | hp
          · exact List.mem_append_left _ hp
          · exact List.mem_append_right _ (List.mem_cons_of_mem _ hp)
        have hid' := (hk.entry p.1 p.2 hp').mp htx
        obtain rfl := Option.some.inj (hid.symm.trans hid')
        refine hnodup.1 ?_
        rw [← List.map_append]
        exact List.mem_map.mpr ⟨p, hp, rfl⟩
      rw [hclients, List.filterMap_append, List.filterMap_cons,
        if_pos ((hk.entry id h hmem).mpr hid),
        hnil fun p hp => hother p (List.mem_append_left _ hp),
        hnil fun p hp => hother p (List.mem_append_right _ hp)]
      rfl

/-- A blocking send of settings moves them to the queue of an attended connection. -/
theorem Act.history_sendSettings {t : ChannelId} {st : ServerSettings}
    (h : Act json s (.sendSettings t st) s')
    (hconnected : s.Held tx → (s.channels tx).connected = true) :
    s'.conns = s.conns ∧
      (s'.channels tx).history =
        (s.channels tx).history ++ (if t = tx then [.settings st] else []) ∧
      ∀ msg, (s.unsent tx).count msg =
        (s'.unsent tx).count msg + (if t = tx then [Outbound.settings st] else []).count msg := by
  cases h with
  | settingsSent hmem hsent =>
      refine ⟨rfl, ?_, count_unsent_erase hmem rfl⟩
      by_cases ht : t = tx
      · subst ht
        simpa [setChannel] using hsent.history
      · simp [setChannel, ht, Ne.symm ht]
  | settingsDropped hmem hgone =>
      refine ⟨rfl, ?_, count_unsent_erase hmem rfl⟩
      have ht : t ≠ tx := by
        rintro rfl
        have hheld : s.Held t := .inr (.inl ⟨_, hmem, rfl⟩)
        exact Bool.false_ne_true (hgone.symm.trans (hconnected hheld))
      rw [if_neg ht, List.append_nil]

theorem Controlled.step (ha : s.Attended k tx) (hk : s.Known k tx service)
    (hc : s.Controlled k tx service) (h : Act json s l s') (hturn : Turn json s k tx l s') :
    s'.Controlled k tx (s.attend json k service l) := by
  intro msg hchunk hrequest
  have hbefore := hc msg hchunk hrequest
  change _ = (service.controls ++ s.fallsDue k service l).count msg
  rw [List.count_append, ← hbefore]
  cases l with
  | sendSettings t st =>
      obtain ⟨hconns, hhistory, hunsent⟩ := h.history_sendSettings ha.connected
      rw [hconns, hhistory, List.count_append, hunsent msg]
      simp only [fallsDue, List.count_nil]
      omega
  | storeVolume volume =>
      have hdue := hk.filterMap_clients
        (.settings (s.registry.storeVolume volume).2.currentSettings)
      cases h with
      | storeVolume =>
          rw [fallsDue, ← hdue, unsent, List.filterMap_append, List.count_append,
            Registry.storeVolume, List.filterMap_map]
          exact (Nat.add_assoc _ _ _).symm
  | _ =>
      have hcontrols := hturn.controls service (by simp) (by simp) hchunk hrequest
      rw [unsent_congr (h.pending_eq (by simp) (by simp)), hcontrols, Nat.add_right_comm]

/-! ## The record of a whole run -/

/-- An attended connection with its record. -/
structure InService (json : SerdeJson) (k : ConnId) (tx : ChannelId) (s : Net) (service : Service) :
    Prop where
  attended : s.Attended k tx
  known : s.Known k tx service
  answered : s.Answered k tx service
  written : s.Written json tx
  counted : s.Counted tx service
  controlled : s.Controlled k tx service

theorem InService.step (hjson : ∀ st, ∃ text, json.settingsToString st = .ok text) (hw : s.Wired)
    (hd : s.Handed) (hn : s.Scanning) (hs : s.InService json k tx service)
    (hhello : ∀ bytes now h, l = .read k bytes now → s.output json k bytes now ≠ .ok (.hello h))
    (hl : l ≠ .writeFails tx) (h : Act json s l s') :
    s'.InService json k tx (s.attend json k service l) :=
  have hturn := hs.attended.turn hjson hl h
  { attended := hs.attended.step hw hd hhello h hturn
    known := hs.known.step hs.attended h hturn
    answered := hturn.answered hs.attended hs.answered
    written := hturn.written hs.written
    counted := hs.counted.step hs.attended hs.known hn h hturn
    controlled := hs.controlled.step hs.attended hs.known h hturn }

/-- A session that was not greeted refuses requests. -/
theorem requestsOf_handleEvent {session session' : ServerSession} {event : Event} {now : TimeVal}
    {result : Outcome SessionOutput}
    (h : session.handleEvent json event now = (result, session'))
    (hgreeted : session.greeted = false) : requestsOf result = [] := by
  cases event with
  | headerReceived bytes =>
      rw [ServerSession.handleEvent] at h
      split at h <;> cases h <;> rfl
  | packetReceived bytes =>
      rw [ServerSession.handleEvent] at h
      split at h
      · cases h
        rfl
      · dsimp only at h
        split at h
        · cases h
          rfl
        · cases h
          rfl
        · rw [if_neg (by simp [hgreeted])] at h
          cases h
          rfl

/-- A connection without a channel leaves no record. -/
theorem Unattended.attend_empty (hu : s.Unattended k) (h : Act json s l s') (hl : l ≠ .spawn k) :
    s.attend json k .empty l = .empty := by
  have hregister : l ≠ .register k := by
    rintro rfl
    cases h with
    | register hreader hscan => exact hu.holds _ (.inl (by rw [hreader]; rfl))
  have hrequested : s.requested json k l = [] := by
    cases h with
    | @read j bytes now result session hreader hevent =>
        by_cases hj : j = k
        · subst hj
          rw [requested, if_pos rfl, output, hevent]
          exact requestsOf_handleEvent hevent (hu.reading hreader)
        · exact if_neg hj
    | _ => rfl
  have hdue : s.fallsDue k .empty l = [] := by
    cases h with
    | @currentSettings j id t hreader =>
        refine if_neg ?_
        rintro rfl
        exact hu.holds _ (.inl (by rw [hreader]; rfl))
    | _ => rfl
  have hbroadcast : s.broadcast .empty l = [] := by
    cases l <;> rfl
  have htx : (s.attend json k .empty l).tx = none := attend_tx hl
  have hid : (s.attend json k .empty l).id = none := attend_id hregister
  calc s.attend json k .empty l
      = ⟨(s.attend json k .empty l).tx, (s.attend json k .empty l).id, s.requested json k l,
          s.fallsDue k .empty l, s.broadcast .empty l, 0⟩ := rfl
    _ = .empty := by rw [htx, hid, hrequested, hdue, hbroadcast]; rfl

/-- The record of a channel that was just made. -/
theorem Unattended.served (hw : s.Wired) (hd : s.Handed) (hu : s.Unattended k)
    (h : Act json s (.spawn k) s') :
    s'.InService json k s.created (s.attend json k .empty (.spawn k)) := by
  have ha := hu.attended hw hd h
  have hunsent : s'.unsent s.created = [] := by
    rw [unsent_congr (h.pending_eq (by simp) (by simp))]
    exact List.filterMap_eq_nil_iff.mpr fun send hsend =>
      if_neg (Nat.ne_of_lt (hd.pending send hsend))
  cases h with
  | spawn hreader =>
      refine ⟨ha, ⟨fun _ _ => rfl, ?_, ?_, fun _ => rfl⟩, ?_, ?_,
        ⟨[], (unoffered_of_id_eq_none rfl).symm, ?_, ?_⟩, ?_⟩
      · intro id h hmem
        exact iff_of_false (Nat.ne_of_lt (hw.entry id h hmem)) (by simp [attend, Service.empty])
      · simp [attend, Service.empty]
      · simp [Answered, attend, Service.empty, requested, setWriter, setChannel, setReader, setConn,
          Channel.new, Channel.history, Reader.pending]
      · simp [Written, setWriter, setChannel, Channel.new, WriterState.inHand, Encodes]
      · simp [delivered, setWriter, setChannel, Channel.new, Channel.history]
      · simp [delivered, setWriter, setChannel, Channel.new, Channel.history, dropped, handle?,
          attend, Service.empty]
      · intro msg hchunk hrequest
        rw [hunsent]
        simp [attend, fallsDue, Service.empty, setWriter, setChannel, setReader, setConn,
          Channel.new, Channel.history, Reader.due]

variable {bufferMs : UInt32} {initialVolume : UInt8}
  {p : TransitionSystem.WithHistory Net Service}

/-- The record of a connection in every state of a run: empty before it has a channel, and true
to the channel afterwards. -/
structure Recorded (json : SerdeJson) (k : ConnId) (s : Net) (service : Service) : Prop where
  wired : s.Wired
  handed : s.Handed
  scanning : s.Scanning
  unattended : service.tx = none → s.Unattended k ∧ service = .empty
  served : ∀ tx, service.tx = some tx → s.InService json k tx service

theorem recorded_new (json : SerdeJson) (k : ConnId) (bufferMs : UInt32) (initialVolume : UInt8) :
    (new bufferMs initialVolume).Recorded json k .empty where
  wired := wired_new
  handed := by
    constructor
    · rintro j t (⟨⟨⟩⟩ | ⟨⟨⟩⟩)
    · rintro send ⟨⟩
  scanning := by
    rintro scan ⟨⟩
  unattended := by
    refine fun _ => ⟨⟨?_, ?_, ?_⟩, rfl⟩
    · rintro t (⟨⟨⟩⟩ | ⟨⟨⟩⟩)
    · rintro ⟨⟩
    · rintro ⟨⟩
  served := by
    rintro tx ⟨⟩

theorem not_hello_of_courteous (hok : courteous json k ⟨s, service⟩ l = true)
    (hgreeted : (s.conns k).session.greeted = true) (bytes : List UInt8) (now : ℤ)
    (h : ClientHello) (hl : l = .read k bytes now) :
    s.output json k bytes now ≠ .ok (.hello h) := by
  subst hl
  intro houtput
  simp [courteous, houtput, hgreeted] at hok

theorem Recorded.step (hjson : ∀ st, ∃ text, json.settingsToString st = .ok text)
    (hr : s.Recorded json k service) (hok : courteous json k ⟨s, service⟩ l = true)
    (h : s.step json l = some s') : s'.Recorded json k (s.attend json k service l) := by
  have hact := step_act h
  have hw := hact.effect.wired hr.wired
  have hd := hact.handed hr.wired hr.handed
  have hn := hact.scanning hr.scanning
  cases htx : service.tx with
  | none =>
      obtain ⟨hu, rfl⟩ := hr.unattended htx
      by_cases hl : l = .spawn k
      · subst hl
        have htx' : (s.attend json k .empty (.spawn k)).tx = some s.created := if_pos rfl
        refine ⟨hw, hd, hn, fun h => absurd (htx'.symm.trans h) (by simp), fun tx h => ?_⟩
        obtain rfl := Option.some.inj (htx'.symm.trans h)
        exact hu.served hr.wired hr.handed hact
      · rw [hu.attend_empty hact hl]
        exact ⟨hw, hd, hn, fun _ => ⟨hu.step hact hl, rfl⟩, by rintro tx ⟨⟩⟩
  | some tx =>
      have hs := hr.served tx htx
      have hspawn : l ≠ .spawn k := by
        rintro rfl
        cases hact with
        | spawn hreader => exact hs.attended.cloned hreader
      have hwrite : l ≠ .writeFails tx := by
        rintro rfl
        simp [courteous, htx] at hok
      have htx' : (s.attend json k service l).tx = some tx := (attend_tx hspawn).trans htx
      refine ⟨hw, hd, hn, fun h => absurd (htx'.symm.trans h) (by simp), fun tx' h => ?_⟩
      obtain rfl := Option.some.inj (htx'.symm.trans h)
      exact hs.step hjson hr.wired hr.handed hr.scanning
        (not_hello_of_courteous hok hs.attended.greeted) hwrite hact

theorem reach_recorded (hjson : ∀ st, ∃ text, json.settingsToString st = .ok text)
    (h : (attendedSystem json k bufferMs initialVolume).Reach
      (fun p l => courteous json k p l = true) p) : p.state.Recorded json k p.history := by
  refine h.invariant (I := fun p => p.state.Recorded json k p.history) ?_ ?_
  · rintro ⟨s, service⟩ ⟨hs, hservice⟩
    obtain rfl : s = new bufferMs initialVolume := hs
    obtain rfl : service = .empty := hservice
    exact recorded_new json k bufferMs initialVolume
  · rintro ⟨s, service⟩ l ⟨s', service'⟩ hr hok ⟨hstep, hservice⟩
    obtain rfl : service' = s.attend json k service l := hservice
    exact hr.step hjson hok hstep

/-- The frames on the wire: frame `i` is that of message `i` taken from the queue, under the id
`i` modulo 2 ^ 16. At most the message in hand is taken and not written. -/
def Framed (s : Net) (tx : ChannelId) : Prop :=
  ∃ msgs, (s.channels tx).taken = msgs ++ (s.writers tx).state.inHand ∧
    msgs.length = (s.writers tx).written.length ∧
    ∀ i buf, (s.writers tx).written[i]? = some buf →
      ∃ (msg : Outbound) (base : Base) (payload : List UInt8), msgs[i]? = some msg ∧
        buf = base.header ++ payload ∧ msg.Framed (UInt16.ofNat i) base payload

theorem Written.framed (hjson : ∀ st, ∃ text, json.settingsToString st = .ok text)
    (h : s.Written json tx) : s.Framed tx := by
  obtain ⟨-, msgs, htaken, hlength, hencodes⟩ := h
  refine ⟨msgs, htaken, hlength, fun i buf hi => ?_⟩
  obtain ⟨msg, now, hmsg, hbuf⟩ := hencodes i buf hi
  obtain ⟨base, payload, hasBuf, hframed⟩ := msg.exists_asBuf hjson (UInt16.ofNat i) now
  exact ⟨msg, base, payload, hmsg, Except.ok.inj (hbuf.symm.trans hasBuf), hframed⟩

/-- In a run in which a connection sends one greeting and its writer meets no write error, its
requests are answered once and in their order, its settings and codec header arrive, chunks
are only dropped when counted, and its frames are numbered in the order of the queue. Until it
has a channel its session outputs no request. -/
theorem served_in_order (hjson : ∀ st, ∃ text, json.settingsToString st = .ok text)
    (h : (attendedSystem json k bufferMs initialVolume).Reach
      (fun p l => courteous json k p l = true) p) :
    (p.history.tx = none → p.history.requests = []) ∧
      ∀ tx, p.history.tx = some tx →
        p.state.Answered k tx p.history ∧ p.state.Controlled k tx p.history ∧
          p.state.Counted tx p.history ∧ p.state.Framed tx := by
  have hr := reach_recorded hjson h
  constructor
  · intro htx
    rw [(hr.unattended htx).2]
    rfl
  · intro tx htx
    have hs := hr.served tx htx
    exact ⟨hs.answered, hs.controlled, hs.counted, hs.written.framed hjson⟩

/-- The queue of a greeted connection fills up and a broadcast drops its chunk; a request waits
for room, and the writer writes the settings and the codec header. -/
theorem served_in_order_full :
    ∃ p : TransitionSystem.WithHistory Net Service,
      p.history.requests = [⟨7, ⟨5, 6⟩, ⟨1, 0⟩⟩] ∧ p.state.dropped p.history = 1 ∧
        (p.state.writers 0).written.length = 2 ∧ p.state.Answered 0 0 p.history ∧
          p.state.Controlled 0 0 p.history ∧ p.state.Counted 0 p.history ∧ p.state.Framed 0 := by
  let request := Time.frame 7 0 ⟨5, 6⟩ .zero .zero
  let broadcast : List Label := [.startScan ⟨.zero, []⟩, .offer 0 0 0, .endScan]
  let labels : List Label := .accept :: helloLabels 0 .sample ++ greetLabels 0 ++
    (List.replicate 15 broadcast).flatten ++
      [.read 0 request.header 0, .read 0 request.payload 1000000, .recv 0, .send 0, .write 0 0,
        .recv 0, .write 0 0]
  have hrun : (TransitionSystem.run (TransitionSystem.stepWithHistory (step .compact)
      (attend .compact 0)) (courteous .compact 0) labels ⟨new 1000 50, .empty⟩).any (fun p =>
        p.history.tx = some 0 ∧ p.history.requests = [⟨7, ⟨5, 6⟩, ⟨1, 0⟩⟩] ∧
          p.state.dropped p.history = 1 ∧ (p.state.writers 0).written.length = 2) = true := by
    decide +kernel
  obtain ⟨p, hp, hP⟩ := (Option.any_eq_true _ _).mp hrun
  obtain ⟨htx, hrequests, hdropped, hwritten⟩ := of_decide_eq_true hP
  have hreach := TransitionSystem.reach_of_run (.init rfl) hp
  rw [← TransitionSystem.withHistory_ofStep] at hreach
  have hserved := served_in_order (fun st => ⟨_, SerdeJson.compact_settingsLaws.print st⟩) hreach
  exact ⟨p, hrequests, hdropped, hwritten, hserved.2 0 htx⟩

end Net

end SnapcastClient
