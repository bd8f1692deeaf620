import SnapcastClient.Verification.Net

/-! # The server as one connection sees it

A connection that has sent one greeting has one channel, whose other senders are the registry
and the broadcasts. A step of the server is its own, or moves its channel, or is none of its
business. -/

namespace SnapcastClient

/-- The connection whose reader takes the step. -/
def Net.Label.reader? : Net.Label → Option ConnId
  | .read k _ _ => some k
  | .readFails k => some k
  | .spawn k => some k
  | .cloneFails k => some k
  | .register k => some k
  | .currentSettings k => some k
  | .send k => some k
  | .leave k => some k
  | _ => none

/-- The reader serves its client: it reads from it, or answers it. -/
def Reader.Serves : Reader → Prop
  | reading => True
  | replying _ _ _ _ => True
  | _ => False

namespace Outbound

/-- What the frame of a message shows: the id it was written under, of a reply the request it
answers, and of a chunk the chunk. -/
structure Framed (msg : Outbound) (id : UInt16) (base : Base) (payload : List UInt8) : Prop where
  id : base.id = id
  reply : ∀ refersTo clientSent received, msg = .timeReply refersTo clientSent received →
    base.mtype = .time ∧ base.refersTo = refersTo ∧ base.receivedTv = received ∧
      payload = clientSent.asBuf
  chunk : ∀ ec, msg = .chunk ec →
    base.mtype = .wireChunk ∧ payload = WireChunk.encode ⟨ec.timestamp, ec.data⟩

/-- A message is encoded as a frame, unless its settings cannot be printed. -/
theorem exists_asBuf {json : SerdeJson} (hjson : ∀ st, ∃ text, json.settingsToString st = .ok text)
    (msg : Outbound) (id : UInt16) (now : TimeVal) :
    ∃ base payload, msg.asBuf json id now = .ok (base.header ++ payload) ∧
      msg.Framed id base payload := by
  cases msg with
  | chunk ec =>
      refine ⟨_, _, Base.asBuf_eq _ _, rfl, by simp, ?_⟩
      rintro ec' ⟨⟩
      exact ⟨rfl, rfl⟩
  | settings st =>
      obtain ⟨text, htext⟩ := hjson st
      let payload := ServerSettings.encode text
      let base : Base :=
        { mtype := .serverSettings, id, refersTo := 0, sentTv := now, receivedTv := now,
          size := UInt32.ofNat payload.length }
      refine ⟨base, payload, ?_, rfl, by simp, by simp⟩
      simp only [asBuf, ServerSettings.asBuf, htext, unwrapJson, ok_bind, Base.asBuf_eq]
      rfl
  | codecHeader =>
      let payload := CodecHeader.encode "opus"
        (OpusMetadata.asPayload { sampleRate := 48000, bitDepth := 16, channelCount := 2 })
      let base : Base :=
        { mtype := .codecHeader, id, refersTo := 0, sentTv := now, receivedTv := now,
          size := UInt32.ofNat payload.length }
      refine ⟨base, payload, ?_, rfl, by simp, by simp⟩
      simp only [asBuf, opusCodecHeader, CodecHeader.asBuf, CodecMetadata.asPayload, ok_bind,
        Base.asBuf_eq]
      rfl
  | timeReply refersTo clientSent received =>
      refine ⟨_, _, Time.asBuf_eq .., rfl, ?_, by simp⟩
      rintro refersTo' clientSent' received' ⟨⟩
      exact ⟨rfl, rfl, rfl, rfl⟩

end Outbound

namespace Net

variable {json : SerdeJson} {s s' : Net} {l : Label} {j k : ConnId} {t tx : ChannelId}

/-! ## Who holds a sender -/

theorem Sends.holds {msg : Outbound} {next : Conn} (h : s.Sends k tx msg next) :
    (s.conns k).Holds tx := by
  refine .inl ?_
  cases h with
  | settings hreader => rw [hreader]; rfl
  | codecHeader hreader => rw [hreader]; rfl
  | reply hreader => rw [hreader]; rfl

theorem Sends.holds_next {msg : Outbound} {next : Conn} (h : s.Sends k tx msg next)
    (hnext : next.Holds t) : (s.conns k).Holds t := by
  cases h with
  | settings hreader => exact hnext.imp_left fun h => by rw [hreader]; exact h
  | codecHeader hreader =>
      rcases hnext with h | h
      · cases h
      · exact .inl (by rw [hreader]; exact h)
  | reply hreader =>
      rcases hnext with h | h
      · cases h
      · exact .inr h

theorem holds_handled {c : Conn} {session : ServerSession} {result : Outcome SessionOutput}
    (h : ({ c with session }.handled result).Holds t) : c.Holds t := by
  have hhandles := Conn.handles { c with session } result
  generalize Conn.handled { c with session } result = c' at hhandles h
  cases hhandles with
  | fails => exact .inr (h.resolve_left (by rintro ⟨⟩))
  | panics => exact absurd h (by rintro (⟨⟨⟩⟩ | ⟨⟨⟩⟩))
  | goesOn => exact h
  | unserved hmyTx => exact h
  | hello => exact .inr (h.resolve_left (by rintro ⟨⟩))
  | replies hmyTx => exact .inr (h.elim (fun h => hmyTx.trans h) fun h => h)

theorem holds_update {i : ConnId} {c : Conn} (hc : c.Holds t → (s.conns i).Holds t)
    (h : (Function.update s.conns i c j).Holds t) : (s.conns j).Holds t := by
  by_cases hj : j = i
  · subst hj
    rw [Function.update_self] at h
    exact hc h
  · rwa [Function.update_of_ne hj] at h

/-- A reader that goes on with the same channel holds the same senders. -/
theorem holds_of_tx? {c : Conn} {reader : Reader} (hreader : reader.tx? = c.reader.tx?)
    (h : Conn.Holds { c with reader } t) : c.Holds t :=
  h.imp_left hreader.symm.trans

theorem holds_leaving {c : Conn} (h : { c with reader := .leaving }.Holds t) : c.Holds t :=
  .inr (h.resolve_left (by rintro ⟨⟩))

theorem not_holds_stopped {c : Conn} :
    ¬ Conn.Holds { c with reader := .stopped, myTx := none } t := by
  rintro (⟨⟨⟩⟩ | ⟨⟨⟩⟩)

/-- A reader holds the senders it held before, or that of the channel it has just created. -/
theorem Act.holds (h : Act json s l s') (hholds : (s'.conns j).Holds t) :
    (s.conns j).Holds t ∨ t = s.created ∧ l = .spawn j := by
  cases h with
  | accept =>
      refine .inl (holds_update ?_ hholds)
      rintro (⟨⟨⟩⟩ | ⟨⟨⟩⟩)
  | read hreader hevent => exact .inl (holds_update holds_handled hholds)
  | readFails hreader => exact .inl (holds_update holds_leaving hholds)
  | @spawn i hreader =>
      by_cases hj : j = i
      · subst hj
        change (Function.update s.conns j _ j).Holds t at hholds
        rw [Function.update_self] at hholds
        rcases hholds with h | h
        · exact .inr ⟨(Option.some.inj h).symm, rfl⟩
        · exact .inl (.inr h)
      · change (Function.update s.conns i _ j).Holds t at hholds
        rw [Function.update_of_ne hj] at hholds
        exact .inl hholds
  | cloneFails hreader => exact .inl (holds_update holds_leaving hholds)
  | register hreader hscan =>
      exact .inl (holds_update (holds_of_tx? (by rw [hreader]; rfl)) hholds)
  | currentSettings hreader =>
      exact .inl (holds_update (holds_of_tx? (by rw [hreader]; rfl)) hholds)
  | sent hsends hsent => exact .inl (holds_update hsends.holds_next hholds)
  | sendFails hsends hconnected => exact .inl (holds_update holds_leaving hholds)
  | unregister hreader hmyId hscan =>
      exact .inl (holds_update (fun h => absurd h not_holds_stopped) hholds)
  | leave hreader hmyId =>
      exact .inl (holds_update (fun h => absurd h not_holds_stopped) hholds)
  | _ => exact .inl hholds

theorem Act.mem_pending (h : Act json s l s') {send : ChannelId × ServerSettings}
    (hmem : send ∈ s'.pending) :
    send ∈ s.pending ∨ ∃ p ∈ s.registry.clients, p.2.tx = send.1 := by
  cases h with
  | storeVolume =>
      rcases List.mem_append.mp hmem with hmem | hmem
      · exact .inl hmem
      · obtain ⟨p, hp, rfl⟩ := List.mem_map.mp hmem
        exact .inr ⟨p, hp, rfl⟩
  | settingsSent hmem' hsent => exact .inl (List.mem_of_mem_erase hmem)
  | settingsDropped hmem' hconnected => exact .inl (List.mem_of_mem_erase hmem)
  | _ => exact .inl hmem

/-- The readers that hold senders were accepted, and every sender's channel was created. -/
structure Handed (s : Net) : Prop where
  conn : ∀ j t, (s.conns j).Holds t → j < s.accepted ∧ t < s.created
  pending : ∀ send ∈ s.pending, send.1 < s.created

theorem Naming.le (h : Naming s l s') : s.accepted ≤ s'.accepted ∧ s.created ≤ s'.created := by
  cases h with
  | accept => exact ⟨Nat.le_succ _, le_rfl⟩
  | spawn hreader => exact ⟨le_rfl, Nat.le_succ _⟩
  | register hreader => exact ⟨le_rfl, le_rfl⟩
  | keeps hregistry haccepted hcreated hreader => exact ⟨haccepted.ge, hcreated.ge⟩

theorem Act.handed (hw : s.Wired) (hd : s.Handed) (h : Act json s l s') : s'.Handed := by
  obtain ⟨haccepted, hcreated⟩ := h.effect.naming.le
  constructor
  · intro j t hholds
    rcases h.holds hholds with hholds | ⟨rfl, rfl⟩
    · obtain ⟨hj, ht⟩ := hd.conn j t hholds
      exact ⟨hj.trans_le haccepted, ht.trans_le hcreated⟩
    · cases h with
      | spawn hreader =>
          exact ⟨hw.lt_accepted (by simp [hreader]), Nat.lt_succ_self _⟩
  · intro send hmem
    rcases h.mem_pending hmem with hmem | ⟨p, hp, htx⟩
    · exact (hd.pending send hmem).trans_le hcreated
    · rw [← htx]
      exact (hw.entry p.1 p.2 hp).trans_le hcreated

/-- Senders are passed on, but for those of a new channel. -/
theorem Act.held (hw : s.Wired) (hd : s.Handed) (h : Act json s l s') (ht : t < s.created)
    (hheld : s'.Held t) : s.Held t := by
  rcases hheld with ⟨⟨id, handle⟩, hmem, rfl⟩ | ⟨send, hmem, rfl⟩ | ⟨j, -, hholds⟩
  · cases h.effect.naming with
    | accept => exact .inl ⟨_, hmem, rfl⟩
    | spawn hreader => exact .inl ⟨_, hmem, rfl⟩
    | @register j tx hreader =>
        rcases Registry.mem_register.mp hmem with hmem | ⟨rfl, rfl⟩
        · exact .inl ⟨_, hmem, rfl⟩
        · exact .inr (.inr ⟨j, hw.lt_accepted (by simp [hreader]), .inl (by rw [hreader]; rfl)⟩)
    | keeps hregistry haccepted hcreated hreader =>
        obtain ⟨h₀, hmem₀, htx, -⟩ := hregistry.entry id handle hmem
        exact .inl ⟨_, hmem₀, htx.symm⟩
  · rcases h.mem_pending hmem with hmem | hp
    · exact .inr (.inl ⟨send, hmem, rfl⟩)
    · exact .inl hp
  · rcases h.holds hholds with hholds | ⟨rfl, -⟩
    · exact .inr (.inr ⟨j, (hd.conn j t hholds).1, hholds⟩)
    · exact absurd ht (Nat.lt_irrefl _)

/-! ## A connection and its channel -/

/-- The output of the session for what the socket delivers. -/
def output (json : SerdeJson) (s : Net) (k : ConnId) (bytes : List UInt8) (now : ℤ) :
    Outcome SessionOutput :=
  ((s.conns k).session.handleEvent json ((s.conns k).session.nextAction.event bytes)
    (.fromMicros now)).1

/-- The connection's channel is its own, and the channel's receiver stays as long as somebody
holds a sender. -/
structure Attended (k : ConnId) (tx : ChannelId) (s : Net) : Prop where
  accepted : k < s.accepted
  created : tx < s.created
  greeted : (s.conns k).session.greeted = true
  cloned : (s.conns k).reader ≠ .cloning
  own : ∀ t, (s.conns k).Holds t → t = tx
  sole : ∀ j, (s.conns j).Holds tx → j = k
  serves : (s.conns k).reader.Serves → (s.conns k).myTx = some tx
  connected : s.Held tx → (s.channels tx).connected = true

/-- The reader's own steps, between two sends. -/
inductive Move (json : SerdeJson) (s : Net) (k : ConnId) (tx : ChannelId) : Label → Conn → Prop
    where
  | read {bytes : List UInt8} {now : ℤ} {result : Outcome SessionOutput}
      {session : ServerSession} :
      (s.conns k).reader = .reading →
      (s.conns k).session.handleEvent json ((s.conns k).session.nextAction.event bytes)
        (.fromMicros now) = (result, session) →
      Move json s k tx (.read k bytes now) ({ s.conns k with session }.handled result)
  | readFails :
      (s.conns k).reader = .reading →
      Move json s k tx (.readFails k) { s.conns k with reader := .leaving }
  | cloneFails :
      (s.conns k).reader = .registering tx →
      Move json s k tx (.cloneFails k) { s.conns k with reader := .leaving }
  | register :
      (s.conns k).reader = .registering tx →
      Move json s k tx (.register k)
        { s.conns k with reader := .greeting s.registry.nextId tx .currentSettings }
  | currentSettings {id : ClientId} :
      (s.conns k).reader = .greeting id tx .currentSettings →
      Move json s k tx (.currentSettings k)
        { s.conns k with reader := .greeting id tx (.sendSettings s.registry.currentSettings) }
  | stops :
      (s.conns k).reader = .leaving →
      Move json s k tx (.leave k) { s.conns k with reader := .stopped, myTx := none }

/-- What the broadcasts and the writer do to a channel. -/
inductive Line (json : SerdeJson) (s : Net) (tx : ChannelId) :
    Label → Channel channelSlots Outbound → Writer → Prop where
  | settings {st : ServerSettings} {c : Channel channelSlots Outbound} :
      (s.channels tx).Sent (.settings st) c →
      Line json s tx (.sendSettings tx st) c (s.writers tx)
  | offered {id : ClientId} {now later : ℤ} {scan : Scan} {h : ClientHandle}
      {result : SendResult} {c : Channel channelSlots Outbound} :
      s.scan = some scan → s.registry.get? id = some h → h.tx = tx →
      (s.channels tx).trySend (.chunk scan.chunk) = (result, c) →
      Line json s tx (.offer id now later) c (s.writers tx)
  | recv {msg : Outbound} {c : Channel channelSlots Outbound} :
      (s.writers tx).state = .receiving → (s.channels tx).recv = some (msg, c) →
      Line json s tx (.recv tx) c { s.writers tx with state := .writing msg }
  | wrote {now : ℤ} {msg : Outbound} {buf : List UInt8} :
      (s.writers tx).state = .writing msg →
      msg.asBuf json (s.writers tx).id (.fromMicros now) = .ok buf →
      Line json s tx (.write tx now) (s.channels tx)
        ⟨.receiving, (s.writers tx).id + 1, (s.writers tx).written ++ [buf]⟩
  | hangup :
      (s.writers tx).state = .receiving → (s.channels tx).queue = [] → ¬ s.Held tx →
      Line json s tx (.hangup tx) (s.channels tx).close { s.writers tx with state := .stopped }

/-- A step of the connection's reader, or a chunk for its channel. -/
def Concerns (s : Net) (k : ConnId) (tx : ChannelId) (l : Label) : Prop :=
  l.reader? = some k ∨
    ∃ id now later h, l = .offer id now later ∧ s.registry.get? id = some h ∧ h.tx = tx

theorem Line.reader?_eq_none {c : Channel channelSlots Outbound} {w : Writer}
    (h : Line json s tx l c w) : l.reader? = none := by
  cases h <;> rfl

/-- The broadcasts put settings and chunks in the queue, and the writer loses nothing. -/
theorem Line.history {c : Channel channelSlots Outbound} {w : Writer}
    (h : Line json s tx l c w) :
    c.history = (s.channels tx).history ∨
      (∃ st, l = .sendSettings tx st ∧
        c.history = (s.channels tx).history ++ [.settings st]) ∨
      ∃ id now later ec, l = .offer id now later ∧
        c.history = (s.channels tx).history ++ [.chunk ec] := by
  cases h with
  | settings hsent => exact .inr (.inl ⟨_, rfl, hsent.history⟩)
  | @offered id now later scan h result c hscan hget htx hsend =>
      cases result with
      | sent => exact .inr (.inr ⟨id, now, later, _, rfl, (Channel.trySend_sent hsend).history⟩)
      | full => exact .inl (congrArg Channel.history (Channel.trySend_full hsend))
      | disconnected => exact .inl (congrArg Channel.history (Channel.trySend_disconnected hsend).1)
  | recv hstate hrecv => exact .inl (Channel.recv_spec hrecv).1
  | wrote hstate hbuf => exact .inl rfl
  | hangup hstate hqueue hheld =>
      rw [Channel.history_close, Channel.history_of_queue_eq_nil hqueue]
      exact .inl rfl

/-- The steps as an attended connection sees them. -/
inductive Turn (json : SerdeJson) (s : Net) (k : ConnId) (tx : ChannelId) : Label → Net → Prop
    where
  | waits {l : Label} {s' : Net} :
      ¬ s.Concerns k tx l → s'.conns k = s.conns k → s'.channels tx = s.channels tx →
      s'.writers tx = s.writers tx → Turn json s k tx l s'
  | moves {l : Label} {s' : Net} :
      Move json s k tx l (s'.conns k) → s'.channels tx = s.channels tx →
      s'.writers tx = s.writers tx → Turn json s k tx l s'
  | sends {msg : Outbound} {s' : Net} :
      s.Sends k tx msg (s'.conns k) → (s.channels tx).Sent msg (s'.channels tx) →
      s'.writers tx = s.writers tx → Turn json s k tx (.send k) s'
  | carries {l : Label} {s' : Net} :
      Line json s tx l (s'.channels tx) (s'.writers tx) → s'.conns k = s.conns k →
      Turn json s k tx l s'

theorem not_concerns (hreader : l.reader? ≠ some k)
    (hoffer : ∀ id now later, l ≠ .offer id now later) : ¬ s.Concerns k tx l := by
  rintro (h | ⟨id, now, later, handle, h, -⟩)
  · exact hreader h
  · exact hoffer id now later h

/-- A step of a reader changes its own connection. -/
theorem turn_of_reader {i : ConnId} {c : Conn} (hl : l.reader? = some i)
    (hconns : s'.conns = Function.update s.conns i c)
    (hchannel : s'.channels tx = s.channels tx) (hwriter : s'.writers tx = s.writers tx)
    (hmove : i = k → Move json s k tx l c) : Turn json s k tx l s' := by
  by_cases hi : i = k
  · subst hi
    refine .moves ?_ hchannel hwriter
    rw [hconns, Function.update_self]
    exact hmove rfl
  · have hreader : l.reader? ≠ some k := by
      rw [hl]
      exact fun h => hi (Option.some.inj h)
    refine .waits (not_concerns hreader ?_) ?_ hchannel hwriter
    · rintro id now later rfl
      cases hl
    · rw [hconns, Function.update_of_ne (Ne.symm hi)]

/-- A step of a writer or of a blocking broadcast changes one channel. -/
theorem turn_of_line (t : ChannelId) (hl : l.reader? = none)
    (hoffer : ∀ id now later, l ≠ .offer id now later) (hconn : s'.conns k = s.conns k)
    (hother : t ≠ tx → s'.channels tx = s.channels tx ∧ s'.writers tx = s.writers tx)
    (hline : t = tx → Line json s tx l (s'.channels tx) (s'.writers tx)) :
    Turn json s k tx l s' := by
  by_cases ht : t = tx
  · exact .carries (hline ht) hconn
  · obtain ⟨hchannel, hwriter⟩ := hother ht
    exact .waits (not_concerns (by rw [hl]; rintro ⟨⟩) hoffer) hconn hchannel hwriter

theorem Attended.turn (hjson : ∀ st, ∃ text, json.settingsToString st = .ok text)
    (ha : s.Attended k tx) (hl : l ≠ .writeFails tx) (h : Act json s l s') :
    Turn json s k tx l s' := by
  have hchannel {t : ChannelId} (c : Channel channelSlots Outbound) (ht : t ≠ tx) :
      Function.update s.channels t c tx = s.channels tx :=
    Function.update_of_ne ht.symm _ _
  have hwriter {t : ChannelId} (w : Writer) (ht : t ≠ tx) :
      Function.update s.writers t w tx = s.writers tx :=
    Function.update_of_ne ht.symm _ _
  cases h with
  | accept =>
      exact .waits (not_concerns (by rintro ⟨⟩) (by simp))
        (Function.update_of_ne ha.accepted.ne _ _) rfl rfl
  | read hreader hevent =>
      exact turn_of_reader rfl rfl rfl rfl (by rintro rfl; exact .read hreader hevent)
  | readFails hreader =>
      exact turn_of_reader rfl rfl rfl rfl (by rintro rfl; exact .readFails hreader)
  | spawn hreader =>
      have ht : s.created ≠ tx := ha.created.ne'
      refine turn_of_reader rfl rfl (hchannel _ ht) (hwriter _ ht) ?_
      rintro rfl
      exact absurd hreader ha.cloned
  | @cloneFails i hreader =>
      refine turn_of_reader rfl rfl rfl rfl ?_
      rintro rfl
      refine .cloneFails ?_
      cases hcloning : (s.conns i).reader with
      | cloning => exact absurd hcloning ha.cloned
      | registering t => rw [ha.own t (.inl (by rw [hcloning]; rfl))]
      | _ => rw [hcloning] at hreader; exact hreader.elim
  | @register i t hreader hscan =>
      refine turn_of_reader rfl rfl rfl rfl ?_
      rintro rfl
      obtain rfl := ha.own t (.inl (by rw [hreader]; rfl))
      exact .register hreader
  | @currentSettings i id t hreader =>
      refine turn_of_reader rfl rfl rfl rfl ?_
      rintro rfl
      obtain rfl := ha.own t (.inl (by rw [hreader]; rfl))
      exact .currentSettings hreader
  | @sent i t msg next c hsends hsent =>
      by_cases hi : i = k
      · subst hi
        obtain rfl := ha.own t hsends.holds
        have hnext : s.Sends i t msg (((s.setChannel t c).setConn i next).conns i) := by
          simpa [setConn] using hsends
        exact .sends hnext (by simpa [setChannel, setConn] using hsent) rfl
      · have ht : t ≠ tx := by
          rintro rfl
          exact hi (ha.sole i hsends.holds)
        exact .waits (not_concerns (fun h => hi (Option.some.inj h)) (by simp))
          (Function.update_of_ne (Ne.symm hi) _ _) (hchannel _ ht) rfl
  | @sendFails i t msg next hsends hconnected =>
      refine turn_of_reader rfl rfl rfl rfl ?_
      rintro rfl
      obtain rfl := ha.own t hsends.holds
      have hheld : s.Held t := .inr (.inr ⟨i, ha.accepted, hsends.holds⟩)
      exact absurd (hconnected.symm.trans (ha.connected hheld)) Bool.false_ne_true
  | unregister hreader hmyId hscan =>
      exact turn_of_reader rfl rfl rfl rfl (by rintro rfl; exact .stops hreader)
  | leave hreader hmyId =>
      exact turn_of_reader rfl rfl rfl rfl (by rintro rfl; exact .stops hreader)
  | @recv t msg c hstate hrecv =>
      refine turn_of_line t rfl (by simp) rfl (fun ht => ⟨hchannel _ ht, hwriter _ ht⟩) ?_
      rintro rfl
      simp only [setWriter, setChannel, Function.update_self]
      exact .recv hstate hrecv
  | @wrote t now msg buf hstate hbuf =>
      refine turn_of_line t rfl (by simp) rfl (fun ht => ⟨rfl, hwriter _ ht⟩) ?_
      rintro rfl
      simp only [setWriter, Function.update_self]
      exact .wrote hstate hbuf
  | @writePanics t now msg fault hbuf =>
      obtain ⟨base, payload, hasBuf, -⟩ := msg.exists_asBuf hjson (s.writers t).id (.fromMicros now)
      rw [hasBuf] at hbuf
      cases hbuf
  | @writeFails t =>
      refine turn_of_line t rfl (by simp) rfl (fun ht => ⟨hchannel _ ht, hwriter _ ht⟩) ?_
      rintro rfl
      exact absurd rfl hl
  | @hangup t hstate hqueue hheld =>
      refine turn_of_line t rfl (by simp) rfl (fun ht => ⟨hchannel _ ht, hwriter _ ht⟩) ?_
      rintro rfl
      simp only [stopWriter, setWriter, setChannel, Function.update_self]
      exact .hangup hstate hqueue hheld
  | @settingsSent t st c hmem hsent =>
      refine turn_of_line t rfl (by simp) rfl (fun ht => ⟨hchannel _ ht, rfl⟩) ?_
      rintro rfl
      simp only [setChannel, Function.update_self]
      exact .settings hsent
  | @offer id now later scan h result c hscan hmem hget hsend =>
      by_cases ht : h.tx = tx
      · subst ht
        refine .carries ?_ rfl
        simp only [setChannel, Function.update_self]
        exact .offered hscan hget rfl hsend
      · refine .waits ?_ rfl (hchannel _ ht) rfl
        rintro (⟨⟨⟩⟩ | ⟨id', now', later', h', hlabel, hget', rfl⟩)
        obtain ⟨rfl, -, -⟩ := Label.offer.inj hlabel
        exact ht (congrArg ClientHandle.tx (Option.some.inj (hget.symm.trans hget')))
  | _ => exact .waits (not_concerns (by rintro ⟨⟩) (by simp)) rfl rfl rfl

/-! ## A connection stays attended -/

/-- A session is greeted by a greeting, and stays so. -/
theorem greeted_handleEvent {session session' : ServerSession} {event : Event} {now : TimeVal}
    {result : Outcome SessionOutput}
    (h : session.handleEvent json event now = (result, session')) :
    (∃ hello, result = .ok (.hello hello)) ∧ session'.greeted = true ∨
      (∀ hello, result ≠ .ok (.hello hello)) ∧ session'.greeted = session.greeted := by
  cases event with
  | headerReceived bytes =>
      rw [ServerSession.handleEvent] at h
      split at h <;> cases h <;> exact .inr ⟨by simp, rfl⟩
  | packetReceived bytes =>
      rw [ServerSession.handleEvent] at h
      split at h
      · cases h
        exact .inr ⟨by simp, rfl⟩
      · dsimp only at h
        split at h
        · cases h
          exact .inr ⟨by simp, rfl⟩
        · cases h
          exact .inl ⟨⟨_, rfl⟩, rfl⟩
        · split at h <;> cases h <;> exact .inr ⟨by simp [bail], rfl⟩

/-- What the outcome of a packet makes of a serving reader. -/
theorem handled_cases {c : Conn} (hreader : c.reader = .reading)
    (result : Outcome SessionOutput) :
    (c.handled result).session = c.session ∧
      ((c.handled result).reader = .cloning → ∃ h, result = .ok (.hello h)) ∧
      ((c.handled result).reader.Serves → (c.handled result).myTx = c.myTx) := by
  have hhandles := c.handles result
  generalize c.handled result = c' at hhandles
  cases hhandles with
  | fails => exact ⟨rfl, by rintro ⟨⟩, fun _ => rfl⟩
  | panics => exact ⟨rfl, by rintro ⟨⟩, False.elim⟩
  | goesOn => exact ⟨rfl, fun h => absurd (hreader.symm.trans h) (by simp), fun _ => rfl⟩
  | unserved hmyTx =>
      exact ⟨rfl, fun h => absurd (hreader.symm.trans h) (by simp), fun _ => rfl⟩
  | @hello hello => exact ⟨rfl, fun _ => ⟨hello, rfl⟩, fun _ => rfl⟩
  | replies hmyTx => exact ⟨rfl, by rintro ⟨⟩, fun _ => rfl⟩

/-- The reader of an attended connection does not clone its socket again, and serves on its
channel. -/
theorem Turn.conn (ha : s.Attended k tx)
    (hhello : ∀ bytes now h, l = .read k bytes now → s.output json k bytes now ≠ .ok (.hello h))
    (h : Turn json s k tx l s') :
    (s'.conns k).session.greeted = true ∧ (s'.conns k).reader ≠ .cloning ∧
      ((s'.conns k).reader.Serves → (s'.conns k).myTx = some tx) := by
  cases h with
  | waits hconcerns hconn hchannel hwriter =>
      rw [hconn]
      exact ⟨ha.greeted, ha.cloned, ha.serves⟩
  | moves hmove hchannel hwriter =>
      generalize s'.conns k = c at hmove
      cases hmove with
      | @read bytes now result session hreader hevent =>
          obtain ⟨hsession, hcloning, hserves⟩ :=
            handled_cases (c := { s.conns k with session }) hreader result
          refine ⟨?_, ?_, ?_⟩
          · rw [hsession]
            rcases greeted_handleEvent hevent with ⟨-, hgreeted⟩ | ⟨-, hgreeted⟩
            · exact hgreeted
            · exact hgreeted.trans ha.greeted
          · intro h
            obtain ⟨hello, rfl⟩ := hcloning h
            exact hhello bytes now hello rfl (congrArg Prod.fst hevent)
          · intro h
            rw [hserves h]
            exact ha.serves (by rw [hreader]; trivial)
      | readFails hreader => exact ⟨ha.greeted, by simp, False.elim⟩
      | cloneFails hreader => exact ⟨ha.greeted, by simp, False.elim⟩
      | register hreader => exact ⟨ha.greeted, by simp, False.elim⟩
      | currentSettings hreader => exact ⟨ha.greeted, by simp, False.elim⟩
      | stops hreader => exact ⟨ha.greeted, by simp, False.elim⟩
  | sends hsends hsent hwriter =>
      generalize s'.conns k = c at hsends
      cases hsends with
      | settings hreader => exact ⟨ha.greeted, by simp, False.elim⟩
      | codecHeader hreader => exact ⟨ha.greeted, by simp, fun _ => rfl⟩
      | reply hreader =>
          exact ⟨ha.greeted, by simp, fun _ => ha.serves (by rw [hreader]; trivial)⟩
  | carries hline hconn =>
      rw [hconn]
      exact ⟨ha.greeted, ha.cloned, ha.serves⟩

/-- The receiver of a channel goes away only if nobody holds a sender. -/
theorem Turn.connected (hconnected : (s.channels tx).connected = true) (hheld : s.Held tx)
    (h : Turn json s k tx l s') : (s'.channels tx).connected = true := by
  cases h with
  | waits hconcerns hconn hchannel hwriter => rwa [hchannel]
  | moves hmove hchannel hwriter => rwa [hchannel]
  | sends hsends hsent hwriter => exact hsent.connected
  | carries hline hconn =>
      generalize s'.channels tx = c, s'.writers tx = w at hline
      cases hline with
      | settings hsent => exact hsent.connected
      | @offered id now later scan h result c hscan hget htx hsend =>
          cases result with
          | sent => exact (Channel.trySend_sent hsend).connected
          | full => rwa [Channel.trySend_full hsend]
          | disconnected => rwa [(Channel.trySend_disconnected hsend).1]
      | recv hstate hrecv => exact (Channel.recv_spec hrecv).2.2.trans hconnected
      | wrote hstate hbuf => exact hconnected
      | hangup hstate hqueue hnot => exact absurd hheld hnot

theorem Attended.step (hw : s.Wired) (hd : s.Handed) (ha : s.Attended k tx)
    (hhello : ∀ bytes now h, l = .read k bytes now → s.output json k bytes now ≠ .ok (.hello h))
    (h : Act json s l s') (hturn : Turn json s k tx l s') : s'.Attended k tx := by
  obtain ⟨haccepted, hcreated⟩ := h.effect.naming.le
  obtain ⟨hgreeted, hcloned, hserves⟩ := hturn.conn ha hhello
  refine ⟨ha.accepted.trans_le haccepted, ha.created.trans_le hcreated, hgreeted, hcloned, ?_, ?_,
    hserves, ?_⟩
  · intro t hholds
    rcases h.holds hholds with hholds | ⟨rfl, rfl⟩
    · exact ha.own t hholds
    · cases h with
      | spawn hreader => exact absurd hreader ha.cloned
  · intro j hholds
    rcases h.holds hholds with hholds | ⟨rfl, -⟩
    · exact ha.sole j hholds
    · exact absurd ha.created (Nat.lt_irrefl _)
  · intro hheld
    have hheld₀ := h.held hw hd ha.created hheld
    exact hturn.connected (ha.connected hheld₀) hheld₀

/-! ## Before the greeting -/

/-- The connection has no channel yet, or will never have one. -/
structure Unattended (k : ConnId) (s : Net) : Prop where
  holds : ∀ t, ¬ (s.conns k).Holds t
  reading : (s.conns k).reader = .reading → (s.conns k).session.greeted = false
  cloning : (s.conns k).reader = .cloning → (s.conns k).session.greeted = true

/-- The other threads leave a connection as it is, unless it is the one just accepted. -/
theorem Act.conns_eq (h : Act json s l s') (hl : l.reader? ≠ some k) :
    s'.conns k = s.conns k ∨ s'.conns k = .new := by
  have hconn {i : ConnId} (c : Conn) (hi : some i ≠ some k) :
      Function.update s.conns i c k = s.conns k :=
    Function.update_of_ne (fun h => hi (congrArg some h.symm)) _ _
  cases h with
  | accept =>
      by_cases hk : k = s.accepted
      · exact .inr (by simp [Net.accept, setConn, hk])
      · exact .inl (Function.update_of_ne hk _ _)
  | read hreader hevent => exact .inl (hconn _ hl)
  | readFails hreader => exact .inl (hconn _ hl)
  | spawn hreader => exact .inl (hconn _ hl)
  | cloneFails hreader => exact .inl (hconn _ hl)
  | register hreader hscan => exact .inl (hconn _ hl)
  | currentSettings hreader => exact .inl (hconn _ hl)
  | sent hsends hsent => exact .inl (hconn _ hl)
  | sendFails hsends hconnected => exact .inl (hconn _ hl)
  | unregister hreader hmyId hscan => exact .inl (hconn _ hl)
  | leave hreader hmyId => exact .inl (hconn _ hl)
  | _ => exact .inl rfl

theorem Unattended.of_reader (hholds : ∀ t, ¬ (s'.conns k).Holds t) {c : Conn}
    (hconn : s'.conns k = c) (hreading : c.reader ≠ .reading) (hcloning : c.reader ≠ .cloning) :
    s'.Unattended k := by
  refine ⟨hholds, ?_, ?_⟩
  · rw [hconn]
    exact fun h => absurd h hreading
  · rw [hconn]
    exact fun h => absurd h hcloning

/-- As long as the connection has no channel its session answers no request. -/
theorem Unattended.step (hu : s.Unattended k) (h : Act json s l s') (hl : l ≠ .spawn k) :
    s'.Unattended k := by
  have hholds (t : ChannelId) : ¬ (s'.conns k).Holds t := by
    intro hholds
    rcases h.holds hholds with hholds | ⟨-, rfl⟩
    · exact hu.holds t hholds
    · exact hl rfl
  by_cases hreader? : l.reader? = some k
  · cases h with
    | @read k bytes now result session hreader hevent =>
        obtain rfl := Option.some.inj hreader?
        obtain ⟨hsession, hcloning, -⟩ :=
          handled_cases (c := { s.conns k with session }) hreader result
        rcases greeted_handleEvent hevent with ⟨⟨hello, rfl⟩, hgreeted⟩ | ⟨hhello, hgreeted⟩
        · refine ⟨hholds, ?_, ?_⟩
          · simp [setConn, Conn.handled]
          · simp [setConn, Conn.handled, hgreeted]
        · refine ⟨hholds, ?_, ?_⟩
          · simp only [setConn, Function.update_self, hsession, hgreeted]
            exact fun _ => hu.reading hreader
          · simp only [setConn, Function.update_self]
            intro h
            obtain ⟨hello, rfl⟩ := hcloning h
            exact absurd rfl (hhello hello)
    | readFails hreader =>
        obtain rfl := Option.some.inj hreader?
        exact .of_reader hholds (Function.update_self ..) (by simp) (by simp)
    | spawn hreader =>
        obtain rfl := Option.some.inj hreader?
        exact absurd rfl hl
    | cloneFails hreader =>
        obtain rfl := Option.some.inj hreader?
        exact .of_reader hholds (Function.update_self ..) (by simp) (by simp)
    | register hreader hscan =>
        obtain rfl := Option.some.inj hreader?
        exact absurd (.inl (by rw [hreader]; rfl)) (hu.holds _)
    | currentSettings hreader =>
        obtain rfl := Option.some.inj hreader?
        exact absurd (.inl (by rw [hreader]; rfl)) (hu.holds _)
    | sent hsends hsent =>
        obtain rfl := Option.some.inj hreader?
        exact absurd hsends.holds (hu.holds _)
    | sendFails hsends hconnected =>
        obtain rfl := Option.some.inj hreader?
        exact absurd hsends.holds (hu.holds _)
    | unregister hreader hmyId hscan =>
        obtain rfl := Option.some.inj hreader?
        exact .of_reader hholds (Function.update_self ..) (by simp) (by simp)
    | leave hreader hmyId =>
        obtain rfl := Option.some.inj hreader?
        exact .of_reader hholds (Function.update_self ..) (by simp) (by simp)
    | _ => cases hreader?
  · rcases h.conns_eq hreader? with hconn | hconn
    · refine ⟨hholds, ?_, ?_⟩
      · rw [hconn]
        exact hu.reading
      · rw [hconn]
        exact hu.cloning
    · refine ⟨hholds, ?_, ?_⟩
      · rw [hconn]
        exact fun _ => rfl
      · rw [hconn]
        rintro ⟨⟩

/-- The channel made for a connection is its own. -/
theorem Unattended.attended (hw : s.Wired) (hd : s.Handed) (hu : s.Unattended k)
    (h : Act json s (.spawn k) s') : s'.Attended k s.created := by
  have hholds {j : ConnId} {t : ChannelId} (hholds : (s'.conns j).Holds t) :
      (s.conns j).Holds t ∨ t = s.created ∧ j = k := by
    refine (h.holds hholds).imp_right (And.imp_right fun hl => ?_)
    exact (Label.spawn.inj hl).symm
  cases h with
  | spawn hreader =>
      refine ⟨hw.lt_accepted (by simp [hreader]), Nat.lt_succ_self _, ?_, ?_, ?_, ?_, ?_, ?_⟩
      · simpa [setWriter, setChannel, setReader, setConn] using hu.cloning hreader
      · simp [setWriter, setChannel, setReader, setConn]
      · intro t h
        rcases hholds h with h | ⟨rfl, -⟩
        · exact absurd h (hu.holds t)
        · rfl
      · intro j h
        rcases hholds h with h | ⟨-, rfl⟩
        · exact absurd (hd.conn j _ h).2 (Nat.lt_irrefl _)
        · rfl
      · simp [setWriter, setChannel, setReader, setConn, Reader.Serves]
      · intro _
        simp [setWriter, setChannel, Channel.new]

end Net

end SnapcastClient
