import SnapcastClient.Library.Settling
import SnapcastClient.Verification.Delivery
import SnapcastClient.Verification.Entries

/-! # The server's threads do not block each other

Readers wait for room in a queue, for the registry's lock and for their writers, and a broadcast
for all of them. Left alone they come to rest, with every queue empty and every lock released,
but for what waits for a socket that takes nothing. -/

namespace SnapcastClient

/-- An upper bound on what a reader still does before it reads again or is gone, with what the
messages it sends are yet to cost. -/
def Reader.work : Reader → ℕ
  | stopped => 0
  | reading => 0
  | cloning => 10
  | registering _ => 8
  | greeting _ _ .currentSettings => 7
  | greeting _ _ (.sendSettings _) => 6
  | greeting _ _ .sendCodecHeader => 3
  | replying _ _ _ _ => 3
  | leaving => 1

/-- A writer ends once, and writes what it has in hand. -/
def WriterState.work : WriterState → ℕ
  | receiving => 1
  | writing _ => 2
  | stopped => 0

/-- Every client yet to visit may get a message, and may count as wedged. -/
def Scan.work (scan : Scan) : ℕ :=
  1 + 4 * scan.remaining.length + scan.wedged.length

namespace Net

variable {json : SerdeJson} {s s' : Net} {l : Label} {k : ConnId} {t tx : ChannelId}

/-! ## What the threads do by themselves -/

/-- The steps that need neither a connection nor bytes, a volume or a chunk from outside. -/
def Label.Own : Label → Prop
  | .accept => False
  | .read _ _ _ => False
  | .readFails _ => False
  | .storeVolume _ => False
  | .startScan _ => False
  | _ => True

/-- The steps among them in which no call on a socket fails. -/
def Label.Smooth : Label → Prop
  | .cloneFails _ => False
  | .writeFails _ => False
  | l => l.Own

/-- The steps among those that are possible while the sockets outside `accepts` take nothing of
what their writers have for them. -/
def Label.Flows (accepts : ChannelId → Prop) : Label → Prop
  | .write tx _ => accepts tx
  | l => l.Smooth

theorem Label.Smooth.own (h : l.Smooth) : l.Own := by
  cases l with
  | cloneFails k => exact h.elim
  | writeFails tx => exact h.elim
  | _ => exact h

variable {accepts : ChannelId → Prop}

theorem Label.Flows.smooth (h : l.Flows accepts) : l.Smooth := by
  cases l with
  | write tx now => trivial
  | _ => exact h

theorem Label.Smooth.flows (h : l.Smooth) (hall : ∀ tx, accepts tx) : l.Flows accepts := by
  cases l with
  | write tx now => exact hall tx
  | _ => exact h

/-- Everything asked of the server is done: no call of the broadcasts is under way, the readers
wait for bytes or are gone, and the writers wait for messages somebody may still send. -/
structure Quiet (s : Net) : Prop where
  scan : s.scan = none
  wedged : s.wedged = []
  pending : s.pending = []
  reader : ∀ k, (s.conns k).reader = .reading ∨ (s.conns k).reader = .stopped
  writer : ∀ tx, (s.writers tx).state = .stopped ∨
    (s.writers tx).state = .receiving ∧ (s.channels tx).queue = [] ∧ s.Held tx

/-- A writer waits for its socket, and the senders of its channel for room in the queue. -/
structure Jammed (accepts : ChannelId → Prop) (s : Net) (tx : ChannelId) : Prop where
  refused : ¬ accepts tx
  writer : ∃ msg, (s.writers tx).state = .writing msg
  full : (s.channels tx).queue.length = channelSlots

/-- What is left to do waits for sockets: the writers for their own, and the readers and the calls
of `broadcast_settings`, which send to one client after the other, at a jammed channel. No
broadcast of a chunk is under way. -/
structure Waiting (accepts : ChannelId → Prop) (s : Net) : Prop where
  scan : s.scan = none
  wedged : s.wedged = []
  pending : s.pending = [] ∨ ∃ send ∈ s.pending, s.Jammed accepts send.1
  reader : ∀ k, (s.conns k).reader = .reading ∨ (s.conns k).reader = .stopped ∨
    ∃ tx msg next, s.Sends k tx msg next ∧ s.Jammed accepts tx
  writer : ∀ tx, (s.writers tx).state = .stopped ∨
    (s.writers tx).state = .receiving ∧ (s.channels tx).queue = [] ∧ s.Held tx ∨
      ¬ accepts tx ∧ ∃ msg, (s.writers tx).state = .writing msg

theorem Waiting.quiet (h : s.Waiting accepts) (hall : ∀ tx, accepts tx) : s.Quiet where
  scan := h.scan
  wedged := h.wedged
  pending := h.pending.resolve_right fun ⟨_, _, hjammed⟩ => hjammed.refused (hall _)
  reader k := (h.reader k).imp_right fun hor =>
    hor.resolve_right fun ⟨_, _, _, _, hjammed⟩ => hjammed.refused (hall _)
  writer tx := (h.writer tx).imp_right fun hor => hor.resolve_right fun hnot => hnot.1 (hall tx)

/-! ## Channels and their writers -/

/-- A channel has a receiver as long as its writer runs, and without one its queue is empty. -/
structure Tended (c : Channel channelSlots Outbound) (w : Writer) : Prop where
  writer : c.connected = true ↔ w.state ≠ .stopped
  queue : c.connected = false → c.queue = []

theorem Tended.of_connected {c : Channel channelSlots Outbound} {w : Writer}
    (hconnected : c.connected = true) (hstate : w.state ≠ .stopped) : Tended c w :=
  ⟨iff_of_true hconnected hstate, fun h => absurd (h.symm.trans hconnected) Bool.false_ne_true⟩

theorem Tended.sent {c c' : Channel channelSlots Outbound} {w : Writer} {msg : Outbound}
    (h : Tended c w) (hsent : c.Sent msg c') : Tended c' w :=
  .of_connected hsent.connected (h.writer.mp hsent.room.1)

theorem Tended.trySend {c c' : Channel channelSlots Outbound} {w : Writer} {msg : Outbound}
    {result : SendResult} (h : Tended c w) (hsend : c.trySend msg = (result, c')) :
    Tended c' w := by
  cases result with
  | sent => exact h.sent (Channel.trySend_sent hsend)
  | full => rwa [Channel.trySend_full hsend]
  | disconnected => rwa [(Channel.trySend_disconnected hsend).1]

theorem tended_close (c : Channel channelSlots Outbound) (w : Writer) :
    Tended c.close { w with state := .stopped } :=
  ⟨by simp [Channel.close], fun _ => rfl⟩

/-- Every channel is tended, and every client that a broadcast has yet to visit is registered. -/
structure Staffed (s : Net) : Prop where
  absent : ∀ tx, s.created ≤ tx → (s.writers tx).state = .stopped
  line : ∀ tx, Tended (s.channels tx) (s.writers tx)
  scan : ∀ scan, s.scan = some scan → ∀ id ∈ scan.remaining, (s.registry.get? id).isSome

theorem Staffed.lt_created (hs : s.Staffed) (h : (s.writers tx).state ≠ .stopped) :
    tx < s.created := by
  by_contra htx
  exact h (hs.absent tx (Nat.le_of_not_lt htx))

theorem staffed_new (bufferMs : UInt32) (initialVolume : UInt8) :
    (new bufferMs initialVolume).Staffed where
  absent _ _ := rfl
  line _ := ⟨by simp [new, Channel.absent], fun _ => rfl⟩
  scan _ h := by cases h

/-- A step that changes one channel keeps the channels tended. -/
theorem Staffed.of_line (hs : s.Staffed) {c : Channel channelSlots Outbound} {w : Writer}
    (hcreated : s.created ≤ s'.created) (hchannels : s'.channels = Function.update s.channels t c)
    (hwriters : s'.writers = Function.update s.writers t w) (hline : Tended c w)
    (habsent : s'.created ≤ t → w.state = .stopped)
    (hscan : ∀ scan, s'.scan = some scan → ∀ id ∈ scan.remaining, (s'.registry.get? id).isSome) :
    s'.Staffed := by
  refine ⟨fun tx htx => ?_, fun tx => ?_, hscan⟩
  · rw [hwriters]
    by_cases ht : tx = t
    · subst ht
      rw [Function.update_self]
      exact habsent htx
    · rw [Function.update_of_ne ht]
      exact hs.absent tx (hcreated.trans htx)
  · rw [hchannels, hwriters]
    by_cases ht : tx = t
    · subst ht
      rwa [Function.update_self, Function.update_self]
    · rw [Function.update_of_ne ht, Function.update_of_ne ht]
      exact hs.line tx

/-- A step that changes what one channel holds keeps the channels tended. -/
theorem Staffed.of_channel (hs : s.Staffed) {c : Channel channelSlots Outbound}
    (hcreated : s'.created = s.created) (hchannels : s'.channels = Function.update s.channels t c)
    (hwriters : s'.writers = s.writers) (hline : Tended c (s.writers t))
    (hscan : ∀ scan, s'.scan = some scan → ∀ id ∈ scan.remaining, (s'.registry.get? id).isSome) :
    s'.Staffed := by
  refine hs.of_line hcreated.ge hchannels (hwriters.trans (Function.update_eq_self t _).symm) hline
    ?_ hscan
  intro ht
  exact hs.absent t (hcreated ▸ ht)

theorem Staffed.of_registry (hs : s.Staffed) (hcreated : s'.created = s.created)
    (hchannels : s'.channels = s.channels) (hwriters : s'.writers = s.writers)
    (hscan : ∀ scan, s'.scan = some scan → ∀ id ∈ scan.remaining, (s'.registry.get? id).isSome) :
    s'.Staffed :=
  ⟨fun tx htx => hwriters ▸ hs.absent tx (hcreated ▸ htx),
    fun tx => by rw [hchannels, hwriters]; exact hs.line tx, hscan⟩

theorem Staffed.stopWriter (hs : s.Staffed) (tx : ChannelId) : (s.stopWriter tx).Staffed :=
  hs.of_line (t := tx) le_rfl rfl rfl (tended_close _ _) (fun _ => rfl) hs.scan

theorem Act.staffed (hs : s.Staffed) (h : Act json s l s') : s'.Staffed := by
  have hidle (hscan : s.scan = none) {r : Registry} (scan : Scan) (hscan' : s.scan = some scan) :
      ∀ id ∈ scan.remaining, (r.get? id).isSome := by
    rw [hscan] at hscan'
    cases hscan'
  cases h with
  | spawn hreader =>
      refine hs.of_line (t := s.created) (c := .new) (w := ⟨.receiving, 0, []⟩)
        (Nat.le_succ s.created) rfl rfl (.of_connected rfl (by simp)) ?_ hs.scan
      intro h
      exact absurd h (Nat.not_succ_le_self _)
  | register hreader hscan => exact hs.of_registry rfl rfl rfl (hidle hscan)
  | sent hsends hsent => exact hs.of_channel rfl rfl rfl ((hs.line _).sent hsent) hs.scan
  | unregister hreader hmyId hscan => exact hs.of_registry rfl rfl rfl (hidle hscan)
  | @recv tx msg c hstate hrecv =>
      have hrunning : (s.writers tx).state ≠ .stopped := by simp [hstate]
      have hconnected := (Channel.recv_spec hrecv).2.2.trans ((hs.line tx).writer.mpr hrunning)
      refine hs.of_line (t := tx) le_rfl rfl rfl (.of_connected hconnected (by simp)) ?_ hs.scan
      intro h
      exact absurd (hs.lt_created hrunning) (Nat.not_lt_of_le h)
  | @wrote tx now msg buf hstate hbuf =>
      have hrunning : (s.writers tx).state ≠ .stopped := by simp [hstate]
      have hconnected := (hs.line tx).writer.mpr hrunning
      refine hs.of_line (t := tx) le_rfl (Function.update_eq_self tx _).symm rfl
        (.of_connected hconnected (by simp)) ?_ hs.scan
      intro h
      exact absurd (hs.lt_created hrunning) (Nat.not_lt_of_le h)
  | writePanics hbuf => exact hs.stopWriter _
  | writeFails => exact hs.stopWriter _
  | hangup hstate hqueue hheld => exact hs.stopWriter _
  | settingsSent hmem hsent => exact hs.of_channel rfl rfl rfl ((hs.line _).sent hsent) hs.scan
  | startScan hscan hlimit =>
      refine hs.of_registry rfl rfl rfl ?_
      rintro scan ⟨⟩ id hid
      exact Registry.mem_keys_iff.mp hid
  | @offer id now later scan handle result c hscan hmem hget hsend =>
      refine hs.of_channel rfl rfl rfl ((hs.line _).trySend hsend) ?_
      rintro scan' ⟨⟩ id' hid'
      have hsome := hs.scan scan hscan id' (List.mem_of_mem_erase hid')
      by_cases hid : id' = id
      · subst hid
        simp [setChannel, Registry.get?_setHandle_self (Registry.mem_of_get? hget)]
      · simpa [setChannel, Registry.get?_setHandle_of_ne (Registry.mem_of_get? hget) hid]
          using hsome
  | endScan hscan hremaining =>
      refine hs.of_registry rfl rfl rfl ?_
      rintro scan ⟨⟩
  | disconnect hscan hmem => exact hs.of_registry rfl rfl rfl (hidle hscan)
  | _ => exact hs.of_registry rfl rfl rfl hs.scan

/-! ## The work that is left -/

def readersWork (s : Net) : ℕ :=
  ∑ k ∈ Finset.range s.accepted, (s.conns k).reader.work

/-- A queued message is taken and written. -/
def lineWork (s : Net) (tx : ChannelId) : ℕ :=
  2 * (s.channels tx).queue.length + (s.writers tx).state.work

def linesWork (s : Net) : ℕ :=
  ∑ tx ∈ Finset.range s.created, s.lineWork tx

def broadcastsWork (s : Net) : ℕ :=
  3 * s.pending.length + s.wedged.length + s.scan.elim 0 Scan.work

/-- An upper bound on the steps that the threads take by themselves. -/
def work (s : Net) : ℕ :=
  s.readersWork + s.linesWork + s.broadcastsWork

/-- What holds of the names, the senders and the channels in every state of a run. -/
structure Kept (s : Net) : Prop where
  wired : s.Wired
  handed : s.Handed
  staffed : s.Staffed

theorem kept_new (json : SerdeJson) (bufferMs : UInt32) (initialVolume : UInt8) :
    (new bufferMs initialVolume).Kept :=
  ⟨wired_new, (recorded_new json 0 bufferMs initialVolume).handed,
    staffed_new bufferMs initialVolume⟩

theorem Kept.step (hk : s.Kept) (h : s.step json l = some s') : s'.Kept :=
  have hact := step_act h
  ⟨hact.effect.wired hk.wired, hact.handed hk.wired hk.handed, hact.staffed hk.staffed⟩

variable {bufferMs : UInt32} {initialVolume : UInt8}

theorem reach_kept {ok : Net → Label → Prop}
    (h : (system json bufferMs initialVolume).Reach ok s) : s.Kept := by
  refine h.invariant (I := Kept) ?_ fun s l s' hk _ hstep => hk.step hstep
  rintro s rfl
  exact kept_new json bufferMs initialVolume

/-- No thread can take a step in which no call fails, while the sockets outside `accepts` take
nothing. -/
def Stuck (json : SerdeJson) (accepts : ChannelId → Prop) (s : Net) : Prop :=
  ∀ l : Label, l.Flows accepts → s.step json l = none

theorem stuck_of_settled
    (h : (system json bufferMs initialVolume).Settled (Label.Flows accepts) s) :
    s.Stuck json accepts := by
  intro l hl
  rw [Option.eq_none_iff_forall_ne_some]
  exact fun s' => h l s' hl

theorem Stuck.scan (h : s.Stuck json accepts) (hs : s.Staffed) : s.scan = none := by
  cases hscan : s.scan with
  | none => rfl
  | some scan =>
      exfalso
      cases hremaining : scan.remaining with
      | nil =>
          have hend : s.endScan = none := h .endScan trivial
          simp [endScan, hscan, hremaining] at hend
      | cons id rest =>
          have hoffer : s.offer id 0 0 = none := h (.offer id 0 0) trivial
          have hmem : id ∈ scan.remaining := by simp [hremaining]
          obtain ⟨handle, hget⟩ := Option.isSome_iff_exists.mp (hs.scan scan hscan id hmem)
          simp [offer, hscan, hmem, hget] at hoffer

theorem Stuck.wedged (h : s.Stuck json accepts) (hs : s.Staffed) : s.wedged = [] := by
  refine List.eq_nil_iff_forall_not_mem.mpr fun id hid => ?_
  have hdisconnect : s.disconnect id = none := h (.disconnect id) trivial
  rw [disconnect, if_pos ⟨h.scan hs, hid⟩] at hdisconnect
  cases hdisconnect

theorem Stuck.writer (h : s.Stuck json accepts) (tx : ChannelId) :
    (s.writers tx).state = .stopped ∨
      (s.writers tx).state = .receiving ∧ (s.channels tx).queue = [] ∧ s.Held tx ∨
        ¬ accepts tx ∧ ∃ msg, (s.writers tx).state = .writing msg := by
  cases hstate : (s.writers tx).state with
  | stopped => exact .inl rfl
  | writing msg =>
      refine .inr (.inr ⟨fun haccepts => ?_, msg, rfl⟩)
      have hwrite : s.write json tx 0 = none := h (.write tx 0) haccepts
      simp only [write, hstate] at hwrite
      split at hwrite <;> cases hwrite
  | receiving =>
      have hqueue : (s.channels tx).queue = [] := by
        by_contra hqueue
        obtain ⟨msg, c, hrecv⟩ := Channel.recv_isSome hqueue
        have hnone : s.recv tx = none := h (.recv tx) trivial
        simp [recv, hstate, hrecv] at hnone
      refine .inr (.inl ⟨rfl, hqueue, ?_⟩)
      by_contra hheld
      have hnone : s.hangup tx = none := h (.hangup tx) trivial
      rw [hangup, if_pos ⟨hstate, hqueue, hheld⟩] at hnone
      cases hnone

/-- A channel without room is one whose writer waits for its socket. -/
theorem Stuck.jammed (h : s.Stuck json accepts) (hs : s.Staffed) {msg : Outbound}
    (hfull : ((s.channels tx).trySend msg).1 = .full) : s.Jammed accepts tx := by
  obtain ⟨hconnected, hlength⟩ := Channel.length_of_full hfull
  rcases h.writer tx with hstopped | ⟨-, hqueue, -⟩ | ⟨hrefused, hwriting⟩
  · exact absurd hstopped ((hs.line tx).writer.mp hconnected)
  · rw [hqueue] at hlength
    cases hlength
  · exact ⟨hrefused, hwriting, hlength⟩

theorem Stuck.pending (h : s.Stuck json accepts) (hs : s.Staffed) {st : ServerSettings}
    (hmem : (tx, st) ∈ s.pending) : s.Jammed accepts tx := by
  have hsend : s.sendSettings tx st = none := h (.sendSettings tx st) trivial
  rcases htrySend : (s.channels tx).trySend (.settings st) with ⟨result, c⟩
  cases result with
  | full => exact h.jammed hs (congrArg Prod.fst htrySend)
  | _ => simp [sendSettings, hmem, htrySend] at hsend

theorem Stuck.sends (h : s.Stuck json accepts) (hs : s.Staffed) {msg : Outbound} {next : Conn}
    (hsends : s.Sends k tx msg next) : s.Jammed accepts tx := by
  have hsend : s.send k = none := h (.send k) trivial
  have hfrom : s.sendFrom k tx msg next = none := by
    cases hsends with
    | settings hreader => simpa only [send, hreader] using hsend
    | codecHeader hreader => simpa only [send, hreader] using hsend
    | reply hreader => simpa only [send, hreader] using hsend
  rcases htrySend : (s.channels tx).trySend msg with ⟨result, c⟩
  cases result with
  | full => exact h.jammed hs (congrArg Prod.fst htrySend)
  | _ => simp [Net.sendFrom, htrySend] at hfrom

theorem Stuck.reader (h : s.Stuck json accepts) (hs : s.Staffed) (k : ConnId) :
    (s.conns k).reader = .reading ∨ (s.conns k).reader = .stopped ∨
      ∃ tx msg next, s.Sends k tx msg next ∧ s.Jammed accepts tx := by
  have hscan := h.scan hs
  have hspawn : s.spawn k = none := h (.spawn k) trivial
  have hregister : s.register k = none := h (.register k) trivial
  have hcurrent : s.currentSettings k = none := h (.currentSettings k) trivial
  have hleave : s.leave k = none := h (.leave k) trivial
  have hsends {tx : ChannelId} {msg : Outbound} {next : Conn} (hsends : s.Sends k tx msg next) :
      ∃ tx msg next, s.Sends k tx msg next ∧ s.Jammed accepts tx :=
    ⟨tx, msg, next, hsends, h.sends hs hsends⟩
  cases hreader : (s.conns k).reader with
  | stopped => exact .inr (.inl rfl)
  | reading => exact .inl rfl
  | cloning => simp [spawn, hreader] at hspawn
  | registering tx => simp [register, hreader, hscan] at hregister
  | greeting id tx stage =>
      cases stage with
      | currentSettings => simp [currentSettings, hreader, hscan] at hcurrent
      | sendSettings st => exact .inr (.inr (hsends (.settings hreader)))
      | sendCodecHeader => exact .inr (.inr (hsends (.codecHeader hreader)))
  | replying tx refersTo clientSent received => exact .inr (.inr (hsends (.reply hreader)))
  | leaving =>
      cases hmyId : (s.conns k).myId <;> simp [leave, hreader, hmyId, hscan] at hleave

theorem Stuck.waiting (h : s.Stuck json accepts) (hs : s.Staffed) : s.Waiting accepts where
  scan := h.scan hs
  wedged := h.wedged hs
  pending := by
    cases hpending : s.pending with
    | nil => exact .inl rfl
    | cons send rest => exact .inr ⟨send, by simp, h.pending hs (hpending ▸ List.mem_cons_self)⟩
  reader := h.reader hs
  writer := h.writer

/-- At rest no thread can take a step. -/
theorem Quiet.stuck (h : s.Quiet) (hl : l.Smooth) : s.step json l = none := by
  have hreader (k : ConnId) (reader : Reader) (hk : (s.conns k).reader = reader) :
      reader = .reading ∨ reader = .stopped := hk ▸ h.reader k
  have hwriter (tx : ChannelId) (msg : Outbound) : (s.writers tx).state ≠ .writing msg := by
    intro hwriting
    rcases h.writer tx with hstate | ⟨hstate, -⟩ <;> cases hstate.symm.trans hwriting
  refine Option.eq_none_iff_forall_ne_some.mpr fun s' hstep => ?_
  cases step_act hstep with
  | accept => exact hl
  | read hreading hevent => exact hl
  | readFails hreading => exact hl
  | cloneFails hcloning => exact hl
  | writeFails => exact hl
  | storeVolume => exact hl
  | startScan hscan hlimit => exact hl
  | spawn hk => simpa using hreader _ _ hk
  | register hk hscan => simpa using hreader _ _ hk
  | currentSettings hk => simpa using hreader _ _ hk
  | sent hsends hsent => cases hsends with
    | settings hk => simpa using hreader _ _ hk
    | codecHeader hk => simpa using hreader _ _ hk
    | reply hk => simpa using hreader _ _ hk
  | sendFails hsends hconnected => cases hsends with
    | settings hk => simpa using hreader _ _ hk
    | codecHeader hk => simpa using hreader _ _ hk
    | reply hk => simpa using hreader _ _ hk
  | unregister hk hmyId hscan => simpa using hreader _ _ hk
  | leave hk hmyId => simpa using hreader _ _ hk
  | @recv tx msg c hstate hrecv =>
      rcases h.writer tx with hstopped | ⟨-, hqueue, -⟩
      · cases hstopped.symm.trans hstate
      · cases hqueue.symm.trans (Channel.queue_of_recv hrecv)
  | wrote hstate hbuf => exact hwriter _ _ hstate
  | @writePanics tx now msg fault hbuf =>
      change s.write json tx now = _ at hstep
      rw [write] at hstep
      split at hstep
      · rename_i hstate
        exact hwriter _ _ hstate
      · cases hstep
  | @hangup tx hstate hqueue hheld =>
      rcases h.writer tx with hstopped | ⟨-, -, hheld'⟩
      · cases hstopped.symm.trans hstate
      · exact hheld hheld'
  | settingsSent hmem hsent => simp [h.pending] at hmem
  | settingsDropped hmem hconnected => simp [h.pending] at hmem
  | offer hscan hmem hget hsend => cases h.scan.symm.trans hscan
  | endScan hscan hremaining => cases h.scan.symm.trans hscan
  | disconnect hscan hmem => simp [h.wedged] at hmem

theorem settled_iff (hs : s.Staffed) (hall : ∀ tx, accepts tx) :
    (system json bufferMs initialVolume).Settled (Label.Flows accepts) s ↔ s.Quiet := by
  refine ⟨fun h => ((stuck_of_settled h).waiting hs).quiet hall, fun h l s' hl hstep => ?_⟩
  cases (h.stuck hl.smooth).symm.trans hstep

/-- Where every socket takes what is written, the steps are those in which no call fails. -/
theorem settled_smooth_iff (hs : s.Staffed) :
    (system json bufferMs initialVolume).Settled Label.Smooth s ↔ s.Quiet := by
  have hflows : (system json bufferMs initialVolume).Settled (Label.Flows fun _ => True) s ↔
      s.Quiet := settled_iff hs fun _ => trivial
  rw [← hflows]
  exact ⟨fun h l s' hl => h l s' hl.smooth, fun h l s' hl => h l s' (hl.flows fun _ => trivial)⟩

/-- A client that a running reader remembers has the queue that the reader answers on. -/
structure Tied (s : Net) : Prop where
  lt : ∀ k id, (s.conns k).myId = some id → id < s.registry.nextId
  entry : ∀ id h, (id, h) ∈ s.registry.clients → (s.conns h.sock).reader ≠ .stopped →
    (s.conns h.sock).myId = some id → (s.conns h.sock).myTx = some h.tx

theorem Tied.setConn (ht : s.Tied) {j : ConnId} {c : Conn}
    (hregistry : s.registry.Shrinks s'.registry) (hconns : s'.conns = Function.update s.conns j c)
    (hlt : ∀ id, c.myId = some id → id < s.registry.nextId)
    (hc : ∀ id h, (id, h) ∈ s.registry.clients → h.sock = j → c.reader ≠ .stopped →
      c.myId = some id → c.myTx = some h.tx) : s'.Tied := by
  constructor
  · intro k id hmyId
    rw [hregistry.nextId]
    rw [hconns] at hmyId
    by_cases hk : k = j
    · rw [hk, Function.update_self] at hmyId
      exact hlt id hmyId
    · rw [Function.update_of_ne hk] at hmyId
      exact ht.lt k id hmyId
  · intro id h hmem hrunning hmyId
    obtain ⟨h₀, hmem₀, htx, hsock⟩ := hregistry.entry id h hmem
    rw [hconns, hsock] at hrunning hmyId ⊢
    rw [htx]
    by_cases hj : h₀.sock = j
    · rw [hj, Function.update_self] at hrunning hmyId ⊢
      exact hc id h₀ hmem₀ hj hrunning hmyId
    · rw [Function.update_of_ne hj] at hrunning hmyId ⊢
      exact ht.entry id h₀ hmem₀ hrunning hmyId

/-- A running reader that remembers what it remembered. -/
theorem Tied.goesOn (ht : s.Tied) {j : ConnId} {c : Conn}
    (hregistry : s.registry.Shrinks s'.registry) (hconns : s'.conns = Function.update s.conns j c)
    (hrunning : (s.conns j).reader ≠ .stopped) (hmyId : c.myId = (s.conns j).myId)
    (hmyTx : c.myTx = (s.conns j).myTx) : s'.Tied := by
  refine ht.setConn hregistry hconns (fun id h => ht.lt j id (hmyId ▸ h)) ?_
  rintro id h hmem rfl - hid
  rw [hmyTx]
  exact ht.entry id h hmem hrunning (hmyId ▸ hid)

/-- A reader that is gone is tied to nothing. -/
theorem Tied.stops (ht : s.Tied) {j : ConnId} {c : Conn}
    (hregistry : s.registry.Shrinks s'.registry) (hconns : s'.conns = Function.update s.conns j c)
    (hstopped : c.reader = .stopped) (hmyId : c.myId = (s.conns j).myId) : s'.Tied :=
  ht.setConn hregistry hconns (fun id h => ht.lt j id (hmyId ▸ h))
    fun _ _ _ _ h => absurd hstopped h

theorem Tied.of_shrinks (ht : s.Tied) (hregistry : s.registry.Shrinks s'.registry)
    (hconns : s'.conns = s.conns) : s'.Tied := by
  constructor
  · intro k id hmyId
    rw [hregistry.nextId]
    exact ht.lt k id (hconns ▸ hmyId)
  · intro id h hmem hrunning hmyId
    obtain ⟨h₀, hmem₀, htx, hsock⟩ := hregistry.entry id h hmem
    rw [hconns, hsock] at hrunning hmyId ⊢
    rw [htx]
    exact ht.entry id h₀ hmem₀ hrunning hmyId

/-- A new client has an id that nobody remembers. -/
theorem Tied.register (ht : s.Tied) {reader : Reader}
    (hrunning : (s.conns k).reader ≠ .stopped) :
    ({ s with registry := (s.registry.register tx k).2 }.setReader k reader).Tied := by
  have hkeeps (j : ConnId) :
      (({ s with registry := (s.registry.register tx k).2 }.setReader k reader).conns j).myId =
          (s.conns j).myId ∧
        (({ s with registry := (s.registry.register tx k).2 }.setReader k reader).conns j).myTx =
          (s.conns j).myTx := by
    by_cases hj : j = k
    · simp [setReader, Net.setConn, hj]
    · simp [setReader, Net.setConn, hj]
  constructor
  · intro j id hmyId
    rw [(hkeeps j).1] at hmyId
    exact Nat.lt_succ_of_lt (ht.lt j id hmyId)
  · intro id h hmem hreader hmyId
    rw [(hkeeps h.sock).1] at hmyId
    rw [(hkeeps h.sock).2]
    rcases Registry.mem_register.mp hmem with hmem | ⟨rfl, rfl⟩
    · refine ht.entry id h hmem ?_ hmyId
      by_cases hk : h.sock = k
      · rwa [hk]
      · simpa [setReader, Net.setConn, hk] using hreader
    · exact absurd (ht.lt _ _ hmyId) (Nat.lt_irrefl _)

theorem Effect.tied (hw : s.Wired) (ht : s.Tied) (h : Effect s l s') : s'.Tied := by
  have hrefl := Registry.Shrinks.refl s.registry
  cases h with
  | accept => exact ht.setConn hrefl rfl (by rintro id ⟨⟩) (by rintro id h - - - ⟨⟩)
  | goesOn hbetween hbetween' hnot => exact ht.goesOn hrefl rfl hbetween.ne_stopped rfl rfl
  | spawn hreader => exact ht.goesOn hrefl rfl (by simp [hreader]) rfl rfl
  | register hreader => exact ht.register (by simp [hreader])
  | currentSettings hreader => exact ht.goesOn hrefl rfl (by simp [hreader]) rfl rfl
  | @sent k tx msg next c hsends hsent =>
      cases hsends with
      | settings hreader => exact ht.goesOn hrefl rfl (by simp [hreader]) rfl rfl
      | @codecHeader id _ hreader =>
          obtain ⟨-, hid, hentry⟩ := hw.greeting k id tx _ hreader
          refine ht.setConn hrefl rfl ?_ ?_
          · rintro id ⟨⟩
            exact hid
          · rintro id h hmem - - ⟨⟩
            exact congrArg some (hentry h hmem).1.symm
      | reply hreader => exact ht.goesOn hrefl rfl (by simp [hreader]) rfl rfl
  | sendFails hsends hconnected => exact ht.goesOn hrefl rfl hsends.ne_stopped rfl rfl
  | unregister hreader hmyId => exact ht.stops (s.registry.shrinks_remove _) rfl rfl rfl
  | leave hreader hmyId => exact ht.stops hrefl rfl rfl rfl
  | chunkSent hget hsent hshrinks hsettings => exact ht.of_shrinks hshrinks rfl
  | scans hshrinks hsettings => exact ht.of_shrinks hshrinks rfl
  | storeVolume => exact ht.of_shrinks (s.registry.shrinks_storeVolume _) rfl
  | _ => exact ht.of_shrinks hrefl rfl

theorem tied_new : (new bufferMs initialVolume).Tied :=
  ⟨by rintro k id ⟨⟩, by rintro id h ⟨⟩⟩

theorem reach_tied {ok : Net → Label → Prop}
    (h : (system json bufferMs initialVolume).Reach ok s) : s.Tied := by
  refine h.invariant_of (fun _ => reach_wired) ?_ ?_
  · rintro s rfl
    exact tied_new
  · intro s l s' hw ht _ hstep
    exact (step_effect hstep).tied hw ht

/-- A reader that is gone holds no sender. -/
def Released (s : Net) : Prop :=
  ∀ k, (s.conns k).reader = .stopped → (s.conns k).myTx = none

theorem Released.setConn (hr : s.Released) {j : ConnId} {c : Conn}
    (hc : c.reader = .stopped → c.myTx = none) : (s.setConn j c).Released := by
  intro k hk
  by_cases hj : k = j
  · subst hj
    simp only [Net.setConn, Function.update_self] at hk ⊢
    exact hc hk
  · simp only [Net.setConn, Function.update_of_ne hj] at hk ⊢
    exact hr k hk

theorem Effect.released (hr : s.Released) (h : Effect s l s') : s'.Released := by
  cases h with
  | accept => exact hr.setConn (by rintro ⟨⟩)
  | goesOn hbetween hbetween' hnot => exact hr.setConn fun h => absurd h hbetween'.ne_stopped
  | spawn hreader => exact hr.setConn (by rintro ⟨⟩)
  | register hreader => exact hr.setConn (by rintro ⟨⟩)
  | currentSettings hreader => exact hr.setConn (by rintro ⟨⟩)
  | sent hsends hsent =>
      refine hr.setConn ?_
      cases hsends <;> rintro ⟨⟩
  | sendFails hsends hconnected => exact hr.setConn (by rintro ⟨⟩)
  | unregister hreader hmyId => exact hr.setConn fun _ => rfl
  | leave hreader hmyId => exact hr.setConn fun _ => rfl
  | _ => exact hr

theorem reach_released {ok : Net → Label → Prop}
    (h : (system json bufferMs initialVolume).Reach ok s) : s.Released := by
  refine h.invariant ?_ fun s l s' hr _ hstep => (step_effect hstep).released hr
  rintro s rfl
  exact fun _ _ => rfl

/-- At rest, in a run in which connections register only while they have no entry and give up no
greeting whose entry is there, every client in the registry is read from, on the queue of its
entry, and every writer works for a connection that is read from. Once every reader is gone no
client and no writer is left. -/
theorem nothing_left (h : (system json bufferMs initialVolume).Reach
      (fun s l => ∀ k, s.registersOnce k l = true) s)
    (hsettled : (system json bufferMs initialVolume).Settled Label.Smooth s) :
    (∀ id h, (id, h) ∈ s.registry.clients → (s.conns h.sock).reader = .reading ∧
        (s.conns h.sock).myId = some id ∧ (s.conns h.sock).myTx = some h.tx) ∧
      (∀ tx, (s.writers tx).state ≠ .stopped →
        ∃ k, (s.conns k).reader = .reading ∧ (s.conns k).myTx = some tx) ∧
      ((∀ k, (s.conns k).reader = .stopped) →
        s.registry.clients = [] ∧ ∀ tx, (s.writers tx).state = .stopped) := by
  have hquiet := (settled_smooth_iff (reach_kept h).staffed).mp hsettled
  have hentry (id : ClientId) (handle : ClientHandle)
      (hmem : (id, handle) ∈ s.registry.clients) :
      (s.conns handle.sock).reader = .reading ∧ (s.conns handle.sock).myId = some id ∧
        (s.conns handle.sock).myTx = some handle.tx := by
    have howns := reach_owned (h.mono fun _ _ hall => hall handle.sock) id handle hmem rfl
    rcases hquiet.reader handle.sock with hreading | hstopped
    · rcases howns with hgreets | ⟨-, hrunning, hmyId⟩
      · rw [hreading] at hgreets
        cases hgreets
      · exact ⟨hreading, hmyId, (reach_tied h).entry id handle hmem hrunning hmyId⟩
    · exact absurd howns (not_owns_of_stopped hstopped)
  have hwriter (tx : ChannelId) (hrunning : (s.writers tx).state ≠ .stopped) :
      ∃ k, (s.conns k).reader = .reading ∧ (s.conns k).myTx = some tx := by
    rcases hquiet.writer tx with hstopped | ⟨-, -, hheld⟩
    · exact absurd hstopped hrunning
    · rcases hheld with ⟨⟨id, handle⟩, hmem, rfl⟩ | ⟨send, hmem, -⟩ | ⟨k, -, hholds⟩
      · obtain ⟨hreading, -, hmyTx⟩ := hentry id handle hmem
        exact ⟨handle.sock, hreading, hmyTx⟩
      · rw [hquiet.pending] at hmem
        cases hmem
      · rcases hquiet.reader k with hreading | hstopped
        · refine ⟨k, hreading, hholds.resolve_left ?_⟩
          rw [hreading]
          rintro ⟨⟩
        · rcases hholds with htx | htx
          · rw [hstopped] at htx
            cases htx
          · rw [reach_released h k hstopped] at htx
            cases htx
  refine ⟨hentry, hwriter, fun hall => ⟨?_, fun tx => ?_⟩⟩
  · refine List.eq_nil_iff_forall_not_mem.mpr fun ⟨id, handle⟩ hmem => ?_
    cases (hentry id handle hmem).1.symm.trans (hall handle.sock)
  · by_contra hrunning
    obtain ⟨k, hreading, -⟩ := hwriter tx hrunning
    cases hreading.symm.trans (hall k)

/-- A check of the threads that were started. -/
theorem quiet_of_started (hk : s.Kept) (hscan : s.scan.isNone) (hwedged : s.wedged = [])
    (hpending : s.pending = [])
    (hreader : ∀ k < s.accepted, (s.conns k).reader = .reading ∨ (s.conns k).reader = .stopped)
    (hwriter : ∀ tx < s.created, (s.writers tx).state = .stopped ∨
      (s.writers tx).state = .receiving ∧ (s.channels tx).queue = [] ∧ s.Held tx) : s.Quiet where
  scan := Option.isNone_iff_eq_none.mp hscan
  wedged := hwedged
  pending := hpending
  reader k := (lt_or_ge k s.accepted).elim (hreader k) fun h => .inr (hk.wired.absent k h)
  writer tx := (lt_or_ge tx s.created).elim (hwriter tx) fun h => .inl (hk.staffed.absent tx h)

/-- The other connections register nothing while one reader alone takes steps. -/
theorem registersOnce_of_alone {j : ConnId} (hok : s.registersOnce j l = true)
    (hreader : l.reader?.all (· = j) = true) (k : ConnId) : s.registersOnce k l = true := by
  by_cases hk : k = j
  · exact hk ▸ hok
  · have hne (i : ConnId) (hi : some i = l.reader?) : i ≠ k := by
      rintro rfl
      rw [← hi] at hreader
      exact hk (by simpa using hreader)
    cases l with
    | register i => simp [registersOnce, hne i rfl]
    | send i =>
        rw [registersOnce]
        split
        · simp [hne i rfl]
        · rfl
    | _ => rfl

/-- A client is greeted and gets its messages. -/
theorem nothing_left_greeted :
    ∃ s : Net, (system .compact 1000 50).Settled Label.Smooth s ∧
      (s.registry.clients.map Prod.fst, (s.writers 0).state) = ([0], .receiving) ∧
        (∀ id h, (id, h) ∈ s.registry.clients → (s.conns h.sock).reader = .reading ∧
          (s.conns h.sock).myId = some id ∧ (s.conns h.sock).myTx = some h.tx) ∧
        ∃ k, (s.conns k).reader = .reading ∧ (s.conns k).myTx = some 0 := by
  let ok (s : Net) (l : Label) : Bool := s.registersOnce 0 l && l.reader?.all (· = 0)
  obtain ⟨s, hs, hP⟩ := exists_reach_of_run
    (reach_helloed 1000 50 ok (fun _ => rfl) fun _ _ => rfl)
    (greetLabels 0 ++ [.recv 0, .write 0 0, .recv 0, .write 0 0])
    (fun s => s.scan.isNone ∧ s.wedged = [] ∧ s.pending = [] ∧
      (∀ k < s.accepted, (s.conns k).reader = .reading ∨ (s.conns k).reader = .stopped) ∧
      (∀ tx < s.created, (s.writers tx).state = .stopped ∨
        (s.writers tx).state = .receiving ∧ (s.channels tx).queue = [] ∧ s.Held tx) ∧
      (s.registry.clients.map Prod.fst, (s.writers 0).state) = ([0], .receiving))
    (by decide +kernel)
  obtain ⟨hscan, hwedged, hpending, hreader, hwriter, hleft⟩ := of_decide_eq_true hP
  have hkept := reach_kept hs
  have hquiet := quiet_of_started hkept hscan hwedged hpending hreader hwriter
  have hsettled : (system .compact 1000 50).Settled Label.Smooth s :=
    (settled_smooth_iff hkept.staffed).mpr hquiet
  have honce (s : Net) (l : Label) (hok : ok s l = true) (k : ConnId) :
      s.registersOnce k l = true :=
    registersOnce_of_alone ((Bool.and_eq_true _ _).mp hok).1 ((Bool.and_eq_true _ _).mp hok).2 k
  obtain ⟨hentry, hrunning, -⟩ := nothing_left (hs.mono honce) hsettled
  refine ⟨s, hsettled, hleft, hentry, hrunning 0 ?_⟩
  rw [(Prod.mk.inj hleft).2]
  rintro ⟨⟩

end Net

end SnapcastClient
