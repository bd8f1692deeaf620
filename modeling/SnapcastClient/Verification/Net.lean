import SnapcastClient.Library.Settling
import SnapcastClient.Model.Net
import SnapcastClient.Verification.Registry
import SnapcastClient.Verification.Session

/-! # What each step of the server's threads does -/

namespace SnapcastClient

/-- The reader is past `accept` and greets nobody. -/
def Reader.Between : Reader → Prop
  | stopped => False
  | greeting _ _ _ => False
  | _ => True

theorem Reader.Between.greets_eq_none {reader : Reader} (h : reader.Between) :
    reader.greets = none := by
  cases reader with
  | greeting id tx stage => exact h.elim
  | _ => rfl

theorem Reader.Between.ne_stopped {reader : Reader} (h : reader.Between) : reader ≠ .stopped := by
  rintro rfl
  exact h

/-- The reader is about to clone its socket, for the writer or for the registry. -/
def Reader.Cloning : Reader → Prop
  | cloning => True
  | registering _ => True
  | _ => False

theorem Reader.Cloning.between {reader : Reader} (h : reader.Cloning) : reader.Between := by
  cases reader with
  | cloning => trivial
  | registering tx => trivial
  | _ => exact h.elim

theorem Reader.exists_of_greets {reader : Reader} {id : ClientId} (h : reader.greets = some id) :
    ∃ tx stage, reader = .greeting id tx stage := by
  cases reader with
  | greeting id' tx stage =>
      obtain rfl := Option.some.inj h
      exact ⟨tx, stage, rfl⟩
  | _ => cases h

namespace Conn

/-- What a reader makes of the outcome of a packet. -/
inductive Handles (c : Conn) : Outcome SessionOutput → Conn → Prop where
  | fails {message : String} : Handles c (.error (.error message)) { c with reader := .leaving }
  | panics {reason : Panic} :
      Handles c (.error (.panicked reason)) { c with reader := .stopped, myTx := none }
  | goesOn : Handles c (.ok .none) c
  | unserved {id : UInt16} {clientSent received : TimeVal} :
      c.myTx = none → Handles c (.ok (.timeRequest id clientSent received)) c
  | hello {h : ClientHello} : Handles c (.ok (.hello h)) { c with reader := .cloning }
  | replies {tx : ChannelId} {id : UInt16} {clientSent received : TimeVal} :
      c.myTx = some tx →
      Handles c (.ok (.timeRequest id clientSent received))
        { c with reader := .replying tx id clientSent received }

theorem handles (c : Conn) (result : Outcome SessionOutput) :
    c.Handles result (c.handled result) := by
  cases result with
  | error fault =>
      cases fault with
      | error message => exact .fails
      | panicked reason => exact .panics
  | ok output =>
      cases output with
      | none => exact .goesOn
      | hello h => exact .hello
      | timeRequest id clientSent received =>
          cases hmyTx : c.myTx with
          | none =>
              simp only [handled, hmyTx]
              exact .unserved hmyTx
          | some tx =>
              have hhandled : c.handled (.ok (.timeRequest id clientSent received)) =
                  { c with reader := .replying tx id clientSent received } := by
                simp only [handled, hmyTx]
              rw [hhandled]
              exact .replies hmyTx

end Conn

namespace Net

variable {json : SerdeJson} {s s' : Net} {l : Label}

/-- The blocking sends of a reader: the message, and the reader once it is queued. -/
inductive Sends (s : Net) (k : ConnId) : ChannelId → Outbound → Conn → Prop where
  | settings {id : ClientId} {tx : ChannelId} {st : ServerSettings} :
      (s.conns k).reader = .greeting id tx (.sendSettings st) →
      Sends s k tx (.settings st) { s.conns k with reader := .greeting id tx .sendCodecHeader }
  | codecHeader {id : ClientId} {tx : ChannelId} :
      (s.conns k).reader = .greeting id tx .sendCodecHeader →
      Sends s k tx .codecHeader
        { s.conns k with reader := .reading, myId := some id, myTx := some tx }
  | reply {tx : ChannelId} {refersTo : UInt16} {clientSent received : TimeVal} :
      (s.conns k).reader = .replying tx refersTo clientSent received →
      Sends s k tx (.timeReply refersTo clientSent received)
        { s.conns k with reader := .reading }

/-- The inversion of a step: what its thread found, and the state it leaves. -/
inductive Act (json : SerdeJson) (s : Net) : Label → Net → Prop where
  | accept : Act json s .accept s.accept
  | read {k : ConnId} {bytes : List UInt8} {now : ℤ} {result : Outcome SessionOutput}
      {session : ServerSession} :
      (s.conns k).reader = .reading →
      (s.conns k).session.handleEvent json ((s.conns k).session.nextAction.event bytes)
        (.fromMicros now) = (result, session) →
      Act json s (.read k bytes now) (s.setConn k ({ s.conns k with session }.handled result))
  | readFails {k : ConnId} :
      (s.conns k).reader = .reading → Act json s (.readFails k) (s.setReader k .leaving)
  | spawn {k : ConnId} :
      (s.conns k).reader = .cloning →
      Act json s (.spawn k)
        { ((s.setReader k (.registering s.created)).setChannel s.created .new).setWriter
          s.created ⟨.receiving, 0, []⟩ with created := s.created + 1 }
  | cloneFails {k : ConnId} :
      (s.conns k).reader.Cloning → Act json s (.cloneFails k) (s.setReader k .leaving)
  | register {k : ConnId} {tx : ChannelId} :
      (s.conns k).reader = .registering tx → s.scan = none →
      Act json s (.register k)
        ({ s with registry := (s.registry.register tx k).2 }.setReader k
          (.greeting s.registry.nextId tx .currentSettings))
  | currentSettings {k : ConnId} {id : ClientId} {tx : ChannelId} :
      (s.conns k).reader = .greeting id tx .currentSettings →
      Act json s (.currentSettings k)
        (s.setReader k (.greeting id tx (.sendSettings s.registry.currentSettings)))
  | sent {k : ConnId} {tx : ChannelId} {msg : Outbound} {next : Conn}
      {c : Channel channelSlots Outbound} :
      s.Sends k tx msg next → (s.channels tx).Sent msg c →
      Act json s (.send k) ((s.setChannel tx c).setConn k next)
  | sendFails {k : ConnId} {tx : ChannelId} {msg : Outbound} {next : Conn} :
      s.Sends k tx msg next → (s.channels tx).connected = false →
      Act json s (.send k) (s.setReader k .leaving)
  | unregister {k : ConnId} {id : ClientId} :
      (s.conns k).reader = .leaving → (s.conns k).myId = some id → s.scan = none →
      Act json s (.leave k)
        ({ s with registry := s.registry.unregister id }.setConn k
          { s.conns k with reader := .stopped, myTx := none })
  | leave {k : ConnId} :
      (s.conns k).reader = .leaving → (s.conns k).myId = none →
      Act json s (.leave k) (s.setConn k { s.conns k with reader := .stopped, myTx := none })
  | recv {tx : ChannelId} {msg : Outbound} {c : Channel channelSlots Outbound} :
      (s.writers tx).state = .receiving → (s.channels tx).recv = some (msg, c) →
      Act json s (.recv tx)
        ((s.setChannel tx c).setWriter tx { s.writers tx with state := .writing msg })
  | wrote {tx : ChannelId} {now : ℤ} {msg : Outbound} {buf : List UInt8} :
      (s.writers tx).state = .writing msg →
      msg.asBuf json (s.writers tx).id (.fromMicros now) = .ok buf →
      Act json s (.write tx now)
        (s.setWriter tx ⟨.receiving, (s.writers tx).id + 1, (s.writers tx).written ++ [buf]⟩)
  | writePanics {tx : ChannelId} {now : ℤ} {msg : Outbound} {fault : Fault} :
      msg.asBuf json (s.writers tx).id (.fromMicros now) = .error fault →
      Act json s (.write tx now) (s.stopWriter tx)
  | writeFails {tx : ChannelId} : Act json s (.writeFails tx) (s.stopWriter tx)
  | hangup {tx : ChannelId} :
      (s.writers tx).state = .receiving → (s.channels tx).queue = [] → ¬ s.Held tx →
      Act json s (.hangup tx) (s.stopWriter tx)
  | storeVolume {volume : UInt8} :
      Act json s (.storeVolume volume)
        { s with
          registry := (s.registry.storeVolume volume).2
          pending := s.pending ++ (s.registry.storeVolume volume).1 }
  | settingsSent {tx : ChannelId} {st : ServerSettings} {c : Channel channelSlots Outbound} :
      (tx, st) ∈ s.pending → (s.channels tx).Sent (.settings st) c →
      Act json s (.sendSettings tx st)
        ({ s with pending := s.pending.erase (tx, st) }.setChannel tx c)
  | settingsDropped {tx : ChannelId} {st : ServerSettings} :
      (tx, st) ∈ s.pending → (s.channels tx).connected = false →
      Act json s (.sendSettings tx st) { s with pending := s.pending.erase (tx, st) }
  | startScan {chunk : EncodedChunk} {limit : ℤ} :
      s.scan = none → s.registry.wedgeLimit = some limit →
      Act json s (.startScan chunk)
        { s with scan := some ⟨chunk, limit, s.registry.clients.map Prod.fst, []⟩ }
  | offer {id : ClientId} {now later : ℤ} {scan : Scan} {h : ClientHandle} {result : SendResult}
      {c : Channel channelSlots Outbound} :
      s.scan = some scan → id ∈ scan.remaining → s.registry.get? id = some h →
      (s.channels h.tx).trySend (.chunk scan.chunk) = (result, c) →
      Act json s (.offer id now later)
        ({ s with
          registry := s.registry.setHandle id (h.offered scan.limit now later result).1
          scan := some { scan with
            remaining := scan.remaining.erase id
            wedged := if (h.offered scan.limit now later result).2 then scan.wedged ++ [id]
              else scan.wedged } }.setChannel h.tx c)
  | endScan {scan : Scan} :
      s.scan = some scan → scan.remaining = [] →
      Act json s .endScan { s with scan := none, wedged := s.wedged ++ scan.wedged }
  | disconnect {id : ClientId} :
      s.scan = none → id ∈ s.wedged →
      Act json s (.disconnect id)
        { s with registry := s.registry.disconnect id, wedged := s.wedged.erase id }

theorem guarded_eq_some {p : Prop} [Decidable p] {s s' : Net} :
    (if p then some s else none) = some s' ↔ p ∧ s = s' := by
  rw [Option.ite_none_right_eq_some, Option.some_inj]

theorem sendFrom_act {k : ConnId} {tx : ChannelId} {msg : Outbound} {next : Conn}
    (hsends : s.Sends k tx msg next) (h : s.sendFrom k tx msg next = some s') :
    Act json s (.send k) s' := by
  rw [sendFrom] at h
  split at h
  · rename_i hsend
    obtain rfl := Option.some.inj h
    exact .sent hsends (Channel.trySend_sent hsend)
  · cases h
  · rename_i hsend
    obtain rfl := Option.some.inj h
    exact .sendFails hsends (Channel.trySend_disconnected hsend).2

theorem send_act {k : ConnId} (h : s.send k = some s') : Act json s (.send k) s' := by
  rw [send] at h
  split at h
  · rename_i hreader
    exact sendFrom_act (.settings hreader) h
  · rename_i hreader
    exact sendFrom_act (.codecHeader hreader) h
  · rename_i hreader
    exact sendFrom_act (.reply hreader) h
  · cases h

theorem read_act {k : ConnId} {bytes : List UInt8} {now : ℤ}
    (h : s.read json k bytes now = some s') : Act json s (.read k bytes now) s' := by
  rw [read] at h
  split at h
  · rename_i hread
    rcases hevent : (s.conns k).session.handleEvent json
      ((s.conns k).session.nextAction.event bytes) (.fromMicros now) with ⟨result, session⟩
    rw [hevent] at h
    obtain rfl := Option.some.inj h
    exact .read hread.1 hevent
  · cases h

theorem offer_act {id : ClientId} {now later : ℤ} (h : s.offer id now later = some s') :
    Act json s (.offer id now later) s' := by
  rw [offer] at h
  split at h
  · rename_i scan hscan
    split at h
    · rename_i hmem
      split at h
      · rename_i handle hget
        rcases hsend : (s.channels handle.tx).trySend (.chunk scan.chunk) with ⟨result, c⟩
        rw [hsend] at h
        obtain rfl := Option.some.inj h
        exact .offer hscan hmem hget hsend
      · cases h
    · cases h
  · cases h

theorem step_act (h : s.step json l = some s') : Act json s l s' := by
  cases l with
  | accept =>
      obtain rfl := Option.some.inj h
      exact .accept
  | read k bytes now => exact read_act h
  | readFails k =>
      obtain ⟨hreader, rfl⟩ := guarded_eq_some.mp h
      exact .readFails hreader
  | spawn k =>
      obtain ⟨hreader, rfl⟩ := guarded_eq_some.mp h
      exact .spawn hreader
  | cloneFails k =>
      change s.cloneFails k = some s' at h
      rw [cloneFails] at h
      split at h
      · rename_i hreader
        obtain rfl := Option.some.inj h
        exact .cloneFails (by rw [hreader]; trivial)
      · rename_i hreader
        obtain rfl := Option.some.inj h
        exact .cloneFails (by rw [hreader]; trivial)
      · cases h
  | register k =>
      change s.register k = some s' at h
      rw [register] at h
      split at h
      · rename_i hreader
        obtain ⟨hscan, rfl⟩ := guarded_eq_some.mp h
        exact .register hreader hscan
      · cases h
  | currentSettings k =>
      change s.currentSettings k = some s' at h
      rw [currentSettings] at h
      split at h
      · rename_i hreader
        obtain ⟨-, rfl⟩ := guarded_eq_some.mp h
        exact .currentSettings hreader
      · cases h
  | send k => exact send_act h
  | leave k =>
      obtain ⟨hreader, h⟩ := Option.ite_none_right_eq_some.mp h
      split at h
      · rename_i hmyId
        obtain ⟨hscan, rfl⟩ := guarded_eq_some.mp h
        exact .unregister hreader hmyId hscan
      · rename_i hmyId
        obtain rfl := Option.some.inj h
        exact .leave hreader hmyId
  | recv tx =>
      obtain ⟨hstate, h⟩ := Option.ite_none_right_eq_some.mp h
      split at h
      · rename_i hrecv
        obtain rfl := Option.some.inj h
        exact .recv hstate hrecv
      · cases h
  | write tx now =>
      change s.write json tx now = some s' at h
      rw [write] at h
      split at h
      · rename_i hstate
        split at h
        · rename_i hbuf
          obtain rfl := Option.some.inj h
          exact .wrote hstate hbuf
        · rename_i hbuf
          obtain rfl := Option.some.inj h
          exact .writePanics hbuf
      · cases h
  | writeFails tx =>
      change s.writeFails tx = some s' at h
      rw [writeFails] at h
      split at h
      · obtain rfl := Option.some.inj h
        exact .writeFails
      · cases h
  | hangup tx =>
      obtain ⟨⟨hstate, hqueue, hheld⟩, rfl⟩ := guarded_eq_some.mp h
      exact .hangup hstate hqueue hheld
  | storeVolume volume =>
      obtain ⟨-, rfl⟩ := guarded_eq_some.mp h
      exact .storeVolume
  | sendSettings tx st =>
      obtain ⟨hmem, h⟩ := Option.ite_none_right_eq_some.mp h
      split at h
      · rename_i hsend
        obtain rfl := Option.some.inj h
        exact .settingsSent hmem (Channel.trySend_sent hsend)
      · cases h
      · rename_i hsend
        obtain rfl := Option.some.inj h
        exact .settingsDropped hmem (Channel.trySend_disconnected hsend).2
  | startScan chunk =>
      obtain ⟨hscan, h⟩ := Option.ite_none_right_eq_some.mp h
      obtain ⟨limit, hlimit, h⟩ := Option.bind_eq_some_iff.mp h
      obtain rfl := Option.some.inj h
      exact .startScan hscan hlimit
  | offer id now later => exact offer_act h
  | endScan =>
      change s.endScan = some s' at h
      rw [endScan] at h
      split at h
      · rename_i hscan
        obtain ⟨hremaining, rfl⟩ := guarded_eq_some.mp h
        exact .endScan hscan hremaining
      · cases h
  | disconnect id =>
      obtain ⟨⟨hscan, hmem⟩, rfl⟩ := guarded_eq_some.mp h
      exact .disconnect hscan hmem

/-- The steps by what they change. -/
inductive Effect (s : Net) : Label → Net → Prop where
  | accept : Effect s .accept s.accept
  /-- A reader outside a greeting goes on, or gives up. -/
  | goesOn {l : Label} {k : ConnId} {session : ServerSession} {reader : Reader} :
      (s.conns k).reader.Between → reader.Between → (∀ tx, reader ≠ .registering tx) →
      Effect s l (s.setConn k { s.conns k with session, reader })
  | spawn {k : ConnId} :
      (s.conns k).reader = .cloning →
      Effect s (.spawn k)
        { ((s.setReader k (.registering s.created)).setChannel s.created .new).setWriter
          s.created ⟨.receiving, 0, []⟩ with created := s.created + 1 }
  | register {k : ConnId} {tx : ChannelId} :
      (s.conns k).reader = .registering tx →
      Effect s (.register k)
        ({ s with registry := (s.registry.register tx k).2 }.setReader k
          (.greeting s.registry.nextId tx .currentSettings))
  | currentSettings {k : ConnId} {id : ClientId} {tx : ChannelId} :
      (s.conns k).reader = .greeting id tx .currentSettings →
      Effect s (.currentSettings k)
        (s.setReader k (.greeting id tx (.sendSettings s.registry.currentSettings)))
  | sent {k : ConnId} {tx : ChannelId} {msg : Outbound} {next : Conn}
      {c : Channel channelSlots Outbound} :
      s.Sends k tx msg next → (s.channels tx).Sent msg c →
      Effect s (.send k) ((s.setChannel tx c).setConn k next)
  | sendFails {k : ConnId} {tx : ChannelId} {msg : Outbound} {next : Conn} :
      s.Sends k tx msg next → (s.channels tx).connected = false →
      Effect s (.send k) (s.setReader k .leaving)
  | unregister {k : ConnId} {id : ClientId} :
      (s.conns k).reader = .leaving → (s.conns k).myId = some id →
      Effect s (.leave k)
        ({ s with registry := s.registry.unregister id }.setConn k
          { s.conns k with reader := .stopped, myTx := none })
  | leave {k : ConnId} :
      (s.conns k).reader = .leaving → (s.conns k).myId = none →
      Effect s (.leave k) (s.setConn k { s.conns k with reader := .stopped, myTx := none })
  | recv {tx : ChannelId} {msg : Outbound} {c : Channel channelSlots Outbound} {w : Writer} :
      (s.channels tx).recv = some (msg, c) →
      Effect s (.recv tx) ((s.setChannel tx c).setWriter tx w)
  | wrote {l : Label} {tx : ChannelId} {w : Writer} : Effect s l (s.setWriter tx w)
  | stopWriter {l : Label} {tx : ChannelId} : Effect s l (s.stopWriter tx)
  | storeVolume {volume : UInt8} :
      Effect s (.storeVolume volume)
        { s with
          registry := (s.registry.storeVolume volume).2
          pending := s.pending ++ (s.registry.storeVolume volume).1 }
  | settingsSent {tx : ChannelId} {st : ServerSettings} {c : Channel channelSlots Outbound} :
      (tx, st) ∈ s.pending → (s.channels tx).Sent (.settings st) c →
      Effect s (.sendSettings tx st)
        ({ s with pending := s.pending.erase (tx, st) }.setChannel tx c)
  | settingsDropped {tx : ChannelId} {st : ServerSettings} :
      (s.channels tx).connected = false →
      Effect s (.sendSettings tx st) { s with pending := s.pending.erase (tx, st) }
  | chunkSent {id : ClientId} {now later : ℤ} {h : ClientHandle} {ec : EncodedChunk}
      {c : Channel channelSlots Outbound} {registry : Registry} {scan : Option Scan} :
      s.registry.get? id = some h → (s.channels h.tx).Sent (.chunk ec) c →
      s.registry.Shrinks registry → registry.currentSettings = s.registry.currentSettings →
      Effect s (.offer id now later) ({ s with registry, scan }.setChannel h.tx c)
  /-- The rest of `broadcast_chunk`. -/
  | scans {l : Label} {registry : Registry} {scan : Option Scan} {wedged : List ClientId} :
      s.registry.Shrinks registry → registry.currentSettings = s.registry.currentSettings →
      Effect s l { s with registry, scan, wedged }

/-- Whatever a packet asks for, its reader goes on outside a greeting. -/
theorem handled_spec {c : Conn} (hc : c.reader = .reading) {x : Outcome SessionOutput}
    (hx : Returns x) :
    ∃ reader, c.handled x = { c with reader } ∧ reader.Between ∧
      ∀ tx, reader ≠ .registering tx := by
  have hhandles := c.handles x
  generalize c.handled x = c' at hhandles
  cases hhandles with
  | fails => exact ⟨.leaving, rfl, trivial, by simp⟩
  | panics => exact absurd rfl (hx _)
  | goesOn => exact ⟨c.reader, rfl, by rw [hc]; trivial, by simp [hc]⟩
  | unserved hmyTx => exact ⟨c.reader, rfl, by rw [hc]; trivial, by simp [hc]⟩
  | hello => exact ⟨.cloning, rfl, trivial, by simp⟩
  | replies hmyTx => exact ⟨.replying _ _ _ _, rfl, trivial, by simp⟩

theorem Act.effect (h : Act json s l s') : Effect s l s' := by
  cases h with
  | accept => exact .accept
  | @read k bytes now result session hreader hevent =>
      have hreturns := (s.conns k).session.returns_handleEvent json bytes (.fromMicros now)
      rw [hevent] at hreturns
      obtain ⟨reader, hhandled, hbetween, hnot⟩ :=
        handled_spec (c := { s.conns k with session }) hreader hreturns
      rw [hhandled]
      exact .goesOn (by rw [hreader]; trivial) hbetween hnot
  | readFails hreader => exact .goesOn (by rw [hreader]; trivial) trivial (by simp)
  | spawn hreader => exact .spawn hreader
  | cloneFails hreader => exact .goesOn hreader.between trivial (by simp)
  | register hreader hscan => exact .register hreader
  | currentSettings hreader => exact .currentSettings hreader
  | sent hsends hsent => exact .sent hsends hsent
  | sendFails hsends hconnected => exact .sendFails hsends hconnected
  | unregister hreader hmyId hscan => exact .unregister hreader hmyId
  | leave hreader hmyId => exact .leave hreader hmyId
  | recv hstate hrecv => exact .recv hrecv
  | wrote hstate hbuf => exact .wrote
  | writePanics hbuf => exact .stopWriter
  | writeFails => exact .stopWriter
  | hangup hstate hqueue hheld => exact .stopWriter
  | storeVolume => exact .storeVolume
  | settingsSent hmem hsent => exact .settingsSent hmem hsent
  | settingsDropped hmem hconnected => exact .settingsDropped hconnected
  | startScan hscan hlimit => exact .scans (.refl _) rfl
  | @offer id now later scan handle result c hscan hmem hget hsend =>
      have hshrinks := Registry.shrinks_setHandle (Registry.mem_of_get? hget)
        (handle.offered_tx scan.limit now later result)
        (handle.offered_sock scan.limit now later result)
      cases result with
      | sent => exact .chunkSent hget (Channel.trySend_sent hsend) hshrinks rfl
      | full =>
          obtain rfl := Channel.trySend_full hsend
          simp only [setChannel, Function.update_eq_self]
          exact .scans hshrinks rfl
      | disconnected =>
          obtain ⟨rfl, -⟩ := Channel.trySend_disconnected hsend
          simp only [setChannel, Function.update_eq_self]
          exact .scans hshrinks rfl
  | endScan hscan hremaining => exact .scans (.refl _) rfl
  | disconnect hscan hmem => exact .scans (s.registry.shrinks_remove _) rfl

theorem step_effect (h : s.step json l = some s') : Effect s l s' :=
  (step_act h).effect

/-! ## Names are not reused -/

/-- Every channel and every id in use was handed out, and a client being greeted has the
queue and the connection of its reader. -/
structure Wired (s : Net) : Prop where
  absent : ∀ k, s.accepted ≤ k → (s.conns k).reader = .stopped
  entry : ∀ id h, (id, h) ∈ s.registry.clients → h.tx < s.created
  registering : ∀ k tx, (s.conns k).reader = .registering tx → tx < s.created
  greeting : ∀ k id tx stage, (s.conns k).reader = .greeting id tx stage →
    tx < s.created ∧ id < s.registry.nextId ∧
      ∀ h, (id, h) ∈ s.registry.clients → h.tx = tx ∧ h.sock = k

/-- A reader starts no thread and takes no new name. -/
structure Follows (reader reader' : Reader) : Prop where
  stopped : reader = .stopped → reader' = .stopped
  registering : ∀ tx, reader' = .registering tx → reader = .registering tx
  greeting : ∀ id tx stage, reader' = .greeting id tx stage →
    ∃ stage, reader = .greeting id tx stage

theorem Follows.refl (reader : Reader) : Follows reader reader :=
  ⟨id, fun _ h => h, fun _ _ stage h => ⟨stage, h⟩⟩

/-- A greeting goes from one stage to another. -/
theorem follows_stage (id : ClientId) (tx : ChannelId) (stage stage' : Greeting) :
    Follows (.greeting id tx stage) (.greeting id tx stage') := by
  refine ⟨by simp, by simp, ?_⟩
  intro id' tx' stage₁ h
  obtain ⟨rfl, rfl, -⟩ := Reader.greeting.inj h
  exact ⟨stage, rfl⟩

theorem follows_of_between {reader reader' : Reader} (h : reader ≠ .stopped)
    (h' : ∀ tx, reader' ≠ .registering tx) (hgreets : reader'.greets = none) :
    Follows reader reader' := by
  refine ⟨fun hstopped => absurd hstopped h, fun tx htx => absurd htx (h' tx), ?_⟩
  rintro id tx stage rfl
  cases hgreets

theorem follows_setConn {k : ConnId} {c : Conn} (h : Follows (s.conns k).reader c.reader)
    (j : ConnId) : Follows (s.conns j).reader ((s.setConn k c).conns j).reader := by
  by_cases hj : j = k
  · subst hj
    simpa [setConn] using h
  · simpa [setConn, hj] using Follows.refl _

/-- Steps that start no thread and take no new name keep the names in order. -/
theorem Wired.of_follows (hw : s.Wired) (hregistry : s.registry.Shrinks s'.registry)
    (haccepted : s'.accepted = s.accepted) (hcreated : s'.created = s.created)
    (hreader : ∀ k, Follows (s.conns k).reader (s'.conns k).reader) : s'.Wired where
  absent k hk := (hreader k).stopped (hw.absent k (haccepted ▸ hk))
  entry id h hmem := by
    obtain ⟨h₀, hmem₀, htx, -⟩ := hregistry.entry id h hmem
    rw [htx, hcreated]
    exact hw.entry id h₀ hmem₀
  registering k tx hk := hcreated ▸ hw.registering k tx ((hreader k).registering tx hk)
  greeting k id tx stage hk := by
    obtain ⟨stage₀, hk₀⟩ := (hreader k).greeting id tx stage hk
    obtain ⟨htx, hid, hhandle⟩ := hw.greeting k id tx stage₀ hk₀
    refine ⟨hcreated ▸ htx, hregistry.nextId ▸ hid, ?_⟩
    intro h hmem
    obtain ⟨h₀, hmem₀, htx₀, hsock₀⟩ := hregistry.entry id h hmem
    rw [htx₀, hsock₀]
    exact hhandle h₀ hmem₀

theorem Sends.follows {k : ConnId} {tx : ChannelId} {msg : Outbound} {next : Conn}
    (h : s.Sends k tx msg next) : Follows (s.conns k).reader next.reader := by
  cases h with
  | settings hreader => exact hreader ▸ follows_stage ..
  | codecHeader hreader => exact follows_of_between (by simp [hreader]) (by simp) rfl
  | reply hreader => exact follows_of_between (by simp [hreader]) (by simp) rfl

theorem Sends.ne_stopped {k : ConnId} {tx : ChannelId} {msg : Outbound} {next : Conn}
    (h : s.Sends k tx msg next) : (s.conns k).reader ≠ .stopped := by
  cases h with
  | settings hreader => simp [hreader]
  | codecHeader hreader => simp [hreader]
  | reply hreader => simp [hreader]

theorem Wired.lt_accepted (hw : s.Wired) {k : ConnId} (h : (s.conns k).reader ≠ .stopped) :
    k < s.accepted := by
  by_contra hk
  exact h (hw.absent k (Nat.le_of_not_lt hk))

/-- A step of one reader keeps the names in order if the reader's names are, and if no entry
goes over to another reader. -/
theorem Wired.of_update (hw : s.Wired) {k : ConnId} {c : Conn}
    (hconns : s'.conns = Function.update s.conns k c)
    (haccepted : s.accepted ≤ s'.accepted) (hk : k < s'.accepted)
    (hcreated : s.created ≤ s'.created) (hnextId : s.registry.nextId ≤ s'.registry.nextId)
    (hentry : ∀ id h, (id, h) ∈ s'.registry.clients →
      (id, h) ∈ s.registry.clients ∨ id = s.registry.nextId ∧ h.tx < s'.created)
    (hregistering : ∀ tx, c.reader = .registering tx → tx < s'.created)
    (hgreeting : ∀ id tx stage, c.reader = .greeting id tx stage →
      tx < s'.created ∧ id < s'.registry.nextId ∧
        ∀ h, (id, h) ∈ s'.registry.clients → h.tx = tx ∧ h.sock = k) : s'.Wired := by
  have hself : s'.conns k = c := by rw [hconns, Function.update_self]
  have hother (j : ConnId) (hj : j ≠ k) : s'.conns j = s.conns j := by
    rw [hconns, Function.update_of_ne hj]
  refine ⟨?_, ?_, ?_, ?_⟩
  · intro j hj
    rw [hother j (Nat.ne_of_gt (hk.trans_le hj))]
    exact hw.absent j (haccepted.trans hj)
  · intro id h hmem
    rcases hentry id h hmem with hmem | ⟨-, htx⟩
    · exact (hw.entry id h hmem).trans_le hcreated
    · exact htx
  · intro j tx h
    by_cases hj : j = k
    · exact hregistering tx (by rw [← hself, ← hj, h])
    · exact (hw.registering j tx (hother j hj ▸ h)).trans_le hcreated
  · intro j id tx stage h
    by_cases hj : j = k
    · rw [hj]
      exact hgreeting id tx stage (by rw [← hself, ← hj, h])
    · obtain ⟨htx, hid, hhandle⟩ := hw.greeting j id tx stage (hother j hj ▸ h)
      refine ⟨htx.trans_le hcreated, hid.trans_le hnextId, ?_⟩
      intro handle hmem
      rcases hentry id handle hmem with hmem | ⟨rfl, -⟩
      · exact hhandle handle hmem
      · exact absurd hid (Nat.lt_irrefl _)

theorem Wired.accept (hw : s.Wired) : s.accept.Wired :=
  hw.of_update (k := s.accepted) (c := .new) rfl (Nat.le_succ _) (Nat.lt_succ_self _) le_rfl le_rfl
    (fun _ _ hmem => .inl hmem) (by simp [Conn.new]) (by simp [Conn.new])

theorem Wired.spawn (hw : s.Wired) {k : ConnId} (hreader : (s.conns k).reader = .cloning) :
    Wired { ((s.setReader k (.registering s.created)).setChannel s.created .new).setWriter
      s.created ⟨.receiving, 0, []⟩ with created := s.created + 1 } := by
  refine hw.of_update (k := k) rfl le_rfl (hw.lt_accepted (by simp [hreader])) (Nat.le_succ _)
    le_rfl (fun _ _ hmem => .inl hmem) ?_ (by simp)
  intro tx h
  rw [← Reader.registering.inj h]
  exact Nat.lt_succ_self _

theorem Wired.register (hw : s.Wired) {k : ConnId} {tx : ChannelId}
    (hreader : (s.conns k).reader = .registering tx) :
    ({ s with registry := (s.registry.register tx k).2 }.setReader k
      (.greeting s.registry.nextId tx .currentSettings)).Wired := by
  have htx := hw.registering k tx hreader
  refine hw.of_update (k := k) rfl le_rfl (hw.lt_accepted (by simp [hreader])) le_rfl
    (Nat.le_succ _) ?_ (by simp) ?_
  · intro id h hmem
    rcases Registry.mem_register.mp hmem with hmem | ⟨rfl, rfl⟩
    · exact .inl hmem
    · exact .inr ⟨rfl, htx⟩
  · intro id tx' stage h
    obtain ⟨rfl, rfl, -⟩ := Reader.greeting.inj h
    refine ⟨htx, Nat.lt_succ_self _, ?_⟩
    intro handle hmem
    rcases Registry.mem_register.mp hmem with hmem | ⟨-, rfl⟩
    · exact absurd rfl (Registry.id_ne_nextId hmem)
    · exact ⟨rfl, rfl⟩

/-- The three steps that start a thread or take a new name, and the rest. -/
inductive Naming (s : Net) : Label → Net → Prop where
  | accept : Naming s .accept s.accept
  | spawn {k : ConnId} :
      (s.conns k).reader = .cloning →
      Naming s (.spawn k)
        { ((s.setReader k (.registering s.created)).setChannel s.created .new).setWriter
          s.created ⟨.receiving, 0, []⟩ with created := s.created + 1 }
  | register {k : ConnId} {tx : ChannelId} :
      (s.conns k).reader = .registering tx →
      Naming s (.register k)
        ({ s with registry := (s.registry.register tx k).2 }.setReader k
          (.greeting s.registry.nextId tx .currentSettings))
  | keeps {l : Label} {s' : Net} :
      s.registry.Shrinks s'.registry → s'.accepted = s.accepted → s'.created = s.created →
      (∀ k, Follows (s.conns k).reader (s'.conns k).reader) → Naming s l s'

theorem Effect.naming (h : Effect s l s') : Naming s l s' := by
  have hrefl := Registry.Shrinks.refl s.registry
  cases h with
  | accept => exact .accept
  | spawn hreader => exact .spawn hreader
  | register hreader => exact .register hreader
  | goesOn hbetween hbetween' hnot =>
      exact .keeps hrefl rfl rfl
        (follows_setConn (follows_of_between hbetween.ne_stopped hnot hbetween'.greets_eq_none))
  | currentSettings hreader =>
      exact .keeps hrefl rfl rfl (follows_setConn (hreader ▸ follows_stage ..))
  | sent hsends hsent =>
      exact .keeps hrefl rfl rfl (follows_setConn (s := s.setChannel _ _) hsends.follows)
  | sendFails hsends hconnected =>
      exact .keeps hrefl rfl rfl
        (follows_setConn (follows_of_between hsends.ne_stopped (by simp) rfl))
  | unregister hreader hmyId =>
      exact .keeps (s.registry.shrinks_remove _) rfl rfl
        (follows_setConn (follows_of_between (by simp [hreader]) (by simp) rfl))
  | leave hreader hmyId =>
      exact .keeps hrefl rfl rfl
        (follows_setConn (follows_of_between (by simp [hreader]) (by simp) rfl))
  | storeVolume => exact .keeps (s.registry.shrinks_storeVolume _) rfl rfl fun _ => .refl _
  | chunkSent hget hsent hshrinks hsettings => exact .keeps hshrinks rfl rfl fun _ => .refl _
  | scans hshrinks hsettings => exact .keeps hshrinks rfl rfl fun _ => .refl _
  | _ => exact .keeps hrefl rfl rfl fun _ => .refl _

theorem Effect.wired (hw : s.Wired) (h : Effect s l s') : s'.Wired := by
  cases h.naming with
  | accept => exact hw.accept
  | spawn hreader => exact hw.spawn hreader
  | register hreader => exact hw.register hreader
  | keeps hregistry haccepted hcreated hreader =>
      exact hw.of_follows hregistry haccepted hcreated hreader

variable {bufferMs : UInt32} {initialVolume : UInt8}

theorem wired_new : (new bufferMs initialVolume).Wired where
  absent _ _ := rfl
  entry _ _ hmem := by cases hmem
  registering _ _ h := by cases h
  greeting _ _ _ _ h := by cases h

theorem reach_wired {ok : Net → Label → Prop}
    (h : (system json bufferMs initialVolume).Reach ok s) : s.Wired := by
  refine h.invariant ?_ ?_
  · rintro s rfl
    exact wired_new
  · intro s l s' hw _ hstep
    exact (step_effect hstep).wired hw

/-! ## Counters -/

theorem Act.counted {n : ℕ} (hs : s.registry.Counted n) (h : Act json s l s') :
    s'.registry.Counted (n + 1) := by
  cases h with
  | register hreader => exact hs.register _ _
  | unregister hreader => exact (hs.remove _).succ
  | disconnect hscan => exact (hs.remove _).succ
  | offer hscan hmem hget =>
      exact hs.setHandle (Registry.mem_of_get? hget) (ClientHandle.offered_dropped_le ..)
  | storeVolume => exact ⟨hs.succ.nextId, hs.succ.dropped⟩
  | _ => exact hs.succ

/-- The next id and every dropped count are at most the number of steps taken, so the 64 bits
that the code has for them are not exceeded in fewer than `2 ^ 64` steps. -/
theorem counted_of_path {s₀ : Net} {ls : List Label}
    (hpath : (system json bufferMs initialVolume).Path s₀ ls s)
    (hinit : (system json bufferMs initialVolume).Init s₀) : s.registry.Counted ls.length := by
  obtain rfl := hinit
  have hzero : (new bufferMs initialVolume).registry.Counted 0 := ⟨le_rfl, nofun⟩
  have hcounted := hpath.counted (P := fun n s => s.registry.Counted n)
    (fun n s l s' hs hstep => (step_act hstep).counted hs) hzero
  rwa [Nat.zero_add] at hcounted

/-! ## Queues only grow -/

/-- A channel in use loses nothing while its receiver is there. -/
theorem Effect.grows (h : Effect s l s') {tx : ChannelId} (htx : tx < s.created) :
    (s.channels tx).Grows (s'.channels tx) := by
  have hupdate (t : ChannelId) (c : Channel channelSlots Outbound)
      (hc : (s.channels t).Grows c) :
      (s.channels tx).Grows (Function.update s.channels t c tx) := by
    by_cases ht : tx = t
    · subst ht
      rwa [Function.update_self]
    · rw [Function.update_of_ne ht]
      exact .refl _
  cases h with
  | spawn hreader =>
      have hne : tx ≠ s.created := Nat.ne_of_lt htx
      simpa [setWriter, setChannel, setReader, setConn, hne] using Channel.Grows.refl _
  | sent hsends hsent => exact hupdate _ _ hsent.grows
  | recv hrecv => exact hupdate _ _ (Channel.grows_of_recv hrecv)
  | stopWriter => exact hupdate _ _ (Channel.grows_close _)
  | settingsSent hmem hsent => exact hupdate _ _ hsent.grows
  | chunkSent hget hsent hshrinks hsettings => exact hupdate _ _ hsent.grows
  | _ => exact .refl _

/-- Who queues which message. -/
inductive Queues (s : Net) : Label → ChannelId → Outbound → Prop where
  | reader {k : ConnId} {tx : ChannelId} {msg : Outbound} {next : Conn} :
      s.Sends k tx msg next → Queues s (.send k) tx msg
  | settings {tx : ChannelId} {st : ServerSettings} :
      (tx, st) ∈ s.pending → Queues s (.sendSettings tx st) tx (.settings st)
  | chunk {id : ClientId} {now later : ℤ} {h : ClientHandle} {ec : EncodedChunk} :
      s.registry.get? id = some h → Queues s (.offer id now later) h.tx (.chunk ec)

/-- A step queues at most one message on a channel. -/
theorem Effect.queues (h : Effect s l s') (tx : ChannelId) :
    (s'.channels tx).history <+: (s.channels tx).history ∨
      ∃ msg, s.Queues l tx msg ∧ (s.channels tx).Sent msg (s'.channels tx) := by
  have hfront (t : ChannelId) (c : Channel channelSlots Outbound)
      (hc : c.history <+: (s.channels t).history) :
      (Function.update s.channels t c tx).history <+: (s.channels tx).history := by
    by_cases ht : tx = t
    · subst ht
      rwa [Function.update_self]
    · rw [Function.update_of_ne ht]
  have hsent (t : ChannelId) (msg : Outbound) (c : Channel channelSlots Outbound)
      (hqueues : s.Queues l t msg) (hc : (s.channels t).Sent msg c) :
      (Function.update s.channels t c tx).history <+: (s.channels tx).history ∨
        ∃ msg, s.Queues l tx msg ∧
          (s.channels tx).Sent msg (Function.update s.channels t c tx) := by
    by_cases ht : tx = t
    · subst ht
      rw [Function.update_self]
      exact .inr ⟨msg, hqueues, hc⟩
    · rw [Function.update_of_ne ht]
      exact .inl List.prefix_rfl
  cases h with
  | spawn hreader => exact .inl (hfront _ _ List.nil_prefix)
  | sent hsends hc => exact hsent _ _ _ (.reader hsends) hc
  | recv hrecv => exact .inl (hfront _ _ ((Channel.recv_spec hrecv).1 ▸ List.prefix_rfl))
  | stopWriter =>
      refine .inl (hfront _ _ ?_)
      rw [Channel.history_close]
      exact Channel.taken_prefix_history _
  | settingsSent hmem hc => exact hsent _ _ _ (.settings hmem) hc
  | chunkSent hget hc hshrinks hsettings => exact hsent _ _ _ (.chunk hget) hc
  | _ => exact .inl List.prefix_rfl

/-! ## The course of a greeting -/

/-- A reader in a greeting entered it by registering. -/
theorem Effect.of_greeting (h : Effect s l s') {k : ConnId} {id : ClientId} {tx : ChannelId}
    {stage : Greeting} (hreader : (s'.conns k).reader = .greeting id tx stage) :
    stage = .currentSettings ∨ ∃ stage, (s.conns k).reader = .greeting id tx stage := by
  cases h.naming with
  | accept =>
      by_cases hk : k = s.accepted
      · simp [hk, Net.accept, setConn, Conn.new] at hreader
      · exact .inr ⟨stage, by simpa [Net.accept, setConn, hk] using hreader⟩
  | @spawn j hcloning =>
      by_cases hk : k = j
      · simp [hk, setWriter, setChannel, setReader, setConn] at hreader
      · exact .inr ⟨stage, by simpa [setWriter, setChannel, setReader, setConn, hk] using hreader⟩
  | @register j tx' hregistering =>
      by_cases hk : k = j
      · have hreader : Reader.greeting s.registry.nextId tx' .currentSettings =
            .greeting id tx stage := by simpa [hk, setReader, setConn] using hreader
        exact .inl (Reader.greeting.inj hreader).2.2.symm
      · exact .inr ⟨stage, by simpa [setReader, setConn, hk] using hreader⟩
  | keeps hregistry haccepted hcreated hfollows =>
      exact .inr ((hfollows k).greeting id tx stage hreader)

/-- An entry was there before, or its reader has just registered it. -/
theorem Effect.of_entry (h : Effect s l s') {id : ClientId} {handle : ClientHandle}
    (hmem : (id, handle) ∈ s'.registry.clients) :
    (∃ h₀, (id, h₀) ∈ s.registry.clients ∧ handle.tx = h₀.tx ∧ handle.sock = h₀.sock) ∨
      (s'.conns handle.sock).reader = .greeting id handle.tx .currentSettings := by
  cases h.naming with
  | accept => exact .inl ⟨handle, hmem, rfl, rfl⟩
  | spawn hcloning => exact .inl ⟨handle, hmem, rfl, rfl⟩
  | register hregistering =>
      rcases Registry.mem_register.mp hmem with hmem | ⟨rfl, rfl⟩
      · exact .inl ⟨handle, hmem, rfl, rfl⟩
      · exact .inr (by simp [setReader, setConn])
  | keeps hregistry haccepted hcreated hfollows => exact .inl (hregistry.entry id handle hmem)

/-- What a step does to a reader that greets a client. -/
inductive Progress (s : Net) (l : Label) (s' : Net) (k : ConnId) (id : ClientId)
    (tx : ChannelId) : Greeting → Prop where
  | waits {stage : Greeting} :
      (s'.conns k).reader = .greeting id tx stage → Progress s l s' k id tx stage
  | current :
      (s'.conns k).reader = .greeting id tx (.sendSettings s.registry.currentSettings) →
      Progress s l s' k id tx .currentSettings
  | settings {st : ServerSettings} :
      l = .send k → s'.registry = s.registry → s'.pending = s.pending →
      (s'.conns k).reader = .greeting id tx .sendCodecHeader →
      (s.channels tx).Sent (.settings st) (s'.channels tx) →
      Progress s l s' k id tx (.sendSettings st)
  | codecHeader :
      (s'.conns k).reader = .reading → (s.channels tx).Sent .codecHeader (s'.channels tx) →
      Progress s l s' k id tx .sendCodecHeader
  | gaveUp {stage : Greeting} :
      (s'.channels tx).connected = false → Progress s l s' k id tx stage

theorem Effect.progress (hw : s.Wired) (h : Effect s l s') {k : ConnId} {id : ClientId}
    {tx : ChannelId} {stage : Greeting} (hreader : (s.conns k).reader = .greeting id tx stage) :
    Progress s l s' k id tx stage := by
  have hwaits (j : ConnId) (c : Conn) (hj : j ≠ k) :
      (Function.update s.conns j c k).reader = .greeting id tx stage := by
    rwa [Function.update_of_ne hj.symm]
  cases h with
  | accept =>
      refine .waits (hwaits _ _ ?_)
      rintro rfl
      simp [hw.absent _ le_rfl] at hreader
  | goesOn hbetween hbetween' hnot =>
      refine .waits (hwaits _ _ ?_)
      rintro rfl
      simp [hreader, Reader.Between] at hbetween
  | spawn hcloning =>
      refine .waits (hwaits _ _ ?_)
      rintro rfl
      simp [hreader] at hcloning
  | register hregistering =>
      refine .waits (hwaits _ _ ?_)
      rintro rfl
      simp [hreader] at hregistering
  | @currentSettings j id' tx' hcurrent =>
      by_cases hj : j = k
      · subst hj
        obtain ⟨rfl, rfl, rfl⟩ := Reader.greeting.inj (hreader.symm.trans hcurrent)
        exact .current (by simp [setReader, setConn])
      · exact .waits (hwaits _ _ hj)
  | @sent j tx' msg next c hsends hsent =>
      by_cases hj : j = k
      · subst hj
        cases hsends with
        | settings hsettings =>
            obtain ⟨rfl, rfl, rfl⟩ := Reader.greeting.inj (hreader.symm.trans hsettings)
            exact .settings rfl rfl rfl (by simp [setConn])
              (by simpa [setChannel, setConn] using hsent)
        | codecHeader hheader =>
            obtain ⟨rfl, rfl, rfl⟩ := Reader.greeting.inj (hreader.symm.trans hheader)
            exact .codecHeader (by simp [setConn]) (by simpa [setChannel, setConn] using hsent)
        | reply hreply => simp [hreader] at hreply
      · exact .waits (hwaits _ _ hj)
  | @sendFails j tx' msg next hsends hconnected =>
      by_cases hj : j = k
      · subst hj
        refine .gaveUp ?_
        cases hsends with
        | settings hsettings =>
            obtain ⟨-, rfl, -⟩ := Reader.greeting.inj (hreader.symm.trans hsettings)
            exact hconnected
        | codecHeader hheader =>
            obtain ⟨-, rfl, -⟩ := Reader.greeting.inj (hreader.symm.trans hheader)
            exact hconnected
        | reply hreply => simp [hreader] at hreply
      · exact .waits (hwaits _ _ hj)
  | unregister hleaving hmyId =>
      refine .waits (hwaits _ _ ?_)
      rintro rfl
      simp [hreader] at hleaving
  | leave hleaving hmyId =>
      refine .waits (hwaits _ _ ?_)
      rintro rfl
      simp [hreader] at hleaving
  | _ => exact .waits hreader

/-! ## Executed runs -/

/-- Reading a header leaves the reader waiting for its payload. -/
theorem read_header (json : SerdeJson) {k : ConnId} (frame : Frame) (now : ℤ)
    (hreader : (s.conns k).reader = .reading) (hframing : (s.conns k).session.framing = .new) :
    s.read json k frame.header now =
      some (s.setConn k { s.conns k with session := (s.conns k).session.pending frame.base }) := by
  have haction : (s.conns k).session.nextAction = .readHeader := by
    rw [ServerSession.nextAction, hframing]
    rfl
  have hlen : frame.header.length = Action.readHeader.bytes := frame.header_length
  simp only [read, hreader, haction, hlen, and_self, if_true, Action.event,
    ServerSession.handleEvent_header]
  rfl

/-- Reading a greeting that decodes leaves the reader about to greet the client. -/
theorem read_hello {k : ConnId} (frame : Frame) (now : ℤ) {session : ServerSession}
    {h : ClientHello} (hmtype : frame.base.mtype = .hello)
    (hdecode : ClientHello.tryFrom json frame.payload = .ok h)
    (hreader : (s.conns k).reader = .reading)
    (hsession : (s.conns k).session = session.pending frame.base) :
    s.read json k frame.payload now =
      some (s.setConn k { s.conns k with session := ⟨.new, true⟩, reader := .cloning }) := by
  have haction : (session.pending frame.base).nextAction = .readPacket frame.base.size := rfl
  have hlen : frame.payload.length = (Action.readPacket frame.base.size).bytes :=
    frame.payload_length
  have hevent : (session.pending frame.base).handleEvent json (.packetReceived frame.payload)
      (.fromMicros now) = (.ok (.hello h), ⟨.new, true⟩) := by
    simp only [ServerSession.handleEvent, ServerSession.pending, Framing.takeBase, Base.decodeC,
      hmtype, hdecode]
    rfl
  simp only [read, hreader, hsession, haction, hlen, and_self, if_true, Action.event, hevent]
  rfl

/-- The two reads of a greeting. -/
def helloLabels (k : ConnId) (h : ClientHello) : List Label :=
  let text := (h.mapStrings escape).text
  [.read k (ClientHello.base text).header 0, .read k (ClientHello.encode text) 0]

/-- A greeting without special characters leaves its reader about to greet the client. -/
theorem run_helloLabels (hjson : json.HelloLaws) {h : ClientHello} (hplain : h.Plain)
    (hfits : (ClientHello.encode (h.mapStrings escape).text).length ≤ Base.maxPayload)
    {ok : Net → Label → Bool} {k : ConnId} (hok : ∀ s bytes, ok s (.read k bytes 0) = true)
    (hreader : (s.conns k).reader = .reading) (hframing : (s.conns k).session.framing = .new)
    (labels : List Label) :
    TransitionSystem.run (step json) ok (helloLabels k h ++ labels) s =
      TransitionSystem.run (step json) ok labels
        (s.setConn k { s.conns k with session := ⟨.new, true⟩, reader := .cloning }) := by
  let frame := Frame.ofBase (ClientHello.base (h.mapStrings escape).text)
    (ClientHello.encode (h.mapStrings escape).text)
    (toNat_ofNat_length (lt_size_of_le_maxPayload hfits)).symm hfits
  have hdecode : ClientHello.tryFrom json frame.payload = .ok h := by
    refine (ClientHello.tryFrom_encode_iff hjson h ?_).mpr hplain
    rw [ClientHello.encode_length] at hfits
    omega
  have hheader := read_header json frame 0 hreader hframing
  set s₁ := s.setConn k { s.conns k with session := (s.conns k).session.pending frame.base }
    with hs₁
  have hk : s₁.conns k = { s.conns k with session := (s.conns k).session.pending frame.base } := by
    simp [hs₁, setConn]
  have hpayload := read_hello (s := s₁) frame 0 rfl hdecode (by rw [hk, hreader])
    (congrArg Conn.session hk)
  change TransitionSystem.run (step json) ok
    (.read k frame.header 0 :: .read k frame.payload 0 :: labels) s = _
  simp only [TransitionSystem.run, hok, if_true, step, hheader, hpayload, Option.bind_eq_bind,
    Option.bind_some, hk]
  simp [hs₁, setConn]

/-- A connection was accepted and has sent the greeting of the session tests. -/
def helloed (bufferMs : UInt32) (initialVolume : UInt8) : Net :=
  (new bufferMs initialVolume).accept.setConn 0
    { Conn.new with session := ⟨.new, true⟩, reader := .cloning }

theorem run_helloed (bufferMs : UInt32) (initialVolume : UInt8) (ok : Net → Label → Bool)
    (haccept : ∀ s, ok s .accept = true)
    (hok : ∀ s bytes, ok s (.read 0 bytes 0) = true) :
    TransitionSystem.run (step .compact) ok (.accept :: helloLabels 0 .sample)
      (new bufferMs initialVolume) = some (helloed bufferMs initialVolume) := by
  rw [TransitionSystem.run, if_pos (haccept _)]
  exact (run_helloLabels (h := .sample) SerdeJson.compact_helloLaws (by decide +kernel)
    (by decide +kernel) hok rfl rfl []).trans rfl

theorem reach_helloed (bufferMs : UInt32) (initialVolume : UInt8) (ok : Net → Label → Bool)
    (haccept : ∀ s, ok s .accept = true)
    (hok : ∀ s bytes, ok s (.read 0 bytes 0) = true) :
    (system .compact bufferMs initialVolume).Reach (fun s l => ok s l = true)
      (helloed bufferMs initialVolume) :=
  TransitionSystem.reach_of_run (.init rfl) (run_helloed bufferMs initialVolume ok haccept hok)

/-- What a run from there, with steps that meet a condition, reaches. -/
theorem exists_reach_of_run {ok : Net → Label → Bool} {s₀ : Net}
    (hs : (system json bufferMs initialVolume).Reach (fun s l => ok s l = true) s₀)
    (labels : List Label) (P : Net → Bool)
    (h : (TransitionSystem.run (step json) ok labels s₀).any P = true) :
    ∃ s, (system json bufferMs initialVolume).Reach (fun s l => ok s l = true) s ∧ P s = true := by
  obtain ⟨s, hrun, hP⟩ := (Option.any_eq_true _ _).mp h
  exact ⟨s, TransitionSystem.reach_of_run hs hrun, hP⟩

/-- The reader's part of a greeting. -/
def greetLabels (k : ConnId) : List Label :=
  [.spawn k, .register k, .currentSettings k, .send k, .send k]

end Net

end SnapcastClient
