import SnapcastClient.Model.ConnectedClient
import SnapcastClient.Model.SerdeJson
import SnapcastClient.Verification.ClientMachine
import Mathlib.Logic.Relation

/-! # Ticks over a fragmented stream

A timeout inside a read loses the bytes read before it. The events handed to the machine are
those of the frames sent exactly when no timeout falls inside a header or a payload. -/

namespace SnapcastClient

/-! ## Reads -/

/-- The bytes that arrive, timeouts aside. -/
def arrivedBytes : List Arrival → List UInt8
  | [] => []
  | .byte b :: arrivals => b :: arrivedBytes arrivals
  | .timeout :: arrivals => arrivedBytes arrivals

theorem arrivedBytes_append (xs ys : List Arrival) :
    arrivedBytes (xs ++ ys) = arrivedBytes xs ++ arrivedBytes ys := by
  induction xs with
  | nil => rfl
  | cons x xs ih => cases x <;> simp [arrivedBytes, ih]

@[simp] theorem arrivedBytes_map_byte (bytes : List UInt8) :
    arrivedBytes (bytes.map .byte) = bytes := by
  induction bytes with
  | nil => rfl
  | cons b bytes ih => rw [List.map_cons, arrivedBytes, ih]

/-- What a read consumes, by how it ends. -/
theorem readExact_spec (n : ℕ) (arrivals : List Arrival) :
    (∃ bytes rest, readExact n arrivals = (.ok bytes, rest) ∧ bytes.length = n ∧
      arrivals = bytes.map .byte ++ rest) ∨
    (∃ (lost : List UInt8) (rest : List Arrival),
      readExact n arrivals = (.error .wouldBlock, rest) ∧ lost.length < n ∧
        arrivals = lost.map .byte ++ .timeout :: rest) ∨
    (∃ lost : List UInt8, readExact n arrivals = (.error .unexpectedEof, []) ∧
      lost.length < n ∧ arrivals = lost.map .byte) := by
  induction n generalizing arrivals with
  | zero => exact .inl ⟨[], arrivals, rfl, rfl, rfl⟩
  | succ n ih =>
      match arrivals with
      | [] => exact .inr (.inr ⟨[], rfl, Nat.succ_pos n, rfl⟩)
      | .timeout :: rest => exact .inr (.inl ⟨[], rest, rfl, Nat.succ_pos n, rfl⟩)
      | .byte b :: arrivals =>
        rcases ih arrivals with ⟨bytes, rest, h, hlen, rfl⟩ | ⟨lost, rest, h, hlen, rfl⟩ |
          ⟨lost, h, hlen, rfl⟩
        · exact .inl ⟨b :: bytes, rest, by rw [readExact, h], by simp [hlen], rfl⟩
        · exact .inr (.inl ⟨b :: lost, rest, by rw [readExact, h], by simpa using hlen, rfl⟩)
        · exact .inr (.inr ⟨b :: lost, by rw [readExact, h], by simpa using hlen, rfl⟩)

/-! ## Aligned arrivals -/

/-- The arrivals are these units in order, with timeouts before, between and after them only. -/
inductive Aligned : List (List UInt8) → List Arrival → Prop where
  | nil : Aligned [] []
  | timeout {units : List (List UInt8)} {arrivals : List Arrival} :
      Aligned units arrivals → Aligned units (.timeout :: arrivals)
  | unit {units : List (List UInt8)} {arrivals : List Arrival} (u : List UInt8) :
      Aligned units arrivals → Aligned (u :: units) (u.map .byte ++ arrivals)

namespace Aligned

variable {units units' : List (List UInt8)} {arrivals arrivals' : List Arrival}

theorem append (h : Aligned units arrivals) (h' : Aligned units' arrivals') :
    Aligned (units ++ units') (arrivals ++ arrivals') := by
  induction h with
  | nil => exact h'
  | timeout _ ih => exact .timeout ih
  | unit u _ ih =>
      rw [List.append_assoc]
      exact .unit u ih

theorem arrivedBytes_eq (h : Aligned units arrivals) : arrivedBytes arrivals = units.flatten := by
  induction h with
  | nil => rfl
  | timeout _ ih => exact ih
  | unit u _ ih => rw [arrivedBytes_append, arrivedBytes_map_byte, ih, List.flatten_cons]

/-- A read of a whole unit takes that unit. -/
theorem of_read {u bytes : List UInt8} {rest : List Arrival}
    (h : Aligned (u :: units) (bytes.map .byte ++ rest)) (hlen : bytes.length = u.length) :
    bytes = u ∧ Aligned units rest := by
  generalize harrivals : bytes.map Arrival.byte ++ rest = arrivals at h
  generalize hunits : u :: units = all at h
  induction h generalizing bytes rest with
  | nil => cases hunits
  | @timeout all arrivals h ih =>
      cases bytes with
      | nil =>
          obtain rfl : rest = .timeout :: arrivals := harrivals
          obtain ⟨hu, h⟩ := ih hlen rfl hunits
          exact ⟨hu, .timeout h⟩
      | cons b bytes => cases harrivals
  | unit v h ih =>
      obtain ⟨rfl, rfl⟩ := List.cons.inj hunits
      obtain ⟨hmap, rfl⟩ := List.append_inj harrivals (by simpa using hlen)
      have hinj : Function.Injective Arrival.byte := fun _ _ => Arrival.byte.inj
      exact ⟨List.map_injective_iff.mpr hinj hmap, h⟩

/-- A read that a timeout cuts short of a unit loses nothing. -/
theorem of_timeout {lost : List UInt8} {rest : List Arrival}
    (h : Aligned units (lost.map .byte ++ .timeout :: rest))
    (hlen : ∀ u ∈ units.head?, lost.length < u.length) : lost = [] ∧ Aligned units rest := by
  generalize harrivals : lost.map Arrival.byte ++ .timeout :: rest = arrivals at h
  cases h with
  | nil => simp at harrivals
  | timeout h =>
      cases lost with
      | nil =>
          obtain ⟨-, rfl⟩ := List.cons.inj harrivals
          exact ⟨rfl, h⟩
      | cons b lost => cases harrivals
  | unit u h =>
      -- the timeout would have to be one of the bytes of the unit
      have hget := congrArg (fun l => l[lost.length]?) harrivals
      simp [List.getElem?_append, hlen u rfl] at hget

/-- A stream does not end inside a unit. -/
theorem of_closed {lost : List UInt8} (h : Aligned units (lost.map .byte))
    (hlen : ∀ u ∈ units.head?, lost.length < u.length) : units = [] := by
  cases units with
  | nil => rfl
  | cons u units =>
      have hflat := congrArg List.length h.arrivedBytes_eq
      have hshort := hlen u rfl
      simp only [arrivedBytes_map_byte, List.flatten_cons, List.length_append] at hflat
      omega

end Aligned

/-! ## What a tick does to the socket -/

def Event.bytes : Event → List UInt8
  | .headerReceived bytes => bytes
  | .packetReceived bytes => bytes

@[simp] theorem Action.event_bytes (a : Action) (bytes : List UInt8) :
    (a.event bytes).bytes = bytes := by
  cases a <;> rfl

namespace ConnectedClient

variable {json : SerdeJson} {c c' : ConnectedClient}

/-- One step of a tick: a write, a read that ran into a timeout or the end of the stream, or
a read whose bytes went to the machine. -/
inductive Effect (json : SerdeJson) (c c' : ConnectedClient) : Prop where
  | sent :
      c'.machine.framing = c.machine.framing → c'.incoming = c.incoming → c'.handed = c.handed →
      Effect json c c'
  | timedOut (lost : List UInt8) :
      lost.length < c.machine.nextAction.bytes →
      c.incoming = lost.map .byte ++ .timeout :: c'.incoming →
      c'.machine = c.machine → c'.handed = c.handed → Effect json c c'
  | closed (lost : List UInt8) :
      lost.length < c.machine.nextAction.bytes →
      c.incoming = lost.map .byte → c'.incoming = [] →
      c'.machine = c.machine → c'.handed = c.handed → Effect json c c'
  | read (bytes : List UInt8) (nowUs : ℤ) :
      bytes.length = c.machine.nextAction.bytes →
      c.incoming = bytes.map .byte ++ c'.incoming →
      c'.machine = (c.machine.handleEvent json (c.machine.nextAction.event bytes) nowUs).2 →
      c'.handed = c.handed ++ [c.machine.nextAction.event bytes] → Effect json c c'

/-- A run of effects. -/
abbrev Effects (json : SerdeJson) : ConnectedClient → ConnectedClient → Prop :=
  Relation.ReflTransGen (Effect json)

theorem readHeader_effect {input : TickInput} {result : Outcome (Option Message)}
    (haction : c.machine.nextAction = .readHeader)
    (hread : c.readHeader json input = (result, c')) : Effect json c c' := by
  obtain rfl : (c.readHeader json input).2 = c' := by rw [hread]
  have hbytes : c.machine.nextAction.bytes = Base.baseSize := by rw [haction]; rfl
  rcases readExact_spec Base.baseSize c.incoming with ⟨bytes, rest, h, hlen, hin⟩ |
    ⟨lost, rest, h, hlen, hin⟩ | ⟨lost, h, hlen, hin⟩
  · have hevent : c.machine.nextAction.event bytes = .headerReceived bytes := by
      rw [haction]
      rfl
    simp only [readHeader, h]
    split <;> rename_i hhandle
    all_goals
      exact .read bytes input.txNow (hlen.trans hbytes.symm) hin
        (by rw [hevent, hhandle]) (by rw [hevent])
  · simp only [readHeader, h]
    exact .timedOut lost (hbytes ▸ hlen) hin rfl rfl
  · simp only [readHeader, h]
    exact .closed lost (hbytes ▸ hlen) hin rfl rfl rfl

theorem readPacket_effect {size : UInt32} {input : TickInput}
    (haction : c.machine.nextAction = .readPacket size) :
    Effect json c (c.readPacket json size input).2 := by
  have hbytes : c.machine.nextAction.bytes = size.toNat := by rw [haction]; rfl
  rcases readExact_spec size.toNat c.incoming with ⟨bytes, rest, h, hlen, hin⟩ |
    ⟨lost, rest, h, hlen, hin⟩ | ⟨lost, h, hlen, hin⟩
  · have hevent : c.machine.nextAction.event bytes = .packetReceived bytes := by
      rw [haction]
      rfl
    simp only [readPacket, h]
    exact .read bytes input.rxNow (hlen.trans hbytes.symm) hin (by rw [hevent]) (by rw [hevent])
  · simp only [readPacket, h]
    exact .timedOut lost (hbytes ▸ hlen) hin rfl rfl
  · simp only [readPacket, h]
    exact .closed lost (hbytes ▸ hlen) hin rfl rfl rfl

theorem sendLoop_keeps (c : ConnectedClient) (input : TickInput) :
    (c.sendLoop input).2.machine.framing = c.machine.framing ∧
      (c.sendLoop input).2.incoming = c.incoming ∧ (c.sendLoop input).2.handed = c.handed := by
  fun_induction sendLoop c input with
  | case1 c fault h => exact ⟨rfl, rfl, rfl⟩
  | case2 c out m h => exact ⟨rfl, rfl, rfl⟩
  | case3 c n txBuf machine h hok ih =>
      obtain ⟨hframing, hincoming, hhanded⟩ := ih
      exact ⟨hframing.trans (ClientMachine.pollTransmit_framing h), hincoming, hhanded⟩
  | case4 c n txBuf machine h hok => exact ⟨ClientMachine.pollTransmit_framing h, rfl, rfl⟩

theorem readLoop_effects (c : ConnectedClient) (input : TickInput) :
    Effects json c (c.readLoop json input).2 := by
  fun_induction readLoop json c input with
  | case1 c haction c' h ih => exact .head (readHeader_effect haction h) ih
  | case2 c haction message c' h => exact .single (readHeader_effect haction h)
  | case3 c haction fault c' h => exact .single (readHeader_effect haction h)
  | case4 c size haction => exact .single (readPacket_effect haction)

theorem tick_effects (c : ConnectedClient) (input : TickInput) :
    Effects json c (c.tick json input).2 := by
  obtain ⟨hframing, hincoming, hhanded⟩ := c.sendLoop_keeps input
  have hsent : Effect json c (c.sendLoop input).2 := .sent hframing hincoming hhanded
  rw [tick]
  split <;> rename_i c' h <;> rw [h] at hsent
  · exact .head hsent (readLoop_effects c' input)
  · exact .single hsent

/-! ## Between ticks the machine waits for at least one byte -/

/-- A header read that ends the tick leaves the machine waiting for a header. -/
theorem readHeader_waits {input : TickInput} {result : Outcome (Option Message)}
    (haction : c.machine.nextAction = .readHeader)
    (h : c.readHeader json input = (result, c')) (hstops : result ≠ .ok none) :
    0 < c'.machine.nextAction.bytes := by
  have hmachine : c'.machine = c.machine := by
    rw [readHeader] at h
    split at h
    · rename_i bytes rest hread
      cases hheader : c.machine.framing.onHeader bytes with
      | error fault =>
          simp only [ClientMachine.handleEvent, hheader] at h
          obtain ⟨-, rfl⟩ := Prod.mk.inj h
          rfl
      | ok framing =>
          simp only [ClientMachine.handleEvent, hheader] at h
          exact absurd (Prod.mk.inj h).1.symm hstops
    · obtain ⟨-, rfl⟩ := Prod.mk.inj h
      rfl
    · obtain ⟨-, rfl⟩ := Prod.mk.inj h
      rfl
  rw [hmachine, haction]
  decide

theorem readPacket_waits {size : UInt32} {input : TickInput}
    (haction : c.machine.nextAction = .readPacket size) :
    0 < (c.readPacket json size input).2.machine.nextAction.bytes := by
  have hwaits (h : 0 < size.toNat) : 0 < c.machine.nextAction.bytes := by
    rw [haction]
    exact h
  rcases readExact_spec size.toNat c.incoming with ⟨bytes, rest, h, -, -⟩ |
    ⟨lost, rest, h, hlen, -⟩ | ⟨lost, h, hlen, -⟩
  · obtain ⟨base, hbase, -⟩ := Framing.nextAction_eq_readPacket.mp haction
    simp only [readPacket, h, ClientMachine.nextAction,
      ClientMachine.handleEvent_packet_framing hbase]
    decide
  · simp only [readPacket, h]
    exact hwaits (Nat.zero_lt_of_lt hlen)
  · simp only [readPacket, h]
    exact hwaits (Nat.zero_lt_of_lt hlen)

theorem readLoop_waits (c : ConnectedClient) (input : TickInput) :
    0 < (c.readLoop json input).2.machine.nextAction.bytes := by
  fun_induction readLoop json c input with
  | case1 c haction c' h ih => exact ih
  | case2 c haction message c' h => exact readHeader_waits haction h (by simp)
  | case3 c haction fault c' h => exact readHeader_waits haction h (by simp)
  | case4 c size haction => exact readPacket_waits haction

theorem tick_waits (hwaits : 0 < c.machine.nextAction.bytes) (input : TickInput) :
    0 < (c.tick json input).2.machine.nextAction.bytes := by
  rw [tick]
  split
  · exact readLoop_waits _ input
  · rename_i fault c' h
    have hframing := (c.sendLoop_keeps input).1
    rw [h] at hframing
    rwa [ClientMachine.nextAction, hframing]

/-! ## Ticks drain the socket -/

theorem readExact_shrinks {n : ℕ} (hn : 0 < n) {arrivals : List Arrival} (hne : arrivals ≠ []) :
    (readExact n arrivals).2.length < arrivals.length := by
  rcases readExact_spec n arrivals with ⟨bytes, rest, h, hlen, rfl⟩ | ⟨lost, rest, h, hlen, rfl⟩ |
    ⟨lost, h, hlen, rfl⟩
  · simp only [h, List.length_append, List.length_map]
    omega
  · simp only [h, List.length_append, List.length_cons]
    omega
  · rw [h]
    exact List.length_pos_iff.mpr hne

theorem readHeader_incoming (json : SerdeJson) (c : ConnectedClient) (input : TickInput) :
    (c.readHeader json input).2.incoming = (readExact Base.baseSize c.incoming).2 := by
  rw [readHeader]
  split <;> rename_i h <;> rw [h]
  split <;> rfl

theorem readPacket_incoming (c : ConnectedClient) (size : UInt32) (input : TickInput) :
    (c.readPacket json size input).2.incoming = (readExact size.toNat c.incoming).2 := by
  rw [readPacket]
  split <;> rename_i h <;> rw [h]

theorem Effects.length_le (h : Effects json c c') : c'.incoming.length ≤ c.incoming.length := by
  induction h with
  | refl => exact le_rfl
  | tail _ he ih =>
      refine le_trans ?_ ih
      cases he with
      | sent hm hin hh => rw [hin]
      | timedOut lost hlen hin hm hh =>
          rw [hin, List.length_append, List.length_cons]
          omega
      | closed lost hlen hin hin' hm hh => simp [hin']
      | read bytes nowUs hlen hin hm hh =>
          rw [hin, List.length_append]
          omega

theorem readLoop_shrinks (hwaits : 0 < c.machine.nextAction.bytes) (hne : c.incoming ≠ [])
    (input : TickInput) : (c.readLoop json input).2.incoming.length < c.incoming.length := by
  have hheader (result : Outcome (Option Message)) (c' : ConnectedClient)
      (h : c.readHeader json input = (result, c')) :
      c'.incoming.length < c.incoming.length := by
    have hincoming := readHeader_incoming json c input
    rw [h] at hincoming
    rw [hincoming]
    exact readExact_shrinks (by decide) hne
  rw [readLoop]
  split
  · split
    · rename_i c' h
      exact (readLoop_effects c' input).length_le.trans_lt (hheader _ c' h)
    · rename_i c' h
      exact hheader _ c' h
    · rename_i c' h
      exact hheader _ c' h
  · rename_i size haction
    rw [readPacket_incoming]
    rw [haction] at hwaits
    exact readExact_shrinks hwaits hne

/-- A tick at the time of the last request has none to send. -/
theorem tick_shrinks (json : SerdeJson) (hwaits : 0 < c.machine.nextAction.bytes)
    (hne : c.incoming ≠ []) :
    (c.tick json ⟨c.machine.lastTimeSentUs, 0, true⟩).2.incoming.length < c.incoming.length := by
  have hdue : ¬ c.machine.Due c.machine.lastTimeSentUs := by simp [ClientMachine.Due]
  have hsend : c.sendLoop ⟨c.machine.lastTimeSentUs, 0, true⟩ = (.ok (), c) := by
    rw [sendLoop]
    split <;> rename_i h <;> rw [ClientMachine.pollTransmit_of_not_due hdue] at h <;> cases h
  rw [tick, hsend]
  exact readLoop_shrinks hwaits hne _

/-! ## Aligned arrivals come through whole -/

/-- The units the framing asks for. -/
def units (frames : List Frame) : List (List UInt8) :=
  frames.flatMap fun frame => [frame.header, frame.payload]

/-- How far ticks over aligned arrivals have come in the frames sent. -/
inductive InStep (frames : List Frame) (c : ConnectedClient) : Prop where
  | header (done rest : List Frame) :
      frames = done ++ rest → c.machine.framing = .new →
      c.handed = done.flatMap Frame.events → Aligned (units rest) c.incoming → InStep frames c
  | payload (done : List Frame) (frame : Frame) (rest : List Frame) :
      frames = done ++ frame :: rest → c.machine.framing = ⟨.readingPacket frame.base⟩ →
      c.handed = done.flatMap Frame.events ++ [.headerReceived frame.header] →
      Aligned (frame.payload :: units rest) c.incoming → InStep frames c

/-- An effect keeps the arrivals aligned: it leaves the machine's place in the stream, or
hands over the next unit. -/
theorem Effect.aligned {pending : List (List UInt8)} (haligned : Aligned pending c.incoming)
    (hnext : ∀ u ∈ pending.head?, u.length = c.machine.nextAction.bytes)
    (hwaits : pending = [] → 0 < c.machine.nextAction.bytes) (he : Effect json c c') :
    (c'.machine.framing = c.machine.framing ∧ c'.handed = c.handed ∧
      Aligned pending c'.incoming) ∨
    ∃ u rest nowUs, pending = u :: rest ∧
      c'.machine = (c.machine.handleEvent json (c.machine.nextAction.event u) nowUs).2 ∧
      c'.handed = c.handed ++ [c.machine.nextAction.event u] ∧ Aligned rest c'.incoming := by
  cases he with
  | sent hm hin hh => exact .inl ⟨hm, hh, hin ▸ haligned⟩
  | timedOut lost hlen hin hm hh =>
      rw [hin] at haligned
      obtain ⟨-, haligned⟩ := haligned.of_timeout fun u hu => (hnext u hu).symm ▸ hlen
      exact .inl ⟨hm ▸ rfl, hh, haligned⟩
  | closed lost hlen hin hin' hm hh =>
      rw [hin] at haligned
      have hnil := haligned.of_closed fun u hu => (hnext u hu).symm ▸ hlen
      refine .inl ⟨hm ▸ rfl, hh, ?_⟩
      rw [hnil, hin']
      exact .nil
  | read bytes nowUs hlen hin hm hh =>
      rw [hin] at haligned
      cases pending with
      | nil =>
          have hbytes := haligned.arrivedBytes_eq
          rw [arrivedBytes_append, arrivedBytes_map_byte] at hbytes
          have hzero := congrArg List.length (List.append_eq_nil_iff.mp hbytes).1
          exact absurd (hlen.symm.trans hzero) (hwaits rfl).ne'
      | cons u rest =>
          obtain ⟨rfl, hrest⟩ := haligned.of_read (hlen.trans (hnext u rfl).symm)
          exact .inr ⟨bytes, rest, nowUs, rfl, hm, hh, hrest⟩

theorem Effect.inStep {frames : List Frame} (h : InStep frames c) (he : Effect json c c') :
    InStep frames c' := by
  cases h with
  | header done rest hframes hframing hhanded haligned =>
      have haction : c.machine.nextAction = .readHeader := by
        rw [ClientMachine.nextAction, hframing, Framing.nextAction_new]
      have hnext (u : List UInt8) (hu : u ∈ (units rest).head?) :
          u.length = c.machine.nextAction.bytes := by
        cases rest with
        | nil => cases hu
        | cons frame rest =>
            obtain rfl : frame.header = u := Option.some.inj hu
            rw [haction, frame.header_length]
            rfl
      rcases he.aligned haligned hnext (fun _ => by rw [haction]; decide) with
        ⟨hm, hh, haligned⟩ | ⟨u, units, nowUs, hunits, hm, hh, haligned⟩
      · exact .header done rest hframes (hm.trans hframing) (hh.trans hhanded) haligned
      · cases rest with
        | nil => cases hunits
        | cons frame rest =>
            obtain ⟨rfl, rfl⟩ := List.cons.inj hunits
            rw [haction] at hm hh
            refine .payload done frame rest hframes ?_ (by rw [hh, hhanded]; rfl) haligned
            rw [hm]
            exact congrArg (fun r => r.2.framing)
              (ClientMachine.handleEvent_header json c.machine frame nowUs)
  | payload done frame rest hframes hframing hhanded haligned =>
      have haction : c.machine.nextAction = .readPacket frame.base.size := by
        rw [ClientMachine.nextAction, hframing]
        rfl
      have hnext (u : List UInt8) (hu : u ∈ (frame.payload :: units rest).head?) :
          u.length = c.machine.nextAction.bytes := by
        obtain rfl := Option.some.inj hu
        rw [haction, frame.payload_length]
        rfl
      rcases he.aligned haligned hnext (fun hnil => by cases hnil) with
        ⟨hm, hh, haligned⟩ | ⟨u, units, nowUs, hunits, hm, hh, haligned⟩
      · exact .payload done frame rest hframes (hm.trans hframing) (hh.trans hhanded) haligned
      · obtain ⟨rfl, rfl⟩ := List.cons.inj hunits
        rw [haction] at hm hh
        refine .header (done ++ [frame]) rest (by simp [hframes]) ?_ ?_ haligned
        · rw [hm]
          exact ClientMachine.handleEvent_packet_framing hframing _ nowUs
        · rw [hh, hhanded]
          simp [Frame.events, Action.event]

/-! ## Lost bytes stay lost -/

/-- The reads so far took their bytes with no timeout inside, or some bytes are gone. -/
def Accounted (arrivals : List Arrival) (c : ConnectedClient) : Prop :=
  ∃ consumed, arrivals = consumed ++ c.incoming ∧
    (Aligned (c.handed.map Event.bytes) consumed ∨
      (c.handed.flatMap Event.bytes).length < (arrivedBytes consumed).length)

theorem Effect.accounted {arrivals : List Arrival} (h : Accounted arrivals c)
    (he : Effect json c c') : Accounted arrivals c' := by
  obtain ⟨consumed, harrivals, h⟩ := h
  have hle : (c.handed.flatMap Event.bytes).length ≤ (arrivedBytes consumed).length := by
    rcases h with h | h
    · rw [h.arrivedBytes_eq, List.flatMap_def]
    · exact h.le
  have hlost (b : UInt8) (lost : List UInt8) (tail : List Arrival) :
      (c.handed.flatMap Event.bytes).length <
        (arrivedBytes (consumed ++ (b :: lost).map .byte ++ tail)).length := by
    simp only [arrivedBytes_append, arrivedBytes_map_byte, List.length_append, List.length_cons]
    omega
  cases he with
  | sent hm hin hh => exact ⟨consumed, hin ▸ harrivals, hh ▸ h⟩
  | timedOut lost hlen hin hm hh =>
      refine ⟨consumed ++ lost.map .byte ++ [.timeout], by simp [harrivals, hin], ?_⟩
      rw [hh]
      cases lost with
      | nil =>
          rcases h with h | h
          · exact .inl (by simpa using h.append (.timeout .nil))
          · exact .inr (by simpa [arrivedBytes_append] using Nat.lt_add_right _ h)
      | cons b lost => exact .inr (hlost b lost [.timeout])
  | closed lost hlen hin hin' hm hh =>
      refine ⟨consumed ++ lost.map .byte, by simp [harrivals, hin, hin'], ?_⟩
      rw [hh]
      cases lost with
      | nil => simpa using h
      | cons b lost => exact .inr (by simpa using hlost b lost [])
  | read bytes nowUs hlen hin hm hh =>
      refine ⟨consumed ++ bytes.map .byte, by simp [harrivals, hin], ?_⟩
      rw [hh]
      rcases h with h | h
      · refine .inl ?_
        rw [List.map_append, List.map_singleton, Action.event_bytes]
        exact h.append (by simpa using Aligned.unit bytes .nil)
      · refine .inr ?_
        simpa [arrivedBytes_append] using h

/-! ## Whole runs -/

variable {arrivals : List Arrival} {frames : List Frame}

theorem reach_waits (h : (system json arrivals).Reachable c) :
    0 < c.machine.nextAction.bytes := by
  refine h.invariant (I := fun c => 0 < c.machine.nextAction.bytes) ?_ ?_
  · rintro c rfl
    exact (by decide : 0 < ClientMachine.new.nextAction.bytes)
  · rintro c input _ hwaits - rfl
    exact tick_waits hwaits input

/-- Whatever arrives, ticks can go on until the socket is drained. -/
theorem exists_drained (h : (system json arrivals).Reachable c) :
    ∃ c', (system json arrivals).Reachable c' ∧ c'.incoming = [] := by
  induction hn : c.incoming.length using Nat.strong_induction_on generalizing c with
  | h n ih =>
      by_cases hne : c.incoming = []
      · exact ⟨c, h, hne⟩
      · have hshrinks := tick_shrinks json (reach_waits h) hne
        exact ih _ (hn ▸ hshrinks) (.step h trivial rfl) rfl

/-- An invariant of every effect is an invariant of every run of ticks. -/
theorem reach_of_effect {I : ConnectedClient → Prop} (h : (system json arrivals).Reachable c)
    (hnew : I (new arrivals)) (heffect : ∀ c c', I c → Effect json c c' → I c') : I c := by
  refine h.invariant ?_ ?_
  · rintro c rfl
    exact hnew
  · rintro c input c' hI - hstep
    have heffects : Effects json c c' := hstep ▸ tick_effects c input
    clear hstep
    induction heffects with
    | refl => exact hI
    | tail _ he ih => exact heffect _ _ ih he

theorem reach_inStep (haligned : Aligned (units frames) arrivals)
    (h : (system json arrivals).Reachable c) : InStep frames c :=
  reach_of_effect h (.header [] frames rfl rfl rfl haligned) fun _ _ hI he => he.inStep hI

theorem reach_accounted (h : (system json arrivals).Reachable c) : Accounted arrivals c :=
  reach_of_effect h ⟨[], rfl, .inl .nil⟩ fun _ _ hI he => he.accounted hI

theorem handed_prefix (haligned : Aligned (units frames) arrivals)
    (h : (system json arrivals).Reachable c) : c.handed <+: frames.flatMap Frame.events := by
  cases reach_inStep haligned h with
  | header done rest hframes hframing hhanded hrest =>
      rw [hhanded, hframes, List.flatMap_append]
      exact List.prefix_append ..
  | payload done frame rest hframes hframing hhanded hrest =>
      rw [hhanded, hframes, List.flatMap_append, List.flatMap_cons, Frame.events]
      exact ⟨.packetReceived frame.payload :: rest.flatMap Frame.events, by simp⟩

/-- Ticks that drained an aligned socket handed over every frame. -/
theorem handed_of_aligned (haligned : Aligned (units frames) arrivals)
    (h : (system json arrivals).Reachable c) (hdrained : c.incoming = []) :
    c.handed = frames.flatMap Frame.events := by
  cases reach_inStep haligned h with
  | header done rest hframes hframing hhanded hrest =>
      rw [hdrained] at hrest
      cases rest with
      | nil => rw [hhanded, hframes, List.append_nil]
      | cons frame rest =>
          have hnil := hrest.arrivedBytes_eq.symm
          have hlen := congrArg List.length hnil
          simp [units, arrivedBytes, frame.header_length, Base.baseSize] at hlen
  | payload done frame rest hframes hframing hhanded hrest =>
      rw [hdrained] at hrest
      have hwaits := reach_waits h
      rw [ClientMachine.nextAction, hframing] at hwaits
      have hpayload : frame.payload = [] :=
        (List.append_eq_nil_iff.mp hrest.arrivedBytes_eq.symm).1
      have hsize := frame.payload_length
      rw [hpayload] at hsize
      exact absurd hwaits (by simp [Framing.nextAction, Action.bytes, ← hsize])

theorem map_bytes_events (frames : List Frame) :
    (frames.flatMap Frame.events).map Event.bytes = units frames := by
  rw [List.map_flatMap]
  rfl

theorem flatMap_bytes_events (frames : List Frame) :
    (frames.flatMap Frame.events).flatMap Event.bytes = frames.flatMap Frame.bytes := by
  rw [List.flatMap_assoc]
  congr 1
  funext frame
  simp [Frame.events, Event.bytes, Frame.bytes]

/-- Ticks that drained a socket without losing a byte found it aligned. -/
theorem aligned_of_handed (harrivals : arrivedBytes arrivals = frames.flatMap Frame.bytes)
    (h : (system json arrivals).Reachable c) (hdrained : c.incoming = [])
    (hhanded : c.handed = frames.flatMap Frame.events) : Aligned (units frames) arrivals := by
  obtain ⟨consumed, hconsumed, h⟩ := reach_accounted h
  rw [hdrained, List.append_nil] at hconsumed
  subst hconsumed
  rw [hhanded, map_bytes_events, flatMap_bytes_events, harrivals] at h
  exact h.resolve_right (Nat.lt_irrefl _)

/-- With no timeouts the arrivals are aligned. -/
theorem aligned_at_once (frames : List Frame) :
    Aligned (units frames) ((frames.flatMap Frame.bytes).map .byte) := by
  induction frames with
  | nil => exact .nil
  | cons frame frames ih =>
      rw [List.flatMap_cons, Frame.bytes, List.map_append, List.map_append, List.append_assoc]
      exact .unit frame.header (.unit frame.payload ih)

/-- Ticks that drained a socket handed over what they would have with all bytes there at once
exactly when no timeout fell inside a header or a payload. -/
theorem handed_eq_iff (harrivals : arrivedBytes arrivals = frames.flatMap Frame.bytes)
    (h : (system json arrivals).Reachable c) :
    (∃ c₀, (system json ((arrivedBytes arrivals).map .byte)).Reachable c₀ ∧ c₀.incoming = []) ∧
      ∀ c₀, (system json ((arrivedBytes arrivals).map .byte)).Reachable c₀ → c₀.incoming = [] →
        (Aligned (units frames) arrivals → c.handed <+: c₀.handed) ∧
          (c.incoming = [] → (c.handed = c₀.handed ↔ Aligned (units frames) arrivals)) := by
  refine ⟨exists_drained (.init rfl), ?_⟩
  intro c₀ h₀ hdrained₀
  rw [harrivals] at h₀
  rw [handed_of_aligned (aligned_at_once frames) h₀ hdrained₀]
  refine ⟨fun haligned => handed_prefix haligned h, fun hdrained => ⟨?_, ?_⟩⟩
  · exact aligned_of_handed harrivals h hdrained
  · exact fun haligned => handed_of_aligned haligned h hdrained

/-- A `Time` reply whose arrival stalls once, after `n` bytes. -/
def stalledAfter (n : ℕ) : List Arrival :=
  let bytes := (Time.frame 1 1 .zero .zero .zero).bytes
  (bytes.take n).map .byte ++ .timeout :: (bytes.drop n).map .byte

/-- The socket after some ticks at the start of the time base. -/
def ticked (arrivals : List Arrival) (n : ℕ) : ConnectedClient :=
  (fun c => (c.tick .compact ⟨0, 0, true⟩).2)^[n] (new arrivals)

theorem ticked_reachable (arrivals : List Arrival) (n : ℕ) :
    (system .compact arrivals).Reachable (ticked arrivals n) := by
  induction n with
  | zero => exact .init rfl
  | succ n ih =>
      rw [ticked, Function.iterate_succ_apply']
      exact .step ih trivial rfl

/-- A stall between header and payload is harmless. -/
theorem handed_eq_iff_stalled :
    (ticked (stalledAfter 26) 2).handed =
        (ticked ((arrivedBytes (stalledAfter 26)).map .byte) 1).handed ↔
      Aligned (units [Time.frame 1 1 .zero .zero .zero]) (stalledAfter 26) :=
  ((handed_eq_iff (by decide +kernel) (ticked_reachable (stalledAfter 26) 2)).2 _
    (ticked_reachable _ 1) (by decide +kernel)).2 (by decide +kernel)

/-- A stall inside the header drops the bytes read before it: the machine gets nothing. -/
theorem handed_ne_stalled :
    ¬ ∀ (arrivals : List Arrival) (frames : List Frame) (c c₀ : ConnectedClient),
      arrivedBytes arrivals = frames.flatMap Frame.bytes →
      (system .compact arrivals).Reachable c →
      (system .compact ((arrivedBytes arrivals).map .byte)).Reachable c₀ →
      c.incoming = [] → c₀.incoming = [] → c.handed = c₀.handed := by
  intro hall
  have hlost := hall (stalledAfter 10) [Time.frame 1 1 .zero .zero .zero] _ _ (by decide +kernel)
    (ticked_reachable _ 2) (ticked_reachable _ 1) (by decide +kernel) (by decide +kernel)
  revert hlost
  decide +kernel

end ConnectedClient

end SnapcastClient
