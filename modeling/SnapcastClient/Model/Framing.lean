import SnapcastClient.Model.Proto

/-! # The two-phase framing

A header announces a payload length, then that many payload bytes follow. The client and
the server machine share this state. -/

namespace SnapcastClient

/-- What the driver must read next. -/
inductive Action where
  | readHeader
  | readPacket (size : UInt32)
  deriving DecidableEq, Repr

/-- The number of bytes the driver reads to satisfy an action. -/
def Action.bytes : Action → ℕ
  | readHeader => Base.baseSize
  | readPacket size => size.toNat

/-- Bytes the driver read, fed back into a machine. -/
inductive Event where
  | headerReceived (bytes : List UInt8)
  | packetReceived (bytes : List UInt8)
  deriving DecidableEq, Repr

/-- The event a driver hands over after satisfying an action. -/
def Action.event : Action → List UInt8 → Event
  | .readHeader, bytes => .headerReceived bytes
  | .readPacket _, bytes => .packetReceived bytes

inductive FramingState where
  | readingHeader
  | readingPacket (base : Base)
  deriving DecidableEq, Repr

structure Framing where
  state : FramingState
  deriving DecidableEq, Repr

namespace Framing

def new : Framing := ⟨.readingHeader⟩

def nextAction (f : Framing) : Action :=
  match f.state with
  | .readingHeader => .readHeader
  | .readingPacket base => .readPacket base.size

/-- An `Err` is returned before the state is assigned. -/
def onHeader (_ : Framing) (bytes : List UInt8) : Outcome Framing := do
  let base ← Base.tryFrom bytes
  return ⟨.readingPacket base⟩

/-- The pending header, and the framing ready for the next one. -/
def takeBase (f : Framing) : Outcome (Base × Framing) :=
  match f.state with
  | .readingPacket base => .ok (base, ⟨.readingHeader⟩)
  | .readingHeader => abort .noPendingHeader

theorem takeBase_eq_ok {f f' : Framing} {base : Base} :
    f.takeBase = .ok (base, f') ↔ f.state = .readingPacket base ∧ f' = new := by
  obtain ⟨state⟩ := f
  cases state with
  | readingHeader => simp [takeBase, abort]
  | readingPacket b => simp [takeBase, new, eq_comm]

/-- Decode server messages off a byte string the way the framing asks for its bytes, until
too few are left for the next read. The rest of the input comes back with the framing. -/
def readAll (json : SerdeJson) (f : Framing) (bytes : List UInt8) :
    Outcome (List (Base × ServerMessage) × Framing × List UInt8) :=
  if _hshort : bytes.length < f.nextAction.bytes then .ok ([], f, bytes)
  else
    let front := bytes.take f.nextAction.bytes
    let rest := bytes.drop f.nextAction.bytes
    match _hnext : f.nextAction with
    | .readHeader => f.onHeader front >>= fun f' => readAll json f' rest
    | .readPacket _ =>
        match _hbase : f.takeBase with
        | .error e => .error e
        | .ok (base, f') => do
            let message ← base.decode json front
            let (messages, f', rest) ← readAll json f' rest
            return ((base, message) :: messages, f', rest)
termination_by 2 * bytes.length + (if f.state = .readingHeader then 0 else 1)
decreasing_by
  · rw [_hnext] at _hshort
    simp only [List.length_drop, _hnext, Action.bytes, Base.baseSize] at _hshort ⊢
    split <;> split <;> omega
  · obtain ⟨hstate, rfl⟩ := takeBase_eq_ok.mp _hbase
    simp only [new, List.length_drop, hstate, if_true, reduceCtorEq, if_false]
    omega

end Framing

/-! ## Frames -/

/-- An accepted header with a payload of exactly the announced size. -/
structure Frame where
  base : Base
  header : List UInt8
  payload : List UInt8
  accepted : Base.tryFrom header = .ok base
  header_length : header.length = Base.baseSize
  payload_length : payload.length = base.size.toNat

namespace Frame

/-- The bytes as they travel. -/
def bytes (frame : Frame) : List UInt8 :=
  frame.header ++ frame.payload

/-- What a driver hands to a machine for one frame. -/
def events (frame : Frame) : List Event :=
  [.headerReceived frame.header, .packetReceived frame.payload]

end Frame

end SnapcastClient
