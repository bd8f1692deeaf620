import SnapcastClient.Library.Transition
import SnapcastClient.Model.ClientMachine

/-! # Runs of one client machine

Its two calls, in any order, on any bytes and at any clock readings. A call that returns an
`Err` leaves a machine to go on with, a call that panics does not. -/

namespace SnapcastClient

namespace ClientMachine

inductive Call where
  | pollTransmit (nowUs : ℤ) (out : List UInt8)
  | handleEvent (event : Event) (nowUs : ℤ)
  deriving DecidableEq, Repr

/-- The machine left by a call, unless it panicked. -/
def left {α : Type} : Outcome α × ClientMachine → Option ClientMachine
  | (.error (.panicked _), _) => none
  | (_, m') => some m'

/-- The machine after a call that returned. -/
def call (json : SerdeJson) (m : ClientMachine) : Call → Option ClientMachine
  | .pollTransmit nowUs out =>
      match m.pollTransmit nowUs out with
      | .ok (_, _, m') => some m'
      | .error _ => none
  | .handleEvent event nowUs => left (m.handleEvent json event nowUs)

/-- The runs of a new machine. -/
def system (json : SerdeJson) : TransitionSystem ClientMachine Call :=
  .ofStep .new (call json)

/-- The offset a call measures: a call that handles a `Time` reply measures one. -/
def sample? (json : SerdeJson) (m : ClientMachine) : Call → Option TimeVal
  | .handleEvent (.packetReceived bytes) nowUs =>
      match m.framing.state with
      | .readingHeader => none
      | .readingPacket base =>
          match base.decode json bytes with
          | .ok (.time _) => (m.measure base (.fromMicros nowUs)).toOption
          | _ => none
  | _ => none

/-- The runs of a new machine, with the samples recorded so far from first to last. -/
def sampledSystem (json : SerdeJson) :
    TransitionSystem (TransitionSystem.WithHistory ClientMachine (List TimeVal)) Call :=
  (system json).withHistory [] fun m samples c => samples ++ (m.sample? json c).toList

/-- The clock reading of a call. -/
def Call.nowUs : Call → ℤ
  | pollTransmit nowUs _ => nowUs
  | handleEvent _ nowUs => nowUs

/-- A request as it was emitted, and whether the machine was synchronized then. -/
structure Emission where
  nowUs : ℤ
  synchronized : Bool
  bytes : List UInt8
  deriving DecidableEq, Repr

def emission? (m : ClientMachine) : Call → Option Emission
  | .pollTransmit nowUs out =>
      match m.pollTransmit nowUs out with
      | .ok (some n, out', _) => some ⟨nowUs, m.Synchronized, out'.take n⟩
      | _ => none
  | .handleEvent _ _ => none

/-- The clock reading of the last call, and the requests emitted so far from first to last. -/
structure Timeline where
  clock : ℤ
  emissions : List Emission

/-- The runs of a new machine from the clock reading zero, with their requests. -/
def timedSystem (json : SerdeJson) :
    TransitionSystem (TransitionSystem.WithHistory ClientMachine Timeline) Call :=
  (system json).withHistory ⟨0, []⟩ fun m timeline c =>
    ⟨c.nowUs, timeline.emissions ++ (m.emission? c).toList⟩

/-- The clock does not go back, and its seconds fit an `i32`. -/
def steady (p : TransitionSystem.WithHistory ClientMachine Timeline) (c : Call) : Bool :=
  p.history.clock ≤ c.nowUs ∧ c.nowUs < 2147483648000000

end ClientMachine

end SnapcastClient
