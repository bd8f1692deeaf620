import SnapcastClient.Library.Transition
import SnapcastClient.Model.ClientMachine

/-! # `ConnectedClient`

The blocking shell around the client machine. The socket is the list of what its reads will
meet: bytes, and read timeouts between them; at its end the peer has closed. -/

namespace SnapcastClient

inductive Arrival where
  | byte (b : UInt8)
  | timeout
  deriving DecidableEq, Repr

/-- The kinds of `std::io::Error` a read can end in. -/
inductive ErrorKind where
  | wouldBlock
  | unexpectedEof
  deriving DecidableEq, Repr

/-- `Read::read_exact` for `n` bytes, with what is left on the socket. Bytes read before an
error are gone. -/
def readExact : ℕ → List Arrival → Except ErrorKind (List UInt8) × List Arrival
  | 0, incoming => (.ok [], incoming)
  | _ + 1, [] => (.error .unexpectedEof, [])
  | _ + 1, .timeout :: incoming => (.error .wouldBlock, incoming)
  | n + 1, .byte b :: incoming =>
      match readExact n incoming with
      | (.ok bytes, incoming) => (.ok (b :: bytes), incoming)
      | (.error kind, incoming) => (.error kind, incoming)

/-- A successful read of at least one byte shortens the socket. -/
theorem readExact_length {n : ℕ} {arrivals rest : List Arrival} {bytes : List UInt8}
    (h : readExact n arrivals = (.ok bytes, rest)) : rest.length + n = arrivals.length := by
  induction n generalizing arrivals bytes with
  | zero =>
      obtain ⟨-, rfl⟩ := Prod.mk.inj h
      rfl
  | succ n ih =>
      match arrivals, h with
      | .byte b :: arrivals, h =>
        rw [readExact] at h
        split at h
        · rename_i bytes' rest' hread
          obtain ⟨-, rfl⟩ := Prod.mk.inj h
          have := ih hread
          simp only [List.length_cons]
          omega
        · cases h

/-- The clock readings of one tick, and whether its writes succeed. -/
structure TickInput where
  txNow : ℤ
  rxNow : ℤ
  writeOk : Bool
  deriving DecidableEq, Repr

/-- The socket, the machine and the request buffer, with a record of the events handed to
the machine. -/
structure ConnectedClient where
  incoming : List Arrival
  written : List UInt8
  machine : ClientMachine
  txBuf : List UInt8
  handed : List Event

namespace ConnectedClient

def new (incoming : List Arrival) : ConnectedClient where
  incoming
  written := []
  machine := .new
  txBuf := List.replicate Time.wireSize 0
  handed := []

/-- A request that was emitted is not due again at the same instant. -/
theorem not_due_of_pollTransmit {m m' : ClientMachine} {nowUs : ℤ} {out out' : List UInt8} {n : ℕ}
    (h : m.pollTransmit nowUs out = .ok (some n, out', m')) :
    m.Due nowUs ∧ ¬ m'.Due nowUs := by
  rw [ClientMachine.pollTransmit] at h
  split at h
  · rename_i hdue
    obtain ⟨⟨out₁, n₁⟩, -, h⟩ := bind_eq_ok.mp h
    obtain ⟨-, h⟩ := Prod.mk.inj (Except.ok.inj h)
    obtain ⟨-, rfl⟩ := Prod.mk.inj h
    exact ⟨hdue, by simp [ClientMachine.Due]⟩
  · cases h

/-- The loop that drains `poll_transmit` into the socket. -/
def sendLoop (c : ConnectedClient) (input : TickInput) : Outcome Unit × ConnectedClient :=
  match _h : c.machine.pollTransmit input.txNow c.txBuf with
  | .error fault => (.error fault, c)
  | .ok (none, _, _) => (.ok (), c)
  | .ok (some n, txBuf, machine) =>
      if input.writeOk then
        sendLoop { c with machine, txBuf, written := c.written ++ txBuf.take n } input
      else (bail "writing time request", { c with machine, txBuf })
termination_by if c.machine.Due input.txNow then 1 else 0
decreasing_by
  obtain ⟨hdue, hnot⟩ := not_due_of_pollTransmit _h
  simp [hdue, hnot]

/-- The text of `std`'s end-of-file error. -/
def eofMessage : String := "failed to fill whole buffer"

/-- The `ReadHeader` arm; a message ends the tick. -/
def readHeader (json : SerdeJson) (c : ConnectedClient) (input : TickInput) :
    Outcome (Option Message) × ConnectedClient :=
  match readExact Base.baseSize c.incoming with
  | (.ok bytes, incoming) =>
      let handed := c.handed ++ [.headerReceived bytes]
      match c.machine.handleEvent json (.headerReceived bytes) input.txNow with
      | (.ok _, machine) => (.ok none, { c with incoming, machine, handed })
      | (.error fault, machine) => (.error fault, { c with incoming, machine, handed })
  | (.error .wouldBlock, incoming) => (.ok (some .nothing), { c with incoming })
  | (.error .unexpectedEof, incoming) => (bail eofMessage, { c with incoming })

/-- The `ReadPacket` arm. -/
def readPacket (json : SerdeJson) (c : ConnectedClient) (size : UInt32) (input : TickInput) :
    Outcome Message × ConnectedClient :=
  match readExact size.toNat c.incoming with
  | (.ok bytes, incoming) =>
      let handed := c.handed ++ [.packetReceived bytes]
      let (result, machine) := c.machine.handleEvent json (.packetReceived bytes) input.rxNow
      (result, { c with incoming, machine, handed })
  | (.error .wouldBlock, incoming) => (.ok .nothing, { c with incoming })
  | (.error .unexpectedEof, incoming) => (bail eofMessage, { c with incoming })

theorem readHeader_length {json : SerdeJson} {c c' : ConnectedClient} {input : TickInput}
    (h : c.readHeader json input = (.ok none, c')) :
    c'.incoming.length < c.incoming.length := by
  rw [readHeader] at h
  split at h
  · rename_i bytes rest hread
    have hlen := readExact_length hread
    split at h
    · obtain ⟨-, rfl⟩ := Prod.mk.inj h
      change rest.length < _
      rw [Base.baseSize] at hlen
      omega
    · cases h
  · cases h
  · cases h

/-- The read loop: a header that was handled is followed by its packet. -/
def readLoop (json : SerdeJson) (c : ConnectedClient) (input : TickInput) :
    Outcome Message × ConnectedClient :=
  match c.machine.nextAction with
  | .readHeader =>
      match _h : c.readHeader json input with
      | (.ok none, c') => readLoop json c' input
      | (.ok (some message), c') => (.ok message, c')
      | (.error fault, c') => (.error fault, c')
  | .readPacket size => c.readPacket json size input
termination_by c.incoming.length
decreasing_by exact readHeader_length _h

def tick (json : SerdeJson) (c : ConnectedClient) (input : TickInput) :
    Outcome Message × ConnectedClient :=
  match c.sendLoop input with
  | (.ok (), c') => c'.readLoop json input
  | (.error fault, c') => (.error fault, c')

/-- Repeated ticks on one socket. -/
def system (json : SerdeJson) (arrivals : List Arrival) :
    TransitionSystem ConnectedClient TickInput where
  Init c := c = new arrivals
  Step c input c' := (c.tick json input).2 = c'

end ConnectedClient

end SnapcastClient
