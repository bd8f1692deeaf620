import SnapcastClient.Model.Framing

/-! # `ServerSession`

The socket-free protocol core of the server for one connected client. -/

namespace SnapcastClient

inductive SessionOutput where
  | none
  | hello (h : ClientHello)
  | timeRequest (id : UInt16) (clientSent received : TimeVal)
  deriving DecidableEq, Repr

structure ServerSession where
  framing : Framing
  greeted : Bool
  deriving DecidableEq, Repr

namespace ServerSession

def new : ServerSession := ⟨.new, false⟩

def nextAction (s : ServerSession) : Action :=
  s.framing.nextAction

/-- The result of a call with the session after it. -/
def handleEvent (json : SerdeJson) (s : ServerSession) (event : Event) (now : TimeVal) :
    Outcome SessionOutput × ServerSession :=
  match event with
  | .headerReceived bytes =>
      match s.framing.onHeader bytes with
      | .error fault => (.error fault, s)
      | .ok framing => (.ok .none, { s with framing })
  | .packetReceived bytes =>
      match s.framing.takeBase with
      | .error fault => (.error fault, s)
      | .ok (base, framing) =>
          let s := { s with framing }
          match base.decodeC json bytes with
          | .error fault => (.error fault, s)
          | .ok (.hello h) => (.ok (.hello h), { s with greeted := true })
          | .ok (.time _) =>
              if s.greeted then (.ok (.timeRequest base.id base.sentTv now), s)
              else (bail "received a Time request before Hello", s)

/-- Feed one frame as `next_action` asks for its bytes: a header, then its payload. -/
def feed (json : SerdeJson) (s : ServerSession) (buf : List UInt8) (now : TimeVal) :
    Outcome SessionOutput × ServerSession :=
  let n := s.nextAction.bytes
  match s.handleEvent json (.headerReceived (buf.take n)) now with
  | (.error fault, s') => (.error fault, s')
  | (.ok _, s') =>
      s'.handleEvent json (.packetReceived ((buf.drop n).take s'.nextAction.bytes)) now

/-- A handled payload leaves the session at the next header. -/
theorem framing_of_packet {json : SerdeJson} {s s' : ServerSession} {bytes : List UInt8}
    {now : TimeVal} {out : SessionOutput}
    (h : s.handleEvent json (.packetReceived bytes) now = (.ok out, s')) :
    s'.framing.state = .readingHeader := by
  rw [handleEvent] at h
  cases hbase : s.framing.takeBase with
  | error fault =>
      rw [hbase] at h
      cases h
  | ok taken =>
      obtain ⟨base, framing⟩ := taken
      obtain ⟨-, rfl⟩ := Framing.takeBase_eq_ok.mp hbase
      rw [hbase] at h
      dsimp only at h
      split at h
      · cases h
      · obtain ⟨-, rfl⟩ := Prod.mk.inj h
        rfl
      · split at h
        · obtain ⟨-, rfl⟩ := Prod.mk.inj h
          rfl
        · cases h

/-- How a reader's loop ends: its next `read_exact` finds too few bytes, or an event fails. -/
inductive Ending where
  | endOfStream
  | failed (fault : Fault)
  deriving DecidableEq, Repr

/-- `reader_loop` on the bytes of a client, up to its first `Err`: the outputs it goes on to
act on. Event `i` takes place at `clock i`. -/
def drive (json : SerdeJson) (s : ServerSession) (bytes : List UInt8) (clock : ℕ → TimeVal) :
    List SessionOutput × Ending :=
  if _hshort : bytes.length < s.nextAction.bytes then ([], .endOfStream)
  else
    let front := bytes.take s.nextAction.bytes
    let rest := bytes.drop s.nextAction.bytes
    match _hnext : s.nextAction with
    | .readHeader =>
        match s.handleEvent json (.headerReceived front) (clock 0) with
        | (.error fault, _) => ([], .failed fault)
        | (.ok _, s') => drive json s' rest fun i => clock (i + 1)
    | .readPacket _ =>
        match _hout : s.handleEvent json (.packetReceived front) (clock 0) with
        | (.error fault, _) => ([], .failed fault)
        | (.ok out, s') =>
            let (outs, ending) := drive json s' rest fun i => clock (i + 1)
            (out :: outs, ending)
termination_by 2 * bytes.length + (if s.framing.state = .readingHeader then 0 else 1)
decreasing_by
  · rw [_hnext] at _hshort
    simp only [List.length_drop, _hnext, Action.bytes, Base.baseSize] at _hshort ⊢
    split <;> split <;> omega
  · have hstate : s.framing.state ≠ .readingHeader := by
      intro hstate
      rw [nextAction, Framing.nextAction, hstate] at _hnext
      cases _hnext
    simp only [framing_of_packet _hout, hstate, List.length_drop, if_true, if_false]
    omega

end ServerSession

end SnapcastClient
