import SnapcastClient.Model.TimeVal

/-! # The playing thread

`handle_samples` up to the decoder: the wait until a chunk is due. -/

namespace SnapcastClient

/-- `From<Duration> for TimeVal`, of a duration in nanoseconds. -/
def TimeVal.ofDuration (nanos : ℕ) : TimeVal :=
  ⟨Int32.ofNat (nanos / 1000000000), Int32.ofNat (nanos / 1000 % 1000000)⟩

/-- What becomes of a chunk: it is dropped, or decoded after a sleep. -/
inductive Playing where
  | inThePast
  | due (sleepUs : ℤ)
  deriving DecidableEq, Repr

/-- `elapsed` is the time on the client clock, `playerLatMs` the player's own latency. -/
def handleSample (clientAudibleTs : TimeVal) (elapsed : ℕ) (playerLatMs : UInt16) :
    Outcome Playing := do
  let remaining ← clientAudibleTs.sub (.ofDuration elapsed)
  if remaining.sec.toInt < 0 then
    return .inThePast
  else
    let remainingUs := remaining.toMicros
    let leadUs : ℤ := playerLatMs.toNat * 1000
    return .due (if leadUs < remainingUs then remainingUs - leadUs else 0)

end SnapcastClient
