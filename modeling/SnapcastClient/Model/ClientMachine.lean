import SnapcastClient.Model.CircularBuffer
import SnapcastClient.Model.Framing
import Mathlib.Data.List.Sort

/-! # `ClientMachine`

The socket-free protocol core of the client. Clock readings are microseconds. -/

namespace SnapcastClient

inductive Message where
  | expired (lateness : TimeVal)
  | nothing
  | wireChunk (wc : WireChunk) (audibleAt : TimeVal)
  | serverSettings (s : ServerSettings)
  | codecHeader (ch : CodecHeader)
  deriving DecidableEq, Repr

/-- The settings a message hands to the caller. -/
def Message.settings : Message → Option ServerSettings
  | serverSettings s => some s
  | _ => none

def latencySamples : ℕ := 20

structure ClientMachine where
  framing : Framing
  latencyBuf : CircularBuffer latencySamples TimeVal
  sortedLatencyBuf : List TimeVal
  pktId : UInt16
  serverBufferMs : TimeVal
  localLatency : TimeVal
  lastSentTime : TimeVal
  lastTimeSentUs : ℤ
  clockOffset : TimeVal

namespace ClientMachine

def new : ClientMachine where
  framing := .new
  latencyBuf := .new
  sortedLatencyBuf := List.replicate latencySamples .zero
  pktId := 0
  serverBufferMs := ⟨0, 999999⟩
  localLatency := .zero
  lastSentTime := .zero
  lastTimeSentUs := 0
  clockOffset := ⟨0, 1000⟩

def Synchronized (m : ClientMachine) : Prop :=
  m.latencyBuf.len = m.sortedLatencyBuf.length

instance (m : ClientMachine) : Decidable m.Synchronized :=
  inferInstanceAs (Decidable (_ = _))

def nextAction (m : ClientMachine) : Action :=
  m.framing.nextAction

/-- The cadence rule of `poll_transmit`. -/
def Due (m : ClientMachine) (nowUs : ℤ) : Prop :=
  ¬ m.Synchronized ∧ 1000 ≤ nowUs - m.lastTimeSentUs ∨ 1000000 ≤ nowUs - m.lastTimeSentUs

instance (m : ClientMachine) (nowUs : ℤ) : Decidable (m.Due nowUs) :=
  inferInstanceAs (Decidable (_ ∨ _))

/-- The length of the request written into `out`, if one is due, with `out` and the machine
after the call. -/
def pollTransmit (m : ClientMachine) (nowUs : ℤ) (out : List UInt8) :
    Outcome (Option ℕ × List UInt8 × ClientMachine) :=
  if m.Due nowUs then do
    let tv := TimeVal.fromMicros nowUs
    let (out, n) ← Time.write out m.pktId 0 tv tv tv
    return (some n, out,
      { m with lastSentTime := tv, lastTimeSentUs := nowUs, pktId := m.pktId + 1 })
  else return (none, out, m)

/-- The loop that copies the samples over the front of the scratch buffer, by index. -/
def storeFront : List TimeVal → List TimeVal → Outcome (List TimeVal)
  | [], buf => .ok buf
  | _ :: _, [] => abort .sliceIndex
  | tv :: tvs, _ :: buf => do
      let buf ← storeFront tvs buf
      return tv :: buf

/-- The clock offset measured by a reply: half the difference of the two directions. -/
def measure (m : ClientMachine) (base : Base) (recvTs : TimeVal) : Outcome TimeVal := do
  let c2s ← base.receivedTv.sub m.lastSentTime
  let s2c ← recvTs.sub base.sentTv
  let diff ← c2s.sub s2c
  (TimeVal.fromMicros (diff.toMicros.tdiv 2)).normalize

/-- Push a sample and take the upper median of the samples so far: both buffers after it, and the
median. -/
def recordInto (ring : RingBuffer latencySamples TimeVal) (latencyBuf : ring.Carrier)
    (sortedLatencyBuf : List TimeVal) (offset : TimeVal) :
    Outcome (ring.Carrier × List TimeVal × TimeVal) := do
  let latencyBuf := ring.pushBack latencyBuf offset
  let stored ← storeFront (ring.iter latencyBuf) sortedLatencyBuf
  let sorted := stored.insertionSort (· ≤ ·)
  if sorted.length < ring.len latencyBuf then
    abort .overflow
  let nzSamples := sorted.drop (sorted.length - ring.len latencyBuf)
  let some median := nzSamples[nzSamples.length / 2]? | abort .sliceIndex
  return (latencyBuf, sorted, median)

def record (m : ClientMachine) (offset : TimeVal) : Outcome ClientMachine := do
  let (latencyBuf, sortedLatencyBuf, clockOffset) ←
    recordInto (CircularBuffer.ring latencySamples TimeVal) m.latencyBuf m.sortedLatencyBuf offset
  return { m with latencyBuf, sortedLatencyBuf, clockOffset }

/-- The `Time` branch of `process_packet`. -/
def processTime (m : ClientMachine) (base : Base) (recvTs : TimeVal) :
    Outcome ClientMachine := do
  let offset ← m.measure base recvTs
  m.record offset

/-- The `WireChunk` branch of `process_packet`. -/
def processWireChunk (m : ClientMachine) (wc : WireChunk) (recvTs : TimeVal) :
    Outcome Message := do
  let tc ← wc.timestamp.sub m.clockOffset
  let buffered ← tc.add m.serverBufferMs
  let audibleAt ← buffered.sub m.localLatency
  let cmp ← audibleAt.sub recvTs
  if cmp.sec.toInt < 0 then
    return .expired cmp
  else
    return .wireChunk wc audibleAt

/-- The `ServerSettings` branch of `process_packet`; both fields are cast with `as i32`. -/
def processSettings (m : ClientMachine) (s : ServerSettings) : Outcome ClientMachine := do
  let serverBufferMs ← TimeVal.fromMillis s.bufferMs.toInt32
  let localLatency ← TimeVal.fromMillis s.latency.toInt32
  return { m with serverBufferMs, localLatency }

/-- The result of a call with the machine after it. -/
def processPacket (json : SerdeJson) (m : ClientMachine) (base : Base) (payload : List UInt8)
    (nowUs : ℤ) : Outcome Message × ClientMachine :=
  let recvTs := TimeVal.fromMicros nowUs
  match base.decode json payload with
  | .error fault => (.error fault, m)
  | .ok (.time _) =>
      match m.processTime base recvTs with
      | .error fault => (.error fault, m)
      | .ok m' => (.ok .nothing, m')
  | .ok (.wireChunk wc) => (m.processWireChunk wc recvTs, m)
  | .ok (.serverSettings s) =>
      match m.processSettings s with
      | .error fault => (.error fault, m)
      | .ok m' => (.ok (.serverSettings s), m')
  | .ok (.codecHeader ch) => (.ok (.codecHeader ch), m)

def handleEvent (json : SerdeJson) (m : ClientMachine) (event : Event) (nowUs : ℤ) :
    Outcome Message × ClientMachine :=
  match event with
  | .headerReceived bytes =>
      match m.framing.onHeader bytes with
      | .error fault => (.error fault, m)
      | .ok framing => (.ok .nothing, { m with framing })
  | .packetReceived bytes =>
      match m.framing.takeBase with
      | .error fault => (.error fault, m)
      | .ok (base, framing) => processPacket json { m with framing } base bytes nowUs

end ClientMachine

end SnapcastClient
