import SnapcastClient.Model.TimeVal

/-! # The snapcast wire format

Headers, payloads and their hand-written encoders and decoders. `serde_json` stays a
parameter of the functions that call it. -/

namespace SnapcastClient

/-! ## Integer fields -/

def u16Bytes (x : UInt16) : List UInt8 :=
  LittleEndian.toBytes 2 x.toNat

def u32Bytes (x : UInt32) : List UInt8 :=
  LittleEndian.toBytes 4 x.toNat

def i32Bytes (x : Int32) : List UInt8 :=
  LittleEndian.toBytes 4 x.toUInt32.toNat

def sliceToU16 : List UInt8 → Outcome UInt16
  | b₀ :: b₁ :: _ => .ok (UInt16.ofNat (LittleEndian.ofBytes [b₀, b₁]))
  | _ => abort .sliceIndex

def sliceToU32 : List UInt8 → Outcome UInt32
  | b₀ :: b₁ :: b₂ :: b₃ :: _ =>
      .ok (UInt32.ofNat (LittleEndian.ofBytes [b₀, b₁, b₂, b₃]))
  | _ => abort .sliceIndex

def sliceToI32 (s : List UInt8) : Outcome Int32 := do
  let x ← sliceToU32 s
  return x.toInt32

def sliceToU32be : List UInt8 → Outcome UInt32
  | b₀ :: b₁ :: b₂ :: b₃ :: _ =>
      .ok (UInt32.ofNat (LittleEndian.ofBytes [b₃, b₂, b₁, b₀]))
  | _ => abort .sliceIndex

namespace TimeVal

def asBuf (t : TimeVal) : List UInt8 :=
  i32Bytes t.sec ++ i32Bytes t.usec

/-- `From<&[u8]> for TimeVal`. -/
def ofSlice (buf : List UInt8) : Outcome TimeVal := do
  let sec ← sliceToI32 (← slice buf 0 4)
  let usec ← sliceToI32 (← slice buf 4 8)
  return ⟨sec, usec⟩

end TimeVal

/-! ## Message types -/

inductive MessageType where
  | base
  | codecHeader
  | wireChunk
  | serverSettings
  | time
  | hello
  | streamTags
  | clientInfo
  deriving DecidableEq, Repr

namespace MessageType

/-- The `repr(u16)` value. -/
def toU16 : MessageType → UInt16
  | base => 0
  | codecHeader => 1
  | wireChunk => 2
  | serverSettings => 3
  | time => 4
  | hello => 5
  | streamTags => 6
  | clientInfo => 7

def tryFrom (u : UInt16) : Outcome MessageType :=
  match u with
  | 0 => .ok base
  | 1 => .ok codecHeader
  | 2 => .ok wireChunk
  | 3 => .ok serverSettings
  | 4 => .ok time
  | 5 => .ok hello
  | 6 => .ok streamTags
  | 7 => .ok clientInfo
  | other => bail s!"illegal message type {other}"

/-- The derived `Debug` text. -/
def debug : MessageType → String
  | base => "Base"
  | codecHeader => "CodecHeader"
  | wireChunk => "WireChunk"
  | serverSettings => "ServerSettings"
  | time => "Time"
  | hello => "Hello"
  | streamTags => "StreamTags"
  | clientInfo => "ClientInfo"

end MessageType

/-! ## Payloads -/

structure ServerSettings where
  bufferMs : UInt32
  latency : UInt32
  muted : Bool
  volume : UInt8
  deriving DecidableEq, Repr

structure OpusMetadata where
  sampleRate : UInt32
  bitDepth : UInt16
  channelCount : UInt16
  deriving DecidableEq, Repr

structure PcmMetadata where
  channelCount : UInt16
  audioRate : UInt32
  bitDepth : UInt16
  deriving DecidableEq, Repr

structure FlacMetadata where
  sampleRate : UInt32
  bitDepth : UInt16
  channelCount : UInt16
  deriving DecidableEq, Repr

inductive CodecMetadata where
  | flac (f : FlacMetadata)
  | pcm (p : PcmMetadata)
  | opus (o : OpusMetadata)
  deriving DecidableEq, Repr

structure CodecHeader where
  codec : String
  metadata : CodecMetadata
  deriving DecidableEq, Repr

structure WireChunk where
  timestamp : TimeVal
  payload : List UInt8
  deriving DecidableEq, Repr

structure Time where
  latency : TimeVal
  deriving DecidableEq, Repr

/-- The field names are the JSON keys. -/
structure ClientHello where
  MAC : String
  HostName : String
  Version : String
  ClientName : String
  OS : String
  Arch : String
  Instance : UInt8
  ID : String
  SnapStreamProtocolVersion : UInt8
  deriving DecidableEq, Repr

inductive ClientMessage where
  | time (t : Time)
  | hello (h : ClientHello)
  deriving DecidableEq, Repr

inductive ServerMessage where
  | serverSettings (s : ServerSettings)
  | codecHeader (ch : CodecHeader)
  | wireChunk (wc : WireChunk)
  | time (t : Time)
  deriving DecidableEq, Repr

/-- The `serde_json` entry points the wire format uses, with the text of their errors. -/
structure SerdeJson where
  settingsToString : ServerSettings → Except String String
  settingsFromStr : String → Except String ServerSettings
  helloToString : ClientHello → Except String String
  helloFromSlice : List UInt8 → Except String ClientHello

/-- `serde_json::…(…).unwrap()`. -/
def unwrapJson {α : Type} : Except String α → Outcome α
  | .ok a => .ok a
  | .error _ => abort .json

/-- `std::str::from_utf8(…).unwrap()`. -/
def unwrapUtf8 (bytes : List UInt8) : Outcome String :=
  match fromUtf8 bytes with
  | some s => .ok s
  | none => abort .utf8

/-! ## The header -/

structure Base where
  mtype : MessageType
  id : UInt16
  refersTo : UInt16
  sentTv : TimeVal
  receivedTv : TimeVal
  size : UInt32
  deriving DecidableEq, Repr

namespace Base

def baseSize : ℕ := 26

def maxPayload : ℕ := 2 ^ 20

/-- `TryFrom<&[u8]> for Base`. -/
def tryFrom (buf : List UInt8) : Outcome Base := do
  ensure (baseSize ≤ buf.length) "short base header"
  let mtype ← MessageType.tryFrom (← sliceToU16 (← slice buf 0 2))
  let size ← sliceToU32 (← slice buf 22 26)
  ensure (size.toNat ≤ maxPayload) s!"payload size {size} exceeds max"
  let id ← sliceToU16 (← slice buf 2 4)
  let refersTo ← sliceToU16 (← slice buf 4 6)
  let sentTv ← TimeVal.ofSlice (← slice buf 6 14)
  let receivedTv ← TimeVal.ofSlice (← slice buf 14 22)
  return { mtype, id, refersTo, sentTv, receivedTv, size }

/-- The buffer after the write, with the number of bytes written. -/
def write (b : Base) (out payload : List UInt8) : Outcome (List UInt8 × ℕ) := do
  let out ← copyAt out 0 (u16Bytes b.mtype.toU16)
  let out ← copyAt out 2 (u16Bytes b.id)
  let out ← copyAt out 4 (u16Bytes b.refersTo)
  let out ← copyAt out 6 b.sentTv.asBuf
  let out ← copyAt out 14 b.receivedTv.asBuf
  let out ← copyAt out 22 (u32Bytes b.size)
  let out ← copyAt out baseSize payload
  return (out, baseSize + payload.length)

def asBuf (b : Base) (payload : List UInt8) : Outcome (List UInt8) := do
  let (out, _) ← b.write (List.replicate (baseSize + payload.length) 0) payload
  return out

end Base

/-! ## Encoders and decoders of the payloads -/

namespace OpusMetadata

def opusMarker : UInt32 := 0x4F505553

def asPayload (o : OpusMetadata) : List UInt8 :=
  u32Bytes opusMarker ++ u32Bytes o.sampleRate ++ u16Bytes o.bitDepth ++
    u16Bytes o.channelCount

def ofSlice (buf : List UInt8) : Outcome OpusMetadata := do
  let _marker ← sliceToU32 (← slice buf 0 4)
  let sampleRate ← sliceToU32 (← slice buf 4 8)
  let bitDepth ← sliceToU16 (← slice buf 8 10)
  let channelCount ← sliceToU16 (← slice buf 10 12)
  return { sampleRate, bitDepth, channelCount }

end OpusMetadata

namespace PcmMetadata

/-- The bytes of "RIFF". -/
def riff : List UInt8 := [0x52, 0x49, 0x46, 0x46]

def ofSlice (buf : List UInt8) : Outcome PcmMetadata := do
  assertEq (← slice buf 0 4) riff
  let formatTag ← sliceToU16 (← slice buf 20 22)
  assertEq formatTag 1
  let channelCount ← sliceToU16 (← slice buf 22 24)
  let audioRate ← sliceToU32 (← slice buf 24 28)
  let bitDepth ← sliceToU16 (← slice buf 34 36)
  return { channelCount, audioRate, bitDepth }

end PcmMetadata

namespace FlacMetadata

def ofSlice (buf : List UInt8) : Outcome FlacMetadata := do
  let buf ← slice buf 4 buf.length
  let bitfield ← sliceToU32be (← slice buf 14 18)
  let sampleRate := (bitfield &&& 0xffff000) >>> 12
  let channelCount := (bitfield &&& 0x300) >>> 8
  let bitDepth := bitfield &&& 0b11111
  return { sampleRate, bitDepth := bitDepth.toUInt16, channelCount := channelCount.toUInt16 }

end FlacMetadata

namespace CodecMetadata

def channels : CodecMetadata → ℕ
  | opus o => o.channelCount.toNat
  | pcm p => p.channelCount.toNat
  | flac f => f.channelCount.toNat

def rate : CodecMetadata → ℕ
  | opus o => o.sampleRate.toNat
  | pcm p => p.audioRate.toNat
  | flac f => f.sampleRate.toNat

def asPayload : CodecMetadata → Outcome (List UInt8)
  | opus o => .ok o.asPayload
  | pcm _ => abort (.todo "encoding pcm codec header")
  | flac _ => abort (.todo "encoding flac codec header")

end CodecMetadata

namespace CodecHeader

/-- The `match` on the codec name. -/
def metadataOf (codec : String) (payload : List UInt8) : Outcome CodecMetadata :=
  if codec = "opus" then CodecMetadata.opus <$> OpusMetadata.ofSlice payload
  else if codec = "flac" then CodecMetadata.flac <$> FlacMetadata.ofSlice payload
  else if codec = "pcm" then CodecMetadata.pcm <$> PcmMetadata.ofSlice payload
  else abort (.todo s!"unsupported codec {codec}")

def ofSlice (buf : List UInt8) : Outcome CodecHeader := do
  let size ← sliceToU32 (← slice buf 0 4)
  let codecNameEnd := 4 + size.toNat
  let name ← slice buf 4 codecNameEnd
  let codec ← unwrapUtf8 name
  let payloadLen ← sliceToU32 (← slice buf codecNameEnd (codecNameEnd + 4))
  let payload ← slice buf (codecNameEnd + 4) (codecNameEnd + 4 + payloadLen.toNat)
  let metadata ← metadataOf codec payload
  return { codec, metadata }

def asBuf (ch : CodecHeader) (id : UInt16) (now : TimeVal) : Outcome (List UInt8) := do
  let codec := utf8Bytes ch.codec
  let metadata ← ch.metadata.asPayload
  let payload := u32Bytes (UInt32.ofNat codec.length) ++ codec ++
    u32Bytes (UInt32.ofNat metadata.length) ++ metadata
  Base.asBuf
    { mtype := .codecHeader, id, refersTo := 0, sentTv := now, receivedTv := now,
      size := UInt32.ofNat payload.length } payload

end CodecHeader

namespace ServerSettings

def ofSlice (json : SerdeJson) (buf : List UInt8) : Outcome ServerSettings := do
  let len ← sliceToU32 (← slice buf 0 4)
  let text ← slice buf 4 (4 + len.toNat)
  let s ← unwrapUtf8 text
  unwrapJson (json.settingsFromStr s)

def asBuf (json : SerdeJson) (s : ServerSettings) (id : UInt16) (now : TimeVal) :
    Outcome (List UInt8) := do
  let text ← unwrapJson (json.settingsToString s)
  let payload := utf8Bytes text
  let payload := u32Bytes (UInt32.ofNat payload.length) ++ payload
  Base.asBuf
    { mtype := .serverSettings, id, refersTo := 0, sentTv := now, receivedTv := now,
      size := UInt32.ofNat payload.length } payload

end ServerSettings

namespace WireChunk

def ofSlice (buf : List UInt8) : Outcome WireChunk := do
  let size ← sliceToU32 (← slice buf 8 12)
  let timestamp ← TimeVal.ofSlice (← slice buf 0 8)
  let payload ← slice buf 12 (12 + size.toNat)
  return { timestamp, payload }

def asBuf (wc : WireChunk) (id : UInt16) (now : TimeVal) : Outcome (List UInt8) :=
  let payload := wc.timestamp.asBuf ++ u32Bytes (UInt32.ofNat wc.payload.length) ++ wc.payload
  Base.asBuf
    { mtype := .wireChunk, id, refersTo := 0, sentTv := now, receivedTv := now,
      size := UInt32.ofNat payload.length } payload

end WireChunk

namespace Time

def wireSize : ℕ := Base.baseSize + 8

/-- `TryFrom<&[u8]> for Time`. -/
def tryFrom (buf : List UInt8) : Outcome Time := do
  ensure (8 ≤ buf.length) "short Time payload"
  return { latency := ← TimeVal.ofSlice (← slice buf 0 8) }

def write (out : List UInt8) (id refersTo : UInt16) (sentTv receivedTv latency : TimeVal) :
    Outcome (List UInt8 × ℕ) :=
  let payload := latency.asBuf
  Base.write
    { mtype := .time, id, refersTo, sentTv, receivedTv, size := UInt32.ofNat payload.length }
    out payload

def asBuf (id refersTo : UInt16) (sentTv receivedTv latency : TimeVal) :
    Outcome (List UInt8) := do
  let (out, _) ← write (List.replicate wireSize 0) id refersTo sentTv receivedTv latency
  return out

end Time

namespace ClientHello

/-- `TryFrom<&[u8]> for ClientHello`. On a 64-bit target the `checked_add` cannot fail. -/
def tryFrom (json : SerdeJson) (buf : List UInt8) : Outcome ClientHello := do
  ensure (4 ≤ buf.length) "short hello"
  let len ← sliceToU32 buf
  let stop := len.toNat + 4
  ensure (stop ≤ buf.length) s!"hello length {len} out of range"
  let text ← slice buf 4 stop
  match json.helloFromSlice text with
  | .ok h => return h
  | .error message => bail message

def asBuf (json : SerdeJson) (h : ClientHello) : Outcome (List UInt8) := do
  let text ← unwrapJson (json.helloToString h)
  let payload := utf8Bytes text
  let payload := u32Bytes (UInt32.ofNat payload.length) ++ payload
  Base.asBuf
    { mtype := .hello, id := 0, refersTo := 0, sentTv := .zero, receivedTv := .zero,
      size := UInt32.ofNat payload.length } payload

end ClientHello

namespace Base

/-- What the client accepts from the server. -/
def decode (json : SerdeJson) (b : Base) (payload : List UInt8) : Outcome ServerMessage :=
  match b.mtype with
  | .codecHeader => ServerMessage.codecHeader <$> CodecHeader.ofSlice payload
  | .serverSettings => ServerMessage.serverSettings <$> ServerSettings.ofSlice json payload
  | .wireChunk => ServerMessage.wireChunk <$> WireChunk.ofSlice payload
  | .time => ServerMessage.time <$> Time.tryFrom payload
  | other => bail s!"unexpected server message type {other.debug}"

/-- What the server accepts from a client. -/
def decodeC (json : SerdeJson) (b : Base) (payload : List UInt8) : Outcome ClientMessage :=
  match b.mtype with
  | .hello => ClientMessage.hello <$> ClientHello.tryFrom json payload
  | .time => ClientMessage.time <$> Time.tryFrom payload
  | other => bail s!"unexpected client message type {other.debug}"

end Base

end SnapcastClient
