import SnapcastClient.Verification.Framing
import SnapcastClient.Verification.SerdeJson

/-! # The server-to-client byte stream

Whatever sequence of messages the server encodes, the framing reads it back. -/

namespace SnapcastClient

/-- A message the server writes, with the remaining arguments of its `as_buf`. A chunk's
payload leaves room for its timestamp and length. -/
inductive ServerWrite where
  | time (id refersTo : UInt16) (sentTv receivedTv latency : TimeVal)
  | wireChunk (wc : WireChunk) (fits : wc.payload.length ≤ Base.maxPayload - 12) (id : UInt16)
      (now : TimeVal)
  | serverSettings (s : ServerSettings) (id : UInt16) (now : TimeVal)
  | opusHeader (o : OpusMetadata) (id : UInt16) (now : TimeVal)

namespace ServerWrite

def asBuf (json : SerdeJson) : ServerWrite → Outcome (List UInt8)
  | time id refersTo sentTv receivedTv latency =>
      Time.asBuf id refersTo sentTv receivedTv latency
  | wireChunk wc _ id now => wc.asBuf id now
  | serverSettings s id now => s.asBuf json id now
  | opusHeader o id now => CodecHeader.asBuf ⟨"opus", .opus o⟩ id now

def message : ServerWrite → ServerMessage
  | time _ _ _ _ latency => .time ⟨latency⟩
  | wireChunk wc _ _ _ => .wireChunk wc
  | serverSettings s _ _ => .serverSettings s
  | opusHeader o _ _ => .codecHeader ⟨"opus", .opus o⟩

def payload : ServerWrite → List UInt8
  | time _ _ _ _ latency => latency.asBuf
  | wireChunk wc _ _ _ => wc.encode
  | serverSettings s _ _ => ServerSettings.encode s.text
  | opusHeader o _ _ => CodecHeader.encode "opus" o.asPayload

/-- The header that announces the payload. -/
def base (w : ServerWrite) : Base :=
  let size := UInt32.ofNat w.payload.length
  match w with
  | time id refersTo sentTv receivedTv _ =>
      { mtype := .time, id, refersTo, sentTv, receivedTv, size }
  | wireChunk _ _ id now =>
      { mtype := .wireChunk, id, refersTo := 0, sentTv := now, receivedTv := now, size }
  | serverSettings _ id now =>
      { mtype := .serverSettings, id, refersTo := 0, sentTv := now, receivedTv := now, size }
  | opusHeader _ id now =>
      { mtype := .codecHeader, id, refersTo := 0, sentTv := now, receivedTv := now, size }

theorem base_size (w : ServerWrite) : w.base.size = UInt32.ofNat w.payload.length := by
  cases w <;> rfl

theorem settings_length_le (s : ServerSettings) : (utf8Bytes s.text).length ≤ 512 := by
  have htext := s.text_length_le
  have hbytes := utf8Bytes_length_le s.text
  omega

theorem payload_length_le (w : ServerWrite) : w.payload.length ≤ Base.maxPayload := by
  rw [Base.maxPayload]
  cases w with
  | time id refersTo sentTv receivedTv latency => simp [payload]
  | wireChunk wc fits id now =>
      rw [Base.maxPayload] at fits
      rw [payload, WireChunk.encode_length]
      omega
  | serverSettings s id now =>
      have := settings_length_le s
      rw [payload, ServerSettings.encode_length]
      omega
  | opusHeader o id now =>
      have hname : (utf8Bytes "opus").length = 4 := by decide
      rw [payload, CodecHeader.encode_length, o.asPayload_length, hname]
      omega

def frame (w : ServerWrite) : Frame :=
  .ofBase w.base w.payload (by rw [w.base_size, toNat_ofNat_length
    (lt_size_of_le_maxPayload w.payload_length_le)]) w.payload_length_le

theorem asBuf_eq {json : SerdeJson} (hjson : json.SettingsLaws) (w : ServerWrite) :
    w.asBuf json = .ok w.frame.bytes := by
  change w.asBuf json = .ok (w.base.header ++ w.payload)
  cases w with
  | time id refersTo sentTv receivedTv latency =>
      rw [asBuf, Time.asBuf_eq, base, payload, TimeVal.asBuf_length]
      rfl
  | wireChunk wc fits id now => exact Base.asBuf_eq _ _
  | serverSettings s id now =>
      simp only [asBuf, ServerSettings.asBuf, hjson.print, unwrapJson, ok_bind, Base.asBuf_eq]
      rfl
  | opusHeader o id now =>
      simp only [asBuf, CodecHeader.asBuf, CodecMetadata.asPayload, ok_bind, Base.asBuf_eq]
      rfl

theorem decode_payload {json : SerdeJson} (hjson : json.SettingsLaws) (w : ServerWrite) :
    w.base.decode json w.payload = .ok w.message := by
  cases w with
  | time id refersTo sentTv receivedTv latency =>
      simp only [Base.decode, base, payload, Time.tryFrom_asBuf]
      rfl
  | wireChunk wc fits id now =>
      have hlen : wc.payload.length ≤ Base.maxPayload := Nat.le_trans fits (Nat.sub_le _ _)
      have hread : WireChunk.ofSlice wc.encode = .ok wc :=
        WireChunk.ofSlice_eq_ok.mpr ⟨lt_size_of_le_maxPayload hlen, [], by simp⟩
      simp only [Base.decode, base, payload, hread]
      rfl
  | serverSettings s id now =>
      have hlen : (utf8Bytes s.text).length < UInt32.size := by
        have hsize : UInt32.size = 4294967296 := rfl
        have := settings_length_le s
        omega
      have hread : ServerSettings.ofSlice json (ServerSettings.encode s.text) = .ok s :=
        ServerSettings.ofSlice_eq_ok.mpr ⟨s.text, [], hlen, hjson.parse s, by simp⟩
      simp only [Base.decode, base, payload, hread]
      rfl
  | opusHeader o id now =>
      have hname : (utf8Bytes "opus").length < UInt32.size := by decide
      have hmetadata : o.asPayload.length < UInt32.size := by
        rw [o.asPayload_length]
        decide
      have hopus : CodecHeader.metadataOf "opus" o.asPayload = .ok (.opus o) := by
        rw [CodecHeader.metadataOf, if_pos rfl, OpusMetadata.ofSlice_asPayload]
        rfl
      have hread : CodecHeader.ofSlice (CodecHeader.encode "opus" o.asPayload) =
          .ok ⟨"opus", .opus o⟩ :=
        CodecHeader.ofSlice_eq_ok.mpr ⟨o.asPayload, [], hname, hmetadata, hopus, by simp⟩
      simp only [Base.decode, base, payload, hread]
      rfl

/-- Reading the concatenated encodings of any list of messages yields the list, each
message under its own header, consumes every byte and ends waiting for a header. -/
theorem readAll_asBuf {json : SerdeJson} (hjson : json.SettingsLaws) (ws : List ServerWrite) :
    ∃ encodings, ws.mapM (asBuf json) = .ok encodings ∧
      Framing.readAll json .new encodings.flatten =
        .ok (ws.map fun w => (w.base, w.message), .new, []) := by
  have hasBuf : asBuf json = fun w => pure w.frame.bytes := funext (asBuf_eq hjson)
  refine ⟨ws.map fun w => w.frame.bytes, by rw [hasBuf, List.mapM_pure]; rfl, ?_⟩
  rw [← List.flatMap_def]
  exact Framing.readAll_frames ws frame message (decode_payload hjson)

theorem readAll_asBuf_compact :
    let ws : List ServerWrite :=
      [.serverSettings ⟨2000, 0, false, 42⟩ 0 ⟨100, 200⟩, .opusHeader ⟨48000, 16, 2⟩ 1 ⟨100, 300⟩,
        .wireChunk ⟨⟨1000, 2000⟩, [1, 2, 3]⟩ (by decide) 2 ⟨100, 400⟩,
        .time 3 42 ⟨12, 345⟩ ⟨67, 890⟩ ⟨1, 500⟩]
    ∃ encodings, ws.mapM (asBuf .compact) = .ok encodings ∧
      Framing.readAll .compact .new encodings.flatten =
        .ok (ws.map fun w => (w.base, w.message), .new, []) :=
  readAll_asBuf SerdeJson.compact_settingsLaws _

end ServerWrite

end SnapcastClient
