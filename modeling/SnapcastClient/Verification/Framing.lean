import SnapcastClient.Model.Framing
import SnapcastClient.Verification.Codec

/-! # Cutting a byte stream into frames

The framing cuts a concatenation of frames back into its headers and payloads. -/

namespace SnapcastClient

namespace Frame

/-- The frame that `Base::as_buf` writes. -/
def ofBase (base : Base) (payload : List UInt8) (hsize : payload.length = base.size.toNat)
    (hmax : payload.length ≤ Base.maxPayload) : Frame where
  base
  header := base.header
  payload
  accepted := by
    have h := base.tryFrom_header [] (hsize ▸ hmax)
    rwa [List.append_nil] at h
  header_length := base.header_length
  payload_length := hsize

end Frame

/-- The frame of a `Time` message. -/
def Time.frame (id refersTo : UInt16) (sentTv receivedTv latency : TimeVal) : Frame :=
  .ofBase (Time.base id refersTo sentTv receivedTv) latency.asBuf latency.asBuf_length
    (by rw [latency.asBuf_length]; decide)

theorem Time.frame_bytes_length (id refersTo : UInt16) (sentTv receivedTv latency : TimeVal) :
    (frame id refersTo sentTv receivedTv latency).bytes.length = wireSize := by
  rw [Frame.bytes, List.length_append, Frame.header_length, Frame.payload_length]
  rfl

theorem Time.asBuf_eq_frame (id refersTo : UInt16) (sentTv receivedTv latency : TimeVal) :
    asBuf id refersTo sentTv receivedTv latency =
      .ok (frame id refersTo sentTv receivedTv latency).bytes :=
  asBuf_eq id refersTo sentTv receivedTv latency

namespace Framing

variable {json : SerdeJson}

@[simp] theorem nextAction_new : new.nextAction = .readHeader := rfl

theorem nextAction_eq_readPacket {f : Framing} {size : UInt32} :
    f.nextAction = .readPacket size ↔ ∃ base, f = ⟨.readingPacket base⟩ ∧ base.size = size := by
  obtain ⟨state⟩ := f
  cases state <;> simp [nextAction]

theorem onHeader_frame (f : Framing) (frame : Frame) :
    f.onHeader frame.header = .ok ⟨.readingPacket frame.base⟩ := by
  simp [onHeader, frame.accepted]

/-- A driver at a frame boundary stops exactly when no whole header is left. -/
theorem readAll_new_short {bytes : List UInt8} (h : bytes.length < Base.baseSize) :
    readAll json new bytes = .ok ([], new, bytes) := by
  have hshort : bytes.length < new.nextAction.bytes := h
  rw [readAll, dif_pos hshort]

theorem readAll_header (frame : Frame) (rest : List UInt8) :
    readAll json new (frame.header ++ rest) =
      readAll json ⟨.readingPacket frame.base⟩ rest := by
  have hlen : ¬ (frame.header ++ rest).length < new.nextAction.bytes := by
    simp [Action.bytes, frame.header_length]
  rw [readAll, dif_neg hlen]
  change new.onHeader ((frame.header ++ rest).take Base.baseSize) >>= _ = _
  rw [List.take_left' frame.header_length, onHeader_frame, ok_bind]
  change readAll json _ ((frame.header ++ rest).drop Base.baseSize) = _
  rw [List.drop_left' frame.header_length]

theorem readAll_payload (frame : Frame) {message : ServerMessage} (rest : List UInt8)
    (hdecode : frame.base.decode json frame.payload = .ok message) :
    readAll json ⟨.readingPacket frame.base⟩ (frame.payload ++ rest) = do
      let (messages, f, rest) ← readAll json new rest
      return ((frame.base, message) :: messages, f, rest) := by
  have hlen : ¬ (frame.payload ++ rest).length <
      (nextAction ⟨.readingPacket frame.base⟩).bytes := by
    simp [nextAction, Action.bytes, frame.payload_length]
  rw [readAll, dif_neg hlen]
  simp only [nextAction, Action.bytes, takeBase]
  rw [List.take_left' frame.payload_length, List.drop_left' frame.payload_length, hdecode,
    ok_bind]
  rfl

/-- Reading a frame yields its message and leaves the driver at the next frame. -/
theorem readAll_frame (frame : Frame) {message : ServerMessage} (rest : List UInt8)
    (hdecode : frame.base.decode json frame.payload = .ok message) :
    readAll json new (frame.bytes ++ rest) = do
      let (messages, f, rest) ← readAll json new rest
      return ((frame.base, message) :: messages, f, rest) := by
  rw [Frame.bytes, List.append_assoc, readAll_header, readAll_payload frame rest hdecode]

/-- A concatenation of decodable frames is cut into exactly these frames. -/
theorem readAll_frames {ι : Type} (items : List ι) (frame : ι → Frame)
    (message : ι → ServerMessage)
    (hdecode : ∀ i, (frame i).base.decode json (frame i).payload = .ok (message i)) :
    readAll json new (items.flatMap fun i => (frame i).bytes) =
      .ok (items.map fun i => ((frame i).base, message i), new, []) := by
  induction items with
  | nil => exact readAll_new_short (by simp [Base.baseSize])
  | cons i items ih =>
      rw [List.flatMap_cons, readAll_frame (frame i) _ (hdecode i), ih, ok_bind]
      rfl

end Framing

end SnapcastClient
