import SnapcastClient.Model.SerdeJson
import SnapcastClient.Verification.Framing

/-! # Which payloads the client survives

Decoding returns exactly when the payload has the layout its message type promises. -/

namespace SnapcastClient

/-! ## Fields at fixed offsets -/

theorem exists_u16 (buf : List UInt8) (start : ℕ) (h : start + 2 ≤ buf.length) :
    ∃ s x, slice buf start (start + 2) = .ok s ∧ sliceToU16 s = .ok x := by
  have hs := slice_of_le _ _ _ (Nat.le_add_right start 2) h
  have hlen := length_of_slice hs
  match hm : (buf.take (start + 2)).drop start, hlen with
  | b₀ :: b₁ :: rest, _ => exact ⟨_, _, hs, by rw [hm]; rfl⟩
  | [_], hlen => exact absurd hlen (by simp)
  | [], hlen => exact absurd hlen (by simp)

theorem exists_u32 (buf : List UInt8) (start : ℕ) (h : start + 4 ≤ buf.length) :
    ∃ s x, slice buf start (start + 4) = .ok s ∧ sliceToU32 s = .ok x := by
  have hs := slice_of_le _ _ _ (Nat.le_add_right start 4) h
  have hlen := length_of_slice hs
  match hm : (buf.take (start + 4)).drop start, hlen with
  | b₀ :: b₁ :: b₂ :: b₃ :: rest, _ => exact ⟨_, _, hs, by rw [hm]; rfl⟩
  | [_, _, _], hlen => exact absurd hlen (by simp)
  | [_, _], hlen => exact absurd hlen (by simp)
  | [_], hlen => exact absurd hlen (by simp)
  | [], hlen => exact absurd hlen (by simp)

theorem infallible_sliceToU16 (s : List UInt8) : Infallible (sliceToU16 s) := by
  match s with
  | _ :: _ :: _ => exact infallible_ok _
  | [_] => exact infallible_abort _
  | [] => exact infallible_abort _

theorem infallible_sliceToU32 (s : List UInt8) : Infallible (sliceToU32 s) := by
  match s with
  | _ :: _ :: _ :: _ :: _ => exact infallible_ok _
  | [_, _, _] => exact infallible_abort _
  | [_, _] => exact infallible_abort _
  | [_] => exact infallible_abort _
  | [] => exact infallible_abort _

theorem sliceToU32be_returns {s : List UInt8} (h : 4 ≤ s.length) :
    ∃ x, sliceToU32be s = .ok x := by
  match s, h with
  | b₀ :: b₁ :: b₂ :: b₃ :: rest, _ => exact ⟨_, rfl⟩

theorem infallible_sliceToU32be (s : List UInt8) : Infallible (sliceToU32be s) := by
  match s with
  | _ :: _ :: _ :: _ :: _ => exact infallible_ok _
  | [_, _, _] => exact infallible_abort _
  | [_, _] => exact infallible_abort _
  | [_] => exact infallible_abort _
  | [] => exact infallible_abort _

theorem stop_le_of_slice {buf middle : List UInt8} {start stop : ℕ}
    (h : slice buf start stop = .ok middle) : stop ≤ buf.length :=
  (slice_eq_ok.mp h).2.1

/-! ## Codec metadata -/

theorem OpusMetadata.ofSlice_returns_iff {buf : List UInt8} :
    (∃ o, ofSlice buf = .ok o) ↔ 12 ≤ buf.length := by
  constructor
  · rintro ⟨o, h⟩
    obtain ⟨s₁, hs₁, h⟩ := bind_eq_ok.mp h
    obtain ⟨_, -, h⟩ := bind_eq_ok.mp h
    obtain ⟨s₂, hs₂, h⟩ := bind_eq_ok.mp h
    obtain ⟨_, -, h⟩ := bind_eq_ok.mp h
    obtain ⟨s₃, hs₃, h⟩ := bind_eq_ok.mp h
    obtain ⟨_, -, h⟩ := bind_eq_ok.mp h
    obtain ⟨s₄, hs₄, h⟩ := bind_eq_ok.mp h
    exact stop_le_of_slice hs₄
  · intro h
    obtain ⟨s₁, x₁, hs₁, hx₁⟩ := exists_u32 buf 0 (by omega)
    obtain ⟨s₂, x₂, hs₂, hx₂⟩ := exists_u32 buf 4 (by omega)
    obtain ⟨s₃, x₃, hs₃, hx₃⟩ := exists_u16 buf 8 (by omega)
    obtain ⟨s₄, x₄, hs₄, hx₄⟩ := exists_u16 buf 10 (by omega)
    exact ⟨⟨x₂, x₃, x₄⟩, by simp [ofSlice, hs₁, hx₁, hs₂, hx₂, hs₃, hx₃, hs₄, hx₄]⟩

theorem FlacMetadata.ofSlice_returns_iff {buf : List UInt8} :
    (∃ f, ofSlice buf = .ok f) ↔ 22 ≤ buf.length := by
  constructor
  · rintro ⟨f, h⟩
    obtain ⟨s, hs, h⟩ := bind_eq_ok.mp h
    obtain ⟨s', hs', h⟩ := bind_eq_ok.mp h
    have hlen := length_of_slice hs
    have hstop := stop_le_of_slice hs'
    omega
  · intro h
    have hs := slice_of_le buf 4 buf.length (by omega) le_rfl
    have hlen := length_of_slice hs
    have hs' := slice_of_le ((buf.take buf.length).drop 4) 14 18
      (by omega) (by omega)
    obtain ⟨x, hx⟩ := sliceToU32be_returns (by rw [length_of_slice hs'])
    exact ⟨_, by rw [ofSlice, hs, ok_bind, hs', ok_bind, hx, ok_bind]; rfl⟩

/-- A PCM header is a RIFF header of the uncompressed format. -/
def PcmMetadata.Formed (buf : List UInt8) : Prop :=
  36 ≤ buf.length ∧ buf.take 4 = riff ∧ (buf.take 22).drop 20 = u16Bytes 1

theorem PcmMetadata.ofSlice_returns_iff {buf : List UInt8} :
    (∃ p, ofSlice buf = .ok p) ↔ Formed buf := by
  constructor
  · rintro ⟨p, h⟩
    obtain ⟨s₁, hs₁, h⟩ := bind_eq_ok.mp h
    obtain ⟨_, hmagic, h⟩ := bind_eq_ok.mp h
    obtain ⟨s₂, hs₂, h⟩ := bind_eq_ok.mp h
    obtain ⟨tag, htag, h⟩ := bind_eq_ok.mp h
    obtain ⟨_, hone, h⟩ := bind_eq_ok.mp h
    obtain ⟨s₃, hs₃, h⟩ := bind_eq_ok.mp h
    obtain ⟨_, -, h⟩ := bind_eq_ok.mp h
    obtain ⟨s₄, hs₄, h⟩ := bind_eq_ok.mp h
    obtain ⟨_, -, h⟩ := bind_eq_ok.mp h
    obtain ⟨s₅, hs₅, h⟩ := bind_eq_ok.mp h
    obtain ⟨-, -, rfl⟩ := slice_eq_ok.mp hs₁
    have hlen := length_of_slice hs₂
    obtain ⟨-, -, rfl⟩ := slice_eq_ok.mp hs₂
    obtain ⟨rest, hrest⟩ := sliceToU16_eq_ok.mp htag
    rw [assertEq_eq_ok.mp hone] at hrest
    rw [hrest] at hlen
    have hnil : rest = [] := by simpa using hlen
    exact ⟨stop_le_of_slice hs₅, assertEq_eq_ok.mp hmagic, by rw [hrest, hnil, List.append_nil]⟩
  · rintro ⟨hlen, hmagic, htag⟩
    have hs₁ := slice_of_le buf 0 4 (by omega) (by omega)
    have hs₂ := slice_of_le buf 20 22 (by omega) (by omega)
    obtain ⟨s₃, x₃, hs₃, hx₃⟩ := exists_u16 buf 22 (by omega)
    obtain ⟨s₄, x₄, hs₄, hx₄⟩ := exists_u32 buf 24 (by omega)
    obtain ⟨s₅, x₅, hs₅, hx₅⟩ := exists_u16 buf 34 (by omega)
    rw [List.drop_zero, hmagic] at hs₁
    rw [htag] at hs₂
    exact ⟨⟨x₃, x₄, x₅⟩, by
      simp [ofSlice, hs₁, assertEq, hs₂, hs₃, hx₃, hs₄, hx₄, hs₅, hx₅]⟩

namespace CodecHeader

/-- The codec is known and its metadata long enough. -/
def MetadataFormed (codec : String) (metadata : List UInt8) : Prop :=
  codec = "opus" ∧ 12 ≤ metadata.length ∨ codec = "flac" ∧ 22 ≤ metadata.length ∨
    codec = "pcm" ∧ PcmMetadata.Formed metadata

theorem metadataOf_returns_iff {codec : String} {metadata : List UInt8} :
    (∃ m, metadataOf codec metadata = .ok m) ↔ MetadataFormed codec metadata := by
  rw [metadataOf, MetadataFormed, ← OpusMetadata.ofSlice_returns_iff,
    ← FlacMetadata.ofSlice_returns_iff, ← PcmMetadata.ofSlice_returns_iff]
  by_cases hopus : codec = "opus"
  · simp [hopus, map_eq_ok]
  by_cases hflac : codec = "flac"
  · simp [hflac, map_eq_ok]
  by_cases hpcm : codec = "pcm"
  · simp [hpcm, map_eq_ok]
  · simp [hopus, hflac, hpcm, abort]

end CodecHeader

/-! ## The infallible conversions -/

theorem infallible_ofSlice_timeVal (buf : List UInt8) : Infallible (TimeVal.ofSlice buf) := by
  have hi32 : ∀ s, Infallible (sliceToI32 s) := fun s =>
    infallible_bind (infallible_sliceToU32 s) fun _ => infallible_ok _
  exact infallible_bind (infallible_slice _ _ _) fun _ => infallible_bind (hi32 _) fun _ =>
    infallible_bind (infallible_slice _ _ _) fun _ => infallible_bind (hi32 _) fun _ =>
      infallible_ok _

theorem OpusMetadata.infallible_ofSlice (buf : List UInt8) : Infallible (ofSlice buf) :=
  infallible_bind (infallible_slice _ _ _) fun _ =>
    infallible_bind (infallible_sliceToU32 _) fun _ =>
    infallible_bind (infallible_slice _ _ _) fun _ =>
    infallible_bind (infallible_sliceToU32 _) fun _ =>
    infallible_bind (infallible_slice _ _ _) fun _ =>
    infallible_bind (infallible_sliceToU16 _) fun _ =>
    infallible_bind (infallible_slice _ _ _) fun _ =>
    infallible_bind (infallible_sliceToU16 _) fun _ => infallible_ok _

theorem FlacMetadata.infallible_ofSlice (buf : List UInt8) : Infallible (ofSlice buf) :=
  infallible_bind (infallible_slice _ _ _) fun _ =>
    infallible_bind (infallible_slice _ _ _) fun _ =>
    infallible_bind (infallible_sliceToU32be _) fun _ => infallible_ok _

theorem PcmMetadata.infallible_ofSlice (buf : List UInt8) : Infallible (ofSlice buf) :=
  infallible_bind (infallible_slice _ _ _) fun _ =>
    infallible_bind (infallible_assertEq _ _) fun _ =>
    infallible_bind (infallible_slice _ _ _) fun _ =>
    infallible_bind (infallible_sliceToU16 _) fun _ =>
    infallible_bind (infallible_assertEq _ _) fun _ =>
    infallible_bind (infallible_slice _ _ _) fun _ =>
    infallible_bind (infallible_sliceToU16 _) fun _ =>
    infallible_bind (infallible_slice _ _ _) fun _ =>
    infallible_bind (infallible_sliceToU32 _) fun _ =>
    infallible_bind (infallible_slice _ _ _) fun _ =>
    infallible_bind (infallible_sliceToU16 _) fun _ => infallible_ok _

theorem infallible_unwrapUtf8 (bytes : List UInt8) : Infallible (unwrapUtf8 bytes) := by
  rw [unwrapUtf8]
  split
  · exact infallible_ok _
  · exact infallible_abort _

theorem infallible_unwrapJson {α : Type} (x : Except String α) : Infallible (unwrapJson x) := by
  cases x with
  | error message => exact infallible_abort _
  | ok a => exact infallible_ok a

theorem CodecHeader.infallible_metadataOf (codec : String) (metadata : List UInt8) :
    Infallible (metadataOf codec metadata) := by
  rw [metadataOf]
  split_ifs
  · exact infallible_map _ (OpusMetadata.infallible_ofSlice metadata)
  · exact infallible_map _ (FlacMetadata.infallible_ofSlice metadata)
  · exact infallible_map _ (PcmMetadata.infallible_ofSlice metadata)
  · exact infallible_abort _

theorem CodecHeader.infallible_ofSlice (buf : List UInt8) : Infallible (ofSlice buf) :=
  infallible_bind (infallible_slice _ _ _) fun _ =>
    infallible_bind (infallible_sliceToU32 _) fun _ =>
    infallible_bind (infallible_slice _ _ _) fun _ =>
    infallible_bind (infallible_unwrapUtf8 _) fun _ =>
    infallible_bind (infallible_slice _ _ _) fun _ =>
    infallible_bind (infallible_sliceToU32 _) fun _ =>
    infallible_bind (infallible_slice _ _ _) fun _ =>
    infallible_bind (infallible_metadataOf _ _) fun _ => infallible_ok _

theorem ServerSettings.infallible_ofSlice (json : SerdeJson) (buf : List UInt8) :
    Infallible (ofSlice json buf) :=
  infallible_bind (infallible_slice _ _ _) fun _ =>
    infallible_bind (infallible_sliceToU32 _) fun _ =>
    infallible_bind (infallible_slice _ _ _) fun _ =>
    infallible_bind (infallible_unwrapUtf8 _) fun _ => infallible_unwrapJson _

theorem WireChunk.infallible_ofSlice (buf : List UInt8) : Infallible (ofSlice buf) :=
  infallible_bind (infallible_slice _ _ _) fun _ =>
    infallible_bind (infallible_sliceToU32 _) fun _ =>
    infallible_bind (infallible_slice _ _ _) fun _ =>
    infallible_bind (infallible_ofSlice_timeVal _) fun _ =>
    infallible_bind (infallible_slice _ _ _) fun _ => infallible_ok _

/-! ## The checked conversions -/

theorem exists_timeVal (buf : List UInt8) (start : ℕ) (h : start + 8 ≤ buf.length) :
    ∃ s tv, slice buf start (start + 8) = .ok s ∧ TimeVal.ofSlice s = .ok tv := by
  have hs := slice_of_le buf start (start + 8) (by omega) h
  have hlen := length_of_slice hs
  obtain ⟨s₁, x₁, hs₁, hx₁⟩ := exists_u32 ((buf.take (start + 8)).drop start) 0 (by omega)
  obtain ⟨s₂, x₂, hs₂, hx₂⟩ := exists_u32 ((buf.take (start + 8)).drop start) 4 (by omega)
  refine ⟨_, ⟨x₁.toInt32, x₂.toInt32⟩, hs, ?_⟩
  simp only [TimeVal.ofSlice, hs₁, ok_bind, sliceToI32, hx₁, hs₂, hx₂, pure_eq_ok]

/-- The length guard covers every slice. -/
theorem Time.returns_tryFrom (buf : List UInt8) : Returns (tryFrom buf) := by
  by_cases hlen : 8 ≤ buf.length
  · obtain ⟨s, tv, hs, htv⟩ := exists_timeVal buf 0 hlen
    simp only [tryFrom, ensure_of _ hlen, ok_bind, hs, htv, pure_eq_ok]
    exact returns_ok _
  · rw [tryFrom, ensure_of_not _ hlen]
    exact returns_bail _

theorem MessageType.returns_tryFrom (u : UInt16) : Returns (tryFrom u) := by
  unfold tryFrom
  split <;> first | exact returns_ok _ | exact returns_bail _

/-- A header never makes its parser panic. -/
theorem Base.returns_tryFrom (buf : List UInt8) : Returns (tryFrom buf) := by
  rw [tryFrom, baseSize]
  by_cases hlen : 26 ≤ buf.length
  · obtain ⟨s₁, mtype, hs₁, hmtype⟩ := exists_u16 buf 0 (by omega)
    obtain ⟨s₂, size, hs₂, hsize⟩ := exists_u32 buf 22 (by omega)
    obtain ⟨s₃, id, hs₃, hid⟩ := exists_u16 buf 2 (by omega)
    obtain ⟨s₄, refersTo, hs₄, hrefersTo⟩ := exists_u16 buf 4 (by omega)
    obtain ⟨s₅, sentTv, hs₅, hsentTv⟩ := exists_timeVal buf 6 (by omega)
    obtain ⟨s₆, receivedTv, hs₆, hreceivedTv⟩ := exists_timeVal buf 14 (by omega)
    simp only [ensure_of _ hlen, ok_bind, hs₁, hmtype, hs₂, hsize, hs₃, hid, hs₄, hrefersTo,
      hs₅, hsentTv, hs₆, hreceivedTv]
    refine (returns_bind (MessageType.returns_tryFrom mtype)).mpr fun _ _ => ?_
    exact (returns_bind (returns_ensure _ _)).mpr fun _ _ => returns_ok _
  · rw [ensure_of_not _ hlen]
    exact returns_bail _

/-- A greeting never makes its parser panic. -/
theorem ClientHello.returns_tryFrom (json : SerdeJson) (buf : List UInt8) :
    Returns (tryFrom json buf) := by
  by_cases hlen : 4 ≤ buf.length
  · obtain ⟨b₀, b₁, b₂, b₃, rest, rfl⟩ :
        ∃ b₀ b₁ b₂ b₃ rest, buf = b₀ :: b₁ :: b₂ :: b₃ :: rest := by
      match buf, hlen with
      | b₀ :: b₁ :: b₂ :: b₃ :: rest, _ => exact ⟨b₀, b₁, b₂, b₃, rest, rfl⟩
    simp only [tryFrom, ensure_of _ hlen, ok_bind, sliceToU32]
    refine (returns_bind (returns_ensure _ _)).mpr fun _ hstop => ?_
    rw [slice_of_le _ _ _ (Nat.le_add_left _ _) (ensure_eq_ok.mp hstop), ok_bind]
    split
    · exact returns_ok _
    · exact returns_bail _
  · rw [tryFrom, ensure_of_not _ hlen]
    exact returns_bail _

/-- Decoding a client's payload never panics, whatever its header says. -/
theorem Base.returns_decodeC (json : SerdeJson) (b : Base) (payload : List UInt8) :
    Returns (b.decodeC json payload) := by
  rw [decodeC]
  split
  · exact (returns_map_iff _).mpr (ClientHello.returns_tryFrom json payload)
  · exact (returns_map_iff _).mpr (Time.returns_tryFrom payload)
  · exact returns_bail _

/-! ## The payloads -/

namespace Base

/-- The payload starts with the encoding of some message of the announced type. -/
def WellFormed (json : SerdeJson) (b : Base) (payload : List UInt8) : Prop :=
  match b.mtype with
  | .codecHeader => ∃ codec metadata rest, (utf8Bytes codec).length < UInt32.size ∧
      metadata.length < UInt32.size ∧ CodecHeader.MetadataFormed codec metadata ∧
      payload = CodecHeader.encode codec metadata ++ rest
  | .serverSettings => ∃ text s rest, (utf8Bytes text).length < UInt32.size ∧
      json.settingsFromStr text = .ok s ∧ payload = ServerSettings.encode text ++ rest
  | .wireChunk => ∃ (wc : WireChunk) (rest : List UInt8), wc.payload.length < UInt32.size ∧
      payload = wc.encode ++ rest
  | _ => True

/-- Decoding the payload of an accepted frame returns exactly when the payload is well
formed for its message type. -/
theorem returns_decode_iff (json : SerdeJson) (frame : Frame) :
    Returns (frame.base.decode json frame.payload) ↔ frame.base.WellFormed json frame.payload := by
  rw [decode, WellFormed]
  cases frame.base.mtype with
  | codecHeader =>
      simp only [returns_map_iff, (CodecHeader.infallible_ofSlice _).returns_iff,
        CodecHeader.ofSlice_eq_ok, ← CodecHeader.metadataOf_returns_iff]
      constructor
      · rintro ⟨⟨codec, m⟩, metadata, rest, hcodec, hlen, hm, hpayload⟩
        exact ⟨codec, metadata, rest, hcodec, hlen, ⟨m, hm⟩, hpayload⟩
      · rintro ⟨codec, metadata, rest, hcodec, hlen, ⟨m, hm⟩, hpayload⟩
        exact ⟨⟨codec, m⟩, metadata, rest, hcodec, hlen, hm, hpayload⟩
  | serverSettings =>
      simp only [returns_map_iff, (ServerSettings.infallible_ofSlice json _).returns_iff,
        ServerSettings.ofSlice_eq_ok]
      constructor
      · rintro ⟨s, text, rest, h⟩
        exact ⟨text, s, rest, h⟩
      · rintro ⟨text, s, rest, h⟩
        exact ⟨s, text, rest, h⟩
  | wireChunk =>
      simp only [returns_map_iff, (WireChunk.infallible_ofSlice _).returns_iff,
        WireChunk.ofSlice_eq_ok]
      constructor
      · rintro ⟨wc, hlen, rest, hpayload⟩
        exact ⟨wc, rest, hlen, hpayload⟩
      · rintro ⟨wc, rest, hlen, hpayload⟩
        exact ⟨wc, hlen, rest, hpayload⟩
  | time => exact iff_of_true ((returns_map_iff _).mpr (Time.returns_tryFrom _)) trivial
  | base => exact iff_of_true (returns_bail _) trivial
  | hello => exact iff_of_true (returns_bail _) trivial
  | streamTags => exact iff_of_true (returns_bail _) trivial
  | clientInfo => exact iff_of_true (returns_bail _) trivial

/-- A chunk header that announces an empty payload is accepted, and decoding that payload
indexes past its end. -/
theorem not_returns_decode_empty_chunk :
    ¬ ∀ (json : SerdeJson) (frame : Frame), Returns (frame.base.decode json frame.payload) := by
  intro hall
  let base : Base :=
    { mtype := .wireChunk, id := 0, refersTo := 0, sentTv := .zero, receivedTv := .zero, size := 0 }
  exact hall .compact (.ofBase base [] rfl (by decide)) .sliceIndex rfl

end Base

end SnapcastClient
