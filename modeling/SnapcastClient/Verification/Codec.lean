import SnapcastClient.Model.Proto

/-! # Encoders and decoders agree field by field -/

namespace SnapcastClient

/-! ## Integer fields -/

@[simp] theorem u16Bytes_length (x : UInt16) : (u16Bytes x).length = 2 :=
  LittleEndian.toBytes_length 2 x.toNat

@[simp] theorem u32Bytes_length (x : UInt32) : (u32Bytes x).length = 4 :=
  LittleEndian.toBytes_length 4 x.toNat

@[simp] theorem i32Bytes_length (x : Int32) : (i32Bytes x).length = 4 :=
  LittleEndian.toBytes_length 4 x.toUInt32.toNat

/-- Reading a `u16` succeeds exactly on the byte strings its encoding starts. -/
theorem sliceToU16_eq_ok {s : List UInt8} {x : UInt16} :
    sliceToU16 s = .ok x ↔ ∃ rest, s = u16Bytes x ++ rest := by
  constructor
  · intro h
    match s, h with
    | b₀ :: b₁ :: rest, h =>
      have hx : UInt16.ofNat (LittleEndian.ofBytes [b₀, b₁]) = x := Except.ok.inj h
      have hlt := LittleEndian.ofBytes_lt [b₀, b₁]
      refine ⟨rest, ?_⟩
      rw [u16Bytes, ← hx, UInt16.toNat_ofNat_of_lt' (by simpa using hlt)]
      exact congrArg (· ++ rest) (LittleEndian.toBytes_ofBytes [b₀, b₁]).symm
  · rintro ⟨rest, rfl⟩
    have hx : LittleEndian.ofBytes (u16Bytes x) = x.toNat :=
      LittleEndian.ofBytes_toBytes_of_lt x.toNat_lt
    change Except.ok (UInt16.ofNat (LittleEndian.ofBytes (u16Bytes x))) = _
    rw [hx, UInt16.ofNat_toNat]

theorem sliceToU32_eq_ok {s : List UInt8} {x : UInt32} :
    sliceToU32 s = .ok x ↔ ∃ rest, s = u32Bytes x ++ rest := by
  constructor
  · intro h
    match s, h with
    | b₀ :: b₁ :: b₂ :: b₃ :: rest, h =>
      have hx : UInt32.ofNat (LittleEndian.ofBytes [b₀, b₁, b₂, b₃]) = x := Except.ok.inj h
      have hlt := LittleEndian.ofBytes_lt [b₀, b₁, b₂, b₃]
      refine ⟨rest, ?_⟩
      rw [u32Bytes, ← hx, UInt32.toNat_ofNat_of_lt' (by simpa using hlt)]
      exact congrArg (· ++ rest) (LittleEndian.toBytes_ofBytes [b₀, b₁, b₂, b₃]).symm
  · rintro ⟨rest, rfl⟩
    have hx : LittleEndian.ofBytes (u32Bytes x) = x.toNat :=
      LittleEndian.ofBytes_toBytes_of_lt x.toNat_lt
    change Except.ok (UInt32.ofNat (LittleEndian.ofBytes (u32Bytes x))) = _
    rw [hx, UInt32.ofNat_toNat]

@[simp] theorem sliceToU16_u16Bytes (x : UInt16) : sliceToU16 (u16Bytes x) = .ok x :=
  sliceToU16_eq_ok.mpr ⟨[], by simp⟩

@[simp] theorem sliceToU32_u32Bytes (x : UInt32) : sliceToU32 (u32Bytes x) = .ok x :=
  sliceToU32_eq_ok.mpr ⟨[], by simp⟩

@[simp] theorem sliceToI32_i32Bytes (x : Int32) : sliceToI32 (i32Bytes x) = .ok x := by
  have h : sliceToU32 (i32Bytes x) = .ok x.toUInt32 := sliceToU32_u32Bytes x.toUInt32
  simp [sliceToI32, h]

/-! ## Text -/

theorem unwrapUtf8_eq_ok {bytes : List UInt8} {s : String} :
    unwrapUtf8 bytes = .ok s ↔ bytes = utf8Bytes s := by
  rw [unwrapUtf8, ← fromUtf8_eq_some]
  cases fromUtf8 bytes <;> simp [abort]

@[simp] theorem unwrapUtf8_utf8Bytes (s : String) : unwrapUtf8 (utf8Bytes s) = .ok s :=
  unwrapUtf8_eq_ok.mpr rfl

theorem unwrapJson_eq_ok {α : Type} {x : Except String α} {a : α} :
    unwrapJson x = .ok a ↔ x = .ok a := by
  cases x <;> simp [unwrapJson, abort]

/-! ## Timestamps -/

@[simp] theorem TimeVal.asBuf_length (t : TimeVal) : t.asBuf.length = 8 := by
  simp [asBuf]

@[simp] theorem TimeVal.ofSlice_asBuf (t : TimeVal) : ofSlice t.asBuf = .ok t := by
  have hbuf : t.asBuf = [] ++ (i32Bytes t.sec ++ (i32Bytes t.usec ++ [])) := by simp [asBuf]
  have hsec := slice_append 0 4 hbuf (by simp) (by simp)
  rw [← List.append_assoc] at hbuf
  have husec := slice_append 4 8 hbuf (by simp) (by simp)
  simp [ofSlice, hsec, husec]

/-! ## The header -/

@[simp] theorem MessageType.tryFrom_toU16 (mtype : MessageType) :
    tryFrom mtype.toU16 = .ok mtype := by
  cases mtype <;> rfl

namespace Base

/-- The 26 bytes that `write` puts in front of the payload. -/
def header (b : Base) : List UInt8 :=
  u16Bytes b.mtype.toU16 ++ u16Bytes b.id ++ u16Bytes b.refersTo ++ b.sentTv.asBuf ++
    b.receivedTv.asBuf ++ u32Bytes b.size

@[simp] theorem header_length (b : Base) : b.header.length = baseSize := by
  simp [header, baseSize]

/-- `write` overwrites exactly the header and the payload. -/
theorem write_eq (b : Base) (out : List UInt8) {payload : List UInt8}
    (hout : baseSize + payload.length ≤ out.length) :
    b.write out payload =
      .ok (b.header ++ payload ++ out.drop (baseSize + payload.length),
        baseSize + payload.length) := by
  rw [baseSize] at hout
  rw [write, copyAt_zero (by simp; omega), ok_bind,
    copyAt_append (by simp) (by simp; omega), ok_bind,
    copyAt_append (by simp) (by simp; omega), ok_bind,
    copyAt_append (by simp) (by simp; omega), ok_bind,
    copyAt_append (by simp) (by simp; omega), ok_bind,
    copyAt_append (by simp) (by simp; omega), ok_bind,
    copyAt_append (by simp [baseSize]) (by simp; omega)]
  simp [header, baseSize, List.drop_drop]

theorem asBuf_eq (b : Base) (payload : List UInt8) :
    b.asBuf payload = .ok (b.header ++ payload) := by
  simp [asBuf, b.write_eq (List.replicate (baseSize + payload.length) 0)]

/-- Decoding an encoded header gives it back, whatever follows it. -/
theorem tryFrom_header (b : Base) (rest : List UInt8) (hsize : b.size.toNat ≤ maxPayload) :
    tryFrom (b.header ++ rest) = .ok b := by
  have hbuf : b.header ++ rest = [] ++ (u16Bytes b.mtype.toU16 ++ (u16Bytes b.id ++
      (u16Bytes b.refersTo ++ (b.sentTv.asBuf ++ (b.receivedTv.asBuf ++
        (u32Bytes b.size ++ rest)))))) := by
    simp only [header, List.append_assoc, List.nil_append]
  have hmtype := slice_append 0 2 hbuf (by simp) (by simp)
  rw [← List.append_assoc] at hbuf
  have hid := slice_append 2 4 hbuf (by simp) (by simp)
  rw [← List.append_assoc] at hbuf
  have hrefers := slice_append 4 6 hbuf (by simp) (by simp)
  rw [← List.append_assoc] at hbuf
  have hsent := slice_append 6 14 hbuf (by simp) (by simp)
  rw [← List.append_assoc] at hbuf
  have hreceived := slice_append 14 22 hbuf (by simp) (by simp)
  rw [← List.append_assoc] at hbuf
  have hsz := slice_append 22 26 hbuf (by simp) (by simp)
  have hlen : baseSize ≤ (b.header ++ rest).length := by simp
  rw [tryFrom, ensure_of _ hlen, ok_bind]
  simp [hmtype, hsz, ensure_of _ hsize, hid, hrefers, hsent, hreceived]

end Base

/-! ## Time messages -/

/-- The header of a `Time` message. -/
def Time.base (id refersTo : UInt16) (sentTv receivedTv : TimeVal) : Base :=
  { mtype := .time, id, refersTo, sentTv, receivedTv, size := 8 }

theorem Time.write_eq (out : List UInt8) (hout : wireSize ≤ out.length) (id refersTo : UInt16)
    (sentTv receivedTv latency : TimeVal) :
    write out id refersTo sentTv receivedTv latency =
      .ok ((base id refersTo sentTv receivedTv).header ++ latency.asBuf ++ out.drop wireSize,
        wireSize) := by
  have hlen : latency.asBuf.length = 8 := latency.asBuf_length
  rw [write, Base.write_eq _ _ (by rw [hlen]; exact hout), hlen]
  rfl

theorem Time.asBuf_eq (id refersTo : UInt16) (sentTv receivedTv latency : TimeVal) :
    asBuf id refersTo sentTv receivedTv latency =
      .ok ((base id refersTo sentTv receivedTv).header ++ latency.asBuf) := by
  simp [asBuf, write_eq (List.replicate wireSize 0)]

@[simp] theorem Time.tryFrom_asBuf (latency : TimeVal) :
    tryFrom latency.asBuf = .ok ⟨latency⟩ := by
  have hall : slice latency.asBuf 0 8 = .ok latency.asBuf :=
    slice_append 0 8 (by simp : _ = [] ++ (latency.asBuf ++ [])) rfl (by simp)
  simp [tryFrom, ensure_of, hall]

/-! ## Length-prefixed payloads -/

theorem lt_size_of_le_maxPayload {n : ℕ} (h : n ≤ Base.maxPayload) : n < UInt32.size := by
  have hsize : UInt32.size = 4294967296 := rfl
  rw [Base.maxPayload] at h
  omega

theorem toNat_ofNat_length {bytes : List UInt8} (h : bytes.length < UInt32.size) :
    (UInt32.ofNat bytes.length).toNat = bytes.length :=
  UInt32.toNat_ofNat_of_lt' h

theorem eq_u16Bytes_of_sliceToU16 {s : List UInt8} {x : UInt16} (h : sliceToU16 s = .ok x)
    (hlen : s.length = 2) : s = u16Bytes x := by
  obtain ⟨rest, rfl⟩ := sliceToU16_eq_ok.mp h
  have hrest : rest = [] := by simpa using hlen
  rw [hrest, List.append_nil]

theorem eq_u32Bytes_of_sliceToU32 {s : List UInt8} {x : UInt32} (h : sliceToU32 s = .ok x)
    (hlen : s.length = 4) : s = u32Bytes x := by
  obtain ⟨rest, rfl⟩ := sliceToU32_eq_ok.mp h
  have hrest : rest = [] := by simpa using hlen
  rw [hrest, List.append_nil]

theorem eq_i32Bytes_of_sliceToI32 {s : List UInt8} {x : Int32} (h : sliceToI32 s = .ok x)
    (hlen : s.length = 4) : s = i32Bytes x := by
  obtain ⟨y, hy, hx⟩ := bind_eq_ok.mp h
  obtain rfl : y.toInt32 = x := Except.ok.inj hx
  rw [eq_u32Bytes_of_sliceToU32 hy hlen]
  rfl

theorem eq_asBuf_of_ofSlice {s : List UInt8} {t : TimeVal} (h : TimeVal.ofSlice s = .ok t)
    (hlen : s.length = 8) : s = t.asBuf := by
  obtain ⟨s₁, hs₁, h⟩ := bind_eq_ok.mp h
  obtain ⟨sec, hsec, h⟩ := bind_eq_ok.mp h
  obtain ⟨s₂, hs₂, h⟩ := bind_eq_ok.mp h
  obtain ⟨usec, husec, h⟩ := bind_eq_ok.mp h
  obtain rfl := Except.ok.inj h
  have htake := take_of_slice hs₂
  rw [take_of_slice hs₁, List.take_zero, List.nil_append,
    List.take_of_length_le (by omega)] at htake
  rw [htake, eq_i32Bytes_of_sliceToI32 hsec (length_of_slice hs₁),
    eq_i32Bytes_of_sliceToI32 husec (length_of_slice hs₂), TimeVal.asBuf]

namespace WireChunk

def encode (wc : WireChunk) : List UInt8 :=
  wc.timestamp.asBuf ++ u32Bytes (UInt32.ofNat wc.payload.length) ++ wc.payload

theorem encode_length (wc : WireChunk) : wc.encode.length = 12 + wc.payload.length := by
  simp only [encode, List.length_append, TimeVal.asBuf_length, u32Bytes_length]

/-- Decoding accepts exactly the byte strings that an encoding starts. -/
theorem ofSlice_eq_ok {buf : List UInt8} {wc : WireChunk} :
    ofSlice buf = .ok wc ↔ wc.payload.length < UInt32.size ∧ ∃ rest, buf = wc.encode ++ rest := by
  constructor
  · intro h
    obtain ⟨s₁, hs₁, h⟩ := bind_eq_ok.mp h
    obtain ⟨size, hsize, h⟩ := bind_eq_ok.mp h
    obtain ⟨s₂, hs₂, h⟩ := bind_eq_ok.mp h
    obtain ⟨timestamp, htimestamp, h⟩ := bind_eq_ok.mp h
    obtain ⟨payload, hpayload, h⟩ := bind_eq_ok.mp h
    obtain rfl := Except.ok.inj h
    have hlen : payload.length = size.toNat := by
      rw [length_of_slice hpayload]
      omega
    refine ⟨hlen ▸ size.toNat_lt, buf.drop (12 + size.toNat), ?_⟩
    have htake := take_of_slice hpayload
    rw [take_of_slice hs₁, take_of_slice hs₂, List.take_zero, List.nil_append,
      eq_asBuf_of_ofSlice htimestamp (length_of_slice hs₂),
      eq_u32Bytes_of_sliceToU32 hsize (length_of_slice hs₁)] at htake
    rw [encode, hlen, UInt32.ofNat_toNat, ← htake, List.take_append_drop]
  · rintro ⟨hlen, rest, rfl⟩
    have hbuf : wc.encode ++ rest = [] ++ (wc.timestamp.asBuf ++
        (u32Bytes (UInt32.ofNat wc.payload.length) ++ (wc.payload ++ rest))) := by
      simp only [encode, List.append_assoc, List.nil_append]
    have htimestamp := slice_append 0 8 hbuf (by simp) (by simp)
    rw [← List.append_assoc] at hbuf
    have hsize := slice_append 8 12 hbuf (by simp) (by simp)
    rw [← List.append_assoc] at hbuf
    have hpayload := slice_append 12 (12 + wc.payload.length) hbuf
      (by simp) (by simp)
    simp only [ofSlice, hsize, htimestamp, ok_bind, sliceToU32_u32Bytes,
      TimeVal.ofSlice_asBuf, toNat_ofNat_length hlen, hpayload]
    rfl

end WireChunk

namespace ServerSettings

/-- A settings payload around a JSON text. -/
def encode (text : String) : List UInt8 :=
  u32Bytes (UInt32.ofNat (utf8Bytes text).length) ++ utf8Bytes text

theorem encode_length (text : String) : (encode text).length = 4 + (utf8Bytes text).length := by
  simp only [encode, List.length_append, u32Bytes_length]

theorem ofSlice_eq_ok {json : SerdeJson} {buf : List UInt8} {s : ServerSettings} :
    ofSlice json buf = .ok s ↔ ∃ text rest, (utf8Bytes text).length < UInt32.size ∧
      json.settingsFromStr text = .ok s ∧ buf = encode text ++ rest := by
  constructor
  · intro h
    obtain ⟨s₁, hs₁, h⟩ := bind_eq_ok.mp h
    obtain ⟨len, hsize, h⟩ := bind_eq_ok.mp h
    obtain ⟨s₂, hs₂, h⟩ := bind_eq_ok.mp h
    obtain ⟨text, htext, hjson⟩ := bind_eq_ok.mp h
    obtain rfl := unwrapUtf8_eq_ok.mp htext
    have hlen : (utf8Bytes text).length = len.toNat := by
      rw [length_of_slice hs₂]
      omega
    refine ⟨text, buf.drop (4 + len.toNat), hlen ▸ len.toNat_lt, unwrapJson_eq_ok.mp hjson, ?_⟩
    have htake := take_of_slice hs₂
    rw [take_of_slice hs₁, List.take_zero, List.nil_append,
      eq_u32Bytes_of_sliceToU32 hsize (length_of_slice hs₁)] at htake
    rw [encode, hlen, UInt32.ofNat_toNat, ← htake, List.take_append_drop]
  · rintro ⟨text, rest, hlen, hparse, rfl⟩
    have hbuf : encode text ++ rest = [] ++ (u32Bytes (UInt32.ofNat (utf8Bytes text).length) ++
        (utf8Bytes text ++ rest)) := by
      simp only [encode, List.append_assoc, List.nil_append]
    have hsize := slice_append 0 4 hbuf (by simp) (by simp)
    rw [← List.append_assoc] at hbuf
    have htext := slice_append 4 (4 + (utf8Bytes text).length) hbuf
      (by simp) (by simp)
    simp only [ofSlice, hsize, ok_bind, sliceToU32_u32Bytes, toNat_ofNat_length hlen, htext,
      unwrapUtf8_utf8Bytes, hparse]
    rfl

end ServerSettings

namespace OpusMetadata

theorem asPayload_length (o : OpusMetadata) : o.asPayload.length = 12 := by
  simp [asPayload]

/-- The marker is read and ignored. -/
theorem ofSlice_marker (marker sampleRate : UInt32) (bitDepth channelCount : UInt16) :
    ofSlice (u32Bytes marker ++ u32Bytes sampleRate ++ u16Bytes bitDepth ++
      u16Bytes channelCount) = .ok { sampleRate, bitDepth, channelCount } := by
  have hbuf : u32Bytes marker ++ u32Bytes sampleRate ++ u16Bytes bitDepth ++
      u16Bytes channelCount = [] ++ (u32Bytes marker ++ (u32Bytes sampleRate ++
        (u16Bytes bitDepth ++ (u16Bytes channelCount ++ [])))) := by
    simp only [List.append_assoc, List.nil_append, List.append_nil]
  have hmarker := slice_append 0 4 hbuf (by simp) (by simp)
  rw [← List.append_assoc] at hbuf
  have hrate := slice_append 4 8 hbuf (by simp) (by simp)
  rw [← List.append_assoc] at hbuf
  have hdepth := slice_append 8 10 hbuf (by simp) (by simp)
  rw [← List.append_assoc] at hbuf
  have hchannels := slice_append 10 12 hbuf (by simp) (by simp)
  simp only [ofSlice, hmarker, hrate, hdepth, hchannels, ok_bind, sliceToU32_u32Bytes,
    sliceToU16_u16Bytes, pure_eq_ok]

@[simp] theorem ofSlice_asPayload (o : OpusMetadata) : ofSlice o.asPayload = .ok o :=
  ofSlice_marker opusMarker o.sampleRate o.bitDepth o.channelCount

end OpusMetadata

namespace CodecHeader

/-- A codec header payload around a name and its metadata. -/
def encode (codec : String) (metadata : List UInt8) : List UInt8 :=
  u32Bytes (UInt32.ofNat (utf8Bytes codec).length) ++ utf8Bytes codec ++
    u32Bytes (UInt32.ofNat metadata.length) ++ metadata

theorem encode_length (codec : String) (metadata : List UInt8) :
    (encode codec metadata).length = 8 + (utf8Bytes codec).length + metadata.length := by
  simp only [encode, List.length_append, u32Bytes_length]
  omega

/-- The two length prefixes cut out the name and the metadata. -/
theorem ofSlice_eq_ok {buf : List UInt8} {ch : CodecHeader} :
    ofSlice buf = .ok ch ↔ ∃ metadata rest, (utf8Bytes ch.codec).length < UInt32.size ∧
      metadata.length < UInt32.size ∧ metadataOf ch.codec metadata = .ok ch.metadata ∧
      buf = encode ch.codec metadata ++ rest := by
  constructor
  · intro h
    obtain ⟨s₁, hs₁, h⟩ := bind_eq_ok.mp h
    obtain ⟨size, hsize, h⟩ := bind_eq_ok.mp h
    obtain ⟨name, hname, h⟩ := bind_eq_ok.mp h
    obtain ⟨codec, hcodec, h⟩ := bind_eq_ok.mp h
    obtain ⟨s₃, hs₃, h⟩ := bind_eq_ok.mp h
    obtain ⟨payloadLen, hpayloadLen, h⟩ := bind_eq_ok.mp h
    obtain ⟨payload, hpayload, h⟩ := bind_eq_ok.mp h
    obtain ⟨metadata, hmetadata, h⟩ := bind_eq_ok.mp h
    obtain rfl := Except.ok.inj h
    obtain rfl := unwrapUtf8_eq_ok.mp hcodec
    have hcodecLen : (utf8Bytes codec).length = size.toNat := by
      rw [length_of_slice hname]
      omega
    have hlen : payload.length = payloadLen.toNat := by
      rw [length_of_slice hpayload]
      omega
    refine ⟨payload, buf.drop (4 + size.toNat + 4 + payloadLen.toNat),
      hcodecLen ▸ size.toNat_lt, hlen ▸ payloadLen.toNat_lt, hmetadata, ?_⟩
    have htake := take_of_slice hpayload
    rw [take_of_slice hs₃, take_of_slice hname, take_of_slice hs₁, List.take_zero,
      List.nil_append, eq_u32Bytes_of_sliceToU32 hsize (length_of_slice hs₁),
      eq_u32Bytes_of_sliceToU32 hpayloadLen (by rw [length_of_slice hs₃]; omega)] at htake
    rw [encode, hcodecLen, hlen, UInt32.ofNat_toNat, UInt32.ofNat_toNat, ← htake,
      List.take_append_drop]
  · rintro ⟨metadata, rest, hcodec, hlen, hmetadata, rfl⟩
    have hbuf : encode ch.codec metadata ++ rest =
        [] ++ (u32Bytes (UInt32.ofNat (utf8Bytes ch.codec).length) ++ (utf8Bytes ch.codec ++
          (u32Bytes (UInt32.ofNat metadata.length) ++ (metadata ++ rest)))) := by
      simp only [encode, List.append_assoc, List.nil_append]
    have hsize := slice_append 0 4 hbuf (by simp) (by simp)
    rw [← List.append_assoc] at hbuf
    have hname := slice_append 4 (4 + (utf8Bytes ch.codec).length) hbuf
      (by simp) (by simp)
    rw [← List.append_assoc] at hbuf
    have hsize' := slice_append (4 + (utf8Bytes ch.codec).length)
      (4 + (utf8Bytes ch.codec).length + 4) hbuf (by simp) (by simp)
    rw [← List.append_assoc] at hbuf
    have hdata := slice_append (4 + (utf8Bytes ch.codec).length + 4)
      (4 + (utf8Bytes ch.codec).length + 4 + metadata.length) hbuf
      (by simp [Nat.add_assoc]) (by simp [Nat.add_assoc])
    simp only [ofSlice, hsize, ok_bind, sliceToU32_u32Bytes, toNat_ofNat_length hcodec, hname,
      unwrapUtf8_utf8Bytes, hsize', toNat_ofNat_length hlen, hdata, hmetadata]
    rfl

end CodecHeader

end SnapcastClient
