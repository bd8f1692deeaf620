import SnapcastClient.Verification.Reading

/-! # The header codec

The parser takes exactly the headers that the writer writes, and the two undo each other. -/

namespace SnapcastClient

namespace Base

/-- An accepted slice starts with the header of what it decodes to. -/
theorem take_of_tryFrom {buf : List UInt8} {b : Base} (h : tryFrom buf = .ok b) :
    buf.take baseSize = b.header := by
  obtain ⟨-, -, h⟩ := bind_eq_ok.mp h
  obtain ⟨s₁, hs₁, h⟩ := bind_eq_ok.mp h
  obtain ⟨code, hcode, h⟩ := bind_eq_ok.mp h
  obtain ⟨mtype, hmtype, h⟩ := bind_eq_ok.mp h
  obtain ⟨s₆, hs₆, h⟩ := bind_eq_ok.mp h
  obtain ⟨size, hsize, h⟩ := bind_eq_ok.mp h
  obtain ⟨-, -, h⟩ := bind_eq_ok.mp h
  obtain ⟨s₂, hs₂, h⟩ := bind_eq_ok.mp h
  obtain ⟨id, hid, h⟩ := bind_eq_ok.mp h
  obtain ⟨s₃, hs₃, h⟩ := bind_eq_ok.mp h
  obtain ⟨refersTo, hrefersTo, h⟩ := bind_eq_ok.mp h
  obtain ⟨s₄, hs₄, h⟩ := bind_eq_ok.mp h
  obtain ⟨sentTv, hsentTv, h⟩ := bind_eq_ok.mp h
  obtain ⟨s₅, hs₅, h⟩ := bind_eq_ok.mp h
  obtain ⟨receivedTv, hreceivedTv, h⟩ := bind_eq_ok.mp h
  obtain rfl := Except.ok.inj h
  obtain rfl := MessageType.tryFrom_eq_ok.mp hmtype
  rw [baseSize, take_of_slice hs₆, take_of_slice hs₅, take_of_slice hs₄, take_of_slice hs₃,
    take_of_slice hs₂, take_of_slice hs₁, List.take_zero, List.nil_append,
    eq_u16Bytes_of_sliceToU16 hcode (length_of_slice hs₁),
    eq_u16Bytes_of_sliceToU16 hid (length_of_slice hs₂),
    eq_u16Bytes_of_sliceToU16 hrefersTo (length_of_slice hs₃),
    eq_asBuf_of_ofSlice hsentTv (length_of_slice hs₄),
    eq_asBuf_of_ofSlice hreceivedTv (length_of_slice hs₅),
    eq_u32Bytes_of_sliceToU32 hsize (length_of_slice hs₆), header]

theorem exists_tryFrom_iff (buf : List UInt8) :
    (∃ b, tryFrom buf = .ok b) ↔
      baseSize ≤ buf.length ∧ field buf 0 2 ≤ 7 ∧ field buf 22 4 ≤ maxPayload := by
  by_cases hlen : baseSize ≤ buf.length
  · cases hrefusal : Reading.headerRefusal buf with
    | none =>
        obtain ⟨mtype, -, hb⟩ := Reading.exists_base hlen hrefusal
        refine iff_of_true ⟨_, hb⟩ ⟨hlen, ?_⟩
        rw [Reading.headerRefusal] at hrefusal
        rw [maxPayload]
        split at hrefusal
        · cases hrefusal
        · split at hrefusal
          · cases hrefusal
          · omega
    | some refusal =>
        have hb := Reading.tryFrom_of_refusal hlen hrefusal
        refine iff_of_false ?_ ?_
        · rintro ⟨b, hok⟩
          rw [hb] at hok
          cases hok
        · rintro ⟨-, hcode, hsize⟩
          rw [maxPayload] at hsize
          rw [Reading.headerRefusal, if_neg (by omega), if_neg (by omega)] at hrefusal
          cases hrefusal
  · refine iff_of_false ?_ fun h => hlen h.1
    rintro ⟨b, hb⟩
    exact hlen (ensure_eq_ok.mp (bind_eq_ok.mp hb).choose_spec.1)

/-- What is accepted, what writing it again gives, and that nothing but the first 26 bytes
tells two accepted headers apart. -/
theorem tryFrom_write (buf : List UInt8) :
    ((∃ b, tryFrom buf = .ok b) ↔
      baseSize ≤ buf.length ∧ field buf 0 2 ≤ 7 ∧ field buf 22 4 ≤ maxPayload) ∧
      ∀ b, tryFrom buf = .ok b →
        (∀ payload out, baseSize + payload.length ≤ out.length →
          b.write out payload =
            .ok (buf.take baseSize ++ payload ++ out.drop (baseSize + payload.length),
              baseSize + payload.length)) ∧
          (∀ payload, b.asBuf payload = .ok (buf.take baseSize ++ payload)) ∧
            ∀ buf', tryFrom buf' = .ok b → buf.take baseSize = buf'.take baseSize := by
  refine ⟨exists_tryFrom_iff buf, fun b hb => ?_⟩
  rw [take_of_tryFrom hb]
  refine ⟨?_, b.asBuf_eq, fun buf' hb' => (take_of_tryFrom hb').symm⟩
  intro payload out hout
  exact b.write_eq out hout

/-- A time request, decoded from a longer buffer and written over another. -/
theorem tryFrom_write_time :
    (Time.base 7 0 ⟨5, -6⟩ .zero).write (List.replicate 35 1) (TimeVal.asBuf ⟨-1, 0⟩) =
      .ok ((Time.base 7 0 ⟨5, -6⟩ .zero).header ++ TimeVal.asBuf ⟨-1, 0⟩ ++ [1], 34) := by
  let b := Time.base 7 0 ⟨5, -6⟩ .zero
  have hb : tryFrom (b.header ++ [9, 9]) = .ok b := b.tryFrom_header [9, 9] (by decide)
  have hwrite := ((tryFrom_write _).2 b hb).1 (TimeVal.asBuf ⟨-1, 0⟩) (List.replicate 35 1)
    (by decide)
  have htake : (b.header ++ [9, 9]).take baseSize = b.header :=
    List.take_left' (b.header_length)
  rwa [htake] at hwrite

end Base

end SnapcastClient
