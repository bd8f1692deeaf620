import SnapcastClient.Verification.TimeVal

/-! # Which values come out canonical

The loops of `normalize` stop at a whole second, which leaves two forms of the same instant.
Comparisons field by field go wrong exactly where the two forms meet. -/

namespace SnapcastClient

/-- The microseconds are one or more whole seconds. -/
def Span.Whole (s : Span) : Prop :=
  0 < s.usec ∧ s.usec % 1000000 = 0

instance (s : Span) : Decidable s.Whole :=
  inferInstanceAs (Decidable (_ ∧ _))

/-- Whole seconds keep the last of them in the microseconds, all else leaves a fraction. -/
theorem Span.carry_usec (s : Span) :
    s.carry.usec = if s.Whole then 1000000 else s.usec % 1000000 := by
  change s.usec - TimeVal.carried s.usec * 1000000 = _
  by_cases hwhole : s.Whole
  · rw [if_pos hwhole]
    obtain ⟨hpos, hmod⟩ := hwhole
    rw [TimeVal.carried, if_pos hpos]
    omega
  · rw [if_neg hwhole]
    rw [Whole] at hwhole
    rw [TimeVal.carried]
    split <;> omega

theorem Span.carry_usec_lt_iff (s : Span) : s.carry.usec < 1000000 ↔ ¬ s.Whole := by
  rw [carry_usec]
  split
  · rename_i hwhole
    simp [hwhole]
  · rename_i hwhole
    have hlt := Int.emod_lt_of_pos s.usec (by decide : (0 : ℤ) < 1000000)
    simp [hwhole, hlt]

namespace TimeVal

/-- Normalizing a second time changes nothing. -/
theorem normalize_idempotent {t r : TimeVal} (h : t.normalize = .ok r) : r.normalize = .ok r := by
  have hspec := normalize_spec h
  have hzero := carried_eq_zero hspec.usec_nonneg hspec.usec_le
  exact normalize_eq_ok.mpr (Span.carry_eq_self hzero).symm

/-- A value whose seconds do not overflow is normalized to the same instant, once and for all,
with a proper fraction of a second. -/
def NormalizesWell (t : TimeVal) : Prop :=
  ∃ r, t.normalize = .ok r ∧ r.toMicros = t.toMicros ∧ r.normalize = .ok r ∧ r.Canonical

theorem normalizesWell_iff {t : TimeVal} (h : t.normalize ≠ abort .overflow) :
    t.NormalizesWell ↔ ¬ t.span.Whole := by
  obtain ⟨r, hr⟩ := not_not.mp (h ∘ (checked_normalize t).eq_overflow_iff.mpr)
  have husec : r.usec.toInt = t.span.carry.usec := congrArg Span.usec (normalize_eq_ok.mp hr)
  have hspec := normalize_spec hr
  rw [← Span.carry_usec_lt_iff, ← husec]
  constructor
  · rintro ⟨r', hr', -, -, hcanonical⟩
    obtain rfl := Except.ok.inj (hr.symm.trans hr')
    exact hcanonical.2
  · intro hlt
    exact ⟨r, hr, hspec.micros, normalize_idempotent hr, hspec.usec_nonneg, hlt⟩

/-! ## Comparisons -/

/-- The results of the operations that end in `normalize`, with what they normalize. -/
inductive Yields : Span → TimeVal → Prop where
  | normalize {t r : TimeVal} : t.normalize = .ok r → Yields t.span r
  | add {x y r : TimeVal} : x.add y = .ok r → Yields (x.span.add y.span) r
  | sub {x y r : TimeVal} : x.sub y = .ok r → Yields (x.span.sub y.span) r
  | fromMillis {millis : Int32} {r : TimeVal} :
      fromMillis millis = .ok r → Yields ⟨0, millis.toInt * 1000⟩ r

theorem Yields.span_eq {s : Span} {r : TimeVal} (h : Yields s r) : r.span = s.carry := by
  cases h with
  | normalize h => exact normalize_eq_ok.mp h
  | add h => exact (add_eq_ok.mp h).2
  | sub h => exact (sub_eq_ok.mp h).2
  | fromMillis h => exact (fromMillis_eq_ok.mp h).2

theorem Yields.toMicros_eq {s : Span} {r : TimeVal} (h : Yields s r) : r.toMicros = s.micros := by
  rw [← span_micros, h.span_eq, Span.micros_carry]

/-- Equality, order and the sign of the seconds tell what the microseconds tell. -/
structure Agree (x y : TimeVal) : Prop where
  eq_iff : x = y ↔ x.toMicros = y.toMicros
  lt_iff : x < y ↔ x.toMicros < y.toMicros
  neg_iff : x.sec.toInt < 0 ↔ x.toMicros < 0

theorem lt_iff (x y : TimeVal) :
    x < y ↔ x.sec.toInt < y.sec.toInt ∨
      x.sec.toInt = y.sec.toInt ∧ x.usec.toInt < y.usec.toInt := by
  rw [← not_le, le_iff]
  omega

theorem eq_iff (x y : TimeVal) :
    x = y ↔ x.sec.toInt = y.sec.toInt ∧ x.usec.toInt = y.usec.toInt := by
  rw [TimeVal.ext_iff, ← Int32.toInt_inj, ← Int32.toInt_inj]

/-- Values with at most a second of microseconds compare as instants unless just one of two
forms of an instant keeps a whole second, or the instant zero does. -/
theorem agree_iff {x y : TimeVal} (hx : 0 ≤ x.usec.toInt ∧ x.usec.toInt ≤ 1000000)
    (hy : 0 ≤ y.usec.toInt ∧ y.usec.toInt ≤ 1000000) :
    Agree x y ↔
      ¬ (x.toMicros = y.toMicros ∧ ¬ (x.usec.toInt = 1000000 ↔ y.usec.toInt = 1000000)) ∧
        ¬ (x.usec.toInt = 1000000 ∧ x.toMicros = 0) := by
  constructor
  · rintro ⟨heq, hlt, hneg⟩
    rw [eq_iff] at heq
    simp only [toMicros] at heq hneg ⊢
    omega
  · intro h
    simp only [toMicros] at h
    refine ⟨?_, ?_, ?_⟩
    · rw [eq_iff, toMicros, toMicros]
      omega
    · rw [lt_iff, toMicros, toMicros]
      omega
    · rw [toMicros]
      omega

theorem Yields.usec_eq_iff {s : Span} {r : TimeVal} (h : Yields s r) :
    r.usec.toInt = 1000000 ↔ s.Whole := by
  have husec : r.usec.toInt = s.carry.usec := congrArg Span.usec h.span_eq
  have hle := s.carry_usec_mem.2
  have hlt := s.carry_usec_lt_iff
  rw [husec, ← not_iff_not, ← hlt]
  omega

theorem Yields.agree_iff {s s' : Span} {x y : TimeVal} (hx : Yields s x) (hy : Yields s' y) :
    Agree x y ↔ ¬ (s.micros = s'.micros ∧ ¬ (s.Whole ↔ s'.Whole)) ∧
      ¬ (s.Whole ∧ s.micros = 0) := by
  rw [TimeVal.agree_iff (usec_mem_of_carry hx.span_eq) (usec_mem_of_carry hy.span_eq),
    hx.usec_eq_iff, hy.usec_eq_iff, hx.toMicros_eq, hy.toMicros_eq]

/-- Normalization goes well except on whole seconds, and its results compare as instants except
where a whole second in the microseconds meets another form of the same instant. -/
theorem canonical_iff {t : TimeVal} (ht : t.normalize ≠ abort .overflow) {s s' : Span}
    {x y : TimeVal} (hx : Yields s x) (hy : Yields s' y) :
    (t.NormalizesWell ↔ ¬ t.span.Whole) ∧
      (Agree x y ↔ ¬ (s.micros = s'.micros ∧ ¬ (s.Whole ↔ s'.Whole)) ∧
        ¬ (s.Whole ∧ s.micros = 0)) :=
  ⟨normalizesWell_iff ht, hx.agree_iff hy⟩

/-- One and a half seconds, and half a second before zero. -/
theorem canonical_iff_halves :
    NormalizesWell ⟨1, 500000⟩ ∧ Agree ⟨-1, 500000⟩ ⟨1, 500000⟩ := by
  have hnormalize (t : TimeVal) (h0 : 0 ≤ t.usec.toInt) (h1 : t.usec.toInt ≤ 1000000) :
      t.normalize = .ok t :=
    normalize_eq_ok.mpr (Span.carry_eq_self (carried_eq_zero h0 h1)).symm
  have hlate := hnormalize ⟨1, 500000⟩ (by decide) (by decide)
  have hearly := hnormalize ⟨-1, 500000⟩ (by decide) (by decide)
  have hfits : normalize ⟨1, 500000⟩ ≠ abort .overflow := by
    rw [hlate]
    simp [abort]
  have hcanonical := canonical_iff hfits (.normalize hearly) (.normalize hlate)
  exact ⟨hcanonical.1.mpr (by decide), hcanonical.2.mpr (by decide)⟩

/-- A thousand milliseconds stay a million microseconds: the same instant as one second, and
yet another value. -/
theorem not_canonical_second :
    ¬ ((∀ t : TimeVal, t.normalize ≠ abort .overflow → t.NormalizesWell) ∧
      ∀ (s s' : Span) (x y : TimeVal), Yields s x → Yields s' y → Agree x y) := by
  rintro ⟨-, hagree⟩
  have hmillis : fromMillis 1000 = .ok ⟨0, 1000000⟩ :=
    fromMillis_eq_ok.mpr ⟨by decide, rfl⟩
  have hsecond : normalize ⟨1, 0⟩ = .ok ⟨1, 0⟩ :=
    normalize_eq_ok.mpr (Span.carry_eq_self (carried_eq_zero le_rfl (by decide))).symm
  have heq := (hagree _ _ _ _ (.fromMillis hmillis) (.normalize hsecond)).eq_iff
  exact absurd (heq.mpr (by decide)) (by decide)

end TimeVal

end SnapcastClient
