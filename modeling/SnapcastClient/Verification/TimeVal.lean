import SnapcastClient.Model.TimeVal

/-! # Exactness of the `TimeVal` arithmetic

Every operation keeps the microsecond value exactly or aborts; normalization aborts only
when the value does not fit. -/

namespace SnapcastClient

/-- Truncating division in terms of the flooring one. -/
theorem tdiv_eq_ite (a n : ℤ) : a.tdiv n = if 0 ≤ a then a / n else -(-a / n) := by
  split
  · rename_i h
    exact Int.tdiv_eq_ediv_of_nonneg h
  · rename_i h
    rw [← Int.tdiv_eq_ediv_of_nonneg (by omega : 0 ≤ -a), Int.neg_tdiv, neg_neg]

theorem checked_i32 (z : ℤ) : Checked (i32 z) := by
  rw [i32]
  split
  · exact checked_ok _
  · exact checked_overflow

namespace TimeVal

/-- Within `i32` seconds the two casts of `from_micros` lose nothing. -/
theorem fromMicros_toInt {us : ℤ} (hlo : -2147483648000000 ≤ us) (hhi : us < 2147483648000000) :
    (fromMicros us).sec.toInt = us.tdiv 1000000 ∧
      (fromMicros us).usec.toInt = us.tmod 1000000 := by
  have hdiv := tdiv_eq_ite us 1000000
  have hmod := Int.mul_tdiv_add_tmod us 1000000
  constructor <;> exact Int32.toInt_ofInt_of_le (by grind) (by grind)

theorem toMicros_fromMicros {us : ℤ} (hlo : -2147483648000000 ≤ us)
    (hhi : us < 2147483648000000) : (fromMicros us).toMicros = us := by
  obtain ⟨hsec, husec⟩ := fromMicros_toInt hlo hhi
  rw [toMicros, hsec, husec, Int.mul_comm]
  exact Int.mul_tdiv_add_tmod us 1000000

/-! ## Normalization -/

/-- The seconds the two loops move out of the microseconds. The first loop stops at a whole
second, so a positive multiple of one leaves its last second in place. -/
def carried (usec : ℤ) : ℤ :=
  if 0 < usec then (usec - 1) / 1000000 else usec / 1000000

theorem carried_sub {usec : ℤ} (h : 1000000 < usec) :
    carried usec = carried (usec - 1000000) + 1 := by
  rw [carried, if_pos (by omega), carried, if_pos (by omega)]
  omega

theorem carried_add {usec : ℤ} (h : usec < 0) :
    carried usec = carried (usec + 1000000) - 1 := by
  rw [carried, if_neg (by omega), carried]
  split <;> omega

theorem carried_nonneg (usec : ℤ) (h : 0 ≤ usec) : 0 ≤ carried usec := by
  rw [carried]
  split <;> omega

theorem carried_nonpos (usec : ℤ) (h : usec ≤ 1000000) : carried usec ≤ 0 := by
  rw [carried]
  split <;> omega

theorem carried_eq_zero {usec : ℤ} (h0 : 0 ≤ usec) (h1 : usec ≤ 1000000) : carried usec = 0 :=
  le_antisymm (carried_nonpos _ h1) (carried_nonneg _ h0)

/-- What stays behind is at most a second. -/
theorem carried_mem (usec : ℤ) :
    0 ≤ usec - carried usec * 1000000 ∧ usec - carried usec * 1000000 ≤ 1000000 := by
  rw [carried]
  split <;> omega

/-- A borrow leaves less than a second. -/
theorem lt_of_carried_neg {usec : ℤ} (h : carried usec < 0) :
    usec - carried usec * 1000000 < 1000000 := by
  rw [carried] at h ⊢
  split <;> omega

end TimeVal

/-- Seconds and microseconds without bounds. -/
@[ext] structure Span where
  sec : ℤ
  usec : ℤ

namespace Span

def add (x y : Span) : Span := ⟨x.sec + y.sec, x.usec + y.usec⟩

def sub (x y : Span) : Span := ⟨x.sec - y.sec, x.usec - y.usec⟩

/-- The carry moved over. -/
def carry (s : Span) : Span :=
  ⟨s.sec + TimeVal.carried s.usec, s.usec - TimeVal.carried s.usec * 1000000⟩

def micros (s : Span) : ℤ := s.sec * 1000000 + s.usec

/-- Both fields fit an `i32`, and so do the seconds with the carry. -/
structure Fits (s : Span) : Prop where
  sec_mem : -2147483648 ≤ s.sec ∧ s.sec ≤ 2147483647
  usec_mem : -2147483648 ≤ s.usec ∧ s.usec ≤ 2147483647
  carry_mem : -2147483648 ≤ s.carry.sec ∧ s.carry.sec ≤ 2147483647

/-- The carry keeps the instant. -/
@[simp] theorem micros_carry (s : Span) : s.carry.micros = s.micros := by
  simp only [micros, carry]
  ring

@[simp] theorem micros_add (x y : Span) : (x.add y).micros = x.micros + y.micros := by
  simp only [micros, add]
  ring

@[simp] theorem micros_sub (x y : Span) : (x.sub y).micros = x.micros - y.micros := by
  simp only [micros, sub]
  ring

theorem carry_usec_mem (s : Span) : 0 ≤ s.carry.usec ∧ s.carry.usec ≤ 1000000 :=
  TimeVal.carried_mem s.usec

/-- Seconds that start in range stay there as long as the instant does. -/
theorem carry_sec_mem {s : Span} (hsec : -2147483648 ≤ s.sec ∧ s.sec ≤ 2147483647)
    (hlo : -2147483648000000 ≤ s.micros) (hhi : s.micros < 2147483648000000) :
    -2147483648 ≤ s.carry.sec ∧ s.carry.sec ≤ 2147483647 := by
  have hmem := TimeVal.carried_mem s.usec
  rw [micros] at hlo hhi
  simp only [carry]
  by_cases hneg : TimeVal.carried s.usec < 0
  · have hlt := TimeVal.lt_of_carried_neg hneg
    exact ⟨by omega, by omega⟩
  · exact ⟨by omega, by omega⟩

theorem carry_eq_self {s : Span} (hzero : TimeVal.carried s.usec = 0) : s.carry = s := by
  ext <;> simp [carry, hzero]

end Span

namespace TimeVal

def span (t : TimeVal) : Span := ⟨t.sec.toInt, t.usec.toInt⟩

theorem span_injective {x y : TimeVal} (h : x.span = y.span) : x = y := by
  obtain ⟨hsec, husec⟩ := Span.mk.inj h
  exact TimeVal.ext (Int32.toInt_inj.mp hsec) (Int32.toInt_inj.mp husec)

theorem span_mk {sec usec : Int32} : span ⟨sec, usec⟩ = ⟨sec.toInt, usec.toInt⟩ := rfl

@[simp] theorem span_micros (t : TimeVal) : t.span.micros = t.toMicros := rfl

/-- Seconds in range and at most a second of microseconds are a value. -/
theorem exists_span_eq {s : Span} (hsec : -2147483648 ≤ s.sec ∧ s.sec ≤ 2147483647)
    (husec : 0 ≤ s.usec ∧ s.usec ≤ 1000000) : ∃ t, span t = s := by
  obtain ⟨sec, -, hs⟩ := i32_of_mem hsec.1 hsec.2
  obtain ⟨usec, -, hu⟩ := i32_of_mem (z := s.usec) (by omega) (by omega)
  exact ⟨⟨sec, usec⟩, Span.ext hs hu⟩

theorem carry_eq_ok {t r : TimeVal} (h0 : 0 ≤ t.usec.toInt) :
    carry t = .ok r ↔ r.span = t.span.carry := by
  induction t using carry.induct with
  | case1 t ht ih =>
      have hlt := t.usec.toInt_lt
      have husec : (Int32.ofInt (t.usec.toInt - 1000000)).toInt = t.usec.toInt - 1000000 :=
        Int32.toInt_ofInt_of_le (by omega) (by omega)
      -- one round moves a second over, which the carry of the rest accounts for
      have hround (sec : Int32) (hsec : sec.toInt = t.sec.toInt + 1) :
          (span ⟨sec, Int32.ofInt (t.usec.toInt - 1000000)⟩).carry = t.span.carry := by
        rw [span_mk, husec, hsec, span, Span.carry, Span.carry, Span.mk.injEq, carried_sub ht]
        constructor <;> ring
      rw [carry, dif_pos ht]
      constructor
      · intro h
        obtain ⟨sec, hsec, h⟩ := bind_eq_ok.mp h
        rw [← hround sec (i32_eq_ok.mp hsec)]
        exact (ih sec (by rw [husec]; omega)).mp h
      · intro h
        have hlo := t.sec.le_toInt
        have hhi := r.sec.toInt_lt
        have hnonneg := carried_nonneg (t.usec.toInt - 1000000) (by omega)
        have hrsec : r.sec.toInt = t.sec.toInt + carried t.usec.toInt := congrArg Span.sec h
        have hcarried := carried_sub ht
        obtain ⟨sec, hsec, hsec'⟩ := i32_of_mem (z := t.sec.toInt + 1) (by omega) (by omega)
        rw [hsec, ok_bind, ih sec (by rw [husec]; omega), hround sec hsec']
        exact h
  | case2 t ht =>
      have hzero := carried_eq_zero h0 (not_lt.mp ht)
      rw [carry, dif_neg ht, Except.ok.injEq, Span.carry_eq_self hzero]
      exact ⟨fun h => congrArg span h.symm, fun h => (span_injective h).symm⟩

theorem borrow_eq_ok {t r : TimeVal} (h1 : t.usec.toInt ≤ 1000000) :
    borrow t = .ok r ↔ r.span = t.span.carry := by
  induction t using borrow.induct with
  | case1 t ht ih =>
      have hle := t.usec.le_toInt
      have husec : (Int32.ofInt (t.usec.toInt + 1000000)).toInt = t.usec.toInt + 1000000 :=
        Int32.toInt_ofInt_of_le (by omega) (by omega)
      have hround (sec : Int32) (hsec : sec.toInt = t.sec.toInt - 1) :
          (span ⟨sec, Int32.ofInt (t.usec.toInt + 1000000)⟩).carry = t.span.carry := by
        rw [span_mk, husec, hsec, span, Span.carry, Span.carry, Span.mk.injEq, carried_add ht]
        constructor <;> ring
      rw [borrow, dif_pos ht]
      constructor
      · intro h
        obtain ⟨sec, hsec, h⟩ := bind_eq_ok.mp h
        rw [← hround sec (i32_eq_ok.mp hsec)]
        exact (ih sec (by rw [husec]; omega)).mp h
      · intro h
        have hhi := t.sec.toInt_lt
        have hlo := r.sec.le_toInt
        have hnonpos := carried_nonpos (t.usec.toInt + 1000000) (by omega)
        have hrsec : r.sec.toInt = t.sec.toInt + carried t.usec.toInt := congrArg Span.sec h
        have hcarried := carried_add ht
        obtain ⟨sec, hsec, hsec'⟩ := i32_of_mem (z := t.sec.toInt - 1) (by omega) (by omega)
        rw [hsec, ok_bind, ih sec (by rw [husec]; omega), hround sec hsec']
        exact h
  | case2 t ht =>
      have hzero := carried_eq_zero (not_lt.mp ht) h1
      rw [borrow, dif_neg ht, Except.ok.injEq, Span.carry_eq_self hzero]
      exact ⟨fun h => congrArg span h.symm, fun h => (span_injective h).symm⟩

/-- Normalization moves the carry over, and aborts when the seconds do not take it. -/
theorem normalize_eq_ok {t r : TimeVal} : normalize t = .ok r ↔ r.span = t.span.carry := by
  rw [normalize, bind_eq_ok]
  by_cases hneg : t.usec.toInt < 0
  · have hcarry : carry t = .ok t := by rw [carry, dif_neg (by omega)]
    simp only [hcarry, Except.ok.injEq]
    rw [← borrow_eq_ok (by omega)]
    simp
  · have hkeep : ∀ c, carry t = .ok c → borrow c = .ok c := by
      intro c hc
      have husec : c.usec.toInt = t.span.carry.usec :=
        congrArg Span.usec ((carry_eq_ok (not_lt.mp hneg)).mp hc)
      rw [borrow, dif_neg]
      rw [husec]
      exact not_lt.mpr t.span.carry_usec_mem.1
    rw [← carry_eq_ok (not_lt.mp hneg)]
    constructor
    · rintro ⟨c, hc, hr⟩
      obtain rfl := Except.ok.inj ((hkeep c hc).symm.trans hr)
      exact hc
    · exact fun h => ⟨r, h, hkeep r h⟩

theorem checked_carry (t : TimeVal) : Checked t.carry := by
  induction t using carry.induct with
  | case1 t ht ih =>
      rw [carry, dif_pos ht]
      exact checked_bind (checked_i32 _) fun sec _ => ih sec
  | case2 t ht =>
      rw [carry, dif_neg ht]
      exact checked_ok t

theorem checked_borrow (t : TimeVal) : Checked t.borrow := by
  induction t using borrow.induct with
  | case1 t ht ih =>
      rw [borrow, dif_pos ht]
      exact checked_bind (checked_i32 _) fun sec _ => ih sec
  | case2 t ht =>
      rw [borrow, dif_neg ht]
      exact checked_ok t

theorem checked_normalize (t : TimeVal) : Checked t.normalize :=
  checked_bind (checked_carry t) fun c _ => checked_borrow c

/-- Normalization keeps the instant and leaves between zero and one second of
microseconds, a whole second only when it was given a positive multiple of one. -/
structure NormalizeSpec (t r : TimeVal) : Prop where
  micros : r.toMicros = t.toMicros
  usec_nonneg : 0 ≤ r.usec.toInt
  usec_le : r.usec.toInt ≤ 1000000
  usec_lt : t.usec.toInt < 1000000 → r.usec.toInt < 1000000

theorem normalize_spec {t r : TimeVal} (h : normalize t = .ok r) : NormalizeSpec t r := by
  have hspan := normalize_eq_ok.mp h
  have husec : r.usec.toInt = t.span.carry.usec := congrArg Span.usec hspan
  have hmem := t.span.carry_usec_mem
  refine ⟨?_, by omega, by omega, fun hlt => ?_⟩
  · rw [← span_micros, hspan, Span.micros_carry, span_micros]
  · rw [husec, Span.carry, span, carried]
    dsimp only
    split <;> omega

/-- Normalization aborts only on instants beyond `i32` seconds. -/
theorem normalize_returns {t : TimeVal} (hlo : -2147483648000000 ≤ t.toMicros)
    (hhi : t.toMicros < 2147483648000000) : ∃ r, normalize t = .ok r := by
  have hrange := t.sec.toInt_lt
  have hsec := Span.carry_sec_mem (s := t.span) ⟨t.sec.le_toInt, Int.lt_add_one_iff.mp hrange⟩
    hlo hhi
  obtain ⟨r, hr⟩ := exists_span_eq (s := t.span.carry) hsec t.span.carry_usec_mem
  exact ⟨r, normalize_eq_ok.mpr hr⟩

/-! ## Addition, subtraction and milliseconds -/

/-- The common end of addition and subtraction. -/
theorem combine_eq_ok {s : Span} {r : TimeVal} :
    (do
      let sec ← i32 s.sec
      let usec ← i32 s.usec
      normalize ⟨sec, usec⟩) = .ok r ↔ s.Fits ∧ r.span = s.carry := by
  constructor
  · intro h
    obtain ⟨sec, hsec, h⟩ := bind_eq_ok.mp h
    obtain ⟨usec, husec, h⟩ := bind_eq_ok.mp h
    have hs : span ⟨sec, usec⟩ = s := Span.ext (i32_eq_ok.mp hsec) (i32_eq_ok.mp husec)
    have hr := normalize_eq_ok.mp h
    rw [hs] at hr
    have hrsec : r.sec.toInt = s.carry.sec := congrArg Span.sec hr
    obtain ⟨hssec, hsusec⟩ := Span.mk.inj hs
    refine ⟨⟨?_, ?_, ?_⟩, hr⟩
    · rw [← hssec]
      exact ⟨sec.le_toInt, Int.lt_add_one_iff.mp sec.toInt_lt⟩
    · rw [← hsusec]
      exact ⟨usec.le_toInt, Int.lt_add_one_iff.mp usec.toInt_lt⟩
    · rw [← hrsec]
      exact ⟨r.sec.le_toInt, Int.lt_add_one_iff.mp r.sec.toInt_lt⟩
  · rintro ⟨hfits, hr⟩
    obtain ⟨sec, hsec, hsec'⟩ := i32_of_mem hfits.sec_mem.1 hfits.sec_mem.2
    obtain ⟨usec, husec, husec'⟩ := i32_of_mem hfits.usec_mem.1 hfits.usec_mem.2
    have hs : span ⟨sec, usec⟩ = s := Span.ext hsec' husec'
    rw [hsec, ok_bind, husec, ok_bind, normalize_eq_ok, hs]
    exact hr

theorem add_eq_ok {x y r : TimeVal} :
    x.add y = .ok r ↔ (x.span.add y.span).Fits ∧ r.span = (x.span.add y.span).carry :=
  combine_eq_ok (s := x.span.add y.span)

theorem sub_eq_ok {x y r : TimeVal} :
    x.sub y = .ok r ↔ (x.span.sub y.span).Fits ∧ r.span = (x.span.sub y.span).carry :=
  combine_eq_ok (s := x.span.sub y.span)

theorem checked_add (x y : TimeVal) : Checked (x.add y) :=
  checked_bind (checked_i32 _) fun _ _ => checked_bind (checked_i32 _) fun _ _ =>
    checked_normalize _

theorem checked_sub (x y : TimeVal) : Checked (x.sub y) :=
  checked_bind (checked_i32 _) fun _ _ => checked_bind (checked_i32 _) fun _ _ =>
    checked_normalize _

theorem exists_sub {x y : TimeVal} (h : (x.span.sub y.span).Fits) : ∃ r, x.sub y = .ok r := by
  obtain ⟨r, hr⟩ := exists_span_eq h.carry_mem (Span.carry_usec_mem _)
  exact ⟨r, sub_eq_ok.mpr ⟨h, hr⟩⟩

theorem exists_add {x y : TimeVal} (h : (x.span.add y.span).Fits) : ∃ r, x.add y = .ok r := by
  obtain ⟨r, hr⟩ := exists_span_eq h.carry_mem (Span.carry_usec_mem _)
  exact ⟨r, add_eq_ok.mpr ⟨h, hr⟩⟩

theorem usec_mem_of_carry {s : Span} {r : TimeVal} (h : r.span = s.carry) :
    0 ≤ r.usec.toInt ∧ r.usec.toInt ≤ 1000000 := by
  have husec : r.usec.toInt = s.carry.usec := congrArg Span.usec h
  rw [husec]
  exact s.carry_usec_mem

theorem add_spec {x y r : TimeVal} (h : x.add y = .ok r) :
    r.toMicros = x.toMicros + y.toMicros ∧ 0 ≤ r.usec.toInt ∧ r.usec.toInt ≤ 1000000 := by
  have hr := (add_eq_ok.mp h).2
  refine ⟨?_, usec_mem_of_carry hr⟩
  rw [← span_micros, hr, Span.micros_carry, Span.micros_add, span_micros, span_micros]

theorem sub_spec {x y r : TimeVal} (h : x.sub y = .ok r) :
    r.toMicros = x.toMicros - y.toMicros ∧ 0 ≤ r.usec.toInt ∧ r.usec.toInt ≤ 1000000 := by
  have hr := (sub_eq_ok.mp h).2
  refine ⟨?_, usec_mem_of_carry hr⟩
  rw [← span_micros, hr, Span.micros_carry, Span.micros_sub, span_micros, span_micros]

/-- A subtraction returns when both field differences and the difference of the instants
fit. -/
theorem sub_returns {x y : TimeVal}
    (hsec : -2147483648 ≤ x.sec.toInt - y.sec.toInt ∧ x.sec.toInt - y.sec.toInt ≤ 2147483647)
    (husec : -2147483648 ≤ x.usec.toInt - y.usec.toInt ∧
      x.usec.toInt - y.usec.toInt ≤ 2147483647)
    (hlo : -2147483648000000 ≤ x.toMicros - y.toMicros)
    (hhi : x.toMicros - y.toMicros < 2147483648000000) :
    ∃ r, x.sub y = .ok r := by
  rw [← span_micros x, ← span_micros y, ← Span.micros_sub] at hlo hhi
  exact exists_sub ⟨hsec, husec, Span.carry_sec_mem hsec hlo hhi⟩

/-- Milliseconds convert as long as the product by a thousand fits. -/
theorem fromMillis_eq_ok {millis : Int32} {r : TimeVal} :
    fromMillis millis = .ok r ↔
      (-2147483648 ≤ millis.toInt * 1000 ∧ millis.toInt * 1000 ≤ 2147483647) ∧
        r.span = Span.carry ⟨0, millis.toInt * 1000⟩ := by
  have hzero (usec : Int32) : span ⟨0, usec⟩ = ⟨0, usec.toInt⟩ := rfl
  constructor
  · intro h
    obtain ⟨usec, husec, h⟩ := bind_eq_ok.mp h
    have hr := normalize_eq_ok.mp h
    have husec := i32_eq_ok.mp husec
    have hlo := usec.le_toInt
    have hhi := usec.toInt_lt
    rw [hzero, husec] at hr
    exact ⟨⟨by omega, by omega⟩, hr⟩
  · rintro ⟨⟨hlo, hhi⟩, hr⟩
    obtain ⟨usec, husec, husec'⟩ := i32_of_mem hlo hhi
    rw [fromMillis, husec, ok_bind, normalize_eq_ok, hzero, husec']
    exact hr

theorem checked_fromMillis (millis : Int32) : Checked (fromMillis millis) :=
  checked_bind (checked_i32 _) fun _ _ => checked_normalize _

theorem exists_fromMillis (millis : Int32)
    (h : -2147483648 ≤ millis.toInt * 1000 ∧ millis.toInt * 1000 ≤ 2147483647) :
    ∃ r, fromMillis millis = .ok r := by
  obtain ⟨r, hr⟩ := exists_span_eq (s := Span.carry ⟨0, millis.toInt * 1000⟩)
    (Span.carry_sec_mem ⟨by simp, by simp⟩ (by simp only [Span.micros]; omega)
      (by simp only [Span.micros]; omega)) (Span.carry_usec_mem _)
  exact ⟨r, fromMillis_eq_ok.mpr ⟨h, hr⟩⟩

theorem fromMillis_spec {millis : Int32} {r : TimeVal} (h : fromMillis millis = .ok r) :
    r.toMicros = millis.toInt * 1000 := by
  rw [← span_micros, (fromMillis_eq_ok.mp h).2, Span.micros_carry, Span.micros]
  ring

/-- Between plus and minus thirty-six minutes, with at most a second of microseconds. -/
structure Short (t : TimeVal) : Prop where
  sec_mem : -2148 ≤ t.sec.toInt ∧ t.sec.toInt ≤ 2147
  usec_mem : 0 ≤ t.usec.toInt ∧ t.usec.toInt ≤ 1000000

/-- Milliseconds whose microseconds fit an `i32` are short. -/
theorem short_of_fromMillis {millis : Int32} {r : TimeVal} (h : fromMillis millis = .ok r) :
    r.Short := by
  obtain ⟨hmem, hr⟩ := fromMillis_eq_ok.mp h
  have husec := usec_mem_of_carry hr
  have hmicros := fromMillis_spec h
  rw [toMicros] at hmicros
  exact ⟨by omega, husec⟩

/-! ## Canonical values -/

/-- The microsecond field is a proper fraction of a second. -/
def Canonical (t : TimeVal) : Prop :=
  0 ≤ t.usec.toInt ∧ t.usec.toInt < 1000000

instance (t : TimeVal) : Decidable t.Canonical :=
  inferInstanceAs (Decidable (_ ∧ _))

/-- On canonical values the derived order is the order of the instants. -/
theorem Canonical.le_iff {x y : TimeVal} (hx : x.Canonical) (hy : y.Canonical) :
    x ≤ y ↔ x.toMicros ≤ y.toMicros := by
  obtain ⟨hx0, hx1⟩ := hx
  obtain ⟨hy0, hy1⟩ := hy
  rw [TimeVal.le_iff, toMicros, toMicros]
  omega

/-- Canonical values of the same instant are equal. -/
theorem Canonical.eq_of_toMicros {x y : TimeVal} (hx : x.Canonical) (hy : y.Canonical)
    (h : x.toMicros = y.toMicros) : x = y :=
  le_antisymm ((hx.le_iff hy).mpr h.le) ((hy.le_iff hx).mpr h.ge)

/-- Half of an `i32` span, normalized: the microseconds are exact and the value canonical. -/
theorem normalize_fromMicros (us : ℤ) (hlo : -2147483648000000 ≤ us)
    (hhi : us < 2147483648000000) :
    ∃ r, (fromMicros us).normalize = .ok r ∧ r.toMicros = us ∧ r.Canonical := by
  have hmicros := toMicros_fromMicros hlo hhi
  obtain ⟨r, hr⟩ := normalize_returns (t := fromMicros us) (by omega) (by omega)
  have hspec := normalize_spec hr
  have husec := (fromMicros_toInt hlo hhi).2
  refine ⟨r, hr, hspec.micros.trans hmicros, hspec.usec_nonneg, hspec.usec_lt ?_⟩
  rw [husec]
  exact Int.tmod_lt_of_pos us (by omega)

/-- The instants a normalized difference can take. -/
theorem toMicros_mem (t : TimeVal) (h0 : 0 ≤ t.usec.toInt) (h1 : t.usec.toInt ≤ 1000000) :
    -2147483648000000 ≤ t.toMicros ∧ t.toMicros ≤ 2147483648000000 := by
  have hlo := t.sec.le_toInt
  have hhi := t.sec.toInt_lt
  rw [toMicros]
  omega

/-! ## Clock readings -/

/-- A clock reading whose seconds fit the wire field. -/
def Representable (us : ℤ) : Prop :=
  -2147483648000000 ≤ us ∧ us < 2147483648000000

/-- A clock reading of less than `2 ^ 29` seconds. -/
def InClock (us : ℤ) : Prop :=
  -536870912000000 < us ∧ us < 536870912000000

instance (us : ℤ) : Decidable (InClock us) :=
  inferInstanceAs (Decidable (_ ∧ _))

theorem InClock.representable {us : ℤ} (h : InClock us) : Representable us := by
  obtain ⟨hlo, hhi⟩ := h
  constructor <;> omega

theorem InClock.toMicros_eq {us : ℤ} (h : InClock us) : (fromMicros us).toMicros = us :=
  toMicros_fromMicros h.representable.1 h.representable.2

/-- Readings of two clocks can be subtracted. -/
theorem sub_fromMicros_returns {x y : ℤ} (hx : InClock x) (hy : InClock y) :
    ∃ r, (fromMicros x).sub (fromMicros y) = .ok r := by
  obtain ⟨hxsec, hxusec⟩ := fromMicros_toInt hx.representable.1 hx.representable.2
  obtain ⟨hysec, hyusec⟩ := fromMicros_toInt hy.representable.1 hy.representable.2
  have hxdiv := tdiv_eq_ite x 1000000
  have hydiv := tdiv_eq_ite y 1000000
  have hxmod := Int.mul_tdiv_add_tmod x 1000000
  have hymod := Int.mul_tdiv_add_tmod y 1000000
  obtain ⟨hxlo, hxhi⟩ := hx
  obtain ⟨hylo, hyhi⟩ := hy
  apply sub_returns
  · rw [hxsec, hysec]
    constructor <;> grind
  · rw [hxusec, hyusec]
    constructor <;> grind
  · rw [toMicros, toMicros, hxsec, hysec, hxusec, hyusec]
    grind
  · rw [toMicros, toMicros, hxsec, hysec, hxusec, hyusec]
    grind

end TimeVal

end SnapcastClient
