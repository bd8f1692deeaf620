import SnapcastClient.Library.LittleEndian

/-! # Outcomes and byte slices

A function of the program returns, returns an `Err`, or aborts its thread. Arithmetic on
the `i32` and `usize` fields is checked: an overflow is one more way to abort. -/

namespace SnapcastClient

/-- What a Rust panic is about. -/
inductive Panic where
  | sliceIndex
  | utf8
  | json
  | assertion
  | todo (what : String)
  | noPendingHeader
  | overflow
  deriving DecidableEq, Repr

/-- How a call ends when it does not end in `Ok`: with an `anyhow` error carrying its text,
or in a panic. -/
inductive Fault where
  | error (message : String)
  | panicked (reason : Panic)
  deriving DecidableEq, Repr

abbrev Outcome := Except Fault

variable {α β : Type}

def bail (message : String) : Outcome α :=
  .error (.error message)

def abort (reason : Panic) : Outcome α :=
  .error (.panicked reason)

def ensure (p : Prop) [Decidable p] (message : String) : Outcome Unit :=
  if p then .ok () else bail message

/-- `assert_eq!`. -/
def assertEq [DecidableEq α] (a b : α) : Outcome Unit :=
  if a = b then .ok () else abort .assertion

/-- The call returns, with `Ok` or with `Err`. -/
def Returns (x : Outcome α) : Prop :=
  ∀ reason, x ≠ abort reason

@[simp] theorem returns_ok (a : α) : Returns (.ok a : Outcome α) := by
  intro reason h
  cases h

@[simp] theorem returns_bail (message : String) : Returns (bail message : Outcome α) := by
  intro reason h
  cases h

@[simp] theorem not_returns_abort (reason : Panic) : ¬ Returns (abort reason : Outcome α) :=
  fun h => h reason rfl

/-- A failure is an `Err` or a panic whatever the call would have returned. -/
theorem Returns.of_error {fault : Fault} (h : Returns (.error fault : Outcome α)) :
    Returns (.error fault : Outcome β) :=
  fun reason hfault => h reason (congrArg Except.error (Except.error.inj hfault))

@[simp] theorem ok_bind (a : α) (f : α → Outcome β) : (Except.ok a >>= f) = f a := rfl

@[simp] theorem pure_eq_ok (a : α) : (pure a : Outcome α) = .ok a := rfl

theorem bind_eq_ok {x : Outcome α} {f : α → Outcome β} {b : β} :
    (x >>= f) = .ok b ↔ ∃ a, x = .ok a ∧ f a = .ok b := by
  cases x with
  | error e =>
      constructor
      · intro h
        cases h
      · rintro ⟨a, h, -⟩
        cases h
  | ok a => simp

theorem returns_bind {x : Outcome α} {f : α → Outcome β} (hx : Returns x) :
    Returns (x >>= f) ↔ ∀ a, x = .ok a → Returns (f a) := by
  cases x with
  | error e =>
      cases e with
      | error message =>
          refine ⟨?_, fun _ => returns_bail message⟩
          intro _ a h
          cases h
      | panicked reason => exact absurd rfl (hx reason)
  | ok a => simp

theorem returns_map_iff {x : Outcome α} (f : α → β) :
    Returns (f <$> x) ↔ Returns x := by
  cases x with
  | error e =>
      cases e with
      | error message => exact iff_of_true (returns_bail message) (returns_bail message)
      | panicked reason => exact iff_of_false (not_returns_abort reason) (not_returns_abort reason)
  | ok a => exact iff_of_true (returns_ok _) (returns_ok a)

theorem ensure_eq_ok {p : Prop} [Decidable p] {message : String} {u : Unit} :
    ensure p message = .ok u ↔ p := by
  by_cases h : p <;> simp [ensure, h, bail]

theorem ensure_of {p : Prop} [Decidable p] (message : String) (h : p) :
    ensure p message = .ok () := by
  simp [ensure, h]

theorem ensure_of_not {p : Prop} [Decidable p] (message : String) (h : ¬ p) :
    ensure p message = bail message := by
  simp [ensure, h]

theorem returns_ensure (p : Prop) [Decidable p] (message : String) :
    Returns (ensure p message) := by
  by_cases h : p
  · rw [ensure_of _ h]
    exact returns_ok _
  · rw [ensure_of_not _ h]
    exact returns_bail _

theorem assertEq_eq_ok [DecidableEq α] {a b : α} {u : Unit} :
    assertEq a b = .ok u ↔ a = b := by
  by_cases h : a = b <;> simp [assertEq, h, abort]

/-- Checked arithmetic: the call returns a value or overflows. -/
def Checked (x : Outcome α) : Prop :=
  ∀ fault, x = .error fault → fault = .panicked .overflow

theorem checked_ok (a : α) : Checked (.ok a : Outcome α) := by
  intro fault h
  cases h

theorem checked_overflow : Checked (abort .overflow : Outcome α) := by
  intro fault h
  exact (Except.error.inj h).symm

theorem checked_bind {x : Outcome α} {f : α → Outcome β} (hx : Checked x)
    (hf : ∀ a, x = .ok a → Checked (f a)) : Checked (x >>= f) := by
  cases x with
  | error fault =>
      obtain rfl := hx fault rfl
      exact checked_overflow
  | ok a => exact hf a rfl

/-- A checked call that returns no value overflows. -/
theorem Checked.eq_overflow_iff {x : Outcome α} (hx : Checked x) :
    x = abort .overflow ↔ ¬ ∃ a, x = .ok a := by
  cases x with
  | error fault =>
      obtain rfl := hx fault rfl
      simp [abort]
  | ok a => simp [abort]

/-- The call never returns an `Err`: what an infallible conversion promises. -/
def Infallible (x : Outcome α) : Prop :=
  ∀ message, x ≠ bail message

theorem infallible_ok (a : α) : Infallible (.ok a : Outcome α) := by
  intro message h
  cases h

theorem infallible_abort (reason : Panic) : Infallible (abort reason : Outcome α) := by
  intro message h
  cases h

theorem infallible_assertEq [DecidableEq α] (a b : α) : Infallible (assertEq a b) := by
  rw [assertEq]
  split
  · exact infallible_ok ()
  · exact infallible_abort _

theorem infallible_bind {x : Outcome α} {f : α → Outcome β} (hx : Infallible x)
    (hf : ∀ a, Infallible (f a)) : Infallible (x >>= f) := by
  cases x with
  | error e =>
      cases e with
      | error message => exact absurd rfl (hx message)
      | panicked reason => exact infallible_abort reason
  | ok a => exact hf a

theorem infallible_map {x : Outcome α} (f : α → β) (hx : Infallible x) :
    Infallible (f <$> x) :=
  infallible_bind hx fun a => infallible_ok (f a)

/-- An infallible call returns exactly when it returns a value. -/
theorem Infallible.returns_iff {x : Outcome α} (hx : Infallible x) :
    Returns x ↔ ∃ a, x = .ok a := by
  cases x with
  | error e =>
      cases e with
      | error message => exact absurd rfl (hx message)
      | panicked reason =>
          refine ⟨fun h => absurd rfl (h reason), ?_⟩
          rintro ⟨a, h⟩
          cases h
  | ok a => exact ⟨fun _ => ⟨a, rfl⟩, fun _ => returns_ok a⟩

theorem map_eq_ok {x : Outcome α} {f : α → β} {b : β} :
    f <$> x = .ok b ↔ ∃ a, x = .ok a ∧ f a = b := by
  cases x with
  | error e =>
      constructor
      · intro h
        cases h
      · rintro ⟨a, h, -⟩
        cases h
  | ok a =>
      change Except.ok (f a) = .ok b ↔ _
      simp

/-! ## Byte slices -/

/-- `&buf[start..stop]`. -/
def slice (buf : List UInt8) (start stop : ℕ) : Outcome (List UInt8) :=
  if start ≤ stop ∧ stop ≤ buf.length then .ok ((buf.take stop).drop start)
  else abort .sliceIndex

/-- `out[start..start + src.len()].copy_from_slice(src)`. -/
def copyAt (out : List UInt8) (start : ℕ) (src : List UInt8) : Outcome (List UInt8) :=
  if start + src.length ≤ out.length then
    .ok (out.take start ++ src ++ out.drop (start + src.length))
  else abort .sliceIndex

theorem slice_of_le (buf : List UInt8) (start stop : ℕ) (h : start ≤ stop)
    (h' : stop ≤ buf.length) : slice buf start stop = .ok ((buf.take stop).drop start) := by
  simp [slice, h, h']

/-- The middle of a concatenation is cut out by the lengths of its first two parts. -/
theorem slice_append {buf front middle rest : List UInt8} (start stop : ℕ)
    (hbuf : buf = front ++ (middle ++ rest)) (hstart : start = front.length)
    (hstop : stop = front.length + middle.length) :
    slice buf start stop = .ok middle := by
  subst hbuf hstart hstop
  rw [slice_of_le _ _ _ (by omega) (by simp)]
  simp [List.take_append]

theorem slice_eq_ok {buf middle : List UInt8} {start stop : ℕ} :
    slice buf start stop = .ok middle ↔
      start ≤ stop ∧ stop ≤ buf.length ∧ middle = (buf.take stop).drop start := by
  rw [slice]
  split
  · rename_i h
    simp [h.1, h.2, eq_comm]
  · rename_i h
    constructor
    · intro h'
      cases h'
    · rintro ⟨hle, hlen, -⟩
      exact absurd ⟨hle, hlen⟩ h

theorem infallible_slice (buf : List UInt8) (start stop : ℕ) :
    Infallible (slice buf start stop) := by
  rw [slice]
  split
  · exact infallible_ok _
  · exact infallible_abort _

theorem length_of_slice {buf middle : List UInt8} {start stop : ℕ}
    (h : slice buf start stop = .ok middle) : middle.length = stop - start := by
  obtain ⟨hle, hlen, rfl⟩ := slice_eq_ok.mp h
  simp only [List.length_drop, List.length_take]
  omega

/-- A slice continues the input where the bytes before it end. -/
theorem take_of_slice {buf middle : List UInt8} {start stop : ℕ}
    (h : slice buf start stop = .ok middle) : buf.take stop = buf.take start ++ middle := by
  obtain ⟨hle, hlen, rfl⟩ := slice_eq_ok.mp h
  have htake : buf.take start = (buf.take stop).take start := by
    rw [List.take_take, Nat.min_eq_left hle]
  rw [htake, List.take_append_drop]

theorem copyAt_zero {out src : List UInt8} (hsrc : src.length ≤ out.length) :
    copyAt out 0 src = .ok (src ++ out.drop src.length) := by
  simp [copyAt, hsrc]

theorem copyAt_append {front out src : List UInt8} {start : ℕ} (hstart : start = front.length)
    (hsrc : src.length ≤ out.length) :
    copyAt (front ++ out) start src = .ok (front ++ src ++ out.drop src.length) := by
  subst hstart
  have hle : front.length + src.length ≤ (front ++ out).length := by
    simp only [List.length_append]
    omega
  rw [copyAt, if_pos hle]
  simp [List.drop_append]

/-! ## UTF-8 text -/

/-- The bytes of a `&str`. -/
def utf8Bytes (s : String) : List UInt8 :=
  s.toByteArray.data.toList

/-- `std::str::from_utf8`. -/
def fromUtf8 (bytes : List UInt8) : Option String :=
  String.fromUTF8? ⟨bytes.toArray⟩

@[simp] theorem fromUtf8_utf8Bytes (s : String) : fromUtf8 (utf8Bytes s) = some s := by
  have hdata : (⟨(utf8Bytes s).toArray⟩ : ByteArray) = s.toByteArray := rfl
  simp [fromUtf8, hdata, String.fromUTF8?, s.isValidUTF8, String.fromUTF8]

/-- Only the bytes of a string decode to it. -/
theorem fromUtf8_eq_some {bytes : List UInt8} {s : String} :
    fromUtf8 bytes = some s ↔ bytes = utf8Bytes s := by
  constructor
  · intro h
    simp only [fromUtf8, String.fromUTF8?] at h
    split at h
    · obtain rfl := Option.some.inj h
      rfl
    · cases h
  · rintro rfl
    exact fromUtf8_utf8Bytes s

theorem utf8Bytes_append (s t : String) : utf8Bytes (s ++ t) = utf8Bytes s ++ utf8Bytes t := by
  simp [utf8Bytes]

end SnapcastClient
