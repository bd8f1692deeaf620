import SnapcastClient.Model.Outcome
import Mathlib.Data.Prod.Lex
import Mathlib.Tactic.Linarith

/-! # `TimeVal`

Seconds and microseconds as two `i32` fields, compared field by field. -/

namespace SnapcastClient

/-- An `i32` result of checked arithmetic. -/
def i32 (z : ℤ) : Outcome Int32 :=
  if -2147483648 ≤ z ∧ z ≤ 2147483647 then .ok (Int32.ofInt z) else abort .overflow

theorem i32_eq_ok {z : ℤ} {x : Int32} : i32 z = .ok x ↔ x.toInt = z := by
  have hlo := x.le_toInt
  have hhi := x.toInt_lt
  by_cases h : -2147483648 ≤ z ∧ z ≤ 2147483647
  · rw [i32, if_pos h, Except.ok.injEq, ← Int32.toInt_inj,
      Int32.toInt_ofInt_of_le (by omega) (by omega), eq_comm]
  · rw [i32, if_neg h]
    constructor
    · intro hx
      cases hx
    · intro hx
      omega

theorem i32_of_mem {z : ℤ} (hlo : -2147483648 ≤ z) (hhi : z ≤ 2147483647) :
    ∃ x, i32 z = .ok x ∧ x.toInt = z := by
  refine ⟨Int32.ofInt z, by simp [i32, hlo, hhi], ?_⟩
  exact Int32.toInt_ofInt_of_le (by omega) (by omega)

@[ext] structure TimeVal where
  sec : Int32
  usec : Int32
  deriving DecidableEq, Repr

namespace TimeVal

def zero : TimeVal := ⟨0, 0⟩

/-- The quotient and remainder truncate towards zero, and each is cast with `as i32`. -/
def fromMicros (us : ℤ) : TimeVal :=
  ⟨Int32.ofInt (us.tdiv 1000000), Int32.ofInt (us.tmod 1000000)⟩

def toMicros (t : TimeVal) : ℤ :=
  t.sec.toInt * 1000000 + t.usec.toInt

/-- The first loop of `normalize`; its subtraction cannot overflow. -/
def carry (t : TimeVal) : Outcome TimeVal :=
  if h : 1000000 < t.usec.toInt then
    i32 (t.sec.toInt + 1) >>= fun sec => carry ⟨sec, Int32.ofInt (t.usec.toInt - 1000000)⟩
  else .ok t
termination_by t.usec.toInt.toNat
decreasing_by
  have := t.usec.toInt_lt
  rw [Int32.toInt_ofInt_of_le (by omega) (by omega)]
  omega

/-- The second loop of `normalize`; its addition cannot overflow. -/
def borrow (t : TimeVal) : Outcome TimeVal :=
  if h : t.usec.toInt < 0 then
    i32 (t.sec.toInt - 1) >>= fun sec => borrow ⟨sec, Int32.ofInt (t.usec.toInt + 1000000)⟩
  else .ok t
termination_by (-t.usec.toInt).toNat
decreasing_by
  have := t.usec.le_toInt
  rw [Int32.toInt_ofInt_of_le (by omega) (by omega)]
  omega

def normalize (t : TimeVal) : Outcome TimeVal :=
  carry t >>= borrow

def fromMillis (millis : Int32) : Outcome TimeVal := do
  let usec ← i32 (millis.toInt * 1000)
  normalize ⟨0, usec⟩

def add (x y : TimeVal) : Outcome TimeVal := do
  let sec ← i32 (x.sec.toInt + y.sec.toInt)
  let usec ← i32 (x.usec.toInt + y.usec.toInt)
  normalize ⟨sec, usec⟩

def sub (x y : TimeVal) : Outcome TimeVal := do
  let sec ← i32 (x.sec.toInt - y.sec.toInt)
  let usec ← i32 (x.usec.toInt - y.usec.toInt)
  normalize ⟨sec, usec⟩

/-- The derived `Ord`: seconds first, then microseconds. -/
instance : LinearOrder TimeVal :=
  LinearOrder.lift' (fun t => toLex (t.sec.toInt, t.usec.toInt)) (by
    intro x y h
    obtain ⟨hsec, husec⟩ := Prod.mk.inj (toLex.injective h)
    exact TimeVal.ext (Int32.toInt_inj.mp hsec) (Int32.toInt_inj.mp husec))

theorem le_iff (x y : TimeVal) :
    x ≤ y ↔ x.sec.toInt < y.sec.toInt ∨
      x.sec.toInt = y.sec.toInt ∧ x.usec.toInt ≤ y.usec.toInt :=
  Prod.Lex.le_iff

end TimeVal

end SnapcastClient
