import Mathlib.Data.List.Basic
import Mathlib.Tactic.Ring

/-! # Fixed-width numbers in bytes

A number below `256 ^ w` and a byte string of length `w` determine each other, in either
byte order. -/

namespace LittleEndian

/-- The low `w` bytes of a number, least significant byte first. -/
def toBytes : ℕ → ℕ → List UInt8
  | 0, _ => []
  | w + 1, n => UInt8.ofNat n :: toBytes w (n / 256)

/-- The number spelled by a byte string, least significant byte first. -/
def ofBytes (bytes : List UInt8) : ℕ :=
  bytes.foldr (fun b n => b.toNat + 256 * n) 0

@[simp] theorem ofBytes_nil : ofBytes [] = 0 := rfl

@[simp] theorem ofBytes_cons (b : UInt8) (bytes : List UInt8) :
    ofBytes (b :: bytes) = b.toNat + 256 * ofBytes bytes := rfl

@[simp] theorem toBytes_length (w n : ℕ) : (toBytes w n).length = w := by
  induction w generalizing n with
  | zero => rfl
  | succ w ih => simp [toBytes, ih]

/-- Reading back what was written loses exactly the bytes beyond the width. -/
theorem ofBytes_toBytes (w n : ℕ) : ofBytes (toBytes w n) = n % 256 ^ w := by
  induction w generalizing n with
  | zero => simp [toBytes, Nat.mod_one]
  | succ w ih =>
      have hbyte : (UInt8.ofNat n).toNat = n % 256 := by simp
      rw [toBytes, ofBytes_cons, ih, hbyte, pow_succ', Nat.mod_mul]

theorem ofBytes_toBytes_of_lt {w n : ℕ} (h : n < 256 ^ w) : ofBytes (toBytes w n) = n := by
  rw [ofBytes_toBytes, Nat.mod_eq_of_lt h]

theorem ofBytes_lt (bytes : List UInt8) : ofBytes bytes < 256 ^ bytes.length := by
  induction bytes with
  | nil => simp
  | cons b bytes ih =>
      have hb : b.toNat < 256 := b.toNat_lt
      rw [ofBytes_cons, List.length_cons, pow_succ]
      omega

/-- Writing back what was read reproduces the bytes. -/
theorem toBytes_ofBytes (bytes : List UInt8) :
    toBytes bytes.length (ofBytes bytes) = bytes := by
  induction bytes with
  | nil => rfl
  | cons b bytes ih =>
      have hb : b.toNat < 256 := b.toNat_lt
      have hdiv : (b.toNat + 256 * ofBytes bytes) / 256 = ofBytes bytes := by omega
      have hlow : UInt8.ofNat (b.toNat + 256 * ofBytes bytes) = b := by
        apply UInt8.toNat_inj.mp
        simp
      rw [ofBytes_cons, List.length_cons, toBytes, hdiv, ih, hlow]

/-- The low bytes come first, then the rest of the number. -/
theorem toBytes_add (v w n : ℕ) :
    toBytes (v + w) n = toBytes v n ++ toBytes w (n / 256 ^ v) := by
  induction v generalizing n with
  | zero => simp [toBytes]
  | succ v ih =>
      have hdiv : n / 256 / 256 ^ v = n / 256 ^ (v + 1) := by
        rw [Nat.div_div_eq_div_mul, pow_succ']
      rw [Nat.succ_add, toBytes, ih, hdiv, toBytes, List.cons_append]

end LittleEndian

namespace BigEndian

/-- The low `w` bytes of a number, most significant byte first. -/
def toBytes (w n : ℕ) : List UInt8 :=
  (LittleEndian.toBytes w n).reverse

@[simp] theorem toBytes_length (w n : ℕ) : (toBytes w n).length = w := by
  simp [toBytes]

/-- The rest of the number comes first, then its low bytes. -/
theorem toBytes_add (v w n : ℕ) :
    toBytes (w + v) n = toBytes w (n / 256 ^ v) ++ toBytes v n := by
  rw [Nat.add_comm, toBytes, LittleEndian.toBytes_add, List.reverse_append, toBytes, toBytes]

/-- The number spelled by a byte string, most significant byte first. -/
def ofBytes (bytes : List UInt8) : ℕ :=
  LittleEndian.ofBytes bytes.reverse

theorem ofBytes_toBytes_of_lt {w n : ℕ} (h : n < 256 ^ w) : ofBytes (toBytes w n) = n := by
  rw [ofBytes, toBytes, List.reverse_reverse, LittleEndian.ofBytes_toBytes_of_lt h]

end BigEndian
