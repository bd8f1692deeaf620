import Mathlib.Data.List.Basic
import Mathlib.Data.List.Count
import Mathlib.Order.Lattice

/-! # Ranks in a sorted list

An entry of a sorted list is bounded by a value as soon as enough entries are. -/

namespace OrderStatistic

variable {α : Type*} [LinearOrder α] {l : List α} {i : ℕ} {lo hi : α}

/-- What holds of all smaller values too holds at rank `i` when more than `i` entries have it. -/
theorem getElem_iff_lt_countP {p : α → Prop} [DecidablePred p]
    (hp : ∀ x y, x ≤ y → p y → p x) (hsorted : l.Pairwise (· ≤ ·)) (hi : i < l.length) :
    p l[i] ↔ i < l.countP p := by
  induction l generalizing i with
  | nil => cases hi
  | cons a l ih =>
      obtain ⟨ha, hsorted⟩ := List.pairwise_cons.mp hsorted
      by_cases hpa : p a
      · cases i with
        | zero => simp [hpa]
        | succ i => simp [hpa, ih hsorted (Nat.lt_of_succ_lt_succ hi)]
      · have hnone : ∀ x ∈ l, ¬ p x := fun x hx hpx => hpa (hp a x (ha x hx) hpx)
        have hzero : l.countP p = 0 := List.countP_eq_zero.mpr (by simpa using hnone)
        cases i with
        | zero => simp [hpa, hzero]
        | succ i => simp [hpa, hzero, hnone]

theorem getElem_le_iff (hsorted : l.Pairwise (· ≤ ·)) (hi' : i < l.length) :
    l[i] ≤ hi ↔ i < l.countP (· ≤ hi) :=
  getElem_iff_lt_countP (p := (· ≤ hi)) (fun _ _ hxy hy => hxy.trans hy) hsorted hi'

theorem getElem_lt_iff (hsorted : l.Pairwise (· ≤ ·)) (hi' : i < l.length) :
    l[i] < hi ↔ i < l.countP (· < hi) :=
  getElem_iff_lt_countP (p := (· < hi)) (fun _ _ hxy hy => hxy.trans_lt hy) hsorted hi'

/-- Every entry is either below a value or at least that value. -/
theorem length_eq_countP_lt_add (l : List α) (x : α) :
    l.length = l.countP (· < x) + l.countP (x ≤ ·) := by
  rw [List.length_eq_countP_add_countP (· < x)]
  simp

/-- A rank that neither side of an interval can fill lies in the interval. -/
theorem getElem_mem_Icc (hsorted : l.Pairwise (· ≤ ·)) (hi' : i < l.length)
    (hbelow : i < l.countP fun x => lo ≤ x ∧ x ≤ hi)
    (habove : l.length ≤ i + l.countP fun x => lo ≤ x ∧ x ≤ hi) :
    lo ≤ l[i] ∧ l[i] ≤ hi := by
  have hle : (l.countP fun x => lo ≤ x ∧ x ≤ hi) ≤ l.countP (· ≤ hi) :=
    List.countP_mono_left fun x _ h => by simpa using (of_decide_eq_true h).2
  have hge : (l.countP fun x => lo ≤ x ∧ x ≤ hi) ≤ l.countP (lo ≤ ·) :=
    List.countP_mono_left fun x _ h => by simpa using (of_decide_eq_true h).1
  have hsplit := length_eq_countP_lt_add l lo
  refine ⟨?_, (getElem_le_iff hsorted hi').mpr (by omega)⟩
  rw [← not_lt, getElem_lt_iff hsorted hi']
  omega

/-! ## Sorting extra entries in -/

/-- Every entry is either above a value or at most that value. -/
theorem length_eq_countP_gt_add (l : List α) (x : α) :
    l.length = l.countP (x < ·) + l.countP (· ≤ x) := by
  rw [List.length_eq_countP_add_countP (x < ·)]
  simp

/-- Sorting `extra` in keeps the entry at rank `i`, counted from the other end, exactly when
fewer of the extra entries lie above it than there are entries at most it beyond rank `i`. -/
theorem getElem_add_eq_iff {all extra : List α} (hl : l.Pairwise (· ≤ ·))
    (hall : all.Pairwise (· ≤ ·)) (hperm : all.Perm (l ++ extra)) (hi : i < l.length)
    (hrank : extra.length + i < all.length) :
    all[extra.length + i] = l[i] ↔ i + extra.countP (l[i] < ·) < l.countP (· ≤ l[i]) := by
  have hnot : ¬ all[extra.length + i] < l[i] := by
    have hbelow : ¬ i < l.countP (· < l[i]) := by
      rw [← getElem_lt_iff hl hi]
      exact lt_irrefl _
    have hextra := extra.countP_le_length (p := (· < l[i]))
    rw [getElem_lt_iff hall hrank, hperm.countP_eq, List.countP_append]
    omega
  have hle : all[extra.length + i] = l[i] ↔ all[extra.length + i] ≤ l[i] :=
    ⟨fun h => h.le, fun h => le_antisymm h (not_lt.mp hnot)⟩
  have hextra := length_eq_countP_gt_add extra l[i]
  rw [hle, getElem_le_iff hall hrank, hperm.countP_eq, List.countP_append]
  omega

end OrderStatistic
