import Mathlib.Data.List.Infix

/-! # The streak at the end of a log

The longest end of a list whose entries all satisfy a predicate, and where it began. -/

namespace Streak

variable {α : Type*} {P : α → Prop} {l : List α} {a b : α}

/-- The entries from `a` to the end satisfy the predicate, and the one before `a` does not. -/
def Since (P : α → Prop) (l : List α) (a : α) : Prop :=
  ∃ front rest, l = front ++ a :: rest ∧ (∀ b ∈ a :: rest, P b) ∧ ∀ b ∈ front.getLast?, ¬ P b

theorem not_since_nil : ¬ Since P [] a := by
  rintro ⟨front, rest, h, -, -⟩
  simp at h

/-- An entry that does not satisfy the predicate ends the streak. -/
theorem not_since_concat (hb : ¬ P b) : ¬ Since P (l ++ [b]) a := by
  rintro ⟨front, rest, h, hall, -⟩
  have hlast : (l ++ [b]).getLast? = (front ++ a :: rest).getLast? := by rw [h]
  rw [List.getLast?_concat, List.getLast?_append_cons] at hlast
  exact hb (hall b (List.mem_of_getLast? hlast.symm))

/-- An entry that does prolongs the streak, or begins one. -/
theorem since_concat_iff (hb : P b) :
    Since P (l ++ [b]) a ↔ Since P l a ∨ a = b ∧ ∀ c ∈ l.getLast?, ¬ P c := by
  constructor
  · rintro ⟨front, rest, h, hall, hfront⟩
    rcases List.eq_nil_or_concat rest with rfl | ⟨rest, c, rfl⟩
    · obtain ⟨rfl, hab⟩ := List.append_inj' h rfl
      exact .inr ⟨(List.singleton_inj.mp hab).symm, hfront⟩
    · rw [List.concat_eq_append, ← List.cons_append, ← List.append_assoc] at h
      obtain ⟨rfl, -⟩ := List.append_inj' h rfl
      refine .inl ⟨front, rest, rfl, fun d hd => hall d ?_, hfront⟩
      rw [List.concat_eq_append, ← List.cons_append]
      exact List.mem_append_left _ hd
  · rintro (⟨front, rest, rfl, hall, hfront⟩ | ⟨rfl, hlast⟩)
    · refine ⟨front, rest ++ [b], by simp, ?_, hfront⟩
      intro c hc
      rw [← List.cons_append, List.mem_append, List.mem_singleton] at hc
      rcases hc with hc | rfl
      · exact hall c hc
      · exact hb
    · exact ⟨l, [], rfl, by simpa using hb, hlast⟩

/-- A streak runs exactly when the last entry satisfies the predicate. -/
theorem exists_since_iff : (∃ a, Since P l a) ↔ ∃ b ∈ l.getLast?, P b := by
  induction l using List.reverseRecOn with
  | nil => simp [not_since_nil]
  | append_singleton l b ih =>
      rw [List.getLast?_concat]
      by_cases hb : P b
      · simp only [since_concat_iff hb, Option.mem_def, Option.some.injEq, exists_eq_left', hb,
          iff_true]
        by_cases hlast : ∃ c ∈ l.getLast?, P c
        · obtain ⟨a, ha⟩ := ih.mpr hlast
          exact ⟨a, .inl ha⟩
        · exact ⟨b, .inr ⟨rfl, fun c hc hP => hlast ⟨c, hc, hP⟩⟩⟩
      · simp [not_since_concat hb, hb]

/-- Entries that all satisfy the predicate up to the end belong to the streak. -/
theorem Since.mem (h : Since P l a) {before rest : List α} (hl : l = before ++ b :: rest)
    (hall : ∀ c ∈ b :: rest, P c) : ∃ front tail, l = front ++ a :: tail ∧ b ∈ a :: tail := by
  obtain ⟨front, tail, rfl, -, hfront⟩ := h
  refine ⟨front, tail, rfl, ?_⟩
  rcases List.append_eq_append_iff.mp hl with ⟨mid, rfl, htail⟩ | ⟨mid, rfl, hrest⟩
  · rw [htail]
    exact List.mem_append_right _ (List.mem_cons_self ..)
  · -- otherwise the entry before the streak satisfies it as well
    rcases List.eq_nil_or_concat mid with rfl | ⟨mid, c, rfl⟩
    · rw [List.nil_append] at hrest
      rw [← hrest]
      exact List.mem_cons_self ..
    · rw [List.concat_eq_append] at hfront hrest
      have hc : P c := hall c (by rw [hrest]; simp)
      exact absurd hc (hfront c (by simp))

/-- In a log sorted by a relation the streak begins before each of these entries. -/
theorem Since.rel {R : α → α → Prop} (h : Since P l a) (hsorted : l.Pairwise R) (hrefl : R a a)
    {before rest : List α} (hl : l = before ++ b :: rest) (hall : ∀ c ∈ b :: rest, P c) :
    R a b := by
  obtain ⟨front, tail, hfront, hb⟩ := h.mem hl hall
  rw [hfront, List.pairwise_append, List.pairwise_cons] at hsorted
  rcases List.mem_cons.mp hb with rfl | hb
  · exact hrefl
  · exact hsorted.2.1.1 b hb

end Streak
