import Mathlib.Data.Nat.Notation

/-! # Loops that may fail

A loop runs its body while its guard holds, and ends early with the body's error. A size that
every successful pass lowers makes it end, and bounds its passes. -/

universe u v

structure FallibleLoop (σ : Type u) (ε : Type v) where
  guard : σ → Bool
  body : σ → Except ε Unit × σ
  size : σ → ℕ
  decreasing : ∀ {s s' : σ}, body s = (.ok (), s') → size s' < size s

namespace FallibleLoop

variable {σ : Type u} {ε : Type v} (L : FallibleLoop σ ε) {s s' : σ} {e : ε}

/-- At most `n` passes. -/
def passes : ℕ → σ → Except ε Unit × σ
  | 0, s => (.ok (), s)
  | n + 1, s =>
      if L.guard s then
        match L.body s with
        | (.ok (), s') => passes n s'
        | (.error e, s') => (.error e, s')
      else (.ok (), s)

/-- The result of the loop and the state it leaves. -/
def run (s : σ) : Except ε Unit × σ :=
  L.passes (L.size s + 1) s

variable {L}

/-- More passes than the size of the state make no difference. -/
theorem passes_eq {n k : ℕ} (hn : L.size s < n) (hk : L.size s < k) :
    L.passes n s = L.passes k s := by
  induction n generalizing k s with
  | zero => omega
  | succ n ih =>
      cases k with
      | zero => omega
      | succ k =>
          rw [passes, passes]
          split
          · split
            · rename_i s' hbody
              have hsize := L.decreasing hbody
              exact ih (by omega) (by omega)
            · rfl
          · rfl

theorem run_of_not (h : L.guard s = false) : L.run s = (.ok (), s) := by
  rw [run, passes, h]
  rfl

theorem run_of_ok (h : L.guard s = true) (hbody : L.body s = (.ok (), s')) :
    L.run s = L.run s' := by
  have hsize := L.decreasing hbody
  rw [run, passes, if_pos h, hbody]
  exact passes_eq hsize (Nat.lt_succ_self _)

theorem run_of_error (h : L.guard s = true) (hbody : L.body s = (.error e, s')) :
    L.run s = (.error e, s') := by
  rw [run, passes, if_pos h, hbody]

/-- What holds when the loop is left, and of a pass followed by the rest, holds of the loop. -/
theorem run_rule {P : σ → Except ε Unit → σ → Prop}
    (hleave : ∀ s, L.guard s = false → P s (.ok ()) s)
    (hpass : ∀ s s' r t, L.guard s = true → L.body s = (.ok (), s') → P s' r t → P s r t)
    (hfail : ∀ s s' e, L.guard s = true → L.body s = (.error e, s') → P s (.error e) s') (s : σ) :
    P s (L.run s).1 (L.run s).2 := by
  generalize hn : L.size s = n
  induction n using Nat.strongRecOn generalizing s with
  | ind n ih =>
      cases hguard : L.guard s with
      | false =>
          rw [run_of_not hguard]
          exact hleave s hguard
      | true =>
          rcases hbody : L.body s with ⟨e | ⟨⟩, s'⟩
          · rw [run_of_error hguard hbody]
            exact hfail s s' e hguard hbody
          · have hsize := L.decreasing hbody
            rw [run_of_ok hguard hbody]
            exact hpass s s' _ _ hguard hbody (ih _ (hn ▸ hsize) s' rfl)

/-- A loop whose passes keep an invariant and succeed under it succeeds. -/
theorem run_ok {I : σ → Prop}
    (hok : ∀ s, I s → L.guard s = true → (L.body s).1 = .ok ())
    (hinv : ∀ s, I s → L.guard s = true → I (L.body s).2) (hs : I s) : (L.run s).1 = .ok () := by
  revert hs
  refine run_rule (L := L) (P := fun s r _ => I s → r = .ok ()) ?_ ?_ ?_ s
  · exact fun _ _ _ => rfl
  · intro s s' r t hguard hbody ih hs
    have hs' := hinv s hs hguard
    rw [hbody] at hs'
    exact ih hs'
  · intro s s' e hguard hbody hs
    have hsucceeds := hok s hs hguard
    rw [hbody] at hsucceeds
    cases hsucceeds

/-- What no pass changes, the loop does not change. -/
theorem run_frame {β : Type*} (f : σ → β) (hbody : ∀ s, f (L.body s).2 = f s) (s : σ) :
    f (L.run s).2 = f s := by
  refine run_rule (L := L) (P := fun s _ t => f t = f s) ?_ ?_ ?_ s
  · exact fun _ _ => rfl
  · intro s s' r t _ hpass ih
    have hframe := hbody s
    rw [hpass] at hframe
    exact ih.trans hframe
  · intro s s' e _ hfail
    have hframe := hbody s
    rwa [hfail] at hframe

/-- A loop that succeeds leaves its guard false. -/
theorem guard_of_run_ok (h : (L.run s).1 = .ok ()) : L.guard (L.run s).2 = false := by
  refine run_rule (L := L) (P := fun _ r t => r = .ok () → L.guard t = false) ?_ ?_ ?_ s h
  · exact fun s hguard _ => hguard
  · exact fun _ _ _ _ _ _ ih => ih
  · rintro _ _ _ _ _ ⟨⟩

end FallibleLoop
