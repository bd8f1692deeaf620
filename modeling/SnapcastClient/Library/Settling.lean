import Mathlib.Algebra.BigOperators.Group.Finset.Basic
import SnapcastClient.Library.Transition

/-! # Settling

A system that is left alone comes to rest when a measure falls with each of the steps it takes
by itself. -/

namespace TransitionSystem

variable {σ α : Type*}

/-- The steps with the given labels lead from one state to the other. -/
inductive Path (S : TransitionSystem σ α) : σ → List α → σ → Prop where
  | nil {s : σ} : Path S s [] s
  | cons {s s₁ s' : σ} {a : α} {as : List α} :
      S.Step s a s₁ → Path S s₁ as s' → Path S s (a :: as) s'

/-- No step with a label of the kind is possible. -/
def Settled (S : TransitionSystem σ α) (own : α → Prop) (s : σ) : Prop :=
  ∀ a s', own a → ¬ S.Step s a s'

/-- Steps of the kind keep the invariant and lower the measure. -/
structure Drains (S : TransitionSystem σ α) (own : α → Prop) (I : σ → Prop) (work : σ → ℕ) :
    Prop where
  keeps : ∀ s a s', I s → own a → S.Step s a s' → I s'
  lowers : ∀ s a s', I s → own a → S.Step s a s' → work s' < work s

variable {S : TransitionSystem σ α} {own own' : α → Prop} {I : σ → Prop} {work : σ → ℕ}
  {ok : σ → α → Prop} {s s' : σ} {as : List α}

/-- What a step can raise by one is bounded by the number of steps. -/
theorem Path.counted (hpath : S.Path s as s') {P : ℕ → σ → Prop}
    (hP : ∀ n s a s', P n s → S.Step s a s' → P (n + 1) s') {n : ℕ} (h : P n s) :
    P (n + as.length) s' := by
  induction hpath generalizing n with
  | nil => exact h
  | cons hstep _ ih =>
      rw [List.length_cons, ← Nat.succ_add_eq_add_succ]
      exact ih (hP _ _ _ _ h hstep)

theorem Drains.mono (hd : S.Drains own I work) (hown : ∀ a, own' a → own a) :
    S.Drains own' I work :=
  ⟨fun s a s' hI ha => hd.keeps s a s' hI (hown a ha),
    fun s a s' hI ha => hd.lowers s a s' hI (hown a ha)⟩

theorem Path.invariant (hd : S.Drains own I work) (hI : I s) (hpath : S.Path s as s')
    (hown : ∀ a ∈ as, own a) : I s' := by
  induction hpath with
  | nil => exact hI
  | cons hstep _ ih =>
      obtain ⟨ha, hown⟩ := List.forall_mem_cons.mp hown
      exact ih (hd.keeps _ _ _ hI ha hstep) hown

/-- The measure bounds the steps that are left. -/
theorem Path.length_le (hd : S.Drains own I work) (hI : I s) (hpath : S.Path s as s')
    (hown : ∀ a ∈ as, own a) : as.length + work s' ≤ work s := by
  induction hpath with
  | nil => exact (Nat.zero_add _).le
  | cons hstep _ ih =>
      obtain ⟨ha, hown⟩ := List.forall_mem_cons.mp hown
      have hlower := hd.lowers _ _ _ hI ha hstep
      have hrest := ih (hd.keeps _ _ _ hI ha hstep) hown
      rw [List.length_cons]
      omega

end TransitionSystem
