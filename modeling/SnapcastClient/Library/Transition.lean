import Mathlib.Order.Basic

/-! # Labelled transition systems

The states a system reaches, possibly only by steps that meet a condition on the state
before the step and its label. -/

/-- Initial states and labelled steps. -/
structure TransitionSystem (σ α : Type*) where
  Init : σ → Prop
  Step : σ → α → σ → Prop

namespace TransitionSystem

variable {σ α : Type*}

/-- The states of the runs whose steps all meet `ok`. -/
inductive Reach (S : TransitionSystem σ α) (ok : σ → α → Prop) : σ → Prop where
  | init {s : σ} : S.Init s → Reach S ok s
  | step {s : σ} {a : α} {s' : σ} : Reach S ok s → ok s a → S.Step s a s' → Reach S ok s'

/-- The states of all runs. -/
abbrev Reachable (S : TransitionSystem σ α) : σ → Prop :=
  S.Reach fun _ _ => True

variable {S : TransitionSystem σ α} {ok ok' : σ → α → Prop} {s : σ}

theorem Reach.mono (h : S.Reach ok s) (hok : ∀ s a, ok s a → ok' s a) : S.Reach ok' s := by
  induction h with
  | init hinit => exact .init hinit
  | step _ ha hstep ih => exact .step ih (hok _ _ ha) hstep

theorem Reach.reachable (h : S.Reach ok s) : S.Reachable s :=
  h.mono fun _ _ _ => trivial

/-- What holds initially and is kept by every step that meets the condition holds of every
state reached. -/
theorem Reach.invariant {I : σ → Prop} (h : S.Reach ok s) (hinit : ∀ s, S.Init s → I s)
    (hstep : ∀ s a s', I s → ok s a → S.Step s a s' → I s') : I s := by
  induction h with
  | init h => exact hinit _ h
  | step _ ha hs ih => exact hstep _ _ _ ih ha hs

/-- The step case may use an invariant established before. -/
theorem Reach.invariant_of {I J : σ → Prop} (h : S.Reach ok s) (hI : ∀ s, S.Reach ok s → I s)
    (hinit : ∀ s, S.Init s → J s)
    (hstep : ∀ s a s', I s → J s → ok s a → S.Step s a s' → J s') : J s := by
  induction h with
  | init h => exact hinit _ h
  | step hreach ha hs ih => exact hstep _ _ _ (hI _ hreach) ih ha hs

/-- A system whose steps are matched by a step of another that meets `okT`, or by none, reaches no
state without a related state that the other reaches. -/
theorem Reach.exists_related {τ β : Type*} {T : TransitionSystem τ β} {okT : τ → β → Prop}
    {R : σ → τ → Prop} (h : S.Reach ok s) (hinit : ∀ s, S.Init s → ∃ t, T.Init t ∧ R s t)
    (hstep : ∀ s a s' t, R s t → ok s a → S.Step s a s' →
      R s' t ∨ ∃ b t', okT t b ∧ T.Step t b t' ∧ R s' t') : ∃ t, T.Reach okT t ∧ R s t := by
  induction h with
  | init h =>
      obtain ⟨t, ht, hR⟩ := hinit _ h
      exact ⟨t, .init ht, hR⟩
  | step _ ha hs ih =>
      obtain ⟨t, ht, hR⟩ := ih
      rcases hstep _ _ _ t hR ha hs with hR | ⟨b, t', hok, hb, hR⟩
      · exact ⟨t, ht, hR⟩
      · exact ⟨t', .step ht hok hb, hR⟩

/-! ## Histories -/

/-- A state with what is remembered of the run that led to it. -/
structure WithHistory (σ η : Type*) where
  state : σ
  history : η

/-- The same runs, with a history that every step extends by what it does. -/
def withHistory {η : Type*} (S : TransitionSystem σ α) (empty : η) (extend : σ → η → α → η) :
    TransitionSystem (WithHistory σ η) α where
  Init p := S.Init p.state ∧ p.history = empty
  Step p a p' := S.Step p.state a p'.state ∧ p'.history = extend p.state p.history a

/-- A history does not restrict the runs. -/
theorem Reach.forget {η : Type*} {empty : η} {extend : σ → η → α → η}
    {okh : WithHistory σ η → α → Prop} {p : WithHistory σ η}
    (h : (S.withHistory empty extend).Reach okh p) : S.Reachable p.state := by
  induction h with
  | init hinit => exact .init hinit.1
  | step _ _ hstep ih => exact .step ih trivial hstep.1

/-! ## Executable systems -/

/-- The system of a step function. -/
def ofStep (init : σ) (step : σ → α → Option σ) : TransitionSystem σ α where
  Init s := s = init
  Step s a s' := step s a = some s'

/-- Execute labels one after the other as long as each meets the condition. -/
def run (step : σ → α → Option σ) (ok : σ → α → Bool) : List α → σ → Option σ
  | [], s => some s
  | a :: as, s => if ok s a then step s a >>= run step ok as else none

/-- An executed run is a run. -/
theorem Reach.run {S : TransitionSystem σ α} {s s' : σ} {step : σ → α → Option σ}
    {ok : σ → α → Bool} {as : List α} (hs : S.Reach (fun s a => ok s a = true) s)
    (hS : ∀ s a s', step s a = some s' → S.Step s a s') (h : run step ok as s = some s') :
    S.Reach (fun s a => ok s a = true) s' := by
  induction as generalizing s with
  | nil =>
      obtain rfl := Option.some.inj h
      exact hs
  | cons a as ih =>
      rw [TransitionSystem.run] at h
      split at h
      · rename_i hok
        obtain ⟨s₁, hstep, h⟩ := Option.bind_eq_some_iff.mp h
        exact ih (.step hs hok (hS s a s₁ hstep)) h
      · cases h

theorem reach_of_run {init s' : σ} {step : σ → α → Option σ} {ok : σ → α → Bool} {as : List α}
    (hs : (ofStep init step).Reach (fun s a => ok s a = true) s) (h : run step ok as s = some s') :
    (ofStep init step).Reach (fun s a => ok s a = true) s' :=
  hs.run (fun _ _ _ hstep => hstep) h

/-- A step function that keeps a history. -/
def stepWithHistory {η : Type*} (step : σ → α → Option σ) (extend : σ → η → α → η)
    (p : WithHistory σ η) (a : α) : Option (WithHistory σ η) :=
  (step p.state a).map fun s => ⟨s, extend p.state p.history a⟩

theorem withHistory_ofStep {η : Type*} (init : σ) (step : σ → α → Option σ) (empty : η)
    (extend : σ → η → α → η) :
    (ofStep init step).withHistory empty extend =
      ofStep ⟨init, empty⟩ (stepWithHistory step extend) := by
  rw [withHistory, ofStep, ofStep]
  congr
  · funext p
    refine propext ⟨?_, ?_⟩
    · rintro ⟨hstate, hhistory⟩
      cases p
      cases hstate
      cases hhistory
      rfl
    · rintro rfl
      exact ⟨rfl, rfl⟩
  · funext p a p'
    refine propext ?_
    rw [stepWithHistory, Option.map_eq_some_iff]
    constructor
    · rintro ⟨hstep, hhistory⟩
      exact ⟨p'.state, hstep, by rw [← hhistory]⟩
    · rintro ⟨s, hstep, rfl⟩
      exact ⟨hstep, rfl⟩

/-- A run of steps that leave no trace in the history. -/
theorem reach_of_silent_run {η : Type*} {init s' : σ} {step : σ → α → Option σ} {empty : η}
    {extend : σ → η → α → η} {okh : WithHistory σ η → α → Prop} {as : List α}
    {p : WithHistory σ η} (ok : σ → α → Bool)
    (hp : ((ofStep init step).withHistory empty extend).Reach okh p)
    (hok : ∀ p a, ok p.state a = true → okh p a ∧ extend p.state p.history a = p.history)
    (h : run step ok as p.state = some s') :
    ((ofStep init step).withHistory empty extend).Reach okh ⟨s', p.history⟩ := by
  induction as generalizing p with
  | nil =>
      obtain rfl := Option.some.inj h
      exact hp
  | cons a as ih =>
      rw [run] at h
      split at h
      · rename_i ha
        obtain ⟨s₁, hstep, h⟩ := Option.bind_eq_some_iff.mp h
        obtain ⟨hokh, hextend⟩ := hok p a ha
        exact ih (p := ⟨s₁, p.history⟩) (.step hp hokh ⟨hstep, hextend.symm⟩) h
      · cases h

end TransitionSystem
