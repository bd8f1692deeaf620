import Mathlib.Data.List.Basic

/-! # Runs that are heard

A machine serves entries one after the other. Its replies are heard whether or not it
survives them. -/

/-- The replies heard, and the state left if the machine survived. -/
@[ext] structure Transcript (ρ σ : Type*) where
  replies : List ρ
  left : Option σ

namespace Transcript

variable {ρ σ ε ι : Type*}

/-- Nothing is heard. -/
def silent (s : σ) : Transcript ρ σ := ⟨[], some s⟩

/-- Go on from the state left. -/
def andThen (t : Transcript ρ σ) (next : σ → Transcript ρ σ) : Transcript ρ σ :=
  match t with
  | ⟨replies, none⟩ => ⟨replies, none⟩
  | ⟨replies, some s⟩ => ⟨replies ++ (next s).replies, (next s).left⟩

/-- Hear only some of the replies. -/
def filter (p : ρ → Bool) (t : Transcript ρ σ) : Transcript ρ σ :=
  ⟨t.replies.filter p, t.left⟩

/-- See the state left another way. -/
def map (f : σ → σ) (t : Transcript ρ σ) : Transcript ρ σ :=
  ⟨t.replies, t.left.map f⟩

def run (serve : σ → ε → Transcript ρ σ) (s : σ) : List ε → Transcript ρ σ
  | [] => silent s
  | e :: es => (serve s e).andThen fun s' => run serve s' es

variable {t : Transcript ρ σ} {next next' : σ → Transcript ρ σ} {s s' : σ}
  {serve : σ → ε → Transcript ρ σ} {p : ρ → Bool} {f : σ → σ}

@[simp] theorem silent_andThen : (silent s).andThen next = next s := rfl

@[simp] theorem andThen_silent : t.andThen silent = t := by
  obtain ⟨replies, _ | s⟩ := t
  · rfl
  · simp [andThen, silent]

theorem andThen_assoc : (t.andThen next).andThen next' =
    t.andThen fun s => (next s).andThen next' := by
  obtain ⟨replies, _ | s⟩ := t
  · rfl
  · dsimp only [andThen]
    generalize next s = t
    obtain ⟨replies', _ | s'⟩ := t
    · rfl
    · exact Transcript.ext (List.append_assoc ..) rfl

theorem andThen_congr (h : ∀ s, t.left = some s → next s = next' s) :
    t.andThen next = t.andThen next' := by
  obtain ⟨replies, _ | s⟩ := t
  · rfl
  · simp only [andThen, h s rfl]

theorem filter_andThen : (t.andThen next).filter p =
    (t.filter p).andThen fun s => (next s).filter p := by
  obtain ⟨replies, _ | s⟩ := t
  · rfl
  · exact Transcript.ext (List.filter_append ..) rfl

theorem map_andThen : (t.map f).andThen next = t.andThen fun s => next (f s) := by
  obtain ⟨replies, _ | s⟩ := t <;> rfl

theorem andThen_map : (t.andThen next).map f = t.andThen fun s => (next s).map f := by
  obtain ⟨replies, _ | s⟩ := t <;> rfl

/-! ## Runs -/

theorem run_append (s : σ) (xs ys : List ε) :
    run serve s (xs ++ ys) = (run serve s xs).andThen fun s' => run serve s' ys := by
  induction xs generalizing s with
  | nil => rfl
  | cons x xs ih =>
      rw [List.cons_append, run, run, andThen_assoc]
      exact congrArg _ (funext ih)

theorem run_singleton (e : ε) : run serve s [e] = serve s e :=
  andThen_silent

theorem run_map (g : ι → ε) (s : σ) (es : List ι) :
    run serve s (es.map g) = run (fun s e => serve s (g e)) s es := by
  induction es generalizing s with
  | nil => rfl
  | cons e es ih => exact congrArg _ (funext ih)

/-- A run of entries that are served alike in two views of a state is heard alike. -/
theorem run_view (hserve : ∀ s e, serve (f s) e = (serve s e).map f) (s : σ) (es : List ε) :
    run serve (f s) es = (run serve s es).map f := by
  induction es generalizing s with
  | nil => rfl
  | cons e es ih =>
      rw [run, run, hserve, map_andThen, andThen_map]
      exact congrArg _ (funext ih)

theorem run_filter_eq_self (hserve : ∀ s e, (serve s e).filter p = serve s e) (s : σ)
    (es : List ε) : (run serve s es).filter p = run serve s es := by
  induction es generalizing s with
  | nil => rfl
  | cons e es ih =>
      rw [run, filter_andThen, hserve]
      exact congrArg _ (funext ih)

theorem run_invariant {I : σ → Prop} (hserve : ∀ s e s', I s → (serve s e).left = some s' → I s')
    {es : List ε} (hs : I s) (h : (run serve s es).left = some s') : I s' := by
  induction es generalizing s with
  | nil =>
      obtain rfl := Option.some.inj h
      exact hs
  | cons e es ih =>
      rw [run] at h
      have hleft := hserve s e
      generalize serve s e = t at h hleft
      obtain ⟨replies, _ | s₁⟩ := t
      · cases h
      · exact ih (hleft s₁ hs rfl) h

/-- Entries can be replaced where the replacement is heard like what is left of the original. -/
theorem run_flatMap {I : σ → Prop} {keep : ε → List ε}
    (hkeep : ∀ s e, I s → run serve s (keep e) = (serve s e).filter p)
    (hserve : ∀ s e s', I s → (serve s e).left = some s' → I s') (hs : I s) (es : List ε) :
    run serve s (es.flatMap keep) = (run serve s es).filter p := by
  induction es generalizing s with
  | nil => rfl
  | cons e es ih =>
      rw [List.flatMap_cons, run_append, hkeep s e hs, run, filter_andThen]
      exact andThen_congr fun s' hs' => ih (hserve s e s' hs hs')

end Transcript
