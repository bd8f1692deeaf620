import Mathlib.Data.List.Basic

/-! # Mealy machines

A deterministic machine answers every input from its state and goes on in a next state. -/

/-- What a machine answers in a state to an input, and its next state. -/
abbrev Mealy (σ α β : Type*) := σ → α → β × σ

namespace Mealy

variable {σ α β : Type*} (step : Mealy σ α β)

/-- The answers to inputs in a row. -/
def outputs : σ → List α → List β
  | _, [] => []
  | s, a :: as => (step s a).1 :: outputs (step s a).2 as

/-- The state after inputs in a row. -/
def after : σ → List α → σ
  | s, [] => s
  | s, a :: as => after (step s a).2 as

@[simp] theorem outputs_length (s : σ) (as : List α) : (outputs step s as).length = as.length := by
  induction as generalizing s with
  | nil => rfl
  | cons a as ih => simp [outputs, ih]

theorem after_append (s : σ) (as bs : List α) :
    after step s (as ++ bs) = after step (after step s as) bs := by
  induction as generalizing s with
  | nil => rfl
  | cons a as ih => exact ih _

theorem outputs_append (s : σ) (as bs : List α) :
    outputs step s (as ++ bs) = outputs step s as ++ outputs step (after step s as) bs := by
  induction as generalizing s with
  | nil => rfl
  | cons a as ih => exact congrArg ((step s a).1 :: ·) (ih _)

/-! ## Machines that may refuse -/

section Fallible

variable {ε : Type*} (step : Mealy σ α (Except ε β))

/-- The answers that are no refusals. -/
def values (s : σ) (as : List α) : List β :=
  (outputs step s as).filterMap Except.toOption

/-- The inputs that were not refused. -/
def accepted (s : σ) (as : List α) : List α :=
  ((as.zip (outputs step s as)).filter fun x => x.2.isOk).map Prod.fst

theorem values_append (s : σ) (as bs : List α) :
    values step s (as ++ bs) = values step s as ++ values step (after step s as) bs := by
  rw [values, outputs_append, List.filterMap_append]
  rfl

theorem accepted_append (s : σ) (as bs : List α) :
    accepted step s (as ++ bs) = accepted step s as ++ accepted step (after step s as) bs := by
  rw [accepted, outputs_append, List.zip_append (outputs_length step s as).symm,
    List.filter_append, List.map_append]
  rfl

theorem mem_of_mem_accepted {s : σ} {as : List α} {a : α} (h : a ∈ accepted step s as) :
    a ∈ as := by
  obtain ⟨x, hx, rfl⟩ := List.mem_map.mp h
  exact (List.of_mem_zip (List.mem_of_mem_filter hx)).1

/-- Nothing was refused if as much was accepted as was put in. -/
theorem accepted_length_eq_iff (s : σ) (as : List α) :
    (accepted step s as).length = as.length ↔ ∀ b ∈ outputs step s as, b.isOk := by
  have hzip : (as.zip (outputs step s as)).length = as.length := by simp
  have hsnd : (as.zip (outputs step s as)).map Prod.snd = outputs step s as :=
    List.map_snd_zip (Nat.le_of_eq (outputs_length step s as))
  have hall : (∀ b ∈ outputs step s as, b.isOk) ↔
      ∀ x ∈ as.zip (outputs step s as), x.2.isOk := by
    conv_lhs => rw [← hsnd]
    exact List.forall_mem_map
  rw [hall, accepted, List.length_map, ← hzip, List.length_filter_eq_length_iff]

theorem accepted_eq_self {s : σ} {as : List α} (h : ∀ b ∈ outputs step s as, b.isOk) :
    accepted step s as = as := by
  have hfilter : (as.zip (outputs step s as)).filter (fun x => x.2.isOk) =
      as.zip (outputs step s as) :=
    List.filter_eq_self.mpr fun x hx => h x.2 (List.of_mem_zip hx).2
  rw [accepted, hfilter, List.map_fst_zip (Nat.le_of_eq (outputs_length step s as).symm)]

theorem exists_of_mem_values {s : σ} {as : List α} {b : β} (h : b ∈ values step s as) :
    ∃ s' a, (step s' a).1 = .ok b := by
  obtain ⟨answer, hanswer, hb⟩ := List.mem_filterMap.mp h
  have hok : answer = .ok b := by
    cases answer with
    | error e => cases hb
    | ok a => exact congrArg Except.ok (Option.some.inj hb)
  subst hok
  clear h hb
  induction as generalizing s with
  | nil => cases hanswer
  | cons a as ih =>
      rcases List.mem_cons.mp hanswer with heq | htail
      · exact ⟨s, a, heq.symm⟩
      · exact ih htail

theorem isOk_of_values_length {s : σ} {as : List α} (h : (values step s as).length = as.length) :
    ∀ b ∈ outputs step s as, b.isOk := by
  rw [values, ← outputs_length step s as, List.filterMap_length_eq_length] at h
  intro b hb
  have hsome := h b hb
  cases b with
  | error e => cases hsome
  | ok a => rfl

end Fallible

end Mealy
