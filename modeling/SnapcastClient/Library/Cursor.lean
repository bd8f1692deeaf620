import Mathlib.Data.List.Basic

/-! # Items on a byte stream

A writer appends whole items to a stream, each a head of a fixed length and a body. A reader
takes a head, and then the body that goes with it. -/

/-- How items travel. -/
structure Wire (ι β : Type*) where
  head : ι → List β
  body : ι → List β
  headLength : ℕ
  length_head : ∀ i, (head i).length = headLength
  headLength_pos : 0 < headLength

/-- An item on the stream. -/
def Wire.item {ι β : Type*} (w : Wire ι β) (i : ι) : List β :=
  w.head i ++ w.body i

/-- The items a reader has taken, the one whose head it has read, and those ahead of it. -/
structure Cursor (ι : Type*) where
  taken : List ι
  inside : Option ι
  ahead : List ι

namespace Cursor

variable {ι β : Type*}

/-- Before a list of items. -/
def start (is : List ι) : Cursor ι := ⟨[], none, is⟩

/-- All items, in the order they were written. -/
def items (c : Cursor ι) : List ι :=
  c.taken ++ c.inside.toList ++ c.ahead

/-- What is left on the stream. -/
def rest (w : Wire ι β) (c : Cursor ι) : List β :=
  c.inside.elim [] w.body ++ c.ahead.flatMap w.item

/-- How much the reader takes next. -/
def wanted (w : Wire ι β) (c : Cursor ι) : ℕ :=
  c.inside.elim w.headLength fun i => (w.body i).length

/-- The writer appends an item. -/
def push (c : Cursor ι) (i : ι) : Cursor ι :=
  { c with ahead := c.ahead ++ [i] }

variable {w : Wire ι β} {c : Cursor ι} {i : ι}

@[simp] theorem items_start (is : List ι) : (start is).items = is := rfl

@[simp] theorem rest_start (is : List ι) : (start is).rest w = is.flatMap w.item := rfl

@[simp] theorem items_push (c : Cursor ι) (i : ι) : (c.push i).items = c.items ++ [i] := by
  simp [items, push]

@[simp] theorem rest_push (c : Cursor ι) (i : ι) : (c.push i).rest w = c.rest w ++ w.item i := by
  simp [rest, push]

/-- As many elements as a head takes are a head. -/
theorem exists_head (hinside : c.inside = none) (hlen : w.headLength ≤ (c.rest w).length) :
    ∃ i ahead, c.ahead = i :: ahead ∧ (c.rest w).take w.headLength = w.head i ∧
      (c.rest w).drop w.headLength = rest w { c with inside := some i, ahead } := by
  have hrest : c.rest w = c.ahead.flatMap w.item := by simp [rest, hinside]
  cases hahead : c.ahead with
  | nil =>
      have hpos := w.headLength_pos
      rw [hrest, hahead, List.flatMap_nil, List.length_nil] at hlen
      omega
  | cons i ahead =>
      refine ⟨i, ahead, rfl, ?_, ?_⟩
      · rw [hrest, hahead, List.flatMap_cons, Wire.item, List.append_assoc,
          List.take_left' (w.length_head i)]
      · rw [hrest, hahead, List.flatMap_cons, Wire.item, List.append_assoc,
          List.drop_left' (w.length_head i)]
        rfl

/-- Behind a head comes its body. -/
theorem take_body (hinside : c.inside = some i) :
    (c.rest w).take (w.body i).length = w.body i ∧
      (c.rest w).drop (w.body i).length =
        rest w { c with taken := c.taken ++ [i], inside := none } := by
  have hrest : c.rest w = w.body i ++ c.ahead.flatMap w.item := by simp [rest, hinside]
  rw [hrest, List.take_left' rfl, List.drop_left' rfl]
  exact ⟨rfl, rfl⟩

/-- A reader that finds less than it wants has taken all items. -/
theorem exhausted_of_length_lt (h : (c.rest w).length < c.wanted w) :
    c.inside = none ∧ c.ahead = [] := by
  rw [rest, List.length_append] at h
  cases hinside : c.inside with
  | none =>
      refine ⟨rfl, ?_⟩
      cases hahead : c.ahead with
      | nil => rfl
      | cons i ahead =>
          rw [wanted, hinside, hahead, List.flatMap_cons, Wire.item, List.length_append,
            List.length_append, w.length_head] at h
          simp only [Option.elim_none] at h
          omega
  | some i =>
      rw [wanted, hinside] at h
      simp only [Option.elim_some] at h
      omega

theorem items_of_exhausted (hinside : c.inside = none) (hahead : c.ahead = []) :
    c.items = c.taken ∧ c.rest w = [] := by
  simp [items, rest, hinside, hahead]

theorem items_of_head {ahead : List ι} (hinside : c.inside = none) (hahead : c.ahead = i :: ahead) :
    items { c with inside := some i, ahead } = c.items := by
  simp [items, hinside, hahead]

theorem items_of_body (hinside : c.inside = some i) :
    items { c with taken := c.taken ++ [i], inside := none } = c.items := by
  simp [items, hinside]

end Cursor
