import Mathlib.Data.List.Basic

/-! # Cutting a list into blocks

A list is cut into blocks of one length, with a remainder. A remainder shorter than a block
determines the cut, and cuts of consecutive pieces join to a cut of the whole. -/

variable {α β : Type*}

/-- `xs` begins with these blocks of length `n`, and this is what is left of it. -/
structure Cut (n : ℕ) (xs : List α) (blocks : List (List α)) (rest : List α) : Prop where
  flatten : blocks.flatten ++ rest = xs
  block_length : ∀ b ∈ blocks, b.length = n

namespace Cut

variable {n : ℕ} {xs ys r r₁ r₂ b : List α} {bs b₁ b₂ : List (List α)}

theorem nil (n : ℕ) (xs : List α) : Cut n xs [] xs :=
  ⟨rfl, by simp⟩

theorem singleton {xs : List α} (h : n ≤ xs.length) : Cut n xs [xs.take n] (xs.drop n) := by
  refine ⟨by simp, fun b hb => ?_⟩
  obtain rfl := List.mem_singleton.mp hb
  exact List.length_take_of_le h

/-- What is left of a cut may be extended and cut further. -/
theorem append (h₁ : Cut n xs b₁ r₁) (h₂ : Cut n (r₁ ++ ys) b₂ r₂) :
    Cut n (xs ++ ys) (b₁ ++ b₂) r₂ := by
  refine ⟨?_, ?_⟩
  · rw [List.flatten_append, List.append_assoc, h₂.flatten, ← List.append_assoc, h₁.flatten]
  · intro b hb
    rcases List.mem_append.mp hb with hb | hb
    · exact h₁.block_length b hb
    · exact h₂.block_length b hb

theorem trans (h₁ : Cut n xs b₁ r₁) (h₂ : Cut n r₁ b₂ r₂) : Cut n xs (b₁ ++ b₂) r₂ := by
  have h : Cut n (xs ++ []) (b₁ ++ b₂) r₂ := h₁.append (by rwa [List.append_nil])
  rwa [List.append_nil] at h

theorem flatten_length (h : Cut n xs bs r) : bs.flatten.length = n * bs.length := by
  rw [List.length_flatten, List.map_congr_left h.block_length, List.map_const',
    List.sum_replicate_nat, Nat.mul_comm]

theorem length_eq (h : Cut n xs bs r) : xs.length = n * bs.length + r.length := by
  rw [← h.flatten, List.length_append, h.flatten_length]

theorem length_mod (h : Cut n xs bs r) (hr : r.length < n) : xs.length % n = r.length := by
  rw [h.length_eq, Nat.mul_add_mod, Nat.mod_eq_of_lt hr]

theorem length_div (h : Cut n xs bs r) (hr : r.length < n) : xs.length / n = bs.length := by
  rw [h.length_eq, Nat.mul_add_div (by omega), Nat.div_eq_of_lt hr, Nat.add_zero]

theorem tail (h : Cut n xs (b :: bs) r) : Cut n (xs.drop n) bs r := by
  have hb := h.block_length b List.mem_cons_self
  refine ⟨?_, fun c hc => h.block_length c (List.mem_cons_of_mem _ hc)⟩
  rw [← h.flatten, List.flatten_cons, List.append_assoc, List.drop_left' hb]

theorem head_eq (h : Cut n xs (b :: bs) r) : b = xs.take n := by
  rw [← h.flatten, List.flatten_cons, List.append_assoc,
    List.take_left' (h.block_length b List.mem_cons_self)]

/-- One cut of a list into no more blocks than another gives the first of the other's. -/
theorem isPrefix (h₁ : Cut n xs b₁ r₁) (h₂ : Cut n xs b₂ r₂) (hle : b₁.length ≤ b₂.length) :
    b₁ <+: b₂ := by
  induction b₁ generalizing b₂ xs with
  | nil => exact List.nil_prefix
  | cons b b₁ ih =>
      cases b₂ with
      | nil => simp at hle
      | cons c b₂ =>
          rw [h₁.head_eq, h₂.head_eq]
          exact (List.prefix_cons_inj _).mpr (ih h₁.tail h₂.tail (by simpa using hle))

/-- A remainder shorter than a block determines the cut. -/
theorem unique (h₁ : Cut n xs b₁ r₁) (h₂ : Cut n xs b₂ r₂) (hr₁ : r₁.length < n)
    (hr₂ : r₂.length < n) : b₁ = b₂ ∧ r₁ = r₂ := by
  have hlen : b₁.length = b₂.length := by rw [← h₁.length_div hr₁, h₂.length_div hr₂]
  have hblocks := (h₁.isPrefix h₂ (Nat.le_of_eq hlen)).eq_of_length hlen
  refine ⟨hblocks, ?_⟩
  have hflatten := h₁.flatten.trans h₂.flatten.symm
  rw [hblocks] at hflatten
  exact List.append_cancel_left hflatten

end Cut

/-- The whole blocks at the front of a list. -/
def wholeBlocks (n : ℕ) (xs : List α) : List (List α) :=
  (List.range (xs.length / n)).map fun i => (xs.drop (n * i)).take n

/-- What the whole blocks leave. -/
def partialBlock (n : ℕ) (xs : List α) : List α :=
  xs.drop (n * (xs.length / n))

theorem partialBlock_length {n : ℕ} (hn : 0 < n) (xs : List α) :
    (partialBlock n xs).length < n := by
  rw [partialBlock, List.length_drop]
  have h := Nat.div_add_mod xs.length n
  have := Nat.mod_lt xs.length hn
  omega

theorem flatten_blocks (n k : ℕ) (xs : List α) :
    ((List.range k).map fun i => (xs.drop (n * i)).take n).flatten = xs.take (n * k) := by
  induction k with
  | zero => simp
  | succ k ih =>
      rw [List.range_succ, List.map_append, List.flatten_append, ih, Nat.mul_succ, List.take_add]
      simp

theorem cut_wholeBlocks (n : ℕ) (xs : List α) :
    Cut n xs (wholeBlocks n xs) (partialBlock n xs) := by
  constructor
  case flatten => rw [wholeBlocks, partialBlock, flatten_blocks, List.take_append_drop]
  case block_length =>
    intro b hb
    obtain ⟨i, hi, rfl⟩ := List.mem_map.mp hb
    have hi : i + 1 ≤ xs.length / n := List.mem_range.mp hi
    have hmul := Nat.mul_le_mul_left n hi
    have hdiv := Nat.mul_div_le xs.length n
    rw [List.length_take, List.length_drop]
    rw [Nat.mul_succ] at hmul
    omega

/-- A cut that leaves less than a block is the one into whole blocks. -/
theorem Cut.eq_wholeBlocks {n : ℕ} {xs r : List α} {bs : List (List α)} (h : Cut n xs bs r)
    (hr : r.length < n) : bs = wholeBlocks n xs ∧ r = partialBlock n xs :=
  h.unique (cut_wholeBlocks n xs) hr (partialBlock_length (by omega) xs)
