import Mathlib.Data.List.DropRight

/-! # `circular_buffer::CircularBuffer`

The operations of the crate in use with their documented behaviour, and a buffer that has it. -/

namespace SnapcastClient

/-- The operations of a `CircularBuffer` that the client calls. -/
structure RingBuffer (capacity : ℕ) (α : Type) where
  Carrier : Type
  new : Carrier
  pushBack : Carrier → α → Carrier
  len : Carrier → ℕ
  iter : Carrier → List α

/-- An element is appended, and overwrites the front of a full buffer; `iter` goes from front to
back. -/
structure RingBuffer.Laws {capacity : ℕ} {α : Type} (ring : RingBuffer capacity α) : Prop where
  iter_new : ring.iter ring.new = []
  len_eq : ∀ b, ring.len b = (ring.iter b).length
  len_le : ∀ b, ring.len b ≤ capacity
  iter_pushBack_of_lt : ∀ b x, ring.len b < capacity →
    ring.iter (ring.pushBack b x) = ring.iter b ++ [x]
  iter_pushBack_of_full : ∀ b x, ring.len b = capacity →
    ring.iter (ring.pushBack b x) = (ring.iter b ++ [x]).tail

/-- A buffer listed from front to back. -/
structure CircularBuffer (capacity : ℕ) (α : Type) where
  items : List α
  bounded : items.length ≤ capacity

namespace CircularBuffer

variable {capacity : ℕ} {α : Type}

def new : CircularBuffer capacity α := ⟨[], Nat.zero_le _⟩

def len (b : CircularBuffer capacity α) : ℕ := b.items.length

/-- Appending to a full buffer drops its front. -/
def pushBack (b : CircularBuffer capacity α) (x : α) : CircularBuffer capacity α :=
  ⟨(b.items ++ [x]).rtake capacity, by
    have := b.bounded
    simp only [List.rtake, List.length_drop, List.length_append, List.length_singleton]
    omega⟩

def ring (capacity : ℕ) (α : Type) : RingBuffer capacity α where
  Carrier := CircularBuffer capacity α
  new := new
  pushBack := pushBack
  len := len
  iter := items

end CircularBuffer

end SnapcastClient
