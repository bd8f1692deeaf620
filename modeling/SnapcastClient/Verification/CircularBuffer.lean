import SnapcastClient.Model.CircularBuffer

/-! # The sample window

Any buffer that behaves as documented is, as far as its elements go, the listed one. -/

namespace SnapcastClient

variable {capacity : ℕ} {α : Type}

namespace CircularBuffer

/-- A buffer that holds the end of a log still does after both grow by an entry. -/
theorem pushBack_items_of_rtake {b : CircularBuffer capacity α} {log : List α}
    (h : b.items = log.rtake capacity) (x : α) :
    (b.pushBack x).items = (log ++ [x]).rtake capacity := by
  simp only [pushBack, h, List.rtake_eq_reverse_take_reverse, List.reverse_append,
    List.reverse_reverse, List.reverse_singleton, List.singleton_append]
  cases capacity with
  | zero => rfl
  | succ n => simp [List.take_take]

theorem items_pushBack (b : CircularBuffer capacity α) (x : α) :
    (b.pushBack x).items = (b.items ++ [x]).drop ((b.items ++ [x]).length - capacity) := rfl

theorem items_pushBack_of_lt {b : CircularBuffer capacity α} (h : b.len < capacity) (x : α) :
    (b.pushBack x).items = b.items ++ [x] := by
  have hfits : (b.items ++ [x]).length ≤ capacity := by
    rw [List.length_append, List.length_singleton]
    exact h
  rw [items_pushBack, Nat.sub_eq_zero_of_le hfits, List.drop_zero]

theorem items_pushBack_of_full {b : CircularBuffer capacity α} (h : b.len = capacity) (x : α) :
    (b.pushBack x).items = (b.items ++ [x]).tail := by
  have hover : (b.items ++ [x]).length - capacity = 1 := by
    rw [len] at h
    rw [List.length_append, List.length_singleton]
    omega
  rw [items_pushBack, hover, List.drop_one]

theorem ring_laws (capacity : ℕ) (α : Type) : (ring capacity α).Laws where
  iter_new := rfl
  len_eq _ := rfl
  len_le b := b.bounded
  iter_pushBack_of_lt _ x h := items_pushBack_of_lt h x
  iter_pushBack_of_full _ x h := items_pushBack_of_full h x

end CircularBuffer

namespace RingBuffer.Laws

variable {ring : RingBuffer capacity α} (h : ring.Laws)

/-- The elements of a buffer. -/
def view (b : ring.Carrier) : CircularBuffer capacity α :=
  ⟨ring.iter b, (h.len_eq b).symm.trans_le (h.len_le b)⟩

@[simp] theorem view_items (b : ring.Carrier) : (h.view b).items = ring.iter b := rfl

@[simp] theorem view_len (b : ring.Carrier) : (h.view b).len = ring.len b := (h.len_eq b).symm

@[simp] theorem view_new : h.view ring.new = .new := by
  simp only [view, CircularBuffer.new, h.iter_new]

@[simp] theorem view_pushBack (b : ring.Carrier) (x : α) :
    h.view (ring.pushBack b x) = (h.view b).pushBack x := by
  have hitems : ring.iter (ring.pushBack b x) = ((h.view b).pushBack x).items := by
    rcases (h.len_le b).lt_or_eq with hlt | hfull
    · rw [h.iter_pushBack_of_lt b x hlt, CircularBuffer.items_pushBack_of_lt (by simpa using hlt),
        view_items]
    · rw [h.iter_pushBack_of_full b x hfull,
        CircularBuffer.items_pushBack_of_full (by simpa using hfull), view_items]
  simp only [view, hitems]

end RingBuffer.Laws

end SnapcastClient
