import Mathlib.Data.List.Infix

/-! # Bounded FIFO channels

A sender appends to the queue of a channel while its receiver is there, and the receiver
takes from its front. The messages taken so far are kept as history. -/

/-- A channel with room for `slots` messages. -/
structure Channel (slots : ℕ) (α : Type*) where
  queue : List α
  taken : List α
  connected : Bool
  bounded : queue.length ≤ slots
  deriving DecidableEq

/-- The outcome of an attempt to send. -/
inductive SendResult where
  | sent
  | full
  | disconnected
  deriving DecidableEq, Repr

namespace Channel

variable {slots : ℕ} {α : Type*}

/-- A channel with its receiver. -/
def new : Channel slots α := ⟨[], [], true, Nat.zero_le _⟩

/-- A channel without a receiver. -/
def absent : Channel slots α := ⟨[], [], false, Nat.zero_le _⟩

/-- Send without waiting for room. -/
def trySend (c : Channel slots α) (a : α) : SendResult × Channel slots α :=
  if c.connected = false then (.disconnected, c)
  else if h : c.queue.length < slots then
    (.sent, { c with queue := c.queue ++ [a], bounded := by simpa using Nat.succ_le_of_lt h })
  else (.full, c)

/-- Take from the front. -/
def recv (c : Channel slots α) : Option (α × Channel slots α) :=
  match _h : c.queue with
  | [] => none
  | a :: queue =>
      some (a, { c with
        queue, taken := c.taken ++ [a],
        bounded := by have := c.bounded; rw [_h, List.length_cons] at this; omega })

/-- The receiver goes away, and with it what it has not taken. -/
def close (c : Channel slots α) : Channel slots α :=
  { c with queue := [], connected := false, bounded := Nat.zero_le _ }

/-- The messages taken and those still queued, in the order they were sent. -/
def history (c : Channel slots α) : List α :=
  c.taken ++ c.queue

/-- Room for a message whose receiver is there. -/
def Open (c : Channel slots α) : Prop :=
  c.connected = true ∧ c.queue.length < slots

instance (c : Channel slots α) : Decidable c.Open :=
  inferInstanceAs (Decidable (_ ∧ _))

/-- The receiver is there and has taken everything. -/
def Drained (c : Channel slots α) : Prop :=
  c.connected = true ∧ c.queue = []

instance (c : Channel slots α) [DecidableEq α] : Decidable c.Drained :=
  inferInstanceAs (Decidable (_ ∧ _))

variable {c c' : Channel slots α} {a : α}

theorem taken_prefix_history (c : Channel slots α) : c.taken <+: c.history :=
  List.prefix_append ..

theorem history_of_queue_eq_nil (h : c.queue = []) : c.history = c.taken := by
  rw [history, h, List.append_nil]

@[simp] theorem history_close (c : Channel slots α) : c.close.history = c.taken :=
  history_of_queue_eq_nil rfl

/-- What a message in the queue's place changes. -/
structure Sent (c : Channel slots α) (a : α) (c' : Channel slots α) : Prop where
  room : c.Open
  history : c'.history = c.history ++ [a]
  taken : c'.taken = c.taken
  connected : c'.connected = true

theorem trySend_sent (h : c.trySend a = (.sent, c')) : c.Sent a c' := by
  rw [trySend] at h
  split at h
  · cases h
  · rename_i hconnected
    split at h
    · rename_i hroom
      obtain ⟨-, rfl⟩ := Prod.mk.inj h
      have hconnected : c.connected = true := by simpa using hconnected
      exact ⟨⟨hconnected, hroom⟩, by simp [Channel.history], rfl, hconnected⟩
    · cases h

theorem trySend_full (h : c.trySend a = (.full, c')) : c' = c := by
  rw [trySend] at h
  split at h
  · cases h
  · split at h
    · cases h
    · exact (Prod.mk.inj h).2.symm

theorem trySend_disconnected (h : c.trySend a = (.disconnected, c')) :
    c' = c ∧ c.connected = false := by
  rw [trySend] at h
  split at h
  · rename_i hconnected
    exact ⟨(Prod.mk.inj h).2.symm, hconnected⟩
  · split at h <;> cases h

/-- Taking a message moves it without changing the order. -/
theorem recv_spec (h : c.recv = some (a, c')) :
    c'.history = c.history ∧ c'.taken = c.taken ++ [a] ∧ c'.connected = c.connected := by
  rw [recv] at h
  split at h
  · cases h
  · rename_i b queue hqueue
    obtain ⟨rfl, rfl⟩ := Prod.mk.inj (Option.some.inj h)
    refine ⟨?_, rfl, rfl⟩
    simp [history, hqueue]

theorem Sent.queue (h : c.Sent a c') : c'.queue = c.queue ++ [a] := by
  have hhistory := h.history
  rw [Channel.history, Channel.history, h.taken, List.append_assoc] at hhistory
  exact List.append_cancel_left hhistory

theorem queue_of_recv (h : c.recv = some (a, c')) : c.queue = a :: c'.queue := by
  obtain ⟨hhistory, htaken, -⟩ := recv_spec h
  rw [history, history, htaken, List.append_assoc] at hhistory
  exact (List.append_cancel_left hhistory).symm

theorem recv_isSome (h : c.queue ≠ []) : ∃ a c', c.recv = some (a, c') := by
  rw [recv]
  split
  · rename_i hqueue
    exact absurd hqueue h
  · exact ⟨_, _, rfl⟩

/-- Sending fails for want of room only while every slot is taken. -/
theorem length_of_full (h : (c.trySend a).1 = .full) :
    c.connected = true ∧ c.queue.length = slots := by
  rw [trySend] at h
  split at h
  · cases h
  · rename_i hconnected
    split at h
    · cases h
    · rename_i hroom
      exact ⟨by simpa using hconnected, Nat.le_antisymm c.bounded (Nat.le_of_not_lt hroom)⟩

/-! ## Growth -/

/-- As long as its receiver is there, a channel only gains messages. -/
def Grows (c c' : Channel slots α) : Prop :=
  c'.connected = true → c.connected = true ∧ c.history <+: c'.history

theorem Grows.refl (c : Channel slots α) : c.Grows c :=
  fun h => ⟨h, List.prefix_rfl⟩

theorem Sent.grows (h : c.Sent a c') : c.Grows c' :=
  fun _ => ⟨h.room.1, h.history ▸ List.prefix_append ..⟩

theorem grows_of_recv (h : c.recv = some (a, c')) : c.Grows c' := by
  obtain ⟨hhistory, -, hconnected⟩ := recv_spec h
  exact fun h => ⟨hconnected ▸ h, hhistory ▸ List.prefix_rfl⟩

theorem grows_close (c : Channel slots α) : c.Grows c.close := by
  intro h
  cases h

/-- What was sent on a channel with a receiver stays sent. -/
theorem Grows.mem (h : c.Grows c') (hconnected : c'.connected = true) (ha : a ∈ c.history) :
    a ∈ c'.history :=
  (h hconnected).2.mem ha

end Channel
