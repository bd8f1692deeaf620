import SnapcastClient.Model.Registry
import Mathlib.Data.List.Nodup

/-! # What the registry's operations do to its clients -/

namespace SnapcastClient

namespace ClientHandle

@[simp] theorem offered_tx (h : ClientHandle) (limit now later : ℤ) (result : SendResult) :
    (h.offered limit now later result).1.tx = h.tx := by
  cases result <;> rfl

@[simp] theorem offered_sock (h : ClientHandle) (limit now later : ℤ) (result : SendResult) :
    (h.offered limit now later result).1.sock = h.sock := by
  cases result <;> rfl

theorem offered_dropped_le (h : ClientHandle) (limit now later : ℤ) (result : SendResult) :
    (h.offered limit now later result).1.dropped ≤ h.dropped + 1 := by
  cases result
  · exact Nat.le_succ _
  · exact le_rfl
  · exact Nat.le_succ _

end ClientHandle

namespace Registry

variable {r r' : Registry} {id id' : ClientId} {h h' : ClientHandle}

/-- An id names at most one client. -/
theorem handle_unique (hmem : (id, h) ∈ r.clients) (hmem' : (id, h') ∈ r.clients) : h = h' := by
  have hinj := List.inj_on_of_nodup_map r.nodup hmem hmem' rfl
  exact (Prod.mk.inj hinj).2

theorem mem_of_get? (hget : r.get? id = some h) : (id, h) ∈ r.clients := by
  obtain ⟨⟨id', h'⟩, hfind, rfl⟩ := Option.map_eq_some_iff.mp hget
  have hid : id' = id := by simpa using List.find?_some hfind
  exact hid ▸ List.mem_of_find?_eq_some hfind

theorem get?_eq_some_iff : r.get? id = some h ↔ (id, h) ∈ r.clients := by
  refine ⟨mem_of_get?, fun hmem => ?_⟩
  cases hget : r.get? id with
  | none =>
      rw [get?, Option.map_eq_none_iff, List.find?_eq_none] at hget
      exact absurd (hget (id, h) hmem) (by simp)
  | some h' => rw [handle_unique hmem (mem_of_get? hget)]

theorem mem_register {tx : ChannelId} {sock : ConnId} :
    (id, h) ∈ (r.register tx sock).2.clients ↔
      (id, h) ∈ r.clients ∨ id = r.nextId ∧ h = ⟨tx, sock, none, 0⟩ := by
  simp [register]

theorem mem_remove : (id, h) ∈ (r.remove id').clients ↔ (id, h) ∈ r.clients ∧ id ≠ id' := by
  simp [remove]

theorem mem_setHandle (hmem : (id, h) ∈ r.clients) {id₁ : ClientId} {h₁ : ClientHandle} :
    (id₁, h₁) ∈ (r.setHandle id h').clients ↔
      id₁ = id ∧ h₁ = h' ∨ id₁ ≠ id ∧ (id₁, h₁) ∈ r.clients := by
  simp only [setHandle, List.mem_map, Prod.exists]
  constructor
  · rintro ⟨id₂, h₂, hmem₂, heq⟩
    by_cases hid : id₂ = id
    · rw [if_pos hid] at heq
      obtain ⟨rfl, rfl⟩ := Prod.mk.inj heq
      exact .inl ⟨hid, rfl⟩
    · rw [if_neg hid] at heq
      obtain ⟨rfl, rfl⟩ := Prod.mk.inj heq
      exact .inr ⟨hid, hmem₂⟩
  · rintro (⟨rfl, rfl⟩ | ⟨hid, hmem₁⟩)
    · exact ⟨id₁, h, hmem, if_pos rfl⟩
    · exact ⟨id₁, h₁, hmem₁, if_neg hid⟩

/-- Writing to a handle leaves every client its socket. -/
theorem exists_sock_setHandle (hmem : (id, h) ∈ r.clients) (hsock : h'.sock = h.sock)
    {id₁ : ClientId} {k : ConnId} :
    (∃ h₁, (id₁, h₁) ∈ (r.setHandle id h').clients ∧ h₁.sock = k) ↔
      ∃ h₁, (id₁, h₁) ∈ r.clients ∧ h₁.sock = k := by
  constructor
  · rintro ⟨h₁, hmem₁, rfl⟩
    rcases (mem_setHandle hmem).mp hmem₁ with ⟨rfl, rfl⟩ | ⟨-, hmem₁⟩
    · exact ⟨h, hmem, hsock.symm⟩
    · exact ⟨h₁, hmem₁, rfl⟩
  · rintro ⟨h₁, hmem₁, rfl⟩
    by_cases hid : id₁ = id
    · subst hid
      obtain rfl := handle_unique hmem hmem₁
      exact ⟨h', (mem_setHandle hmem).mpr (.inl ⟨rfl, rfl⟩), hsock⟩
    · exact ⟨h₁, (mem_setHandle hmem).mpr (.inr ⟨hid, hmem₁⟩), rfl⟩

theorem clients_remove_of_none (hget : r.get? id = none) :
    (r.remove id).clients = r.clients := by
  rw [get?, Option.map_eq_none_iff, List.find?_eq_none] at hget
  refine List.filter_eq_self.mpr fun p hp => ?_
  simpa using hget p hp

theorem id_ne_nextId (hmem : (id, h) ∈ r.clients) : id ≠ r.nextId :=
  Nat.ne_of_lt (r.fresh _ hmem)

/-! ## Looking a client up -/

theorem get?_congr (hmem : ∀ h, (id, h) ∈ r'.clients ↔ (id, h) ∈ r.clients) :
    r'.get? id = r.get? id := by
  refine Option.ext fun h => ?_
  rw [get?_eq_some_iff, get?_eq_some_iff]
  exact hmem h

theorem get?_eq_none (hmem : ∀ h, (id, h) ∉ r.clients) : r.get? id = none := by
  rw [Option.eq_none_iff_forall_ne_some]
  exact fun h hget => hmem h (mem_of_get? hget)

theorem get?_remove (r : Registry) (id id' : ClientId) :
    (r.remove id').get? id = r.get? id ∨ (r.remove id').get? id = none := by
  by_cases hid : id = id'
  · exact .inr (get?_eq_none fun h hmem => (mem_remove.mp hmem).2 hid)
  · exact .inl (get?_congr fun h => mem_remove.trans (and_iff_left hid))

theorem get?_register_of_ne {tx : ChannelId} {sock : ConnId} (hid : id ≠ r.nextId) :
    (r.register tx sock).2.get? id = r.get? id :=
  get?_congr fun _ => mem_register.trans (or_iff_left fun h => hid h.1)

theorem get?_register_self {tx : ChannelId} {sock : ConnId} :
    (r.register tx sock).2.get? r.nextId = some ⟨tx, sock, none, 0⟩ :=
  get?_eq_some_iff.mpr (mem_register.mpr (.inr ⟨rfl, rfl⟩))

theorem get?_setHandle_self (hmem : (id, h) ∈ r.clients) :
    (r.setHandle id h').get? id = some h' :=
  get?_eq_some_iff.mpr ((mem_setHandle hmem).mpr (.inl ⟨rfl, rfl⟩))

theorem get?_setHandle_of_ne (hmem : (id, h) ∈ r.clients) (hid : id' ≠ id) :
    (r.setHandle id h').get? id' = r.get? id' :=
  get?_congr fun _ => (mem_setHandle hmem).trans
    ⟨fun hor => hor.elim (fun h => absurd h.1 hid) And.right, fun h => .inr ⟨hid, h⟩⟩

theorem mem_keys_iff : id ∈ r.clients.map Prod.fst ↔ (r.get? id).isSome := by
  rw [Option.isSome_iff_exists, List.mem_map]
  constructor
  · rintro ⟨⟨id', h⟩, hmem, rfl⟩
    exact ⟨h, get?_eq_some_iff.mpr hmem⟩
  · rintro ⟨h, hget⟩
    exact ⟨(id, h), mem_of_get? hget, rfl⟩

/-! ## What keeps clients and their connections -/

/-- No client is new, and none changed its queue or its connection. -/
structure Shrinks (r r' : Registry) : Prop where
  entry : ∀ id h', (id, h') ∈ r'.clients →
    ∃ h, (id, h) ∈ r.clients ∧ h'.tx = h.tx ∧ h'.sock = h.sock
  nextId : r'.nextId = r.nextId

theorem Shrinks.refl (r : Registry) : r.Shrinks r :=
  ⟨fun _ h hmem => ⟨h, hmem, rfl, rfl⟩, rfl⟩

theorem shrinks_remove (r : Registry) (id : ClientId) : r.Shrinks (r.remove id) :=
  ⟨fun _ h hmem => ⟨h, (mem_remove.mp hmem).1, rfl, rfl⟩, rfl⟩

theorem shrinks_storeVolume (r : Registry) (volume : UInt8) :
    r.Shrinks (r.storeVolume volume).2 :=
  ⟨fun _ h hmem => ⟨h, hmem, rfl, rfl⟩, rfl⟩

theorem shrinks_setHandle (hmem : (id, h) ∈ r.clients) (htx : h'.tx = h.tx)
    (hsock : h'.sock = h.sock) : r.Shrinks (r.setHandle id h') := by
  refine ⟨?_, rfl⟩
  intro id' h₁ hmem'
  obtain ⟨⟨id₂, h₂⟩, hmem₂, heq⟩ := List.mem_map.mp hmem'
  by_cases hid : id₂ = id
  · subst hid
    rw [if_pos rfl] at heq
    obtain ⟨rfl, rfl⟩ := Prod.mk.inj heq
    exact ⟨h, hmem, htx, hsock⟩
  · rw [if_neg hid] at heq
    obtain ⟨rfl, rfl⟩ := Prod.mk.inj heq
    exact ⟨h₂, hmem₂, rfl, rfl⟩

/-! ## Counters -/

/-- The counters are at most `n`. -/
structure Counted (n : ℕ) (r : Registry) : Prop where
  nextId : r.nextId ≤ n
  dropped : ∀ id h, (id, h) ∈ r.clients → h.dropped ≤ n

variable {n : ℕ}

theorem Counted.succ (hr : r.Counted n) : r.Counted (n + 1) :=
  ⟨hr.nextId.trans (Nat.le_succ n), fun id h hmem => (hr.dropped id h hmem).trans (Nat.le_succ n)⟩

theorem Counted.register (hr : r.Counted n) (tx : ChannelId) (sock : ConnId) :
    (r.register tx sock).2.Counted (n + 1) := by
  refine ⟨Nat.succ_le_succ hr.nextId, fun id h hmem => ?_⟩
  rcases mem_register.mp hmem with hmem | ⟨-, rfl⟩
  · exact hr.succ.dropped id h hmem
  · exact Nat.zero_le _

theorem Counted.remove (hr : r.Counted n) (id : ClientId) : (r.remove id).Counted n :=
  ⟨hr.nextId, fun id' h hmem => hr.dropped id' h (mem_remove.mp hmem).1⟩

theorem Counted.setHandle (hr : r.Counted n) (hmem : (id, h) ∈ r.clients)
    (hdropped : h'.dropped ≤ h.dropped + 1) : (r.setHandle id h').Counted (n + 1) := by
  refine ⟨hr.succ.nextId, fun id₁ h₁ hmem₁ => ?_⟩
  rcases (mem_setHandle hmem).mp hmem₁ with ⟨-, rfl⟩ | ⟨-, hmem₁⟩
  · exact hdropped.trans (Nat.succ_le_succ (hr.dropped id h hmem))
  · exact hr.succ.dropped id₁ h₁ hmem₁

end Registry

end SnapcastClient
