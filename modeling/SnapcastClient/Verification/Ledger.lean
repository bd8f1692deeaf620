import SnapcastClient.Verification.Entries

/-! # The books of a run

A run's ledger tells who joined, who left, who was cut off, whose socket was shut down, and
what became of every chunk offered to a client. -/

namespace SnapcastClient

/-! ## The ledger of a run -/

/-- A chunk offered to a client, with the two clock readings of the broadcast. -/
structure Offer where
  now : ℤ
  later : ℤ
  result : SendResult
  deriving DecidableEq, Repr

/-- `joined` pairs the clients with their connections, and `cut` those a broadcast took out.
`shut` lists the clients that were registered on a socket when it was shut down. -/
structure Ledger where
  joined : List (ClientId × ConnId)
  left : List ClientId
  cut : List (ClientId × ConnId)
  shut : List ClientId
  offers : ClientId → List Offer

def Ledger.empty : Ledger := ⟨[], [], [], [], fun _ => []⟩

namespace Net

/-- What becomes of the chunk of the running scan at a client's queue. -/
def offerResult? (s : Net) (id : ClientId) : Option SendResult := do
  let scan ← s.scan
  let h ← s.registry.get? id
  return ((s.channels h.tx).trySend (.chunk scan.chunk)).1

def enter (s : Net) (ledger : Ledger) : Label → Ledger
  | .register k => { ledger with joined := ledger.joined ++ [(s.registry.nextId, k)] }
  | .leave k =>
      match (s.conns k).myId with
      | some id =>
          if (s.registry.get? id).isSome then { ledger with left := ledger.left ++ [id] }
          else ledger
      | none => ledger
  | .offer id now later =>
      match s.offerResult? id with
      | some result => { ledger with
          offers := Function.update ledger.offers id
            (ledger.offers id ++ [⟨now, later, result⟩]) }
      | none => ledger
  | .disconnect id =>
      match s.registry.disconnectShuts id with
      | some sock => { ledger with
          cut := ledger.cut ++ [(id, sock)]
          shut := ledger.shut ++ (s.entries sock).map Prod.fst }
      | none => ledger
  | _ => ledger

/-- The runs of a server with their ledgers. -/
def bookedSystem (json : SerdeJson) (bufferMs : UInt32) (initialVolume : UInt8) :
    TransitionSystem (TransitionSystem.WithHistory Net Ledger) Label :=
  (system json bufferMs initialVolume).withHistory .empty enter

/-- Broadcasts read the clock at nondecreasing times. -/
def timely (p : TransitionSystem.WithHistory Net Ledger) : Label → Bool
  | .offer _ now later =>
      now ≤ later ∧ ∀ entry ∈ p.history.joined, ∀ o ∈ p.history.offers entry.1, o.later ≤ now
  | _ => true

/-! ## What each step does to the clients -/

variable {json : SerdeJson} {s s' : Net} {l : Label}

/-- The steps by what they do to the clients and to the broadcasts. -/
inductive Roster (s : Net) : Label → Net → Prop where
  | register {k : ConnId} {tx : ChannelId} {s' : Net} :
      s'.registry = (s.registry.register tx k).2 → s'.scan = s.scan → s'.wedged = s.wedged →
      Roster s (.register k) s'
  | unregister {k : ConnId} {id : ClientId} {s' : Net} :
      (s.conns k).myId = some id → s'.registry = s.registry.remove id → s'.scan = s.scan →
      s'.wedged = s.wedged → Roster s (.leave k) s'
  | startScan {chunk : EncodedChunk} {scan : Scan} :
      s.scan = none → s.registry.wedgeLimit = some scan.limit → scan.wedged = [] →
      Roster s (.startScan chunk) { s with scan := some scan }
  | offer {id : ClientId} {now later : ℤ} {scan scan' : Scan} {h : ClientHandle}
      {result : SendResult} {s' : Net} :
      s.scan = some scan → (id, h) ∈ s.registry.clients → s.offerResult? id = some result →
      s'.registry = s.registry.setHandle id (h.offered scan.limit now later result).1 →
      s'.scan = some scan' → scan'.limit = scan.limit →
      scan'.wedged = (if (h.offered scan.limit now later result).2 then scan.wedged ++ [id]
        else scan.wedged) →
      s'.wedged = s.wedged → Roster s (.offer id now later) s'
  | endScan {scan : Scan} :
      s.scan = some scan →
      Roster s .endScan { s with scan := none, wedged := s.wedged ++ scan.wedged }
  | disconnect {id : ClientId} :
      id ∈ s.wedged →
      Roster s (.disconnect id)
        { s with registry := s.registry.remove id, wedged := s.wedged.erase id }
  | keeps {l : Label} {s' : Net} :
      s'.registry.clients = s.registry.clients → s'.registry.nextId = s.registry.nextId →
      s'.registry.bufferMs = s.registry.bufferMs → s'.scan = s.scan → s'.wedged = s.wedged →
      (∀ ledger, s.enter ledger l = ledger) → Roster s l s'

theorem Act.roster (h : Act json s l s') : Roster s l s' := by
  cases h with
  | register hreader hscan => exact .register rfl rfl rfl
  | unregister hreader hmyId hscan => exact .unregister hmyId rfl rfl rfl
  | leave hreader hmyId => exact .keeps rfl rfl rfl rfl rfl fun _ => by simp only [enter, hmyId]
  | startScan hscan hlimit => exact .startScan hscan hlimit rfl
  | offer hscan hmem hget hsend =>
      refine .offer hscan (Registry.mem_of_get? hget) ?_ rfl rfl rfl rfl rfl
      simp [offerResult?, hscan, hget, hsend]
  | endScan hscan hremaining => exact .endScan hscan
  | disconnect hscan hmem => exact .disconnect hmem
  | _ => exact .keeps rfl rfl rfl rfl rfl fun _ => rfl

theorem step_roster (h : s.step json l = some s') : Roster s l s' :=
  (step_act h).roster

/-! ## The books balance -/

variable {ledger ledger' : Ledger}

/-- Every client that joined is registered, has left, or was cut off. -/
structure Booked (s : Net) (ledger : Ledger) : Prop where
  joined_lt : ∀ id k, (id, k) ∈ ledger.joined → id < s.registry.nextId
  unique : ∀ id k k', (id, k) ∈ ledger.joined → (id, k') ∈ ledger.joined → k = k'
  left_lt : ∀ id ∈ ledger.left, id < s.registry.nextId
  cut : ∀ id k, (id, k) ∈ ledger.cut → (id, k) ∈ ledger.joined ∧ id ∉ ledger.left
  entry : ∀ id h, (id, h) ∈ s.registry.clients →
    (id, h.sock) ∈ ledger.joined ∧ id ∉ ledger.left ∧ ∀ k, (id, k) ∉ ledger.cut
  gone : ∀ id k, (id, k) ∈ ledger.joined → id ∈ ledger.left ∨ (id, k) ∈ ledger.cut ∨
    ∃ h, (id, h) ∈ s.registry.clients ∧ h.sock = k

theorem Booked.cut_lt (hb : s.Booked ledger) {id : ClientId} {k : ConnId}
    (h : (id, k) ∈ ledger.cut) : id < s.registry.nextId :=
  hb.joined_lt id k (hb.cut id k h).1

/-- The books do not depend on the handles, only on whose sockets they hold. -/
theorem Booked.of_entries (hb : s.Booked ledger) (hnextId : s'.registry.nextId = s.registry.nextId)
    (hentries : ∀ id k, (∃ h, (id, h) ∈ s'.registry.clients ∧ h.sock = k) ↔
      ∃ h, (id, h) ∈ s.registry.clients ∧ h.sock = k)
    (hjoined : ledger'.joined = ledger.joined) (hleft : ledger'.left = ledger.left)
    (hcut : ledger'.cut = ledger.cut) : s'.Booked ledger' where
  joined_lt := by
    rw [hjoined, hnextId]
    exact hb.joined_lt
  unique := by
    rw [hjoined]
    exact hb.unique
  left_lt := by
    rw [hleft, hnextId]
    exact hb.left_lt
  cut := by
    rw [hcut, hjoined, hleft]
    exact hb.cut
  entry := by
    intro id h hmem
    obtain ⟨h₀, hmem₀, hsock⟩ := (hentries id h.sock).mp ⟨h, hmem, rfl⟩
    rw [hjoined, hleft, hcut, ← hsock]
    exact hb.entry id h₀ hmem₀
  gone := by
    intro id k
    rw [hjoined, hleft, hcut, hentries]
    exact hb.gone id k

theorem Booked.register (hb : s.Booked ledger) {k : ConnId} {tx : ChannelId}
    (hregistry : s'.registry = (s.registry.register tx k).2) :
    s'.Booked { ledger with joined := ledger.joined ++ [(s.registry.nextId, k)] } where
  joined_lt := by
    intro id j hmem
    rw [hregistry]
    rcases List.mem_append.mp hmem with hmem | hmem
    · exact Nat.lt_succ_of_lt (hb.joined_lt id j hmem)
    · obtain ⟨rfl, -⟩ := Prod.mk.inj (List.mem_singleton.mp hmem)
      exact Nat.lt_succ_self _
  unique := by
    intro id j j' hmem hmem'
    rcases List.mem_append.mp hmem with hmem | hmem <;>
      rcases List.mem_append.mp hmem' with hmem' | hmem'
    · exact hb.unique id j j' hmem hmem'
    · obtain ⟨rfl, -⟩ := Prod.mk.inj (List.mem_singleton.mp hmem')
      exact absurd (hb.joined_lt _ _ hmem) (Nat.lt_irrefl _)
    · obtain ⟨rfl, -⟩ := Prod.mk.inj (List.mem_singleton.mp hmem)
      exact absurd (hb.joined_lt _ _ hmem') (Nat.lt_irrefl _)
    · obtain ⟨-, rfl⟩ := Prod.mk.inj (List.mem_singleton.mp hmem)
      exact (Prod.mk.inj (List.mem_singleton.mp hmem')).2.symm
  left_lt := by
    intro id hid
    rw [hregistry]
    exact Nat.lt_succ_of_lt (hb.left_lt id hid)
  cut := by
    intro id j hmem
    obtain ⟨hjoined, hleft⟩ := hb.cut id j hmem
    exact ⟨List.mem_append_left _ hjoined, hleft⟩
  entry := by
    intro id h hmem
    rw [hregistry] at hmem
    rcases Registry.mem_register.mp hmem with hmem | ⟨rfl, rfl⟩
    · obtain ⟨hjoined, hrest⟩ := hb.entry id h hmem
      exact ⟨List.mem_append_left _ hjoined, hrest⟩
    · refine ⟨by simp, ?_, ?_⟩
      · intro hleft
        exact Nat.lt_irrefl _ (hb.left_lt _ hleft)
      · intro j hcut
        exact Nat.lt_irrefl _ (hb.cut_lt hcut)
  gone := by
    intro id j hmem
    rw [hregistry]
    rcases List.mem_append.mp hmem with hmem | hmem
    · refine (hb.gone id j hmem).imp_right (Or.imp_right ?_)
      rintro ⟨h, hmem, hsock⟩
      exact ⟨h, Registry.mem_register.mpr (.inl hmem), hsock⟩
    · obtain ⟨rfl, rfl⟩ := Prod.mk.inj (List.mem_singleton.mp hmem)
      exact .inr (.inr ⟨_, Registry.mem_register.mpr (.inr ⟨rfl, rfl⟩), rfl⟩)

/-- A removal is booked as `left` or as `cut`. -/
theorem Booked.remove (hb : s.Booked ledger) {id : ClientId} {h : ClientHandle}
    (hmem : (id, h) ∈ s.registry.clients) (hregistry : s'.registry = s.registry.remove id)
    (hjoined : ledger'.joined = ledger.joined)
    (hbooked : ledger'.left = ledger.left ++ [id] ∧ ledger'.cut = ledger.cut ∨
      ledger'.left = ledger.left ∧ ledger'.cut = ledger.cut ++ [(id, h.sock)]) :
    s'.Booked ledger' := by
  obtain ⟨hid, hnotleft, hnotcut⟩ := hb.entry id h hmem
  have hleft (i : ClientId) : i ∈ ledger'.left → i ∈ ledger.left ∨ i = id := by
    rcases hbooked with ⟨hl, -⟩ | ⟨hl, -⟩ <;> rw [hl]
    · exact fun hi => (List.mem_append.mp hi).imp_right List.mem_singleton.mp
    · exact .inl
  constructor
  · rw [hjoined, hregistry]
    exact hb.joined_lt
  · rw [hjoined]
    exact hb.unique
  · intro i hi
    rw [hregistry]
    rcases hleft i hi with hi | rfl
    · exact hb.left_lt i hi
    · exact hb.joined_lt i _ hid
  · intro i k hcut
    rw [hjoined]
    rcases hbooked with ⟨hl, hc⟩ | ⟨hl, hc⟩
    · rw [hc] at hcut
      refine ⟨(hb.cut i k hcut).1, fun hi => ?_⟩
      rcases hleft i hi with hi | rfl
      · exact (hb.cut i k hcut).2 hi
      · exact hnotcut k hcut
    · rw [hc] at hcut
      rw [hl]
      rcases List.mem_append.mp hcut with hcut | hcut
      · exact hb.cut i k hcut
      · obtain ⟨rfl, rfl⟩ := Prod.mk.inj (List.mem_singleton.mp hcut)
        exact ⟨hid, hnotleft⟩
  · intro i h₁ hmem₁
    rw [hregistry] at hmem₁
    obtain ⟨hmem₁, hne⟩ := Registry.mem_remove.mp hmem₁
    obtain ⟨hi, hnl, hnc⟩ := hb.entry i h₁ hmem₁
    rw [hjoined]
    refine ⟨hi, fun hl => (hleft i hl).elim hnl hne, fun k hcut => ?_⟩
    rcases hbooked with ⟨-, hc⟩ | ⟨-, hc⟩
    · exact hnc k (hc ▸ hcut)
    · rw [hc] at hcut
      rcases List.mem_append.mp hcut with hcut | hcut
      · exact hnc k hcut
      · exact hne (Prod.mk.inj (List.mem_singleton.mp hcut)).1
  · intro i k hi
    rw [hjoined] at hi
    rw [hregistry]
    rcases hb.gone i k hi with hl | hcut | ⟨h₁, hmem₁, rfl⟩
    · refine .inl ?_
      rcases hbooked with ⟨hl', -⟩ | ⟨hl', -⟩ <;> simp [hl', hl]
    · refine .inr (.inl ?_)
      rcases hbooked with ⟨-, hc⟩ | ⟨-, hc⟩ <;> simp [hc, hcut]
    · by_cases hne : i = id
      · subst hne
        obtain rfl := Registry.handle_unique hmem hmem₁
        rcases hbooked with ⟨hl', -⟩ | ⟨-, hc⟩
        · exact .inl (by simp [hl'])
        · exact .inr (.inl (by simp [hc]))
      · exact .inr (.inr ⟨h₁, Registry.mem_remove.mpr ⟨hmem₁, hne⟩, rfl⟩)

theorem Roster.booked (hb : s.Booked ledger) (h : Roster s l s') :
    s'.Booked (s.enter ledger l) := by
  cases h with
  | register hregistry hscan hwedged => exact hb.register hregistry
  | @unregister k id s' hmyId hregistry hscan hwedged =>
      simp only [enter, hmyId]
      cases hget : s.registry.get? id with
      | none =>
          have hclients : s'.registry.clients = s.registry.clients := by
            rw [hregistry, Registry.clients_remove_of_none hget]
          exact hb.of_entries (by rw [hregistry]; rfl) (fun _ _ => by rw [hclients]) rfl rfl rfl
      | some h =>
          exact hb.remove (Registry.mem_of_get? hget) hregistry rfl (.inl ⟨rfl, rfl⟩)
  | startScan hscan hlimit hwedged => exact hb.of_entries rfl (fun _ _ => Iff.rfl) rfl rfl rfl
  | offer hscan hmem hresult hregistry hscan' hlimit hlisted hwedged =>
      simp only [enter, hresult]
      refine hb.of_entries (by rw [hregistry]; rfl) (fun i k => ?_) rfl rfl rfl
      rw [hregistry]
      exact Registry.exists_sock_setHandle hmem (ClientHandle.offered_sock ..)
  | endScan hscan => exact hb.of_entries rfl (fun _ _ => Iff.rfl) rfl rfl rfl
  | @disconnect id hwedged =>
      simp only [enter, Registry.disconnectShuts]
      cases hget : s.registry.get? id with
      | none =>
          have hclients := Registry.clients_remove_of_none hget
          exact hb.of_entries rfl (fun _ _ => by rw [hclients]) rfl rfl rfl
      | some h =>
          exact hb.remove (Registry.mem_of_get? hget) rfl rfl (.inr ⟨rfl, rfl⟩)
  | keeps hclients hnextId hbufferMs hscan hwedged henter =>
      rw [henter]
      exact hb.of_entries hnextId (fun _ _ => by rw [hclients]) rfl rfl rfl

end Net

end SnapcastClient
