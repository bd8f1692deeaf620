import SnapcastClient.Library.Streak
import SnapcastClient.Verification.Ledger

/-! # Which clients a broadcast cuts off -/

namespace SnapcastClient

/-! ## The verdict on a client -/

namespace Offer

variable {offers : List Offer} {o : Offer} {limit t : ℤ}

/-- The queue was found full. -/
def Full (o : Offer) : Prop :=
  o.result = .full

/-- All the broadcasts since `t`, and the one at `t`, found the queue full, and the one before
did not. -/
def FullSince (t : ℤ) (offers : List Offer) : Prop :=
  ∃ o, Streak.Since Full offers o ∧ o.now = t

/-- The last broadcast found the receiver gone, or it found the queue full like every one
since one that is longer ago than the limit. -/
def CutsOff (limit : ℤ) (offers : List Offer) : Prop :=
  ∃ front o, offers = front ++ [o] ∧ (o.result = .disconnected ∨
    ∃ before first rest, offers = before ++ first :: rest ∧
      (∀ q ∈ first :: rest, q.Full) ∧ limit < o.later - first.now)

/-- Some broadcast cuts the client off. -/
def Condemned (limit : ℤ) (offers : List Offer) : Prop :=
  ∃ front, front <+: offers ∧ CutsOff limit front

theorem not_fullSince_nil : ¬ FullSince t [] := by
  rintro ⟨o, h, -⟩
  exact Streak.not_since_nil h

theorem not_fullSince_concat (ho : ¬ o.Full) : ¬ FullSince t (offers ++ [o]) := by
  rintro ⟨first, h, -⟩
  exact Streak.not_since_concat ho h

theorem fullSince_concat_iff (ho : o.Full) :
    FullSince t (offers ++ [o]) ↔
      FullSince t offers ∨ o.now = t ∧ ¬ ∃ t, FullSince t offers := by
  have hnone : (¬ ∃ t, FullSince t offers) ↔ ∀ q ∈ offers.getLast?, ¬ q.Full := by
    have hexists : (∃ t, FullSince t offers) ↔ ∃ first, Streak.Since Full offers first := by
      constructor
      · rintro ⟨t, first, h, -⟩
        exact ⟨first, h⟩
      · rintro ⟨first, h⟩
        exact ⟨first.now, first, h, rfl⟩
    rw [hexists, Streak.exists_since_iff]
    simp
  rw [hnone]
  simp only [FullSince, Streak.since_concat_iff ho]
  constructor
  · rintro ⟨first, hsince | ⟨rfl, hlast⟩, hnow⟩
    · exact .inl ⟨first, hsince, hnow⟩
    · exact .inr ⟨hnow, hlast⟩
  · rintro (⟨first, hsince, hnow⟩ | ⟨hnow, hlast⟩)
    · exact ⟨first, .inl hsince, hnow⟩
    · exact ⟨o, .inr ⟨rfl, hlast⟩, hnow⟩

theorem not_condemned_nil : ¬ Condemned limit [] := by
  rintro ⟨front, hfront, front', o, rfl, -⟩
  simp at hfront

theorem Condemned.append (h : Condemned limit offers) (o : Offer) :
    Condemned limit (offers ++ [o]) := by
  obtain ⟨front, hfront, hcuts⟩ := h
  exact ⟨front, hfront.trans (List.prefix_append _ _), hcuts⟩

theorem condemned_concat_iff :
    Condemned limit (offers ++ [o]) ↔ Condemned limit offers ∨ CutsOff limit (offers ++ [o]) := by
  constructor
  · rintro ⟨front, hfront, hcuts⟩
    rcases List.prefix_concat_iff.mp hfront with rfl | hfront
    · exact .inr hcuts
    · exact .inl ⟨front, hfront, hcuts⟩
  · rintro (h | h)
    · exact h.append o
    · exact ⟨_, List.prefix_rfl, h⟩

theorem condemned_of_disconnected (ho : o ∈ offers) (hresult : o.result = .disconnected) :
    Condemned limit offers := by
  obtain ⟨front, rest, rfl⟩ := List.append_of_mem ho
  exact ⟨front ++ [o], ⟨rest, by simp⟩, front, o, rfl, .inl hresult⟩

/-- The age of a full queue decides. -/
theorem cutsOff_concat_iff (hsorted : (offers ++ [o]).Pairwise fun p q => p.now ≤ q.now)
    (ho : o.Full) (ht : FullSince t (offers ++ [o])) :
    CutsOff limit (offers ++ [o]) ↔ limit < o.later - t := by
  obtain ⟨first, hsince, rfl⟩ := ht
  constructor
  · rintro ⟨front, o', heq, hcut⟩
    obtain ⟨rfl, ho'⟩ := List.append_inj' heq rfl
    obtain rfl := List.singleton_inj.mp ho'
    rcases hcut with hresult | ⟨before, first', rest, hsplit, hall, hlimit⟩
    · rw [Full, hresult] at ho
      cases ho
    · have hle : first.now ≤ first'.now := hsince.rel hsorted le_rfl hsplit hall
      omega
  · intro hlimit
    obtain ⟨before, rest, hsplit, hall, -⟩ := hsince
    exact ⟨offers, o, rfl, .inr ⟨before, first, rest, hsplit, hall, hlimit⟩⟩

/-- A chunk that was sent cuts nobody off. -/
theorem not_cutsOff_of_sent (ho : o.result = .sent) : ¬ CutsOff limit (offers ++ [o]) := by
  rintro ⟨front, o', heq, hcut⟩
  obtain ⟨rfl, ho'⟩ := List.append_inj' heq rfl
  obtain rfl := List.singleton_inj.mp ho'
  rcases hcut with hresult | ⟨before, first, rest, hsplit, hall, -⟩
  · rw [ho] at hresult
    cases hresult
  · have hlast : (offers ++ [o]).getLast? = (before ++ first :: rest).getLast? := by rw [hsplit]
    rw [List.getLast?_concat, List.getLast?_append_cons] at hlast
    have hfull := hall o (List.mem_of_getLast? hlast.symm)
    rw [Full, ho] at hfull
    cases hfull

end Offer

namespace ClientHandle

variable {h : ClientHandle} {offers : List Offer} {limit now later : ℤ} {result : SendResult}

open Offer

/-- A handle dates its full queue by the offers. -/
def Dated (h : ClientHandle) (offers : List Offer) : Prop :=
  ∀ t, h.fullSince = some t ↔ FullSince t offers

theorem Dated.offered (hd : h.Dated offers) (hresult : result ≠ .disconnected) :
    (h.offered limit now later result).1.Dated (offers ++ [⟨now, later, result⟩]) := by
  intro t
  cases result with
  | sent =>
      have hnot : ¬ Full ⟨now, later, .sent⟩ := by simp [Full]
      exact iff_of_false (by simp [ClientHandle.offered]) (not_fullSince_concat hnot)
  | full =>
      have hfull : Full ⟨now, later, .full⟩ := rfl
      rw [fullSince_concat_iff hfull, ClientHandle.offered]
      simp only [← hd _, Option.some.injEq]
      cases h.fullSince with
      | none => simp
      | some since => simp
  | disconnected => exact absurd rfl hresult

theorem Dated.offered_wedged_iff (hd : h.Dated offers)
    (hsorted : List.Pairwise (fun p q : Offer => p.now ≤ q.now)
      (offers ++ [⟨now, later, result⟩])) :
    (h.offered limit now later result).2 = true ↔
      CutsOff limit (offers ++ [⟨now, later, result⟩]) := by
  cases result with
  | sent => exact iff_of_false (by simp [ClientHandle.offered]) (not_cutsOff_of_sent rfl)
  | full =>
      have hdated : (h.offered limit now later .full).1.Dated (offers ++ [⟨now, later, .full⟩]) :=
        hd.offered (by simp)
      rw [cutsOff_concat_iff hsorted rfl ((hdated (h.fullSince.getD now)).mp rfl)]
      exact decide_eq_true_iff
  | disconnected => exact iff_of_true rfl ⟨offers, _, rfl, .inl rfl⟩

end ClientHandle

namespace Net

variable {s s' : Net} {l : Label} {ledger ledger' : Ledger}

/-! ## Broadcasts judge by the offers -/

/-- Offers are dated in order, and only registered clients get any. -/
structure Sequenced (s : Net) (ledger : Ledger) : Prop where
  fresh : ∀ id, s.registry.nextId ≤ id → ledger.offers id = []
  read : ∀ id, ∀ o ∈ ledger.offers id, o.now ≤ o.later
  sorted : ∀ id, (ledger.offers id).Pairwise fun p q => p.now ≤ q.now

/-- A running broadcast is going to disconnect the client. -/
def Listed (s : Net) (id : ClientId) : Prop :=
  id ∈ s.wedged ∨ ∃ scan ∈ s.scan, id ∈ scan.wedged

/-- The age beyond which a full queue counts as wedged: two buffers, in nanoseconds. -/
def wedgeAge (bufferMs : UInt32) : ℤ :=
  2 * bufferMs.toNat * 1000000

/-- What the broadcasts have decided so far. -/
structure Judged (bufferMs : UInt32) (s : Net) (ledger : Ledger) : Prop where
  buffer : s.registry.bufferMs = bufferMs
  limit : ∀ scan ∈ s.scan, scan.limit = wedgeAge bufferMs
  cut : ∀ id k, (id, k) ∈ ledger.cut → Offer.Condemned (wedgeAge bufferMs) (ledger.offers id)
  listed : ∀ id, s.Listed id → Offer.Condemned (wedgeAge bufferMs) (ledger.offers id)
  condemned : ∀ id h, (id, h) ∈ s.registry.clients →
    Offer.Condemned (wedgeAge bufferMs) (ledger.offers id) → s.Listed id
  dated : ∀ id h, (id, h) ∈ s.registry.clients →
    (∀ o ∈ ledger.offers id, o.result ≠ .disconnected) → h.Dated (ledger.offers id)

/-- What an offer adds to the books. -/
theorem enter_offer (ledger : Ledger) {id : ClientId} {result : SendResult}
    (hresult : s.offerResult? id = some result) (now later : ℤ) (i : ClientId) :
    (s.enter ledger (.offer id now later)).offers i =
      if i = id then ledger.offers i ++ [⟨now, later, result⟩] else ledger.offers i := by
  simp only [enter, hresult]
  by_cases hi : i = id
  · subst hi
    rw [Function.update_self, if_pos rfl]
  · rw [Function.update_of_ne hi, if_neg hi]

/-- Every other step leaves the offers alone. -/
theorem Roster.offers (ledger : Ledger) (h : Roster s l s') :
    (∃ id now later, l = .offer id now later) ∨ (s.enter ledger l).offers = ledger.offers := by
  cases h with
  | offer => exact .inl ⟨_, _, _, rfl⟩
  | unregister hmyId =>
      refine .inr ?_
      simp only [enter, hmyId]
      split <;> rfl
  | disconnect =>
      refine .inr ?_
      simp only [enter]
      split <;> rfl
  | keeps hclients hnextId hbufferMs hscan hwedged henter => exact .inr (by rw [henter])
  | _ => exact .inr rfl

theorem Roster.nextId_le (h : Roster s l s') : s.registry.nextId ≤ s'.registry.nextId := by
  cases h with
  | register hregistry => exact hregistry ▸ Nat.le_succ _
  | unregister hmyId hregistry => exact hregistry ▸ le_rfl
  | offer hscan hmem hresult hregistry => exact hregistry ▸ le_rfl
  | keeps hclients hnextId => exact hnextId.ge
  | _ => exact le_rfl

theorem Roster.sequenced (hb : s.Booked ledger) (hq : s.Sequenced ledger)
    (hok : timely ⟨s, ledger⟩ l = true) (h : Roster s l s') : s'.Sequenced (s.enter ledger l) := by
  rcases h.offers ledger with ⟨id, now, later, rfl⟩ | hoffers
  · cases h with
    | offer hscan hmem hresult hregistry =>
        obtain ⟨hnow, hclock⟩ := of_decide_eq_true hok
        have hjoined := (hb.entry _ _ hmem).1
        have hlt := s.registry.fresh _ hmem
        constructor
        · intro i hi
          rw [hregistry] at hi
          have hne : i ≠ _ := (hlt.trans_le hi).ne'
          rw [enter_offer ledger hresult, if_neg hne]
          exact hq.fresh i hi
        · intro i o ho
          rw [enter_offer ledger hresult] at ho
          split at ho
          · rcases List.mem_append.mp ho with ho | ho
            · exact hq.read i o ho
            · obtain rfl := List.mem_singleton.mp ho
              exact hnow
          · exact hq.read i o ho
        · intro i
          rw [enter_offer ledger hresult]
          split
          · rename_i hi
            subst hi
            refine List.pairwise_append.mpr ⟨hq.sorted i, List.pairwise_singleton .., ?_⟩
            intro o ho o' ho'
            obtain rfl := List.mem_singleton.mp ho'
            exact (hq.read i o ho).trans (hclock _ hjoined o ho)
          · exact hq.sorted i
    | keeps hclients hnextId hbufferMs hscan hwedged henter =>
        rw [henter]
        exact ⟨fun i hi => hq.fresh i (hnextId ▸ hi), hq.read, hq.sorted⟩
  · refine ⟨fun i hi => ?_, ?_, ?_⟩
    · rw [hoffers]
      exact hq.fresh i (h.nextId_le.trans hi)
    · rw [hoffers]
      exact hq.read
    · rw [hoffers]
      exact hq.sorted

theorem wedgeLimit_eq_some {r : Registry} {limit : ℤ} (h : r.wedgeLimit = some limit) :
    limit = wedgeAge r.bufferMs := by
  obtain ⟨-, h⟩ := Option.ite_none_right_eq_some.mp h
  rw [← Option.some.inj h, wedgeAge, Int.mul_comm (r.bufferMs.toNat : ℤ) 2]

variable {bufferMs : UInt32}

/-- A step that offers nothing and admits nobody decides nothing. -/
theorem Judged.frame (hj : s.Judged bufferMs ledger)
    (hbuffer : s'.registry.bufferMs = s.registry.bufferMs)
    (hlimit : ∀ scan ∈ s'.scan, scan.limit = wedgeAge bufferMs)
    (hclients : ∀ id h, (id, h) ∈ s'.registry.clients → (id, h) ∈ s.registry.clients)
    (hoffers : ledger'.offers = ledger.offers)
    (hlisted : ∀ id, s'.Listed id → s.Listed id)
    (hlisted' : ∀ id h, (id, h) ∈ s'.registry.clients → s.Listed id → s'.Listed id)
    (hcut : ∀ id k, (id, k) ∈ ledger'.cut → (id, k) ∈ ledger.cut ∨ s.Listed id) :
    s'.Judged bufferMs ledger' where
  buffer := hbuffer.trans hj.buffer
  limit := hlimit
  cut := by
    intro id k hmem
    rw [hoffers]
    exact (hcut id k hmem).elim (hj.cut id k) (hj.listed id)
  listed := by
    intro id hid
    rw [hoffers]
    exact hj.listed id (hlisted id hid)
  condemned := by
    intro id h hmem hcondemned
    rw [hoffers] at hcondemned
    exact hlisted' id h hmem (hj.condemned id h (hclients id h hmem) hcondemned)
  dated := by
    intro id h hmem
    rw [hoffers]
    exact hj.dated id h (hclients id h hmem)

theorem listed_congr (hscan : s'.scan = s.scan) (hwedged : s'.wedged = s.wedged) (id : ClientId) :
    s'.Listed id ↔ s.Listed id := by
  rw [Listed, Listed, hscan, hwedged]

theorem Judged.register (hj : s.Judged bufferMs ledger) (hq : s.Sequenced ledger) {k : ConnId}
    {tx : ChannelId} (hregistry : s'.registry = (s.registry.register tx k).2)
    (hscan : s'.scan = s.scan) (hwedged : s'.wedged = s.wedged)
    (hoffers : ledger'.offers = ledger.offers) (hcut : ledger'.cut = ledger.cut) :
    s'.Judged bufferMs ledger' where
  buffer := by
    rw [hregistry]
    exact hj.buffer
  limit := by
    rw [hscan]
    exact hj.limit
  cut := by
    rw [hcut, hoffers]
    exact hj.cut
  listed := by
    intro id hid
    rw [hoffers]
    exact hj.listed id ((listed_congr hscan hwedged id).mp hid)
  condemned := by
    intro id h hmem hcondemned
    rw [hoffers] at hcondemned
    rw [hregistry] at hmem
    rcases Registry.mem_register.mp hmem with hmem | ⟨rfl, -⟩
    · exact (listed_congr hscan hwedged id).mpr (hj.condemned id h hmem hcondemned)
    · rw [hq.fresh _ le_rfl] at hcondemned
      exact absurd hcondemned Offer.not_condemned_nil
  dated := by
    intro id h hmem hconnected
    rw [hoffers] at hconnected ⊢
    rw [hregistry] at hmem
    rcases Registry.mem_register.mp hmem with hmem | ⟨rfl, rfl⟩
    · exact hj.dated id h hmem hconnected
    · intro t
      rw [hq.fresh _ le_rfl]
      exact iff_of_false (by simp) Offer.not_fullSince_nil

/-- The client that is offered the chunk is judged, and nobody else. -/
theorem Judged.offer (hj : s.Judged bufferMs ledger) {id : ClientId} {now later : ℤ}
    {scan scan' : Scan} {h : ClientHandle} {result : SendResult}
    (hq' : s'.Sequenced (s.enter ledger (.offer id now later)))
    (hscan : s.scan = some scan) (hmem : (id, h) ∈ s.registry.clients)
    (hresult : s.offerResult? id = some result)
    (hregistry : s'.registry = s.registry.setHandle id (h.offered scan.limit now later result).1)
    (hscan' : s'.scan = some scan') (hlimit : scan'.limit = scan.limit)
    (hlisted : scan'.wedged = if (h.offered scan.limit now later result).2
      then scan.wedged ++ [id] else scan.wedged)
    (hwedged : s'.wedged = s.wedged) :
    s'.Judged bufferMs (s.enter ledger (.offer id now later)) := by
  have hoffers := enter_offer ledger hresult now later
  have hcut : (s.enter ledger (.offer id now later)).cut = ledger.cut := by
    simp only [enter, hresult]
  have hlimit' : scan.limit = wedgeAge bufferMs := hj.limit scan hscan
  have hlisted_iff (i : ClientId) : s'.Listed i ↔
      s.Listed i ∨ i = id ∧ (h.offered scan.limit now later result).2 = true := by
    simp only [Listed, hwedged, hscan, hscan', Option.mem_def, Option.some.injEq, exists_eq_left',
      hlisted]
    split
    · rename_i hflag
      simp [hflag, or_assoc]
    · rename_i hflag
      simp [hflag]
  have hsorted : List.Pairwise (fun p q : Offer => p.now ≤ q.now)
      (ledger.offers id ++ [⟨now, later, result⟩]) := by
    have hsorted := hq'.sorted id
    rwa [hoffers, if_pos rfl] at hsorted
  -- Unless a broadcast has found the receiver gone before, the flag is the verdict.
  have hverdict (hconnected : ∀ o ∈ ledger.offers id, o.result ≠ .disconnected) :
      (h.offered scan.limit now later result).2 = true ↔
        Offer.CutsOff (wedgeAge bufferMs) (ledger.offers id ++ [⟨now, later, result⟩]) := by
    rw [← hlimit']
    exact (hj.dated id h hmem hconnected).offered_wedged_iff hsorted
  have hkept (i : ClientId) (hi : Offer.Condemned (wedgeAge bufferMs) (ledger.offers i)) :
      Offer.Condemned (wedgeAge bufferMs) ((s.enter ledger (.offer id now later)).offers i) := by
    rw [hoffers]
    split
    · exact hi.append _
    · exact hi
  constructor
  · rw [hregistry]
    exact hj.buffer
  · intro scan₁ hscan₁
    rw [hscan'] at hscan₁
    obtain rfl := Option.some.inj hscan₁
    rw [hlimit, hlimit']
  · intro i k hi
    rw [hcut] at hi
    exact hkept i (hj.cut i k hi)
  · intro i hi
    rcases (hlisted_iff i).mp hi with hi | ⟨rfl, hflag⟩
    · exact hkept i (hj.listed i hi)
    · by_cases hconnected : ∀ o ∈ ledger.offers i, o.result ≠ .disconnected
      · rw [hoffers, if_pos rfl]
        exact Offer.condemned_concat_iff.mpr (.inr ((hverdict hconnected).mp hflag))
      · push Not at hconnected
        obtain ⟨o, ho, hgone⟩ := hconnected
        exact hkept i (Offer.condemned_of_disconnected ho hgone)
  · intro i h₁ hmem₁ hcondemned
    rw [hregistry] at hmem₁
    rw [hoffers] at hcondemned
    rcases (Registry.mem_setHandle hmem).mp hmem₁ with ⟨rfl, -⟩ | ⟨hi, hmem₁⟩
    · rw [if_pos rfl] at hcondemned
      by_cases hconnected : ∀ o ∈ ledger.offers i, o.result ≠ .disconnected
      · rcases Offer.condemned_concat_iff.mp hcondemned with hold | hcuts
        · exact (hlisted_iff i).mpr (.inl (hj.condemned i h hmem hold))
        · exact (hlisted_iff i).mpr (.inr ⟨rfl, (hverdict hconnected).mpr hcuts⟩)
      · push Not at hconnected
        obtain ⟨o, ho, hgone⟩ := hconnected
        exact (hlisted_iff i).mpr
          (.inl (hj.condemned i h hmem (Offer.condemned_of_disconnected ho hgone)))
    · rw [if_neg hi] at hcondemned
      exact (hlisted_iff i).mpr (.inl (hj.condemned i h₁ hmem₁ hcondemned))
  · intro i h₁ hmem₁ hconnected
    rw [hregistry] at hmem₁
    rw [hoffers] at hconnected ⊢
    rcases (Registry.mem_setHandle hmem).mp hmem₁ with ⟨rfl, rfl⟩ | ⟨hi, hmem₁⟩
    · rw [if_pos rfl] at hconnected ⊢
      refine (hj.dated i h hmem fun o ho => hconnected o (List.mem_append_left _ ho)).offered ?_
      exact hconnected _ (List.mem_append_right _ (List.mem_singleton_self _))
    · rw [if_neg hi] at hconnected ⊢
      exact hj.dated i h₁ hmem₁ hconnected

theorem Roster.judged (hj : s.Judged bufferMs ledger) (hq : s.Sequenced ledger)
    (hq' : s'.Sequenced (s.enter ledger l)) (h : Roster s l s') :
    s'.Judged bufferMs (s.enter ledger l) := by
  cases h with
  | register hregistry hscan hwedged => exact hj.register hq hregistry hscan hwedged rfl rfl
  | @unregister k id s' hmyId hregistry hscan hwedged =>
      have hcongr := listed_congr hscan hwedged
      have hoffers : (s.enter ledger (.leave k)).offers = ledger.offers ∧
          (s.enter ledger (.leave k)).cut = ledger.cut := by
        simp only [enter, hmyId]
        split <;> exact ⟨rfl, rfl⟩
      refine hj.frame (by rw [hregistry]; rfl) (hscan ▸ hj.limit) ?_ hoffers.1
        (fun i => (hcongr i).mp) (fun i _ _ => (hcongr i).mpr) (fun i j h => .inl (hoffers.2 ▸ h))
      intro i h hmem
      rw [hregistry] at hmem
      exact (Registry.mem_remove.mp hmem).1
  | @startScan chunk scan hscan hlimit hwedged =>
      refine hj.frame rfl ?_ (fun _ _ => id) rfl ?_ ?_ (fun _ _ => .inl)
      · intro scan' hscan'
        obtain rfl := Option.some.inj hscan'
        rw [wedgeLimit_eq_some hlimit, hj.buffer]
      · rintro i (hi | ⟨scan', hscan', hi⟩)
        · exact .inl hi
        · obtain rfl := Option.some.inj hscan'
          rw [hwedged] at hi
          cases hi
      · rintro i h - (hi | ⟨scan', hscan', -⟩)
        · exact .inl hi
        · rw [hscan] at hscan'
          cases hscan'
  | offer hscan hmem hresult hregistry hscan' hlimit hlisted hwedged =>
      exact hj.offer hq' hscan hmem hresult hregistry hscan' hlimit hlisted hwedged
  | @endScan scan hscan =>
      refine hj.frame rfl (fun _ h => by cases h) (fun _ _ => id) rfl ?_ ?_ (fun _ _ => .inl)
      · rintro i (hi | ⟨scan', hscan', -⟩)
        · rcases List.mem_append.mp hi with hi | hi
          · exact .inl hi
          · exact .inr ⟨scan, hscan, hi⟩
        · cases hscan'
      · rintro i h - (hi | ⟨scan', hscan', hi⟩)
        · exact .inl (List.mem_append_left _ hi)
        · rw [hscan] at hscan'
          obtain rfl := Option.some.inj hscan'
          exact .inl (List.mem_append_right _ hi)
  | @disconnect id hwedged =>
      refine hj.frame rfl hj.limit (fun _ _ hmem => (Registry.mem_remove.mp hmem).1) ?_ ?_ ?_ ?_
      · simp only [enter]
        split <;> rfl
      · exact fun i => Or.imp_left List.mem_of_mem_erase
      · intro i h hmem
        exact Or.imp_left (List.mem_erase_of_ne (Registry.mem_remove.mp hmem).2).mpr
      · intro i k hmem
        simp only [enter] at hmem
        split at hmem
        · rcases List.mem_append.mp hmem with hmem | hmem
          · exact .inl hmem
          · obtain ⟨rfl, -⟩ := Prod.mk.inj (List.mem_singleton.mp hmem)
            exact .inr (.inl hwedged)
        · exact .inl hmem
  | keeps hclients hnextId hbufferMs hscan hwedged henter =>
      have hcongr := listed_congr hscan hwedged
      rw [henter]
      exact hj.frame hbufferMs (hscan ▸ hj.limit) (fun _ _ h => hclients ▸ h) rfl
        (fun i => (hcongr i).mp) (fun i _ _ => (hcongr i).mpr) (fun _ _ => .inl)

/-! ## Whole runs -/

variable {json : SerdeJson} {initialVolume : UInt8} {p : TransitionSystem.WithHistory Net Ledger}

theorem reach_judged
    (h : (bookedSystem json bufferMs initialVolume).Reach (fun p l => timely p l = true) p) :
    p.state.Booked p.history ∧ p.state.Sequenced p.history ∧
      p.state.Judged bufferMs p.history := by
  refine h.invariant
    (I := fun p => p.state.Booked p.history ∧ p.state.Sequenced p.history ∧
      p.state.Judged bufferMs p.history) ?_ ?_
  · rintro ⟨s, ledger⟩ ⟨hs, hledger⟩
    obtain rfl : s = new bufferMs initialVolume := hs
    obtain rfl : ledger = .empty := hledger
    refine ⟨?_, ?_, ?_⟩
    · constructor <;> simp [new, Registry.new, Ledger.empty]
    · constructor <;> simp [Ledger.empty]
    · constructor <;> simp [new, Registry.new, Ledger.empty, Listed]
  · rintro ⟨s, ledger⟩ l ⟨s', ledger'⟩ ⟨hb, hq, hj⟩ hok ⟨hstep, hledger⟩
    obtain rfl : ledger' = s.enter ledger l := hledger
    have hroster := step_roster hstep
    have hq' := hroster.sequenced hb hq hok
    exact ⟨hroster.booked hb, hq', hroster.judged hj hq hq'⟩

/-- No broadcast is running. -/
def Idle (s : Net) : Prop :=
  s.scan = none ∧ s.wedged = []

instance (s : Net) : Decidable s.Idle :=
  inferInstanceAs (Decidable (_ ∧ _))

theorem Idle.not_listed (h : s.Idle) (id : ClientId) : ¬ s.Listed id := by
  rintro (hmem | ⟨scan, hscan, -⟩)
  · rw [h.2] at hmem
    cases hmem
  · rw [h.1] at hscan
    cases hscan

/-- The clients of a run and the broadcasts: a full queue is dated by the streak of full
offers, clients vanish by leaving or by being cut off, those cut off were condemned by a
broadcast, and a condemned client that has not left is cut off once no broadcast is running. -/
structure Culls (bufferMs : UInt32) (s : Net) (ledger : Ledger) : Prop where
  fullSince : ∀ id h, (id, h) ∈ s.registry.clients →
    (s.Idle ∨ ∀ o ∈ ledger.offers id, o.result ≠ .disconnected) →
    ∀ t, h.fullSince = some t ↔ Offer.FullSince t (ledger.offers id)
  joined : ∀ id k k', (id, k) ∈ ledger.joined → (id, k') ∈ ledger.joined → k = k'
  registered_iff : ∀ id k, (id, k) ∈ ledger.joined →
    ((∃ h, (id, h) ∈ s.registry.clients) ↔ (id, k) ∉ ledger.cut ∧ id ∉ ledger.left)
  cut : ∀ id k, (id, k) ∈ ledger.cut → (id, k) ∈ ledger.joined ∧ id ∉ ledger.left ∧
    Offer.Condemned (wedgeAge bufferMs) (ledger.offers id)
  condemned : ∀ id k, (id, k) ∈ ledger.joined →
    Offer.Condemned (wedgeAge bufferMs) (ledger.offers id) →
      (id, k) ∈ ledger.cut ∨ id ∈ ledger.left ∨ s.Listed id
  idle_cut_iff : s.Idle → ∀ id k, (id, k) ∈ ledger.joined →
    ((id, k) ∈ ledger.cut ↔
      Offer.Condemned (wedgeAge bufferMs) (ledger.offers id) ∧ id ∉ ledger.left)

theorem Judged.connected (hj : s.Judged bufferMs ledger) (hidle : s.Idle) {id : ClientId}
    {h : ClientHandle} (hmem : (id, h) ∈ s.registry.clients) :
    ∀ o ∈ ledger.offers id, o.result ≠ .disconnected := by
  intro o ho hgone
  exact hidle.not_listed id (hj.condemned id h hmem (Offer.condemned_of_disconnected ho hgone))

/-- In every run whose broadcasts read the clock at nondecreasing times, wedged clients and
only those are taken out. -/
theorem reach_culls
    (h : (bookedSystem json bufferMs initialVolume).Reach (fun p l => timely p l = true) p) :
    p.state.Culls bufferMs p.history := by
  obtain ⟨hb, -, hj⟩ := reach_judged h
  have hcut (id : ClientId) (k : ConnId) (hmem : (id, k) ∈ p.history.cut) :
      (id, k) ∈ p.history.joined ∧ id ∉ p.history.left ∧
        Offer.Condemned (wedgeAge bufferMs) (p.history.offers id) :=
    ⟨(hb.cut id k hmem).1, (hb.cut id k hmem).2, hj.cut id k hmem⟩
  have hcondemned (id : ClientId) (k : ConnId) (hmem : (id, k) ∈ p.history.joined)
      (hid : Offer.Condemned (wedgeAge bufferMs) (p.history.offers id)) :
      (id, k) ∈ p.history.cut ∨ id ∈ p.history.left ∨ p.state.Listed id := by
    rcases hb.gone id k hmem with hleft | hcut | ⟨handle, hmem, -⟩
    · exact .inr (.inl hleft)
    · exact .inl hcut
    · exact .inr (.inr (hj.condemned id handle hmem hid))
  refine ⟨?_, hb.unique, ?_, hcut, hcondemned, ?_⟩
  · rintro id handle hmem (hidle | hconnected)
    · exact hj.dated id handle hmem (hj.connected hidle hmem)
    · exact hj.dated id handle hmem hconnected
  · intro id k hmem
    constructor
    · rintro ⟨handle, hregistered⟩
      obtain ⟨-, hleft, hnotcut⟩ := hb.entry id handle hregistered
      exact ⟨hnotcut k, hleft⟩
    · rintro ⟨hnotcut, hleft⟩
      rcases hb.gone id k hmem with h | h | ⟨handle, hregistered, -⟩
      · exact absurd h hleft
      · exact absurd h hnotcut
      · exact ⟨handle, hregistered⟩
  · intro hidle id k hmem
    refine ⟨fun hid => ⟨(hcut id k hid).2.2, (hcut id k hid).2.1⟩, ?_⟩
    rintro ⟨hid, hleft⟩
    rcases hcondemned id k hmem hid with h | h | h
    · exact h
    · exact absurd h hleft
    · exact absurd h (hidle.not_listed id)

/-! ## Sockets -/

/-- A connection registers only while it has no entry. -/
def registersAlone (s : Net) : Label → Bool
  | .register k => s.entries k = []
  | _ => true

/-- No two clients hold one socket. -/
def Apart (s : Net) : Prop :=
  ∀ id h id' h', (id, h) ∈ s.registry.clients → (id', h') ∈ s.registry.clients →
    h.sock = h'.sock → id = id'

/-- Clients stay apart while nobody is admitted and nobody changes sockets. -/
theorem Apart.of_entries (ha : s.Apart)
    (hentries : ∀ id h', (id, h') ∈ s'.registry.clients →
      ∃ h, (id, h) ∈ s.registry.clients ∧ h.sock = h'.sock) : s'.Apart := by
  intro id h id' h' hmem hmem' hsock
  obtain ⟨h₀, hmem₀, hsock₀⟩ := hentries id h hmem
  obtain ⟨h₁, hmem₁, hsock₁⟩ := hentries id' h' hmem'
  exact ha id h₀ id' h₁ hmem₀ hmem₁ (by rw [hsock₀, hsock, hsock₁])

theorem Apart.register (ha : s.Apart) {k : ConnId} {tx : ChannelId}
    (hempty : s.entries k = []) (hregistry : s'.registry = (s.registry.register tx k).2) :
    s'.Apart := by
  have hnone (id : ClientId) (h : ClientHandle) (hmem : (id, h) ∈ s.registry.clients) :
      h.sock ≠ k := by
    intro hk
    have hentry := mem_entries.mpr ⟨hmem, hk⟩
    rw [hempty] at hentry
    cases hentry
  intro id h id' h' hmem hmem' hsock
  rw [hregistry] at hmem hmem'
  rcases Registry.mem_register.mp hmem with hmem | ⟨rfl, rfl⟩ <;>
    rcases Registry.mem_register.mp hmem' with hmem' | ⟨rfl, rfl⟩
  · exact ha id h id' h' hmem hmem' hsock
  · exact absurd hsock (hnone id h hmem)
  · exact absurd hsock.symm (hnone id' h' hmem')
  · rfl

theorem Roster.apart (ha : s.Apart) (hok : s.registersAlone l = true) (h : Roster s l s') :
    s'.Apart := by
  cases h with
  | register hregistry => exact ha.register (of_decide_eq_true hok) hregistry
  | unregister hmyId hregistry =>
      refine ha.of_entries fun id h hmem => ?_
      rw [hregistry] at hmem
      exact ⟨h, (Registry.mem_remove.mp hmem).1, rfl⟩
  | offer hscan hmem hresult hregistry =>
      refine ha.of_entries fun id h' hmem' => ?_
      rw [hregistry] at hmem'
      exact (Registry.exists_sock_setHandle hmem (ClientHandle.offered_sock ..)).mp
        ⟨h', hmem', rfl⟩
  | disconnect => exact ha.of_entries fun id h hmem => ⟨h, (Registry.mem_remove.mp hmem).1, rfl⟩
  | keeps hclients => exact ha.of_entries fun id h hmem => ⟨h, hclients ▸ hmem, rfl⟩
  | _ => exact ha

/-- The clients whose sockets were shut down are those cut off. -/
def Spares (ledger : Ledger) : Prop :=
  ∀ id, id ∈ ledger.shut ↔ ∃ k, (id, k) ∈ ledger.cut

/-- A disconnect shuts down the socket of the client it takes out. -/
theorem Apart.spares (ha : s.Apart) (hs : Spares ledger) {id : ClientId} :
    Spares (s.enter ledger (.disconnect id)) := by
  simp only [enter, Registry.disconnectShuts]
  cases hget : s.registry.get? id with
  | none => exact hs
  | some h =>
      have hmem : (id, h) ∈ s.registry.clients := Registry.mem_of_get? hget
      intro i
      have hstruck : i ∈ (s.entries h.sock).map Prod.fst ↔ i = id := by
        constructor
        · intro hi
          obtain ⟨⟨j, h'⟩, hentry, rfl⟩ := List.mem_map.mp hi
          obtain ⟨hmem', hsock⟩ := mem_entries.mp hentry
          exact ha j h' id h hmem' hmem hsock
        · rintro rfl
          exact List.mem_map.mpr ⟨_, mem_entries.mpr ⟨hmem, rfl⟩, rfl⟩
      simp only [Option.map_some, List.mem_append, hs i, hstruck, List.mem_singleton, exists_or,
        Prod.mk.injEq, exists_and_left, exists_eq, and_true]

/-- Every other step shuts nobody down. -/
theorem Roster.spares (ha : s.Apart) (hs : Spares ledger) (h : Roster s l s') :
    Spares (s.enter ledger l) := by
  cases h with
  | unregister hmyId =>
      simp only [enter, hmyId]
      split <;> exact hs
  | offer hscan hmem hresult =>
      simp only [enter, hresult]
      exact hs
  | disconnect => exact ha.spares hs
  | keeps hclients hnextId hbufferMs hscan hwedged henter =>
      rw [henter]
      exact hs
  | _ => exact hs

/-- Wedged clients and only those are taken out, and their sockets and only those are shut
down. -/
structure CutsWedged (bufferMs : UInt32) (s : Net) (ledger : Ledger) : Prop
    extends s.Culls bufferMs ledger where
  shut_iff : ∀ id, id ∈ ledger.shut ↔ ∃ k, (id, k) ∈ ledger.cut

/-- In every run whose broadcasts read the clock at nondecreasing times, and in which a
connection registers only while it has no entry, wedged clients and only those are cut off. -/
theorem broadcast_cuts
    (h : (bookedSystem json bufferMs initialVolume).Reach
      (fun p l => timely p l = true ∧ p.state.registersAlone l = true) p) :
    p.state.CutsWedged bufferMs p.history := by
  have hapart : p.state.Apart ∧ Spares p.history := by
    refine h.invariant (I := fun p => p.state.Apart ∧ Spares p.history) ?_ ?_
    · rintro ⟨s, ledger⟩ ⟨hs, hledger⟩
      obtain rfl : s = new bufferMs initialVolume := hs
      obtain rfl : ledger = .empty := hledger
      refine ⟨?_, fun id => by simp [Ledger.empty]⟩
      rintro id h id' h' hmem
      cases hmem
    · rintro ⟨s, ledger⟩ l ⟨s', ledger'⟩ ⟨ha, hs⟩ hok ⟨hstep, hledger⟩
      obtain rfl : ledger' = s.enter ledger l := hledger
      have hroster := step_roster hstep
      exact ⟨hroster.apart ha hok.2, hroster.spares ha hs⟩
  exact ⟨reach_culls (h.mono fun _ _ hok => hok.1), hapart.2⟩

/-- A broadcast to the first client at some time. -/
def broadcastLabels (now : ℤ) : List Label :=
  [.startScan ⟨.zero, []⟩, .offer 0 now now, .endScan]

/-- What a run reaches from a connection that sent its greeting, and has no entry in the books
yet. -/
theorem exists_booked_of_run (bufferMs : UInt32) (initialVolume : UInt8)
    (ok : TransitionSystem.WithHistory Net Ledger → Label → Bool)
    (haccept : ∀ p, ok p .accept = true) (hread : ∀ p k bytes, ok p (.read k bytes 0) = true)
    (labels : List Label) (P : TransitionSystem.WithHistory Net Ledger → Bool)
    (h : (TransitionSystem.run (TransitionSystem.stepWithHistory (step .compact) enter) ok labels
      ⟨helloed bufferMs initialVolume, .empty⟩).any P = true) :
    ∃ p, (bookedSystem .compact bufferMs initialVolume).Reach (fun p l => ok p l = true) p ∧
      P p = true := by
  let greets (_ : Net) (l : Label) : Bool :=
    match l with
    | .accept => true
    | .read _ _ now => now = 0
    | _ => false
  have hnew : (bookedSystem .compact bufferMs initialVolume).Reach (fun p l => ok p l = true)
      ⟨new bufferMs initialVolume, .empty⟩ := .init ⟨rfl, rfl⟩
  have hreach : (bookedSystem .compact bufferMs initialVolume).Reach (fun p l => ok p l = true)
      ⟨helloed bufferMs initialVolume, .empty⟩ := by
    refine TransitionSystem.reach_of_silent_run greets hnew ?_
      (run_helloed bufferMs initialVolume greets (fun _ => rfl) fun _ _ => rfl)
    intro p l hl
    cases l with
    | accept => exact ⟨haccept p, rfl⟩
    | read k bytes now =>
        obtain rfl : now = 0 := of_decide_eq_true hl
        exact ⟨hread p k bytes, rfl⟩
    | _ => cases hl
  obtain ⟨p, hp, hP⟩ := (Option.any_eq_true _ _).mp h
  rw [bookedSystem, system, TransitionSystem.withHistory_ofStep] at hreach ⊢
  exact ⟨p, TransitionSystem.reach_of_run hreach hp, hP⟩

/-- A greeted connection whose writer never runs is cut off by the first broadcast that finds
its queue full for more than two buffers, and one that registers before the disconnect is
spared. -/
theorem broadcast_cuts_stalled :
    ∃ p : TransitionSystem.WithHistory Net Ledger, p.state.Idle ∧ p.history.cut = [(0, 0)] ∧
      p.state.registry.clients.map Prod.fst = [1] ∧ p.state.CutsWedged 1000 p.history := by
  obtain ⟨p, hp, hP⟩ := exists_booked_of_run 1000 50
    (fun p l => timely p l && p.state.registersAlone l) (fun _ => rfl) (fun _ _ _ => rfl)
    (greetLabels 0 ++ (List.replicate 15 (broadcastLabels 0)).flatten ++
      broadcastLabels 3000000000 ++ .accept :: helloLabels 1 .sample ++ greetLabels 1 ++
      [.disconnect 0])
    (fun p => p.state.Idle ∧ p.history.cut = [(0, 0)] ∧
      p.state.registry.clients.map Prod.fst = [1]) (by decide +kernel)
  obtain ⟨hidle, hcut, hclients⟩ := of_decide_eq_true hP
  exact ⟨p, hidle, hcut, hclients, broadcast_cuts (hp.mono fun _ _ => (Bool.and_eq_true _ _).mp)⟩

/-- A connection that greets twice has two clients on its socket, and the one whose queue is
never full loses it with the other. -/
theorem broadcast_cuts_greeted_twice :
    ¬ ∀ p : TransitionSystem.WithHistory Net Ledger,
      (bookedSystem .compact 1000 50).Reach (fun p l => timely p l = true) p →
        p.state.CutsWedged 1000 p.history := by
  intro hall
  obtain ⟨p, hp, hP⟩ := exists_booked_of_run 1000 50 timely (fun _ => rfl) (fun _ _ _ => rfl)
    (greetLabels 0 ++ (List.replicate 15 (broadcastLabels 0)).flatten ++ helloLabels 0 .sample ++
      greetLabels 0 ++ [.startScan ⟨.zero, []⟩, .offer 0 3000000000 3000000000,
        .offer 1 3000000000 3000000000, .endScan, .disconnect 0])
    (fun p => p.history.cut = [(0, 0)] ∧ 1 ∈ p.history.shut) (by decide +kernel)
  obtain ⟨hcut, hshut⟩ := of_decide_eq_true hP
  obtain ⟨k, hk⟩ := ((hall p hp).shut_iff 1).mp hshut
  rw [hcut] at hk
  simp at hk

end Net

end SnapcastClient
