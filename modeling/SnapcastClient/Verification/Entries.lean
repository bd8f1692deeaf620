import SnapcastClient.Model.SerdeJson
import SnapcastClient.Verification.Net

/-! # Registry entries and their connections

A connection has one entry while it is served and none once its reader returned, as long as
it registers once at a time and no greeting is given up while its entry is there. -/

namespace SnapcastClient

namespace Net

variable {json : SerdeJson} {s s' : Net} {l : Label} {k : ConnId}

/-- The registry entries of a connection. -/
def entries (s : Net) (k : ConnId) : List (ClientId × ClientHandle) :=
  s.registry.clients.filter (·.2.sock = k)

theorem mem_entries {id : ClientId} {h : ClientHandle} :
    (id, h) ∈ s.entries k ↔ (id, h) ∈ s.registry.clients ∧ h.sock = k := by
  simp [entries]

/-- A connection registers only while it has no entry, and a send of its greeting fails only
when its entry is gone. -/
def registersOnce (k : ConnId) (s : Net) : Label → Bool
  | .register j => j = k → s.entries k = []
  | .send j =>
      match (s.conns k).reader with
      | .greeting id tx _ => j = k → (s.channels tx).connected = true ∨ s.registry.get? id = none
      | _ => true
  | _ => true

/-- The reader that will unregister an id: it is greeting that client, or remembers it. -/
def Owns (c : Conn) (id : ClientId) : Prop :=
  c.reader.greets = some id ∨
    c.reader.greets = none ∧ c.reader ≠ .stopped ∧ c.myId = some id

theorem Owns.unique {c : Conn} {id id' : ClientId} (h : Owns c id) (h' : Owns c id') :
    id = id' := by
  rcases h with h | ⟨hnone, -, h⟩ <;> rcases h' with h' | ⟨hnone', -, h'⟩
  · exact Option.some.inj (h.symm.trans h')
  · rw [hnone'] at h
    cases h
  · rw [hnone] at h'
    cases h'
  · exact Option.some.inj (h.symm.trans h')

theorem not_owns_of_stopped {c : Conn} {id : ClientId} (h : c.reader = .stopped) :
    ¬ Owns c id := by
  rintro (hgreets | ⟨-, hne, -⟩)
  · rw [h] at hgreets
    cases hgreets
  · exact hne h

/-- Every entry of a connection has its reader to take it out. -/
def Owned (k : ConnId) (s : Net) : Prop :=
  ∀ id h, (id, h) ∈ s.registry.clients → h.sock = k → Owns (s.conns k) id

/-- Entries stay owned while their reader does not move. -/
theorem Owned.of_shrinks (ho : s.Owned k) (hregistry : s.registry.Shrinks s'.registry)
    (hconn : s'.conns k = s.conns k) : s'.Owned k := by
  intro id h hmem hk
  obtain ⟨h₀, hmem₀, -, hsock⟩ := hregistry.entry id h hmem
  rw [hconn]
  exact ho id h₀ hmem₀ (hsock ▸ hk)

/-- Entries stay owned when their reader keeps, or loses for good, what it owns. -/
theorem Owned.setConn (ho : s.Owned k) {j : ConnId} {c : Conn}
    (hregistry : s.registry.Shrinks s'.registry) (hconns : s'.conns = Function.update s.conns j c)
    (howns : j = k → ∀ id h, (id, h) ∈ s'.registry.clients → h.sock = k → Owns (s.conns k) id →
      Owns c id) : s'.Owned k := by
  by_cases hj : j = k
  · intro id h hmem hk
    obtain ⟨h₀, hmem₀, -, hsock⟩ := hregistry.entry id h hmem
    rw [hconns, hj, Function.update_self]
    exact howns hj id h hmem hk (ho id h₀ hmem₀ (hsock ▸ hk))
  · exact ho.of_shrinks hregistry (by rw [hconns, Function.update_of_ne (Ne.symm hj)])

/-- Outside greetings a reader owns the id it remembers. -/
theorem Owns.of_greets_eq_none {c c' : Conn} {id : ClientId} (h : Owns c id)
    (hgreets : c.reader.greets = none) (hgreets' : c'.reader.greets = none)
    (hreader : c'.reader ≠ .stopped) (hmyId : c'.myId = c.myId) : Owns c' id := by
  rcases h with h | ⟨-, -, h⟩
  · rw [hgreets] at h
    cases h
  · exact .inr ⟨hgreets', hreader, hmyId ▸ h⟩

theorem Owns.of_greets {c c' : Conn} {id id' : ClientId} (h : Owns c id)
    (hgreets : c.reader.greets = some id') (h' : Owns c' id') : Owns c' id := by
  rwa [h.unique (.inl hgreets)]

theorem Owned.register (ho : s.Owned k) {j : ConnId} {tx : ChannelId}
    (hempty : j = k → s.entries k = []) :
    ({ s with registry := (s.registry.register tx j).2 }.setReader j
      (.greeting s.registry.nextId tx .currentSettings)).Owned k := by
  intro id h hmem hk
  rcases Registry.mem_register.mp hmem with hold | ⟨rfl, rfl⟩
  · have hj : k ≠ j := by
      rintro rfl
      have hmem := mem_entries.mpr ⟨hold, hk⟩
      rw [hempty rfl] at hmem
      cases hmem
    have hown := ho id h hold hk
    simpa [setReader, Net.setConn, hj] using hown
  · obtain rfl : j = k := hk
    exact .inl (by simp [setReader, Net.setConn, Reader.greets])

theorem Effect.owned (hw : s.Wired) (ho : s.Owned k) (hok : s.registersOnce k l = true)
    (h : Effect s l s') : s'.Owned k := by
  have hrefl := Registry.Shrinks.refl s.registry
  cases h with
  | accept =>
      refine ho.setConn hrefl rfl ?_
      rintro rfl id h hmem hk hown
      exact absurd hown (not_owns_of_stopped (hw.absent _ le_rfl))
  | goesOn hbetween hbetween' hnot =>
      refine ho.setConn hrefl rfl ?_
      rintro rfl id h hmem hk hown
      exact hown.of_greets_eq_none hbetween.greets_eq_none hbetween'.greets_eq_none
        hbetween'.ne_stopped rfl
  | spawn hreader =>
      refine ho.setConn hrefl rfl ?_
      rintro rfl id h hmem hk hown
      exact hown.of_greets_eq_none (by rw [hreader]; rfl) rfl (by simp) rfl
  | register hreader => exact ho.register (of_decide_eq_true hok)
  | currentSettings hreader =>
      refine ho.setConn hrefl rfl ?_
      rintro rfl id h hmem hk hown
      exact hown.of_greets (by rw [hreader]; rfl) (.inl rfl)
  | sent hsends hsent =>
      refine ho.setConn hrefl rfl ?_
      rintro rfl id h hmem hk hown
      cases hsends with
      | settings hreader => exact hown.of_greets (by rw [hreader]; rfl) (.inl rfl)
      | codecHeader hreader =>
          exact hown.of_greets (by rw [hreader]; rfl) (.inr ⟨rfl, by simp, rfl⟩)
      | reply hreader => exact hown.of_greets_eq_none (by rw [hreader]; rfl) rfl (by simp) rfl
  | @sendFails j tx msg next hsends hconnected =>
      refine ho.setConn hrefl rfl ?_
      rintro rfl id h hmem hk hown
      -- a greeting is given up only once its entry is gone
      have hgone (id' : ClientId) (stage : Greeting)
          (hreader : (s.conns j).reader = .greeting id' tx stage) : False := by
        obtain rfl := hown.unique (.inl (by rw [hreader]; rfl))
        have hnone : s.registry.get? id = none := by
          simpa [registersOnce, hreader, hconnected] using hok
        have hget : s.registry.get? id = some h := Registry.get?_eq_some_iff.mpr hmem
        rw [hget] at hnone
        cases hnone
      cases hsends with
      | settings hreader => exact (hgone _ _ hreader).elim
      | codecHeader hreader => exact (hgone _ _ hreader).elim
      | reply hreader => exact hown.of_greets_eq_none (by rw [hreader]; rfl) rfl (by simp) rfl
  | unregister hreader hmyId =>
      refine ho.setConn (s.registry.shrinks_remove _) rfl ?_
      rintro rfl id h hmem hk hown
      have hown' := hown.unique (.inr ⟨by rw [hreader]; rfl, by simp [hreader], hmyId⟩)
      exact absurd hown' (Registry.mem_remove.mp hmem).2
  | leave hreader hmyId =>
      refine ho.setConn hrefl rfl ?_
      rintro rfl id h hmem hk (hgreets | ⟨-, -, hown⟩)
      · rw [hreader] at hgreets
        cases hgreets
      · rw [hmyId] at hown
        cases hown
  | chunkSent hget hsent hshrinks hsettings => exact ho.of_shrinks hshrinks rfl
  | scans hshrinks hsettings => exact ho.of_shrinks hshrinks rfl
  | _ => exact ho

/-! ## Whole runs -/

variable {bufferMs : UInt32} {initialVolume : UInt8}

theorem reach_owned
    (h : (system json bufferMs initialVolume).Reach (fun s l => s.registersOnce k l = true) s) :
    s.Owned k := by
  refine h.invariant_of (fun _ => reach_wired) ?_ ?_
  · rintro s rfl id h hmem
    cases hmem
  · intro s l s' hw ho hok hstep
    exact (step_effect hstep).owned hw ho hok

/-- A connection whose entries are owned has at most one. -/
theorem Owned.length_entries_le (ho : s.Owned k) : (s.entries k).length ≤ 1 := by
  have hnodup : (s.entries k).Nodup :=
    (List.Nodup.of_map _ s.registry.nodup).sublist List.filter_sublist
  by_contra hlen
  obtain ⟨⟨id, h⟩, ⟨id', h'⟩, rest, hentries⟩ :
      ∃ p q rest, s.entries k = p :: q :: rest := by
    match hentries : s.entries k with
    | [] => simp [hentries] at hlen
    | [_] => simp [hentries] at hlen
    | p :: q :: rest => exact ⟨p, q, rest, rfl⟩
  obtain ⟨hmem, hk⟩ := mem_entries.mp (show (id, h) ∈ s.entries k by simp [hentries])
  obtain ⟨hmem', hk'⟩ := mem_entries.mp (show (id', h') ∈ s.entries k by simp [hentries])
  obtain rfl := (ho id h hmem hk).unique (ho id' h' hmem' hk')
  obtain rfl := Registry.handle_unique hmem hmem'
  simp [hentries] at hnodup

/-- In every run in which a connection registers only while it has no entry, and gives up no
greeting whose entry is there, it has at most one entry, and none once its reader returned. -/
theorem registry_entries
    (h : (system json bufferMs initialVolume).Reach (fun s l => s.registersOnce k l = true) s) :
    (s.entries k).length ≤ 1 ∧ ((s.conns k).reader = .stopped → s.entries k = []) := by
  have ho := reach_owned h
  refine ⟨ho.length_entries_le, fun hstopped => ?_⟩
  rw [List.eq_nil_iff_forall_not_mem]
  rintro ⟨id, h⟩ hmem
  obtain ⟨hmem, hk⟩ := mem_entries.mp hmem
  exact not_owns_of_stopped hstopped (ho id h hmem hk)

/-- A greeted connection that closes leaves nothing behind. -/
theorem registry_entries_closed :
    ∃ s : Net, (s.conns 0).myId = some 0 ∧ (s.conns 0).reader = .stopped ∧
      (s.entries 0).length ≤ 1 ∧ ((s.conns 0).reader = .stopped → s.entries 0 = []) := by
  obtain ⟨s, hs, hP⟩ := exists_reach_of_run
    (reach_helloed 1000 50 (registersOnce 0) (fun _ => rfl) fun _ _ => rfl)
    (greetLabels 0 ++ [.readFails 0, .leave 0])
    (fun s => (s.conns 0).myId = some 0 ∧ (s.conns 0).reader = .stopped) (by decide +kernel)
  obtain ⟨hid, hstopped⟩ := of_decide_eq_true hP
  exact ⟨s, hid, hstopped, registry_entries hs⟩

/-- A second greeting on a connection registers it again, and the entry its reader forgot
stays when it returns. -/
theorem registry_entries_greeted_twice :
    ¬ ∀ (s : Net) (k : ConnId), (system .compact 1000 50).Reachable s →
      (s.entries k).length ≤ 1 ∧ ((s.conns k).reader = .stopped → s.entries k = []) := by
  intro hall
  obtain ⟨s, hs, hP⟩ := exists_reach_of_run
    (reach_helloed 1000 50 (fun _ _ => true) (fun _ => rfl) fun _ _ => rfl)
    (greetLabels 0 ++ helloLabels 0 .sample ++ greetLabels 0 ++ [.readFails 0, .leave 0])
    (fun s => (s.conns 0).reader = .stopped ∧ s.entries 0 ≠ []) (by decide +kernel)
  obtain ⟨hstopped, hentries⟩ := of_decide_eq_true hP
  exact hentries ((hall s 0 hs.reachable).2 hstopped)

end Net

end SnapcastClient
