import SnapcastClient.Model.SerdeJson
import SnapcastClient.Verification.Net

/-! # Volume updates

A client's last settings are the stored ones once everything was sent, as long as no greeting
queues settings that a newer call has already sent out. -/

namespace SnapcastClient

/-- The last settings among some messages. -/
def lastSettings (msgs : List Outbound) : Option ServerSettings :=
  (msgs.filterMap Outbound.settings?).getLast?

@[simp] theorem lastSettings_append_settings (msgs : List Outbound) (st : ServerSettings) :
    lastSettings (msgs ++ [.settings st]) = some st := by
  simp [lastSettings, Outbound.settings?]

theorem lastSettings_append {msgs : List Outbound} {msg : Outbound} (h : msg.settings? = none) :
    lastSettings (msgs ++ [msg]) = lastSettings msgs := by
  simp [lastSettings, h]

namespace Net

variable {json : SerdeJson} {s s' : Net} {l : Label} {k : ConnId}

/-- The calls of `broadcast_settings` are issued one after another. -/
def issuedInTurn (s : Net) : Label → Bool
  | .storeVolume _ => s.pending = []
  | _ => true

/-- A greeting queues the stored settings, unless the running call still has to send to that
client. -/
def greetsUpToDate (tx : ChannelId) (s : Net) : Label → Bool
  | .send k =>
      match (s.conns k).reader with
      | .greeting _ tx' (.sendSettings st) => tx' = tx → (s.channels tx).Open →
          st = s.registry.currentSettings ∨ ∃ p ∈ s.pending, p.1 = tx
      | _ => true
  | _ => true

/-- The greeting of a client has not queued its settings yet. -/
def Early (tx : ChannelId) (s : Net) (id : ClientId) (k : ConnId) : Prop :=
  (s.conns k).reader = .greeting id tx .currentSettings ∨
    ∃ st, (s.conns k).reader = .greeting id tx (.sendSettings st)

/-- The stored settings are still to be sent on a channel, or are the last queued there. -/
def Served (tx : ChannelId) (s : Net) : Prop :=
  (∃ p ∈ s.pending, p.1 = tx) ∨ ((s.channels tx).connected = true →
    lastSettings (s.channels tx).history = some s.registry.currentSettings)

/-- All that is still to be sent is what is stored, and a client is served from its greeting
on. -/
structure UpToDate (tx : ChannelId) (s : Net) : Prop where
  pending : ∀ p ∈ s.pending, p.2 = s.registry.currentSettings
  entry : ∀ id h, (id, h) ∈ s.registry.clients → h.tx = tx →
    s.Early tx id h.sock ∨ s.Served tx

/-- How a step changes what is stored and what is still to be sent. -/
inductive Broadcasts (s : Net) : Label → Net → Prop where
  | stored {volume : UInt8} {s' : Net} :
      s'.registry = (s.registry.storeVolume volume).2 →
      s'.pending = s.pending ++ (s.registry.storeVolume volume).1 →
      Broadcasts s (.storeVolume volume) s'
  | sent {tx : ChannelId} {st : ServerSettings} {s' : Net} :
      s'.registry = s.registry → s'.pending = s.pending.erase (tx, st) →
      ((s'.channels tx).connected = true →
        lastSettings (s'.channels tx).history = some st) →
      Broadcasts s (.sendSettings tx st) s'
  | other {l : Label} {s' : Net} :
      s'.registry.currentSettings = s.registry.currentSettings → s'.pending = s.pending →
      Broadcasts s l s'

theorem Effect.broadcasts (h : Effect s l s') : Broadcasts s l s' := by
  cases h with
  | storeVolume => exact .stored rfl rfl
  | settingsSent hmem hsent =>
      refine .sent rfl rfl fun _ => ?_
      simp [setChannel, hsent.history]
  | settingsDropped hconnected =>
      refine .sent rfl rfl fun h => ?_
      exact absurd (hconnected.symm.trans h) Bool.false_ne_true
  | chunkSent hget hsent hshrinks hsettings => exact .other hsettings rfl
  | scans hshrinks hsettings => exact .other hsettings rfl
  | _ => exact .other rfl rfl

variable {tx : ChannelId}

theorem Effect.pending_settings (hu : s.UpToDate tx) (hturn : s.issuedInTurn l = true)
    (h : Effect s l s') : ∀ p ∈ s'.pending, p.2 = s'.registry.currentSettings := by
  intro p hp
  cases h.broadcasts with
  | stored hregistry hpending =>
      have hnil : s.pending = [] := by simpa [issuedInTurn] using hturn
      rw [hpending, hnil, List.nil_append] at hp
      obtain ⟨q, -, rfl⟩ := List.mem_map.mp hp
      rw [hregistry]
      rfl
  | sent hregistry hpending hlast =>
      rw [hregistry]
      exact hu.pending p (List.mem_of_mem_erase (hpending ▸ hp))
  | other hsettings hpending =>
      rw [hsettings]
      exact hu.pending p (hpending ▸ hp)

theorem Effect.served_of_pending (hu : s.UpToDate tx) (h : Effect s l s')
    (hp : ∃ p ∈ s.pending, p.1 = tx) : s'.Served tx := by
  obtain ⟨p, hp, rfl⟩ := hp
  cases h.broadcasts with
  | stored hregistry hpending =>
      exact .inl ⟨p, by rw [hpending]; exact List.mem_append_left _ hp, rfl⟩
  | @sent tx' st s' hregistry hpending hlast =>
      by_cases heq : p = (tx', st)
      · subst heq
        refine .inr fun hconnected => ?_
        rw [hlast hconnected, hregistry]
        exact congrArg some (hu.pending _ hp)
      · exact .inl ⟨p, by rw [hpending]; exact (List.mem_erase_of_ne heq).mpr hp, rfl⟩
  | other hsettings hpending => exact .inl ⟨p, hpending ▸ hp, rfl⟩

/-- A new call has every client's settings to send. -/
theorem served_of_stored {volume : UInt8} {id : ClientId} {handle : ClientHandle}
    (hmem : (id, handle) ∈ s.registry.clients) (htx : handle.tx = tx)
    (hpending : s'.pending = s.pending ++ (s.registry.storeVolume volume).1) : s'.Served tx := by
  have hsend : ∃ p ∈ s'.pending, p.1 = handle.tx := by
    rw [hpending]
    exact ⟨_, List.mem_append_right _ (List.mem_map_of_mem hmem), rfl⟩
  exact .inl (htx ▸ hsend)

/-- A greeting whose settings are queued serves its client. -/
theorem served_of_greeting {id : ClientId} {st : ServerSettings}
    (hok : s.greetsUpToDate tx (.send k) = true)
    (hreader : (s.conns k).reader = .greeting id tx (.sendSettings st))
    (hsent : (s.channels tx).Sent (.settings st) (s'.channels tx))
    (hsettings : s'.registry.currentSettings = s.registry.currentSettings)
    (hpending : s'.pending = s.pending) : s'.Served tx := by
  have hfresh : st = s.registry.currentSettings ∨ ∃ p ∈ s.pending, p.1 = tx := by
    simpa [greetsUpToDate, hreader, hsent.room] using hok
  rcases hfresh with rfl | ⟨p, hp, hptx⟩
  · refine .inr fun _ => ?_
    rw [hsent.history, lastSettings_append_settings, hsettings]
  · exact .inl ⟨p, hpending ▸ hp, hptx⟩

/-- Whatever is queued after the stored settings, they stay the last ones. -/
theorem Effect.served_of_last (hw : s.Wired) (hu : s.UpToDate tx)
    (hok : s.greetsUpToDate tx l = true) (h : Effect s l s') {id : ClientId}
    {handle : ClientHandle} (hmem : (id, handle) ∈ s.registry.clients) (htx : handle.tx = tx)
    (hlast : (s.channels tx).connected = true →
      lastSettings (s.channels tx).history = some s.registry.currentSettings) :
    s'.Served tx := by
  have hgrows := h.grows (htx ▸ hw.entry id handle hmem)
  obtain hfront | ⟨msg, hqueues, hsent⟩ := h.queues tx
  · have hsame (hsettings : s'.registry.currentSettings = s.registry.currentSettings) :
        s'.Served tx := by
      refine .inr fun hconnected => ?_
      obtain ⟨hconnected₀, hfront'⟩ := hgrows hconnected
      rw [hfront.eq_of_length (Nat.le_antisymm hfront.length_le hfront'.length_le), hsettings]
      exact hlast hconnected₀
    cases h.broadcasts with
    | stored hregistry hpending => exact served_of_stored hmem htx hpending
    | sent hregistry hpending hnew => exact hsame (by rw [hregistry])
    | other hsettings hpending => exact hsame hsettings
  · have hother (hmsg : msg.settings? = none)
        (hsettings : s'.registry.currentSettings = s.registry.currentSettings) :
        s'.Served tx := by
      refine .inr fun _ => ?_
      rw [hsent.history, lastSettings_append hmsg, hsettings]
      exact hlast hsent.room.1
    cases hqueues with
    | reader hsends =>
        cases h.broadcasts with
        | other hsettings hpending =>
            cases hsends with
            | settings hreader => exact served_of_greeting hok hreader hsent hsettings hpending
            | codecHeader hreader => exact hother rfl hsettings
            | reply hreader => exact hother rfl hsettings
    | settings hsend => exact h.served_of_pending hu ⟨_, hsend, rfl⟩
    | chunk hget =>
        cases h.broadcasts with
        | other hsettings hpending => exact hother rfl hsettings

theorem Effect.served_of_early (hw : s.Wired) (hok : s.greetsUpToDate tx l = true)
    (h : Effect s l s') {id : ClientId} (hearly : s.Early tx id k) :
    s'.Early tx id k ∨ s'.Served tx := by
  have hgone (hgone : (s'.channels tx).connected = false) : s'.Served tx :=
    .inr fun hconnected => absurd (hgone.symm.trans hconnected) Bool.false_ne_true
  rcases hearly with hreader | ⟨st, hreader⟩
  · cases h.progress hw hreader with
    | waits hwaits => exact .inl (.inl hwaits)
    | current hcurrent => exact .inl (.inr ⟨_, hcurrent⟩)
    | gaveUp hdisconnected => exact .inr (hgone hdisconnected)
  · cases h.progress hw hreader with
    | waits hwaits => exact .inl (.inr ⟨st, hwaits⟩)
    | settings hlabel hregistry hpending hnext hsent =>
        subst hlabel
        exact .inr (served_of_greeting hok hreader hsent (by rw [hregistry]) hpending)
    | gaveUp hdisconnected => exact .inr (hgone hdisconnected)

theorem Effect.upToDate (hw : s.Wired) (hu : s.UpToDate tx)
    (hok : (s.issuedInTurn l && s.greetsUpToDate tx l) = true) (h : Effect s l s') :
    s'.UpToDate tx := by
  obtain ⟨hturn, hok⟩ := Bool.and_eq_true_iff.mp hok
  refine ⟨h.pending_settings hu hturn, ?_⟩
  intro id handle hmem htx
  obtain ⟨h₀, hmem₀, htx₀, hsock⟩ | hnew := h.of_entry hmem
  · rw [htx₀] at htx
    rw [hsock]
    rcases hu.entry id h₀ hmem₀ htx with hearly | hpending | hlast
    · exact h.served_of_early hw hok hearly
    · exact .inr (h.served_of_pending hu hpending)
    · exact .inr (h.served_of_last hw hu hok hmem₀ htx hlast)
  · exact .inl (.inl (htx ▸ hnew))

/-! ## Whole runs -/

variable {bufferMs : UInt32} {initialVolume : UInt8}

theorem reach_upToDate
    (h : (system json bufferMs initialVolume).Reach
      (fun s l => (s.issuedInTurn l && s.greetsUpToDate tx l) = true) s) : s.UpToDate tx := by
  refine h.invariant_of (fun _ => reach_wired) ?_ ?_
  · rintro s rfl
    refine ⟨?_, ?_⟩
    · intro p hp
      cases hp
    · intro id h hmem
      cases hmem
  · intro s l s' hw hu hok hstep
    exact (step_effect hstep).upToDate hw hu hok

/-- In every run whose calls of `broadcast_settings` come one after another, a client whose
greeting queued settings that were up to date has the stored ones as its last once no call
runs, its greeting is over and its writer has taken everything. -/
theorem last_settings {id : ClientId} {handle : ClientHandle}
    (h : (system json bufferMs initialVolume).Reach
      (fun s l => (s.issuedInTurn l && s.greetsUpToDate handle.tx l) = true) s)
    (hidle : s.pending = []) (hmem : (id, handle) ∈ s.registry.clients)
    (hgreeted : (s.conns handle.sock).reader.greets ≠ some id)
    (hdrained : (s.channels handle.tx).Drained) :
    lastSettings (s.channels handle.tx).taken = some s.registry.currentSettings := by
  rcases (reach_upToDate h).entry id handle hmem rfl with hearly | ⟨p, hp, -⟩ | hlast
  · rcases hearly with hreader | ⟨st, hreader⟩ <;> exact absurd (by rw [hreader]; rfl) hgreeted
  · rw [hidle] at hp
    cases hp
  · rw [← Channel.history_of_queue_eq_nil hdrained.2]
    exact hlast hdrained.1

/-- A greeted client is sent a newer volume. -/
theorem last_settings_stored :
    ∃ s : Net, s.registry.volume = 80 ∧
      lastSettings (s.channels 0).taken = some s.registry.currentSettings := by
  obtain ⟨s, hs, hP⟩ := exists_reach_of_run
    (reach_helloed 1000 50 (fun s l => s.issuedInTurn l && s.greetsUpToDate 0 l) (fun _ => rfl)
      fun _ _ => rfl)
    (greetLabels 0 ++ [.storeVolume 80, .sendSettings 0 ⟨1000, 0, false, 80⟩, .recv 0, .write 0 0,
      .recv 0, .write 0 0, .recv 0])
    (fun s => s.registry.volume = 80 ∧ s.pending = [] ∧
      s.registry.get? 0 = some ⟨0, 0, none, 0⟩ ∧ (s.conns 0).reader.greets ≠ some 0 ∧
      (s.channels 0).Drained) (by decide +kernel)
  obtain ⟨hvolume, hidle, hget, hgreeted, hdrained⟩ := of_decide_eq_true hP
  exact ⟨s, hvolume, last_settings hs hidle (Registry.mem_of_get? hget) hgreeted hdrained⟩

/-- A greeting that read the volume before it changed queues it after the new one. -/
theorem last_settings_overtaken :
    ¬ ∀ (s : Net) (id : ClientId) (handle : ClientHandle),
      (system .compact 1000 50).Reach (fun s l => s.issuedInTurn l = true) s →
      s.pending = [] → (id, handle) ∈ s.registry.clients →
      (s.conns handle.sock).reader.greets ≠ some id → (s.channels handle.tx).Drained →
      lastSettings (s.channels handle.tx).taken = some s.registry.currentSettings := by
  intro hall
  obtain ⟨s, hs, hP⟩ := exists_reach_of_run
    (reach_helloed 1000 50 issuedInTurn (fun _ => rfl) fun _ _ => rfl)
    [.spawn 0, .register 0, .currentSettings 0, .storeVolume 80,
      .sendSettings 0 ⟨1000, 0, false, 80⟩, .send 0, .send 0, .recv 0, .write 0 0, .recv 0,
      .write 0 0, .recv 0]
    (fun s => s.pending = [] ∧ s.registry.get? 0 = some ⟨0, 0, none, 0⟩ ∧
      (s.conns 0).reader.greets ≠ some 0 ∧ (s.channels 0).Drained ∧
      lastSettings (s.channels 0).taken ≠ some s.registry.currentSettings) (by decide +kernel)
  obtain ⟨hidle, hget, hgreeted, hdrained, hlast⟩ := of_decide_eq_true hP
  exact hlast (hall s 0 _ hs hidle (Registry.mem_of_get? hget) hgreeted hdrained)

end Net

end SnapcastClient
