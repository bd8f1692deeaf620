import SnapcastClient.Verification.FirstSettings
import SnapcastClient.Verification.Server

/-! # From the volume knob to the client

librespot counts the volume up to 65535, the protocol up to 100. A client hears no settings but
those of the volumes that librespot reported. -/

namespace SnapcastClient

theorem percent_toNat (volume : UInt16) :
    (percent volume).toNat = (volume.toNat * 100 + 32767) / 65535 := by
  have hlt := volume.toNat_lt
  simp only [percent, UInt32.toNat_toUInt8, UInt32.toNat_div, UInt32.toNat_add,
    UInt32.toNat_mul, UInt16.toNat_toUInt32, UInt32.toNat_ofNat]
  simp only [Nat.reducePow, Nat.reduceMod] at *
  have hmul : volume.toNat * 100 % 4294967296 = volume.toNat * 100 :=
    Nat.mod_eq_of_lt (by omega)
  have hadd : (volume.toNat * 100 + 32767) % 4294967296 = volume.toNat * 100 + 32767 :=
    Nat.mod_eq_of_lt (by omega)
  rw [hmul, hadd]
  exact Nat.mod_eq_of_lt (by omega)

/-- No percentage is nearer to the volume. -/
theorem percent_nearest (volume : UInt16) :
    65535 * (percent volume).toNat ≤ 100 * volume.toNat + 32767 ∧
      100 * volume.toNat ≤ 65535 * (percent volume).toNat + 32767 := by
  rw [percent_toNat]
  omega

theorem percent_le (volume : UInt16) : (percent volume).toNat ≤ 100 := by
  have hnearest := percent_nearest volume
  have hlt := volume.toNat_lt
  omega

/-! ## The settings that are issued -/

/-- Settings with the configured buffer and the first volume or a reported one. -/
structure ServerSettings.Issued (bufferMs : UInt32) (volumes : List UInt16) (st : ServerSettings) :
    Prop where
  bufferMs : st.bufferMs = bufferMs
  latency : st.latency = 0
  muted : st.muted = false
  volume : st.volume = 100 ∨ ∃ volume ∈ volumes, st.volume = percent volume

theorem ServerSettings.Issued.more {bufferMs : UInt32} {volumes : List UInt16} {st : ServerSettings}
    (h : st.Issued bufferMs volumes) (volume : UInt16) :
    st.Issued bufferMs (volumes ++ [volume]) where
  bufferMs := h.bufferMs
  latency := h.latency
  muted := h.muted
  volume := h.volume.imp_right fun ⟨v, hv, heq⟩ => ⟨v, List.mem_append_left _ hv, heq⟩

theorem ServerSettings.Issued.volume_le {bufferMs : UInt32} {volumes : List UInt16}
    {st : ServerSettings} (h : st.Issued bufferMs volumes) : st.volume.toNat ≤ 100 := by
  rcases h.volume with h | ⟨volume, -, h⟩ <;> rw [h]
  · decide
  · exact percent_le volume

/-- Settings heard were among the messages. -/
theorem Hearing.settings_mem {msgs : List Outbound} {heard : List Message} (h : Hearing msgs heard)
    {st : ServerSettings} (hmem : .serverSettings st ∈ heard) : .settings st ∈ msgs := by
  induction h with
  | nil => cases hmem
  | idle _ ih =>
      rcases List.mem_append.mp hmem with hmem | hmem
      · exact ih hmem
      · cases List.mem_singleton.mp hmem
  | next _ hheard ih =>
      rcases List.mem_append.mp hmem with hmem | hmem
      · exact List.mem_append_left _ (ih hmem)
      · obtain rfl := List.mem_singleton.mp hmem
        cases hheard
        exact List.mem_append_right _ (List.mem_singleton_self _)

namespace Server

variable {α β ρ ε σ : Type} {S : Setup α ρ ε} {json : SerdeJson} {narrow : β → α} {k : ConnId}
  {resampler : ρ} {encoder : ε} {bufferMs : UInt32} {tx : ChannelId}
  {p : TransitionSystem.WithHistory (Server S) Service} {s s' : Server S} {service : Service}
  {codecs : Codecs σ} {backend : PlayerBackend} {a : App σ} {arrivals : List Arrival}

/-- The stored settings are issued, and so are those that fell due. -/
structure Settled (bufferMs : UInt32) (s : Server S) (service : Service) : Prop where
  stored : s.net.registry.currentSettings.Issued bufferMs s.volumes
  due : ∀ st, .settings st ∈ service.controls → st.Issued bufferMs s.volumes

theorem Settled.thread (h : s.Settled bufferMs service) {m : Net.Label}
    (hm : ∀ volume, m ≠ .storeVolume volume) (hnet : s.net.step json m = some s'.net)
    (hvolumes : s'.volumes = s.volumes) :
    s'.Settled bufferMs (s.net.attend json k service m) where
  stored := by
    rw [(Net.step_act hnet).currentSettings_eq hm, hvolumes]
    exact h.stored
  due := by
    intro st hmem
    rw [hvolumes]
    rcases List.mem_append.mp hmem with hmem | hmem
    · exact h.due st hmem
    · rw [Net.settings_of_fallsDue hmem hm]
      exact h.stored

theorem Settled.volumeChanged (h : s.Settled bufferMs service) {volume : UInt16}
    (hnet : s.net.step json (.storeVolume (percent volume)) = some s'.net)
    (hvolumes : s'.volumes = s.volumes ++ [volume]) :
    s'.Settled bufferMs (s.net.attend json k service (.storeVolume (percent volume))) := by
  have hstored : (s.net.registry.storeVolume (percent volume)).2.currentSettings.Issued bufferMs
      s'.volumes := by
    rw [hvolumes]
    refine ⟨h.stored.bufferMs, rfl, rfl, .inr ⟨volume, ?_, rfl⟩⟩
    exact List.mem_append_right _ (List.mem_singleton_self _)
  constructor
  case stored =>
    generalize s'.net = net at hnet ⊢
    cases Net.step_act hnet with
    | storeVolume => exact hstored
  case due =>
    intro st hmem
    rcases List.mem_append.mp hmem with hmem | hmem
    · rw [hvolumes]
      exact (h.due st hmem).more volume
    · rw [Net.fallsDue] at hmem
      split at hmem
      · obtain rfl := Outbound.settings.inj (List.mem_singleton.mp hmem)
        exact hstored
      · cases hmem

theorem settled_of_reach {ok : TransitionSystem.WithHistory (Server S) Service → Label β → Prop}
    (h : (attendedSystem json narrow k resampler encoder bufferMs).Reach ok p) :
    p.state.Settled bufferMs p.history := by
  refine h.invariant (I := fun p => p.state.Settled bufferMs p.history) ?_ ?_
  · rintro ⟨s, service⟩ ⟨hs, hservice⟩
    obtain rfl : s = start resampler encoder bufferMs := hs
    obtain rfl : service = .empty := hservice
    exact ⟨⟨rfl, rfl, rfl, .inl rfl⟩, by rintro st ⟨⟩⟩
  · rintro ⟨s, service⟩ l ⟨s', service'⟩ hs - ⟨hstep, hservice⟩
    obtain rfl : service' = s.attend json k service l := hservice
    change s'.Settled bufferMs (s.attend json k service l)
    have hact := step_act hstep
    cases hact with
    | call hidle hsink => exact ⟨hs.stored, hs.due⟩
    | broadcast hreturned hb hnet =>
        rw [attend, netLabel?, if_pos hreturned, next?, hb]
        exact hs.thread (by rintro volume ⟨⟩) hnet rfl
    | volumeChanged hpending hnet =>
        rw [attend, netLabel?, if_pos hpending]
        exact hs.volumeChanged hnet rfl
    | thread hbegins hnet =>
        rw [attend, netLabel?, if_neg (by rw [hbegins]; exact Bool.false_ne_true)]
        refine hs.thread ?_ hnet rfl
        rintro volume rfl
        cases hbegins

/-- Every settings that a client hears have the configured buffer, no latency, and the volume of
the start or a percentage that librespot reported. -/
theorem settings_heard (hjson : json.SettingsLaws) (hfills : S.Fills)
    (h : (attendedSystem json narrow k resampler encoder bufferMs).Reach
      (fun p l => courteous json k p l = true) p)
    (htx : p.history.tx = some tx) (harrivals : Aligned (p.state.net.units tx) arrivals)
    (ha : (App.system json codecs backend (.new arrivals)).Reachable a) (inSync : Bool)
    (st : ServerSettings) (hmem : (inSync, .serverSettings st) ∈ a.heard) :
    st.Issued bufferMs p.state.volumes ∧ st.volume.toNat ≤ 100 := by
  obtain ⟨msgs, hmsgs, hheard⟩ := App.hears_queue (p := ⟨p.state.net, p.history⟩) hjson
    (net_of_reach hfills h) htx harrivals ha
  have hmsg := hheard.settings_mem (List.mem_map.mpr ⟨_, hmem, rfl⟩)
  have hqueued := (hmsgs.trans (Channel.taken_prefix_history _)).mem hmsg
  have hdue := ((recorded_of_reach hjson hfills h).served tx htx).controlled.settings_mem hqueued
  have hissued := (settled_of_reach h).due st hdue
  exact ⟨hissued, hissued.volume_le⟩

theorem settings_heard_sample :
    ∃ (p : TransitionSystem.WithHistory (Server Pipeline.through) Service) (a : App Unit),
      (true, .serverSettings ⟨1000, 0, false, 50⟩) ∈ a.heard ∧
        ServerSettings.Issued 1000 p.state.volumes ⟨1000, 0, false, 50⟩ := by
  obtain ⟨p, a, hp, htx, ha, -, -, -, hheard⟩ := exists_sample
  exact ⟨p, a, hheard, (settings_heard SerdeJson.compact_settingsLaws through_fills hp htx
    (.at_once _) ha _ _ hheard).1⟩

end Server

end SnapcastClient
