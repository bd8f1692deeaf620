import SnapcastClient.Verification.Delivery
import SnapcastClient.Verification.Volume

/-! # Settings first

A connection is sent settings before any reply, and none but those with the configured buffer and
no latency. -/

namespace SnapcastClient

/-- Settings with the configured buffer and no latency. -/
structure ServerSettings.Configured (bufferMs : UInt32) (st : ServerSettings) : Prop where
  bufferMs : st.bufferMs = bufferMs
  latency : st.latency = 0

/-- The reader has sent the settings of its greeting. -/
def Reader.Opened (reader : Reader) : Prop :=
  reader.Serves ∨ ∃ id tx, reader = .greeting id tx .sendCodecHeader

namespace Net

variable {json : SerdeJson} {s s' : Net} {l : Label} {k : ConnId} {tx : ChannelId}
  {service : Service} {bufferMs : UInt32} {initialVolume : UInt8}
  {p : TransitionSystem.WithHistory Net Service}

/-! ## What is issued -/

/-- Only a change of the volume changes what is stored. -/
theorem Act.currentSettings_eq (h : Act json s l s') (hl : ∀ volume, l ≠ .storeVolume volume) :
    s'.registry.currentSettings = s.registry.currentSettings := by
  cases h.effect.broadcasts with
  | stored hregistry hpending => exact absurd rfl (hl _)
  | sent hregistry hpending hlast => rw [hregistry]
  | other hsettings hpending => exact hsettings

/-- What falls due are the stored settings, or those just stored. -/
theorem settings_of_fallsDue {st : ServerSettings}
    (h : .settings st ∈ s.fallsDue k service l) (hl : ∀ volume, l ≠ .storeVolume volume) :
    st = s.registry.currentSettings := by
  cases l with
  | currentSettings j =>
      rw [fallsDue] at h
      split at h
      · simpa using h
      · cases h
  | storeVolume volume => exact absurd rfl (hl volume)
  | _ => cases h

/-- What is queued fell due before. -/
theorem Controlled.settings_mem (h : s.Controlled k tx service)
    {st : ServerSettings} (hmem : .settings st ∈ (s.channels tx).history) :
    .settings st ∈ service.controls := by
  have hcount := h (.settings st) rfl rfl
  have hpos := List.count_pos_iff.mpr hmem
  exact List.count_pos_iff.mp (by omega)

/-- The stored settings are configured, and so are those that fell due. -/
structure Configured (bufferMs : UInt32) (s : Net) (service : Service) : Prop where
  stored : s.registry.currentSettings.Configured bufferMs
  due : ∀ st, .settings st ∈ service.controls → st.Configured bufferMs

theorem Configured.step (hc : s.Configured bufferMs service) (h : Act json s l s') :
    s'.Configured bufferMs (s.attend json k service l) := by
  by_cases hl : ∃ volume, l = .storeVolume volume
  · obtain ⟨volume, rfl⟩ := hl
    cases h with
    | storeVolume =>
        have hstored : (s.registry.storeVolume volume).2.currentSettings.Configured bufferMs :=
          ⟨hc.stored.bufferMs, rfl⟩
        refine ⟨hstored, fun st hmem => ?_⟩
        rcases List.mem_append.mp hmem with hmem | hmem
        · exact hc.due st hmem
        · rw [fallsDue] at hmem
          split at hmem
          · obtain rfl := Outbound.settings.inj (List.mem_singleton.mp hmem)
            exact hstored
          · cases hmem
  · have hl' (volume : UInt8) : l ≠ .storeVolume volume := fun h => hl ⟨volume, h⟩
    refine ⟨by rw [h.currentSettings_eq hl']; exact hc.stored, fun st hmem => ?_⟩
    rcases List.mem_append.mp hmem with hmem | hmem
    · exact hc.due st hmem
    · rw [settings_of_fallsDue hmem hl']
      exact hc.stored

theorem configured_of_reach {ok : TransitionSystem.WithHistory Net Service → Label → Prop}
    (h : (attendedSystem json k bufferMs initialVolume).Reach ok p) :
    p.state.Configured bufferMs p.history := by
  refine h.invariant (I := fun p => p.state.Configured bufferMs p.history) ?_ ?_
  · rintro ⟨s, service⟩ ⟨hs, hservice⟩
    obtain rfl : s = new bufferMs initialVolume := hs
    obtain rfl : service = .empty := hservice
    exact ⟨⟨rfl, rfl⟩, by rintro st ⟨⟩⟩
  · rintro ⟨s, service⟩ l ⟨s', service'⟩ hc - ⟨hstep, hservice⟩
    obtain rfl : service' = s.attend json k service l := hservice
    exact hc.step (step_act hstep)

/-! ## What is queued first -/

/-- Settings come before any reply, and the reader has sent some once it goes on. -/
structure Opens (k : ConnId) (tx : ChannelId) (s : Net) : Prop where
  first : ∀ msgs msg, msgs ++ [msg] <+: (s.channels tx).history → msg.request?.isSome →
    ∃ st, .settings st ∈ msgs
  opened : (s.conns k).reader.Opened → ∃ st, .settings st ∈ (s.channels tx).history

/-- A message may follow in the queue unless it is a reply before any settings. -/
theorem first_append {history : List Outbound} {msg : Outbound}
    (h : ∀ msgs m, msgs ++ [m] <+: history → m.request?.isSome → ∃ st, .settings st ∈ msgs)
    (hmsg : msg.request?.isSome → ∃ st, .settings st ∈ history) (msgs : List Outbound)
    (m : Outbound) (hmsgs : msgs ++ [m] <+: history ++ [msg]) (hm : m.request?.isSome) :
    ∃ st, .settings st ∈ msgs := by
  rcases List.prefix_concat_iff.mp hmsgs with heq | hmsgs
  · obtain ⟨rfl, hlast⟩ := List.append_inj' heq rfl
    obtain rfl := List.head_eq_of_cons_eq hlast
    exact hmsg hm
  · exact h msgs m hmsgs hm

theorem opened_append {history : List Outbound} (msg : Outbound)
    (h : ∃ st, .settings st ∈ history) : ∃ st, .settings st ∈ history ++ [msg] :=
  h.imp fun _ hst => List.mem_append_left _ hst

/-- Between two sends the reader does not get past its greeting's settings. -/
theorem Move.opened {c : Conn} (h : Move json s k tx l c) (hc : c.reader.Opened) :
    (s.conns k).reader.Opened := by
  cases h with
  | read hreader hevent => exact .inl (by rw [hreader]; trivial)
  | _ => rcases hc with hc | ⟨id, t, hc⟩ <;> cases hc

theorem Turn.opens (ho : s.Opens k tx) (h : Turn json s k tx l s') : s'.Opens k tx := by
  cases h with
  | waits hconcerns hconn hchannel hwriter =>
      refine ⟨?_, ?_⟩
      · rw [hchannel]
        exact ho.first
      · rw [hconn, hchannel]
        exact ho.opened
  | moves hmove hchannel hwriter =>
      refine ⟨?_, fun hopened' => ?_⟩
      · rw [hchannel]
        exact ho.first
      · rw [hchannel]
        exact ho.opened (hmove.opened hopened')
  | sends hsends hsent hwriter =>
      generalize s'.conns k = c at hsends
      cases hsends with
      | @settings id t st hreader =>
          refine ⟨?_, fun _ => ⟨st, ?_⟩⟩
          · rw [hsent.history]
            exact first_append ho.first (by rintro ⟨⟩)
          · rw [hsent.history]
            exact List.mem_append_right _ (List.mem_singleton_self _)
      | codecHeader hreader =>
          have hopened := ho.opened (.inr ⟨_, _, hreader⟩)
          refine ⟨?_, fun _ => ?_⟩
          · rw [hsent.history]
            exact first_append ho.first (by rintro ⟨⟩)
          · rw [hsent.history]
            exact opened_append _ hopened
      | reply hreader =>
          have hopened := ho.opened (.inl (by rw [hreader]; trivial))
          refine ⟨?_, fun _ => ?_⟩
          · rw [hsent.history]
            exact first_append ho.first fun _ => hopened
          · rw [hsent.history]
            exact opened_append _ hopened
  | carries hline hconn =>
      have hsame (msg : Outbound) (hmsg : msg.request? = none)
          (h : (s'.channels tx).history = (s.channels tx).history ++ [msg]) : s'.Opens k tx := by
        refine ⟨?_, fun hopened' => ?_⟩
        · rw [h]
          exact first_append ho.first (by simp [hmsg])
        · rw [h]
          exact opened_append _ (ho.opened (hconn ▸ hopened'))
      rcases hline.history with h | ⟨st, -, h⟩ | ⟨id, now, later, ec, -, h⟩
      · exact ⟨h ▸ ho.first, fun hopened' => h ▸ ho.opened (hconn ▸ hopened')⟩
      · exact hsame _ rfl h
      · exact hsame _ rfl h

/-- The queue of a connection that has just got its channel. -/
theorem Act.opens_spawn (h : Act json s (.spawn k) s') : s'.Opens k s.created := by
  cases h with
  | spawn hreader =>
      constructor
      · intro msgs msg hmsgs
        simp [setWriter, setChannel, Channel.new, Channel.history] at hmsgs
      · rintro (hserves | ⟨id, t, hgreeting⟩)
        · simp [setWriter, setChannel, setReader, setConn, Reader.Serves] at hserves
        · simp [setWriter, setChannel, setReader, setConn] at hgreeting

theorem opens_of_reach (hjson : ∀ st, ∃ text, json.settingsToString st = .ok text)
    (h : (attendedSystem json k bufferMs initialVolume).Reach
      (fun p l => courteous json k p l = true) p) (htx : p.history.tx = some tx) :
    p.state.Opens k tx := by
  refine h.invariant_of (J := fun p => ∀ tx, p.history.tx = some tx → p.state.Opens k tx)
    (fun _ => reach_recorded hjson) ?_ ?_ tx htx
  · rintro ⟨s, service⟩ ⟨hs, hservice⟩ tx htx
    obtain rfl : service = .empty := hservice
    cases htx
  · rintro ⟨s, service⟩ l ⟨s', service'⟩ hr ho hok ⟨hstep, hservice⟩ tx htx
    obtain rfl : service' = s.attend json k service l := hservice
    have hact := step_act hstep
    by_cases hl : l = .spawn k
    · subst hl
      have hcreated : (s.attend json k service (.spawn k)).tx = some s.created := if_pos rfl
      obtain rfl := Option.some.inj (hcreated.symm.trans htx)
      exact hact.opens_spawn
    · rw [attend_tx hl] at htx
      have hwrite : l ≠ .writeFails tx := by
        rintro rfl
        simp [courteous, htx] at hok
      exact ((hr.served tx htx).attended.turn hjson hwrite hact).opens (ho tx htx)

end Net

end SnapcastClient
