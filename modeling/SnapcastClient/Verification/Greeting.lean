import SnapcastClient.Model.SerdeJson
import SnapcastClient.Verification.Net

/-! # The order of a greeting

A client's queue receives its settings, then the codec header, then chunks, as long as no
chunk is queued for a client whose greeting is not complete. -/

namespace SnapcastClient

/-- Settings come before a codec header, and a codec header before a chunk. -/
def Greeted (msgs : List Outbound) : Prop :=
  ∀ front msg rest, msgs = front ++ msg :: rest →
    (msg = .codecHeader → ∃ st, .settings st ∈ front) ∧
      ∀ ec, msg = .chunk ec → .codecHeader ∈ front

namespace Greeted

theorem nil : Greeted [] := by
  intro front msg rest h
  simp at h

theorem of_front {msgs msgs' : List Outbound} (h : Greeted msgs') (hfront : msgs <+: msgs') :
    Greeted msgs := by
  obtain ⟨tail, rfl⟩ := hfront
  rintro front msg rest rfl
  exact h front msg (rest ++ tail) (by simp)

theorem append_singleton {msgs : List Outbound} {msg : Outbound} (h : Greeted msgs)
    (hheader : msg = .codecHeader → ∃ st, .settings st ∈ msgs)
    (hchunk : ∀ ec, msg = .chunk ec → .codecHeader ∈ msgs) : Greeted (msgs ++ [msg]) := by
  intro front msg' rest hmsgs
  rcases List.eq_nil_or_concat rest with rfl | ⟨rest, last, rfl⟩
  · obtain ⟨rfl, hlast⟩ := List.append_inj' hmsgs rfl
    obtain rfl := (List.cons.inj hlast).1
    exact ⟨hheader, hchunk⟩
  · rw [List.concat_eq_append, ← List.cons_append, ← List.append_assoc] at hmsgs
    exact h front msg' rest (List.append_inj' hmsgs rfl).1

end Greeted

namespace Net

variable {json : SerdeJson} {s s' : Net} {l : Label} {k : ConnId}

/-- No chunk is queued on a channel whose client is still being greeted. -/
def greetsFirst (tx : ChannelId) (s : Net) : Label → Bool
  | .offer id _ _ =>
      match s.registry.get? id with
      | some h =>
          h.tx = tx → ¬ ((s.channels tx).Open ∧ (s.conns h.sock).reader.greets = some id)
      | none => true
  | _ => true

/-- What a queue holds by the stage of its client's greeting. -/
structure Ordered (tx : ChannelId) (s : Net) : Prop where
  history : Greeted (s.channels tx).history
  settings : ∀ k id, (s.conns k).reader = .greeting id tx .sendCodecHeader →
    (s.channels tx).connected = true → ∃ st, .settings st ∈ (s.channels tx).history
  entry : ∀ id h, (id, h) ∈ s.registry.clients → h.tx = tx →
    (s.conns h.sock).reader.greets = some id ∨
      ((s.channels tx).connected = true → .codecHeader ∈ (s.channels tx).history)

variable {tx : ChannelId}

theorem Effect.history (ho : s.Ordered tx) (hok : s.greetsFirst tx l = true)
    (h : Effect s l s') : Greeted (s'.channels tx).history := by
  obtain hfront | ⟨msg, hqueues, hsent⟩ := h.queues tx
  · exact ho.history.of_front hfront
  · rw [hsent.history]
    cases hqueues with
    | reader hsends =>
        cases hsends with
        | settings hreader => exact ho.history.append_singleton (by simp) (by simp)
        | codecHeader hreader =>
            exact ho.history.append_singleton (fun _ => ho.settings _ _ hreader hsent.room.1)
              (by simp)
        | reply hreader => exact ho.history.append_singleton (by simp) (by simp)
    | settings hmem => exact ho.history.append_singleton (by simp) (by simp)
    | @chunk id now later handle ec hget =>
        refine ho.history.append_singleton (by simp) fun _ _ => ?_
        rcases ho.entry id handle (Registry.mem_of_get? hget) rfl with hgreets | hheader
        · simp [greetsFirst, hget, hsent.room, hgreets] at hok
        · exact hheader hsent.room.1

theorem Effect.settings_mem (hw : s.Wired) (ho : s.Ordered tx) (h : Effect s l s') {id : ClientId}
    (hreader : (s'.conns k).reader = .greeting id tx .sendCodecHeader)
    (hconnected : (s'.channels tx).connected = true) :
    ∃ st, .settings st ∈ (s'.channels tx).history := by
  obtain hstage | ⟨stage, hreader₀⟩ := h.of_greeting hreader
  · cases hstage
  · cases h.progress hw hreader₀ with
    | waits hwaits =>
        obtain ⟨-, -, rfl⟩ := Reader.greeting.inj (hwaits.symm.trans hreader)
        have hgrows := h.grows (hw.greeting k id tx _ hreader₀).1
        obtain ⟨st, hst⟩ := ho.settings k id hreader₀ (hgrows hconnected).1
        exact ⟨st, hgrows.mem hconnected hst⟩
    | current hcurrent => cases hcurrent.symm.trans hreader
    | @settings st hlabel hregistry hpending hnext hsent =>
        exact ⟨st, by rw [hsent.history]; simp⟩
    | codecHeader hnext hsent => cases hnext.symm.trans hreader
    | gaveUp hgone => exact absurd (hgone.symm.trans hconnected) Bool.false_ne_true

theorem Effect.entry_greeted (hw : s.Wired) (ho : s.Ordered tx) (h : Effect s l s')
    {id : ClientId} {handle : ClientHandle} (hmem : (id, handle) ∈ s'.registry.clients)
    (htx : handle.tx = tx) :
    (s'.conns handle.sock).reader.greets = some id ∨
      ((s'.channels tx).connected = true → .codecHeader ∈ (s'.channels tx).history) := by
  obtain ⟨h₀, hmem₀, htx₀, hsock⟩ | hnew := h.of_entry hmem
  · rw [htx₀] at htx
    rw [hsock]
    rcases ho.entry id h₀ hmem₀ htx with hgreets | hheader
    · obtain ⟨tx', stage, hreader⟩ := Reader.exists_of_greets hgreets
      obtain rfl : tx = tx' := htx ▸ ((hw.greeting _ _ _ _ hreader).2.2 h₀ hmem₀).1
      cases h.progress hw hreader with
      | waits hwaits => exact .inl (by rw [hwaits]; rfl)
      | current hcurrent => exact .inl (by rw [hcurrent]; rfl)
      | settings hlabel hregistry hpending hnext hsent => exact .inl (by rw [hnext]; rfl)
      | codecHeader hnext hsent => exact .inr fun _ => by rw [hsent.history]; simp
      | gaveUp hgone =>
          exact .inr fun hconnected => absurd (hgone.symm.trans hconnected) Bool.false_ne_true
    · have hgrows := h.grows (htx ▸ hw.entry id h₀ hmem₀)
      exact .inr fun hconnected => hgrows.mem hconnected (hheader (hgrows hconnected).1)
  · exact .inl (by rw [hnew]; rfl)

theorem Effect.ordered (hw : s.Wired) (ho : s.Ordered tx) (hok : s.greetsFirst tx l = true)
    (h : Effect s l s') : s'.Ordered tx where
  history := h.history ho hok
  settings _ _ := h.settings_mem hw ho
  entry _ _ := h.entry_greeted hw ho

/-! ## Whole runs -/

variable {bufferMs : UInt32} {initialVolume : UInt8}

theorem reach_ordered
    (h : (system json bufferMs initialVolume).Reach (fun s l => s.greetsFirst tx l = true) s) :
    s.Ordered tx := by
  refine h.invariant_of (fun _ => reach_wired) ?_ ?_
  · rintro s rfl
    refine ⟨.nil, ?_, ?_⟩
    · intro k id hreader
      cases hreader
    · intro id h hmem
      cases hmem
  · intro s l s' hw ho hok hstep
    exact (step_effect hstep).ordered hw ho hok

/-- In every run that queues no chunk on a channel whose client is still being greeted, what
its writer takes has settings before the codec header, and that before every chunk. -/
theorem greeting_order
    (h : (system json bufferMs initialVolume).Reach (fun s l => s.greetsFirst tx l = true) s) :
    Greeted (s.channels tx).taken :=
  (reach_ordered h).history.of_front (Channel.taken_prefix_history _)

/-- A chunk after the greeting. -/
theorem greeting_order_chunk :
    ∃ s : Net, (s.channels 0).taken.length = 3 ∧
      .chunk ⟨.zero, []⟩ ∈ (s.channels 0).taken ∧ Greeted (s.channels 0).taken := by
  obtain ⟨s, hs, hP⟩ := exists_reach_of_run
    (reach_helloed 1000 50 (greetsFirst 0) (fun _ => rfl) fun _ _ => rfl)
    (greetLabels 0 ++ [.startScan ⟨.zero, []⟩, .offer 0 0 0, .endScan, .recv 0, .write 0 0,
      .recv 0, .write 0 0, .recv 0])
    (fun s => (s.channels 0).taken.length = 3 ∧ .chunk ⟨.zero, []⟩ ∈ (s.channels 0).taken)
    (by decide +kernel)
  obtain ⟨hlen, hmem⟩ := of_decide_eq_true hP
  exact ⟨s, hlen, hmem, greeting_order hs⟩

/-- A chunk between the registration of a client and its greeting is the first message its
writer takes. -/
theorem greeting_order_overtaken :
    ¬ ∀ (s : Net) (tx : ChannelId), (system .compact 1000 50).Reachable s →
      Greeted (s.channels tx).taken := by
  intro hall
  obtain ⟨s, hs, hP⟩ := exists_reach_of_run
    (reach_helloed 1000 50 (fun _ _ => true) (fun _ => rfl) fun _ _ => rfl)
    [.spawn 0, .register 0, .startScan ⟨.zero, []⟩, .offer 0 0 0, .recv 0]
    (fun s => (s.channels 0).taken = [.chunk ⟨.zero, []⟩]) (by decide +kernel)
  have hgreeted := hall s 0 hs.reachable
  rw [of_decide_eq_true hP] at hgreeted
  cases (hgreeted [] (.chunk ⟨.zero, []⟩) [] rfl).2 _ rfl

end Net

end SnapcastClient
