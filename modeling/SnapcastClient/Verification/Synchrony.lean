import SnapcastClient.Verification.FirstSettings
import SnapcastClient.Verification.Playout
import SnapcastClient.Verification.Readings

/-! # When a chunk is due

A client with a recovered clock hands each chunk out for the instant that the server means, up to
what is left of its clock error. -/

namespace SnapcastClient

theorem mem_of_heardAs {msgs : List Outbound} {messages : List Message}
    (h : List.Forall₂ Outbound.HeardAs msgs messages) {message : Message}
    (hmem : message ∈ messages) : ∃ msg ∈ msgs, msg.HeardAs message := by
  induction h with
  | nil => cases hmem
  | @cons msg message' msgs messages hheard _ ih =>
      rcases List.mem_cons.mp hmem with rfl | hmem
      · exact ⟨msg, List.mem_cons_self, hheard⟩
      · obtain ⟨msg', hmsg', hheard'⟩ := ih hmem
        exact ⟨msg', List.mem_cons_of_mem _ hmsg', hheard'⟩

/-- Settings that were sent are heard. -/
theorem settings_heardAs {msgs : List Outbound} {messages : List Message}
    (h : List.Forall₂ Outbound.HeardAs msgs messages) {st : ServerSettings}
    (hmem : .settings st ∈ msgs) : .serverSettings st ∈ messages := by
  induction h with
  | nil => cases hmem
  | @cons msg message msgs messages hheard _ ih =>
      rcases List.mem_cons.mp hmem with heq | hmem
      · subst heq
        cases hheard
        exact List.mem_cons_self
      · exact List.mem_cons_of_mem _ (ih hmem)

namespace Conversation

variable {json : SerdeJson} {k : ConnId} {g : Greeter} {bufferMs : UInt32} {initialVolume : UInt8}
  {c c' : Conversation} {r : Readings} {cur : Cursor Delivery} {msgs : List Outbound}
  {s : Exchange} {p : TransitionSystem.WithHistory Conversation Readings}

/-! ## What the client plays by -/

theorem Downstream.prefix_history (hd : c.Downstream json cur msgs) {tx : ChannelId}
    (htx : c.server.history.tx = some tx) :
    msgs <+: (c.server.state.channels tx).history := by
  have htaken := hd.taken tx htx
  exact (htaken ▸ List.prefix_append _ _ : msgs <+: _).trans (Channel.taken_prefix_history _)

/-- Whatever the client has handed out was queued. -/
theorem Downstream.exists_queued (hd : c.Downstream json cur msgs) {message : Message}
    (hmem : message ∈ c.messages) :
    ∃ tx msg, c.server.history.tx = some tx ∧ msg ∈ (c.server.state.channels tx).history ∧
      msg.HeardAs message := by
  obtain ⟨msg, hmsg, hheard⟩ := mem_of_heardAs hd.heard hmem
  have hmsgs := List.mem_of_mem_take hmsg
  cases htx : c.server.history.tx with
  | none =>
      rw [hd.unattended htx] at hmsgs
      cases hmsgs
  | some tx => exact ⟨tx, msg, rfl, (hd.prefix_history htx).mem hmsgs, hheard⟩

/-- A client that has handled a reply has handed out settings before. -/
theorem Downstream.exists_settings (hd : c.Downstream json cur msgs)
    (hopens : ∀ tx, c.server.history.tx = some tx → c.server.state.Opens k tx)
    (hreply : cur.taken.filterMap Delivery.reply? ≠ []) :
    ∃ st, .serverSettings st ∈ c.messages := by
  obtain ⟨r, hr⟩ := List.exists_mem_of_ne_nil _ hreply
  obtain ⟨d, hd', hr⟩ := List.mem_filterMap.mp hr
  obtain ⟨before, after, htaken⟩ := List.append_of_mem hd'
  have hcarried := List.forall₂_drop before.length hd.carried
  rw [Cursor.items, htaken, List.append_assoc, List.append_assoc, List.drop_left' rfl]
    at hcarried
  obtain ⟨msg, rest, hmsg, -, hdrop⟩ := List.forall₂_cons_left_iff.mp hcarried
  have hmsgs : msgs.take before.length ++ [msg] <+: msgs := by
    refine ⟨rest, ?_⟩
    rw [List.append_assoc, List.singleton_append, ← hdrop, List.take_append_drop]
  have hrequest : msg.request?.isSome := hmsg.isSome_iff.mp (by rw [hr]; rfl)
  have hbefore : msgs.take before.length <+: msgs.take cur.taken.length :=
    List.take_prefix_take_left (by rw [htaken, List.length_append]; omega)
  cases htx : c.server.history.tx with
  | none =>
      rw [hd.unattended htx, List.drop_nil] at hdrop
      cases hdrop
  | some tx =>
      obtain ⟨st, hst⟩ :=
        (hopens tx htx).first _ msg (hmsgs.trans (hd.prefix_history htx)) hrequest
      exact ⟨st, settings_heardAs hd.heard (hbefore.mem hst)⟩

/-- The settings that the client plays by, once it has handled a reply. -/
theorem Shows.settings (hsettings : json.SettingsLaws)
    (ht : c.Talking json g k bufferMs initialVolume) (hs : c.Shows json r s)
    (hhandled : r.handled ≠ []) : ∃ st, s.settings = some st ∧ st.Configured bufferMs := by
  obtain ⟨cur, msgs, hd, hsim, hc⟩ := hs
  have hreply : cur.taken.filterMap Delivery.reply? ≠ [] := by
    rw [← hsim.answers]
    intro hnil
    rw [← hc.handled, List.map_eq_nil_iff.mp hnil] at hhandled
    exact hhandled rfl
  have hjson (st : ServerSettings) : ∃ text, json.settingsToString st = .ok text :=
    ⟨_, hsettings.print st⟩
  obtain ⟨st₀, hst₀⟩ := hd.exists_settings
    (fun tx htx => Net.opens_of_reach hjson ht.attended htx) hreply
  have hne : c.messages.filterMap Message.settings ≠ [] :=
    List.ne_nil_of_mem (List.mem_filterMap.mpr ⟨_, hst₀, rfl⟩)
  obtain ⟨st, hst⟩ : ∃ st, c.lastSettings = some st :=
    Option.ne_none_iff_exists'.mp fun h => hne (List.getLast?_eq_none_iff.mp h)
  refine ⟨st, hc.settings.trans hst, ?_⟩
  obtain ⟨message, hmem, hmessage⟩ := List.mem_filterMap.mp (List.mem_of_getLast? hst)
  obtain ⟨tx, msg, htx, hqueued, hheard⟩ := hd.exists_queued hmem
  have hr := Net.reach_recorded hjson ht.attended
  cases hheard with
  | settings =>
      obtain rfl := Option.some.inj hmessage
      exact (Net.configured_of_reach ht.attended).due _
        ((hr.served tx htx).controlled.settings_mem hqueued)
  | _ => cases hmessage

/-- A chunk that the client hands out next is due as its machine says. -/
theorem Downstream.plays (hd : c.Downstream json cur msgs) {now : ℤ} {wc : WireChunk}
    {audibleAt : TimeVal} (h : c.hear json now = some c')
    (hmessages : c'.messages = c.messages ++ [.wireChunk wc audibleAt]) :
    .chunk ⟨wc.timestamp, wc.payload⟩ ∈ msgs ∧
      audibleAt.toMicros = wc.timestamp.toMicros - c.machine.clockOffset.toMicros +
        c.machine.serverBufferMs.toMicros - c.machine.localLatency.toMicros := by
  obtain ⟨cur', hhears, -, -⟩ := hd.hears h
  cases hhears with
  | header hinside hahead => simp at hmessages
  | @packet d message machine hinside hpacket =>
      obtain ⟨msg, hcarries, htake⟩ := hd.exists_carried hinside
      have hmem : msg ∈ msgs.take (cur.taken ++ [d]).length := by
        rw [htake]
        exact List.mem_append_right _ (List.mem_singleton_self _)
      obtain ⟨-, hlast⟩ := List.append_inj' hmessages rfl
      obtain rfl := List.head_eq_of_cons_eq hlast
      have hresult := congrArg Prod.fst hpacket
      have hheard := ClientMachine.heardAs_of_processPacket hcarries.travels hresult
      cases hheard with
      | wireChunk =>
          rw [ClientMachine.processPacket_wireChunk hcarries.travels.decode] at hresult
          exact ⟨List.mem_of_mem_take hmem, (ClientMachine.processWireChunk_spec
            (m := { c.machine with framing := .new }) hresult).2⟩
  | fails hinside hpacket => simp at hmessages

theorem Downstream.mem_queued (hd : c.Downstream json cur msgs) {msg : Outbound}
    (hmsg : msg ∈ msgs) : msg ∈ c.queued := by
  rw [queued]
  cases htx : c.server.history.tx with
  | none =>
      rw [hd.unattended htx] at hmsg
      cases hmsg
  | some tx => exact (hd.prefix_history htx).mem hmsg

/-- The chunk that a client with a recovered clock hands out next. -/
theorem Shows.due (hsettings : json.SettingsLaws)
    (ht : p.state.Talking json g k bufferMs initialVolume) (hs : p.state.Shows json p.history s)
    (hreach : (Exchange.system json).Reach Exchange.Alternating s) {θ eps : ℤ}
    (hlen : latencySamples ≤ (roundTrips p).length)
    (hcount : 11 ≤ ((roundTrips p).rtake latencySamples).countP fun r => r.Balanced θ eps)
    {now : ℤ} {wc : WireChunk} {audibleAt : TimeVal} (hhear : p.state.hear json now = some c')
    (hmessages : c'.messages = p.state.messages ++ [.wireChunk wc audibleAt]) :
    .chunk ⟨wc.timestamp, wc.payload⟩ ∈ p.state.queued ∧
      |audibleAt.toMicros + θ - (wc.timestamp.toMicros + bufferMs.toInt32.toInt * 1000)| ≤ eps := by
  have hoffset := hs.clockOffset_mem hreach hlen hcount
  have hhandled : p.history.handled ≠ [] := by
    rw [← List.length_pos_iff, ← hs.length_roundTrips]
    exact (by decide : 0 < latencySamples).trans_le hlen
  obtain ⟨st, hst, hconfigured⟩ := hs.settings hsettings ht hhandled
  obtain ⟨cur, msgs, hd, hsim, -⟩ := hs
  obtain ⟨hchunk, haudible⟩ := hd.plays hhear hmessages
  obtain ⟨hserver, hlocal⟩ := Exchange.settled_of_reach hreach st hst
  rw [hsim.machine, hconfigured.bufferMs] at hserver
  rw [hsim.machine, hconfigured.latency] at hlocal
  have hzero : p.state.machine.localLatency.toMicros = 0 := hlocal
  refine ⟨hd.mem_queued hchunk, ?_⟩
  rw [haudible, hserver, hzero]
  rw [abs_le] at hoffset ⊢
  omega

/-! ## Results -/

/-- In an orderly run, once eleven of a client's last twenty round trips are balanced, every chunk
it hands out was queued for it and is due, on the server's clock, the configured buffer (cast to
an `i32`) after its timestamp, up to what is left of the client's clock error. -/
theorem plays_on_time (hhello : json.HelloLaws) (hsettings : json.SettingsLaws)
    (h : (clockedSystem json k g.hello bufferMs initialVolume).Reach
      (fun p l => orderly json k p l = true) p) {θ eps : ℤ}
    (hlen : latencySamples ≤ (roundTrips p).length)
    (hcount : 11 ≤ ((roundTrips p).rtake latencySamples).countP fun r => r.Balanced θ eps)
    {now : ℤ} {wc : WireChunk} {audibleAt : TimeVal} (hhear : p.state.hear json now = some c')
    (hmessages : c'.messages = p.state.messages ++ [.wireChunk wc audibleAt]) :
    .chunk ⟨wc.timestamp, wc.payload⟩ ∈ p.state.queued ∧
      |audibleAt.toMicros + θ - (wc.timestamp.toMicros + bufferMs.toInt32.toInt * 1000)| ≤ eps := by
  obtain ⟨s, hs, ht, hshows⟩ := reach_tracks hhello hsettings h
  exact (hshows (hear_spec hhear).1).due hsettings ht hs hlen hcount hhear hmessages

theorem plays_on_time_chunk :
    ∃ p : TransitionSystem.WithHistory Conversation Readings,
      .chunk ⟨⟨0, 900000⟩, [1, 2, 3]⟩ ∈ p.state.queued ∧
        |(TimeVal.mk 1 650000).toMicros + 250000 -
          ((TimeVal.mk 0 900000).toMicros + (1000 : UInt32).toInt32.toInt * 1000)| ≤ 0 := by
  obtain ⟨p, c', hp, -, hlen, hcount, hhear, hmessages⟩ := exists_recovered_quarter
  exact ⟨p, plays_on_time SerdeJson.compact_helloLaws SerdeJson.compact_settingsLaws
    (hp.mono fun _ _ => And.left) hlen hcount hhear hmessages⟩

end Conversation

end SnapcastClient
