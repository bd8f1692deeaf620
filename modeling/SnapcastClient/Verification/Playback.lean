import SnapcastClient.Verification.App
import SnapcastClient.Verification.Refinement
import SnapcastClient.Verification.Ticks

/-! # From the broadcast to the player

The chunks that a server writes on a connection are heard by the client's ticks, and handled by
its playing thread, in the order of the broadcasts. -/

namespace SnapcastClient

def Event.isPacket : Event → Bool
  | .headerReceived _ => false
  | .packetReceived _ => true

/-- All bytes at once. -/
theorem Aligned.at_once (units : List (List UInt8)) :
    Aligned units (units.flatten.map .byte) := by
  induction units with
  | nil => exact .nil
  | cons u units ih =>
      rw [List.flatten_cons, List.map_append]
      exact .unit u ih

/-! ## What ticks hear -/

/-- What ticks make of messages: the next message, or nothing when a read runs into a timeout. -/
inductive Hearing : List Outbound → List Message → Prop where
  | nil : Hearing [] []
  | idle {msgs : List Outbound} {heard : List Message} :
      Hearing msgs heard → Hearing msgs (heard ++ [.nothing])
  | next {msgs : List Outbound} {heard : List Message} {msg : Outbound} {message : Message} :
      Hearing msgs heard → msg.HeardAs message → Hearing (msgs ++ [msg]) (heard ++ [message])

namespace ConnectedClient

variable {json : SerdeJson} {frames : List Frame} {msgs : List Outbound} {c c' : ConnectedClient}

/-- The packets handed over. -/
def packets (c : ConnectedClient) : ℕ :=
  c.handed.countP Event.isPacket

theorem countP_events (frames : List Frame) :
    (frames.flatMap Frame.events).countP Event.isPacket = frames.length := by
  induction frames with
  | nil => rfl
  | cons frame frames ih =>
      rw [List.flatMap_cons, List.countP_append, ih, List.length_cons, Nat.add_comm]
      rfl

theorem InStep.packets_eq (hframing : c.machine.framing ≠ .new) (h : InStep frames c) :
    ∃ done frame rest, frames = done ++ frame :: rest ∧ c.packets = done.length ∧
      c.machine.framing = ⟨.readingPacket frame.base⟩ ∧
      Aligned (frame.payload :: units rest) c.incoming := by
  cases h with
  | header done rest hframes hnew => exact absurd hnew hframing
  | payload done frame rest hframes hpacket hhanded haligned =>
      refine ⟨done, frame, rest, hframes, ?_, hpacket, haligned⟩
      rw [packets, hhanded, List.countP_append, countP_events]
      rfl

/-- A header is no packet, and a read of one that ends the tick hears nothing. -/
theorem readHeader_hears {input : TickInput} {result : Outcome (Option Message)}
    (h : c.readHeader json input = (result, c')) :
    c'.packets = c.packets ∧ ∀ message, result = .ok (some message) → message = .nothing := by
  rw [readHeader] at h
  split at h
  next bytes rest hread =>
    have hheader : (c.handed ++ [Event.headerReceived bytes]).countP Event.isPacket =
        c.handed.countP Event.isPacket := by
      rw [List.countP_append]
      rfl
    split at h
    · cases h
      exact ⟨hheader, by rintro _ ⟨⟩⟩
    · cases h
      exact ⟨hheader, by rintro _ ⟨⟩⟩
  next =>
    cases h
    refine ⟨rfl, ?_⟩
    rintro _ ⟨⟩
    rfl
  next =>
    cases h
    exact ⟨rfl, by rintro _ ⟨⟩⟩

theorem readPacket_hears (hcarried : List.Forall₂ (Outbound.Travels json) msgs frames)
    (h : InStep frames c) {size : UInt32} (haction : c.machine.nextAction = .readPacket size)
    {input : TickInput} {message : Message}
    (hread : c.readPacket json size input = (.ok message, c')) :
    message = .nothing ∧ c'.packets = c.packets ∨
      ∃ msg, msgs[c.packets]? = some msg ∧ msg.HeardAs message ∧ c'.packets = c.packets + 1 := by
  have hnew : c.machine.framing ≠ .new := by
    intro hnew
    rw [ClientMachine.nextAction, hnew, Framing.nextAction_new] at haction
    cases haction
  obtain ⟨done, frame, rest, hframes, hpackets, hframing, haligned⟩ := h.packets_eq hnew
  have hsize : size = frame.base.size := by
    rw [ClientMachine.nextAction, hframing] at haction
    exact (Action.readPacket.inj haction).symm
  rcases readExact_spec size.toNat c.incoming with ⟨bytes, after, hexact, hlen, hin⟩ |
    ⟨lost, after, hexact, hlen, hin⟩ | ⟨lost, hexact, hlen, hin⟩
  · rw [hin] at haligned
    obtain ⟨rfl, -⟩ := haligned.of_read (hlen.trans (by rw [hsize, frame.payload_length]))
    have hahead := List.forall₂_drop done.length hcarried
    rw [hframes, List.drop_left] at hahead
    obtain ⟨msg, later, htravels, -, hdrop⟩ := List.forall₂_cons_right_iff.mp hahead
    have hmsg : msgs[done.length]? = some msg := by
      rw [← List.head?_drop, hdrop]
      rfl
    simp only [readPacket, hexact, ClientMachine.handleEvent_packet hframing] at hread
    refine .inr ⟨msg, ?_, ClientMachine.heardAs_of_processPacket htravels
      (congrArg Prod.fst hread), ?_⟩
    · rw [hpackets]
      exact hmsg
    · have hstate : _ = c' := congrArg Prod.snd hread
      rw [← hstate, packets, List.countP_append]
      rfl
  · simp only [readPacket, hexact] at hread
    cases hread
    exact .inl ⟨rfl, rfl⟩
  · simp only [readPacket, hexact] at hread
    cases hread

/-- The read loop hears the next message, or nothing. -/
theorem readLoop_hears (hcarried : List.Forall₂ (Outbound.Travels json) msgs frames)
    (c : ConnectedClient) (input : TickInput) (h : InStep frames c) {message : Message}
    (hloop : c.readLoop json input = (.ok message, c')) :
    message = .nothing ∧ c'.packets = c.packets ∨
      ∃ msg, msgs[c.packets]? = some msg ∧ msg.HeardAs message ∧ c'.packets = c.packets + 1 := by
  fun_induction readLoop json c input with
  | case1 c haction c₁ hread ih =>
      rw [← (readHeader_hears hread).1]
      exact ih ((readHeader_effect haction hread).inStep h) hloop
  | case2 c haction message' c₁ hread =>
      cases hloop
      obtain ⟨hpackets, hnothing⟩ := readHeader_hears hread
      exact .inl ⟨hnothing _ rfl, hpackets⟩
  | case3 c haction fault c₁ hread => cases hloop
  | case4 c size haction => exact readPacket_hears hcarried h haction hloop

theorem tick_hears (hcarried : List.Forall₂ (Outbound.Travels json) msgs frames)
    (h : InStep frames c) {input : TickInput} {message : Message}
    (htick : c.tick json input = (.ok message, c')) :
    message = .nothing ∧ c'.packets = c.packets ∨
      ∃ msg, msgs[c.packets]? = some msg ∧ msg.HeardAs message ∧ c'.packets = c.packets + 1 := by
  obtain ⟨hframing, hincoming, hhanded⟩ := c.sendLoop_keeps input
  rw [tick] at htick
  split at htick
  next c₁ hsend =>
    rw [hsend] at hframing hincoming hhanded
    have hsent : Effect json c c₁ := .sent hframing hincoming hhanded
    have hpackets : c₁.packets = c.packets := congrArg (List.countP Event.isPacket) hhanded
    rw [← hpackets]
    exact readLoop_hears hcarried c₁ input (hsent.inStep h) htick
  next => cases htick

theorem tick_inStep (json : SerdeJson) (h : InStep frames c) (input : TickInput) :
    InStep frames (c.tick json input).2 := by
  have heffects : Effects json c (c.tick json input).2 := tick_effects c input
  generalize (c.tick json input).2 = c' at heffects
  induction heffects with
  | refl => exact h
  | tail _ he ih => exact he.inStep ih

end ConnectedClient

/-! ## What the program hears -/

namespace App

variable {σ : Type} {json : SerdeJson} {codecs : Codecs σ} {backend : PlayerBackend}
  {a a' : App σ} {l : Label} {frames : List Frame} {msgs : List Outbound}
  {arrivals : List Arrival}

theorem serve_keeps (codecs : Codecs σ) (a : App σ) (inSync : Bool) (message : Message) :
    (a.serve codecs inSync message).client = a.client ∧
      (a.serve codecs inSync message).heard = a.heard := by
  unfold serve
  split
  · split <;> exact ⟨rfl, rfl⟩
  · split
    · split <;> exact ⟨rfl, rfl⟩
    · exact ⟨rfl, rfl⟩
  · exact ⟨rfl, rfl⟩

/-- A tick hears a message of the client, or ends `main`. -/
theorem tick_cases {input : TickInput} (h : a.tick json codecs input = some a') :
    (∃ inSync message, a.client.tick json input = (.ok message, a'.client) ∧
      a'.heard = a.heard ++ [(inSync, message)]) ∨
    (∃ fault, a.client.tick json input = (.error fault, a'.client)) ∧ a'.heard = a.heard ∧
      ¬ a'.Running := by
  rw [tick] at h
  split at h
  next hmain =>
    simp only at h
    split at h
    next message client htick =>
      cases h
      obtain ⟨hclient, hheard⟩ := serve_keeps codecs
        (a.hear client (decide a.client.machine.Synchronized) message)
        (decide a.client.machine.Synchronized) message
      exact .inl ⟨_, message, by rw [hclient, htick]; rfl, hheard⟩
    next fault client htick =>
      cases h
      exact .inr ⟨⟨fault, htick⟩, rfl, not_running_ofFault rfl⟩
  next => cases h

theorem Act.keeps (h : Act json codecs backend a l a') (hl : ∀ input, l ≠ .tick input) :
    a'.client = a.client ∧ a'.heard = a.heard := by
  cases h with
  | sends | closes | header | refuses | ignores | tickFails => exact absurd rfl (hl _)
  | _ => exact ⟨rfl, rfl⟩

/-- The program has heard the messages of the frames up to some place; as long as it runs, up to
the packets its client has taken. -/
structure Follows (frames : List Frame) (msgs : List Outbound) (a : App σ) : Prop where
  inStep : a.client.InStep frames
  running : a.Running → Hearing (msgs.take a.client.packets) (a.heard.map Prod.snd)
  heard : ∃ n, Hearing (msgs.take n) (a.heard.map Prod.snd)

theorem Follows.tick (hcarried : List.Forall₂ (Outbound.Travels json) msgs frames)
    (h : Follows frames msgs a) (hrunning : a.Running) {input : TickInput}
    (htick : a.tick json codecs input = some a') : Follows frames msgs a' := by
  have hstep := ConnectedClient.tick_inStep json h.inStep input
  rcases tick_cases htick with ⟨inSync, message, hclient, hheard⟩ | ⟨⟨fault, hclient⟩, hheard, hend⟩
  · rw [hclient] at hstep
    have hhearing : Hearing (msgs.take a'.client.packets) (a'.heard.map Prod.snd) := by
      rw [hheard, List.map_append]
      rcases ConnectedClient.tick_hears hcarried h.inStep hclient with
        ⟨rfl, hpackets⟩ | ⟨msg, hmsg, hheardAs, hpackets⟩
      · rw [hpackets]
        exact .idle (h.running hrunning)
      · rw [hpackets, List.take_add_one, hmsg]
        exact .next (h.running hrunning) hheardAs
    exact ⟨hstep, fun _ => hhearing, _, hhearing⟩
  · rw [hclient] at hstep
    refine ⟨hstep, fun hrunning' => absurd hrunning' hend, ?_⟩
    rw [hheard]
    exact h.heard

theorem Follows.step (hcarried : List.Forall₂ (Outbound.Travels json) msgs frames)
    (h : Follows frames msgs a) (hstep : a.step json codecs backend l = some a') :
    Follows frames msgs a' := by
  obtain ⟨hrunning, hact⟩ := step_act hstep
  by_cases hl : ∃ input, l = .tick input
  · obtain ⟨input, rfl⟩ := hl
    rw [App.step, if_pos hrunning] at hstep
    exact h.tick hcarried hrunning hstep
  · obtain ⟨hclient, hheard⟩ := hact.keeps fun input hinput => hl ⟨input, hinput⟩
    refine ⟨hclient ▸ h.inStep, fun _ => ?_, ?_⟩
    · rw [hclient, hheard]
      exact h.running hrunning
    · rw [hheard]
      exact h.heard

theorem follows_of_reachable (hcarried : List.Forall₂ (Outbound.Travels json) msgs frames)
    (haligned : Aligned (ConnectedClient.units frames) arrivals)
    (h : (system json codecs backend (.new arrivals)).Reachable a) : Follows frames msgs a := by
  refine h.invariant (I := Follows frames msgs) ?_ fun a l a' hfollows _ hstep =>
    hfollows.step hcarried hstep
  rintro _ rfl
  exact ⟨.header [] frames rfl rfl rfl haligned, fun _ => .nil, 0, .nil⟩

end App

/-! ## The chunks of a record -/

/-- The chunk in a message, as it was broadcast. -/
def Message.chunk? : Message → Option EncodedChunk
  | wireChunk wc _ => some ⟨wc.timestamp, wc.payload⟩
  | _ => none

theorem Outbound.HeardAs.chunk?_sublist {msg : Outbound} {message : Message}
    (h : msg.HeardAs message) : message.chunk?.toList.Sublist msg.chunk?.toList := by
  cases h with
  | expired => exact List.nil_sublist _
  | _ => exact List.Sublist.refl _

theorem filterMap_singleton_toList {α β : Type*} (f : α → Option β) (x : α) :
    [x].filterMap f = (f x).toList := by
  rw [List.filterMap_cons]
  cases f x <;> rfl

/-- The chunks heard are among those of the messages, in order. -/
theorem Hearing.chunks_sublist {msgs : List Outbound} {heard : List Message}
    (h : Hearing msgs heard) :
    (heard.filterMap Message.chunk?).Sublist (msgs.filterMap Outbound.chunk?) := by
  induction h with
  | nil => exact List.Sublist.refl _
  | idle _ ih =>
      rw [List.filterMap_append]
      exact (List.append_nil _).symm ▸ ih
  | next _ hheard ih =>
      rw [List.filterMap_append, List.filterMap_append, filterMap_singleton_toList,
        filterMap_singleton_toList]
      exact ih.append hheard.chunk?_sublist

/-- What is put on the channel is among the chunks heard, in order. -/
theorem sent_sublist (k : ℕ) (heard : List (Bool × Message)) :
    ((sent k heard).map fun x => x.1.samples).Sublist
      (((heard.map Prod.snd).filterMap Message.chunk?).map EncodedChunk.data) := by
  induction heard generalizing k with
  | nil => exact List.Sublist.refl _
  | cons x heard ih =>
      have hx : ((forwarded x).toList.map Chunk.samples).Sublist
          (x.2.chunk?.toList.map EncodedChunk.data) := by
        obtain ⟨inSync, message⟩ := x
        cases inSync with
        | false => exact List.nil_sublist _
        | true => cases message <;> exact List.Sublist.refl _
      have hhead : ((x :: heard).map Prod.snd).filterMap Message.chunk? =
          x.2.chunk?.toList ++ (heard.map Prod.snd).filterMap Message.chunk? := by
        rw [← filterMap_singleton_toList, ← List.filterMap_append]
        rfl
      rw [sent, hhead, List.map_append, List.map_append, List.map_map]
      exact hx.append (ih _)

namespace App

variable {σ : Type} {json : SerdeJson} {codecs : Codecs σ} {backend : PlayerBackend} {a : App σ}

/-- The playing thread handles chunks that were heard, in order. -/
theorem handled_sublist {client : ConnectedClient}
    (h : (system json codecs backend client).Reachable a) :
    (a.handled.map fun x => x.1.samples).Sublist
      (((a.heard.map Prod.snd).filterMap Message.chunk?).map EncodedChunk.data) := by
  refine List.Sublist.trans ?_ (sent_sublist 0 a.heard)
  obtain ⟨done, rest, unsent, hsent, hdone, -, -⟩ := chunks_in_order h
  have hchunks : done.map Prod.fst = a.handled.map Prod.fst := by
    rw [← List.forall₂_eq_eq_eq, List.forall₂_map_left_iff, List.forall₂_map_right_iff]
    exact hdone.imp fun x y hxy => hxy.1
  have hsamples := congrArg (List.map Chunk.samples) hchunks
  rw [List.map_map, List.map_map] at hsamples
  rw [hsent, List.append_assoc, List.map_append]
  exact hsamples ▸ List.sublist_append_left _ _

end App

/-! ## What a server writes -/

namespace Net

variable {json : SerdeJson} {bufferMs : UInt32} {initialVolume : UInt8} {k : ConnId}
  {s : Net} {tx : ChannelId} {p : TransitionSystem.WithHistory Net Service}

/-- The headers and payloads written on a channel. -/
def units (s : Net) (tx : ChannelId) : List (List UInt8) :=
  (s.writers tx).written.flatMap fun buf => [buf.take Base.baseSize, buf.drop Base.baseSize]

/-- A chunk leaves room in its payload for its timestamp and its length. -/
def Label.roomy : Label → Bool
  | .startScan chunk => chunk.data.length ≤ Base.maxPayload - 12
  | _ => true

theorem fits_of_reach (h : (attendedSystem json k bufferMs initialVolume).Reach
    (fun p l => (courteous json k p l && l.roomy) = true) p) : p.state.Fits := by
  refine h.invariant (I := fun p => p.state.Fits) ?_ ?_
  · rintro ⟨s, service⟩ ⟨hs, -⟩
    obtain rfl : s = new bufferMs initialVolume := hs
    exact fits_new bufferMs initialVolume
  · rintro ⟨s, service⟩ l ⟨s', service'⟩ hfits hok ⟨hstep, -⟩
    refine (step_act hstep).fits hfits ?_
    rintro chunk rfl
    exact of_decide_eq_true (Bool.and_eq_true_iff.mp hok).2

/-- A frame divides where its header ends. -/
theorem frames_of_buffers {msgs : List Outbound} {bufs : List (List UInt8)}
    (h : List.Forall₂ (fun msg buf => ∃ frame : Frame, buf = frame.bytes ∧
      msg.Travels json frame) msgs bufs) :
    ∃ frames : List Frame, List.Forall₂ (Outbound.Travels json) msgs frames ∧
      (bufs.flatMap fun buf => [buf.take Base.baseSize, buf.drop Base.baseSize]) =
        ConnectedClient.units frames := by
  induction h with
  | nil => exact ⟨[], .nil, rfl⟩
  | cons hmsg _ ih =>
      obtain ⟨frame, rfl, htravels⟩ := hmsg
      obtain ⟨frames, hcarried, hunits⟩ := ih
      refine ⟨frame :: frames, .cons htravels hcarried, ?_⟩
      rw [List.flatMap_cons, hunits, Frame.bytes, ← frame.header_length, List.take_left,
        List.drop_left]
      rfl

/-- The buffers of a writer are frames that carry the messages it took. -/
theorem Written.exists_frames (hjson : json.SettingsLaws) (hw : s.Written json tx)
    (hfits : s.Fits) :
    ∃ (frames : List Frame) (msgs : List Outbound),
      (s.channels tx).taken = msgs ++ (s.writers tx).state.inHand ∧
      List.Forall₂ (Outbound.Travels json) msgs frames ∧
      s.units tx = ConnectedClient.units frames := by
  obtain ⟨-, msgs, htaken, hlen, hbufs⟩ := hw
  have hroom : ∀ msg ∈ msgs, ∀ ec, msg = .chunk ec → ec.data.length ≤ Base.maxPayload - 12 := by
    rintro _ hmem ec rfl
    refine hfits.queued tx ec ((Channel.taken_prefix_history _).mem ?_)
    rw [htaken]
    exact List.mem_append_left _ hmem
  have hframed : List.Forall₂ (fun msg buf => ∃ frame : Frame, buf = frame.bytes ∧
      msg.Travels json frame) msgs (s.writers tx).written := by
    rw [List.forall₂_iff_get]
    refine ⟨hlen, fun i hi hi' => ?_⟩
    obtain ⟨msg, now, hmsg, hbuf⟩ := hbufs i _ (List.getElem?_eq_getElem hi')
    rw [List.getElem?_eq_getElem hi] at hmsg
    obtain rfl := Option.some.inj hmsg
    obtain ⟨frame, hframe, htravels, -⟩ :=
      Outbound.exists_frame hjson _ (hroom _ (List.getElem_mem hi)) (UInt16.ofNat i) now
    exact ⟨frame, Except.ok.inj (hbuf.symm.trans hframe), htravels⟩
  obtain ⟨frames, hcarried, hunits⟩ := frames_of_buffers hframed
  exact ⟨frames, msgs, htaken, hcarried, hunits⟩

end Net

namespace App

variable {σ : Type} {json : SerdeJson} {codecs : Codecs σ} {backend : PlayerBackend} {a : App σ}
  {bufferMs : UInt32} {initialVolume : UInt8} {k : ConnId} {tx : ChannelId}
  {p : TransitionSystem.WithHistory Net Service} {arrivals : List Arrival}

/-- What a client hears of a connection with timeouts only between the reads are the messages of
the connection's queue, from the first on. -/
theorem hears_queue (hjson : json.SettingsLaws)
    (h : (Net.attendedSystem json k bufferMs initialVolume).Reach
      (fun p l => (Net.courteous json k p l && l.roomy) = true) p)
    (htx : p.history.tx = some tx) (harrivals : Aligned (p.state.units tx) arrivals)
    (ha : (system json codecs backend (.new arrivals)).Reachable a) :
    ∃ msgs, msgs <+: (p.state.channels tx).taken ∧ Hearing msgs (a.heard.map Prod.snd) := by
  have hcourteous : (Net.attendedSystem json k bufferMs initialVolume).Reach
      (fun p l => Net.courteous json k p l = true) p :=
    h.mono fun p l hok => (Bool.and_eq_true_iff.mp hok).1
  have hrecorded := Net.reach_recorded (fun st => ⟨_, hjson.print st⟩) hcourteous
  obtain ⟨frames, msgs, htaken, hcarried, hunits⟩ :=
    (hrecorded.served tx htx).written.exists_frames hjson (Net.fits_of_reach h)
  rw [hunits] at harrivals
  obtain ⟨n, hheard⟩ := (follows_of_reachable hcarried harrivals ha).heard
  refine ⟨msgs.take n, (List.take_prefix n msgs).trans ?_, hheard⟩
  rw [htaken]
  exact List.prefix_append _ _

/-- The chunks that a client hears are some of those that were broadcast to it, in their order. -/
theorem heard_of_broadcast (hjson : json.SettingsLaws)
    (h : (Net.attendedSystem json k bufferMs initialVolume).Reach
      (fun p l => (Net.courteous json k p l && l.roomy) = true) p)
    (htx : p.history.tx = some tx) (harrivals : Aligned (p.state.units tx) arrivals)
    (ha : (system json codecs backend (.new arrivals)).Reachable a) :
    ((a.heard.map Prod.snd).filterMap Message.chunk?).Sublist p.history.chunks := by
  have hcourteous : (Net.attendedSystem json k bufferMs initialVolume).Reach
      (fun p l => Net.courteous json k p l = true) p :=
    h.mono fun p l hok => (Bool.and_eq_true_iff.mp hok).1
  obtain ⟨msgs, hmsgs, hheard⟩ := hears_queue hjson h htx harrivals ha
  have hrecorded := Net.reach_recorded (fun st => ⟨_, hjson.print st⟩) hcourteous
  obtain ⟨offered, hchunks, hdelivered, -⟩ := (hrecorded.served tx htx).counted
  have hqueued : (msgs.filterMap Outbound.chunk?).Sublist (p.state.delivered tx) :=
    (hmsgs.trans (Channel.taken_prefix_history _)).sublist.filterMap Outbound.chunk?
  refine hheard.chunks_sublist.trans (hqueued.trans (hdelivered.trans ?_))
  rw [hchunks]
  exact List.sublist_append_left _ _

end App

end SnapcastClient
