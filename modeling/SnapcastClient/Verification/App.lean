import SnapcastClient.Model.App
import SnapcastClient.Verification.Stream

/-! # The two threads of the client program

What a step can do, and which chunk meets which decoder and which player. -/

namespace SnapcastClient

/-- The codec headers of a record of messages. -/
def codecHeaders : List (Bool × Message) → List CodecHeader :=
  List.filterMap fun
    | (_, .codecHeader ch) => some ch
    | _ => none

/-- The chunk that a message puts on the channel, if the client was synchronized before. -/
def forwarded : Bool × Message → Option Chunk
  | (true, .wireChunk wc audibleAt) => some ⟨audibleAt, wc.payload⟩
  | _ => none

/-- The chunks that a record of messages puts on the channel, each with the number of codec
headers before it. -/
def sent (k : ℕ) : List (Bool × Message) → List (Chunk × ℕ)
  | [] => []
  | message :: heard =>
      (forwarded message).toList.map (·, k) ++ sent (k + (codecHeaders [message]).length) heard

theorem codecHeaders_append (xs ys : List (Bool × Message)) :
    codecHeaders (xs ++ ys) = codecHeaders xs ++ codecHeaders ys :=
  List.filterMap_append

theorem sent_append (k : ℕ) (xs ys : List (Bool × Message)) :
    sent k (xs ++ ys) = sent k xs ++ sent (k + (codecHeaders xs).length) ys := by
  induction xs generalizing k with
  | nil => rfl
  | cons x xs ih =>
      have hcons := codecHeaders_append [x] xs
      rw [List.singleton_append] at hcons
      rw [List.cons_append, sent, sent, ih, hcons, List.length_append, List.append_assoc,
        Nat.add_assoc]

theorem codecHeaders_of_forwarded {message : Bool × Message} {c : Chunk}
    (h : forwarded message = some c) : codecHeaders [message] = [] := by
  obtain ⟨inSync, message⟩ := message
  cases message with
  | codecHeader ch => cases inSync <;> cases h
  | _ => rfl

theorem sent_singleton (k : ℕ) (message : Bool × Message) :
    sent k [message] = (forwarded message).toList.map (·, k) :=
  List.append_nil _

namespace MainState

variable {σ : Type}

/-- The header whose decoder is not stored yet. -/
@[simp] def awaiting : MainState σ → List CodecHeader
  | storingDecoder ch _ => [ch]
  | _ => []

/-- Whether a decoder is stored and its player is not. -/
@[simp] def behind : MainState σ → ℕ
  | makingPlayer _ => 1
  | storingPlayer _ => 1
  | _ => 0

theorem behind_le_one (main : MainState σ) : main.behind ≤ 1 := by
  cases main <;> simp

end MainState

namespace SamplesState

/-- The chunk that the playing thread has taken and not finished. -/
def inHand : SamplesState → List Chunk
  | received c => [c]
  | sleeping c _ => [c]
  | locking c => [c]
  | decoding c => [c]
  | writing c _ _ => [c]
  | _ => []

def Dead (t : SamplesState) : Prop :=
  ∃ decoder player, t = dead decoder player

/-- The thread has the lock of the decoder, or took it to its death. -/
inductive HoldsDecoder : SamplesState → Prop where
  | locking (c : Chunk) : HoldsDecoder (locking c)
  | decoding (c : Chunk) : HoldsDecoder (decoding c)
  | writing (c : Chunk) (count since : ℕ) : HoldsDecoder (writing c count since)
  | dead (player : Bool) : HoldsDecoder (dead true player)

/-- The same of the lock of the player. -/
inductive HoldsPlayer : SamplesState → Prop where
  | decoding (c : Chunk) : HoldsPlayer (decoding c)
  | writing (c : Chunk) (count since : ℕ) : HoldsPlayer (writing c count since)
  | dead (decoder : Bool) : HoldsPlayer (dead decoder true)

end SamplesState

/-- A chunk sent after so many headers is decoded for the last of them or a later one, and
written to the player of the same header or of the one before. -/
def Fate.After (k : ℕ) : Fate → Prop
  | .played _ n m _ => k ≤ n + 1 ∧ (m = n ∨ m + 1 = n)
  | _ => True

namespace App

variable {σ : Type} {json : SerdeJson} {codecs : Codecs σ} {backend : PlayerBackend}
  {a a' : App σ} {l : Label}

/-! ## What a step can do -/

/-- The inversion of a step. -/
inductive Act (json : SerdeJson) (codecs : Codecs σ) (backend : PlayerBackend) (a : App σ) :
    Label → App σ → Prop where
  | elapse {nanos : ℕ} :
      Act json codecs backend a (.elapse nanos) { a with elapsed := a.elapsed + nanos }
  | sends {input : TickInput} {inSync : Bool} {message : Message} {client : ConnectedClient}
      {c : Chunk} :
      a.main = .ticking → forwarded (inSync, message) = some c →
      ¬ a.thread.Dead →
      Act json codecs backend a (.tick input)
        { a.hear client inSync message with queue := a.queue ++ [c] }
  | closes {input : TickInput} {inSync : Bool} {message : Message} {client : ConnectedClient}
      {c : Chunk} :
      a.main = .ticking → forwarded (inSync, message) = some c →
      a.thread.Dead →
      Act json codecs backend a (.tick input)
        { a.hear client inSync message with main := .returned closedMessage }
  | header {input : TickInput} {inSync : Bool} {ch : CodecHeader} {client : ConnectedClient}
      {d : Decoder σ} :
      a.main = .ticking → Decoder.ofMetadata codecs ch.metadata = .ok d →
      Act json codecs backend a (.tick input)
        { a.hear client inSync (.codecHeader ch) with main := .storingDecoder ch d }
  | refuses {input : TickInput} {inSync : Bool} {ch : CodecHeader} {client : ConnectedClient}
      {fault : Fault} :
      a.main = .ticking → Decoder.ofMetadata codecs ch.metadata = .error fault →
      Act json codecs backend a (.tick input)
        { a.hear client inSync (.codecHeader ch) with main := MainState.ofFault fault }
  | ignores {input : TickInput} {inSync : Bool} {message : Message} {client : ConnectedClient} :
      a.main = .ticking → forwarded (inSync, message) = none →
      codecHeaders [(inSync, message)] = [] →
      Act json codecs backend a (.tick input)
        (a.hear client inSync message)
  | tickFails {input : TickInput} {client : ConnectedClient} {fault : Fault} :
      a.main = .ticking →
      Act json codecs backend a (.tick input) { a with client, main := MainState.ofFault fault }
  | storesDecoder {ch : CodecHeader} {d : Decoder σ} :
      a.main = .storingDecoder ch d → ¬ a.thread.HoldsDecoder →
      Act json codecs backend a .storeDecoder
        { a with
          main := .makingPlayer ch, dec := some (a.headers.length, d),
          headers := a.headers ++ [ch] }
  | decoderPoisoned {ch : CodecHeader} {d : Decoder σ} :
      a.main = .storingDecoder ch d → a.thread.Dead →
      Act json codecs backend a .storeDecoder { a with main := .panicked }
  | makesPlayer {ch : CodecHeader} :
      a.main = .makingPlayer ch →
      Act json codecs backend a (.makePlayer none)
        { a with main := .storingPlayer (.new backend ch.metadata.rate) }
  | playerFails {message : String} :
      Act json codecs backend a (.makePlayer (some message)) { a with main := .returned message }
  | storesPlayer {p : Player} :
      a.main = .storingPlayer p → ¬ a.thread.HoldsPlayer →
      Act json codecs backend a .storePlayer
        { a with main := .ticking, player := some (a.headers.length - 1, p) }
  | playerPoisoned {p : Player} :
      a.main = .storingPlayer p → a.thread.Dead →
      Act json codecs backend a .storePlayer { a with main := .panicked }
  | recv {c : Chunk} {queue : List Chunk} :
      a.thread = .receiving → a.queue = c :: queue →
      Act json codecs backend a .recv { a with thread := .received c, queue }
  | inThePast {c : Chunk} :
      a.thread = .received c →
      handleSample c.audibleAt a.elapsed a.playerLatMs = .ok .inThePast →
      Act json codecs backend a .schedule (a.finish c (.inThePast a.elapsed) .receiving)
  | sleeps {c : Chunk} {sleepUs : ℤ} :
      a.thread = .received c →
      handleSample c.audibleAt a.elapsed a.playerLatMs = .ok (.due sleepUs) →
      Act json codecs backend a .schedule
        { a with thread := .sleeping c (a.elapsed + 1000 * sleepUs.toNat) }
  | overflows {c : Chunk} :
      a.thread = .received c →
      Act json codecs backend a .schedule (a.finish c .panicked (.dead false false))
  | noDecoder {c : Chunk} {wake : ℕ} :
      a.thread = .sleeping c wake → a.dec = none →
      Act json codecs backend a .lockDecoder (a.finish c .noDecoder .receiving)
  | locksDecoder {c : Chunk} {wake : ℕ} :
      a.thread = .sleeping c wake → wake ≤ a.elapsed → a.dec ≠ none →
      Act json codecs backend a .lockDecoder { a with thread := .locking c }
  | noPlayer {c : Chunk} :
      a.thread = .locking c → a.player = none →
      Act json codecs backend a .lockPlayer (a.finish c .noPlayer .receiving)
  | locksPlayer {c : Chunk} :
      a.thread = .locking c → a.player ≠ none →
      Act json codecs backend a .lockPlayer { a with thread := .decoding c }
  | latencyFails {oddAddress : Bool} {device : Option UInt16} {c : Chunk} :
      a.thread = .decoding c →
      Act json codecs backend a (.decode oddAddress device)
        (a.finish c .panicked (.dead true true))
  | decodeFails {oddAddress : Bool} {device : Option UInt16} {c : Chunk} {n m : ℕ}
      {d d' : Decoder σ} {p : Player} {latencyMs : UInt16} {fault : Fault} :
      a.thread = .decoding c → a.dec = some (n, d) → a.player = some (m, p) →
      p.backend.latencyMs device = some latencyMs →
      d.decodeSample codecs oddAddress c.samples a.samplesOut = (.error fault, d') →
      Act json codecs backend a (.decode oddAddress device)
        ({ a with playerLatMs := max 1 latencyMs, dec := some (n, d') }.finish c .panicked
          (.dead true true))
  | decodes {oddAddress : Bool} {device : Option UInt16} {c : Chunk} {n m count : ℕ}
      {d d' : Decoder σ} {p : Player} {latencyMs : UInt16} {samplesOut : List Int16} :
      a.thread = .decoding c → a.dec = some (n, d) → a.player = some (m, p) →
      p.backend.latencyMs device = some latencyMs →
      d.decodeSample codecs oddAddress c.samples a.samplesOut = (.ok (count, samplesOut), d') →
      Act json codecs backend a (.decode oddAddress device)
        { a with
          playerLatMs := max 1 latencyMs, dec := some (n, d'), samplesOut
          thread := .writing c count a.elapsed }
  | writes {c : Chunk} {n m count since : ℕ} {d : Decoder σ} {p : Player} :
      a.thread = .writing c count since → a.dec = some (n, d) → a.player = some (m, p) →
      Act json codecs backend a (.write none)
        ({ a with
            player := some (m, { p with
              written := p.written ++ Player.sampleBytes (a.samplesOut.take count) })
          }.finish c (.played since n m (a.samplesOut.take count)) .receiving)
  | writeFails {accepted : ℕ} {c : Chunk} {m count since : ℕ} {p : Player} :
      a.thread = .writing c count since → a.player = some (m, p) →
      Act json codecs backend a (.write (some accepted))
        ({ a with
            player := some (m, { p with
              written :=
                p.written ++ (Player.sampleBytes (a.samplesOut.take count)).take accepted })
          }.finish c .panicked (.dead true true))

theorem serve_act {input : TickInput} {inSync : Bool} {message : Message}
    {client : ConnectedClient} (hmain : a.main = .ticking) :
    Act json codecs backend a (.tick input)
      ((a.hear client inSync message).serve codecs inSync message) := by
  cases message with
  | codecHeader ch =>
      cases hdecoder : Decoder.ofMetadata codecs ch.metadata with
      | ok d =>
          rw [serve, hdecoder]
          exact .header hmain hdecoder
      | error fault =>
          rw [serve, hdecoder]
          exact .refuses hmain hdecoder
  | wireChunk wc audibleAt =>
      cases inSync with
      | false => exact .ignores hmain rfl rfl
      | true =>
          have hsent : forwarded (true, .wireChunk wc audibleAt) =
              some ⟨audibleAt, wc.payload⟩ := rfl
          rw [serve, if_pos rfl]
          split
          next decoder player hthread =>
            exact .closes hmain hsent ⟨decoder, player, hthread⟩
          next halive =>
            exact .sends hmain hsent fun ⟨decoder, player, hthread⟩ => halive decoder player hthread
  | _ => exact .ignores hmain (by cases inSync <;> rfl) rfl

theorem tick_act {input : TickInput} (h : a.tick json codecs input = some a') :
    Act json codecs backend a (.tick input) a' := by
  rw [tick] at h
  split at h
  next hmain =>
    simp only at h
    split at h
    · cases h
      exact serve_act hmain
    · cases h
      exact .tickFails hmain
  · cases h

theorem storeDecoder_act (h : a.storeDecoder = some a') :
    Act json codecs backend a .storeDecoder a' := by
  rw [storeDecoder] at h
  split at h
  next ch d hmain =>
    split at h
    next => cases h
    next => cases h
    next => cases h
    next player hthread =>
      cases h
      exact .decoderPoisoned hmain ⟨true, player, hthread⟩
    next hlocking hdecoding hwriting hdead =>
      cases h
      refine .storesDecoder hmain fun hholds => ?_
      generalize a.thread = thread at *
      cases hholds with
      | locking c => exact hlocking c rfl
      | decoding c => exact hdecoding c rfl
      | writing c count since => exact hwriting c count since rfl
      | dead player => exact hdead player rfl
  next => cases h

theorem makePlayer_act {error : Option String} (h : a.makePlayer backend error = some a') :
    Act json codecs backend a (.makePlayer error) a' := by
  unfold makePlayer at h
  split at h
  next ch hmain =>
    cases h
    exact .makesPlayer hmain
  next ch message hmain =>
    cases h
    exact .playerFails
  next => cases h

theorem storePlayer_act (h : a.storePlayer = some a') :
    Act json codecs backend a .storePlayer a' := by
  rw [storePlayer] at h
  split at h
  next p hmain =>
    split at h
    next => cases h
    next => cases h
    next decoder hthread =>
      cases h
      exact .playerPoisoned hmain ⟨decoder, true, hthread⟩
    next hdecoding hwriting hdead =>
      cases h
      refine .storesPlayer hmain fun hholds => ?_
      generalize a.thread = thread at *
      cases hholds with
      | decoding c => exact hdecoding c rfl
      | writing c count since => exact hwriting c count since rfl
      | dead decoder => exact hdead decoder rfl
  next => cases h

theorem recv_act (h : a.recv = some a') : Act json codecs backend a .recv a' := by
  unfold recv at h
  split at h
  next c queue hthread hqueue =>
    cases h
    exact .recv hthread hqueue
  next => cases h

theorem schedule_act (h : a.schedule = some a') : Act json codecs backend a .schedule a' := by
  rw [schedule] at h
  split at h
  next c hthread =>
    split at h
    next hpast =>
      cases h
      exact .inThePast hthread hpast
    next sleepUs hdue =>
      cases h
      exact .sleeps hthread hdue
    next =>
      cases h
      exact .overflows hthread
  next => cases h

theorem lockDecoder_act (h : a.lockDecoder = some a') :
    Act json codecs backend a .lockDecoder a' := by
  rw [lockDecoder] at h
  split at h
  next c wake hthread =>
    by_cases hwake : wake ≤ a.elapsed
    · rw [if_pos hwake] at h
      split at h
      next hdec =>
        cases h
        exact .noDecoder hthread hdec
      next hdec =>
        cases h
        exact .locksDecoder hthread hwake (by simp [hdec])
    · rw [if_neg hwake] at h
      cases h
  next => cases h

theorem lockPlayer_act (h : a.lockPlayer = some a') :
    Act json codecs backend a .lockPlayer a' := by
  rw [lockPlayer] at h
  split at h
  next c hthread =>
    split at h
    next hplayer =>
      cases h
      exact .noPlayer hthread hplayer
    next hplayer =>
      cases h
      exact .locksPlayer hthread (by simp [hplayer])
  next => cases h

theorem decode_act {oddAddress : Bool} {device : Option UInt16}
    (h : a.decode codecs oddAddress device = some a') :
    Act json codecs backend a (.decode oddAddress device) a' := by
  rw [decode] at h
  split at h
  next c n d m p hthread hdec hplayer =>
    split at h
    next =>
      cases h
      exact .latencyFails hthread
    next latencyMs hlatency =>
      simp only at h
      split at h
      next fault d' hdecode =>
        cases h
        exact .decodeFails hthread hdec hplayer hlatency hdecode
      next count samplesOut d' hdecode =>
        cases h
        exact .decodes hthread hdec hplayer hlatency hdecode
  next => cases h

theorem write_act {failsAfter : Option ℕ} (h : a.write failsAfter = some a') :
    Act json codecs backend a (.write failsAfter) a' := by
  rw [write] at h
  split at h
  next c count since n d m p hthread hdec hplayer =>
    cases failsAfter with
    | none =>
        cases h
        exact .writes hthread hdec hplayer
    | some accepted =>
        cases h
        exact .writeFails hthread hplayer
  next => cases h

theorem step_act (h : a.step json codecs backend l = some a') :
    a.Running ∧ Act json codecs backend a l a' := by
  unfold step at h
  by_cases hrunning : a.Running
  · rw [if_pos hrunning] at h
    refine ⟨hrunning, ?_⟩
    cases l with
    | elapse nanos =>
        cases h
        exact .elapse
    | tick input => exact tick_act h
    | storeDecoder => exact storeDecoder_act h
    | makePlayer error => exact makePlayer_act h
    | storePlayer => exact storePlayer_act h
    | recv => exact recv_act h
    | schedule => exact schedule_act h
    | lockDecoder => exact lockDecoder_act h
    | lockPlayer => exact lockPlayer_act h
    | decode oddAddress device => exact decode_act h
    | write failsAfter => exact write_act h
  · rw [if_neg hrunning] at h
    cases h

/-! ## Which decoder and which player -/

theorem running_congr (hmain : a'.main = a.main) (h : a.Running) : a'.Running := by
  rw [Running, hmain]
  exact h

theorem not_running_ofFault {fault : Fault} (h : a.main = .ofFault fault) : ¬ a.Running := by
  rw [Running, h]
  cases fault <;> exact id

/-- The decoder is that of the last header, and so is the player unless `main` is behind. -/
structure Agree (a : App σ) : Prop where
  headers : a.headers ++ a.main.awaiting = codecHeaders a.heard
  behind : a.main.behind ≤ a.headers.length
  sent : ∀ x ∈ sent 0 a.heard, x.2 ≤ a.headers.length
  dec : ∀ x ∈ a.dec, x.1 + 1 = a.headers.length
  player : ∀ x ∈ a.player, x.1 + 1 + a.main.behind = a.headers.length

theorem Agree.start (client : ConnectedClient) : Agree (start client : App σ) where
  headers := rfl
  behind := Nat.zero_le _
  sent := by simp [App.start, SnapcastClient.sent]
  dec := by simp [App.start]
  player := by simp [App.start]

/-- A message heard in `ticking` is counted with the headers stored. -/
theorem Agree.hear (h : Agree a) (hmain : a.main = .ticking) {inSync : Bool} {message : Message}
    (hheader : codecHeaders [(inSync, message)] = []) (client : ConnectedClient) :
    Agree (a.hear client inSync message) where
  headers := by
    rw [App.hear, codecHeaders_append, hheader, List.append_nil]
    exact h.headers
  behind := h.behind
  sent := by
    have hheaders := h.headers
    simp only [hmain, MainState.awaiting, List.append_nil] at hheaders
    intro x hx
    rw [App.hear, sent_append, List.mem_append, sent_singleton, ← hheaders, Nat.zero_add] at hx
    rcases hx with hx | hx
    · exact h.sent x hx
    · obtain ⟨c, -, rfl⟩ := List.mem_map.mp hx
      exact le_rfl
  dec := h.dec
  player := h.player

theorem Agree.act (h : Agree a) (hact : Act json codecs backend a l a') (hrunning : a'.Running) :
    Agree a' := by
  cases hact with
  | sends hmain hsent =>
      have hheard := h.hear hmain (codecHeaders_of_forwarded hsent) a.client
      exact ⟨hheard.headers, h.behind, hheard.sent, h.dec, h.player⟩
  | ignores hmain hsent hheader => exact h.hear hmain hheader _
  | @header _ inSync ch _ _ hmain hdecoder =>
      have hheaders := h.headers
      simp only [hmain, MainState.awaiting, List.append_nil] at hheaders
      refine ⟨?_, Nat.zero_le _, ?_, h.dec, ?_⟩
      · simp only [App.hear, MainState.awaiting, codecHeaders_append, hheaders]
        rfl
      · have hnone : forwarded (inSync, .codecHeader ch) = none := by cases inSync <;> rfl
        simp only [App.hear, sent_append, sent_singleton, hnone, Option.toList, List.map_nil,
          List.append_nil]
        exact h.sent
      · have hplayer := h.player
        simp only [hmain, MainState.behind] at hplayer
        exact hplayer
  | storesDecoder hmain hholds =>
      have hheaders := h.headers
      have hplayer := h.player
      simp only [hmain, MainState.awaiting, MainState.behind] at hheaders hplayer
      refine ⟨?_, ?_, ?_, ?_, ?_⟩
      · rw [← hheaders]
        exact List.append_nil _
      · simp
      · intro x hx
        have := h.sent x hx
        simp only [List.length_append, List.length_singleton]
        omega
      · simp
      · intro x hx
        have := hplayer x hx
        simp only [List.length_append, List.length_singleton, MainState.behind]
        omega
  | makesPlayer hmain =>
      have hbehind := h.behind
      have hplayer := h.player
      have hheaders := h.headers
      simp only [hmain, MainState.behind, MainState.awaiting] at hbehind hplayer hheaders
      exact ⟨hheaders, hbehind, h.sent, h.dec, hplayer⟩
  | storesPlayer hmain hholds =>
      have hbehind := h.behind
      have hheaders := h.headers
      simp only [hmain, MainState.behind, MainState.awaiting] at hbehind hheaders
      refine ⟨hheaders, Nat.zero_le _, h.sent, h.dec, ?_⟩
      rintro _ ⟨⟩
      simp only [MainState.behind]
      omega
  | decodeFails hthread hdec | decodes hthread hdec =>
      have hstored := h.dec _ hdec
      exact ⟨h.headers, h.behind, h.sent, by rintro _ ⟨⟩; exact hstored, h.player⟩
  | writes hthread hdec hplayer =>
      have hplaying := h.player _ hplayer
      exact ⟨h.headers, h.behind, h.sent, h.dec, by rintro _ ⟨⟩; exact hplaying⟩
  | writeFails hthread hplayer =>
      have hplaying := h.player _ hplayer
      exact ⟨h.headers, h.behind, h.sent, h.dec, by rintro _ ⟨⟩; exact hplaying⟩
  | closes => exact hrunning.elim
  | refuses => exact absurd hrunning (not_running_ofFault rfl)
  | tickFails => exact absurd hrunning (not_running_ofFault rfl)
  | decoderPoisoned => exact hrunning.elim
  | playerFails => exact hrunning.elim
  | playerPoisoned => exact hrunning.elim
  | _ => exact ⟨h.headers, h.behind, h.sent, h.dec, h.player⟩

theorem agree_of_reachable {client : ConnectedClient}
    (h : (system json codecs backend client).Reachable a) (hrunning : a.Running) : Agree a := by
  have hinv := h.invariant (I := fun a => a.Running → Agree a)
    (by rintro _ rfl _; exact .start client) (by
      intro a l a' hagree _ hstep
      obtain ⟨hrunning, hact⟩ := step_act hstep
      exact (hagree hrunning).act hact)
  exact hinv hrunning

/-- What was sent, in order: the chunks that were handled, those that the playing thread and the
channel hold, and the rest. -/
def Delivers (a : App σ) (unsent : List (Chunk × ℕ)) : Prop :=
  ∃ done rest, sent 0 a.heard = done ++ rest ++ unsent ∧
    List.Forall₂ (fun x y => x.1 = y.1 ∧ y.2.After x.2) done a.handled ∧
    rest.map Prod.fst = a.thread.inHand ++ a.queue

theorem Delivers.congr {unsent : List (Chunk × ℕ)} (h : Delivers a unsent)
    (hsent : sent 0 a'.heard = sent 0 a.heard) (hhandled : a'.handled = a.handled)
    (hpending : a'.thread.inHand ++ a'.queue = a.thread.inHand ++ a.queue) :
    Delivers a' unsent := by
  rw [Delivers, hsent, hhandled, hpending]
  exact h

theorem Delivers.finish {unsent : List (Chunk × ℕ)} (h : Delivers a unsent) {c : Chunk}
    {fate : Fate} {thread : SamplesState} (hc : a.thread.inHand = [c])
    (hthread : thread.inHand = []) (hfate : ∀ x ∈ sent 0 a.heard, fate.After x.2) :
    Delivers (a.finish c fate thread) unsent := by
  obtain ⟨done, rest, hsent, hdone, hrest⟩ := h
  rw [hc, List.singleton_append] at hrest
  obtain ⟨x, pending, rfl, rfl, hpending⟩ := List.map_eq_cons_iff.mp hrest
  refine ⟨done ++ [x], pending, ?_, ?_, ?_⟩
  · rw [App.finish, hsent, List.append_assoc done [x], List.singleton_append]
  · refine List.rel_append hdone ?_
    exact .cons ⟨rfl, hfate x (by rw [hsent]; simp)⟩ .nil
  · rw [App.finish, hthread, List.nil_append]
    exact hpending

/-- A message that puts nothing on the channel. -/
theorem Delivers.hear {unsent : List (Chunk × ℕ)} (h : Delivers a unsent) {inSync : Bool}
    {message : Message} (hnone : forwarded (inSync, message) = none) (client : ConnectedClient) :
    Delivers (a.hear client inSync message) unsent := by
  refine h.congr ?_ rfl rfl
  rw [App.hear, sent_append, sent_singleton, hnone]
  exact List.append_nil _

/-- A chunk that was sent while nothing else was waiting to be. -/
theorem Delivers.forward (h : Delivers a []) {inSync : Bool} {message : Message} {c : Chunk}
    (hsent : forwarded (inSync, message) = some c) (client : ConnectedClient) :
    ∃ x, x.1 = c ∧ Delivers (a.hear client inSync message) [x] := by
  obtain ⟨done, rest, hheard, hdone, hrest⟩ := h
  refine ⟨(c, 0 + (codecHeaders a.heard).length), rfl, done, rest, ?_, hdone, hrest⟩
  rw [App.hear, sent_append, sent_singleton, hsent, hheard, List.append_nil]
  rfl

theorem Delivers.act (h : Delivers a []) (hagree : Agree a)
    (hact : Act json codecs backend a l a') :
    Delivers a' [] ∨
      ∃ x, Delivers a' [x] ∧ a'.main = .returned closedMessage ∧ a'.thread.Dead := by
  cases hact with
  | sends hmain hsent halive =>
      obtain ⟨x, rfl, done, rest, hheard, hdone, hrest⟩ := h.forward hsent a.client
      refine .inl ⟨done, rest ++ [x], ?_, hdone, ?_⟩
      · rw [List.append_nil, ← List.append_assoc]
        exact hheard
      · rw [List.map_append, hrest, List.append_assoc]
        rfl
  | closes hmain hsent hdead =>
      obtain ⟨x, -, hx⟩ := h.forward hsent a.client
      exact .inr ⟨x, hx.congr rfl rfl rfl, rfl, hdead⟩
  | ignores hmain hnone => exact .inl (h.hear hnone _)
  | @header _ inSync _ client =>
      refine .inl ((h.hear ?_ client).congr rfl rfl rfl)
      cases inSync <;> rfl
  | @refuses _ inSync _ client =>
      refine .inl ((h.hear ?_ client).congr rfl rfl rfl)
      cases inSync <;> rfl
  | recv hthread hqueue =>
      refine .inl (h.congr rfl rfl ?_)
      rw [hthread, hqueue]
      rfl
  | inThePast hthread => exact .inl (h.finish (by rw [hthread]; rfl) rfl fun _ _ => trivial)
  | overflows hthread => exact .inl (h.finish (by rw [hthread]; rfl) rfl fun _ _ => trivial)
  | noDecoder hthread => exact .inl (h.finish (by rw [hthread]; rfl) rfl fun _ _ => trivial)
  | noPlayer hthread => exact .inl (h.finish (by rw [hthread]; rfl) rfl fun _ _ => trivial)
  | sleeps hthread => exact .inl (h.congr rfl rfl (by rw [hthread]; rfl))
  | locksDecoder hthread => exact .inl (h.congr rfl rfl (by rw [hthread]; rfl))
  | locksPlayer hthread => exact .inl (h.congr rfl rfl (by rw [hthread]; rfl))
  | latencyFails hthread => exact .inl (h.finish (by rw [hthread]; rfl) rfl fun _ _ => trivial)
  | decodeFails hthread =>
      refine .inl (Delivers.finish (h.congr rfl rfl rfl) ?_ rfl fun _ _ => trivial)
      exact congrArg SamplesState.inHand hthread
  | decodes hthread => exact .inl (h.congr rfl rfl (by rw [hthread]; rfl))
  | @writes _ n m _ _ _ _ hthread hdec hplayer =>
      refine .inl (Delivers.finish (h.congr rfl rfl rfl) ?_ rfl fun x hx => ?_)
      · exact congrArg SamplesState.inHand hthread
      · have hn := hagree.dec _ hdec
        have hm := hagree.player _ hplayer
        have hone := a.main.behind_le_one
        have hk := hagree.sent x hx
        simp only [Fate.After] at hn hm ⊢
        omega
  | writeFails hthread =>
      refine .inl (Delivers.finish (h.congr rfl rfl rfl) ?_ rfl fun _ _ => trivial)
      exact congrArg SamplesState.inHand hthread
  | _ => exact .inl (h.congr rfl rfl rfl)

/-! ## A run -/

/-- An allocation of a payload is not at an odd address. -/
def Label.aligned : Label → Bool
  | .decode oddAddress _ => !oddAddress
  | _ => true

/-- A build without codec libraries. -/
def pcmOnly : Codecs Unit where
  opusFeature := false
  flacFeature := false
  debugAssertions := true
  opusInit _ := .ok ()
  opusDecode _ _ _ := (.ok [], ())
  claxon := .ofReader fun _ => []

/-- A PCM header, the replies that synchronize the client, and a chunk of two samples. -/
def sampleArrivals : List Arrival :=
  let wav : List UInt8 := PcmMetadata.riff ++ List.replicate 16 0 ++
    [1, 0, 2, 0, 0x80, 0xbb, 0, 0] ++ List.replicate 6 0 ++ [16, 0]
  let payload := CodecHeader.encode "pcm" wav
  let base : Base :=
    { mtype := .codecHeader, id := 0, refersTo := 0, sentTv := .zero, receivedTv := .zero,
      size := UInt32.ofNat payload.length }
  let reply := (ServerWrite.time 0 0 .zero .zero .zero).frame.bytes
  let chunk := (ServerWrite.wireChunk ⟨.zero, [1, 2, 3, 4]⟩ (by decide) 0 .zero).frame.bytes
  (base.header ++ payload ++ (List.replicate latencySamples reply).flatten ++ chunk).map .byte

/-- The chunk is taken up at once and played a millisecond before its instant. -/
def sampleLabels : List Label :=
  let tick := Label.tick ⟨0, 0, true⟩
  [tick, .storeDecoder, .makePlayer none, .storePlayer] ++ List.replicate latencySamples tick ++
    [tick, .recv, .schedule, .elapse 998999000, .lockDecoder, .lockPlayer, .decode false none,
      .write none]

theorem exists_reach_sample (n : ℕ) (P : App Unit → Bool)
    (h : (TransitionSystem.run (step .compact pcmOnly .file) (fun _ l => l.aligned)
      (sampleLabels.take n) (start (.new sampleArrivals))).any P = true) :
    ∃ a : App Unit, (system .compact pcmOnly .file (.new sampleArrivals)).Reach
      (fun _ l => l.aligned = true) a ∧ P a = true := by
  obtain ⟨a, hrun, ha⟩ := (Option.any_eq_true _ _).mp h
  exact ⟨a, TransitionSystem.reach_of_run (.init rfl) hrun, ha⟩

/-- Every chunk that was sent meets one fate, in the order of the messages: it is handled, in the
hand of the playing thread or on the channel. Only a chunk that ends `main` is not sent. A chunk
is decoded for no header older than the last one before it, and its player is one behind at most. -/
theorem chunks_in_order {client : ConnectedClient}
    (h : (system json codecs backend client).Reachable a) :
    ∃ done rest unsent, sent 0 a.heard = done ++ rest ++ unsent ∧
      List.Forall₂ (fun x y => x.1 = y.1 ∧ y.2.After x.2) done a.handled ∧
      rest.map Prod.fst = a.thread.inHand ++ a.queue ∧
      (unsent = [] ∨ ∃ x, unsent = [x] ∧ a.main = .returned closedMessage ∧ a.thread.Dead) := by
  have hinv : Delivers a [] ∨
      ∃ x, Delivers a [x] ∧ a.main = .returned closedMessage ∧ a.thread.Dead := by
    refine h.invariant_of (I := fun a => a.Running → Agree a) (J := fun a => Delivers a [] ∨
      ∃ x, Delivers a [x] ∧ a.main = .returned closedMessage ∧ a.thread.Dead)
      (fun a ha => agree_of_reachable ha) ?_ ?_
    · rintro _ rfl
      exact .inl ⟨[], [], rfl, .nil, rfl⟩
    · intro a l a' hagree hdelivers _ hstep
      obtain ⟨hrunning, hact⟩ := step_act hstep
      rcases hdelivers with hdelivers | ⟨x, -, hmain, -⟩
      · exact hdelivers.act (hagree hrunning) hact
      · rw [Running, hmain] at hrunning
        exact hrunning.elim
  rcases hinv with ⟨done, rest, hsent, hdone, hrest⟩ | ⟨x, ⟨done, rest, hsent, hdone, hrest⟩, hend⟩
  · exact ⟨done, rest, [], hsent, hdone, hrest, .inl rfl⟩
  · exact ⟨done, rest, [x], hsent, hdone, hrest, .inr ⟨x, rfl, hend⟩⟩

/-- The chunk of the sample run is the only one, and it is played. -/
theorem chunks_in_order_sample :
    ∃ a : App Unit, a.handled.map Prod.fst = [⟨⟨0, 999999⟩, [1, 2, 3, 4]⟩] ∧
      ∃ done rest unsent, sent 0 a.heard = done ++ rest ++ unsent ∧
        List.Forall₂ (fun x y => x.1 = y.1 ∧ y.2.After x.2) done a.handled ∧
        rest.map Prod.fst = a.thread.inHand ++ a.queue ∧
        (unsent = [] ∨ ∃ x, unsent = [x] ∧ a.main = .returned closedMessage ∧ a.thread.Dead) := by
  obtain ⟨a, ha, hhandled⟩ := exists_reach_sample 32
    (fun a => a.handled.map Prod.fst = [⟨⟨0, 999999⟩, [1, 2, 3, 4]⟩]) (by decide +kernel)
  exact ⟨a, of_decide_eq_true hhandled, chunks_in_order ha.reachable⟩

/-! ## The locks -/

/-- Whoever holds a lock has found what it guards. -/
structure Held (a : App σ) : Prop where
  dec : a.thread.HoldsDecoder → a.dec ≠ none
  player : a.thread.HoldsPlayer → a.player ≠ none

theorem Held.of_free (hdec : ¬ a.thread.HoldsDecoder) (hplayer : ¬ a.thread.HoldsPlayer) :
    Held a :=
  ⟨fun hholds => absurd hholds hdec, fun hholds => absurd hholds hplayer⟩

theorem Held.act (h : Held a) (hact : Act json codecs backend a l a') : Held a' := by
  cases hact with
  | storesDecoder => exact ⟨fun _ => Option.some_ne_none _, h.player⟩
  | storesPlayer => exact ⟨h.dec, fun _ => Option.some_ne_none _⟩
  | locksDecoder hthread hwake hdec => exact ⟨fun _ => hdec, fun hholds => nomatch hholds⟩
  | locksPlayer hthread hplayer =>
      exact ⟨fun _ => h.dec (by rw [hthread]; exact .locking _), fun _ => hplayer⟩
  | latencyFails hthread =>
      exact ⟨fun _ => h.dec (by rw [hthread]; exact .decoding _),
        fun _ => h.player (by rw [hthread]; exact .decoding _)⟩
  | decodeFails hthread | decodes hthread =>
      exact ⟨fun _ => Option.some_ne_none _,
        fun _ => h.player (by rw [hthread]; exact .decoding _)⟩
  | writeFails hthread =>
      exact ⟨fun _ => h.dec (by rw [hthread]; exact .writing _ _ _),
        fun _ => Option.some_ne_none _⟩
  | recv | inThePast | sleeps | overflows | noDecoder | noPlayer | writes =>
      exact .of_free (fun hholds => nomatch hholds) (fun hholds => nomatch hholds)
  | _ => exact ⟨h.dec, h.player⟩

theorem held_of_reachable {client : ConnectedClient}
    (h : (system json codecs backend client).Reachable a) : Held a := by
  refine h.invariant (I := Held) ?_ ?_
  · rintro _ rfl
    exact .of_free (fun hholds => nomatch hholds) (fun hholds => nomatch hholds)
  · intro a l a' hheld _ hstep
    exact hheld.act (step_act hstep).2

/-- The steps of `main`. -/
def Label.OfMain : Label → Prop
  | .tick _ => True
  | .storeDecoder => True
  | .makePlayer _ => True
  | .storePlayer => True
  | _ => False

/-- The steps of the playing thread that wait neither for a lock nor for the player. -/
def Label.OfThread : Label → Prop
  | .recv => True
  | .schedule => True
  | .lockDecoder => True
  | .lockPlayer => True
  | .decode _ _ => True
  | _ => False

/-- A write is under way, and both locks are held until the player has taken it or fails. -/
def Writing (a : App σ) : Prop :=
  ∃ c count since, a.thread = .writing c count since

/-- No lock is in the way of `main`. -/
def MainGoesOn (json : SerdeJson) (codecs : Codecs σ) (backend : PlayerBackend) (a : App σ) :
    Prop :=
  ∃ l a', l.OfMain ∧ a.step json codecs backend l = some a'

/-- No lock is in the way of `main`, or a write is under way whose end, in success or failure,
clears the way. -/
def Releases (json : SerdeJson) (codecs : Codecs σ) (backend : PlayerBackend) (a : App σ) : Prop :=
  a.MainGoesOn json codecs backend ∨ a.Writing ∧ ∀ failsAfter,
    ∃ a', a.step json codecs backend (.write failsAfter) = some a' ∧
      a'.MainGoesOn json codecs backend

/-- Without a lock in its way `main` goes on. -/
theorem mainGoesOn_of_free (json : SerdeJson) (codecs : Codecs σ) (backend : PlayerBackend)
    (hrunning : a.Running)
    (hfree : a.thread.Dead ∨ ¬ a.thread.HoldsDecoder) :
    a.MainGoesOn json codecs backend := by
  have hnot {t : SamplesState} (hthread : a.thread = t) (halive : ¬ t.Dead) :
      ¬ t.HoldsDecoder := by
    subst hthread
    exact hfree.resolve_left halive
  cases hmain : a.main with
  | ticking =>
      refine ⟨.tick ⟨0, 0, true⟩, ?_⟩
      rw [step, if_pos hrunning, tick, hmain]
      simp only
      split <;> exact ⟨_, trivial, rfl⟩
  | storingDecoder ch d =>
      refine ⟨.storeDecoder, ?_⟩
      rw [step, if_pos hrunning, storeDecoder, hmain]
      simp only
      split
      next c hthread => exact absurd (.locking c) (hnot hthread (by rintro ⟨_, _, ⟨⟩⟩))
      next c hthread => exact absurd (.decoding c) (hnot hthread (by rintro ⟨_, _, ⟨⟩⟩))
      next hthread => exact absurd (.writing _ _ _) (hnot hthread (by rintro ⟨_, _, ⟨⟩⟩))
      next => exact ⟨_, trivial, rfl⟩
      next => exact ⟨_, trivial, rfl⟩
  | makingPlayer ch =>
      refine ⟨.makePlayer none, ?_⟩
      rw [step, if_pos hrunning, makePlayer.eq_def, hmain]
      exact ⟨_, trivial, rfl⟩
  | storingPlayer p =>
      refine ⟨.storePlayer, ?_⟩
      rw [step, if_pos hrunning, storePlayer, hmain]
      simp only
      split
      next c hthread => exact absurd (.decoding c) (hnot hthread (by rintro ⟨_, _, ⟨⟩⟩))
      next hthread => exact absurd (.writing _ _ _) (hnot hthread (by rintro ⟨_, _, ⟨⟩⟩))
      next => exact ⟨_, trivial, rfl⟩
      next => exact ⟨_, trivial, rfl⟩
  | returned message =>
      rw [Running, hmain] at hrunning
      exact hrunning.elim
  | panicked =>
      rw [Running, hmain] at hrunning
      exact hrunning.elim

/-- A write that ends, however it does, lets `main` go on. -/
theorem Writing.releases (json : SerdeJson) (codecs : Codecs σ) (backend : PlayerBackend)
    (hwriting : a.Writing) (hheld : Held a) (hrunning : a.Running) :
    a.Releases json codecs backend := by
  refine .inr ⟨hwriting, fun failsAfter => ?_⟩
  obtain ⟨c, count, since, hthread⟩ := hwriting
  obtain ⟨⟨n, d⟩, hdec⟩ := Option.ne_none_iff_exists'.mp
    (hheld.dec (by rw [hthread]; exact .writing _ _ _))
  obtain ⟨⟨m, p⟩, hplayer⟩ := Option.ne_none_iff_exists'.mp
    (hheld.player (by rw [hthread]; exact .writing _ _ _))
  rw [step, if_pos hrunning, write.eq_def, hthread, hdec, hplayer]
  cases failsAfter with
  | none =>
      exact ⟨_, rfl, mainGoesOn_of_free json codecs backend (running_congr rfl hrunning)
        (.inr fun hholds => nomatch hholds)⟩
  | some accepted =>
      exact ⟨_, rfl, mainGoesOn_of_free json codecs backend (running_congr rfl hrunning)
        (.inl ⟨true, true, rfl⟩)⟩

/-- A thread with both locks decodes its chunk, and dies or writes. -/
theorem exists_decode_step (json : SerdeJson) (codecs : Codecs σ) (backend : PlayerBackend)
    (hheld : Held a) (hrunning : a.Running) {c : Chunk} (hthread : a.thread = .decoding c)
    (oddAddress : Bool) (device : Option UInt16) :
    ∃ a', a.step json codecs backend (.decode oddAddress device) = some a' ∧ a'.main = a.main ∧
      (a'.thread = .dead true true ∨ a'.Writing) := by
  obtain ⟨⟨n, d⟩, hdec⟩ := Option.ne_none_iff_exists'.mp
    (hheld.dec (by rw [hthread]; exact .decoding c))
  obtain ⟨⟨m, p⟩, hplayer⟩ := Option.ne_none_iff_exists'.mp
    (hheld.player (by rw [hthread]; exact .decoding c))
  rw [step, if_pos hrunning, decode.eq_def, hthread, hdec, hplayer]
  simp only
  split
  · exact ⟨_, rfl, rfl, .inl rfl⟩
  · split
    · exact ⟨_, rfl, rfl, .inl rfl⟩
    · exact ⟨_, rfl, rfl, .inr ⟨_, _, _, rfl⟩⟩

/-- Whatever comes of the decoding, both locks are free after it or after the write. -/
theorem exists_decode_releases {client : ConnectedClient}
    (h : (system json codecs backend client).Reachable a) (hrunning : a.Running) {c : Chunk}
    (hthread : a.thread = .decoding c) (oddAddress : Bool) (device : Option UInt16) :
    ∃ a', a.step json codecs backend (.decode oddAddress device) = some a' ∧
      a'.Releases json codecs backend := by
  obtain ⟨a', hstep, hmain, hdead | hwriting⟩ := exists_decode_step json codecs backend
    (held_of_reachable h) hrunning hthread oddAddress device
  · exact ⟨a', hstep, .inl (mainGoesOn_of_free json codecs backend
      (running_congr hmain hrunning) (.inl ⟨true, true, hdead⟩))⟩
  · exact ⟨a', hstep, hwriting.releases json codecs backend
      (held_of_reachable (h.step trivial hstep)) (running_congr hmain hrunning)⟩

/-- A thread with the lock of the decoder takes the other, or ends its iteration. -/
theorem exists_lockPlayer_step (json : SerdeJson) (codecs : Codecs σ) (backend : PlayerBackend)
    (hrunning : a.Running) {c : Chunk} (hthread : a.thread = .locking c) :
    ∃ a', a.step json codecs backend .lockPlayer = some a' ∧ a'.main = a.main ∧
      (a'.thread = .receiving ∨ a'.thread = .decoding c) := by
  rw [step, if_pos hrunning, lockPlayer, hthread]
  simp only
  split
  · exact ⟨_, rfl, rfl, .inl rfl⟩
  · exact ⟨_, rfl, rfl, .inr rfl⟩

/-- Without a chunk or the player to wait for, the playing thread goes on. -/
theorem exists_thread_step (hheld : Held a) (hrunning : a.Running) :
    (∃ l a', l.OfThread ∧ a.step json codecs backend l = some a') ∨
      (a.thread = .receiving ∧ a.queue = []) ∨
      (∃ c wake, a.thread = .sleeping c wake ∧ a.elapsed < wake) ∨ a.Writing ∨
      a.thread.Dead := by
  cases hthread : a.thread with
  | receiving =>
      cases hqueue : a.queue with
      | nil => exact .inr (.inl ⟨rfl, rfl⟩)
      | cons c queue =>
          refine .inl ⟨.recv, ?_⟩
          rw [step, if_pos hrunning, recv.eq_def, hthread, hqueue]
          exact ⟨_, trivial, rfl⟩
  | received c =>
      refine .inl ⟨.schedule, ?_⟩
      rw [step, if_pos hrunning, schedule, hthread]
      simp only
      split <;> exact ⟨_, trivial, rfl⟩
  | sleeping c wake =>
      by_cases hwake : wake ≤ a.elapsed
      · refine .inl ⟨.lockDecoder, ?_⟩
        rw [step, if_pos hrunning, lockDecoder, hthread]
        simp only [if_pos hwake]
        split <;> exact ⟨_, trivial, rfl⟩
      · exact .inr (.inr (.inl ⟨c, wake, rfl, Nat.lt_of_not_le hwake⟩))
  | locking c =>
      obtain ⟨a', hstep, -⟩ := exists_lockPlayer_step json codecs backend hrunning hthread
      exact .inl ⟨.lockPlayer, a', trivial, hstep⟩
  | decoding c =>
      obtain ⟨a', hstep, -⟩ := exists_decode_step json codecs backend hheld hrunning hthread
        false none
      exact .inl ⟨.decode false none, a', trivial, hstep⟩
  | writing c count since => exact .inr (.inr (.inr (.inl ⟨c, count, since, hthread⟩)))
  | dead decoder player => exact .inr (.inr (.inr (.inr ⟨decoder, player, rfl⟩)))

/-- After at most two steps of the playing thread no lock is in the way of `main`, or the end of
a write clears it. -/
theorem exists_releases {client : ConnectedClient}
    (h : (system json codecs backend client).Reachable a) (hrunning : a.Running)
    (oddAddress : Bool) (device : Option UInt16) :
    ∃ ls a', ls.length ≤ 2 ∧ (∀ l ∈ ls, l = .lockPlayer ∨ l = .decode oddAddress device) ∧
      TransitionSystem.run (step json codecs backend) (fun _ _ => true) ls a = some a' ∧
      a'.Releases json codecs backend := by
  cases hthread : a.thread with
  | locking c =>
      obtain ⟨a₁, hlock, hmain, hreceiving | hdecoding⟩ :=
        exists_lockPlayer_step json codecs backend hrunning hthread
      · refine ⟨[.lockPlayer], a₁, by simp, by simp, ?_, .inl ?_⟩
        · simp [TransitionSystem.run, hlock]
        · apply mainGoesOn_of_free json codecs backend (running_congr hmain hrunning)
          rw [hreceiving]
          exact .inr (by rintro ⟨⟩)
      · obtain ⟨a₂, hdecode, hreleases⟩ := exists_decode_releases (h.step trivial hlock)
          (running_congr hmain hrunning) hdecoding oddAddress device
        refine ⟨[.lockPlayer, .decode oddAddress device], a₂, by simp, by simp, ?_, hreleases⟩
        simp [TransitionSystem.run, hlock, hdecode]
  | decoding c =>
      obtain ⟨a₁, hdecode, hreleases⟩ :=
        exists_decode_releases h hrunning hthread oddAddress device
      refine ⟨[.decode oddAddress device], a₁, by simp, by simp, ?_, hreleases⟩
      simp [TransitionSystem.run, hdecode]
  | writing c count since =>
      have hwriting : a.Writing := ⟨c, count, since, hthread⟩
      exact ⟨[], a, by simp, by simp, rfl,
        hwriting.releases json codecs backend (held_of_reachable h) hrunning⟩
  | dead decoder player =>
      exact ⟨[], a, by simp, by simp, rfl,
        .inl (mainGoesOn_of_free json codecs backend hrunning (.inl ⟨decoder, player, hthread⟩))⟩
  | _ =>
      refine ⟨[], a, by simp, by simp, rfl, .inl ?_⟩
      apply mainGoesOn_of_free json codecs backend hrunning
      rw [hthread]
      exact .inr (by rintro ⟨⟩)

/-- The locks never deadlock: after at most two steps of the playing thread, whatever comes of
them, no lock is in the way of `main`, or a write is under way whose end clears it. The playing
thread waits for nothing but a chunk on the channel, the time to play it and the player. -/
theorem no_deadlock {client : ConnectedClient}
    (h : (system json codecs backend client).Reachable a) (hrunning : a.Running) :
    (∀ oddAddress device, ∃ ls a', ls.length ≤ 2 ∧
      (∀ l ∈ ls, l = .lockPlayer ∨ l = .decode oddAddress device) ∧
      TransitionSystem.run (step json codecs backend) (fun _ _ => true) ls a = some a' ∧
      a'.Releases json codecs backend) ∧
    ((∃ l a', l.OfThread ∧ a.step json codecs backend l = some a') ∨
      (a.thread = .receiving ∧ a.queue = []) ∨
      (∃ c wake, a.thread = .sleeping c wake ∧ a.elapsed < wake) ∨ a.Writing ∨
      a.thread.Dead) :=
  ⟨exists_releases h hrunning, exists_thread_step (held_of_reachable h) hrunning⟩

/-- The playing thread of the sample run is about to decode when `main` waits for a message. -/
theorem no_deadlock_sample :
    ∃ a : App Unit, a.thread = .decoding ⟨⟨0, 999999⟩, [1, 2, 3, 4]⟩ ∧
      (∀ oddAddress device, ∃ ls a', ls.length ≤ 2 ∧
        (∀ l ∈ ls, l = .lockPlayer ∨ l = .decode oddAddress device) ∧
        TransitionSystem.run (step .compact pcmOnly .file) (fun _ _ => true) ls a = some a' ∧
        a'.Releases .compact pcmOnly .file) ∧
      ((∃ l a', l.OfThread ∧ a.step .compact pcmOnly .file l = some a') ∨
        (a.thread = .receiving ∧ a.queue = []) ∨
        (∃ c wake, a.thread = .sleeping c wake ∧ a.elapsed < wake) ∨ a.Writing ∨
        a.thread.Dead) := by
  obtain ⟨a, ha, hthread⟩ := exists_reach_sample 30
    (fun a => a.Running ∧ a.thread = .decoding ⟨⟨0, 999999⟩, [1, 2, 3, 4]⟩) (by decide +kernel)
  obtain ⟨hrunning, hthread⟩ := of_decide_eq_true hthread
  exact ⟨a, hthread, no_deadlock ha.reachable hrunning⟩

end App

end SnapcastClient
