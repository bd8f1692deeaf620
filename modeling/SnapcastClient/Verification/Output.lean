import SnapcastClient.Verification.App
import SnapcastClient.Verification.Decoder
import SnapcastClient.Verification.Expiry

/-! # What is played, and when

A player gets the samples of the chunks played on it and nothing in between, and no chunk is
played early. -/

namespace SnapcastClient

/-! ## Bytes of samples -/

namespace Decoder

variable {σ : Type} {codecs : Codecs σ}

/-- A decoder of the codec of a header. -/
def Of : Decoder σ → CodecMetadata → Prop
  | opus _, .opus _ => True
  | pcm, .pcm _ => True
  | flac, .flac _ => True
  | _, _ => False

theorem of_ofMetadata {metadata : CodecMetadata} {d : Decoder σ}
    (h : ofMetadata codecs metadata = .ok d) : d.Of metadata := by
  cases metadata with
  | pcm p =>
      cases h
      trivial
  | flac f =>
      simp only [ofMetadata] at h
      split at h
      · cases h
        trivial
      · cases h
  | opus o =>
      simp only [ofMetadata] at h
      split at h
      · rw [newOpus] at h
        obtain ⟨stereo, -, h⟩ := bind_eq_ok.mp h
        obtain ⟨_, -, h⟩ := bind_eq_ok.mp h
        split at h
        · cases h
          trivial
        · cases h
      · cases h

/-- A call leaves the codec as it is. -/
theorem Of.decodeSample {d d' : Decoder σ} {metadata : CodecMetadata} (h : d.Of metadata)
    {oddAddress : Bool} {buf : List UInt8} {out : List Int16} {result : Outcome (ℕ × List Int16)}
    (hdecode : d.decodeSample codecs oddAddress buf out = (result, d')) : d'.Of metadata := by
  cases d with
  | opus state =>
      cases metadata with
      | opus o =>
          rw [Decoder.decodeSample] at hdecode
          split at hdecode <;>
            · cases hdecode
              trivial
      | _ => exact h.elim
  | pcm =>
      cases hdecode
      exact h
  | flac =>
      cases hdecode
      exact h

/-- The samples of a PCM decoder are those of the buffer. -/
theorem Of.take_eq {d d' : Decoder σ} {p : PcmMetadata} (h : d.Of (.pcm p)) {oddAddress : Bool}
    {buf : List UInt8} {out out' : List Int16} {count : ℕ}
    (hdecode : d.decodeSample codecs oddAddress buf out = (.ok (count, out'), d')) :
    out'.take count = NoOpDecoder.alignTo oddAddress buf := by
  cases d with
  | opus state => exact h.elim
  | flac => exact h.elim
  | pcm =>
      have hresult := congrArg Prod.fst hdecode
      simp only [Decoder.decodeSample, NoOpDecoder.decodeSample] at hresult
      split at hresult
      · cases hresult
        exact List.take_left
      · cases hresult

end Decoder

theorem MainState.ofFault_ne_storingDecoder {σ : Type} {ch : CodecHeader} {d : Decoder σ}
    (fault : Fault) : (ofFault fault : MainState σ) ≠ .storingDecoder ch d := by
  cases fault <;> rintro ⟨⟩

theorem MainState.ofFault_ne_storingPlayer {σ : Type} {p : Player} (fault : Fault) :
    (ofFault fault : MainState σ) ≠ .storingPlayer p := by
  cases fault <;> rintro ⟨⟩

/-! ## What a player gets -/

/-- What a chunk adds to the player of a codec header. -/
def Fate.bytesOn (m : ℕ) : Fate → List UInt8
  | .played _ _ player samples => if player = m then Player.sampleBytes samples else []
  | _ => []

theorem Fate.bytesOn_panicked (m : ℕ) : Fate.panicked.bytesOn m = [] := rfl

namespace App

variable {σ : Type} {json : SerdeJson} {codecs : Codecs σ} {backend : PlayerBackend}
  {a a' : App σ} {l : Label}

/-- What was written to the player of a codec header. -/
def bytesOn (a : App σ) (m : ℕ) : List UInt8 :=
  a.handled.flatMap fun x => x.2.bytesOn m

theorem bytesOn_congr (hhandled : a'.handled = a.handled) (m : ℕ) :
    a'.bytesOn m = a.bytesOn m := by
  rw [bytesOn, hhandled]
  rfl

theorem bytesOn_finish (c : Chunk) (fate : Fate) (thread : SamplesState) (m : ℕ) :
    (a.finish c fate thread).bytesOn m = a.bytesOn m ++ fate.bytesOn m := by
  rw [bytesOn, finish, List.flatMap_append, List.flatMap_singleton]
  rfl

/-- A player has what was played on it, and the start of a write that failed. -/
structure Plays (a : App σ) : Prop where
  new : ∀ p, a.main = .storingPlayer p → p.written = []
  next : a.Running → ∀ m, a.headers.length < m + 1 + a.main.behind → a.bytesOn m = []
  written : ∀ x ∈ a.player, ∃ rest, x.2.written = a.bytesOn x.1 ++ rest ∧
    (rest = [] ∨ a.thread.Dead)

theorem Plays.start (client : ConnectedClient) : Plays (start client : App σ) where
  new p h := by cases h
  next _ m _ := rfl
  written := by simp [App.start]

theorem Plays.congr (h : Plays a) (hmain : a'.main = a.main) (hheaders : a'.headers = a.headers)
    (hhandled : a'.handled = a.handled) (hplayer : a'.player = a.player)
    (hdead : a.thread.Dead → a'.thread.Dead) : Plays a' := by
  refine ⟨?_, ?_, ?_⟩
  · rw [hmain]
    exact h.new
  · intro hrunning
    simp only [hmain, hheaders, bytesOn_congr hhandled]
    exact h.next (running_congr hmain.symm hrunning)
  · simp only [hplayer, bytesOn_congr hhandled]
    intro x hx
    obtain ⟨rest, hwritten, hrest⟩ := h.written x hx
    exact ⟨rest, hwritten, hrest.imp_right hdead⟩

/-- The end of `main` leaves the player as it is. -/
theorem Plays.ended (h : Plays a) (hrunning : ¬ a'.Running) (hhandled : a'.handled = a.handled)
    (hplayer : a'.player = a.player) (hthread : a'.thread = a.thread) : Plays a' := by
  refine ⟨fun p hp => ?_, fun hrunning' => absurd hrunning' hrunning, ?_⟩
  · rw [Running, hp] at hrunning
    exact absurd trivial hrunning
  · simp only [hplayer, hthread, bytesOn_congr hhandled]
    exact h.written

/-- A chunk that is not played. -/
theorem Plays.finish (h : Plays a) {c : Chunk} {fate : Fate} {thread : SamplesState}
    (hfate : ∀ m, fate.bytesOn m = []) (hdead : a.thread.Dead → thread.Dead) :
    Plays (a.finish c fate thread) where
  new := h.new
  next hrunning m hm := by
    rw [bytesOn_finish, hfate, List.append_nil]
    exact h.next hrunning m hm
  written x hx := by
    obtain ⟨rest, hwritten, hrest⟩ := h.written x hx
    rw [bytesOn_finish, hfate, List.append_nil]
    exact ⟨rest, hwritten, hrest.imp_right hdead⟩

/-- As long as the playing thread lives, no write has failed. -/
theorem Plays.eq_bytesOn (h : Plays a) (halive : ¬ a.thread.Dead) {m : ℕ} {p : Player}
    (hplayer : a.player = some (m, p)) : p.written = a.bytesOn m := by
  obtain ⟨rest, hwritten, rfl | hdead⟩ := h.written _ hplayer
  · exact hwritten.trans (List.append_nil _)
  · exact absurd hdead halive

theorem Plays.act (h : Plays a) (hagree : Agree a) (hact : Act json codecs backend a l a') :
    Plays a' := by
  cases hact with
  | closes => exact h.ended id rfl rfl rfl
  | refuses => exact h.ended (not_running_ofFault rfl) rfl rfl rfl
  | tickFails => exact h.ended (not_running_ofFault rfl) rfl rfl rfl
  | decoderPoisoned => exact h.ended id rfl rfl rfl
  | playerFails => exact h.ended id rfl rfl rfl
  | playerPoisoned => exact h.ended id rfl rfl rfl
  | header hmain =>
      have hnext := h.next (by rw [Running, hmain]; trivial)
      rw [hmain] at hnext
      exact ⟨fun p hp => (by cases hp), fun _ => hnext, h.written⟩
  | storesDecoder hmain =>
      have hnext := h.next (by rw [Running, hmain]; trivial)
      simp only [hmain, MainState.behind] at hnext
      refine ⟨fun p hp => (by cases hp), fun _ m hm => hnext m ?_, h.written⟩
      simp only [List.length_append, List.length_singleton, MainState.behind] at hm
      omega
  | makesPlayer hmain =>
      have hnext := h.next (by rw [Running, hmain]; trivial)
      rw [hmain] at hnext
      refine ⟨?_, fun _ => hnext, h.written⟩
      rintro _ ⟨⟩
      rfl
  | storesPlayer hmain =>
      have hnext := h.next (by rw [Running, hmain]; trivial)
      simp only [hmain, MainState.behind] at hnext
      refine ⟨fun p hp => (by cases hp), fun _ m hm => hnext m ?_, ?_⟩
      · simp only [MainState.behind] at hm
        omega
      rintro _ ⟨⟩
      refine ⟨[], ?_, .inl rfl⟩
      rw [List.append_nil, h.new _ hmain]
      exact (hnext _ (by omega)).symm
  | recv hthread | sleeps hthread | locksDecoder hthread | locksPlayer hthread | decodes hthread =>
      refine h.congr rfl rfl rfl rfl fun hdead => ?_
      rw [hthread] at hdead
      obtain ⟨_, _, ⟨⟩⟩ := hdead
  | inThePast hthread | overflows hthread | noDecoder hthread | noPlayer hthread =>
      refine h.finish (fun _ => rfl) fun hdead => ?_
      rw [hthread] at hdead
      obtain ⟨_, _, ⟨⟩⟩ := hdead
  | latencyFails => exact h.finish Fate.bytesOn_panicked fun _ => ⟨true, true, rfl⟩
  | @decodeFails _ _ _ n _ _ d' _ latencyMs =>
      have hcalled : Plays { a with playerLatMs := max 1 latencyMs, dec := some (n, d') } :=
        h.congr rfl rfl rfl rfl id
      exact hcalled.finish Fate.bytesOn_panicked fun _ => ⟨true, true, rfl⟩
  | @writes _ n m count _ _ p hthread hdec hplayer =>
      have htag := hagree.player _ hplayer
      have hwritten := h.eq_bytesOn (by rw [hthread]; rintro ⟨_, _, ⟨⟩⟩) hplayer
      refine ⟨h.new, fun hrunning m' hm' => ?_, ?_⟩
      · have hne : m ≠ m' := by
          change a.headers.length < m' + 1 + a.main.behind at hm'
          simp only at htag
          omega
        rw [bytesOn_finish, Fate.bytesOn, if_neg hne, List.append_nil]
        exact h.next hrunning m' hm'
      · rintro _ ⟨⟩
        refine ⟨[], ?_, .inl rfl⟩
        rw [bytesOn_finish, Fate.bytesOn, if_pos rfl, List.append_nil]
        exact congrArg (· ++ Player.sampleBytes (a.samplesOut.take count)) hwritten
  | @writeFails accepted _ m count _ p hthread hplayer =>
      have hwritten := h.eq_bytesOn (by rw [hthread]; rintro ⟨_, _, ⟨⟩⟩) hplayer
      refine ⟨h.new, fun hrunning m' hm' => ?_, ?_⟩
      · rw [bytesOn_finish, Fate.bytesOn_panicked, List.append_nil]
        exact h.next hrunning m' hm'
      · rintro _ ⟨⟩
        refine ⟨(Player.sampleBytes (a.samplesOut.take count)).take accepted, ?_,
          .inr ⟨true, true, rfl⟩⟩
        rw [bytesOn_finish, Fate.bytesOn_panicked, List.append_nil]
        exact congrArg (· ++ _) hwritten
  | _ => exact h.congr rfl rfl rfl rfl id

/-- The payload of a chunk, from an address that `odd` allows. -/
def IsPayload (odd : Bool → Prop) (c : Chunk) (samples : List Int16) : Prop :=
  ∃ oddAddress, odd oddAddress ∧ samples = NoOpDecoder.alignTo oddAddress c.samples

/-- The decoder is one for its header, and with PCM the samples of a chunk are its payload. -/
structure Decodes (odd : Bool → Prop) (a : App σ) : Prop where
  awaiting : ∀ ch d, a.main = .storingDecoder ch d → d.Of ch.metadata
  dec : ∀ x ∈ a.dec, ∃ ch, a.headers[x.1]? = some ch ∧ x.2.Of ch.metadata
  writing : ∀ c count since, a.thread = .writing c count since → ∀ x ∈ a.dec, ∀ ch,
    a.headers[x.1]? = some ch → ∀ p, ch.metadata = .pcm p →
      IsPayload odd c (a.samplesOut.take count)
  played : ∀ x ∈ a.handled, ∀ elapsed n m samples, x.2 = .played elapsed n m samples →
    ∃ ch, a.headers[n]? = some ch ∧ ∀ p, ch.metadata = .pcm p → IsPayload odd x.1 samples

variable {odd : Bool → Prop}

theorem Decodes.start (odd : Bool → Prop) (client : ConnectedClient) :
    Decodes odd (start client : App σ) where
  awaiting ch d h := by cases h
  dec := by simp [App.start]
  writing c count since h := by cases h
  played := by simp [App.start]

theorem Decodes.congr (h : Decodes odd a) (hmain : ∀ ch d, a'.main = .storingDecoder ch d →
    a.main = .storingDecoder ch d) (hdec : a'.dec = a.dec) (hheaders : a'.headers = a.headers)
    (hsamples : a'.samplesOut = a.samplesOut) (hhandled : a'.handled = a.handled)
    (hthread : ∀ c count since, a'.thread = .writing c count since → a.thread = a'.thread) :
    Decodes odd a' := by
  refine ⟨fun ch d hd => h.awaiting ch d (hmain ch d hd), ?_, ?_, ?_⟩
  · rw [hdec, hheaders]
    exact h.dec
  · rw [hdec, hheaders, hsamples]
    intro c count since hwriting
    exact h.writing c count since ((hthread c count since hwriting).trans hwriting)
  · rw [hheaders, hhandled]
    exact h.played

/-- The thread ends with a chunk. -/
theorem Decodes.finish (h : Decodes odd a) {c : Chunk} {fate : Fate} {thread : SamplesState}
    (hthread : ∀ c count since, thread ≠ .writing c count since)
    (hfate : ∀ elapsed n m samples, fate = .played elapsed n m samples →
      ∃ ch, a.headers[n]? = some ch ∧ ∀ p, ch.metadata = .pcm p → IsPayload odd c samples) :
    Decodes odd (a.finish c fate thread) where
  awaiting := h.awaiting
  dec := h.dec
  writing c count since hwriting := absurd hwriting (hthread c count since)
  played x hx elapsed n m samples hplayed := by
    rcases List.mem_append.mp hx with hx | hx
    · exact h.played x hx elapsed n m samples hplayed
    · obtain rfl := List.mem_singleton.mp hx
      exact hfate elapsed n m samples hplayed

theorem Decodes.act (h : Decodes odd a) (hact : Act json codecs backend a l a')
    (hl : ∀ oddAddress device, l = .decode oddAddress device → odd oddAddress) :
    Decodes odd a' := by
  cases hact with
  | header hmain hdecoder =>
      refine ⟨?_, h.dec, h.writing, h.played⟩
      rintro _ _ ⟨⟩
      exact Decoder.of_ofMetadata hdecoder
  | refuses | tickFails =>
      refine h.congr (fun ch d hd => ?_) rfl rfl rfl rfl fun _ _ _ _ => rfl
      exact absurd hd (MainState.ofFault_ne_storingDecoder _)
  | closes | decoderPoisoned | makesPlayer | playerFails | storesPlayer | playerPoisoned =>
      exact h.congr (fun ch d hd => by cases hd) rfl rfl rfl rfl fun _ _ _ _ => rfl
  | storesDecoder hmain hholds =>
      have hkept : ∀ {n : ℕ} {ch ch' : CodecHeader}, a.headers[n]? = some ch →
          (a.headers ++ [ch'])[n]? = some ch := fun hn =>
        (List.getElem?_append_left (List.getElem?_eq_some_iff.mp hn).1).trans hn
      refine ⟨fun ch d hd => (by cases hd), ?_, ?_, ?_⟩
      · rintro _ ⟨⟩
        exact ⟨_, List.getElem?_concat_length, h.awaiting _ _ hmain⟩
      · intro c count since hwriting
        refine absurd ?_ hholds
        rw [show a.thread = .writing c count since from hwriting]
        exact .writing c count since
      · intro x hx elapsed n m samples hplayed
        obtain ⟨ch, hch, hsamples⟩ := h.played x hx elapsed n m samples hplayed
        exact ⟨ch, hkept hch, hsamples⟩
  | recv | sleeps | locksDecoder | locksPlayer =>
      exact h.congr (fun _ _ hd => hd) rfl rfl rfl rfl fun _ _ _ hwriting => by cases hwriting
  | inThePast | overflows | noDecoder | noPlayer | latencyFails =>
      exact h.finish (fun _ _ _ => nofun) fun _ _ _ _ hplayed => by cases hplayed
  | @decodeFails _ _ _ n _ _ d' _ latencyMs _ hthread hdec _ _ hdecode =>
      obtain ⟨ch, hch, hof⟩ := h.dec _ hdec
      have hcalled : Decodes odd
          { a with playerLatMs := max 1 latencyMs, dec := some (n, d') } := by
        refine ⟨h.awaiting, ?_, ?_, h.played⟩
        · rintro _ ⟨⟩
          exact ⟨ch, hch, hof.decodeSample hdecode⟩
        · intro c count since hwriting
          cases hthread.symm.trans hwriting
      exact hcalled.finish (fun _ _ _ => nofun) fun _ _ _ _ hplayed => by cases hplayed
  | @decodes oddAddress device c n _ count d d' _ _ samplesOut hthread hdec _ _ hdecode =>
      obtain ⟨ch, hch, hof⟩ := h.dec _ hdec
      refine ⟨h.awaiting, ?_, ?_, h.played⟩
      · rintro _ ⟨⟩
        exact ⟨ch, hch, hof.decodeSample hdecode⟩
      · rintro _ _ _ ⟨⟩ _ ⟨⟩ ch' hch' p hp
        obtain rfl := Option.some.inj (hch.symm.trans hch')
        rw [hp] at hof
        exact ⟨oddAddress, hl oddAddress device rfl, hof.take_eq hdecode⟩
  | @writes c n m count since d p hthread hdec hplayer =>
      obtain ⟨ch, hch, -⟩ := h.dec _ hdec
      have hpayload := h.writing c count since hthread _ hdec ch hch
      have hcalled : Decodes odd { a with player := some (m, { p with
          written := p.written ++ Player.sampleBytes (a.samplesOut.take count) }) } :=
        h.congr (fun _ _ hd => hd) rfl rfl rfl rfl fun _ _ _ _ => rfl
      refine hcalled.finish (fun _ _ _ => nofun) ?_
      rintro _ _ _ _ ⟨⟩
      exact ⟨ch, hch, hpayload⟩
  | @writeFails accepted c m count since p hthread hplayer =>
      have hcalled : Decodes odd { a with player := some (m, { p with
          written :=
            p.written ++ (Player.sampleBytes (a.samplesOut.take count)).take accepted }) } :=
        h.congr (fun _ _ hd => hd) rfl rfl rfl rfl fun _ _ _ _ => rfl
      exact hcalled.finish (fun _ _ _ => nofun) fun _ _ _ _ hplayed => by cases hplayed
  | _ => exact h.congr (fun _ _ hd => hd) rfl rfl rfl rfl fun _ _ _ _ => rfl

end App

/-! ## Time -/

/-- The elapsed time, in microseconds, as long as it fits a `TimeVal`. -/
theorem toMicros_ofDuration {elapsed : ℕ} (h : elapsed < 2147483648000000000) :
    (TimeVal.ofDuration elapsed).toMicros = (elapsed / 1000 : ℕ) := by
  rw [TimeVal.ofDuration_eq, TimeVal.toMicros_fromMicros (by omega) (by omega)]

/-- A chunk is past only when its instant has come. Else the sleep ends the lead before it, or
there is none because the instant is closer than that. -/
theorem handleSample_spec {t : TimeVal} {elapsed : ℕ} {leadMs : UInt16} {playing : Playing}
    (helapsed : elapsed < 2147483648000000000)
    (h : handleSample t elapsed leadMs = .ok playing) :
    (playing = .inThePast → t.toMicros ≤ (elapsed / 1000 : ℕ)) ∧
      ∀ sleepUs, playing = .due sleepUs → 0 ≤ sleepUs ∧
        t.toMicros ≤ (elapsed / 1000 : ℕ) + sleepUs + 1000 * leadMs.toNat ∧
        (0 < sleepUs →
          t.toMicros = (elapsed / 1000 : ℕ) + sleepUs + 1000 * leadMs.toNat) := by
  obtain ⟨remaining, hremaining, h⟩ := bind_eq_ok.mp h
  obtain ⟨hmicros, hlo, hhi⟩ := TimeVal.sub_spec hremaining
  rw [toMicros_ofDuration helapsed] at hmicros
  by_cases hpast : remaining.sec.toInt < 0
  · rw [if_pos hpast] at h
    cases h
    refine ⟨fun _ => ?_, fun sleepUs hdue => by cases hdue⟩
    rw [TimeVal.toMicros] at hmicros
    omega
  · rw [if_neg hpast] at h
    cases h
    refine ⟨fun hdue => (by cases hdue), ?_⟩
    rintro _ ⟨⟩
    split <;> omega

/-- A chunk is dropped for its time only once it has come, and played no more than so many
milliseconds before it. -/
def Fate.Timely (leadMs : ℕ) (c : Chunk) : Fate → Prop
  | .inThePast elapsed => c.audibleAt.toMicros ≤ (elapsed / 1000 : ℕ)
  | .played elapsed _ _ _ => c.audibleAt.toMicros ≤ (elapsed / 1000 : ℕ) + 1000 * leadMs
  | _ => True

/-- The playing thread sleeps to the lead before the instant and goes on after that. -/
def SamplesState.Timely (leadMs elapsed : ℕ) : SamplesState → Prop
  | sleeping c wake => c.audibleAt.toMicros ≤ (wake / 1000 : ℕ) + 1000 * leadMs ∧
      (elapsed < wake → c.audibleAt.toMicros = (wake / 1000 : ℕ) + 1000 * leadMs)
  | locking c => c.audibleAt.toMicros ≤ (elapsed / 1000 : ℕ) + 1000 * leadMs
  | decoding c => c.audibleAt.toMicros ≤ (elapsed / 1000 : ℕ) + 1000 * leadMs
  | _ => True

theorem SamplesState.Timely.elapse {t : SamplesState} {leadMs elapsed : ℕ}
    (h : t.Timely leadMs elapsed) (nanos : ℕ) : t.Timely leadMs (elapsed + nanos) := by
  cases t with
  | sleeping c wake => exact ⟨h.1, fun hlt => h.2 (by omega)⟩
  | locking c =>
      simp only [SamplesState.Timely] at h ⊢
      omega
  | decoding c =>
      simp only [SamplesState.Timely] at h ⊢
      omega
  | _ => trivial

namespace App

variable {σ : Type} {json : SerdeJson} {codecs : Codecs σ} {backend : PlayerBackend}
  {a a' : App σ} {l : Label} {latencyMs : ℕ}

/-- A device reports no more than so much latency; a file and a connection report none. -/
def Label.reportsUpTo (backend : PlayerBackend) (latencyMs : ℕ) : Label → Bool
  | .decode _ device => (backend.latencyMs device).all (·.toNat ≤ latencyMs)
  | _ => true

/-- Chunks are on time, by the lead that `handle_samples` keeps. -/
structure Punctual (backend : PlayerBackend) (latencyMs : ℕ) (a : App σ) : Prop where
  making : ∀ p, a.main = .storingPlayer p → p.backend = backend
  player : ∀ x ∈ a.player, x.2.backend = backend
  lead : 1 ≤ a.playerLatMs.toNat ∧ a.playerLatMs.toNat ≤ max 1 latencyMs
  thread : a.thread.Timely a.playerLatMs.toNat a.elapsed
  writing : ∀ c count since, a.thread = .writing c count since →
    c.audibleAt.toMicros ≤ (since / 1000 : ℕ) + 1000 * max 1 latencyMs
  handled : ∀ x ∈ a.handled, x.2.Timely (max 1 latencyMs) x.1

theorem Punctual.start (backend : PlayerBackend) (latencyMs : ℕ) (client : ConnectedClient) :
    Punctual backend latencyMs (start client : App σ) where
  making p h := by cases h
  player := by simp [App.start]
  lead := ⟨le_rfl, le_max_left _ _⟩
  thread := trivial
  writing c count since h := by cases h
  handled := by simp [App.start]

/-- The thread is done with a chunk. -/
theorem Punctual.finish (h : Punctual backend latencyMs a) {c : Chunk} {fate : Fate}
    (hmain : a'.main = a.main) (hplayer : ∀ x ∈ a'.player, x.2.backend = backend)
    (hlead : 1 ≤ a'.playerLatMs.toNat ∧ a'.playerLatMs.toNat ≤ max 1 latencyMs)
    (hthread : a'.thread = .receiving ∨ a'.thread.Dead)
    (hhandled : a'.handled = a.handled ++ [(c, fate)]) (hfate : fate.Timely (max 1 latencyMs) c) :
    Punctual backend latencyMs a' where
  making := hmain ▸ h.making
  player := hplayer
  lead := hlead
  thread := by
    rcases hthread with hthread | ⟨_, _, hthread⟩ <;>
      · rw [hthread]
        trivial
  writing c count since hwriting := by
    rw [hwriting] at hthread
    rcases hthread with hthread | ⟨_, _, hthread⟩ <;> cases hthread
  handled := by
    rw [hhandled]
    intro x hx
    rcases List.mem_append.mp hx with hx | hx
    · exact h.handled x hx
    · obtain rfl := List.mem_singleton.mp hx
      exact hfate

/-- A step of `main` that leaves the playing thread alone. -/
theorem Punctual.congr (h : Punctual backend latencyMs a)
    (hmaking : ∀ p, a'.main = .storingPlayer p → p.backend = backend)
    (hplayer : ∀ x ∈ a'.player, x.2.backend = backend) (hlead : a'.playerLatMs = a.playerLatMs)
    (hthread : a'.thread = a.thread) (helapsed : a'.elapsed = a.elapsed)
    (hhandled : a'.handled = a.handled) : Punctual backend latencyMs a' where
  making := hmaking
  player := hplayer
  lead := hlead ▸ h.lead
  thread := by
    rw [hthread, hlead, helapsed]
    exact h.thread
  writing := hthread ▸ h.writing
  handled := hhandled ▸ h.handled

theorem toNat_max_one (ms : UInt16) : (max 1 ms).toNat = max 1 ms.toNat := by
  change (if 1 ≤ ms then ms else 1).toNat = _
  split
  next hle => exact (max_eq_right (UInt16.le_iff_toNat_le.mp hle)).symm
  next hlt =>
    rw [UInt16.le_iff_toNat_le, not_le] at hlt
    exact (max_eq_left hlt.le).symm

/-- The latency reported becomes the lead. -/
theorem Punctual.lead_reported (h : Punctual backend latencyMs a) {m : ℕ} {p : Player}
    (hplayer : a.player = some (m, p)) {oddAddress : Bool} {device : Option UInt16} {ms : UInt16}
    (hms : p.backend.latencyMs device = some ms)
    (hl : (Label.decode oddAddress device).reportsUpTo backend latencyMs = true) :
    1 ≤ (max 1 ms).toNat ∧ (max 1 ms).toNat ≤ max 1 latencyMs := by
  rw [h.player _ hplayer] at hms
  rw [Label.reportsUpTo, hms, Option.all_some, decide_eq_true_iff] at hl
  rw [toNat_max_one]
  omega

theorem Punctual.act (h : Punctual backend latencyMs a)
    (helapsed : a.elapsed < 2147483648000000000) (hact : Act json codecs backend a l a')
    (hl : l.reportsUpTo backend latencyMs = true) : Punctual backend latencyMs a' := by
  cases hact with
  | elapse => exact ⟨h.making, h.player, h.lead, h.thread.elapse _, h.writing, h.handled⟩
  | recv => exact ⟨h.making, h.player, h.lead, trivial, nofun, h.handled⟩
  | inThePast hthread hpast =>
      exact h.finish rfl h.player h.lead (.inl rfl) rfl ((handleSample_spec helapsed hpast).1 rfl)
  | sleeps hthread hdue =>
      obtain ⟨hnonneg, hle, heq⟩ := (handleSample_spec helapsed hdue).2 _ rfl
      refine ⟨h.making, h.player, h.lead, ⟨?_, fun hlt => ?_⟩, nofun, h.handled⟩
      · dsimp only
        omega
      · dsimp only at hlt ⊢
        have := heq (by omega)
        omega
  | overflows => exact h.finish rfl h.player h.lead (.inr ⟨_, _, rfl⟩) rfl trivial
  | noDecoder | noPlayer => exact h.finish rfl h.player h.lead (.inl rfl) rfl trivial
  | locksDecoder hthread hwake =>
      have hsleeping := h.thread
      rw [hthread] at hsleeping
      refine ⟨h.making, h.player, h.lead, ?_, nofun, h.handled⟩
      simp only [SamplesState.Timely] at hsleeping ⊢
      omega
  | locksPlayer hthread =>
      have hlocking := h.thread
      rw [hthread] at hlocking
      exact ⟨h.making, h.player, h.lead, hlocking, nofun, h.handled⟩
  | latencyFails => exact h.finish rfl h.player h.lead (.inr ⟨_, _, rfl⟩) rfl trivial
  | decodeFails hthread hdec hplayer hms hdecode =>
      exact h.finish rfl h.player (h.lead_reported hplayer hms hl) (.inr ⟨_, _, rfl⟩) rfl trivial
  | decodes hthread hdec hplayer hms hdecode =>
      have hdecoding := h.thread
      rw [hthread] at hdecoding
      refine ⟨h.making, h.player, h.lead_reported hplayer hms hl, trivial, ?_, h.handled⟩
      rintro _ _ _ ⟨⟩
      have hlead := h.lead.2
      simp only [SamplesState.Timely] at hdecoding
      omega
  | writes hthread hdec hplayer =>
      have hbackend := h.player _ hplayer
      refine h.finish rfl ?_ h.lead (.inl rfl) rfl (h.writing _ _ _ hthread)
      rintro _ ⟨⟩
      exact hbackend
  | writeFails hthread hplayer =>
      have hbackend := h.player _ hplayer
      refine h.finish rfl ?_ h.lead (.inr ⟨_, _, rfl⟩) rfl trivial
      rintro _ ⟨⟩
      exact hbackend
  | makesPlayer =>
      refine h.congr ?_ h.player rfl rfl rfl rfl
      rintro _ ⟨⟩
      rfl
  | storesPlayer hmain =>
      refine h.congr nofun ?_ rfl rfl rfl rfl
      rintro _ ⟨⟩
      exact h.making _ hmain
  | refuses | tickFails =>
      exact h.congr (fun p hp => absurd hp (MainState.ofFault_ne_storingPlayer _)) h.player
        rfl rfl rfl rfl
  | sends | ignores => exact h.congr h.making h.player rfl rfl rfl rfl
  | _ => exact h.congr nofun h.player rfl rfl rfl rfl

end App

end SnapcastClient
