import SnapcastClient.Model.Playing
import SnapcastClient.Verification.Overflow

/-! # Which chunks are too late

The sign of the lateness is read off its seconds alone. A positive whole second of
microseconds is not carried into them, so a chunk that is due exactly now can count as late. -/

namespace SnapcastClient

namespace Span

/-- Seconds are negative after the carry before zero, and at zero when the microseconds were
a positive whole number of seconds. -/
theorem carry_sec_neg_iff (s : Span) :
    s.carry.sec < 0 ↔ s.micros < 0 ∨ s.micros = 0 ∧ 0 < s.usec := by
  simp only [carry, micros, TimeVal.carried]
  split
  · omega
  · omega

/-- At most so many seconds either way, and at most one of microseconds. -/
structure Within (s : Span) (bound : ℤ) : Prop where
  sec_mem : -bound ≤ s.sec ∧ s.sec ≤ bound
  usec_mem : -1000000 ≤ s.usec ∧ s.usec ≤ 1000000

/-- Sums and differences of spans inside the range fit, and the carry adds little. -/
theorem fits_of_within {s : Span} {bound : ℤ} (hsec : -bound ≤ s.sec ∧ s.sec ≤ bound)
    (husec : -2000000 ≤ s.usec ∧ s.usec ≤ 2000000) (hbound : bound ≤ 2147000000) :
    s.Fits ∧ s.carry.Within (bound + 2) := by
  have hcarried : -2 ≤ TimeVal.carried s.usec ∧ TimeVal.carried s.usec ≤ 2 := by
    rw [TimeVal.carried]
    split <;> omega
  have hmem := s.carry_usec_mem
  have hcarry : s.carry.sec = s.sec + TimeVal.carried s.usec := rfl
  exact ⟨⟨by omega, by omega, by omega⟩, ⟨by omega, by omega⟩⟩

theorem Within.sub {x y : Span} {a b : ℤ} (hx : x.Within a) (hy : y.Within b)
    (hab : a + b ≤ 2147000000) : (x.sub y).Fits ∧ (x.sub y).carry.Within (a + b + 2) := by
  obtain ⟨hxsec, hxusec⟩ := hx
  obtain ⟨hysec, hyusec⟩ := hy
  refine fits_of_within ?_ ?_ hab
  · simp only [Span.sub]
    omega
  · simp only [Span.sub]
    omega

theorem Within.add {x y : Span} {a b : ℤ} (hx : x.Within a) (hy : y.Within b)
    (hab : a + b ≤ 2147000000) : (x.add y).Fits ∧ (x.add y).carry.Within (a + b + 2) := by
  obtain ⟨hxsec, hxusec⟩ := hx
  obtain ⟨hysec, hyusec⟩ := hy
  refine fits_of_within ?_ ?_ hab
  · simp only [Span.add]
    omega
  · simp only [Span.add]
    omega

/-- Microseconds within two seconds of zero are brought back by at most one second. -/
theorem carry_usec_eq {s : Span} (h0 : -1000000 ≤ s.usec) (h1 : s.usec ≤ 2000000) :
    s.carry.usec = if s.usec < 0 then s.usec + 1000000
      else if s.usec ≤ 1000000 then s.usec else s.usec - 1000000 := by
  simp only [carry, TimeVal.carried]
  split <;> split <;> omega

end Span

namespace TimeVal

theorem Short.within {t : TimeVal} (h : t.Short) : t.span.Within 2148 := by
  obtain ⟨hsec, husec⟩ := h
  constructor <;> simp only [span] <;> omega

theorem Canonical.within {t : TimeVal} (h : t.Canonical) (hsec : |t.sec.toInt| < 536870912) :
    t.span.Within 536870912 := by
  obtain ⟨h0, h1⟩ := h
  rw [abs_lt] at hsec
  constructor <;> simp only [span] <;> omega

/-- A clock reading of less than `2 ^ 29` seconds. -/
theorem InClock.within {us : ℤ} (h : InClock us) :
    (fromMicros us).span.Within 536870912 ∧ (fromMicros us).toMicros = us ∧
      (fromMicros us).usec.toInt = us.tmod 1000000 := by
  obtain ⟨hsec, husec⟩ := fromMicros_toInt h.representable.1 h.representable.2
  have hmicros := h.toMicros_eq
  have htdiv := tdiv_eq_ite us 1000000
  have hlt := Int.tmod_lt_of_pos us (by omega : (0 : ℤ) < 1000000)
  have hgt := Int.lt_tmod_of_pos us (by omega : (0 : ℤ) < 1000000)
  obtain ⟨hlo, hhi⟩ := h
  refine ⟨⟨?_, ?_⟩, hmicros, husec⟩
  · simp only [span, hsec, htdiv]
    split <;> omega
  · simp only [span, husec]
    omega

/-- A duration converts as its whole microseconds do. -/
theorem ofDuration_eq (nanos : ℕ) : ofDuration nanos = fromMicros (nanos / 1000 : ℕ) := by
  have hsec : ((nanos / 1000 : ℕ) : ℤ).tdiv 1000000 = (nanos / 1000000000 : ℕ) := by
    rw [Int.tdiv_eq_ediv_of_nonneg (Int.natCast_nonneg _)]
    omega
  have husec : ((nanos / 1000 : ℕ) : ℤ).tmod 1000000 = (nanos / 1000 % 1000000 : ℕ) := by
    rw [Int.tmod_eq_emod_of_nonneg (Int.natCast_nonneg _)]
    omega
  rw [fromMicros, hsec, husec]
  rfl

end TimeVal

namespace ClientMachine

variable {json : SerdeJson} {m : ClientMachine}

/-- The exact instant a chunk is audible on the client clock, in microseconds. -/
def audibleMicros (m : ClientMachine) (wc : WireChunk) : ℤ :=
  wc.timestamp.toMicros - m.clockOffset.toMicros + m.serverBufferMs.toMicros -
    m.localLatency.toMicros

theorem Placed.toMicros {wc : WireChunk} {recvTs audibleAt cmp : TimeVal}
    (h : m.Placed wc recvTs audibleAt cmp) :
    audibleAt.toMicros = m.audibleMicros wc ∧
      cmp.toMicros = m.audibleMicros wc - recvTs.toMicros := by
  have haudible : audibleAt.toMicros = m.audibleMicros wc := by
    rw [← TimeVal.span_micros, h.audible]
    simp [audibleMicros]
  refine ⟨haudible, ?_⟩
  rw [← TimeVal.span_micros cmp, h.remaining, Span.micros_carry, Span.micros_sub,
    TimeVal.span_micros, TimeVal.span_micros, haudible]

/-- The microseconds of the audible instant are a whole second only when they were before
the latency was subtracted, and then when the chunk, the offset and the buffer added up to one. -/
theorem full_iff (timestamp offset buffer latency : Span)
    (hts : 0 ≤ timestamp.usec ∧ timestamp.usec < 1000000)
    (hoffset : 0 ≤ offset.usec ∧ offset.usec < 1000000)
    (hbuffer : 0 ≤ buffer.usec ∧ buffer.usec ≤ 1000000)
    (hlatency : 0 ≤ latency.usec ∧ latency.usec ≤ 1000000)
    (hwhole : (timestamp.usec - offset.usec + buffer.usec - latency.usec) % 1000000 = 0) :
    (((timestamp.sub offset).carry.add buffer).carry.sub latency).carry.usec = 1000000 ↔
      latency.usec = 0 ∧ (buffer.usec ≠ 0 ∨ timestamp.usec ≠ offset.usec) := by
  have hclient := Span.carry_usec_eq (s := timestamp.sub offset)
    (by simp only [Span.sub]; omega) (by simp only [Span.sub]; omega)
  have hclientMem := (timestamp.sub offset).carry_usec_mem
  set client := (timestamp.sub offset).carry
  have hbuffered := Span.carry_usec_eq (s := client.add buffer)
    (by simp only [Span.add]; omega) (by simp only [Span.add]; omega)
  have hbufferedMem := (client.add buffer).carry_usec_mem
  set buffered := (client.add buffer).carry
  have haudible := Span.carry_usec_eq (s := buffered.sub latency)
    (by simp only [Span.sub]; omega) (by simp only [Span.sub]; omega)
  simp only [Span.sub, Span.add] at hclient hbuffered haudible ⊢
  rw [haudible]
  split_ifs at hclient hbuffered ⊢ <;> omega

/-- The clock reads the very instant at which the chunk is audible, and its microseconds lie
below those left in that instant: the reading is negative and not whole, or it is whole and
the instant has kept a whole second of microseconds. -/
def OnTheDot (m : ClientMachine) (wc : WireChunk) (us : ℤ) : Prop :=
  m.audibleMicros wc = us ∧ (us < 0 ∧ us % 1000000 ≠ 0 ∨ us % 1000000 = 0 ∧
    m.localLatency.usec.toInt = 0 ∧
    (m.serverBufferMs.usec.toInt ≠ 0 ∨ wc.timestamp.usec.toInt ≠ m.clockOffset.usec.toInt))

/-- The sign test is exact off the dot, and wrong on it. -/
theorem remaining_neg_iff (hm : m.Timed) {wc : WireChunk} (hts : wc.timestamp.Canonical)
    {audibleAt clock : TimeVal} {us : ℤ}
    (haudible : audibleAt.span = (((wc.timestamp.span.sub m.clockOffset.span).carry.add
      m.serverBufferMs.span).carry.sub m.localLatency.span).carry)
    (hmicros : audibleAt.toMicros = m.audibleMicros wc)
    (hclock : clock.toMicros = us) (husec : clock.usec.toInt = us.tmod 1000000) :
    ((audibleAt.span.sub clock.span).carry.sec < 0 ↔ m.audibleMicros wc < us) ↔
      ¬ m.OnTheDot wc us := by
  have hmem := TimeVal.usec_mem_of_carry haudible
  have hsign : (audibleAt.span.sub clock.span).carry.sec < 0 ↔ m.audibleMicros wc < us ∨
      m.audibleMicros wc = us ∧ clock.usec.toInt < audibleAt.usec.toInt := by
    rw [Span.carry_sec_neg_iff, Span.micros_sub, TimeVal.span_micros, TimeVal.span_micros, hmicros,
      hclock]
    simp only [Span.sub, TimeVal.span]
    omega
  rw [hsign, OnTheDot]
  by_cases hdot : m.audibleMicros wc = us
  · have hwhole : us % 1000000 = 0 → (audibleAt.usec.toInt = 1000000 ↔
        m.localLatency.usec.toInt = 0 ∧ (m.serverBufferMs.usec.toInt ≠ 0 ∨
          wc.timestamp.usec.toInt ≠ m.clockOffset.usec.toInt)) := by
      intro hus
      have hfull := full_iff wc.timestamp.span m.clockOffset.span m.serverBufferMs.span
        m.localLatency.span hts hm.clockOffset hm.serverBuffer.usec_mem hm.localLatency.usec_mem
      rw [← haudible] at hfull
      refine hfull ?_
      simp only [audibleMicros, TimeVal.toMicros] at hdot
      simp only [TimeVal.span]
      omega
    have hinstant : audibleAt.sec.toInt * 1000000 + audibleAt.usec.toInt = us :=
      hmicros.trans hdot
    have hreading : clock.usec.toInt < audibleAt.usec.toInt ↔ us < 0 ∧ us % 1000000 ≠ 0 ∨
        us % 1000000 = 0 ∧ audibleAt.usec.toInt = 1000000 := by
      rw [husec, Int.tmod_eq_emod]
      split
      · rename_i h
        rw [Int.dvd_iff_emod_eq_zero] at h
        omega
      · rename_i h
        rw [Int.dvd_iff_emod_eq_zero] at h
        omega
    rw [hreading]
    constructor
    · rintro hexact ⟨-, hlate | ⟨hus, hkept⟩⟩
      · have := hexact.mp (.inr ⟨hdot, .inl hlate⟩)
        omega
      · have := hexact.mp (.inr ⟨hdot, .inr ⟨hus, (hwhole hus).mpr hkept⟩⟩)
        omega
    · intro hnot
      refine ⟨?_, .inl⟩
      rintro (hlt | ⟨-, hlate | ⟨hus, hkept⟩⟩)
      · exact hlt
      · exact absurd ⟨hdot, .inl hlate⟩ hnot
      · exact absurd ⟨hdot, .inr ⟨hus, (hwhole hus).mp hkept⟩⟩ hnot
  · simp [hdot]

/-- Below `2 ^ 29` seconds nothing overflows on the way to the audible instant, nor in its
comparison with a clock. -/
theorem chunkFits_of_within (hm : m.Timed) {timestamp : Span} (hts : timestamp.Within 536870912)
    (hoffset : m.clockOffset.span.Within 536870912) :
    (∀ now : Span, now.Within 536870912 → ChunkFits timestamp m.clockOffset.span
      m.serverBufferMs.span m.localLatency.span now) ∧
      (((timestamp.sub m.clockOffset.span).carry.add m.serverBufferMs.span).carry.sub
        m.localLatency.span).carry.Within 1073746126 := by
  obtain ⟨hclient, hclient'⟩ := hts.sub hoffset (by omega)
  obtain ⟨hbuffered, hbuffered'⟩ := hclient'.add (TimeVal.Short.within hm.serverBuffer) (by omega)
  obtain ⟨haudible, haudible'⟩ := hbuffered'.sub (TimeVal.Short.within hm.localLatency) (by omega)
  refine ⟨fun now hnow => ⟨hclient, hbuffered, haudible, ?_⟩, haudible'⟩
  exact (haudible'.sub hnow (by omega)).1

/-- The playing thread makes the same test at its own time. -/
theorem exists_handleSample (hm : m.Timed) {wc : WireChunk} (hts : wc.timestamp.Canonical)
    {recvTs audibleAt cmp : TimeVal} (hplaced : m.Placed wc recvTs audibleAt cmp)
    (hwithin : audibleAt.span.Within 1073746126) {elapsed : ℕ}
    (helapsed : TimeVal.InClock (elapsed / 1000 : ℕ)) (playerLatMs : UInt16) :
    ∃ playing, handleSample audibleAt elapsed playerLatMs = .ok playing ∧
      ((playing = .inThePast ↔ m.audibleMicros wc < (elapsed / 1000 : ℕ)) ↔
        ¬ m.OnTheDot wc (elapsed / 1000 : ℕ)) := by
  obtain ⟨hclockWithin, hclock, husec⟩ := helapsed.within
  obtain ⟨remaining, hremaining⟩ := TimeVal.exists_sub (hwithin.sub hclockWithin (by omega)).1
  have hsec : remaining.sec.toInt = (audibleAt.span.sub (TimeVal.fromMicros _).span).carry.sec :=
    congrArg Span.sec (TimeVal.sub_eq_ok.mp hremaining).2
  have hsign := remaining_neg_iff hm hts hplaced.audible hplaced.toMicros.1 hclock husec
  rw [← hsec] at hsign
  rw [handleSample, TimeVal.ofDuration_eq, hremaining, ok_bind]
  by_cases hlate : remaining.sec.toInt < 0
  · rw [if_pos hlate]
    exact ⟨.inThePast, rfl, by simpa [hlate] using hsign⟩
  · rw [if_neg hlate]
    exact ⟨_, rfl, by simpa [hlate] using hsign⟩

/-- In every state reached, a chunk is handed out with its exact audible instant or expires
with its exact lateness, and both this decision and the one of the playing thread are exact
unless the clock then reads the audible instant on the dot. -/
theorem expiry_exact_iff (hm : (system json).Reachable m) {base : Base}
    (hframing : m.framing = ⟨.readingPacket base⟩) {payload : List UInt8} {wc : WireChunk}
    (hdecode : base.decode json payload = .ok (.wireChunk wc)) (hts : wc.timestamp.Canonical)
    (htsSec : |wc.timestamp.sec.toInt| < 536870912)
    (hoffsetSec : |m.clockOffset.sec.toInt| < 536870912) {nowUs : ℤ}
    (hnow : TimeVal.InClock nowUs) :
    ∃ audibleAt lateness, audibleAt.toMicros = m.audibleMicros wc ∧
      lateness.toMicros = m.audibleMicros wc - nowUs ∧
      ((m.handleEvent json (.packetReceived payload) nowUs).1 = .ok (.expired lateness) ∨
        (m.handleEvent json (.packetReceived payload) nowUs).1 = .ok (.wireChunk wc audibleAt)) ∧
      (((m.handleEvent json (.packetReceived payload) nowUs).1 = .ok (.expired lateness) ↔
        m.audibleMicros wc < nowUs) ↔ ¬ m.OnTheDot wc nowUs) ∧
      ∀ (elapsed : ℕ) (playerLatMs : UInt16), TimeVal.InClock (elapsed / 1000 : ℕ) →
        ∃ playing, handleSample audibleAt elapsed playerLatMs = .ok playing ∧
          ((playing = .inThePast ↔ m.audibleMicros wc < (elapsed / 1000 : ℕ)) ↔
            ¬ m.OnTheDot wc (elapsed / 1000 : ℕ)) := by
  have htimed := timed_of_reach hm
  obtain ⟨hnowWithin, hnowMicros, hnowUsec⟩ := hnow.within
  obtain ⟨hfits, hwithin⟩ := chunkFits_of_within htimed (hts.within htsSec)
    (htimed.clockOffset.within hoffsetSec)
  obtain ⟨audibleAt, lateness, hplaced⟩ := exists_placed (hfits _ hnowWithin)
  have hsign := remaining_neg_iff htimed hts hplaced.audible hplaced.toMicros.1 hnowMicros hnowUsec
  have hsec : lateness.sec.toInt = (audibleAt.span.sub (TimeVal.fromMicros nowUs).span).carry.sec :=
    congrArg Span.sec hplaced.remaining
  rw [← hsec] at hsign
  have hresult : (m.handleEvent json (.packetReceived payload) nowUs).1 =
      .ok (if lateness.sec.toInt < 0 then .expired lateness else .wireChunk wc audibleAt) := by
    rw [handleEvent_packet hframing, processPacket_wireChunk hdecode]
    exact hplaced.result
  refine ⟨audibleAt, lateness, hplaced.toMicros.1, ?_, ?_, ?_, ?_⟩
  · rw [hplaced.toMicros.2, hnowMicros]
  · rw [hresult]
    split
    · exact .inl rfl
    · exact .inr rfl
  · rw [hresult]
    by_cases hlate : lateness.sec.toInt < 0 <;> simpa [hlate] using hsign
  · intro elapsed playerLatMs helapsed
    exact exists_handleSample htimed hts hplaced (hplaced.audible ▸ hwithin) helapsed playerLatMs

/-- A synchronized client 10 ms behind the server plays a chunk for 20.25 s at 21.21 s, so at
22 s it is late. -/
theorem expired_synchronized :
    ∃ (m : ClientMachine) (lateness : TimeVal), (system .compact).Reachable m ∧
      m.Synchronized ∧ lateness.toMicros = 21210000 - 22000000 ∧
      ((m.pending sampleChunk.base).handleEvent .compact (.packetReceived sampleChunk.payload)
        22000000).1 = .ok (.expired lateness) := by
  obtain ⟨m, hm, hsync, hoffset, hbuffer, hlatency, -⟩ := exists_synchronized
  have haudible : (m.pending sampleChunk.frame.base).audibleMicros
      ⟨⟨20, 250000⟩, [1, 2, 3, 4]⟩ = 21210000 := by
    rw [audibleMicros, pending, hoffset, hbuffer, hlatency]
    decide
  obtain ⟨audibleAt, lateness, -, hlateness, -, hexact, -⟩ := expiry_exact_iff
    (reachable_pending hm sampleChunk.frame) rfl
    (ServerWrite.decode_payload SerdeJson.compact_settingsLaws sampleChunk) (by decide) (by decide)
    (by rw [pending, hoffset]; decide) (by decide : TimeVal.InClock 22000000)
  rw [haudible] at hlateness hexact
  refine ⟨m, lateness, hm, hsync, hlateness, (hexact.mpr ?_).mpr (by decide)⟩
  rintro ⟨hdot, -⟩
  rw [haudible] at hdot
  revert hdot
  decide

/-- Due exactly at the end of its first second and received then, a chunk expires with no
lateness at all. -/
theorem expired_on_the_dot :
    ((new.pending (emptyChunk ⟨0, 1001⟩).base).handleEvent .compact
        (.packetReceived (emptyChunk ⟨0, 1001⟩).payload) 1000000).1 =
        .ok (.expired ⟨-1, 1000000⟩) ∧
      ¬ ∀ (m : ClientMachine) (base : Base) (payload : List UInt8) (wc : WireChunk) (nowUs : ℤ),
        (system .compact).Reachable m → m.framing = ⟨.readingPacket base⟩ →
        base.decode .compact payload = .ok (.wireChunk wc) → wc.timestamp.Canonical →
        |wc.timestamp.sec.toInt| < 536870912 → |m.clockOffset.sec.toInt| < 536870912 →
        TimeVal.InClock nowUs →
        ((∃ lateness, (m.handleEvent .compact (.packetReceived payload) nowUs).1 =
          .ok (.expired lateness)) ↔ m.audibleMicros wc < nowUs) := by
  let w := emptyChunk ⟨0, 1001⟩
  have hexpired : ((new.pending w.base).handleEvent .compact (.packetReceived w.payload)
      1000000).1 = .ok (.expired ⟨-1, 1000000⟩) := by
    decide +kernel
  refine ⟨hexpired, fun hall => ?_⟩
  have hlate := (hall (new.pending w.base) w.base w.payload ⟨⟨0, 1001⟩, []⟩ 1000000
    (reachable_pending (.init rfl) w.frame) rfl
    (ServerWrite.decode_payload SerdeJson.compact_settingsLaws w) (by decide) (by decide)
    (by decide) (by decide)).mp ⟨_, hexpired⟩
  revert hlate
  decide

end ClientMachine

end SnapcastClient
