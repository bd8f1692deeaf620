import SnapcastClient.Library.OrderStatistic
import SnapcastClient.Verification.Exchange

/-! # Samples, offsets and delays

Which request a sample is measured against, and what the median of a full window says about
the distance between the two clocks. -/

namespace SnapcastClient

namespace Answer

/-- The delay of the request, with the server clock `θ` ahead of the client clock. -/
def uplink (θ : ℤ) (a : Answer) : ℤ :=
  a.reply.received - (a.reply.request.stamp + θ)

/-- The delay of the reply. -/
def downlink (θ : ℤ) (a : Answer) : ℤ :=
  a.handled + θ - a.reply.sent

/-- The two delays differ by at most `2 * eps`. -/
def Balanced (θ eps : ℤ) (a : Answer) : Prop :=
  |a.uplink θ - a.downlink θ| ≤ 2 * eps

instance (θ eps : ℤ) (a : Answer) : Decidable (a.Balanced θ eps) :=
  inferInstanceAs (Decidable (_ ≤ _))

end Answer

namespace Exchange

open TimeVal (InClock Representable)

variable {json : SerdeJson} {s s' : Exchange} {l : Label}

/-! ## Pairing -/

/-- Stamps of older requests lie at least a millisecond before the newest one. -/
structure Spaced (s : Exchange) : Prop where
  outstanding : ∀ q, s.Outstanding q →
    s.machine.lastTimeSentUs = q.stamp ∨ q.stamp + 1000 ≤ s.machine.lastTimeSentUs
  answers : ∀ a ∈ s.answers,
    a.newest = a.reply.request.stamp ∨ a.reply.request.stamp + 1000 ≤ a.newest

theorem Effect.spaced (hs : s.Spaced) (h : Effect s l s') : s'.Spaced where
  outstanding q hq := by
    rcases h.lastTimeSentUs with ⟨hlast, hno⟩ | ⟨hdue, hl⟩
    · rw [hlast]
      exact hs.outstanding q ((h.outstanding hq).resolve_right (hno _))
    · rcases h.outstanding hq with hq | hnew
      · have hspaced := hs.outstanding q hq
        have hgap := hdue.le_sub
        omega
      · exact .inl (Label.request.inj (hl.symm.trans hnew))
  answers a ha := by
    rcases h.answers ha with ha | ⟨-, hr, hnewest, -, -⟩
    · exact hs.answers a ha
    · rw [hnewest]
      exact hs.outstanding _ (.inr ⟨_, hr, rfl⟩)

theorem spaced_of_reach {ok : Exchange → Label → Prop} (h : (system json).Reach ok s) :
    s.Spaced :=
  reach_invariant h
    ⟨by simp [Outstanding, Replied, new], by simp [new]⟩
    fun _ _ _ _ hs _ heffect => heffect.spaced hs

/-- In every run a sample is measured against its own request when no later one was emitted,
and, as long as the client clock fits its field, only then. -/
theorem sample_pairing (h : (system json).Reachable s) {a : Answer} (ha : a ∈ s.answers) :
    (a.newest = a.reply.request.stamp →
        a.sample.toMicros = halfDifference a.reply a.handled a.reply.request.stamp) ∧
      (Representable a.newest → Representable a.reply.request.stamp →
        a.sample.toMicros = halfDifference a.reply a.handled a.reply.request.stamp →
        a.newest = a.reply.request.stamp) := by
  have hsample := ((logged_of_reach h).measured a ha).2
  refine ⟨fun hnewest => by rw [hsample, hnewest], fun hnew hstamp heq => ?_⟩
  rw [hsample, halfDifference, halfDifference, TimeVal.toMicros_fromMicros hnew.1 hnew.2,
    TimeVal.toMicros_fromMicros hstamp.1 hstamp.2, tdiv_eq_ite, tdiv_eq_ite] at heq
  rcases (spaced_of_reach h).answers a ha with hnewest | hgap
  · exact hnewest
  · split_ifs at heq <;> omega

/-! ## Alternating exchanges -/

/-- Each reply is handled before the next request is emitted. -/
def Alternating (s : Exchange) : Label → Prop
  | .request now => InClock now ∧ ∀ q, ¬ s.Outstanding q
  | .serve _ received sent => InClock received ∧ InClock sent
  | .packet now => InClock now
  | _ => True

/-- All clock readings of an answer are in range. -/
structure InRange (a : Answer) : Prop where
  stamp : InClock a.reply.request.stamp
  received : InClock a.reply.received
  sent : InClock a.reply.sent
  handled : InClock a.handled

/-- What alternation keeps: whatever is outstanding is the newest request. -/
structure Alternated (s : Exchange) : Prop where
  last : InClock s.machine.lastTimeSentUs
  outstanding : ∀ q, s.Outstanding q → q.stamp = s.machine.lastTimeSentUs
  replied : ∀ r, s.Replied r → InClock r.received ∧ InClock r.sent
  answers : ∀ a ∈ s.answers, a.newest = a.reply.request.stamp ∧ InRange a

theorem Effect.alternated (hs : s.Alternated) (hok : s.Alternating l) (h : Effect s l s') :
    s'.Alternated where
  last := by
    rcases h.lastTimeSentUs with ⟨hlast, -⟩ | ⟨-, rfl⟩
    · rw [hlast]
      exact hs.last
    · exact hok.1
  outstanding q hq := by
    rcases h.lastTimeSentUs with ⟨hlast, hno⟩ | ⟨-, rfl⟩
    · rw [hlast]
      exact hs.outstanding q ((h.outstanding hq).resolve_right (hno _))
    · rcases h.outstanding hq with hq | hnew
      · exact absurd hq (hok.2 q)
      · exact (Label.request.inj hnew).symm
  replied r hr := by
    rcases h.replied hr with hr | ⟨-, rfl⟩
    · exact hs.replied r hr
    · exact hok
  answers a ha := by
    rcases h.answers ha with ha | ⟨rfl, hr, hnewest, -, -⟩
    · exact hs.answers a ha
    · have hstamp := hs.outstanding _ (.inr ⟨_, hr, rfl⟩)
      obtain ⟨hreceived, hsent⟩ := hs.replied _ hr
      exact ⟨hnewest.trans hstamp.symm, ⟨by rw [hstamp]; exact hs.last, hreceived, hsent, hok⟩⟩

theorem alternated_of_reach (h : (system json).Reach Alternating s) : s.Alternated :=
  reach_invariant h
    ⟨by simp [InClock, new, ClientMachine.new], by simp [Outstanding, Replied, new],
      by simp [Replied, new], by simp [new]⟩
    fun _ _ _ _ hs hok heffect => heffect.alternated hs hok

/-- The sample of an alternating exchange is the clock distance up to half the asymmetry of
the delays. -/
theorem sample_eq_of_alternating (h : (system json).Reach Alternating s) (θ : ℤ) {a : Answer}
    (ha : a ∈ s.answers) :
    a.sample.toMicros = (2 * θ + a.uplink θ - a.downlink θ).tdiv 2 := by
  obtain ⟨hnewest, hrange⟩ := (alternated_of_reach h).answers a ha
  rw [((logged_of_reach h).measured a ha).2, hnewest, halfDifference, hrange.received.toMicros_eq,
    hrange.stamp.toMicros_eq, hrange.handled.toMicros_eq, hrange.sent.toMicros_eq]
  congr 1
  simp only [Answer.uplink, Answer.downlink]
  ring

/-- A balanced exchange measures the clock distance up to `eps`. -/
theorem sample_mem_of_balanced {θ eps : ℤ} {a : Answer}
    (hsample : a.sample.toMicros = (2 * θ + a.uplink θ - a.downlink θ).tdiv 2)
    (h : a.Balanced θ eps) : θ - eps ≤ a.sample.toMicros ∧ a.sample.toMicros ≤ θ + eps := by
  obtain ⟨hlo, hhi⟩ := abs_le.mp h
  rw [hsample, tdiv_eq_ite]
  constructor <;> split_ifs <;> omega

/-- The offset of a full window is one of its samples. -/
theorem Logged.exists_sample (hlog : s.Logged) (hlen : latencySamples ≤ s.answers.length) :
    ∃ a ∈ s.answers, a.sample = s.machine.clockOffset := by
  obtain ⟨hrank, hget⟩ := List.getElem?_eq_some_iff.mp (hlog.median hlen)
  have hmem := List.getElem_mem hrank
  rw [hget, (List.perm_insertionSort (· ≤ ·) _).mem_iff, hlog.window] at hmem
  exact List.mem_map.mp (List.mem_of_mem_drop hmem)

/-- The median of a full window lies among its samples once these outnumber the others. -/
theorem clockOffset_mem {θ eps : ℤ} (hlog : s.Logged)
    (hsample : ∀ a ∈ s.answers,
      a.sample.toMicros = (2 * θ + a.uplink θ - a.downlink θ).tdiv 2)
    (hlen : latencySamples ≤ s.answers.length)
    (hcount : 11 ≤ (s.answers.rtake latencySamples).countP fun a => a.Balanced θ eps) :
    |s.machine.clockOffset.toMicros - θ| ≤ eps := by
  set last := s.answers.rtake latencySamples with hlast
  have hmem : ∀ a ∈ last, a ∈ s.answers := fun a ha => List.mem_of_mem_drop ha
  have hitems : s.machine.latencyBuf.items = last.map Answer.sample := by
    rw [hlog.window, hlast, List.rtake, List.rtake, List.map_drop, List.length_map]
  set sorted := s.machine.latencyBuf.items.insertionSort (· ≤ ·) with hsorted
  have hperm : sorted.Perm (last.map Answer.sample) := by
    rw [hsorted, hitems]
    exact List.perm_insertionSort (· ≤ ·) _
  have hcanonical : ∀ t ∈ sorted, t.Canonical := by
    intro t ht
    obtain ⟨a, ha, rfl⟩ := List.mem_map.mp (hperm.mem_iff.mp ht)
    exact (hlog.measured a (hmem a ha)).1
  have hpairwise : (sorted.map TimeVal.toMicros).Pairwise (· ≤ ·) := by
    rw [List.pairwise_map]
    have hle : sorted.Pairwise (· ≤ ·) := List.pairwise_insertionSort (· ≤ ·) _
    exact hle.imp_of_mem fun hx hy hxy =>
      ((hcanonical _ hx).le_iff (hcanonical _ hy)).mp hxy
  have hlen' : (sorted.map TimeVal.toMicros).length = latencySamples := by
    rw [List.length_map, hperm.length_eq, List.length_map, hlast, List.rtake, List.length_drop]
    omega
  have hcount' : 11 ≤ (sorted.map TimeVal.toMicros).countP
      fun us => θ - eps ≤ us ∧ us ≤ θ + eps := by
    refine hcount.trans ?_
    rw [List.countP_map, (hperm.countP_eq _), List.countP_map]
    refine List.countP_mono_left fun a ha hbalanced => ?_
    have hbounds := sample_mem_of_balanced (hsample a (hmem a ha)) (of_decide_eq_true hbalanced)
    simpa using hbounds
  obtain ⟨hlo, hhi⟩ := OrderStatistic.getElem_mem_Icc (i := latencySamples / 2) hpairwise
    (by rw [hlen']; decide) (Nat.lt_of_lt_of_le (by decide) hcount')
    (by rw [hlen', latencySamples]; omega)
  have hmedian := hlog.median hlen
  obtain ⟨hrank, hget⟩ := List.getElem?_eq_some_iff.mp hmedian
  rw [List.getElem_map, hget] at hlo hhi
  rw [abs_le]
  omega

/-- In every alternating run each exchange completes and records the clock distance up to
half the asymmetry of its delays, and from the twentieth on the median is as close to it as
the balanced exchanges, once these are eleven of the last twenty. -/
theorem clock_recovery (h : (system json).Reach Alternating s) (θ : ℤ) :
    (∀ r now, s.pending = some (.reply r) → InClock now → ∃ s', Step json s (.packet now) s') ∧
      (∀ a ∈ s.answers, a.sample.toMicros = (2 * θ + a.uplink θ - a.downlink θ).tdiv 2) ∧
      ∀ eps, latencySamples ≤ s.answers.length →
        11 ≤ ((s.answers.rtake latencySamples).countP fun a => a.Balanced θ eps) →
        |s.machine.clockOffset.toMicros - θ| ≤ eps := by
  refine ⟨fun r now hpending hnow => ?_, fun a ha => sample_eq_of_alternating h θ ha,
    fun eps => clockOffset_mem (logged_of_reach h) fun a ha => sample_eq_of_alternating h θ ha⟩
  have halt := alternated_of_reach h
  obtain ⟨hreceived, hsent⟩ := halt.replied r (.inr hpending)
  obtain ⟨m, offset, hstep, -⟩ :=
    replyPacket_step json (wired_of_reach h) hpending hreceived halt.last hsent hnow
  exact ⟨_, hstep⟩

/-! ## Runs of whole exchanges -/

/-- Nothing is in flight. -/
structure Idle (s : Exchange) : Prop where
  requests : s.requests = []
  replies : s.replies = []
  pending : s.pending = none

theorem Idle.not_outstanding (h : s.Idle) (q : Request) : ¬ s.Outstanding q := by
  simp [Outstanding, Replied, h.requests, h.replies, h.pending]

/-- A due exchange runs to its end, whatever the readings of the two clocks. -/
theorem exchange_run (h : (system json).Reach Alternating s) (hidle : s.Idle)
    (now received sent handled : ℤ) (hdue : s.machine.Due now) (hnow : InClock now)
    (hreceived : InClock received) (hsent : InClock sent) (hhandled : InClock handled) :
    ∃ s' a, (system json).Reach Alternating s' ∧ s'.Idle ∧
      s'.machine.lastTimeSentUs = now ∧ s'.answers = s.answers ++ [a] ∧
      a.reply.request.stamp = now ∧ a.reply.received = received ∧ a.reply.sent = sent ∧
      a.handled = handled := by
  have h₁ : (system json).Reach Alternating _ :=
    .step h (by exact ⟨hnow, hidle.not_outstanding⟩) (request_step json hdue)
  rw [hidle.requests, List.nil_append] at h₁
  obtain ⟨r, hq, hr, hs, hserve⟩ := serve_step json (wired_of_reach h₁)
    (q := s.newRequest now) (by simp) received sent 0
  have h₂ : (system json).Reach Alternating _ := .step h₁ (by exact ⟨hreceived, hsent⟩) hserve
  rw [hidle.replies, List.nil_append, List.erase_cons_head] at h₂
  obtain ⟨base, hheader⟩ := replyHeader_step json (wired_of_reach h₂) (r := r)
    (by simp) hidle.pending
  have h₃ : (system json).Reach Alternating _ := .step h₂ (by trivial) hheader
  rw [List.erase_cons_head] at h₃
  obtain ⟨m, offset, hpacket, hrecorded⟩ := replyPacket_step json (wired_of_reach h₃)
    rfl (hr ▸ hreceived) hnow (hs ▸ hsent) hhandled
  have h₄ : (system json).Reach Alternating _ := .step h₃ (by exact hhandled) hpacket
  refine ⟨_, _, h₄, ⟨rfl, rfl, rfl⟩, ?_, rfl, by rw [hq]; rfl, hr, hs, rfl⟩
  change m.lastTimeSentUs = now
  rw [hrecorded.unchanged]
  rfl

/-- A second apart, any number of exchanges run, each request 5 ms under way and its reply as
long as the network takes. -/
theorem delayed_run (json : SerdeJson) {θ : ℤ} (hθ : |θ| ≤ 1000000000) {d : ℕ → ℤ}
    (hd : ∀ i, 0 ≤ d i ∧ d i ≤ 900000) (n : ℕ) (hn : n ≤ 1000) :
    ∃ s, (system json).Reach Alternating s ∧ s.Idle ∧
      s.machine.lastTimeSentUs ≤ 1000000 * n ∧
      (s.answers.map fun a => a.uplink θ - a.downlink θ) =
        (List.range n).map fun i => 5000 - d i := by
  induction n with
  | zero => exact ⟨new, .init rfl, ⟨rfl, rfl, rfl⟩, by decide, rfl⟩
  | succ n ih =>
      obtain ⟨s, hs, hidle, hlast, hasymmetry⟩ := ih (by omega)
      obtain ⟨hlo, hhi⟩ := abs_le.mp hθ
      obtain ⟨hlo', hhi'⟩ := hd n
      obtain ⟨s', a, hs', hidle', hlast', hanswers, hstamp, hreceived, hsent, hhandled⟩ :=
        exchange_run hs hidle (1000000 * (n + 1)) (1000000 * (n + 1) + θ + 5000)
          (1000000 * (n + 1) + θ + 6000) (1000000 * (n + 1) + 6000 + d n)
          (.inr (by omega)) (by constructor <;> omega) (by constructor <;> omega)
          (by constructor <;> omega) (by constructor <;> omega)
      refine ⟨s', hs', hidle', by rw [hlast']; push_cast; omega, ?_⟩
      have hnew : a.uplink θ - a.downlink θ = 5000 - d n := by
        rw [Answer.uplink, Answer.downlink, hstamp, hreceived, hsent, hhandled]
        ring
      rw [hanswers, List.map_append, hasymmetry, List.range_succ, List.map_append,
        List.map_singleton, List.map_singleton, hnew]

/-- Exchanges with equal delays run. -/
theorem symmetric_run (json : SerdeJson) {θ : ℤ} (hθ : |θ| ≤ 1000000000) (n : ℕ) (hn : n ≤ 1000) :
    ∃ s, (system json).Reach Alternating s ∧ s.Idle ∧ s.answers.length = n ∧
      ∀ a ∈ s.answers, a.Balanced θ 0 := by
  obtain ⟨s, hs, hidle, -, hasymmetry⟩ :=
    delayed_run json hθ (d := fun _ => 5000) (by simp) n hn
  refine ⟨s, hs, hidle, ?_, fun a ha => ?_⟩
  · simpa using congrArg List.length hasymmetry
  · have hmem := List.mem_map_of_mem (f := fun a => a.uplink θ - a.downlink θ) ha
    rw [hasymmetry] at hmem
    simp_all [Answer.Balanced]

/-- When all of the last exchanges are balanced, so are eleven of them. -/
theorem eleven_le_countP {θ eps : ℤ} (hlen : latencySamples ≤ s.answers.length)
    (h : ∀ a ∈ s.answers, a.Balanced θ eps) :
    11 ≤ ((s.answers.rtake latencySamples).countP fun a => a.Balanced θ eps) := by
  have hall : (s.answers.rtake latencySamples).countP (fun a => a.Balanced θ eps) =
      (s.answers.rtake latencySamples).length :=
    List.countP_eq_length.mpr fun a ha => decide_eq_true (h a (List.mem_of_mem_drop ha))
  rw [hall, List.rtake, List.length_drop, Nat.sub_sub_self hlen]
  decide

/-- Nine replies of twenty take 600 ms longer than the rest, whose delays differ by up to 0.2 ms:
the offset is a quarter of a second up to 0.1 ms. -/
theorem clock_recovery_outliers :
    ∃ s, (system .compact).Reach Alternating s ∧ s.answers.length = 20 ∧
      (s.answers.countP fun a => ¬ a.Balanced 250000 100) = 9 ∧
      |s.machine.clockOffset.toMicros - 250000| ≤ 100 := by
  obtain ⟨s, hs, -, -, hasymmetry⟩ :=
    delayed_run .compact (θ := 250000) (by decide)
      (d := fun i => if i % 20 < 9 then 605000 else 5000 + 200 * (i % 2))
      (by intro i; split_ifs <;> omega) 20 (by omega)
  have hlen : s.answers.length = 20 := by simpa using congrArg List.length hasymmetry
  have hcount (p : ℤ → Bool) : (s.answers.countP fun a => p (a.uplink 250000 - a.downlink 250000)) =
      ((List.range 20).map fun i : ℕ =>
        5000 - if i % 20 < 9 then 605000 else 5000 + 200 * (i % 2 : ℤ)).countP p := by
    rw [← hasymmetry, List.countP_map]
    rfl
  have hall : s.answers.rtake latencySamples = s.answers := by
    rw [List.rtake, hlen]
    rfl
  refine ⟨s, hs, hlen, ?_, (clock_recovery hs 250000).2.2 100 (by rw [hlen]; decide) ?_⟩
  · exact (hcount fun d => ¬ |d| ≤ 2 * 100).trans (by decide)
  · rw [hall]
    exact (hcount fun d => |d| ≤ 2 * 100).trans_ge (by decide)

theorem sample_pairing_single :
    ∃ s a, (system .compact).Reachable s ∧ a ∈ s.answers ∧
      a.sample.toMicros = halfDifference a.reply a.handled a.reply.request.stamp := by
  obtain ⟨s, hs, -, hlen, -⟩ :=
    symmetric_run .compact (θ := 0) (by decide) 1 (by omega)
  obtain ⟨a, ha⟩ := List.length_eq_one_iff.mp hlen
  have hmem : a ∈ s.answers := by simp [ha]
  have hnewest := ((alternated_of_reach hs).answers a hmem).1
  exact ⟨s, a, hs.reachable, hmem, (sample_pairing hs.reachable hmem).1 hnewest⟩

/-- Two requests a millisecond apart, then the reply to the first one: it is measured against
the second. -/
theorem sample_pairing_overtaken :
    ¬ ∀ s a, (system .compact).Reachable s → a ∈ s.answers →
      a.sample.toMicros = halfDifference a.reply a.handled a.reply.request.stamp := by
  intro hall
  have h₁ : (system .compact).Reachable _ :=
    .step (.init rfl) trivial (request_step .compact (by decide : new.machine.Due 1000))
  have h₂ : (system .compact).Reachable _ :=
    .step h₁ trivial (request_step .compact
      (by decide : (new.machine.requested 1000).Due 2000))
  obtain ⟨r, hq, hr, hs, hserve⟩ := serve_step .compact (wired_of_reach h₂)
    (q := new.newRequest 1000) (by simp [new]) 1500 1500 0
  have h₃ : (system .compact).Reachable _ := .step h₂ trivial hserve
  obtain ⟨base, hheader⟩ := replyHeader_step .compact (wired_of_reach h₃) (r := r)
    (by simp) rfl
  have h₄ : (system .compact).Reachable _ := .step h₃ trivial hheader
  obtain ⟨m, offset, hpacket, -⟩ := replyPacket_step .compact (wired_of_reach h₄)
    rfl (by rw [hr]; decide) (by decide : InClock 2000) (by rw [hs]; decide)
    (by decide : InClock 2500)
  have h₅ : (system .compact).Reachable _ := .step h₄ trivial hpacket
  let a : Answer := ⟨r, 2500, 2000, offset⟩
  have hmem : a ∈ new.answers ++ [a] := List.mem_append_right _ (List.mem_singleton_self a)
  have hsample := ((logged_of_reach h₅).measured _ hmem).2
  have hclaim := hall _ _ h₅ hmem
  simp only [hsample, halfDifference, a, hr, hs, hq] at hclaim
  revert hclaim
  decide

end Exchange

end SnapcastClient
