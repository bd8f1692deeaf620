import SnapcastClient.Library.OrderStatistic
import SnapcastClient.Model.SerdeJson
import SnapcastClient.Verification.Overflow

/-! # The median of the samples

Once the window is full the scratch buffer holds nothing else, and the offset is the median of
the last twenty samples. Before that, what earlier sorts left behind takes part. -/

namespace SnapcastClient

namespace ClientMachine

open TransitionSystem (WithHistory)

variable {json : SerdeJson} {p p' : WithHistory ClientMachine (List TimeVal)} {c : Call}

/-- The upper median by microseconds. -/
def upperMedian (samples : List TimeVal) : Option TimeVal :=
  (samples.insertionSort fun x y => x.toMicros ≤ y.toMicros)[samples.length / 2]?

/-- On canonical samples the code's order sorts by microseconds. -/
theorem insertionSort_micros {samples : List TimeVal} (h : ∀ t ∈ samples, t.Canonical) :
    (samples.insertionSort fun x y => x.toMicros ≤ y.toMicros) =
      samples.insertionSort (· ≤ ·) := by
  have hmap := List.map_insertionSort (fun x y : TimeVal => x.toMicros ≤ y.toMicros)
    (fun x y : TimeVal => x ≤ y) id samples
    fun x hx y hy => ((h x hx).le_iff (h y hy)).symm
  simpa using hmap

/-- The history is the samples in the window and those that left it. -/
structure Sampled (p : WithHistory ClientMachine (List TimeVal)) : Prop where
  timed : p.state.Timed
  canonical : ∀ t ∈ p.history, t.Canonical
  window : p.state.latencyBuf.items = p.history.rtake latencySamples
  full : latencySamples ≤ p.history.length →
    p.state.sortedLatencyBuf = (p.history.rtake latencySamples).insertionSort (· ≤ ·) ∧
      p.state.sortedLatencyBuf[latencySamples / 2]? = some p.state.clockOffset

/-- A call that records no sample. -/
structure Keeps (p : WithHistory ClientMachine (List TimeVal))
    (p' : WithHistory ClientMachine (List TimeVal)) : Prop where
  history : p'.history = p.history
  latencyBuf : p'.state.latencyBuf = p.state.latencyBuf
  sorted : p'.state.sortedLatencyBuf = p.state.sortedLatencyBuf
  clockOffset : p'.state.clockOffset = p.state.clockOffset

/-- A call that records one. What earlier sorts left beyond the samples is sorted in. -/
structure Records (p : WithHistory ClientMachine (List TimeVal)) (sample : TimeVal)
    (p' : WithHistory ClientMachine (List TimeVal)) : Prop where
  history : p'.history = p.history ++ [sample]
  canonical : sample.Canonical
  window : p'.state.latencyBuf.items = p'.history.rtake latencySamples
  sorted : p'.state.sortedLatencyBuf = (p'.state.latencyBuf.items ++
    p.state.sortedLatencyBuf.drop p'.state.latencyBuf.len).insertionSort (· ≤ ·)
  median : p'.state.sortedLatencyBuf[latencySamples - p'.state.latencyBuf.len +
    p'.state.latencyBuf.len / 2]? = some p'.state.clockOffset

theorem step_cases (hp : Sampled p) (h : (sampledSystem json).Step p c p') :
    p.state.sample? json c = none ∧ Keeps p p' ∨
      ∃ sample, p.state.sample? json c = some sample ∧ Records p sample p' := by
  obtain ⟨state, history⟩ := p
  obtain ⟨state', history'⟩ := p'
  obtain ⟨hcall, rfl⟩ := h
  cases call_effect hp.timed.sized hcall with
  | requested => exact .inl ⟨rfl, by simp [sample?], rfl, rfl, rfl⟩
  | kept framing hsample => exact .inl ⟨hsample, by simp [hsample], rfl, rfl, rfl⟩
  | recorded hsample hmeasure hrecord =>
      rename_i sample
      refine .inr ⟨sample, hsample, ?_⟩
      obtain ⟨median, hrecord', hmedian⟩ := record_eq (m := { state with framing := .new })
        hp.timed.sized sample
      obtain rfl := Except.ok.inj (hrecord'.symm.trans hrecord)
      have hhistory : history ++ (some sample).toList = history ++ [sample] := rfl
      have hwindow := CircularBuffer.pushBack_items_of_rtake hp.window sample
      dsimp only at hsample ⊢
      rw [hsample, hhistory]
      exact ⟨rfl, (measure_spec hmeasure).1, hwindow, rfl, hmedian⟩
  | settled hsample hsettings =>
      obtain ⟨-, -, hunchanged⟩ := processSettings_spec hsettings
      refine .inl ⟨hsample, by simp [hsample], ?_, ?_, ?_⟩ <;> rw [hunchanged]

theorem length_rtake (n : ℕ) (l : List TimeVal) : (l.rtake n).length = min n l.length := by
  rw [List.rtake, List.length_drop]
  omega

theorem Records.len {sample : TimeVal} (h : Records p sample p') :
    p'.state.latencyBuf.len = min latencySamples p'.history.length := by
  rw [CircularBuffer.len, h.window, length_rtake]

theorem Sampled.keeps (hp : Sampled p) (htimed : p'.state.Timed) (h : Keeps p p') :
    Sampled p' := by
  obtain ⟨hhistory, hlatencyBuf, hsorted, hclockOffset⟩ := h
  refine ⟨htimed, ?_, ?_, ?_⟩
  · rw [hhistory]
    exact hp.canonical
  · rw [hhistory, hlatencyBuf]
    exact hp.window
  · rw [hhistory, hsorted, hclockOffset]
    exact hp.full

theorem Sampled.records (hp : Sampled p) (htimed : p'.state.Timed) {sample : TimeVal}
    (h : Records p sample p') : Sampled p' := by
  refine ⟨htimed, ?_, h.window, fun hfull => ?_⟩
  · intro t ht
    rw [h.history] at ht
    rcases List.mem_append.mp ht with ht | ht
    · exact hp.canonical t ht
    · exact List.mem_singleton.mp ht ▸ h.canonical
  · have hlen : p'.state.latencyBuf.len = latencySamples := by
      rw [h.len]
      exact Nat.min_eq_left hfull
    have hnothing : p.state.sortedLatencyBuf.drop p'.state.latencyBuf.len = [] :=
      List.drop_of_length_le (hp.timed.sized.trans hlen.symm).le
    have hsorted := h.sorted
    have hmedian := h.median
    rw [hnothing, List.append_nil, h.window] at hsorted
    rw [hlen, Nat.sub_self, Nat.zero_add] at hmedian
    exact ⟨hsorted, hmedian⟩

theorem sampled_of_reach {ok : WithHistory ClientMachine (List TimeVal) → Call → Prop}
    (h : (sampledSystem json).Reach ok p) : Sampled p := by
  refine h.invariant ?_ ?_
  · rintro ⟨state, history⟩ ⟨rfl, rfl⟩
    exact ⟨timed_new, nofun, rfl, nofun⟩
  · intro p c p' hp _ hstep
    have htimed := (call_effect hp.timed.sized hstep.1).timed hp.timed
    rcases step_cases hp hstep with ⟨-, hkeeps⟩ | ⟨sample, -, hrecords⟩
    · exact hp.keeps htimed hkeeps
    · exact hp.records htimed hrecords

/-- Two windows of the same samples have the same sorted buffer and the same offset. -/
theorem clockOffset_eq_of_perm (hp : Sampled p) (hp' : Sampled p')
    (hfull : latencySamples ≤ p.history.length) (hfull' : latencySamples ≤ p'.history.length)
    (hperm : (p'.history.rtake latencySamples).Perm (p.history.rtake latencySamples)) :
    p'.state.clockOffset = p.state.clockOffset := by
  obtain ⟨hsorted, hmedian⟩ := hp.full hfull
  obtain ⟨hsorted', hmedian'⟩ := hp'.full hfull'
  have hsame : p'.state.sortedLatencyBuf = p.state.sortedLatencyBuf := by
    rw [hsorted, hsorted']
    refine List.Perm.eq_of_pairwise' (List.pairwise_insertionSort _ _)
      (List.pairwise_insertionSort _ _) ?_
    exact (List.perm_insertionSort _ _).trans (hperm.trans (List.perm_insertionSort _ _).symm)
  rw [hsame, hmedian] at hmedian'
  exact (Option.some.inj hmedian').symm

/-- A sample that fills the window, or finds it full, sorts over all of the scratch buffer. -/
theorem record_over {m : ClientMachine} (hm : m.Sized) {scratch : List TimeVal}
    (hscratch : scratch.length = latencySamples) {sample : TimeVal}
    (hfull : (m.latencyBuf.pushBack sample).len = latencySamples) :
    record { m with sortedLatencyBuf := scratch } sample = m.record sample := by
  obtain ⟨median, hrecord, hmedian⟩ := record_eq hm sample
  obtain ⟨median', hrecord', hmedian'⟩ :=
    record_eq (m := { m with sortedLatencyBuf := scratch }) hscratch sample
  have hsorted : ClientMachine.scratch { m with sortedLatencyBuf := scratch } sample =
      m.scratch sample := by
    rw [ClientMachine.scratch, ClientMachine.scratch,
      List.drop_of_length_le (hscratch.trans hfull.symm).le,
      List.drop_of_length_le (hm.trans hfull.symm).le]
  rw [hsorted] at hrecord' hmedian'
  obtain rfl := Option.some.inj (hmedian.symm.trans hmedian')
  exact hrecord'.trans hrecord.symm

/-! ## While the window fills -/

/-- What earlier sorts left beyond the samples of a call does not reach the median: as many
entries above it are left as there are samples to make up for them. -/
def Undisturbed (json : SerdeJson) (p : WithHistory ClientMachine (List TimeVal)) (c : Call) :
    Prop :=
  ∀ sample, p.state.sample? json c = some sample → p.history.length + 1 < latencySamples →
    ∀ median, upperMedian (p.history ++ [sample]) = some median →
      (p.history.length + 1) / 2 + (p.state.sortedLatencyBuf.drop
          (p.history.length + 1)).countP (fun t => median.toMicros < t.toMicros) <
        (p.history ++ [sample]).countP fun t => t.toMicros ≤ median.toMicros

instance (json : SerdeJson) (p : WithHistory ClientMachine (List TimeVal)) (c : Call) :
    Decidable (Undisturbed json p c) :=
  inferInstanceAs (Decidable (∀ sample ∈ p.state.sample? json c,
    p.history.length + 1 < latencySamples → ∀ median ∈ upperMedian (p.history ++ [sample]), _ < _))

/-- The entry of all values at the rank of the median of the samples is that median when few
enough of the others lie above it. -/
theorem upperMedian_eq_iff {samples extra : List TimeVal} {offset : TimeVal}
    (hpos : 0 < samples.length) (hsamples : ∀ t ∈ samples, t.Canonical)
    (hextra : ∀ t ∈ extra, t.Canonical)
    (hoffset : ((samples ++ extra).insertionSort (· ≤ ·))[extra.length + samples.length / 2]? =
      some offset) :
    upperMedian samples = some offset ↔ ∀ median, upperMedian samples = some median →
      samples.length / 2 + extra.countP (fun t => median.toMicros < t.toMicros) <
        samples.countP fun t => t.toMicros ≤ median.toMicros := by
  have hi : samples.length / 2 < (samples.insertionSort (· ≤ ·)).length := by
    rw [List.length_insertionSort]
    omega
  set median := (samples.insertionSort (· ≤ ·))[samples.length / 2] with hmedian
  have hupper : upperMedian samples = some median := by
    rw [upperMedian, insertionSort_micros hsamples]
    exact List.getElem?_eq_getElem hi
  have hcanonical : median.Canonical :=
    hsamples _ ((List.mem_insertionSort _).mp (List.getElem_mem hi))
  obtain ⟨hrank, hget⟩ := List.getElem?_eq_some_iff.mp hoffset
  have hshift := OrderStatistic.getElem_add_eq_iff
    (List.pairwise_insertionSort (· ≤ ·) samples) (List.pairwise_insertionSort (· ≤ ·) _)
    ((List.perm_insertionSort _ _).trans
      ((List.perm_insertionSort (· ≤ ·) samples).symm.append_right extra)) hi hrank
  rw [hget, ← hmedian, (List.perm_insertionSort _ _).countP_eq] at hshift
  have habove : extra.countP (fun t => median.toMicros < t.toMicros) =
      extra.countP (median < ·) :=
    List.countP_congr fun t ht => by
      simpa using (lt_iff_lt_of_le_iff_le ((hextra t ht).le_iff hcanonical)).symm
  have hbelow : (samples.countP fun t => t.toMicros ≤ median.toMicros) =
      samples.countP (· ≤ median) :=
    List.countP_congr fun t ht => by simpa using ((hsamples t ht).le_iff hcanonical).symm
  rw [hupper, Option.some_inj, eq_comm, hshift]
  constructor
  · intro h median' hmedian'
    obtain rfl := Option.some.inj hmedian'
    rwa [habove, hbelow]
  · intro h
    have hall := h median rfl
    rwa [habove, hbelow] at hall

theorem Records.median_iff (hp : Sampled p) {sample : TimeVal} (h : Records p sample p')
    (hfilling : p'.history.length < latencySamples) :
    upperMedian p'.history = some p'.state.clockOffset ↔
      ∀ median, upperMedian p'.history = some median →
        p'.history.length / 2 + (p.state.sortedLatencyBuf.drop p'.history.length).countP
            (fun t => median.toMicros < t.toMicros) <
          p'.history.countP fun t => t.toMicros ≤ median.toMicros := by
  have hlen : p'.state.latencyBuf.len = p'.history.length := by
    rw [h.len]
    exact Nat.min_eq_right hfilling.le
  have hitems : p'.state.latencyBuf.items = p'.history := by
    rw [h.window, List.rtake, Nat.sub_eq_zero_of_le hfilling.le, List.drop_zero]
  have hextra : (p.state.sortedLatencyBuf.drop p'.history.length).length =
      latencySamples - p'.history.length := by
    rw [List.length_drop, hp.timed.sized]
  have hpos : 0 < p'.history.length := by
    rw [h.history, List.length_append, List.length_singleton]
    exact Nat.succ_pos _
  have hcanonical : ∀ t ∈ p'.history, t.Canonical := by
    intro t ht
    rw [h.history] at ht
    rcases List.mem_append.mp ht with ht | ht
    · exact hp.canonical t ht
    · exact List.mem_singleton.mp ht ▸ h.canonical
  have hmedian := h.median
  rw [h.sorted, hlen, hitems, ← hextra] at hmedian
  exact upperMedian_eq_iff hpos hcanonical
    (fun t ht => hp.timed.scratch t (List.mem_of_mem_drop ht)) hmedian

/-! ## Runs of replies -/

/-- What an executed run ends in can be reached. -/
theorem exists_reach_of_calls (ok : WithHistory ClientMachine (List TimeVal) → Call → Bool)
    (calls : List Call) (goal : WithHistory ClientMachine (List TimeVal) → Bool)
    (h : (TransitionSystem.run (TransitionSystem.stepWithHistory (call .compact)
      fun m samples c => samples ++ (m.sample? .compact c).toList) ok calls ⟨new, []⟩).any goal =
        true) :
    ∃ p, (sampledSystem .compact).Reach (fun p c => ok p c = true) p ∧ goal p = true := by
  obtain ⟨p, hp, hgoal⟩ := (Option.any_eq_true _ _).mp h
  have hreach : (sampledSystem .compact).Reach (fun p c => ok p c = true) ⟨new, []⟩ :=
    .init ⟨rfl, rfl⟩
  rw [sampledSystem, system, TransitionSystem.withHistory_ofStep] at hreach
  have hcalls := TransitionSystem.reach_of_run hreach hp
  rw [← TransitionSystem.withHistory_ofStep] at hcalls
  exact ⟨p, hcalls, hgoal⟩

/-! ## The offset -/

/-- After twenty samples the scratch buffer is the last twenty in order and the offset their
median, whatever the buffer held before, and in whatever order they came. -/
theorem median_of_full (hp : (sampledSystem json).Reachable p)
    (hfull : latencySamples ≤ p.history.length) :
    p.state.sortedLatencyBuf.Perm (p.history.rtake latencySamples) ∧
      p.state.sortedLatencyBuf.Pairwise (fun x y => x.toMicros ≤ y.toMicros) ∧
      p.state.sortedLatencyBuf[10]? = some p.state.clockOffset ∧
      (∀ t ∈ p.history, t.Canonical) ∧
      (∀ x ∈ p.history, ∀ y ∈ p.history, x ≤ y ↔ x.toMicros ≤ y.toMicros) ∧
      (∀ sample scratch, scratch.length = latencySamples →
        record { p.state with sortedLatencyBuf := scratch } sample = p.state.record sample) ∧
      ∀ p', (sampledSystem json).Reachable p' → latencySamples ≤ p'.history.length →
        (p'.history.rtake latencySamples).Perm (p.history.rtake latencySamples) →
        p'.state.clockOffset = p.state.clockOffset := by
  have hs := sampled_of_reach hp
  obtain ⟨hsorted, hmedian⟩ := hs.full hfull
  have horder : ∀ x ∈ p.history, ∀ y ∈ p.history, x ≤ y ↔ x.toMicros ≤ y.toMicros :=
    fun x hx y hy => (hs.canonical x hx).le_iff (hs.canonical y hy)
  refine ⟨?_, ?_, hmedian, hs.canonical, horder, ?_, ?_⟩
  · rw [hsorted]
    exact List.perm_insertionSort _ _
  · have hmem : ∀ t ∈ p.state.sortedLatencyBuf, t ∈ p.history := by
      intro t ht
      rw [hsorted, List.mem_insertionSort] at ht
      exact List.mem_of_mem_drop ht
    have hpairwise : p.state.sortedLatencyBuf.Pairwise (· ≤ ·) :=
      hsorted ▸ List.pairwise_insertionSort _ _
    exact hpairwise.imp_of_mem fun hx hy h => (horder _ (hmem _ hx) _ (hmem _ hy)).mp h
  · intro sample scratch hscratch
    refine record_over hs.timed.sized hscratch ?_
    rw [CircularBuffer.len, CircularBuffer.pushBack_items_of_rtake hs.window sample, length_rtake,
      List.length_append]
    omega
  · intro p' hp' hfull' hperm
    exact clockOffset_eq_of_perm hs (sampled_of_reach hp') hfull hfull' hperm

/-- Twenty-one samples from 0 to 20 ms in mixed order: the first one leaves the window, and the
median of the others is 11 ms. -/
theorem median_of_full_evicted :
    ∃ p, (sampledSystem .compact).Reachable p ∧
      p.history.map TimeVal.toMicros = ((List.range 21).map fun i => 1000 * (5 * i % 21 : ℤ)) ∧
      p.state.sortedLatencyBuf.Perm (p.history.rtake latencySamples) ∧
      p.state.sortedLatencyBuf[10]? = some p.state.clockOffset ∧
      p.state.clockOffset.toMicros = 11000 := by
  let calls : List Call :=
    (List.range 21).flatMap fun i => replyCalls (2000 * (5 * i % 21 : ℤ)) 0
  obtain ⟨p, hp, hgoal⟩ := exists_reach_of_calls (fun _ _ => true) calls
    (fun p => p.history.map TimeVal.toMicros =
      ((List.range 21).map fun i => 1000 * (5 * i % 21 : ℤ)) ∧
        p.state.clockOffset.toMicros = 11000) (by decide +kernel)
  obtain ⟨hhistory, hoffset⟩ := of_decide_eq_true hgoal
  have hfull : latencySamples ≤ p.history.length := by
    rw [← List.length_map TimeVal.toMicros, hhistory]
    decide
  obtain ⟨hperm, -, hmedian, -⟩ := median_of_full hp.reachable hfull
  exact ⟨p, hp.reachable, hhistory, hperm, hmedian, hoffset⟩

/-- A reply that leaves fewer than twenty samples sets the offset to their median exactly when
it is undisturbed, and in runs where all replies are the offset is their median throughout. -/
theorem median_filling_iff (json : SerdeJson) :
    (∀ p c p' sample, (sampledSystem json).Reachable p → (sampledSystem json).Step p c p' →
      p.state.sample? json c = some sample → p'.history.length < latencySamples →
      (upperMedian p'.history = some p'.state.clockOffset ↔ Undisturbed json p c)) ∧
      ∀ p, (sampledSystem json).Reach (Undisturbed json) p → 1 ≤ p.history.length →
        p.history.length < latencySamples → upperMedian p.history = some p.state.clockOffset := by
  have hstep : ∀ p c p' sample, Sampled p → (sampledSystem json).Step p c p' →
      p.state.sample? json c = some sample → p'.history.length < latencySamples →
      (upperMedian p'.history = some p'.state.clockOffset ↔ Undisturbed json p c) := by
    intro p c p' sample hp hstep hsample hfilling
    rcases step_cases hp hstep with ⟨hnone, -⟩ | ⟨sample', hsample', hrecords⟩
    · rw [hsample] at hnone
      cases hnone
    · obtain rfl := Option.some.inj (hsample.symm.trans hsample')
      have hiff := hrecords.median_iff hp hfilling
      rw [hrecords.history] at hiff hfilling ⊢
      rw [List.length_append, List.length_singleton] at hiff hfilling
      rw [hiff]
      constructor
      · intro h sample' hsample'' _ median hmedian
        obtain rfl := Option.some.inj (hsample.symm.trans hsample'')
        exact h median hmedian
      · exact fun h median hmedian => h sample hsample hfilling median hmedian
  refine ⟨fun p c p' sample hp => hstep p c p' sample (sampled_of_reach hp), ?_⟩
  intro p hp
  refine hp.invariant_of (I := Sampled)
    (J := fun p => 1 ≤ p.history.length → p.history.length < latencySamples →
      upperMedian p.history = some p.state.clockOffset) (fun _ => sampled_of_reach) ?_ ?_
  · rintro p ⟨-, hnil⟩ hpos
    rw [hnil] at hpos
    cases hpos
  · intro p c p' hs hmedian hok hs' hpos hfilling
    rcases step_cases hs hs' with ⟨-, hkeeps⟩ | ⟨sample, hsample, hrecords⟩
    · rw [hkeeps.history] at hpos hfilling ⊢
      rw [hkeeps.clockOffset]
      exact hmedian hpos hfilling
    · exact (hstep p c p' sample hs hs' hsample hfilling).mpr hok

/-- Replies that measure 10, 20 and 30 ms are undisturbed, and the offset is their median. -/
theorem median_filling_rising :
    ∃ p c p', (sampledSystem .compact).Reach (Undisturbed .compact) p ∧
      (sampledSystem .compact).Step p c p' ∧
      p'.history.map TimeVal.toMicros = [10000, 20000, 30000] ∧
      (upperMedian p'.history = some p'.state.clockOffset ↔ Undisturbed .compact p c) ∧
      upperMedian p'.history = some p'.state.clockOffset ∧
      p'.state.clockOffset.toMicros = 20000 := by
  let frame := Time.frame 0 0 .zero (.fromMicros 60000) .zero
  let last : Call := .handleEvent (.packetReceived frame.payload) 0
  obtain ⟨p, hp, hgoal⟩ := exists_reach_of_calls
    (fun p c => decide (Undisturbed .compact p c))
    (replyCalls 20000 0 ++ replyCalls 40000 0 ++ [.handleEvent (.headerReceived frame.header) 0])
    (fun p => (p.state.sample? .compact last).isSome ∧ Undisturbed .compact p last ∧
      (TransitionSystem.stepWithHistory (call .compact)
        (fun m samples c => samples ++ (m.sample? .compact c).toList) p last).any fun p' =>
          p'.history.map TimeVal.toMicros = [10000, 20000, 30000] ∧
            p'.state.clockOffset.toMicros = 20000) (by decide +kernel)
  obtain ⟨hsome, hok, hany⟩ := of_decide_eq_true hgoal
  obtain ⟨sample, hsample⟩ := Option.isSome_iff_exists.mp hsome
  obtain ⟨p', hstep, hgoal'⟩ := (Option.any_eq_true _ _).mp hany
  obtain ⟨hhistory, hoffset⟩ := of_decide_eq_true hgoal'
  have hundisturbed : (sampledSystem .compact).Reach (Undisturbed .compact) p :=
    hp.mono fun _ _ => of_decide_eq_true
  have hstep' : (sampledSystem .compact).Step p last p' := by
    rw [sampledSystem, system, TransitionSystem.withHistory_ofStep]
    exact hstep
  have hlength : p'.history.length = 3 := by
    rw [← List.length_map TimeVal.toMicros, hhistory]
    rfl
  have hfilling : p'.history.length < latencySamples := by
    rw [hlength]
    decide
  obtain ⟨hiff, hrun⟩ := median_filling_iff .compact
  exact ⟨p, last, p', hundisturbed, hstep', hhistory,
    hiff p last p' sample hp.reachable hstep' hsample hfilling,
    hrun p' (.step hundisturbed hok hstep') (by omega) hfilling, hoffset⟩

/-- The first reply measures a negative offset, and the zeros of the scratch buffer hide it. -/
theorem median_filling_negative :
    ¬ ∀ p, (sampledSystem .compact).Reachable p → 1 ≤ p.history.length →
      p.history.length < latencySamples → upperMedian p.history = some p.state.clockOffset := by
  intro hall
  obtain ⟨p, hp, hgoal⟩ := exists_reach_of_calls (fun _ _ => true) (replyCalls 0 100000)
    (fun p => p.history = [⟨-1, 950000⟩] ∧ p.state.clockOffset = .zero) (by decide +kernel)
  obtain ⟨hhistory, hoffset⟩ := of_decide_eq_true hgoal
  have hmedian := hall p hp.reachable (by simp [hhistory]) (by simp [hhistory, latencySamples])
  rw [hhistory, hoffset] at hmedian
  revert hmedian
  decide +kernel

end ClientMachine

end SnapcastClient
