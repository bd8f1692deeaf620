import Mathlib.Data.Int.ConditionallyCompleteOrder
import Mathlib.Data.List.Chain
import Mathlib.Order.Monotone.Basic
import SnapcastClient.Verification.Pipeline

/-! # The timestamps of the chunks

The counter of chunks is reset inside `pace` and raised outside it. Between two calls the anchor
and the counter together say when the next chunk is due: one chunk after the last one. -/

namespace SnapcastClient

variable {α ρ ε : Type}

namespace Pacer

variable {clock : ℕ → ℤ} {chunkUs : ℤ} {q q' : Pacer} {s : Stamp}

/-- The timestamps given, from first to last. -/
def stamps (q : Pacer) : List Stamp :=
  q.paced.filterMap fun
    | .stamped s => some s
    | .restarted => none

/-- The time the next chunk is due at, by an anchor. -/
def due (q : Pacer) (chunkUs t0 : ℤ) : ℤ :=
  t0 + q.chunksSinceAnchor * chunkUs

/-- A sleep has not returned early. -/
def Slept (clock : ℕ → ℤ) (q : Pacer) : Prop :=
  ∀ sleep ∈ q.sleeps, sleep.target ≤ clock sleep.woke

/-! ## One call of `pace` -/

/-- What a call of `pace` does. The anchor is the one set before, or the first moment. -/
structure PaceSpec (clock : ℕ → ℤ) (chunkUs : ℤ) (q : Pacer) (s : Stamp) (q' : Pacer) : Prop where
  paced : q'.paced = q.paced ++ [.stamped s]
  sleeps : q.sleeps ⊆ q'.sleeps
  returned : ∃ i, q.moments ≤ i ∧ i < q'.moments ∧ s.returned = clock i ∧
    (s.timestamp ≤ s.returned ∨ ⟨i, s.timestamp⟩ ∈ q'.sleeps)
  schedule : s.reanchored = false →
    s.timestamp = q.due chunkUs (q.t0Us.getD (clock q.moments)) ∧
      s.compared - s.timestamp ≤ chunkUs ∧ q'.t0Us = some (q.t0Us.getD (clock q.moments)) ∧
      q'.chunksSinceAnchor = q.chunksSinceAnchor
  reanchor : s.reanchored = true →
    chunkUs < s.timestamp - q.due chunkUs (q.t0Us.getD (clock q.moments)) ∧
      s.compared = s.timestamp ∧ q'.t0Us = some s.timestamp ∧ q'.chunksSinceAnchor = 0

theorem anchor_eq (clock : ℕ → ℤ) (q : Pacer) :
    ∃ moments, q.moments ≤ moments ∧
      q.anchor clock = (q.t0Us.getD (clock q.moments),
        { q with t0Us := some (q.t0Us.getD (clock q.moments)), moments }) := by
  obtain ⟨t0, k, moments, sleeps, paced⟩ := q
  cases t0 with
  | none => exact ⟨moments + 1, Nat.le_succ _, rfl⟩
  | some t0 => exact ⟨moments, le_rfl, rfl⟩

theorem wait_eq (clock : ℕ → ℤ) (q : Pacer) (target : ℤ) :
    ∃ i sleeps, q.moments ≤ i ∧ q.sleeps ⊆ sleeps ∧
      (target ≤ clock i ∨ ⟨i, target⟩ ∈ sleeps) ∧
      q.wait clock target = (clock i, { q with moments := i + 1, sleeps }) := by
  obtain ⟨t0, k, moments, sleeps, paced⟩ := q
  by_cases hsleep : clock moments < target
  · refine ⟨moments + 1, sleeps ++ [⟨moments + 1, target⟩], Nat.le_succ _, ?_, .inr ?_, ?_⟩
    · exact List.subset_append_left _ _
    · exact List.mem_append_right _ (List.mem_singleton_self _)
    · change (if clock moments < target then _ else _) = _
      rw [if_pos hsleep]
      rfl
  · refine ⟨moments, sleeps, le_rfl, List.Subset.refl _, .inl (not_lt.mp hsleep), ?_⟩
    change (if clock moments < target then _ else _) = _
    rw [if_neg hsleep]

theorem pace_spec (clock : ℕ → ℤ) (chunkUs : ℤ) (q : Pacer) :
    ∃ s, (q.pace clock chunkUs).1 = s.timestamp ∧
      PaceSpec clock chunkUs q s (q.pace clock chunkUs).2 := by
  obtain ⟨m, hm, hanchor⟩ := anchor_eq clock q
  set t0 := q.t0Us.getD (clock q.moments) with ht0
  by_cases hlate : chunkUs < clock m - q.due chunkUs t0
  · obtain ⟨i, sleeps, hi, hsleeps, htime, hwait⟩ :=
      wait_eq clock { q with t0Us := some (clock m), chunksSinceAnchor := 0, moments := m + 1 }
        (clock m)
    have hpace : q.pace clock chunkUs = (clock m, {
        t0Us := some (clock m), chunksSinceAnchor := 0, moments := i + 1, sleeps
        paced := q.paced ++ [.stamped ⟨clock m, clock m, true, clock i⟩] }) := by
      rw [due] at hlate
      simp only [pace, hanchor, nowUs, hlate, decide_true, if_true, hwait]
    rw [hpace]
    refine ⟨_, rfl, rfl, hsleeps, ⟨i, ?_, Nat.lt_succ_self i, rfl, htime⟩, ?_, ?_⟩
    · exact hm.trans ((Nat.le_succ m).trans hi)
    · rintro ⟨⟩
    · exact fun _ => ⟨hlate, rfl, rfl, rfl⟩
  · obtain ⟨i, sleeps, hi, hsleeps, htime, hwait⟩ :=
      wait_eq clock { q with t0Us := some t0, moments := m + 1 } (q.due chunkUs t0)
    have hpace : q.pace clock chunkUs = (q.due chunkUs t0, {
        t0Us := some t0, chunksSinceAnchor := q.chunksSinceAnchor, moments := i + 1, sleeps
        paced := q.paced ++ [.stamped ⟨q.due chunkUs t0, clock m, false, clock i⟩] }) := by
      rw [due] at hlate hwait ⊢
      simp only [pace, hanchor, nowUs, hlate, decide_false, Bool.false_eq_true, if_false, hwait]
    rw [hpace]
    refine ⟨_, rfl, rfl, hsleeps, ⟨i, ?_, Nat.lt_succ_self i, rfl, htime⟩, ?_, ?_⟩
    · exact hm.trans ((Nat.le_succ m).trans hi)
    · exact fun _ => ⟨rfl, not_lt.mp hlate, rfl, rfl⟩
    · rintro ⟨⟩

/-! ## Runs -/

/-- Two timestamps in a row are one chunk apart, or more than two when the second reanchored. -/
def Follows (chunkUs : ℤ) : PaceEvent → PaceEvent → Prop
  | .stamped a, .stamped b =>
      if b.reanchored then 2 * chunkUs < b.timestamp - a.timestamp
      else b.timestamp - a.timestamp = chunkUs
  | _, _ => True

/-- The next chunk is due one chunk after the last one. -/
structure WellPaced (clock : ℕ → ℤ) (chunkUs : ℤ) (q : Pacer) : Prop where
  idle : q.t0Us = none → q.chunksSinceAnchor = 0 ∧ ∀ s, q.paced.getLast? ≠ some (.stamped s)
  behind : ∀ t0, q.t0Us = some t0 → ∀ s ∈ q.stamps, s.timestamp + chunkUs ≤ q.due chunkUs t0
  last : ∀ t0 s, q.t0Us = some t0 → q.paced.getLast? = some (.stamped s) →
    s.timestamp + chunkUs = q.due chunkUs t0
  past : ∀ s ∈ q.stamps, ∃ i < q.moments, s.timestamp ≤ clock i
  spaced : q.paced.IsChain (Follows chunkUs)
  sound : ∀ s ∈ q.stamps, s.timestamp ≤ s.returned ∧ s.compared - s.timestamp ≤ chunkUs
  sorted : q.stamps.Pairwise fun a b => a.timestamp ≤ b.timestamp

theorem PaceSpec.stamps (h : PaceSpec clock chunkUs q s (q.pace clock chunkUs).2) :
    (q.counted clock chunkUs).stamps = q.stamps ++ [s] := by
  rw [Pacer.stamps, show (q.counted clock chunkUs).paced = _ from h.paced, List.filterMap_append]
  rfl

theorem stamps_restarted (q : Pacer) : q.restarted.stamps = q.stamps := by
  rw [stamps, restarted, List.filterMap_append]
  exact List.append_nil _

/-- The timestamp is no earlier than the due time, and the next due time is one chunk later. -/
theorem PaceSpec.timestamp (h : PaceSpec clock chunkUs q s q') (hc : 0 ≤ chunkUs) :
    q.due chunkUs (q.t0Us.getD (clock q.moments)) ≤ s.timestamp ∧
      s.compared - s.timestamp ≤ chunkUs ∧
      ∃ t0, q'.t0Us = some t0 ∧ s.timestamp = t0 + q'.chunksSinceAnchor * chunkUs := by
  cases hre : s.reanchored with
  | false =>
      obtain ⟨htime, hcompared, ht0, hk⟩ := h.schedule hre
      exact ⟨htime.ge, hcompared, _, ht0, by rw [hk, htime, due]⟩
  | true =>
      obtain ⟨hlate, hcompared, ht0, hk⟩ := h.reanchor hre
      refine ⟨by omega, by omega, _, ht0, ?_⟩
      rw [hk]
      omega

/-- A chunk that follows another without a restart is spaced from it. -/
theorem PaceSpec.follows (h : PaceSpec clock chunkUs q s q') (hq : q.WellPaced clock chunkUs)
    {event : PaceEvent} (hevent : q.paced.getLast? = some event) :
    Follows chunkUs event (.stamped s) := by
  cases event with
  | restarted => trivial
  | stamped a =>
      cases hanchor : q.t0Us with
      | none => exact absurd hevent ((hq.idle hanchor).2 a)
      | some t0 =>
          have hlast := hq.last t0 a hanchor hevent
          cases hre : s.reanchored with
          | false =>
              have htime := (h.schedule hre).1
              rw [hanchor, Option.getD_some] at htime
              simp only [Follows, hre, Bool.false_eq_true, if_false]
              omega
          | true =>
              have hlate := (h.reanchor hre).1
              rw [hanchor, Option.getD_some] at hlate
              simp only [Follows, hre, if_true]
              omega

theorem counted_wellPaced (hclock : Monotone clock) (hc : 0 ≤ chunkUs)
    (hq : q.WellPaced clock chunkUs) (hslept : (q.counted clock chunkUs).Slept clock) :
    (q.counted clock chunkUs).WellPaced clock chunkUs := by
  obtain ⟨s, -, hspec⟩ := pace_spec clock chunkUs q
  obtain ⟨hdue, hcompared, t0, ht0, htime⟩ := hspec.timestamp hc
  obtain ⟨i, hi, hlt, hreturned, hsleep⟩ := hspec.returned
  have hstamps := hspec.stamps
  have hreturn : s.timestamp ≤ s.returned := by
    rcases hsleep with hsleep | hsleep
    · exact hsleep
    · exact (hslept _ hsleep).trans_eq hreturned.symm
  have hnext : s.timestamp + chunkUs = (q.counted clock chunkUs).due chunkUs t0 := by
    rw [due, counted, htime]
    ring
  -- an earlier timestamp lies before the anchor, or a chunk before the due time
  have hearlier : ∀ a ∈ q.stamps, a.timestamp ≤ s.timestamp := by
    intro a ha
    refine le_trans ?_ hdue
    cases hanchor : q.t0Us with
    | none =>
        obtain ⟨j, hj, hpast⟩ := hq.past a ha
        rw [Option.getD_none, due, (hq.idle hanchor).1, Int.zero_mul, Int.add_zero]
        exact hpast.trans (hclock hj.le)
    | some t0 =>
        have hbehind := hq.behind t0 hanchor a ha
        rw [Option.getD_some]
        omega
  constructor
  case idle =>
    intro hnone
    cases hnone.symm.trans ht0
  case behind =>
    intro t0' ht0' a ha
    obtain rfl := Option.some.inj (ht0.symm.trans ht0')
    rw [hstamps] at ha
    rw [← hnext]
    rcases List.mem_append.mp ha with ha | ha
    · have := hearlier a ha
      omega
    · rw [List.mem_singleton.mp ha]
  case last =>
    intro t0' a ht0' ha
    obtain rfl := Option.some.inj (ht0.symm.trans ht0')
    have hlast : (q.counted clock chunkUs).paced.getLast? = some (.stamped s) := by
      rw [show (q.counted clock chunkUs).paced = q.paced ++ [.stamped s] from hspec.paced,
        List.getLast?_concat]
    obtain rfl := PaceEvent.stamped.inj (Option.some.inj (hlast.symm.trans ha))
    exact hnext
  case past =>
    intro a ha
    rw [hstamps] at ha
    rcases List.mem_append.mp ha with ha | ha
    · obtain ⟨j, hj, hpast⟩ := hq.past a ha
      exact ⟨j, hj.trans_le (hi.trans hlt.le), hpast⟩
    · obtain rfl := List.mem_singleton.mp ha
      exact ⟨i, hlt, hreturn.trans_eq hreturned⟩
  case spaced =>
    rw [show (q.counted clock chunkUs).paced = q.paced ++ [.stamped s] from hspec.paced]
    refine hq.spaced.append (List.isChain_singleton _) fun event hevent b hb => ?_
    obtain rfl := Option.some.inj hb
    exact hspec.follows hq hevent
  case sound =>
    intro a ha
    rw [hstamps] at ha
    rcases List.mem_append.mp ha with ha | ha
    · exact hq.sound a ha
    · obtain rfl := List.mem_singleton.mp ha
      exact ⟨hreturn, hcompared⟩
  case sorted =>
    rw [hstamps, List.pairwise_append]
    refine ⟨hq.sorted, List.pairwise_singleton _ _, fun a ha b hb => ?_⟩
    rw [List.mem_singleton.mp hb]
    exact hearlier a ha

theorem restarted_wellPaced (hq : q.WellPaced clock chunkUs) :
    q.restarted.WellPaced clock chunkUs := by
  have hstamps := stamps_restarted q
  constructor
  case idle =>
    refine fun _ => ⟨rfl, fun s hs => ?_⟩
    rw [restarted, List.getLast?_concat] at hs
    cases hs
  case behind => rintro _ ⟨⟩
  case last => rintro _ _ ⟨⟩
  case past => exact hstamps ▸ hq.past
  case spaced =>
    refine hq.spaced.append (List.isChain_singleton _) fun event _ b hb => ?_
    obtain rfl := Option.some.inj hb
    cases event <;> trivial
  case sound => exact hstamps ▸ hq.sound
  case sorted => exact hstamps ▸ hq.sorted

end Pacer

namespace Pipeline

variable {S : Setup α ρ ε} {p : Pipeline S} {resampler : ρ} {encoder : ε}

theorem wellPaced_of_reach (h : (system S resampler encoder).Reachable p)
    (hclock : Monotone S.clock) (hslept : p.Slept S.clock) :
    p.WellPaced S.clock S.chunkUs := by
  revert hslept
  refine invariant_of_reach (I := fun p => p.Slept S.clock → p.WellPaced S.clock S.chunkUs) h ?_ ?_
  · intro _
    constructor <;> simp [fresh, Pacer.stamps]
  · intro p p' hp hmicro hslept
    rcases hmicro.pacer with ⟨hpacer, -⟩ | ⟨hpacer, -⟩ | ⟨hpacer, -⟩ <;> rw [hpacer] at hslept ⊢
    · exact hp hslept
    · obtain ⟨s, -, hspec⟩ := Pacer.pace_spec S.clock S.chunkUs p.toPacer
      exact Pacer.counted_wellPaced hclock S.chunkUs_nonneg
        (hp fun sleep hsleep => hslept sleep (hspec.sleeps hsleep)) hslept
    · exact Pacer.restarted_wellPaced (hp hslept)

/-- The chunks carry the timestamps that `pace` returned. -/
theorem broadcast_of_reach (h : (system S resampler encoder).Reachable p) :
    p.broadcast.map (fun b => b.2.timestamp) =
      p.stamps.map fun s => TimeVal.fromMicros s.timestamp := by
  refine invariant_of_reach (I := fun p => p.broadcast.map (fun b => b.2.timestamp) =
    p.stamps.map fun s => TimeVal.fromMicros s.timestamp) h rfl ?_
  intro p p' hp hmicro
  rcases hmicro.pacer with ⟨hpacer, hcast⟩ | ⟨hpacer, encIn, data, hcast⟩ | ⟨hpacer, hcast⟩ <;>
    rw [hpacer, hcast]
  · exact hp
  · obtain ⟨s, hs, hspec⟩ := Pacer.pace_spec S.clock S.chunkUs p.toPacer
    rw [List.map_append, hp, hs, hspec.stamps, List.map_append]
    rfl
  · rw [hp, Pacer.stamps_restarted]

/-- The timestamps of the chunks that a pipeline has broadcast. -/
structure ChunkTimestamps (p : Pipeline S) : Prop where
  spaced : p.paced.IsChain (Pacer.Follows S.chunkUs)
  sorted : p.stamps.Pairwise fun a b => a.timestamp ≤ b.timestamp
  reached : ∀ s ∈ p.stamps, s.timestamp ≤ s.returned
  recent : ∀ s ∈ p.stamps, s.compared - s.timestamp ≤ S.chunkUs
  broadcast : p.broadcast.map (fun b => b.2.timestamp) =
    p.stamps.map fun s => TimeVal.fromMicros s.timestamp

/-- After any calls on a clock that does not go back, with sleeps that do not return early. -/
theorem chunk_timestamps (h : (system S resampler encoder).Reachable p)
    (hclock : Monotone S.clock) (hslept : p.Slept S.clock) : ChunkTimestamps p := by
  have hp := wellPaced_of_reach h hclock hslept
  constructor
  case spaced => exact hp.spaced
  case sorted => exact hp.sorted
  case reached => exact fun s hs => (hp.sound s hs).1
  case recent => exact fun s hs => (hp.sound s hs).2
  case broadcast => exact broadcast_of_reach h

/-- One push of 882 frames makes three chunks. -/
theorem chunk_timestamps_through :
    ∃ p : Pipeline through, p.stamps.map Stamp.timestamp = [0, 5000, 10000] ∧
      ChunkTimestamps p := by
  let samples : List ℤ := List.replicate 1764 1
  have hstep : (step (fresh () () : Pipeline through) (.push samples)).any (fun p =>
      p.stamps.map Stamp.timestamp = [0, 5000, 10000] ∧
        ∀ sleep ∈ p.sleeps, sleep.target ≤ through.clock sleep.woke) = true := by decide +kernel
  obtain ⟨p, hp, hsome⟩ := (Option.any_eq_true _ _).mp hstep
  obtain ⟨hstamps, hslept⟩ := of_decide_eq_true hsome
  have hclock : Monotone through.clock := by
    intro i j hij
    have := Nat.mul_le_mul hij hij
    simp only [through]
    omega
  exact ⟨p, hstamps, chunk_timestamps (.step (.init rfl) trivial hp) hclock hslept⟩

end Pipeline

end SnapcastClient
