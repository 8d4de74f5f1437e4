import RunNginx.Lib.Ranks
import RunNginx.Stats

/-!
# Latency percentiles

The percentiles are read off the histogram of the latencies: the first class up to which
there are so many requests stands for the latency of that rank.

`percentiles_iff`: the reported latencies are in the classes of the true ones exactly if all
of these are at most one microsecond.  The rank of each percentile but the last is taken to
be a tenth of what it is, and the value for a class lies in the class below it.
-/

namespace RunNginx

open Ranks

/-- A request that has been handled, with its duration in nanoseconds. -/
structure Handled where
  status : Nat
  bytesOut : Nat
  bytesIn : Nat
  elapsed : Nat
deriving DecidableEq, Repr

/-- `elapsed.as_micros() as u64` -/
def Handled.us (h : Handled) : Nat :=
  h.elapsed / 1000 % 2 ^ 64

/-- The first class up to which there are at least `target` requests, by its value. -/
def percentileFrom (target : Nat) : Nat → Nat → List Nat → Nat
  | _, _, [] => 2 ^ 31
  | i, cumulative, count :: counts =>
      if target ≤ cumulative + count then (if i = 0 then 0 else 2 ^ (i - 1))
      else percentileFrom target (i + 1) (cumulative + count) counts

def percentileUs (buckets : List Nat) (total perMilleX10 : Nat) : Nat :=
  percentileFrom (total * perMilleX10 % 2 ^ 64 / 1000) 0 0 buckets

namespace Stats

theorem length_noCounts : (List.replicate latencyClasses 0).length = latencyClasses :=
  List.length_replicate

def new : Stats where
  requestsTotal := 0
  bytesSent := 0
  bytesReceived := 0
  active := 0
  status2xx := 0
  status3xx := 0
  status4xx := 0
  status5xx := 0
  latencyBuckets := List.replicate latencyClasses 0
  buckets_length := length_noCounts

/-- The counters behind these requests. -/
def recordAll (hs : List Handled) : Stats :=
  hs.foldl (fun s h => s.recordRequest h.status h.bytesOut h.bytesIn h.us) new

/-- The four percentiles, in microseconds. -/
def latencyPercentiles (s : Stats) : Nat × Nat × Nat × Nat :=
  if s.requestsTotal = 0 then (0, 0, 0, 0)
  else
    (percentileUs s.latencyBuckets s.requestsTotal 50,
      percentileUs s.latencyBuckets s.requestsTotal 90,
      percentileUs s.latencyBuckets s.requestsTotal 99,
      percentileUs s.latencyBuckets s.requestsTotal 999)

theorem recordAll_concat
    (hs : List Handled) (h : Handled) :
    recordAll (hs ++ [h]) =
      (recordAll hs).recordRequest h.status h.bytesOut h.bytesIn h.us := by
  rw [recordAll, List.foldl_append]
  rfl

theorem requestsTotal_recordAll
    (hs : List Handled) :
    (recordAll hs).requestsTotal = hs.length := by
  induction hs using List.reverseRecOn with
  | nil => rfl
  | append_singleton hs h ih =>
      rw [recordAll_concat, recordRequest, ih, List.length_append, List.length_singleton]

/-- The histogram counts the latencies by their classes. -/
theorem latencyBuckets_recordAll
    (hs : List Handled) :
    (recordAll hs).latencyBuckets =
      classCounts latencyClasses latencyBucket (hs.map Handled.us) := by
  induction hs using List.reverseRecOn with
  | nil => exact (classCounts_nil latencyClasses latencyBucket).symm
  | append_singleton hs h ih =>
      have hstep : (recordAll (hs ++ [h])).latencyBuckets =
          (recordAll hs).latencyBuckets.modify (latencyBucket h.us) (· + 1) := by
        rw [recordAll_concat]
        rfl
      rw [hstep, ih, List.map_append, List.map_singleton, classCounts_concat]

end Stats

section Classes

theorem latencyBucket_mono
    {us us' : Nat} (h : us ≤ us') :
    latencyBucket us ≤ latencyBucket us' := by
  unfold latencyBucket
  split
  · exact Nat.zero_le _
  · rename_i hus
    have hus' : us' ≠ 0 := by omega
    rw [if_neg hus']
    have hlog : us.log2 ≤ us'.log2 := (Nat.le_log2 hus').mpr ((Nat.log2_self_le hus).trans h)
    omega

theorem latencyBucket_eq_zero_iff
    {us : Nat} :
    latencyBucket us = 0 ↔ us ≤ 1 := by
  unfold latencyBucket latencyClasses
  split
  · rename_i hus
    exact iff_of_true rfl (by omega)
  · rename_i hus
    have hlog := @Nat.log2_lt us 1 hus
    omega

/-- A power of two is in the class of its exponent. -/
theorem latencyBucket_two_pow
    {i : Nat} (h : i < latencyClasses) :
    latencyBucket (2 ^ i) = i := by
  unfold latencyBucket
  rw [if_neg (Nat.two_pow_pos i).ne', Nat.log2_two_pow]
  omega

end Classes

section Percentiles

/-- The class is found at the latest where the counts add up to the target. -/
theorem percentileFrom_le
    {target j : Nat} (i : Nat) {cumulative : Nat} {counts : List Nat}
    (hj : j < counts.length) (h : target ≤ cumulative + (counts.take (j + 1)).sum) :
    ∃ m ≤ j, percentileFrom target i cumulative counts =
      if i + m = 0 then 0 else 2 ^ (i + m - 1) := by
  induction counts generalizing i cumulative j with
  | nil => cases hj
  | cons count counts ih =>
      rw [percentileFrom]
      by_cases hfirst : target ≤ cumulative + count
      · exact ⟨0, Nat.zero_le j, if_pos hfirst⟩
      · rw [if_neg hfirst]
        cases j with
        | zero =>
            refine absurd ?_ hfirst
            simpa using h
        | succ j =>
            rw [List.take_succ_cons, List.sum_cons, ← Nat.add_assoc] at h
            obtain ⟨m, hm, heq⟩ := ih (i + 1) (Nat.lt_of_succ_lt_succ hj) h
            refine ⟨m + 1, Nat.succ_le_succ hm, ?_⟩
            rw [heq, Nat.add_assoc, Nat.add_comm 1 m]

/-- The rank of a percentile, which is rounded up. -/
def rank (perMille n : Nat) : Nat :=
  (perMille * n + 999) / 1000

/-- The returned value is in the class of the latency of this rank. -/
def Accurate (latencies : List Nat) (perMille returned : Nat) : Prop :=
  (nthSmallest latencies (rank perMille latencies.length)).map latencyBucket =
    some (latencyBucket returned)

theorem rank_bounds
    {perMille n : Nat} (hpos : 0 < perMille) (hle : perMille ≤ 1000) (hn : 0 < n) :
    0 < rank perMille n ∧ rank perMille n ≤ n := by
  have hlow : 0 < perMille * n := Nat.mul_pos hpos hn
  have hhigh : perMille * n ≤ 1000 * n := Nat.mul_le_mul_right n hle
  unfold rank
  omega

/-- A percentile is right exactly if its latency is at most one microsecond. -/
theorem accurate_iff
    {latencies : List Nat} {perMille asked : Nat}
    (hpos : 0 < perMille) (hle : perMille ≤ 1000) (hasked : asked ≤ perMille)
    (hne : latencies ≠ []) :
    Accurate latencies perMille (percentileUs (classCounts latencyClasses latencyBucket latencies)
        latencies.length asked) ↔
      ∃ us ∈ nthSmallest latencies (rank perMille latencies.length), us ≤ 1 := by
  have hn : 0 < latencies.length := List.length_pos_of_ne_nil hne
  obtain ⟨hrank, hrank'⟩ := rank_bounds hpos hle hn
  obtain ⟨us, hus⟩ := exists_nthSmallest hrank hrank'
  have hclass := latencyBucket_lt us
  -- the class of the true latency has enough requests
  have henough : latencies.length * asked % 2 ^ 64 / 1000 ≤
      0 + ((classCounts latencyClasses latencyBucket latencies).take (latencyBucket us + 1)).sum := by
    have hp : ∀ a b, a ≤ b → decide (latencyBucket b < latencyBucket us + 1) = true →
        decide (latencyBucket a < latencyBucket us + 1) = true := by
      intro a b hab hb
      exact decide_eq_true ((latencyBucket_mono hab).trans_lt (of_decide_eq_true hb))
    have hcount := (nthSmallest_iff hp hrank hus).mp (decide_eq_true (Nat.lt_succ_self _))
    have hsum : ((classCounts latencyClasses latencyBucket latencies).take
        (latencyBucket us + 1)).sum =
          latencies.countP fun us' => decide (latencyBucket us' < latencyBucket us + 1) :=
      sum_take_classCounts hclass
    rw [← hsum] at hcount
    have hwrap := Nat.mod_le (latencies.length * asked) (2 ^ 64)
    have hmul := Nat.mul_le_mul_left latencies.length hasked
    rw [Nat.mul_comm _ perMille] at hmul
    have htarget : latencies.length * asked % 2 ^ 64 / 1000 ≤ rank perMille latencies.length := by
      unfold rank
      omega
    omega
  obtain ⟨m, hm, hvalue⟩ := percentileFrom_le 0
    (by rw [length_classCounts]; exact hclass) henough
  have hfound : latencyBucket (percentileUs (classCounts latencyClasses latencyBucket latencies)
      latencies.length asked) = m - 1 := by
    rw [percentileUs, hvalue, Nat.zero_add]
    cases m with
    | zero => rfl
    | succ m => exact latencyBucket_two_pow (by omega)
  rw [Accurate, hus, Option.map_some, Option.some.injEq, hfound]
  simp only [Option.mem_def, Option.some.injEq, exists_eq_left']
  rw [← latencyBucket_eq_zero_iff]
  omega

/-- A smaller rank has a smaller latency. -/
theorem low_of_low
    {latencies : List Nat} {perMille perMille' : Nat}
    (hpos : 0 < perMille) (hle : perMille ≤ perMille') (hle' : perMille' ≤ 1000)
    (hne : latencies ≠ [])
    (h : ∃ us ∈ nthSmallest latencies (rank perMille' latencies.length), us ≤ 1) :
    ∃ us ∈ nthSmallest latencies (rank perMille latencies.length), us ≤ 1 := by
  obtain ⟨us', hus', hlow⟩ := h
  obtain ⟨hrank, hrank'⟩ := rank_bounds hpos (hle.trans hle') (List.length_pos_of_ne_nil hne)
  obtain ⟨us, hus⟩ := exists_nthSmallest hrank hrank'
  have hmono : rank perMille latencies.length ≤ rank perMille' latencies.length :=
    Nat.div_le_div_right (Nat.add_le_add_right (Nat.mul_le_mul_right _ hle) _)
  exact ⟨us, hus, (nthSmallest_mono hrank hmono hus hus').trans hlow⟩

/-- The four percentiles of these requests are in the classes of the true ones. -/
def PercentilesRight (hs : List Handled) : Prop :=
  let latencies := hs.map Handled.us
  let (p50, p90, p99, p999) := (Stats.recordAll hs).latencyPercentiles
  Accurate latencies 500 p50 ∧ Accurate latencies 900 p90 ∧ Accurate latencies 990 p99 ∧
    Accurate latencies 999 p999

/--
The percentiles are right exactly if the greatest of the latencies that they stand for is at
most one microsecond.
-/
theorem percentiles_iff
    {hs : List Handled} (hne : hs ≠ []) :
    PercentilesRight hs ↔
      ∃ us ∈ nthSmallest (hs.map Handled.us) (rank 999 hs.length), us ≤ 1 := by
  have hlength : (hs.map Handled.us).length = hs.length := List.length_map _
  have hne' : hs.map Handled.us ≠ [] := fun h => hne (List.map_eq_nil_iff.mp h)
  have hn : 0 < hs.length := List.length_pos_of_ne_nil hne
  have htotal : ¬ (Stats.recordAll hs).requestsTotal = 0 := by
    rw [Stats.requestsTotal_recordAll]
    omega
  unfold PercentilesRight Stats.latencyPercentiles
  rw [if_neg htotal, Stats.requestsTotal_recordAll, Stats.latencyBuckets_recordAll, ← hlength]
  dsimp only
  rw [accurate_iff (by decide) (by decide) (by decide) hne',
    accurate_iff (by decide) (by decide) (by decide) hne',
    accurate_iff (by decide) (by decide) (by decide) hne',
    accurate_iff (by decide) (by decide) (by decide) hne']
  have hlow := fun p (hpos : 0 < p) (hle : p ≤ 999) =>
    low_of_low hpos hle (by decide : 999 ≤ 1000) hne'
  refine ⟨fun h => h.2.2.2, fun h => ⟨?_, ?_, ?_, h⟩⟩
  · exact hlow 500 (by decide) (by decide) h
  · exact hlow 900 (by decide) (by decide) h
  · exact hlow 990 (by decide) (by decide) h

/-- A request of half a microsecond. -/
theorem percentiles_example :
    PercentilesRight [⟨200, 0, 0, 500⟩] :=
  (percentiles_iff (List.cons_ne_nil _ _)).mpr ⟨0, nthSmallest_singleton 0, Nat.zero_le 1⟩

/-- The latency of a single request of 100 microseconds is reported as 0. -/
theorem single_request_lost :
    (Stats.recordAll [⟨200, 0, 0, 100000⟩]).latencyPercentiles = (0, 0, 0, 0) ∧
      ¬ PercentilesRight [⟨200, 0, 0, 100000⟩] := by
  refine ⟨by decide, fun h => ?_⟩
  have hbucket : (nthSmallest [100] 1).map latencyBucket = some (latencyBucket 0) := h.1
  rw [nthSmallest_singleton] at hbucket
  exact absurd hbucket (by decide)

end Percentiles

end RunNginx
