import Mathlib.Algebra.Order.Field.Basic
import Mathlib.Tactic.Linarith
import Mathlib.Tactic.Ring

/-!
# Token buckets

A bucket fills at a rate up to a capacity, and each call takes a token where there is one.
Callers bring the time they have read along, and a bucket remembers the time of its last
caller, whether or not it is the latest.

`granted_le`: callers who come in the order of their times get no more tokens in an
interval than the bucket holds and the interval brings; `granted_replies_le_most`: the same of
callers that each name the capacity.  `answers_spaced`: callers far
enough apart all get one, if the bucket holds one at all.
-/

namespace TokenBucket

variable {K : Type} [LinearOrder K]

structure Bucket (K : Type) where
  tokens : K
  lastCheck : K
deriving DecidableEq, Repr

/-- Callers come in the order of their times, behind the caller at `last`. -/
def InOrder : Option K → List K → Prop
  | _, [] => True
  | last, now :: nows => (∀ t ∈ last, t ≤ now) ∧ InOrder (some now) nows

/-- Tokens given out to callers from an interval. -/
def granted (start stop : K) (l : List (K × Bool)) : Nat :=
  l.countP fun x => decide (start ≤ x.1 ∧ x.1 ≤ stop) && x.2

section Order

variable {start stop : K} {nows : List K}

theorem granted_cons
    (x : K × Bool) (l : List (K × Bool)) :
    granted start stop (x :: l) =
      granted start stop l + if start ≤ x.1 ∧ x.1 ≤ stop ∧ x.2 = true then 1 else 0 := by
  unfold granted
  rw [List.countP_cons]
  congr 1
  simp [and_assoc]

/-- Callers in order are all behind the last one. -/
theorem InOrder.le
    {last t : K}
    (h : InOrder (some last) nows) (ht : t ∈ nows) :
    last ≤ t := by
  induction nows generalizing last with
  | nil => cases ht
  | cons now nows ih =>
      have hnow := h.1 last rfl
      rcases List.mem_cons.mp ht with rfl | ht
      · exact hnow
      · exact hnow.trans (ih h.2 ht)

theorem inOrder_of_pairwise
    (h : nows.Pairwise (· ≤ ·)) :
    InOrder none nows := by
  have hbehind : ∀ nows : List K, nows.Pairwise (· ≤ ·) →
      ∀ last : Option K, (∀ t ∈ last, ∀ now ∈ nows, t ≤ now) → InOrder last nows := by
    intro nows h
    induction nows with
    | nil => exact fun _ _ => trivial
    | cons now nows ih =>
        obtain ⟨hnow, hnows⟩ := List.pairwise_cons.mp h
        intro last hlast
        refine ⟨fun t ht => hlast t ht now List.mem_cons_self, ih hnows (some now) ?_⟩
        intro t ht
        cases ht
        exact hnow
  exact hbehind nows h none nofun

end Order

variable [Field K]

/-- Callers come with a gap between their times, behind the caller at `last`. -/
def Spaced (gap : K) : Option K → List K → Prop
  | _, [] => True
  | last, now :: nows => (∀ t ∈ last, t + gap ≤ now) ∧ Spaced gap (some now) nows

/-- The tokens a caller finds; a bucket that is not there yet is full. -/
def level (rate burst now : K) (bucket : Option (Bucket K)) : K :=
  let b := bucket.getD ⟨burst, now⟩
  min (b.tokens + max 0 (now - b.lastCheck) * rate) burst

/-- Take a token, if there is one. -/
def take (rate burst now : K) (bucket : Option (Bucket K)) : Bool × Bucket K :=
  let tokens := level rate burst now bucket
  if 1 ≤ tokens then (true, ⟨tokens - 1, now⟩) else (false, ⟨tokens, now⟩)

/-- The answers to callers, one after the other. -/
def answers (rate burst : K) : Option (Bucket K) → List K → List (K × Bool)
  | _, [] => []
  | bucket, now :: nows =>
      let (ok, b) := take rate burst now bucket
      (now, ok) :: answers rate burst (some b) nows

/-- The answers to callers that each name the capacity that they see. -/
def replies (rate : K) : Option (Bucket K) → List (K × K) → List (K × Bool)
  | _, [] => []
  | bucket, (now, burst) :: calls =>
      let (ok, b) := take rate burst now bucket
      (now, ok) :: replies rate (some b) calls

section Rules

variable {rate burst most now start stop : K} {bucket : Option (Bucket K)} {nows : List K}
  {calls : List (K × K)}

theorem level_le_burst : level rate burst now bucket ≤ burst :=
  min_le_right _ _

@[simp] theorem take_lastCheck : (take rate burst now bucket).2.lastCheck = now := by
  unfold take
  dsimp only
  split
  · rfl
  · rfl

/-- What a caller leaves, and what it takes, is what it has found. -/
theorem take_tokens :
    (take rate burst now bucket).2.tokens + (if (take rate burst now bucket).1 then 1 else 0) =
      level rate burst now bucket := by
  unfold take
  dsimp only
  split
  · exact sub_add_cancel _ _
  · exact add_zero _

theorem take_eq_true_iff :
    (take rate burst now bucket).1 = true ↔ 1 ≤ level rate burst now bucket := by
  unfold take
  dsimp only
  split
  · rename_i h
    exact iff_of_true rfl h
  · rename_i h
    exact iff_of_false Bool.false_ne_true h

/-- Every caller gets an answer. -/
theorem map_fst_answers :
    (answers rate burst bucket nows).map Prod.fst = nows := by
  induction nows generalizing bucket with
  | nil => rfl
  | cons now nows ih => rw [answers, List.map_cons, ih]

/-- One capacity for all is a capacity for each. -/
theorem answers_eq_replies :
    answers rate burst bucket nows = replies rate bucket (nows.map fun now => (now, burst)) := by
  induction nows generalizing bucket with
  | nil => rfl
  | cons now nows ih =>
      rw [answers, List.map_cons, replies]
      exact congrArg (List.cons _) ih

/-- Nothing is given out in an interval that is over. -/
theorem granted_eq_zero
    (hstop : ∀ c ∈ calls, stop < c.1) :
    granted start stop (replies rate bucket calls) = 0 := by
  induction calls generalizing bucket with
  | nil => rfl
  | cons c calls ih =>
      obtain ⟨hnow, hcalls⟩ := List.forall_mem_cons.mp hstop
      rw [replies, granted_cons, ih hcalls, if_neg]
      exact fun h => absurd hnow (not_lt_of_ge h.2.1)

/-- A bucket that cannot hold a token gives out none. -/
theorem answers_denied
    (hburst : burst < 1) :
    ∀ x ∈ answers rate burst bucket nows, x.2 = false := by
  induction nows generalizing bucket with
  | nil =>
      intro x hx
      cases hx
  | cons now nows ih =>
      intro x hx
      rcases List.mem_cons.mp hx with rfl | hx
      · refine Bool.eq_false_iff.mpr fun h => ?_
        exact absurd hburst (not_lt_of_ge ((take_eq_true_iff.mp h).trans level_le_burst))
      · exact ih x hx

variable [IsStrictOrderedRing K]

/-- A caller adds to what is given out what it takes. -/
theorem granted_replies_le :
    (granted start stop (replies rate bucket ((now, burst) :: calls)) : K) ≤
      granted start stop (replies rate (some (take rate burst now bucket).2) calls) +
        if (take rate burst now bucket).1 then 1 else 0 := by
  rw [replies, granted_cons, Nat.cast_add]
  refine add_le_add_right ?_ _
  by_cases hok : (take rate burst now bucket).1 = true
  · rw [if_pos hok]
    split
    · exact Nat.cast_one.le
    · exact Nat.cast_zero.le.trans zero_le_one
  · rw [if_neg hok, if_neg fun h => hok h.2.2]
    exact Nat.cast_zero.le

theorem level_nonneg
    (hrate : 0 ≤ rate) (hburst : 0 ≤ burst) (hbucket : ∀ b ∈ bucket, 0 ≤ b.tokens) :
    0 ≤ level rate burst now bucket := by
  unfold level
  dsimp only
  refine le_min (add_nonneg ?_ (mul_nonneg (le_max_left _ _) hrate)) hburst
  cases bucket with
  | none => exact hburst
  | some b => exact hbucket b rfl

theorem take_tokens_nonneg
    (hlevel : 0 ≤ level rate burst now bucket) :
    0 ≤ (take rate burst now bucket).2.tokens := by
  unfold take
  dsimp only
  split
  · rename_i h
    exact sub_nonneg.mpr h
  · exact hlevel

/-- The tokens that come until `stop` bound what is given out until then. -/
theorem granted_le_of_behind
    {b : Bucket K}
    (hrate : 0 ≤ rate) (hburst : ∀ c ∈ calls, 0 ≤ c.2) (htokens : 0 ≤ b.tokens)
    (hstop : b.lastCheck ≤ stop) (horder : InOrder (some b.lastCheck) (calls.map Prod.fst)) :
    (granted start stop (replies rate (some b) calls) : K) ≤
      b.tokens + (stop - b.lastCheck) * rate := by
  have hpos := add_nonneg htokens (mul_nonneg (sub_nonneg.mpr hstop) hrate)
  induction calls generalizing b with
  | nil =>
      simpa [replies, granted] using hpos
  | cons c calls ih =>
      obtain ⟨now, burst⟩ := c
      obtain ⟨hburst, hbursts⟩ := List.forall_mem_cons.mp hburst
      obtain ⟨hnow, horder⟩ := horder
      have hnow : b.lastCheck ≤ now := hnow _ rfl
      by_cases hlate : stop < now
      · have hnone : granted start stop (replies rate (some b) ((now, burst) :: calls)) = 0 := by
          refine granted_eq_zero (List.forall_mem_cons.mpr ⟨hlate, ?_⟩)
          exact fun c hc => hlate.trans_le (horder.le (List.mem_map_of_mem hc))
        rw [hnone, Nat.cast_zero]
        exact hpos
      · have hlevel_pos : 0 ≤ level rate burst now (some b) :=
          level_nonneg hrate hburst fun x hx => Option.some.inj hx ▸ htokens
        have hlevel : level rate burst now (some b) ≤ b.tokens + (now - b.lastCheck) * rate := by
          refine (min_le_left _ _).trans ?_
          rw [Option.getD_some, max_eq_right (sub_nonneg.mpr hnow)]
        have hleft := take_tokens_nonneg hlevel_pos
        have htime : (take rate burst now (some b)).2.lastCheck = now := take_lastCheck
        have hrest := ih hbursts hleft (htime.le.trans (not_lt.mp hlate)) (htime.symm ▸ horder)
          (add_nonneg hleft (mul_nonneg (sub_nonneg.mpr (htime.le.trans (not_lt.mp hlate))) hrate))
        rw [htime] at hrest
        calc (granted start stop (replies rate (some b) ((now, burst) :: calls)) : K)
            ≤ granted start stop (replies rate (some (take rate burst now (some b)).2) calls) +
                if (take rate burst now (some b)).1 then 1 else 0 := granted_replies_le
          _ ≤ (take rate burst now (some b)).2.tokens + (stop - now) * rate +
                if (take rate burst now (some b)).1 then 1 else 0 := add_le_add_left hrest _
          _ = level rate burst now (some b) + (stop - now) * rate := by
                rw [add_right_comm, take_tokens]
          _ ≤ b.tokens + (now - b.lastCheck) * rate + (stop - now) * rate :=
                add_le_add_left hlevel _
          _ = b.tokens + (stop - b.lastCheck) * rate := by ring

/--
Callers in order get no more tokens in an interval than the largest capacity and what the
interval brings.
-/
theorem granted_replies_le_most
    {length : K}
    (hrate : 0 ≤ rate) (hmost : 0 ≤ most) (hburst : ∀ c ∈ calls, 0 ≤ c.2 ∧ c.2 ≤ most)
    (hlength : 0 ≤ length) (hbucket : ∀ b ∈ bucket, 0 ≤ b.tokens)
    (horder : InOrder (bucket.map Bucket.lastCheck) (calls.map Prod.fst)) :
    (granted start (start + length) (replies rate bucket calls) : K) ≤ most + length * rate := by
  have hpos := add_nonneg hmost (mul_nonneg hlength hrate)
  induction calls generalizing bucket with
  | nil => simpa [replies, granted] using hpos
  | cons c calls ih =>
      obtain ⟨now, burst⟩ := c
      obtain ⟨⟨hlow, hhigh⟩, hbursts⟩ := List.forall_mem_cons.mp hburst
      have horder := horder.2
      have hleft : 0 ≤ (take rate burst now bucket).2.tokens :=
        take_tokens_nonneg (level_nonneg hrate hlow hbucket)
      have htime : (take rate burst now bucket).2.lastCheck = now := take_lastCheck
      by_cases hin : start ≤ now ∧ now ≤ start + length
      · have hrest : (granted start (start + length)
            (replies rate (some (take rate burst now bucket).2) calls) : K) ≤
              (take rate burst now bucket).2.tokens +
                (start + length - (take rate burst now bucket).2.lastCheck) * rate :=
          granted_le_of_behind hrate (fun c hc => (hbursts c hc).1) hleft (htime.le.trans hin.2)
            (htime.symm ▸ horder)
        rw [htime] at hrest
        have hspan : (start + length - now) * rate ≤ length * rate :=
          mul_le_mul_of_nonneg_right (by linarith [hin.1]) hrate
        calc (granted start (start + length) (replies rate bucket ((now, burst) :: calls)) : K)
            ≤ granted start (start + length)
                  (replies rate (some (take rate burst now bucket).2) calls) +
                if (take rate burst now bucket).1 then 1 else 0 := granted_replies_le
          _ ≤ (take rate burst now bucket).2.tokens + (start + length - now) * rate +
                if (take rate burst now bucket).1 then 1 else 0 := add_le_add_left hrest _
          _ = level rate burst now bucket + (start + length - now) * rate := by
                rw [add_right_comm, take_tokens]
          _ ≤ most + length * rate := add_le_add (level_le_burst.trans hhigh) hspan
      · -- a caller from outside the interval does not count
        rw [replies, granted_cons, if_neg fun h => hin ⟨h.1, h.2.1⟩]
        refine ih hbursts (fun b hb => Option.some.inj hb ▸ hleft) ?_
        rw [Option.map_some, htime]
        exact horder

/--
Callers in order get no more tokens in an interval than the bucket can hold and the
interval can bring.
-/
theorem granted_le
    {length : K}
    (hrate : 0 ≤ rate) (hburst : 0 ≤ burst) (hlength : 0 ≤ length)
    (hbucket : ∀ b ∈ bucket, 0 ≤ b.tokens)
    (horder : InOrder (bucket.map Bucket.lastCheck) nows) :
    (granted start (start + length) (answers rate burst bucket nows) : K) ≤
      burst + length * rate := by
  rw [answers_eq_replies]
  refine granted_replies_le_most hrate hburst ?_ hlength hbucket ?_
  · intro c hc
    obtain ⟨now, -, rfl⟩ := List.mem_map.mp hc
    exact ⟨hburst, le_rfl⟩
  · rwa [List.map_map, show Prod.fst ∘ (fun now => (now, burst)) = (id : K → K) from rfl,
      List.map_id]

/-- Callers at least a token apart all get one, if the bucket can hold a token. -/
theorem answers_spaced
    (hrate : 0 < rate) (hburst : 1 ≤ burst) (hbucket : ∀ b ∈ bucket, 0 ≤ b.tokens)
    (hspaced : Spaced (1 / rate) (bucket.map Bucket.lastCheck) nows) :
    ∀ x ∈ answers rate burst bucket nows, x.2 = true := by
  induction nows generalizing bucket with
  | nil =>
      intro x hx
      cases hx
  | cons now nows ih =>
      have hlevel : 1 ≤ level rate burst now bucket := by
        unfold level
        refine le_min ?_ hburst
        cases bucket with
        | none =>
            have := mul_nonneg (le_max_left 0 (now - now)) hrate.le
            exact hburst.trans (le_add_of_nonneg_right this)
        | some b =>
            have hgap : b.lastCheck + 1 / rate ≤ now := hspaced.1 _ rfl
            have htoken : 1 ≤ max 0 (now - b.lastCheck) * rate := by
              rw [← div_le_iff₀ hrate]
              exact (le_sub_iff_add_le'.mpr hgap).trans (le_max_right _ _)
            exact htoken.trans (le_add_of_nonneg_left (hbucket b rfl))
      have hleft : 0 ≤ (take rate burst now bucket).2.tokens :=
        take_tokens_nonneg (zero_le_one.trans hlevel)
      intro x hx
      rcases List.mem_cons.mp hx with rfl | hx
      · exact take_eq_true_iff.mpr hlevel
      · refine ih (fun b hb => Option.some.inj hb ▸ hleft) ?_ x hx
        rw [Option.map_some, take_lastCheck]
        exact hspaced.2

end Rules

end TokenBucket
