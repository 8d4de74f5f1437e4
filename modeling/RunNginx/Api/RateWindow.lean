import Mathlib.Data.List.Induction
import RunNginx.Lib.Run
import RunNginx.Stats

/-!
# The window of the rate limiter

The limiter counts the requests of a client in the current second in a machine word of 32
bits, and nothing stops at the largest one: behind it the count starts again at zero.

`window_law_iff`: in a run with a clock that does not go back, exactly the first requests of
a client in a second are allowed, up to the limit, if and only if no client asks as often as
the word can count in one second.  In such runs the counter is a number (`after_eq`).
-/

namespace RunNginx
namespace RateLimiter

/-- The counter of a window is below this number. -/
def countBound : Nat := 2 ^ 32

def new (rps : Nat) : RateLimiter :=
  ⟨∅, rps⟩

/-- Is the request of a client allowed, with the counter as a machine word? -/
def allowWord (nowSec : Nat) (ip : IpAddr) (r : RateLimiter) : Bool × RateLimiter :=
  let entry := (r.windows.lookup ip).getD (nowSec, 0)
  if entry.1 ≠ nowSec then (true, { r with windows := r.windows.insert ip (nowSec, 1) })
  else
    let count := (entry.2 + 1) % countBound
    (count ≤ r.rpsLimit, { r with windows := r.windows.insert ip (nowSec, count) })

/-- A call of the limiter, at the second the clock shows. -/
structure Asked where
  second : Nat
  ip : IpAddr
deriving DecidableEq

/-- The answer to a call. -/
def verdict (r : RateLimiter) (c : Asked) : Bool :=
  (r.allowWord c.second c.ip).1

def step (r : RateLimiter) (c : Asked) : RateLimiter :=
  (r.allowWord c.second c.ip).2

/-- The limiter behind some calls. -/
def after (limit : Nat) (past : List Asked) : RateLimiter :=
  past.foldl step (new limit)

/-- The number of calls of a client in a second. -/
def countOf (ip : IpAddr) (second : Nat) (calls : List Asked) : Nat :=
  calls.countP fun c => c.ip = ip ∧ c.second = second

/-- The second of the last call of a client. -/
def lastSecond (ip : IpAddr) (calls : List Asked) : Option Nat :=
  (calls.filter fun c => c.ip = ip).getLast?.map Asked.second

/-- The clock does not go back. -/
def InOrder (calls : List Asked) : Prop :=
  calls.Pairwise fun c d => c.second ≤ d.second

instance (calls : List Asked) : Decidable (InOrder calls) := by
  unfold InOrder
  infer_instance

section Counting

variable {ip : IpAddr} {second : Nat} {calls past : List Asked} {c : Asked}

@[simp] theorem countOf_snoc
    (ip : IpAddr) (second : Nat) (past : List Asked) (c : Asked) :
    countOf ip second (past ++ [c]) =
      countOf ip second past + if c.ip = ip ∧ c.second = second then 1 else 0 := by
  rw [countOf, List.countP_append, List.countP_singleton, countOf]
  simp only [decide_eq_true_eq]

@[simp] theorem lastSecond_snoc
    (ip : IpAddr) (past : List Asked) (c : Asked) :
    lastSecond ip (past ++ [c]) = if c.ip = ip then some c.second else lastSecond ip past := by
  unfold lastSecond
  rw [List.filter_append]
  by_cases h : c.ip = ip
  · simp [h]
  · simp [h]

/-- A window that is reached again has been counted on. -/
theorem exists_split_of_lt_countOf
    {n : Nat} (h : n < countOf ip second calls) :
    ∃ past c later, calls = past ++ c :: later ∧ c.ip = ip ∧ c.second = second ∧
      countOf ip second past = n := by
  induction calls using List.reverseRecOn with
  | nil => cases h
  | append_singleton calls c ih =>
      by_cases hbefore : n < countOf ip second calls
      · obtain ⟨past, d, later, rfl, hd⟩ := ih hbefore
        exact ⟨past, d, later ++ [c], by simp, hd⟩
      · rw [countOf_snoc] at h
        split at h
        · rename_i hc
          exact ⟨calls, c, [], rfl, hc.1, hc.2, by omega⟩
        · omega

theorem countOf_lt_of_split
    {later : List Asked} :
    countOf c.ip c.second past < countOf c.ip c.second (past ++ c :: later) := by
  rw [countOf, countOf, List.countP_append, List.countP_cons_of_pos (by simp)]
  omega

/-- With no call in it, a window is not counted. -/
theorem countOf_eq_zero
    (h : ∀ d ∈ past, d.ip = ip → d.second ≠ second) :
    countOf ip second past = 0 := by
  refine List.countP_eq_zero.mpr fun d hd hboth => ?_
  obtain ⟨hip, hsecond⟩ := of_decide_eq_true hboth
  exact h d hd hip hsecond

/-- The last call of a client is none of the later ones. -/
theorem le_lastSecond
    {s : Nat} (horder : InOrder past) (hlast : lastSecond ip past = some s) :
    ∀ d ∈ past, d.ip = ip → d.second ≤ s := by
  induction past using List.reverseRecOn with
  | nil =>
      intro d hd
      cases hd
  | append_singleton past c ih =>
      obtain ⟨hpast, -, hlater⟩ := List.pairwise_append.mp horder
      intro d hd hip
      rw [lastSecond_snoc] at hlast
      rcases List.mem_append.mp hd with hd | hd
      · by_cases hc : c.ip = ip
        · rw [if_pos hc] at hlast
          rw [← Option.some.inj hlast]
          exact hlater d hd c (List.mem_singleton.mpr rfl)
        · rw [if_neg hc] at hlast
          exact ih hpast hlast d hd hip
      · rw [List.mem_singleton.mp hd] at hip ⊢
        rw [if_pos hip] at hlast
        exact Nat.le_of_eq (Option.some.inj hlast)

theorem lastSecond_eq_none
    (hlast : lastSecond ip past = none) :
    ∀ d ∈ past, d.ip ≠ ip := by
  intro d hd hip
  rw [lastSecond, Option.map_eq_none_iff, List.getLast?_eq_none_iff, List.filter_eq_nil_iff] at hlast
  exact hlast d hd (decide_eq_true hip)

end Counting

section States

variable {limit : Nat} {past : List Asked}

theorem after_snoc
    (limit : Nat) (past : List Asked) (c : Asked) :
    after limit (past ++ [c]) = step (after limit past) c := by
  rw [after, List.foldl_append]
  rfl

@[simp] theorem step_rpsLimit
    (r : RateLimiter) (c : Asked) :
    (step r c).rpsLimit = r.rpsLimit := by
  unfold step allowWord
  dsimp only
  split
  · rfl
  · rfl

theorem after_rpsLimit
    (limit : Nat) (past : List Asked) :
    (after limit past).rpsLimit = limit := by
  induction past using List.reverseRecOn with
  | nil => rfl
  | append_singleton past c ih => rw [after_snoc, step_rpsLimit, ih]

/-- What the limiter has written down for a client. -/
def Recorded (r : RateLimiter) (past : List Asked) : Prop :=
  ∀ ip, r.windows.lookup ip =
    (lastSecond ip past).map fun s => (s, countOf ip s past % countBound)

/-- The call opens a window, or the window of its second is counted on. -/
theorem entry_cases
    {r : RateLimiter} {c : Asked} (hr : Recorded r past) (horder : InOrder (past ++ [c])) :
    (((r.windows.lookup c.ip).getD (c.second, 0)).1 ≠ c.second ∧
        countOf c.ip c.second past = 0) ∨
      (((r.windows.lookup c.ip).getD (c.second, 0)).1 = c.second ∧
        ((r.windows.lookup c.ip).getD (c.second, 0)).2 =
          countOf c.ip c.second past % countBound) := by
  obtain ⟨hpast, -, hlater⟩ := List.pairwise_append.mp horder
  rw [hr c.ip]
  cases hlast : lastSecond c.ip past with
  | none =>
      have hnone := lastSecond_eq_none hlast
      refine .inr ⟨rfl, ?_⟩
      rw [countOf_eq_zero fun d hd hip => absurd hip (hnone d hd)]
      rfl
  | some s =>
      by_cases hs : s = c.second
      · refine .inr ⟨hs, ?_⟩
        rw [← hs]
        rfl
      · refine .inl ⟨hs, countOf_eq_zero fun d hd hip heq => hs ?_⟩
        have hle := le_lastSecond hpast hlast d hd hip
        -- The last call of the client is not later than this one either.
        have hback : s ≤ c.second := by
          unfold lastSecond at hlast
          obtain ⟨e, he, rfl⟩ := Option.map_eq_some_iff.mp hlast
          exact hlater e (List.mem_of_mem_filter (List.mem_of_getLast? he)) c
            (List.mem_singleton.mpr rfl)
        omega

/-- A call is answered by the number of calls before it in its window. -/
theorem verdict_of_recorded
    {r : RateLimiter} {c : Asked} (hr : Recorded r past) (horder : InOrder (past ++ [c]))
    (hlimit : 1 ≤ r.rpsLimit) :
    verdict r c = decide ((countOf c.ip c.second past + 1) % countBound ≤ r.rpsLimit) := by
  unfold verdict allowWord
  dsimp only
  rcases entry_cases hr horder with ⟨hother, hzero⟩ | ⟨hsame, hcount⟩
  · rw [if_pos hother, hzero]
    exact (decide_eq_true hlimit).symm
  · rw [if_neg (not_not_intro hsame), hcount, Nat.mod_add_mod]

theorem recorded_step
    {r : RateLimiter} {c : Asked} (hr : Recorded r past) (horder : InOrder (past ++ [c])) :
    Recorded (step r c) (past ++ [c]) := by
  have hwritten : (step r c).windows =
      r.windows.insert c.ip (c.second, (countOf c.ip c.second past + 1) % countBound) := by
    unfold step allowWord
    dsimp only
    rcases entry_cases hr horder with ⟨hother, hzero⟩ | ⟨hsame, hcount⟩
    · rw [if_pos hother, hzero]
      rfl
    · rw [if_neg (not_not_intro hsame), hcount, Nat.mod_add_mod]
  intro ip
  rw [hwritten, Table.lookup_insert_ite, lastSecond_snoc]
  by_cases hip : ip = c.ip
  · subst hip
    simp
  · rw [if_neg hip, if_neg (Ne.symm hip), hr ip]
    simp [Ne.symm hip]

theorem recorded_after
    (limit : Nat) (horder : InOrder past) :
    Recorded (after limit past) past := by
  induction past using List.reverseRecOn with
  | nil => exact fun ip => AList.lookup_empty ip
  | append_singleton past c ih =>
      rw [after_snoc]
      exact recorded_step (ih (List.pairwise_append.mp horder).1) horder

end States

section Law

variable {limit : Nat} {calls : List Asked}

/-- The window law for the calls of a run. -/
structure WindowLaw (limit : Nat) (calls : List Asked) : Prop where
  /-- A call is allowed while fewer calls than the limit stand before it in its window. -/
  first : ∀ past c later, calls = past ++ c :: later →
    (verdict (after limit past) c = true ↔ countOf c.ip c.second past < limit)
  /-- A client is answered as if it were alone. -/
  alone : ∀ ip, (Run.answered verdict step (new limit) calls).filter (fun x => x.1.ip = ip) =
    Run.answered verdict step (new limit) (calls.filter fun c => c.ip = ip)

/-- The calls of other clients change nothing for a client. -/
theorem answered_alone
    (limit : Nat) (calls : List Asked) (ip : IpAddr) :
    (Run.answered verdict step (new limit) calls).filter (fun x => x.1.ip = ip) =
      Run.answered verdict step (new limit) (calls.filter fun c => c.ip = ip) := by
  refine Run.answered_filter verdict step (P := fun c => decide (c.ip = ip))
    (R := fun r r' => r.rpsLimit = r'.rpsLimit ∧ r.windows.lookup ip = r'.windows.lookup ip)
    ?_ ?_ ?_ ⟨rfl, rfl⟩ calls
  · rintro r r' c ⟨hlimit, hlookup⟩ hc
    unfold verdict allowWord
    rw [of_decide_eq_true hc, hlookup, hlimit]
    dsimp only
    split
    · rfl
    · rfl
  · rintro r r' c ⟨hlimit, hlookup⟩ hc
    refine ⟨by rw [step_rpsLimit, step_rpsLimit, hlimit], ?_⟩
    unfold step allowWord
    rw [of_decide_eq_true hc, hlookup]
    dsimp only
    split
    · rw [AList.lookup_insert, AList.lookup_insert]
    · rw [AList.lookup_insert, AList.lookup_insert]
  · rintro r r' c ⟨hlimit, hlookup⟩ hc
    refine ⟨by rw [step_rpsLimit, hlimit], ?_⟩
    have hne : ip ≠ c.ip := fun heq => of_decide_eq_false hc heq.symm
    rw [← hlookup]
    unfold step allowWord
    dsimp only
    split
    · rw [AList.lookup_insert_ne hne]
    · rw [AList.lookup_insert_ne hne]

theorem inOrder_left
    {past later : List Asked} {c : Asked} (horder : InOrder (past ++ c :: later)) :
    InOrder (past ++ [c]) :=
  horder.sublist (List.Sublist.append_left (List.singleton_sublist.mpr List.mem_cons_self) past)

/-- How a call of a run is answered. -/
theorem verdict_after
    (hlimit : 1 ≤ limit) {past : List Asked} {c : Asked} (horder : InOrder (past ++ [c])) :
    verdict (after limit past) c =
      decide ((countOf c.ip c.second past + 1) % countBound ≤ limit) := by
  have h := verdict_of_recorded (recorded_after limit (List.pairwise_append.mp horder).1) horder
    (by rwa [after_rpsLimit])
  rwa [after_rpsLimit] at h

/-- The window law holds exactly in the runs that fill no counter. -/
theorem window_law_iff
    (hlimit : 1 ≤ limit) (hword : limit < countBound) (horder : InOrder calls) :
    WindowLaw limit calls ↔ ∀ ip second, countOf ip second calls < countBound := by
  constructor
  · intro hlaw ip second
    refine Nat.not_le.mp fun hfull => ?_
    have hlast : countBound - 1 < countOf ip second calls :=
      Nat.lt_of_lt_of_le (Nat.sub_one_lt (by decide)) hfull
    obtain ⟨past, c, later, rfl, rfl, rfl, hcount⟩ := exists_split_of_lt_countOf hlast
    have hverdict := verdict_after hlimit (inOrder_left horder)
    have hwrapped : countOf c.ip c.second past + 1 = countBound := by
      rw [hcount]
      exact Nat.sub_add_cancel (by decide)
    rw [hwrapped, Nat.mod_self, decide_eq_true (Nat.zero_le limit)] at hverdict
    have hfew := (hlaw.first past c later rfl).mp hverdict
    omega
  · intro hfew
    refine ⟨fun past c later hsplit => ?_, answered_alone limit calls⟩
    subst hsplit
    have hcount := Nat.lt_of_le_of_lt (Nat.succ_le_of_lt countOf_lt_of_split) (hfew c.ip c.second)
    rw [verdict_after hlimit (inOrder_left horder), Nat.mod_eq_of_lt hcount, decide_eq_true_eq]
    exact Nat.succ_le_iff

/-- In the runs that fill no counter, the limiter counts without a bound. -/
theorem after_eq
    (limit : Nat) (horder : InOrder calls)
    (hfew : ∀ ip second, countOf ip second calls < countBound) :
    after limit calls =
      calls.foldl (fun r c => (r.allow c.second c.ip).2) (new limit) := by
  induction calls using List.reverseRecOn with
  | nil => rfl
  | append_singleton calls c ih =>
      have hpast := (List.pairwise_append.mp horder).1
      have hbefore : ∀ ip second, countOf ip second calls < countBound := by
        intro ip second
        refine Nat.lt_of_le_of_lt ?_ (hfew ip second)
        rw [countOf_snoc]
        exact Nat.le_add_right _ _
      rw [after_snoc, List.foldl_append, ← ih hpast hbefore, List.foldl_cons, List.foldl_nil]
      unfold step allowWord allow
      dsimp only
      rcases entry_cases (recorded_after limit hpast) horder with ⟨hother, -⟩ | ⟨hsame, hcount⟩
      · rw [if_pos hother, if_pos hother]
      · have hnext := hfew c.ip c.second
        rw [countOf_snoc, if_pos ⟨rfl, rfl⟩] at hnext
        rw [if_neg (not_not_intro hsame), if_neg (not_not_intro hsame), hcount,
          Nat.mod_eq_of_lt (hbefore c.ip c.second), Nat.mod_eq_of_lt hnext]

end Law

section Example

/-- Two calls of one client and one of another, in one second. -/
def threeCalls : List Asked :=
  [⟨7, .v4 ⟨203, 0, 113, 9⟩⟩, ⟨7, .v4 ⟨203, 0, 113, 10⟩⟩, ⟨7, .v4 ⟨203, 0, 113, 9⟩⟩]

theorem window_law_example :
    WindowLaw 1 threeCalls :=
  (window_law_iff (by decide) (by decide) (by decide)).mpr fun _ _ =>
    Nat.lt_of_le_of_lt List.countP_le_length (by decide)

/-- The same call over and over. -/
theorem countOf_replicate
    (n : Nat) (c : Asked) :
    countOf c.ip c.second (List.replicate n c) = n := by
  rw [countOf, List.countP_replicate, if_pos (by simp)]

theorem inOrder_replicate
    (n : Nat) (c : Asked) :
    InOrder (List.replicate n c) :=
  List.pairwise_replicate.mpr (.inr (Nat.le_refl _))

/-- A call that stands behind as many others as the counter can count. -/
def repeatedCall : Asked :=
  ⟨0, .v4 ⟨203, 0, 113, 9⟩⟩

/-- A client that fills the counter in one second is allowed once more. -/
theorem counter_wraps :
    InOrder (List.replicate countBound repeatedCall) ∧
      ¬ WindowLaw 1 (List.replicate countBound repeatedCall) := by
  obtain ⟨n, hn⟩ : ∃ n, countBound = n + 1 ∧ 1 ≤ n := ⟨2 ^ 32 - 1, by decide, by decide⟩
  refine ⟨inOrder_replicate _ _, fun hlaw => ?_⟩
  rw [hn.1, List.replicate_succ'] at hlaw
  have horder : InOrder (List.replicate n repeatedCall ++ [repeatedCall]) := by
    rw [← List.replicate_succ']
    exact inOrder_replicate _ _
  have hverdict := verdict_after (Nat.le_refl 1) horder
  rw [countOf_replicate, ← hn.1, Nat.mod_self, decide_eq_true (Nat.zero_le 1)] at hverdict
  have hfew := (hlaw.first _ repeatedCall [] rfl).mp hverdict
  rw [countOf_replicate] at hfew
  omega

end Example

end RateLimiter
end RunNginx
