import RunNginx.Config.Directives
import RunNginx.Lib.Run
import RunNginx.Lib.TokenBucket
import RunNginx.Server.Exits

/-!
# Request limits

A zone has a token bucket for each client address.  A caller reads the clock first and
gets hold of its bucket then, so that callers may reach a bucket in another order than
that of their times; the tokens are exact rationals.

`allowed_le`: as long as callers reach a bucket in the order of their times, no address is
allowed more requests in an interval than the burst and the rate give it.
`all_allowed_iff`: requests that keep to the rate are allowed exactly if the directive asks
for a burst of one at least.
-/

namespace RunNginx
namespace LimitReq

open TokenBucket ByteString

structure LimitReqZone where
  name : Bytes
  /-- Tokens per second. -/
  rate : Rat
  buckets : IpAddr → Option (Bucket Rat)

/-- A caller that has read the clock, in seconds. -/
structure Call where
  ip : IpAddr
  burst : Nat
  now : Rat
deriving DecidableEq

namespace LimitReqZone

def new (name : Bytes) (rate : Rat) : LimitReqZone :=
  ⟨name, rate, fun _ => none⟩

/-- Try to consume one token. -/
def allow (c : Call) (z : LimitReqZone) : Bool × LimitReqZone :=
  let (ok, b) := take z.rate c.burst c.now (z.buckets c.ip)
  (ok, { z with buckets := Function.update z.buckets c.ip (some b) })

def step (z : LimitReqZone) (c : Call) : LimitReqZone :=
  (z.allow c).2

/-- Callers, in the order in which they get hold of their buckets, with their answers. -/
def answered : LimitReqZone → List Call → List (Call × Bool)
  | _, [] => []
  | z, c :: cs => (c, (z.allow c).1) :: answered (z.step c) cs

/-- No caller has reached the bucket from a later time. -/
def InTurn (z : LimitReqZone) (c : Call) : Prop :=
  ∀ b ∈ z.buckets c.ip, b.lastCheck ≤ c.now

instance (z : LimitReqZone) (c : Call) : Decidable (z.InTurn c) :=
  inferInstanceAs (Decidable (∀ b ∈ z.buckets c.ip, b.lastCheck ≤ c.now))

end LimitReqZone

open LimitReqZone

variable {z z' : LimitReqZone} {ip : IpAddr} {burst : Nat} {cs : List Call}

/-- The callers from an address. -/
def callsOf (ip : IpAddr) (cs : List Call) : List Call :=
  cs.filter fun c => c.ip = ip

/-- The callers from an address with their answers. -/
def answersTo (ip : IpAddr) (l : List (Call × Bool)) : List (Call × Bool) :=
  l.filter fun x => x.1.ip = ip

/-- How many callers from an address are allowed whose times lie in an interval. -/
def allowedIn (ip : IpAddr) (start stop : Rat) (l : List (Call × Bool)) : Nat :=
  (answersTo ip l).countP fun x => decide (start ≤ x.1.now ∧ x.1.now ≤ stop) && x.2

section Buckets

@[simp] theorem step_rate
    (z : LimitReqZone) (c : Call) :
    (z.step c).rate = z.rate :=
  rfl

theorem step_buckets
    (z : LimitReqZone) (c : Call) (ip : IpAddr) :
    (z.step c).buckets ip =
      if ip = c.ip then some (take z.rate c.burst c.now (z.buckets c.ip)).2
      else z.buckets ip :=
  Function.update_apply ..

theorem callsOf_cons_self
    {c : Call} (h : c.ip = ip) :
    callsOf ip (c :: cs) = c :: callsOf ip cs :=
  List.filter_cons_of_pos (decide_eq_true h)

theorem callsOf_cons_other
    {c : Call} (h : c.ip ≠ ip) :
    callsOf ip (c :: cs) = callsOf ip cs :=
  List.filter_cons_of_neg (by simpa using h)

theorem answersTo_cons_self
    {c : Call} {ok : Bool} {l : List (Call × Bool)} (h : c.ip = ip) :
    answersTo ip ((c, ok) :: l) = (c, ok) :: answersTo ip l :=
  List.filter_cons_of_pos (decide_eq_true h)

theorem answersTo_cons_other
    {c : Call} {ok : Bool} {l : List (Call × Bool)} (h : c.ip ≠ ip) :
    answersTo ip ((c, ok) :: l) = answersTo ip l :=
  List.filter_cons_of_neg (by simpa using h)

/-- What an address is answered depends on its own bucket and callers only. -/
theorem answersTo_answered
    (hrate : z.rate = z'.rate) (hbucket : z.buckets ip = z'.buckets ip) :
    answersTo ip (z.answered cs) = z'.answered (callsOf ip cs) := by
  induction cs generalizing z z' with
  | nil => rfl
  | cons c cs ih =>
      rw [answered]
      by_cases h : c.ip = ip
      · have hstep : (z.step c).buckets ip = (z'.step c).buckets ip := by
          rw [step_buckets, step_buckets, h, hrate, hbucket]
        have hanswer : (z.allow c).1 = (z'.allow c).1 := by
          unfold allow
          rw [h, hrate, hbucket]
        rw [answersTo_cons_self h, callsOf_cons_self h, answered, hanswer]
        congr 1
        exact ih hrate hstep
      · have hstep : (z.step c).buckets ip = z'.buckets ip := by
          rw [step_buckets, if_neg (Ne.symm h), hbucket]
        rw [answersTo_cons_other h, callsOf_cons_other h]
        exact ih hrate hstep

/-- The callers of one address are answered by one bucket. -/
theorem answered_eq_answers
    (hip : ∀ c ∈ cs, c.ip = ip) (hburst : ∀ c ∈ cs, c.burst = burst) :
    (z.answered cs).map (fun x => (x.1.now, x.2)) =
      answers z.rate burst (z.buckets ip) (cs.map Call.now) := by
  induction cs generalizing z with
  | nil => rfl
  | cons c cs ih =>
      obtain ⟨hc, hip⟩ := List.forall_mem_cons.mp hip
      obtain ⟨hb, hburst⟩ := List.forall_mem_cons.mp hburst
      rw [answered, List.map_cons, ih hip hburst, List.map_cons, answers, step_buckets, hc,
        if_pos rfl, ← hb, ← hc]
      rfl

theorem ip_of_callsOf
    {c : Call} (h : c ∈ callsOf ip cs) :
    c.ip = ip :=
  of_decide_eq_true (List.mem_filter.mp h).2

theorem mem_of_callsOf
    {c : Call} (h : c ∈ callsOf ip cs) :
    c ∈ cs :=
  List.mem_of_mem_filter h

/-- Callers that reach their bucket in turn come in the order of their times. -/
theorem inOrder_of_inTurn
    (h : Run.Steps step (fun z c => c.ip = ip → z.InTurn c) z cs) :
    InOrder ((z.buckets ip).map Bucket.lastCheck) ((callsOf ip cs).map Call.now) := by
  induction cs generalizing z with
  | nil => trivial
  | cons c cs ih =>
      obtain ⟨hc, h⟩ := h
      have hrest := ih h
      by_cases hip : c.ip = ip
      · rw [callsOf_cons_self hip]
        rw [step_buckets, if_pos hip.symm, Option.map_some, take_lastCheck] at hrest
        refine ⟨?_, hrest⟩
        intro t ht
        obtain ⟨b, hb, rfl⟩ := Option.map_eq_some_iff.mp ht
        rw [← hip] at hb
        exact hc hip b hb
      · rw [callsOf_cons_other hip]
        rwa [step_buckets, if_neg (Ne.symm hip)] at hrest

end Buckets

section Bound

/--
In a run in which the callers from an address reach its bucket in the order of their
times, they are allowed at most the burst and what the rate brings in an interval, and
callers from other addresses make no difference to them.
-/
theorem allowed_le
    {name : Bytes} {rate : Rat}
    (hrate : 0 < rate) (hburst : ∀ c ∈ cs, c.ip = ip → c.burst = burst)
    (hsteps : Run.Steps step (fun z c => c.ip = ip → z.InTurn c) (.new name rate) cs) :
    (∀ start length : Rat, 0 ≤ length →
        (allowedIn ip start (start + length) ((LimitReqZone.new name rate).answered cs) : Rat) ≤
          burst + rate * length) ∧
      answersTo ip ((LimitReqZone.new name rate).answered cs) =
        (LimitReqZone.new name rate).answered (callsOf ip cs) := by
  have hothers : answersTo ip ((LimitReqZone.new name rate).answered cs) =
      (LimitReqZone.new name rate).answered (callsOf ip cs) :=
    answersTo_answered rfl rfl
  refine ⟨?_, hothers⟩
  intro start length hlength
  have hone : ((LimitReqZone.new name rate).answered (callsOf ip cs)).map
      (fun x => (x.1.now, x.2)) = answers rate burst none ((callsOf ip cs).map Call.now) :=
    answered_eq_answers (fun _ => ip_of_callsOf)
      fun c hc => hburst c (mem_of_callsOf hc) (ip_of_callsOf hc)
  have hbound : (granted start (start + length)
      (answers rate burst none ((callsOf ip cs).map Call.now)) : Rat) ≤
        burst + length * rate :=
    granted_le hrate.le (Nat.cast_nonneg burst) hlength (by simp) (inOrder_of_inTurn hsteps)
  rw [← hone, granted, List.countP_map, mul_comm] at hbound
  rw [allowedIn, hothers]
  exact hbound

section Example

def address : IpAddr := .v4 ⟨127, 0, 0, 1⟩

def otherAddress : IpAddr := .v4 ⟨127, 0, 0, 2⟩

/-- Callers from two addresses in the order of their times. -/
def inTurn : List Call :=
  [⟨address, 1, 0⟩, ⟨otherAddress, 1, 1⟩, ⟨address, 1, 0⟩, ⟨address, 1, 1⟩]

theorem allowed_le_example :
    (∀ start length : Rat, 0 ≤ length →
        (allowedIn address start (start + length)
            ((LimitReqZone.new [] 1).answered inTurn) : Rat) ≤
          ((1 : Nat) : Rat) + 1 * length) ∧
      answersTo address ((LimitReqZone.new [] 1).answered inTurn) =
        (LimitReqZone.new [] 1).answered (callsOf address inTurn) :=
  allowed_le (by decide) (by decide) (by decide +kernel)

/-- A caller that has read the clock long ago gets the bucket between two others. -/
def lateCaller : List Call :=
  [⟨address, 1, 10⟩, ⟨address, 1, 0⟩, ⟨address, 1, 10⟩]

/--
The bucket takes the time of the late caller over, and gives the time since then to the
next caller once more: two callers of one time are allowed where the burst is one.
-/
theorem lateCaller_refills :
    allowedIn address 10 (10 + 0) ((LimitReqZone.new [] 1).answered lateCaller) = 2 ∧
      ¬ (allowedIn address 10 (10 + 0) ((LimitReqZone.new [] 1).answered lateCaller) : Rat) ≤
        ((1 : Nat) : Rat) + 1 * 0 := by
  have htwo : allowedIn address 10 (10 + 0)
      ((LimitReqZone.new [] 1).answered lateCaller) = 2 := by
    decide +kernel
  refine ⟨htwo, ?_⟩
  rw [htwo]
  norm_num

end Example

end Bound

section Bursts

/-- The callers of one address are answered by one bucket, whatever bursts they name. -/
theorem answered_eq_replies
    (hip : ∀ c ∈ cs, c.ip = ip) :
    (z.answered cs).map (fun x => (x.1.now, x.2)) =
      replies z.rate (z.buckets ip) (cs.map fun c => (c.now, (c.burst : Rat))) := by
  induction cs generalizing z with
  | nil => rfl
  | cons c cs ih =>
      obtain ⟨hc, hip⟩ := List.forall_mem_cons.mp hip
      rw [answered, List.map_cons, ih hip, List.map_cons, replies, step_buckets, hc, if_pos rfl,
        ← hc]
      rfl

theorem allowedIn_cons
    (c : Call) (ok : Bool) (l : List (Call × Bool)) (start stop : Rat) :
    allowedIn ip start stop ((c, ok) :: l) =
      allowedIn ip start stop l +
        if c.ip = ip ∧ start ≤ c.now ∧ c.now ≤ stop ∧ ok = true then 1 else 0 := by
  unfold allowedIn
  by_cases hip : c.ip = ip
  · rw [answersTo_cons_self hip, List.countP_cons]
    simp [hip, and_assoc]
  · rw [answersTo_cons_other hip, if_neg fun h => hip h.1, Nat.add_zero]

/--
Callers from one address in the order of their times are allowed at most the largest burst that
they name and what the rate brings.
-/
theorem allowedIn_le_most
    {name : Bytes} {rate start length : Rat} {most : Nat}
    (hrate : 0 < rate) (hburst : ∀ c ∈ cs, c.ip = ip → c.burst ≤ most)
    (hordered : ((callsOf ip cs).map Call.now).Pairwise (· ≤ ·)) (hlength : 0 ≤ length) :
    (allowedIn ip start (start + length) ((LimitReqZone.new name rate).answered cs) : Rat) ≤
      most + rate * length := by
  have hone : ((LimitReqZone.new name rate).answered (callsOf ip cs)).map
      (fun x => (x.1.now, x.2)) =
        replies rate none ((callsOf ip cs).map fun c => (c.now, (c.burst : Rat))) :=
    answered_eq_replies fun _ => ip_of_callsOf
  have hbound : (granted start (start + length)
      (replies rate none ((callsOf ip cs).map fun c => (c.now, (c.burst : Rat)))) : Rat) ≤
        most + length * rate := by
    refine granted_replies_le_most hrate.le (Nat.cast_nonneg most) ?_ hlength nofun ?_
    · intro x hx
      obtain ⟨c, hc, rfl⟩ := List.mem_map.mp hx
      exact ⟨Nat.cast_nonneg _,
        Nat.cast_le.mpr (hburst c (mem_of_callsOf hc) (ip_of_callsOf hc))⟩
    · rw [List.map_map]
      exact inOrder_of_pairwise hordered
  rw [← hone, granted, List.countP_map, mul_comm] at hbound
  have hothers : answersTo ip ((LimitReqZone.new name rate).answered cs) =
      (LimitReqZone.new name rate).answered (callsOf ip cs) :=
    answersTo_answered rfl rfl
  rw [allowedIn, hothers]
  exact hbound

end Bursts

section Conformance

open ConfigParser

/-- The arguments of the directive ask for a burst of one at least. -/
def AsksBurst (args : List Bytes) : Prop :=
  ∃ burst, 1 ≤ burst ∧
    (namedArg (ascii "burst=") args).bind (Decimal.parseUnsigned Decimal.u32Bound) = some burst

/-- A directive without a burst, or with one that cannot be read, has the burst 0. -/
theorem burst_pos_iff
    {args : List Bytes} {limit : LimitReqRef}
    (h : parseLimitReq args = some limit) :
    1 ≤ limit.burst ↔ AsksBurst args := by
  obtain ⟨zone, -, rfl⟩ := Option.map_eq_some_iff.mp h
  unfold AsksBurst
  dsimp only
  cases (namedArg (ascii "burst=") args).bind (Decimal.parseUnsigned Decimal.u32Bound) with
  | none => simp
  | some burst => simp

/--
Requests from an address that are at least as far apart as the rate asks for are all
allowed exactly if the directive asks for a burst of one at least.
-/
theorem all_allowed_iff
    {args : List Bytes} {limit : LimitReqRef} {name : Bytes} {rate : Rat}
    (hlimit : parseLimitReq args = some limit) (hrate : 0 < rate)
    (hburst : ∀ c ∈ cs, c.ip = ip → c.burst = limit.burst) (hcalls : callsOf ip cs ≠ [])
    (hspaced : Spaced (1 / rate) none ((callsOf ip cs).map Call.now)) :
    (∀ x ∈ answersTo ip ((LimitReqZone.new name rate).answered cs), x.2 = true) ↔
      AsksBurst args := by
  have hothers : answersTo ip ((LimitReqZone.new name rate).answered cs) =
      (LimitReqZone.new name rate).answered (callsOf ip cs) :=
    answersTo_answered rfl rfl
  have hone : ((LimitReqZone.new name rate).answered (callsOf ip cs)).map
      (fun x => (x.1.now, x.2)) = answers rate limit.burst none ((callsOf ip cs).map Call.now) :=
    answered_eq_answers (fun _ => ip_of_callsOf)
      fun c hc => hburst c (mem_of_callsOf hc) (ip_of_callsOf hc)
  have hsame : (∀ x ∈ answersTo ip ((LimitReqZone.new name rate).answered cs), x.2 = true) ↔
      ∀ x ∈ answers rate limit.burst none ((callsOf ip cs).map Call.now), x.2 = true := by
    rw [hothers, ← hone]
    simp
  rw [hsame, ← burst_pos_iff hlimit]
  constructor
  · intro h
    by_contra hzero
    have hdenied : ∀ x ∈ answers rate limit.burst none ((callsOf ip cs).map Call.now),
        x.2 = false :=
      answers_denied (by exact_mod_cast not_le.mp hzero)
    cases hcs : callsOf ip cs with
    | nil => exact hcalls hcs
    | cons c rest =>
        rw [hcs] at h hdenied
        have hfirst := List.mem_cons_self (a := (c.now, (take rate limit.burst c.now none).1))
          (l := answers rate limit.burst (some (take rate limit.burst c.now none).2)
            (rest.map Call.now))
        exact Bool.false_ne_true ((hdenied _ hfirst).symm.trans (h _ hfirst))
  · intro hpos
    exact answers_spaced hrate (by exact_mod_cast hpos) (by simp) hspaced

section Example

/-- One request a second, where the zone lets five a second through. -/
def everySecond (burst : Nat) : List Call :=
  [⟨address, burst, 0⟩, ⟨address, burst, 1⟩, ⟨otherAddress, burst, 1⟩, ⟨address, burst, 2⟩]

theorem all_allowed_iff_example :
    (∀ x ∈ answersTo address ((LimitReqZone.new [] 5).answered (everySecond 3)),
        x.2 = true) ↔
      AsksBurst [ascii "zone=login", ascii "burst=3"] := by
  have hlimit : parseLimitReq [ascii "zone=login", ascii "burst=3"] =
      some ⟨ascii "login", 3, false⟩ := by
    decide
  have hspaced : Spaced (1 / 5 : Rat) none
      ((callsOf address (everySecond 3)).map Call.now) := by
    have hnows : (callsOf address (everySecond 3)).map Call.now = [0, 1, 2] := by decide
    rw [hnows]
    refine ⟨by simp, ?_, ?_, trivial⟩
    · intro t ht
      cases ht
      norm_num
    · intro t ht
      cases ht
      norm_num
  exact all_allowed_iff hlimit (by decide) (by decide) (by decide) hspaced

/-- Without a burst the first request of a client is turned away. -/
theorem no_burst_denied :
    parseLimitReq [ascii "zone=login"] = some ⟨ascii "login", 0, false⟩ ∧
      (LimitReqZone.new [] 5).answered [⟨address, 0, 0⟩] = [(⟨address, 0, 0⟩, false)] ∧
      ¬ ∀ x ∈ answersTo address ((LimitReqZone.new [] 5).answered [⟨address, 0, 0⟩]),
        x.2 = true := by
  have hdenied : (LimitReqZone.new [] 5).answered [⟨address, 0, 0⟩] =
      [(⟨address, 0, 0⟩, false)] := by
    decide +kernel
  refine ⟨by decide, hdenied, ?_⟩
  rw [hdenied]
  decide

end Example

end Conformance

section Dispatch

open ConfigParser Handler

variable {env : Env} {server : ServerBlock} {location : Option LocationBlock}
variable {zones : Bytes → Option LimitReqZone} {now : Rat}

/-- The dispatcher asks the zones of the server, at this time and for this client. -/
def AsksZones (env : Env) (zones : Bytes → Option LimitReqZone) (ip : IpAddr) (now : Rat) :
    Prop :=
  ∀ name burst, env.limitAllows name burst =
    (zones name).map fun z => (z.allow ⟨ip, burst, now⟩).1

/-- A request is turned away if the zone of its location does not allow it. -/
theorem overLimit_iff
    (henv : AsksZones env zones ip now) :
    overLimit env server location = true ↔
      ∃ limit ∈ (location.bind LocationBlock.limitReq).or server.limitReq,
        ∃ z ∈ zones limit.zone, (z.allow ⟨ip, limit.burst, now⟩).1 = false := by
  unfold overLimit
  cases (location.bind LocationBlock.limitReq).or server.limitReq with
  | none => simp
  | some limit =>
      rw [Option.any_some, henv]
      cases hz : zones limit.zone with
      | none => simp [hz]
      | some z => simp [hz]

/-- A location whose directive asks for no burst turns every request away. -/
theorem overLimit_of_no_burst
    {args : List Bytes} {limit : LimitReqRef}
    (henv : AsksZones env zones ip now) (hlimit : parseLimitReq args = some limit)
    (hburst : ¬ AsksBurst args)
    (hdirective : (location.bind LocationBlock.limitReq).or server.limitReq = some limit)
    (hzone : z ∈ zones limit.zone) :
    overLimit env server location = true := by
  refine (overLimit_iff henv).mpr ⟨limit, hdirective, z, hzone, ?_⟩
  have hlow : (limit.burst : Rat) < 1 := by
    have := mt (burst_pos_iff hlimit).mp hburst
    exact_mod_cast not_le.mp this
  refine Bool.eq_false_iff.mpr fun h => ?_
  exact absurd hlow (not_lt_of_ge ((take_eq_true_iff.mp h).trans level_le_burst))

end Dispatch

end LimitReq
end RunNginx
