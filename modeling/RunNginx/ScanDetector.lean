import RunNginx.Lib.IpAddr
import RunNginx.Lib.Table

/-!
# The scan detector

Every client has a record with a counting window and, once its score has crossed the
trigger, the time until which it is blocked.  A call of `record` reads the clock before it
takes the lock, so that its step may come late; each step is one critical section.

`isBlocked_iff` says what a block is over any run of the operations: a client is blocked
exactly for the configured time behind the clock readings of its calls that crossed the
trigger.
-/

namespace RunNginx
namespace ScanDetector

open ByteString

/-- The single-precision arithmetic of the score. -/
structure FloatOps (F : Type) where
  ofNat : Nat → F
  div : F → F → F
  mul : F → F → F
  min : F → F → F
  le : F → F → Bool
  toNat : F → Nat

def scoreTrigger : Nat := 60

def probePaths : List Bytes :=
  [ascii "/.env", ascii "/.git", ascii "/.gitignore", ascii "/.htaccess", ascii "/.htpasswd",
    ascii "/wp-login.php", ascii "/wp-admin", ascii "/xmlrpc.php", ascii "/wp-config.php",
    ascii "/admin", ascii "/administrator", ascii "/phpmyadmin", ascii "/phpMyAdmin",
    ascii "/setup.php", ascii "/config.php", ascii "/install.php", ascii "/upgrade.php",
    ascii "/cgi-bin/", ascii "/shell.php", ascii "/webshell.php", ascii "/c99.php",
    ascii "/r57.php", ascii "/proc/self/environ", ascii "/etc/passwd", ascii "/etc/shadow",
    ascii "/.DS_Store", ascii "/thumbs.db", ascii "/actuator", ascii "/actuator/health",
    ascii "/actuator/env", ascii "/console", ascii "/manager/html", ascii "/.aws/credentials",
    ascii "/.ssh/id_rsa", ascii "/api/swagger", ascii "/swagger-ui.html",
    ascii "/openapi.json", ascii "/vendor/phpunit", ascii "/vendor/autoload.php",
    ascii "/backup.sql", ascii "/backup.zip", ascii "/database.sql"]

structure ScanConfig (F : Type) where
  enabled : Bool
  windowSecs : Nat
  reqThreshold : Nat
  errorRateThreshold : F
  blockSecs : Nat
  abuseipdbKey : Option Bytes
  abuseipdbReport : Bool
  whitelist : List IpAddr

/-- Times are in nanoseconds of the monotonic clock. -/
def second : Nat := 10 ^ 9

/-- The first time that the clock cannot represent. -/
def instantBound : Nat := 2 ^ 63 * second

/-- An instant and a number of seconds; the sum panics where the clock cannot represent it. -/
def addSecs (now secs : Nat) : Option Nat :=
  if now + second * secs < instantBound then some (now + second * secs) else none

structure IpRecord where
  windowStart : Nat
  reqCount : Nat
  error4xx : Nat
  probePaths : List Bytes
  blockedUntil : Option Nat
  lastReported : Option Nat

namespace IpRecord

def new (now : Nat) : IpRecord where
  windowStart := now
  reqCount := 0
  error4xx := 0
  probePaths := []
  blockedUntil := none
  lastReported := none

def resetWindow (now : Nat) (r : IpRecord) : IpRecord :=
  { r with windowStart := now, reqCount := 0, error4xx := 0, probePaths := [] }

variable {F : Type} (ops : FloatOps F) (cfg : ScanConfig F)

def score (r : IpRecord) : Nat :=
  if r.reqCount = 0 then 0
  else
    let thirty := ops.ofNat 30
    let vol := ops.toNat
      (ops.min (ops.mul (ops.div (ops.ofNat r.reqCount) (ops.ofNat cfg.reqThreshold)) thirty)
        thirty)
    let errRate := ops.div (ops.ofNat r.error4xx) (ops.ofNat r.reqCount)
    let err :=
      if ops.le cfg.errorRateThreshold errRate then
        ops.toNat (ops.min (ops.mul (ops.div errRate cfg.errorRateThreshold) thirty) (ops.ofNat 40))
      else 0
    let probe := min (r.probePaths.length * 10) 30
    vol + err + probe

end IpRecord

/-- Records by address. -/
abbrev Tracker := Table IpAddr IpRecord

/-- A call of `record`: what it is about, its clock reading, and the time of its step. -/
structure Call where
  ip : IpAddr
  path : Bytes
  status : Nat
  now : Nat
  time : Nat

/-- How a call of `record` ends. -/
inductive Outcome
  /-- The detector is off, or the address is on the whitelist. -/
  | ignored
  | alreadyBlocked
  | belowTrigger
  /-- The trigger is crossed; the score is reported where a report is due. -/
  | crossed (report : Option Nat)
  | panicked
deriving DecidableEq, Repr

/-- What the call returns, unless it panics. -/
def Outcome.value : Outcome → Option Bool
  | .ignored | .belowTrigger => some false
  | .alreadyBlocked | .crossed _ => some true
  | .panicked => none

section Record

variable {F : Type} (ops : FloatOps F) (cfg : ScanConfig F)

/-- The record without an expired block, unless the block stands. -/
def unblocked (now : Nat) (r : IpRecord) : Option IpRecord :=
  match r.blockedUntil with
  | some exp => if now < exp then none else some { r with blockedUntil := none }
  | none => some r

/-- A new window starts where the old one is over. -/
def openWindow (call : Call) (r : IpRecord) : IpRecord :=
  if second * cfg.windowSecs < call.now - r.windowStart then r.resetWindow call.time else r

/-- The probe paths that a path starts with or holds. -/
def probesOf (path : Bytes) : List Bytes :=
  let pathLower := toAsciiLower path
  probePaths.filter fun probe => probe.isPrefixOf pathLower || contains probe pathLower

/-- The request is counted. -/
def countRequest (call : Call) (r : IpRecord) : IpRecord :=
  { r with
    reqCount := r.reqCount + 1
    error4xx := if 400 ≤ call.status ∧ call.status < 500 then r.error4xx + 1 else r.error4xx
    probePaths := (probesOf call.path).foldl (fun paths probe => paths.insert probe) r.probePaths }

/-- Has the address been reported within the last day? -/
def alreadyReported (now : Nat) (r : IpRecord) : Bool :=
  match r.lastReported with
  | some t => now - t < second * 86400
  | none => false

/-- The record of an address whose score has crossed the trigger. -/
def block (now score : Nat) (blockedUntil : Option Nat) (r : IpRecord) : IpRecord × Outcome :=
  let r := { r with blockedUntil := blockedUntil }
  if !alreadyReported now r && cfg.abuseipdbReport && cfg.abuseipdbKey.isSome then
    ({ r with lastReported := some now }, .crossed (some score))
  else (r, .crossed none)

/-- The trigger is crossed. -/
def trigger (now score : Nat) (r : IpRecord) : IpRecord × Outcome :=
  if cfg.blockSecs = 0 then block cfg now score none r
  else
    match addSecs now cfg.blockSecs with
    | none => (r, .panicked)
    | some exp => block cfg now score (some exp) r

/-- A record that has no block is looked at once the request is counted. -/
def weigh (call : Call) (r : IpRecord) : IpRecord × Outcome :=
  let score := r.score ops cfg
  if score < scoreTrigger then (r, .belowTrigger) else trigger cfg call.now score r

/-- What a call does to the record of its address. -/
def judge (call : Call) (r : IpRecord) : IpRecord × Outcome :=
  match unblocked call.now r with
  | none => (r, .alreadyBlocked)
  | some r => weigh ops cfg call (countRequest call (openWindow cfg call r))

def record (call : Call) (tracker : Tracker) : Tracker × Outcome :=
  if !cfg.enabled || cfg.whitelist.contains call.ip then (tracker, .ignored)
  else
    let judged := judge ops cfg call ((tracker.lookup call.ip).getD (.new call.time))
    (tracker.insert call.ip judged.1, judged.2)

def isBlocked (ip : IpAddr) (now : Nat) (tracker : Tracker) : Bool :=
  cfg.enabled &&
    match (tracker.lookup ip).bind IpRecord.blockedUntil with
    | some exp => now < exp
    | none => false

/-- Three windows; the product wraps around. -/
def gcCutoff : Nat := second * (cfg.windowSecs * 3 % 2 ^ 64)

def gc (now : Nat) (tracker : Tracker) : Tracker :=
  tracker.retain fun _ r =>
    let activeBlock := match r.blockedUntil with
      | some exp => decide (now < exp)
      | none => false
    activeBlock || now - r.windowStart < gcCutoff cfg

end Record

/-! ### What a call does to a block -/

section Judge

variable {F : Type} {ops : FloatOps F} {cfg : ScanConfig F}

@[simp] theorem blockedUntil_openWindow (call : Call) (r : IpRecord) :
    (openWindow cfg call r).blockedUntil = r.blockedUntil := by
  unfold openWindow
  split <;> rfl

@[simp] theorem blockedUntil_countRequest (call : Call) (r : IpRecord) :
    (countRequest call r).blockedUntil = r.blockedUntil := rfl

theorem block_blockedUntil
    (now score : Nat) (exp : Option Nat) (r : IpRecord) :
    (block cfg now score exp r).1.blockedUntil = exp ∧
      ∃ report, (block cfg now score exp r).2 = .crossed report := by
  unfold block
  dsimp only
  split <;> exact ⟨rfl, _, rfl⟩

/-- The block of the record does not stand at this time. -/
def Expired (now : Nat) (r : IpRecord) : Prop :=
  ∀ exp, r.blockedUntil = some exp → exp ≤ now

/-- A call leaves a block that stands as it is.  Otherwise there is none afterwards, or one
that starts at the call's clock reading, if the call has crossed the trigger. -/
inductive Judged (cfg : ScanConfig F) (call : Call) (r : IpRecord) : IpRecord × Outcome → Prop
  | stands {exp : Nat} :
      r.blockedUntil = some exp → call.now < exp → Judged cfg call r (r, .alreadyBlocked)
  | free {r' : IpRecord} {outcome : Outcome} :
      Expired call.now r → r'.blockedUntil = none → (∀ report, outcome ≠ .crossed report) →
      Judged cfg call r (r', outcome)
  | crossed {r' : IpRecord} {report : Option Nat} :
      Expired call.now r → r'.blockedUntil = some (call.now + second * cfg.blockSecs) →
      Judged cfg call r (r', .crossed report)

theorem unblocked_none
    {now : Nat} {r : IpRecord}
    (h : unblocked now r = none) :
    ∃ exp, r.blockedUntil = some exp ∧ now < exp := by
  unfold unblocked at h
  split at h
  · rename_i exp hexp
    split at h
    · rename_i hnow
      exact ⟨exp, hexp, hnow⟩
    · cases h
  · cases h

theorem unblocked_some
    {now : Nat} {r free : IpRecord}
    (h : unblocked now r = some free) :
    Expired now r ∧ free.blockedUntil = none := by
  unfold unblocked at h
  split at h
  · rename_i exp hexp
    split at h
    · cases h
    · rename_i hnow
      cases h
      refine ⟨fun exp' hexp' => ?_, rfl⟩
      cases hexp.symm.trans hexp'
      exact Nat.le_of_not_lt hnow
  · rename_i hnone
    cases h
    refine ⟨fun exp hexp => ?_, hnone⟩
    cases hnone.symm.trans hexp

theorem addSecs_eq
    {now secs exp : Nat}
    (h : addSecs now secs = some exp) :
    exp = now + second * secs := by
  unfold addSecs at h
  split at h
  · exact (Option.some.inj h).symm
  · cases h

theorem Judged.of_crossed
    {call : Call} {r : IpRecord} {judged : IpRecord × Outcome} {report : Option Nat}
    (hexpired : Expired call.now r)
    (huntil : judged.1.blockedUntil = some (call.now + second * cfg.blockSecs))
    (hreport : judged.2 = .crossed report) :
    Judged cfg call r judged := by
  obtain ⟨r', outcome⟩ := judged
  obtain rfl : outcome = .crossed report := hreport
  exact .crossed hexpired huntil

theorem trigger_cases
    (hblock : 0 < cfg.blockSecs) {call : Call} {r free : IpRecord}
    (hexpired : Expired call.now r) (hnone : free.blockedUntil = none) (score : Nat) :
    Judged cfg call r (trigger cfg call.now score free) := by
  unfold trigger
  rw [if_neg (Nat.ne_of_gt hblock)]
  cases hadd : addSecs call.now cfg.blockSecs with
  | none => exact .free hexpired hnone nofun
  | some exp =>
      obtain ⟨huntil, report, hreport⟩ := block_blockedUntil call.now score (some exp) free
      exact .of_crossed hexpired (huntil.trans (congrArg some (addSecs_eq hadd))) hreport

theorem weigh_cases
    (hblock : 0 < cfg.blockSecs) {call : Call} {r free : IpRecord}
    (hexpired : Expired call.now r) (hnone : free.blockedUntil = none) :
    Judged cfg call r (weigh ops cfg call free) := by
  unfold weigh
  dsimp only
  split
  · exact .free hexpired hnone nofun
  · exact trigger_cases hblock hexpired hnone _

theorem judge_cases
    (hblock : 0 < cfg.blockSecs) (call : Call) (r : IpRecord) :
    Judged cfg call r (judge ops cfg call r) := by
  unfold judge
  cases hfree : unblocked call.now r with
  | none =>
      obtain ⟨exp, hexp, hnow⟩ := unblocked_none hfree
      exact .stands hexp hnow
  | some free =>
      obtain ⟨hexpired, hnone⟩ := unblocked_some hfree
      have hcounted : (countRequest call (openWindow cfg call free)).blockedUntil = none := by
        simpa using hnone
      exact weigh_cases hblock hexpired hcounted

end Judge

/-! ### Runs -/

/-- A step of the detector; each is one critical section. -/
inductive Event
  | record (call : Call)
  | gc (time : Nat)

def Event.time : Event → Nat
  | .record call => call.time
  | .gc time => time

/-- The clock never goes back, and a call has read it before its step. -/
structure Timed (events : List Event) : Prop where
  ordered : events.Pairwise fun e e' => e.time ≤ e'.time
  readings : ∀ call, .record call ∈ events → call.now ≤ call.time

section Run

variable {F : Type} (ops : FloatOps F) (cfg : ScanConfig F)

def step (tracker : Tracker) : Event → Tracker
  | .record call => (record ops cfg call tracker).1
  | .gc time => gc cfg time tracker

def run (events : List Event) : Tracker :=
  events.foldl (step ops cfg) ∅

/-- A completed call of the run crossed the trigger. -/
def Crosses (events : List Event) (call : Call) : Prop :=
  ∃ before after report, events = before ++ .record call :: after ∧
    (record ops cfg call (run ops cfg before)).2 = .crossed report

/-- Every block comes from a call that crossed the trigger, and such a call's block stands, or
is over. -/
structure Covers (events : List Event) (time : Nat) (tracker : Tracker) : Prop where
  sound : ∀ ip r exp, tracker.lookup ip = some r → r.blockedUntil = some exp →
    ∃ call, Crosses ops cfg events call ∧ call.ip = ip ∧ exp = call.now + second * cfg.blockSecs
  complete : ∀ call, Crosses ops cfg events call →
    call.now + second * cfg.blockSecs ≤ time ∨
      ∃ r exp, tracker.lookup call.ip = some r ∧ r.blockedUntil = some exp ∧
        call.now + second * cfg.blockSecs ≤ exp

variable {ops cfg}

theorem run_append
    (events : List Event) (e : Event) :
    run ops cfg (events ++ [e]) = step ops cfg (run ops cfg events) e := by
  rw [run, List.foldl_append]
  rfl

/-- A later step crosses the trigger itself, or the call was there before. -/
theorem crosses_append
    {events : List Event} {e : Event} {call : Call} :
    Crosses ops cfg (events ++ [e]) call ↔
      Crosses ops cfg events call ∨
        e = .record call ∧ ∃ report, (record ops cfg call (run ops cfg events)).2 = .crossed report := by
  constructor
  · rintro ⟨before, after, report, heq, hcross⟩
    rcases List.eq_nil_or_concat after with rfl | ⟨after, last, rfl⟩
    · obtain ⟨rfl, hlast⟩ := List.append_inj' heq rfl
      exact .inr ⟨List.singleton_inj.mp hlast, report, hcross⟩
    · have heq' : events ++ [e] = (before ++ .record call :: after) ++ [last] := by
        simpa using heq
      obtain ⟨rfl, -⟩ := List.append_inj' heq' rfl
      exact .inl ⟨before, after, report, rfl, hcross⟩
  · rintro (⟨before, after, report, rfl, hcross⟩ | ⟨rfl, report, hcross⟩)
    · exact ⟨before, after ++ [e], report, by simp, hcross⟩
    · exact ⟨events, [], report, rfl, hcross⟩

theorem covers_gc
    {events : List Event} {time time' : Nat} {tracker : Tracker}
    (h : Covers ops cfg events time tracker) (htime : time ≤ time') :
    Covers ops cfg (events ++ [.gc time']) time' (gc cfg time' tracker) := by
  have hsame : ∀ call, Crosses ops cfg (events ++ [.gc time']) call ↔
      Crosses ops cfg events call := by
    intro call
    rw [crosses_append]
    constructor
    · rintro (h | ⟨heq, -⟩)
      · exact h
      · cases heq
    · exact .inl
  constructor
  · intro ip r exp hlookup hexp
    rw [gc, Table.lookup_retain, Option.filter_eq_some_iff] at hlookup
    obtain ⟨call, hcross, hcall⟩ := h.sound ip r exp hlookup.1 hexp
    exact ⟨call, (hsame call).mpr hcross, hcall⟩
  · intro call hcross
    rcases h.complete call ((hsame call).mp hcross) with hover | ⟨r, exp, hlookup, hexp, hle⟩
    · exact .inl (hover.trans htime)
    · by_cases hactive : time' < exp
      · refine .inr ⟨r, exp, ?_, hexp, hle⟩
        rw [gc, Table.lookup_retain, hlookup, Option.filter_eq_some_iff]
        simp [hexp, hactive]
      · -- a block that the collection drops is over
        exact .inl (hle.trans (Nat.le_of_not_lt hactive))

/-- A call that is looked at is judged by the record of its address. -/
theorem record_cases
    (call : Call) (tracker : Tracker) :
    record ops cfg call tracker = (tracker, .ignored) ∨
      cfg.enabled = true ∧
        record ops cfg call tracker =
          (tracker.insert call.ip
              (judge ops cfg call ((tracker.lookup call.ip).getD (.new call.time))).1,
            (judge ops cfg call ((tracker.lookup call.ip).getD (.new call.time))).2) := by
  unfold record
  split
  · exact .inl rfl
  · rename_i h
    simp only [Bool.or_eq_true, Bool.not_eq_true', not_or, Bool.not_eq_false] at h
    exact .inr ⟨h.1, rfl⟩

theorem Covers.later
    {events : List Event} {time time' : Nat} {tracker : Tracker}
    (h : Covers ops cfg events time tracker) (htime : time ≤ time') :
    Covers ops cfg events time' tracker where
  sound := h.sound
  complete call hcross := (h.complete call hcross).imp_left fun hover => hover.trans htime

/-- The blocks of an address whose record has none that stands are over. -/
theorem Covers.over
    {events : List Event} {call call' : Call} {tracker : Tracker}
    (h : Covers ops cfg events call.time tracker) (hnow : call.now ≤ call.time)
    (hexpired : Expired call.now ((tracker.lookup call.ip).getD (.new call.time)))
    (hcross : Crosses ops cfg events call') (hip : call'.ip = call.ip) :
    call'.now + second * cfg.blockSecs ≤ call.time := by
  rcases h.complete call' hcross with hover | ⟨r, exp, hlookup, hexp, hle⟩
  · exact hover
  · rw [← hip, hlookup, Option.getD_some] at hexpired
    exact hle.trans ((hexpired exp hexp).trans hnow)

/-- A call changes the record of its own address only. -/
theorem covers_insert
    {events : List Event} {call : Call} {tracker : Tracker} {r : IpRecord}
    (h : Covers ops cfg events call.time tracker)
    (hsound : ∀ exp, r.blockedUntil = some exp →
      ∃ call', Crosses ops cfg (events ++ [.record call]) call' ∧ call'.ip = call.ip ∧
        exp = call'.now + second * cfg.blockSecs)
    (hcomplete : ∀ call', Crosses ops cfg (events ++ [.record call]) call' →
      call'.ip = call.ip → call'.now + second * cfg.blockSecs ≤ call.time ∨
        ∃ exp, r.blockedUntil = some exp ∧ call'.now + second * cfg.blockSecs ≤ exp) :
    Covers ops cfg (events ++ [.record call]) call.time (tracker.insert call.ip r) := by
  constructor
  · intro ip r' exp hlookup hexp
    rw [Table.lookup_insert_ite] at hlookup
    split at hlookup
    · rename_i hip
      cases hlookup
      rw [hip]
      exact hsound exp hexp
    · obtain ⟨call', hcross, hcall⟩ := h.sound ip r' exp hlookup hexp
      exact ⟨call', crosses_append.mpr (.inl hcross), hcall⟩
  · intro call' hcross
    by_cases hip : call'.ip = call.ip
    · rw [hip, AList.lookup_insert]
      rcases hcomplete call' hcross hip with hover | ⟨exp, hexp, hle⟩
      · exact .inl hover
      · exact .inr ⟨r, exp, rfl, hexp, hle⟩
    · rw [AList.lookup_insert_ne hip]
      refine h.complete call' ((crosses_append.mp hcross).resolve_right ?_)
      rintro ⟨heq, -⟩
      cases heq
      exact hip rfl

theorem covers_record
    {events : List Event} {time : Nat} {call : Call}
    (hblock : 0 < cfg.blockSecs)
    (hcovers : Covers ops cfg events time (run ops cfg events))
    (htime : time ≤ call.time) (hnow : call.now ≤ call.time) :
    Covers ops cfg (events ++ [.record call]) call.time
      (record ops cfg call (run ops cfg events)).1 := by
  have h := hcovers.later htime
  -- a call that does not cross the trigger adds no crossing
  have hsame : (∀ report, (record ops cfg call (run ops cfg events)).2 ≠ .crossed report) →
      ∀ call', Crosses ops cfg (events ++ [.record call]) call' →
        Crosses ops cfg events call' := by
    intro hnot call' hcross
    rcases crosses_append.mp hcross with hcross | ⟨heq, report, hreport⟩
    · exact hcross
    · cases heq
      exact absurd hreport (hnot report)
  rcases record_cases call (run ops cfg events) with hrecord | ⟨-, hrecord⟩
  · rw [hrecord] at hsame ⊢
    refine ⟨fun ip r exp hlookup hexp => ?_, fun call' hcross => ?_⟩
    · obtain ⟨call', hcross, hcall⟩ := h.sound ip r exp hlookup hexp
      exact ⟨call', crosses_append.mpr (.inl hcross), hcall⟩
    · exact h.complete call' (hsame nofun call' hcross)
  · have hjudged : Judged cfg call _ (judge ops cfg call _) := judge_cases hblock call
      (((run ops cfg events).lookup call.ip).getD (.new call.time))
    have hover := fun call' => @Covers.over _ _ _ _ _ call' _ h hnow
    generalize hr : ((run ops cfg events).lookup call.ip).getD (.new call.time) = r at *
    generalize hj : judge ops cfg call r = judged at *
    rw [hrecord] at hsame ⊢
    cases hjudged with
    | @stands exp hexp hstands =>
        have hlookup : (run ops cfg events).lookup call.ip = some r := by
          cases hnone : (run ops cfg events).lookup call.ip with
          | none =>
              rw [hnone, Option.getD_none] at hr
              cases hr
              cases hexp
          | some r' =>
              rw [hnone, Option.getD_some] at hr
              rw [hr]
        refine covers_insert h ?_ ?_
        · intro exp' hexp'
          obtain ⟨call', hcross, hcall⟩ := h.sound call.ip r exp' hlookup hexp'
          exact ⟨call', crosses_append.mpr (.inl hcross), hcall⟩
        · intro call' hcross hip
          rcases h.complete call' (hsame nofun call' hcross) with hover | ⟨r', exp', hr', hexp', hle⟩
          · exact .inl hover
          · rw [hip, hlookup] at hr'
            cases hr'
            exact .inr ⟨exp', hexp', hle⟩
    | @free r' outcome hexpired hnone hnot =>
        refine covers_insert h (fun exp hexp => nomatch hnone.symm.trans hexp) ?_
        intro call' hcross hip
        exact .inl (hover call' hexpired (hsame hnot call' hcross) hip)
    | @crossed r' report hexpired hexp =>
        refine covers_insert h ?_ ?_
        · intro exp' hexp'
          cases hexp.symm.trans hexp'
          refine ⟨call, crosses_append.mpr (.inr ⟨rfl, report, ?_⟩), rfl, rfl⟩
          rw [hrecord]
        · intro call' hcross hip
          rcases crosses_append.mp hcross with hcross | ⟨heq, -⟩
          · exact .inl (hover call' hexpired hcross hip)
          · cases heq
            exact .inr ⟨_, hexp, le_refl _⟩

/-- Every run covers the calls that crossed the trigger. -/
theorem covers_run
    (hblock : 0 < cfg.blockSecs) {events : List Event} (htimed : Timed events) {time : Nat}
    (hlate : ∀ e ∈ events, e.time ≤ time) :
    Covers ops cfg events time (run ops cfg events) := by
  induction events using List.reverseRecOn generalizing time with
  | nil =>
      constructor
      · intro ip r exp hlookup
        cases hlookup
      · rintro call ⟨before, after, report, heq, -⟩
        simp at heq
  | append_singleton events e ih =>
      have hordered := List.pairwise_append.mp htimed.ordered
      have hearlier : ∀ e' ∈ events, e'.time ≤ e.time :=
        fun e' he' => hordered.2.2 e' he' e List.mem_cons_self
      have hprefix := ih ⟨hordered.1, fun call hcall =>
        htimed.readings call (List.mem_append_left _ hcall)⟩ hearlier
      have hlast : e.time ≤ time := hlate e (by simp)
      rw [run_append]
      cases e with
      | record call =>
          have hnow := htimed.readings call (by simp)
          exact (covers_record hblock hprefix (Nat.le_refl _) hnow).later hlast
      | gc time' => exact (covers_gc hprefix (Nat.le_refl _)).later hlast

/-- Only a detector that is on has calls that cross the trigger. -/
theorem Crosses.enabled
    {events : List Event} {call : Call}
    (h : Crosses ops cfg events call) :
    cfg.enabled = true := by
  obtain ⟨before, after, report, -, hreport⟩ := h
  rcases record_cases call (run ops cfg before) with hrecord | ⟨henabled, -⟩
  · rw [hrecord] at hreport
    cases hreport
  · exact henabled

theorem isBlocked_eq_true
    {ip : IpAddr} {now : Nat} {tracker : Tracker} :
    isBlocked cfg ip now tracker = true ↔
      cfg.enabled = true ∧ ∃ r exp, tracker.lookup ip = some r ∧ r.blockedUntil = some exp ∧
        now < exp := by
  unfold isBlocked
  cases hlookup : tracker.lookup ip with
  | none => simp
  | some r =>
      cases hexp : r.blockedUntil with
      | none => simp [hexp]
      | some exp => simp [hexp]

/-- A tracker that covers the calls blocks the clients of those that have crossed the trigger. -/
theorem Covers.blocks_iff
    {events : List Event} {time : Nat} {tracker : Tracker} {ip : IpAddr}
    (h : Covers ops cfg events time tracker) :
    isBlocked cfg ip time tracker = true ↔
      ∃ call, Crosses ops cfg events call ∧ call.ip = ip ∧
        time < call.now + second * cfg.blockSecs := by
  rw [isBlocked_eq_true]
  constructor
  · rintro ⟨-, r, exp, hlookup, hexp, htime⟩
    obtain ⟨call, hcross, hip, rfl⟩ := h.sound ip r exp hlookup hexp
    exact ⟨call, hcross, hip, htime⟩
  · rintro ⟨call, hcross, rfl, htime⟩
    rcases h.complete call hcross with hover | ⟨r, exp, hlookup, hexp, hle⟩
    · exact absurd htime (Nat.not_lt_of_le hover)
    · exact ⟨hcross.enabled, r, exp, hlookup, hexp, Nat.lt_of_lt_of_le htime hle⟩

end Run

/-- Whole numbers for the score. -/
def natOps : FloatOps Nat where
  ofNat n := n
  div := (· / ·)
  mul := (· * ·)
  min := Nat.min
  le a b := decide (a ≤ b)
  toNat n := n

/-- One request is enough for the volume and the error rate. -/
def strictConfig : ScanConfig Nat where
  enabled := true
  windowSecs := 60
  reqThreshold := 1
  errorRateThreshold := 1
  blockSecs := 3600
  abuseipdbKey := none
  abuseipdbReport := false
  whitelist := []

def notFoundCall : Call where
  ip := .v4 ⟨192, 0, 2, 1⟩
  path := ascii "/missing"
  status := 404
  now := 5
  time := 7

end ScanDetector
end RunNginx
