import RunNginx.Lib.Run
import RunNginx.ScanDetector

/-!
# Reports of the scan detector

An address that crosses the trigger is reported, unless its record says that it was reported
within the last day.  The collection removes records by their block and their window, and
with a record goes the time of its last report.

`reports_apart`: in a run whose collections keep every record that was reported within the
last day, any two reports of an address are a day apart.
-/

namespace RunNginx
namespace ScanDetector

open ByteString

/-- A day, in nanoseconds. -/
def day : Nat := second * 86400

section Reports

variable {F : Type} (ops : FloatOps F) (cfg : ScanConfig F)

/-- The call that a step reports. -/
def reportOf (tracker : Tracker) : Event → List Call
  | .record call =>
      match (record ops cfg call tracker).2 with
      | .crossed (some _) => [call]
      | _ => []
  | .gc _ => []

/-- The calls of a run that are reported. -/
def reports : Tracker → List Event → List Call
  | _, [] => []
  | tracker, e :: es => reportOf ops cfg tracker e ++ reports (step ops cfg tracker e) es

/-- Reports of one address are a day apart, by their clock readings. -/
def DayApart (call call' : Call) : Prop :=
  call.ip = call'.ip → call.now + day ≤ call'.now

instance : DecidableRel DayApart :=
  fun call call' => inferInstanceAs (Decidable (call.ip = call'.ip → call.now + day ≤ call'.now))

/-- A call has not read the clock before a collection in front of it. -/
def NotBehind : Event → Event → Prop
  | .gc time, .record call => time ≤ call.now
  | _, _ => True

/--
The condition on a collection: a record that was reported within the last day is blocked, or
its window is younger than three windows.
-/
def KeepsReported (cfg : ScanConfig F) (tracker : Tracker) : Event → Prop
  | .gc time =>
      ∀ ip r t, tracker.lookup ip = some r → r.lastReported = some t → time < t + day →
        (∃ exp, r.blockedUntil = some exp ∧ time < exp) ∨ time - r.windowStart < gcCutoff cfg
  | .record _ => True

end Reports

section Judge

variable {F : Type} {ops : FloatOps F} {cfg : ScanConfig F}

/-- What a call does to the time of the last report. -/
inductive Dated (call : Call) (r : IpRecord) : IpRecord × Outcome → Prop
  | same {r' : IpRecord} {outcome : Outcome} :
      r'.lastReported = r.lastReported → (∀ score, outcome ≠ .crossed (some score)) →
      Dated call r (r', outcome)
  | reported {r' : IpRecord} {score : Nat} :
      alreadyReported call.now r = false → r'.lastReported = some call.now →
      Dated call r (r', .crossed (some score))

theorem alreadyReported_congr
    {r r' : IpRecord} (h : r'.lastReported = r.lastReported) (now : Nat) :
    alreadyReported now r' = alreadyReported now r := by
  rw [alreadyReported, alreadyReported, h]

theorem block_dated
    {call : Call} {r r' : IpRecord} (h : r'.lastReported = r.lastReported) (score : Nat)
    (blockedUntil : Option Nat) :
    Dated call r (block cfg call.now score blockedUntil r') := by
  unfold block
  dsimp only
  split
  · rename_i hdue
    rw [Bool.and_eq_true, Bool.and_eq_true, Bool.not_eq_true'] at hdue
    refine .reported ?_ rfl
    rw [← hdue.1.1]
    exact (alreadyReported_congr h call.now).symm
  · exact .same h nofun

theorem trigger_dated
    {call : Call} {r r' : IpRecord} (h : r'.lastReported = r.lastReported) (score : Nat) :
    Dated call r (trigger cfg call.now score r') := by
  unfold trigger
  split
  · exact block_dated h score none
  · split
    · exact .same h nofun
    · exact block_dated h score _

theorem judge_dated
    (call : Call) (r : IpRecord) :
    Dated call r (judge ops cfg call r) := by
  unfold judge
  cases hfree : unblocked call.now r with
  | none => exact .same rfl nofun
  | some free =>
      have hlast : free.lastReported = r.lastReported := by
        unfold unblocked at hfree
        split at hfree
        · split at hfree
          · cases hfree
          · cases hfree
            rfl
        · cases hfree
          rfl
      have hcounted : (countRequest call (openWindow cfg call free)).lastReported =
          r.lastReported := by
        rw [← hlast]
        unfold countRequest openWindow
        split <;> rfl
      unfold weigh
      dsimp only
      split
      · exact .same hcounted nofun
      · exact trigger_dated hcounted _

end Judge

section Run

variable {F : Type} {ops : FloatOps F} {cfg : ScanConfig F} {tracker : Tracker}

/-- A report is due a day behind the last one. -/
theorem later_of_due
    {now t : Nat} {r : IpRecord}
    (hdue : alreadyReported now r = false) (hlast : r.lastReported = some t) :
    t + day ≤ now := by
  have hpos : 0 < day := by
    decide
  have hpast : ¬ now - t < day := by
    rw [alreadyReported, hlast] at hdue
    exact of_decide_eq_false hdue
  omega

/-- The record of a reported address says so, or a collection came a day later. -/
def Remembered (calls : List Call) (times : List Nat) (tracker : Tracker) : Prop :=
  ∀ call ∈ calls,
    (∃ r t, tracker.lookup call.ip = some r ∧ r.lastReported = some t ∧ call.now ≤ t) ∨
      ∃ time ∈ times, call.now + day ≤ time

/-- A collection drops no record that was reported within the last day. -/
theorem Remembered.gc
    {calls : List Call} {times : List Nat} {time : Nat}
    (h : Remembered calls times tracker) (hkeeps : KeepsReported cfg tracker (.gc time)) :
    Remembered calls (time :: times) (ScanDetector.gc cfg time tracker) := by
  intro call hcall
  rcases h call hcall with ⟨r, t, hlookup, hlast, hle⟩ | ⟨time', htime', hlater⟩
  · by_cases hrecent : time < t + day
    · refine .inl ⟨r, t, ?_, hlast, hle⟩
      rw [ScanDetector.gc, Table.lookup_retain, hlookup, Option.filter_eq_some_iff]
      refine ⟨rfl, ?_⟩
      rw [Bool.or_eq_true, decide_eq_true_eq]
      refine (hkeeps call.ip r t hlookup hlast hrecent).imp_left ?_
      rintro ⟨exp, hexp, hactive⟩
      rw [hexp]
      exact decide_eq_true hactive
    · exact .inr ⟨time, List.mem_cons_self, by omega⟩
  · exact .inr ⟨time', List.mem_cons_of_mem time htime', hlater⟩

/-- A report comes a day behind the reports of its address. -/
theorem Remembered.dayApart
    {calls : List Call} {times : List Nat} {call : Call}
    (h : Remembered calls times tracker) (htimes : ∀ time ∈ times, time ≤ call.now)
    (hdue : alreadyReported call.now ((tracker.lookup call.ip).getD (.new call.time)) = false) :
    ∀ call' ∈ calls, DayApart call' call := by
  intro call' hcall' hip
  rcases h call' hcall' with ⟨r, t, hlookup, hlast, hle⟩ | ⟨time, htime, hlater⟩
  · rw [← hip, hlookup, Option.getD_some] at hdue
    exact (Nat.add_le_add_right hle day).trans (later_of_due hdue hlast)
  · exact hlater.trans (htimes time htime)

/-- Another record takes the place of that of an address. -/
theorem Remembered.insert
    {calls : List Call} {times : List Nat} {call : Call} {r : IpRecord}
    (h : Remembered calls times tracker)
    (hlast : ∀ t, ((tracker.lookup call.ip).getD (.new call.time)).lastReported = some t →
      ∃ t', r.lastReported = some t' ∧ t ≤ t') :
    Remembered calls times (tracker.insert call.ip r) := by
  intro call' hcall'
  refine (h call' hcall').imp_left ?_
  rintro ⟨r', t, hlookup, hlast', hle⟩
  by_cases hip : call'.ip = call.ip
  · rw [← hip, hlookup, Option.getD_some] at hlast
    obtain ⟨t', ht', hlater⟩ := hlast t hlast'
    exact ⟨r, t', by rw [hip, AList.lookup_insert], ht', hle.trans hlater⟩
  · exact ⟨r', t, by rw [AList.lookup_insert_ne hip, hlookup], hlast', hle⟩

/-- A call that is reported comes a day behind the others, and is remembered. -/
theorem Remembered.record
    {calls : List Call} {times : List Nat} {call : Call}
    (h : Remembered calls times tracker) (htimes : ∀ time ∈ times, time ≤ call.now) :
    (∀ call' ∈ calls, ∀ new ∈ reportOf ops cfg tracker (.record call), DayApart call' new) ∧
      Remembered (reportOf ops cfg tracker (.record call) ++ calls) times
        (ScanDetector.record ops cfg call tracker).1 := by
  rcases @record_cases _ ops cfg call tracker with hrecord | ⟨-, hrecord⟩
  · rw [reportOf, hrecord]
    exact ⟨fun _ _ _ hnew => absurd hnew List.not_mem_nil, h⟩
  · have hdated := @judge_dated _ ops cfg call ((tracker.lookup call.ip).getD (.new call.time))
    generalize hr : (tracker.lookup call.ip).getD (.new call.time) = r at hdated hrecord
    generalize judge ops cfg call r = judged at hdated hrecord
    rw [reportOf, hrecord]
    cases hdated with
    | @same r' outcome hsame hnot =>
        have hnone : (match outcome with
            | .crossed (some _) => [call]
            | _ => []) = [] := by
          split
          · rename_i score
            exact absurd rfl (hnot score)
          · rfl
        dsimp only
        rw [hnone]
        refine ⟨fun _ _ _ hnew => absurd hnew List.not_mem_nil, h.insert fun t ht => ?_⟩
        exact ⟨t, by rw [hsame, ← hr, ht], Nat.le_refl t⟩
    | @reported r' score hdue hlast =>
        have hapart := h.dayApart htimes (hr ▸ hdue)
        refine ⟨fun call' hcall' new hnew => ?_, ?_⟩
        · rw [List.mem_singleton.mp hnew]
          exact hapart call' hcall'
        · rw [Remembered, List.singleton_append, List.forall_mem_cons]
          refine ⟨.inl ⟨r', call.now, AList.lookup_insert _, hlast, Nat.le_refl _⟩, ?_⟩
          refine h.insert fun t ht => ⟨call.now, hlast, ?_⟩
          rw [hr] at ht
          exact (Nat.le_add_right t day).trans (later_of_due hdue ht)

/-- Behind reports that are remembered, a run reports an address a day later at the earliest. -/
theorem reports_after
    {events : List Event} {calls : List Call} {times : List Nat}
    (h : Remembered calls times tracker)
    (htimes : ∀ time ∈ times, ∀ call, .record call ∈ events → time ≤ call.now)
    (hclock : events.Pairwise NotBehind)
    (hkeeps : Run.Steps (step ops cfg) (KeepsReported cfg) tracker events) :
    (∀ call ∈ calls, ∀ call' ∈ reports ops cfg tracker events, DayApart call call') ∧
      (reports ops cfg tracker events).Pairwise DayApart := by
  induction events generalizing calls times tracker with
  | nil => exact ⟨fun _ _ _ hmem => absurd hmem List.not_mem_nil, List.Pairwise.nil⟩
  | cons e events ih =>
      obtain ⟨hnext, hrest⟩ := List.pairwise_cons.mp hclock
      obtain ⟨hkeep, hsteps⟩ := hkeeps
      have htimes' : ∀ time ∈ times, ∀ call, .record call ∈ events → time ≤ call.now :=
        fun time htime call hcall => htimes time htime call (List.mem_cons_of_mem e hcall)
      rw [reports]
      cases e with
      | gc time =>
          refine ih (h.gc hkeep) ?_ hrest hsteps
          exact List.forall_mem_cons.mpr ⟨fun call hcall => hnext _ hcall, htimes'⟩
      | record call =>
          have hnow := fun time htime => htimes time htime call List.mem_cons_self
          obtain ⟨hnew, hremembered⟩ := @Remembered.record _ ops cfg _ _ _ _ h hnow
          obtain ⟨hlater, hpairs⟩ := ih hremembered htimes' hrest hsteps
          refine ⟨fun call' hcall' new hmem => ?_, ?_⟩
          · rcases List.mem_append.mp hmem with hmem | hmem
            · exact hnew call' hcall' new hmem
            · exact hlater call' (List.mem_append_right _ hcall') new hmem
          · refine List.pairwise_append.mpr ⟨?_, hpairs, fun c hc c' hc' => ?_⟩
            · rw [reportOf]
              split
              · exact List.pairwise_singleton _ _
              · exact List.Pairwise.nil
            · exact hlater c (List.mem_append_left _ hc) c' hc'

/--
In a run whose collections keep the records that were reported within the last day, two
reports of an address are a day apart.
-/
theorem reports_apart
    {events : List Event}
    (hclock : events.Pairwise NotBehind)
    (hkeeps : Run.Steps (step ops cfg) (KeepsReported cfg) ∅ events) :
    (reports ops cfg ∅ events).Pairwise DayApart :=
  (@reports_after _ ops cfg ∅ events [] [] (fun _ h => absurd h List.not_mem_nil)
    (fun _ h => absurd h List.not_mem_nil) hclock hkeeps).2

end Run

/-- One request is enough for a report. -/
def reportingConfig : ScanConfig Nat :=
  { strictConfig with abuseipdbKey := some (ascii "key"), abuseipdbReport := true }

/-- A request for a missing file after so many seconds. -/
def missingAt (secs : Nat) : Call :=
  { notFoundCall with now := second * secs, time := second * secs }

/-- Two of them, and a collection between them. -/
def twoScans (collected later : Nat) : List Event :=
  [.record (missingAt 0), .gc (second * collected), .record (missingAt later)]

/-- The collection comes while the address is blocked, and the second report a day later. -/
theorem reports_apart_example :
    (reports natOps reportingConfig ∅ (twoScans 300 86400)).Pairwise DayApart := by
  refine reports_apart ?_ ⟨trivial, ?_, trivial, trivial⟩
  · simp [twoScans, NotBehind, missingAt, second]
  · intro ip r t hlookup hlast hrecent
    have hstate : step natOps reportingConfig ∅ (.record (missingAt 0)) =
        (∅ : Tracker).insert (missingAt 0).ip
          (judge natOps reportingConfig (missingAt 0) (.new 0)).1 := rfl
    rw [hstate, Table.lookup_insert_ite] at hlookup
    split at hlookup
    · cases hlookup
      exact .inl ⟨second * 3600, rfl, by decide⟩
    · cases hlookup

/-- A collection after two hours lets an address be reported again. -/
theorem collected_then_reported :
    (twoScans 7200 7201).Pairwise (fun e e' => e.time ≤ e'.time) ∧
      ¬ (reports natOps reportingConfig ∅ (twoScans 7200 7201)).Pairwise DayApart := by
  decide

end ScanDetector
end RunNginx
