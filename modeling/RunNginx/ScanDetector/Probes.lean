import Mathlib.Data.List.Perm.Basic
import Mathlib.Logic.Function.Basic
import RunNginx.ScanDetector

/-!
# Known probes

A request counts the entries of the table of probes that its path holds, and the entries
that were counted in a window give the probe part of the score.  The path is taken in lower
case, but the entries are not, so that an entry with a capital letter is never found.

`probeScore_iff`: in any run, the probe part of an address counts the entries that the paths
of its window hold, ignoring case, exactly if none of them has a capital letter, or three
others are held.
-/

namespace RunNginx
namespace ScanDetector

open ByteString

/-- The path holds the probe, ignoring case. -/
def holdsProbe (probe path : Bytes) : Bool :=
  contains (toAsciiLower probe) (toAsciiLower path)

/-- The entries that some path holds. -/
def heldProbes (paths : List Bytes) : List Bytes :=
  probePaths.filter fun probe => paths.any (holdsProbe probe)

/-- The entry has no capital letter. -/
def isLower (probe : Bytes) : Bool :=
  toAsciiLower probe == probe

section Score

variable {F : Type} (ops : FloatOps F) (cfg : ScanConfig F)

/-- What the probes of a record add to its score. -/
def probeScore (r : IpRecord) : Nat :=
  r.score ops cfg - IpRecord.score ops cfg { r with probePaths := [] }

variable {ops cfg}

theorem probeScore_eq
    {r : IpRecord} (h : r.reqCount ≠ 0) :
    probeScore ops cfg r = min (r.probePaths.length * 10) 30 := by
  unfold probeScore IpRecord.score
  rw [if_neg h, if_neg h]
  dsimp only
  rw [List.length_nil, Nat.zero_mul, Nat.zero_min, Nat.add_zero, Nat.add_sub_cancel_left]

end Score

section Windows

variable {F : Type} (ops : FloatOps F) (cfg : ScanConfig F)

/-- The calls of an address that its window has recorded, with one more call. -/
def inWindow (call : Call) (r : IpRecord) (calls : List Call) : List Call :=
  match unblocked call.now r with
  | none => calls
  | some r =>
      if second * cfg.windowSecs < call.now - r.windowStart then [call] else calls ++ [call]

/-- The tracker, and the calls that were recorded in the window of each address. -/
structure Recorded where
  tracker : Tracker
  calls : IpAddr → List Call

namespace Recorded

def step (s : Recorded) (e : Event) : Recorded where
  tracker := ScanDetector.step ops cfg s.tracker e
  calls :=
    match e with
    | .record call =>
        if !cfg.enabled || cfg.whitelist.contains call.ip then s.calls
        else
          Function.update s.calls call.ip
            (inWindow cfg call ((s.tracker.lookup call.ip).getD (.new call.time))
              (s.calls call.ip))
    | .gc time => fun ip => if ((gc cfg time s.tracker).lookup ip).isSome then s.calls ip else []

/-- The calls recorded by a run. -/
def run (events : List Event) : Recorded :=
  events.foldl (step ops cfg) ⟨∅, fun _ => []⟩

end Recorded

end Windows

section Entries

variable {path probe : Bytes} {paths : List Bytes}

theorem toAsciiLower_toAsciiLower
    (s : Bytes) :
    toAsciiLower (toAsciiLower s) = toAsciiLower s := by
  unfold toAsciiLower
  rw [List.map_map]
  exact List.map_congr_left fun b _ => toLowerByte_idem b

/-- What stands in a text of lower case is in lower case. -/
theorem isLower_of_contains
    (hne : probe ≠ []) (h : contains probe (toAsciiLower path) = true) :
    isLower probe = true := by
  rw [ contains_iff_infix hne] at h
  refine beq_iff_eq.mpr ((List.map_congr_left fun b hb => ?_).trans (List.map_id _))
  obtain ⟨c, -, rfl⟩ := List.mem_map.mp (h.subset hb)
  exact toLowerByte_idem c

theorem probePaths_ne_nil :
    ∀ probe ∈ probePaths, probe ≠ [] := by
  decide

theorem nodup_probePaths :
    probePaths.Nodup := by
  decide

/-- The request counts the entries without capital letters that its path holds. -/
theorem mem_probesOf_iff :
    probe ∈ probesOf path ↔
      probe ∈ probePaths ∧ isLower probe = true ∧ holdsProbe probe path = true := by
  unfold probesOf
  rw [List.mem_filter]
  refine and_congr_right fun hmem => ?_
  have hne := probePaths_ne_nil probe hmem
  have hstart : probe.isPrefixOf (toAsciiLower path) = true →
      contains probe (toAsciiLower path) = true := by
    intro h
    rw [ contains_iff_infix hne]
    exact (List.isPrefixOf_iff_prefix.mp h).isInfix
  rw [Bool.or_eq_true, or_iff_right_of_imp hstart]
  constructor
  · intro h
    have hlower := isLower_of_contains hne h
    refine ⟨hlower, ?_⟩
    rw [holdsProbe, beq_iff_eq.mp hlower]
    exact h
  · rintro ⟨hlower, h⟩
    rwa [holdsProbe, beq_iff_eq.mp hlower] at h

theorem nodup_foldl_insert
    (probes : List Bytes) {counted : List Bytes} (h : counted.Nodup) :
    (probes.foldl (fun paths probe => paths.insert probe) counted).Nodup := by
  induction probes generalizing counted with
  | nil => exact h
  | cons p probes ih => exact ih (h.insert)

theorem mem_foldl_insert_iff
    (probes counted : List Bytes) :
    probe ∈ probes.foldl (fun paths probe => paths.insert probe) counted ↔
      probe ∈ counted ∨ probe ∈ probes := by
  induction probes generalizing counted with
  | nil => simp
  | cons p probes ih =>
      rw [List.foldl_cons, ih, List.mem_insert_iff, List.mem_cons]
      tauto

/-- The record holds what the calls of its window have counted. -/
structure Counts (r : IpRecord) (calls : List Call) : Prop where
  count : r.reqCount = calls.length
  nodup : r.probePaths.Nodup
  mem_iff : ∀ probe, probe ∈ r.probePaths ↔ ∃ call ∈ calls, probe ∈ probesOf call.path

theorem counts_new
    (now : Nat) :
    Counts (.new now) [] :=
  ⟨rfl, List.nodup_nil, fun probe => by simp [IpRecord.new]⟩

/-- The entries without capital letters, in a record and in the paths. -/
theorem Counts.length_eq
    {r : IpRecord} {calls : List Call}
    (h : Counts r calls) :
    r.probePaths.length = ((heldProbes (calls.map Call.path)).filter isLower).length := by
  refine List.Perm.length_eq ((List.perm_ext_iff_of_nodup h.nodup ?_).mpr fun probe => ?_)
  · exact (nodup_probePaths.filter _).filter _
  · rw [h.mem_iff, heldProbes, List.mem_filter, List.mem_filter, List.any_map, List.any_eq_true]
    constructor
    · rintro ⟨call, hcall, hprobe⟩
      obtain ⟨hmem, hlower, hholds⟩ := mem_probesOf_iff.mp hprobe
      exact ⟨⟨hmem, call, hcall, hholds⟩, hlower⟩
    · rintro ⟨⟨hmem, call, hcall, hholds⟩, hlower⟩
      exact ⟨call, hcall, mem_probesOf_iff.mpr ⟨hmem, hlower, hholds⟩⟩

/-- Entries with capital letters make the difference. -/
theorem Counts.score_iff
    {r : IpRecord} {calls : List Call}
    (h : Counts r calls) :
    min (r.probePaths.length * 10) 30 =
        min (10 * (heldProbes (calls.map Call.path)).length) 30 ↔
      (∀ probe ∈ heldProbes (calls.map Call.path), isLower probe = true) ∨
        3 ≤ ((heldProbes (calls.map Call.path)).filter isLower).length := by
  rw [h.length_eq]
  generalize heldProbes (calls.map Call.path) = held
  have hle := List.length_filter_le isLower held
  constructor
  · intro heq
    by_cases hthree : 3 ≤ (held.filter isLower).length
    · exact .inr hthree
    · refine .inl (List.length_filter_eq_length_iff.mp ?_)
      omega
  · rintro (hall | hthree)
    · rw [List.length_filter_eq_length_iff.mpr hall, Nat.mul_comm]
    · omega

end Entries

section Run

variable {F : Type} {ops : FloatOps F} {cfg : ScanConfig F}

theorem counts_openWindow
    {call : Call} {r : IpRecord} {calls : List Call} (h : Counts r calls) :
    Counts (countRequest call (openWindow cfg call r))
      (if second * cfg.windowSecs < call.now - r.windowStart then [call] else calls ++ [call]) := by
  have hone : ∀ {r : IpRecord} {calls : List Call}, Counts r calls →
      Counts (countRequest call r) (calls ++ [call]) := by
    intro r calls h
    refine ⟨?_, nodup_foldl_insert _ h.nodup, fun probe => ?_⟩
    · rw [countRequest, List.length_append, List.length_singleton, h.count]
    · rw [countRequest, mem_foldl_insert_iff, h.mem_iff]
      simp only [List.mem_append, List.mem_singleton]
      constructor
      · rintro (⟨c, hc, hprobe⟩ | hprobe)
        · exact ⟨c, .inl hc, hprobe⟩
        · exact ⟨call, .inr rfl, hprobe⟩
      · rintro ⟨c, hc | rfl, hprobe⟩
        · exact .inl ⟨c, hc, hprobe⟩
        · exact .inr hprobe
  unfold openWindow
  split
  · have hempty : Counts (r.resetWindow call.time) [] :=
      ⟨rfl, List.nodup_nil, fun probe => by simp [IpRecord.resetWindow]⟩
    exact hone hempty
  · exact hone h

/-- What follows the counting leaves the counts alone. -/
theorem Counts.weigh
    {call : Call} {r : IpRecord} {calls : List Call} (h : Counts r calls) :
    Counts (weigh ops cfg call r).1 calls := by
  have hcongr : ∀ {r' : IpRecord}, r'.reqCount = r.reqCount → r'.probePaths = r.probePaths →
      Counts r' calls := by
    intro r' hcount hprobes
    exact ⟨hcount.trans h.count, by rw [hprobes]; exact h.nodup, by rw [hprobes]; exact h.mem_iff⟩
  have hblock : ∀ score blockedUntil, Counts (block cfg call.now score blockedUntil r).1 calls := by
    intro score blockedUntil
    unfold block
    dsimp only
    split
    · exact hcongr rfl rfl
    · exact hcongr rfl rfl
  unfold ScanDetector.weigh trigger
  dsimp only
  split
  · exact h
  split
  · exact hblock _ _
  split
  · exact h
  · exact hblock _ _

theorem Counts.judge
    {call : Call} {r : IpRecord} {calls : List Call} (h : Counts r calls) :
    Counts (judge ops cfg call r).1 (inWindow cfg call r calls) := by
  unfold ScanDetector.judge inWindow
  cases hfree : unblocked call.now r with
  | none => exact h
  | some free =>
      have hcounts : Counts free calls := by
        unfold unblocked at hfree
        split at hfree
        · split at hfree
          · cases hfree
          · cases hfree
            exact ⟨h.count, h.nodup, h.mem_iff⟩
        · cases hfree
          exact h
      exact (counts_openWindow hcounts).weigh

/-- Every record holds what the calls of its window have counted. -/
def Recorded.Counts (s : Recorded) : Prop :=
  ∀ ip time, ScanDetector.Counts ((s.tracker.lookup ip).getD (.new time)) (s.calls ip)

theorem Recorded.Counts.step
    {s : Recorded} (h : s.Counts) (e : Event) :
    (s.step ops cfg e).Counts := by
  intro ip time
  cases e with
  | gc time' =>
      have hgc : ((gc cfg time' s.tracker).lookup ip) = none ∨
          (gc cfg time' s.tracker).lookup ip = s.tracker.lookup ip := by
        rw [gc, Table.lookup_retain]
        cases hfilter : Option.filter _ (s.tracker.lookup ip) with
        | none => exact .inl rfl
        | some r => exact .inr (Option.filter_eq_some_iff.mp hfilter).1.symm
      rcases hgc with hgc | hgc
      · simp only [Recorded.step, ScanDetector.step, hgc]
        exact counts_new time
      · simp only [Recorded.step, ScanDetector.step, hgc]
        have hsame := h ip time
        split
        · exact hsame
        · rename_i hnone
          rw [Option.not_isSome_iff_eq_none.mp hnone]
          exact counts_new time
  | record call =>
      simp only [Recorded.step, ScanDetector.step, record]
      split
      · exact h ip time
      · by_cases hip : ip = call.ip
        · rw [hip, AList.lookup_insert, Option.getD_some, Function.update_self]
          exact (h call.ip call.time).judge
        · rw [AList.lookup_insert_ne hip, Function.update_of_ne hip]
          exact h ip time

theorem Recorded.run_append
    (events : List Event) (e : Event) :
    Recorded.run ops cfg (events ++ [e]) = (Recorded.run ops cfg events).step ops cfg e := by
  rw [Recorded.run, List.foldl_append]
  rfl

/-- The calls are recorded beside a run of the detector. -/
theorem Recorded.tracker_run
    (events : List Event) :
    (Recorded.run ops cfg events).tracker = ScanDetector.run ops cfg events := by
  induction events using List.reverseRecOn with
  | nil => rfl
  | append_singleton events e ih =>
      rw [Recorded.run_append, ScanDetector.run_append, ← ih]
      rfl

theorem Recorded.counts_run
    (events : List Event) :
    (Recorded.run ops cfg events).Counts := by
  induction events using List.reverseRecOn with
  | nil => exact fun ip time => counts_new time
  | append_singleton events e ih =>
      rw [Recorded.run_append]
      exact ih.step e

/-- The paths that were recorded in the window of an address. -/
def windowPaths (ops : FloatOps F) (cfg : ScanConfig F) (events : List Event) (ip : IpAddr) :
    List Bytes :=
  ((Recorded.run ops cfg events).calls ip).map Call.path

/--
The probe part of an address counts the entries that the paths of its window hold exactly if
none of these entries has a capital letter, or three others are held.
-/
theorem probeScore_iff
    {events : List Event} {ip : IpAddr} {r : IpRecord}
    (h : (run ops cfg events).lookup ip = some r) :
    probeScore ops cfg r = min (10 * (heldProbes (windowPaths ops cfg events ip)).length) 30 ↔
      (∀ probe ∈ heldProbes (windowPaths ops cfg events ip), isLower probe = true) ∨
        3 ≤ ((heldProbes (windowPaths ops cfg events ip)).filter isLower).length := by
  have hcounts := @Recorded.counts_run _ ops cfg events ip 0
  rw [Recorded.tracker_run, h, Option.getD_some] at hcounts
  by_cases hcount : r.reqCount = 0
  · have hnone : windowPaths ops cfg events ip = [] := by
      rw [windowPaths, List.length_eq_zero_iff.mp (hcounts.count.symm.trans hcount)]
      rfl
    have hheld : heldProbes [] = [] := List.filter_false _
    rw [hnone, hheld, probeScore, IpRecord.score, if_pos hcount, Nat.zero_sub]
    exact iff_of_true rfl (.inl nofun)
  · rw [probeScore_eq hcount]
    exact hcounts.score_iff

/-- A request for a path. -/
def requestFor (path : Bytes) : Event :=
  .record { notFoundCall with path := path, status := 200 }

/-- Any number of requests; this one holds `/.env` and `/admin`. -/
def lenientConfig : ScanConfig Nat :=
  { strictConfig with reqThreshold := 1000, errorRateThreshold := 2 }

theorem probeScore_example :
    ∃ r ∈ (run natOps lenientConfig [requestFor (ascii "/ADMIN/.env")]).lookup notFoundCall.ip,
      probeScore natOps lenientConfig r =
        min (10 * (heldProbes (windowPaths natOps lenientConfig
          [requestFor (ascii "/ADMIN/.env")] notFoundCall.ip)).length) 30 :=
  ⟨_, rfl, (probeScore_iff rfl).mpr (.inl (by decide))⟩

/-- A request for `/.DS_Store` counts for nothing. -/
theorem capitals_not_counted :
    ∃ r ∈ (run natOps lenientConfig [requestFor (ascii "/.DS_Store")]).lookup notFoundCall.ip,
      probeScore natOps lenientConfig r = 0 ∧
        min (10 * (heldProbes (windowPaths natOps lenientConfig
          [requestFor (ascii "/.DS_Store")] notFoundCall.ip)).length) 30 = 10 := by
  refine ⟨_, rfl, ?_, ?_⟩
  · decide
  · decide

end Run

end ScanDetector
end RunNginx
