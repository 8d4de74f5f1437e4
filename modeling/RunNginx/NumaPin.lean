import Mathlib.Data.Int.CardIntervalMod
import RunNginx.Lib.Decimal
import RunNginx.Lib.RoundRobin
import RunNginx.Lib.Utf8

/-!
# Pinning of the worker threads

The CPUs are read off the topology files, one for each physical core, and every thread that
starts is pinned to the next one of them.

`pins_balanced`: of any number of threads each physical core has its share, up to one thread.
-/

namespace RunNginx
namespace NumaPin

open ByteString

/-! ### Physical cores -/

/-- The topology files of the CPUs, where they can be read. -/
structure Topology where
  coreId : Nat → Option Bytes
  packageId : Nat → Option Bytes

def readId (text : Bytes) : Option Nat :=
  Decimal.parseUnsigned Decimal.usizeBound (Utf8.trim text)

/-- The package and the core of a CPU whose core file says this. -/
def coreOf (t : Topology) (cpu : Nat) (text : Bytes) : Nat × Nat :=
  (((t.packageId cpu).bind readId).getD 0, (readId text).getD cpu)

/-- Go through at most `n` CPUs; the cores in `seen` have a CPU already. -/
def scanCpus (t : Topology) : Nat → Nat → List (Nat × Nat) → List Nat
  | 0, _, _ => []
  | n + 1, cpu, seen =>
      match t.coreId cpu with
      | none => []
      | some text =>
          let core := coreOf t cpu text
          if seen.contains core then scanCpus t n (cpu + 1) seen
          else cpu :: scanCpus t n (cpu + 1) (core :: seen)

def maxCpus : Nat := 512

def physicalCoreIds (t : Topology) : List Nat :=
  scanCpus t maxCpus 0 []

/-! ### Round robin over the cores -/

structure CpuRoundRobin where
  cores : List Nat
  counter : UInt64

namespace CpuRoundRobin

def new (cores : List Nat) : CpuRoundRobin := ⟨cores, 0⟩

end CpuRoundRobin

/-- The CPU that a thread is pinned to. -/
def pinCurrentThread (cpu : Nat) : Option Nat :=
  if 1024 ≤ cpu then none else some cpu

/-- Where the next thread is pinned. -/
def pinNext (rr : CpuRoundRobin) : Option Nat × CpuRoundRobin :=
  if rr.cores = [] then (none, rr)
  else
    let idx := rr.counter.toNat % rr.cores.length
    ((rr.cores[idx]?).bind pinCurrentThread, { rr with counter := rr.counter + 1 })

/-- Where the next `n` threads are pinned, in the order of their starts. -/
def pins : Nat → CpuRoundRobin → List (Option Nat)
  | 0, _ => []
  | n + 1, rr => (pinNext rr).1 :: pins n (pinNext rr).2

/-! ### Each core has one CPU -/

section Cores

variable {t : Topology} {n first cpu : Nat} {seen : List (Nat × Nat)}

/-- The core of a CPU. -/
def core (t : Topology) (cpu : Nat) : Nat × Nat :=
  coreOf t cpu ((t.coreId cpu).getD [])

/-- The CPUs that are read: all up to the first one without a file. -/
def IsRead (t : Topology) (first cpu : Nat) : Prop :=
  first ≤ cpu ∧ ∀ c, first ≤ c → c ≤ cpu → (t.coreId c).isSome = true

theorem scanCpus_succ
    {text : Bytes} (h : t.coreId first = some text) :
    scanCpus t (n + 1) first seen =
      if core t first ∈ seen then scanCpus t n (first + 1) seen
      else first :: scanCpus t n (first + 1) (core t first :: seen) := by
  have hcore : core t first = coreOf t first text := by rw [core, h, Option.getD_some]
  rw [scanCpus, h, hcore]
  simp only [List.contains_iff_mem]

theorem mem_scanCpus
    (h : cpu ∈ scanCpus t n first seen) :
    first ≤ cpu ∧ cpu < first + n := by
  induction n generalizing first seen with
  | zero => cases h
  | succ n ih =>
      cases htext : t.coreId first with
      | none =>
          rw [scanCpus, htext] at h
          cases h
      | some text =>
          rw [scanCpus_succ htext] at h
          split at h
          · have := ih h
            omega
          · rcases List.mem_cons.mp h with rfl | h
            · omega
            · have := ih h
              omega

/-- No two CPUs of the list have the same core, and none has one seen before. -/
theorem nodup_cores
    (t : Topology) (n first : Nat) (seen : List (Nat × Nat)) :
    ((scanCpus t n first seen).map (core t)).Nodup ∧
      ∀ c ∈ seen, c ∉ (scanCpus t n first seen).map (core t) := by
  induction n generalizing first seen with
  | zero => exact ⟨List.nodup_nil, fun _ _ => List.not_mem_nil⟩
  | succ n ih =>
      cases htext : t.coreId first with
      | none =>
          rw [scanCpus, htext]
          exact ⟨List.nodup_nil, fun _ _ => List.not_mem_nil⟩
      | some text =>
          rw [scanCpus_succ htext]
          split
          · exact ih (first + 1) seen
          · rename_i hnew
            obtain ⟨hnodup, hseen⟩ := ih (first + 1) (core t first :: seen)
            rw [List.map_cons]
            refine ⟨List.nodup_cons.mpr ⟨hseen _ List.mem_cons_self, hnodup⟩, ?_⟩
            intro c hc hmem
            rcases List.mem_cons.mp hmem with rfl | hmem
            · exact hnew hc
            · exact hseen c (List.mem_cons_of_mem _ hc) hmem

/-- The core of every CPU that is read has a CPU in the list. -/
theorem core_mem
    (hread : IsRead t first cpu) (hlt : cpu < first + n) :
    core t cpu ∈ seen ∨ core t cpu ∈ (scanCpus t n first seen).map (core t) := by
  induction n generalizing first seen with
  | zero =>
      have := hread.1
      omega
  | succ n ih =>
      obtain ⟨text, htext⟩ := Option.isSome_iff_exists.mp (hread.2 first (Nat.le_refl _) hread.1)
      rw [scanCpus_succ htext]
      rcases Nat.eq_or_lt_of_le hread.1 with rfl | hnext
      · split
        · rename_i hold
          exact .inl hold
        · exact .inr List.mem_cons_self
      · have hrest : IsRead t (first + 1) cpu :=
          ⟨hnext, fun c hc hle => hread.2 c (Nat.le_of_succ_le hc) hle⟩
        split
        · exact ih hrest (by omega)
        · rcases @ih (first + 1) (core t first :: seen) hrest (by omega) with hmem | hmem
          · rcases List.mem_cons.mp hmem with heq | hmem
            · rw [heq]
              exact .inr List.mem_cons_self
            · exact .inl hmem
          · exact .inr (List.mem_cons_of_mem _ hmem)

end Cores

/-! ### Each core has its share -/

section Shares

variable {cores : List Nat} {t : Topology} {cpu n : Nat}

/-- The threads take the cores in turn, as the counter says. -/
theorem pins_eq_turns
    (hne : cores ≠ []) (start n : Nat) (counter : UInt64)
    (hcounter : counter.toNat = start % 2 ^ 64) :
    pins n ⟨cores, counter⟩ = RoundRobin.turns
      (fun idx => (cores[idx]?).bind pinCurrentThread) cores.length (2 ^ 64) start n := by
  induction n generalizing start counter with
  | zero => rfl
  | succ n ih =>
      have hnext : (counter + 1).toNat = (start + 1) % 2 ^ 64 := by
        rw [UInt64.toNat_add, hcounter, Nat.add_mod start]
        rfl
      have hturns : RoundRobin.turns (fun idx => (cores[idx]?).bind pinCurrentThread) cores.length
          (2 ^ 64) start (n + 1) = (cores[start % 2 ^ 64 % cores.length]?).bind pinCurrentThread ::
            RoundRobin.turns (fun idx => (cores[idx]?).bind pinCurrentThread) cores.length (2 ^ 64)
              (start + 1) n := rfl
      rw [hturns, ← ih (start + 1) (counter + 1) hnext, pins, pinNext, if_neg hne, hcounter]

theorem countP_range_eq_count
    (p : Nat → Prop) [DecidablePred p] (n : Nat) :
    (List.range n).countP (fun v => decide (p v)) = Nat.count p n := by
  induction n with
  | zero => rfl
  | succ n ih =>
      rw [List.range_succ, List.countP_append, ih, Nat.count_succ, List.countP_singleton]
      simp only [decide_eq_true_eq]

/-- A remainder comes up as often as the others, up to once. -/
theorem share_bounds
    {k i : Nat} (hi : i < k) (n : Nat) :
    n / k ≤ (List.range n).countP (fun v => decide (v % k = i)) ∧
      (List.range n).countP (fun v => decide (v % k = i)) ≤ (n + k - 1) / k := by
  have hk : 0 < k := Nat.zero_lt_of_lt hi
  have hcount : Nat.count (fun v => v % k = i) n = n / k + if i < n % k then 1 else 0 := by
    have hcard := Nat.count_modEq_card n hk i
    rw [Nat.mod_eq_of_lt hi] at hcard
    rw [← hcard, Nat.count_eq_card_filter_range, Nat.count_eq_card_filter_range]
    refine congrArg Finset.card (Finset.filter_congr fun v _ => ?_)
    rw [Nat.ModEq, Nat.mod_eq_of_lt hi]
  rw [countP_range_eq_count, hcount]
  have hdiv := Nat.div_add_mod n k
  split
  · refine ⟨Nat.le_add_right _ 1, (Nat.le_div_iff_mul_le hk).mpr ?_⟩
    rw [Nat.add_mul, Nat.mul_comm (n / k)]
    omega
  · exact ⟨Nat.le_refl _, Nat.div_le_div_right (by omega)⟩

/-- Every CPU of the list can be pinned to. -/
theorem pin_physical
    (h : cpu ∈ physicalCoreIds t) :
    pinCurrentThread cpu = some cpu := by
  have hlt := (mem_scanCpus h).2
  have hmax : maxCpus = 512 := rfl
  exact if_neg (by omega)

/--
Of any number of threads, each physical core has its share: as many as any other one, up to one
thread.  No thread is left without a core.
-/
theorem pins_balanced
    (hread : IsRead t 0 cpu) (hcpu : cpu < maxCpus) (hn : n ≤ 2 ^ 64) :
    n / (physicalCoreIds t).length ≤
        (pins n (.new (physicalCoreIds t))).countP
          (fun pin => decide (pin.map (core t) = some (core t cpu))) ∧
      (pins n (.new (physicalCoreIds t))).countP
          (fun pin => decide (pin.map (core t) = some (core t cpu))) ≤
        (n + (physicalCoreIds t).length - 1) / (physicalCoreIds t).length ∧
      none ∉ pins n (.new (physicalCoreIds t)) := by
  have hmem : core t cpu ∈ (physicalCoreIds t).map (core t) := by
    rcases @core_mem t maxCpus 0 cpu [] hread (by omega) with hmem | hmem
    · cases hmem
    · exact hmem
  have hnodup : ((physicalCoreIds t).map (core t)).Nodup := (nodup_cores t maxCpus 0 []).1
  have hpin : ∀ c ∈ physicalCoreIds t, pinCurrentThread c = some c := fun c hc => pin_physical hc
  generalize physicalCoreIds t = cores at hmem hnodup hpin
  obtain ⟨i, hi, hcore⟩ := List.getElem_of_mem hmem
  rw [List.length_map] at hi
  rw [List.getElem_map] at hcore
  have hk : 0 < cores.length := Nat.zero_lt_of_lt hi
  -- the thread of a number is pinned to the core of its remainder
  have hturn : ∀ v, ∃ h : v % cores.length < cores.length,
      (cores[v % cores.length]?).bind pinCurrentThread = some (cores[v % cores.length]) := by
    intro v
    have hv := Nat.mod_lt v hk
    refine ⟨hv, ?_⟩
    rw [List.getElem?_eq_getElem hv, Option.bind_some, hpin _ (List.getElem_mem hv)]
  have hpins : pins n (.new cores) = (List.range n).map fun v =>
      (cores[v % cores.length]?).bind pinCurrentThread := by
    have hturns := pins_eq_turns (List.ne_nil_of_length_pos hk) 0 n 0 rfl
    rw [RoundRobin.turns_of_le (by omega)] at hturns
    rw [List.range_eq_range']
    exact hturns
  have hcount : (pins n (.new cores)).countP
      (fun pin => decide (pin.map (core t) = some (core t cpu))) =
        (List.range n).countP fun v => decide (v % cores.length = i) := by
    rw [hpins, List.countP_map]
    refine List.countP_congr fun v _ => ?_
    obtain ⟨hv, hsome⟩ := hturn v
    simp only [Function.comp, hsome, Option.map_some, decide_eq_true_eq, Option.some.injEq]
    have hinj : core t cores[v % cores.length] = core t cores[i] ↔ v % cores.length = i := by
      have hmapped := @List.Nodup.getElem_inj_iff _ _ hnodup (v % cores.length)
        (by rwa [List.length_map]) i (by rwa [List.length_map])
      rwa [List.getElem_map, List.getElem_map] at hmapped
    rw [← hcore, hinj]
  rw [hcount]
  refine ⟨(share_bounds hi n).1, (share_bounds hi n).2, fun hnone => ?_⟩
  rw [hpins] at hnone
  obtain ⟨v, -, hv⟩ := List.mem_map.mp hnone
  obtain ⟨hlt, hsome⟩ := hturn v
  cases hv.symm.trans hsome

/-- Two cores of two CPUs each. -/
def fourCpus : Topology where
  coreId cpu := if cpu < 4 then some (Decimal.render (cpu % 2) ++ ascii "\n") else none
  packageId _ := some (ascii "0\n")

theorem pins_balanced_example :
    5 / 2 ≤ (pins 5 (.new (physicalCoreIds fourCpus))).countP
        (fun pin => decide (pin.map (core fourCpus) = some (core fourCpus 3))) ∧
      (pins 5 (.new (physicalCoreIds fourCpus))).countP
        (fun pin => decide (pin.map (core fourCpus) = some (core fourCpus 3))) ≤ (5 + 2 - 1) / 2 ∧
      none ∉ pins 5 (.new (physicalCoreIds fourCpus)) := by
  have hread : IsRead fourCpus 0 3 :=
    ⟨Nat.zero_le 3, fun c _ hc => by
      have hlt : c < 4 := by omega
      simp [fourCpus, hlt]⟩
  have hcores : (physicalCoreIds fourCpus).length = 2 := by rfl
  have hshare := @pins_balanced fourCpus 3 5 hread (by decide) (by decide)
  rwa [hcores] at hshare

end Shares

end NumaPin
end RunNginx
