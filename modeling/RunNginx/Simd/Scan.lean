import RunNginx.Lib.LaneMask
import RunNginx.Lib.LossyText
import RunNginx.Simd

/-!
# Vector scans for the end of a line

`find_crlf` runs on whole vectors where the processor has them.  A vector load and a read
through the pointer fault outside of the buffer, which is `none` here.

`scanners_agree`: no scanner faults, and all of them give the first CRLF.
-/

namespace RunNginx
namespace Simd

open ByteString LaneMask

inductive SimdLevel
  | scalar
  | sse2
  | avx2
deriving DecidableEq, Repr

section Scalar

/-- The pairs of neighbours. -/
def windows : Bytes → List (UInt8 × UInt8)
  | b :: c :: buf => (b, c) :: windows (c :: buf)
  | _ => []

def findCrlfScalar (buf : Bytes) : Option Nat :=
  (windows buf).findIdx? fun w => w == (13, 10)

end Scalar

section Vector

variable (width : Nat) (buf : Bytes)

/-- `*ptr.add(i)` -/
def readAt (i : Nat) : Option UInt8 :=
  buf[i]?

/-- An unaligned load of `width` lanes. -/
def loadu (i : Nat) : Option Bytes :=
  if i + width ≤ buf.length then some ((buf.drop i).take width) else none

/-- The lanes that hold a CR. -/
def crMask (chunk : Bytes) : Nat :=
  movemask (chunk.map (· == 13))

/-- Go through the CRs of the chunk at `i` for one with a LF behind it. -/
def scanMask (i mask : Nat) : Option (Option Nat) :=
  if hmask : mask = 0 then some none
  else
    let pos := i + trailingZeros 32 mask
    if pos + 1 < buf.length then
      match readAt buf (pos + 1) with
      | none => none
      | some b => if b = 10 then some (some pos) else scanMask i (clearLowest mask)
    else scanMask i (clearLowest mask)
termination_by mask
decreasing_by all_goals exact clearLowest_lt hmask

/-- The chunks from `i` on, with fuel; the rest is scanned byte by byte. -/
def scanChunks : Nat → Nat → Option (Option Nat)
  | 0, _ => none
  | fuel + 1, i =>
      if i + width < buf.length then
        match loadu width buf i with
        | none => none
        | some chunk =>
            match scanMask buf i (crMask chunk) with
            | none => none
            | some (some pos) => some (some pos)
            | some none => scanChunks fuel (i + width)
      else some ((findCrlfScalar (buf.drop i)).map (· + i))

/-- The vector scanner for a width. -/
def findCrlfVector : Option (Option Nat) :=
  if buf.length < 2 then some (findCrlfScalar buf)
  else scanChunks width buf (buf.length + 1) 0

end Vector

def findCrlfSse2 (buf : Bytes) : Option (Option Nat) :=
  findCrlfVector 16 buf

def findCrlfAvx2 (buf : Bytes) : Option (Option Nat) :=
  findCrlfVector 32 buf

/-- The scanner for what the processor has. -/
def findCrlfAt (level : SimdLevel) (buf : Bytes) : Option (Option Nat) :=
  match level with
  | .avx2 => findCrlfAvx2 buf
  | .sse2 => findCrlfSse2 buf
  | .scalar => some (findCrlfScalar buf)

section Specification

/-- A CR with a LF behind it. -/
def CrlfAt (buf : Bytes) (i : Nat) : Prop :=
  buf[i]? = some 13 ∧ buf[i + 1]? = some 10

/-- The first CRLF, if there is one. -/
def IsFirstCrlf (buf : Bytes) : Option Nat → Prop
  | none => ∀ i, ¬ CrlfAt buf i
  | some i => CrlfAt buf i ∧ ∀ j < i, ¬ CrlfAt buf j

variable {buf : Bytes} {r r' : Option Nat}

theorem IsFirstCrlf.unique
    (h : IsFirstCrlf buf r) (h' : IsFirstCrlf buf r') :
    r = r' := by
  cases r with
  | none =>
      cases r' with
      | none => rfl
      | some i => exact absurd h'.1 (h i)
  | some i =>
      cases r' with
      | none => exact absurd h.1 (h' i)
      | some j =>
          rcases Nat.lt_trichotomy i j with hlt | heq | hlt
          · exact absurd h.1 (h'.2 i hlt)
          · rw [heq]
          · exact absurd h'.1 (h.2 j hlt)

theorem getElem?_windows
    (buf : Bytes) (i : Nat) (b c : UInt8) :
    (windows buf)[i]? = some (b, c) ↔ buf[i]? = some b ∧ buf[i + 1]? = some c := by
  induction buf generalizing i with
  | nil => simp [windows]
  | cons x buf ih =>
      cases buf with
      | nil => simp [windows]
      | cons y buf =>
          cases i with
          | zero => simp [windows]
          | succ i =>
              rw [windows, List.getElem?_cons_succ, ih]
              rfl

theorem findCrlfScalar_first
    (buf : Bytes) :
    IsFirstCrlf buf (findCrlfScalar buf) := by
  have hpair : ∀ i, CrlfAt buf i ↔ (windows buf)[i]? = some (13, 10) := fun i =>
    (getElem?_windows buf i 13 10).symm
  unfold findCrlfScalar
  cases hfind : (windows buf).findIdx? fun w => w == (13, 10) with
  | none =>
      intro i hi
      rw [List.findIdx?_eq_none_iff] at hfind
      have := hfind _ (List.mem_of_getElem? ((hpair i).mp hi))
      simp at this
  | some i =>
      obtain ⟨hi, hhit, hbefore⟩ := List.findIdx?_eq_some_iff_getElem.mp hfind
      refine ⟨(hpair i).mpr ?_, fun j hj hcrlf => ?_⟩
      · rw [List.getElem?_eq_getElem hi, beq_iff_eq.mp hhit]
      · have hlt : j < (windows buf).length := by omega
        have hmiss := hbefore j hj
        rw [hpair, List.getElem?_eq_getElem hlt] at hcrlf
        rw [Option.some.inj hcrlf] at hmiss
        simp at hmiss

theorem crlf_prefix_iff
    (buf : Bytes) (i : Nat) :
    crlf <+: buf.drop i ↔ CrlfAt buf i :=
  LossyText.crlf_prefix_drop_iff buf i

theorem findCrlf_first
    (buf : Bytes) :
    IsFirstCrlf buf (findCrlf buf) := by
  unfold findCrlf
  cases hfind : find crlf buf with
  | none =>
      intro i
      rw [← crlf_prefix_iff]
      exact (find_eq_none_iff crlf_ne_nil buf).mp hfind i
  | some i =>
      obtain ⟨hhit, hbefore⟩ := (find_eq_some_iff crlf_ne_nil buf i).mp hfind
      refine ⟨(crlf_prefix_iff buf i).mp hhit, fun j hj => ?_⟩
      rw [← crlf_prefix_iff]
      exact hbefore j hj

end Specification

section Chunks

variable {width : Nat} {buf : Bytes}

/-- What is to be found among the positions `i + j` of a mask. -/
def MaskResult (buf : Bytes) (i mask : Nat) : Option Nat → Prop
  | none => ∀ j, mask.testBit j = true → buf[i + j + 1]? ≠ some 10
  | some pos => ∃ j, pos = i + j ∧ mask.testBit j = true ∧ buf[i + j + 1]? = some 10 ∧
      ∀ k < j, mask.testBit k = true → buf[i + k + 1]? ≠ some 10

/-- A turn that clears the lowest bit leaves the result to the other bits. -/
theorem MaskResult.of_clearLowest
    {i mask k : Nat} {r : Option Nat}
    (hset : mask.testBit k = true) (hlow : ∀ j < k, mask.testBit j = false)
    (hmiss : buf[i + k + 1]? ≠ some 10) (h : MaskResult buf i (clearLowest mask) r) :
    MaskResult buf i mask r := by
  have hbit := testBit_clearLowest hset hlow
  have hmore : ∀ j, mask.testBit j = true → j ≠ k → (clearLowest mask).testBit j = true := by
    intro j hj hne
    rw [hbit, hj]
    simpa using hne
  cases r with
  | none =>
      intro j hj
      by_cases hjk : j = k
      · rw [hjk]
        exact hmiss
      · exact h j (hmore j hj hjk)
  | some pos =>
      obtain ⟨j, hpos, hj, hhit, hbefore⟩ := h
      rw [hbit, Bool.and_eq_true] at hj
      refine ⟨j, hpos, hj.1, hhit, fun l hl hbitl => ?_⟩
      by_cases hlk : l = k
      · rw [hlk]
        exact hmiss
      · exact hbefore l hl (hmore l hbitl hlk)

/-- The scan of a mask does not fault. -/
theorem scanMask_spec
    (i : Nat) {mask : Nat}
    (hlt : mask < 2 ^ 32) :
    ∃ r, scanMask buf i mask = some r ∧ MaskResult buf i mask r := by
  induction mask using Nat.strong_induction_on with
  | _ mask ih =>
      rw [scanMask]
      by_cases hzero : mask = 0
      · rw [dif_pos hzero]
        refine ⟨none, rfl, fun j hj => ?_⟩
        rw [hzero, Nat.zero_testBit] at hj
        cases hj
      · rw [dif_neg hzero]
        obtain ⟨hset, hlow⟩ := testBit_trailingZeros hzero hlt
        have hless := clearLowest_lt hzero
        obtain ⟨r, hr, hresult⟩ := ih (clearLowest mask) hless (hless.trans hlt)
        dsimp only
        split
        · rename_i hin
          rw [readAt, List.getElem?_eq_getElem hin]
          dsimp only
          split
          · rename_i hhit
            refine ⟨_, rfl, _, rfl, hset, ?_, fun k hk hbit => ?_⟩
            · rw [List.getElem?_eq_getElem hin, hhit]
            · rw [hlow k hk] at hbit
              cases hbit
          · rename_i hmiss
            refine ⟨r, hr, hresult.of_clearLowest hset hlow ?_⟩
            rw [List.getElem?_eq_getElem hin]
            exact fun h => hmiss (Option.some.inj h)
        · rename_i hout
          refine ⟨r, hr, hresult.of_clearLowest hset hlow ?_⟩
          rw [List.getElem?_eq_none (Nat.le_of_not_lt hout)]
          exact nofun

theorem testBit_crMask
    (i j : Nat) :
    (crMask ((buf.drop i).take width)).testBit j = true ↔ j < width ∧ buf[i + j]? = some 13 := by
  rw [crMask, testBit_movemask, List.getElem?_map, List.getElem?_take]
  by_cases hj : j < width
  · rw [if_pos hj, List.getElem?_drop]
    simp [hj]
  · rw [if_neg hj]
    simp [hj]

theorem crMask_lt
    (hwidth : width ≤ 32) (chunk : Bytes) :
    crMask (chunk.take width) < 2 ^ 32 := by
  refine (movemask_lt _).trans_le (Nat.pow_le_pow_right Nat.two_pos ?_)
  rw [List.length_map, List.length_take]
  omega

/-- The rest behind the chunks, where nothing was found before. -/
theorem isFirstCrlf_of_drop
    {i : Nat} {r : Option Nat}
    (hbefore : ∀ j < i, ¬ CrlfAt buf j) (h : IsFirstCrlf (buf.drop i) r) :
    IsFirstCrlf buf (r.map (· + i)) := by
  have hdrop : ∀ j, CrlfAt (buf.drop i) j ↔ CrlfAt buf (j + i) := by
    intro j
    unfold CrlfAt
    rw [List.getElem?_drop, List.getElem?_drop, Nat.add_comm i j,
      show i + (j + 1) = j + i + 1 by omega]
  cases r with
  | none =>
      intro j hj
      by_cases hlt : j < i
      · exact hbefore j hlt hj
      · refine h (j - i) ((hdrop (j - i)).mpr ?_)
        rwa [Nat.sub_add_cancel (Nat.le_of_not_lt hlt)]
  | some k =>
      refine ⟨(hdrop k).mp h.1, fun j hj hcrlf => ?_⟩
      have hjk : j < k + i := hj
      by_cases hlt : j < i
      · exact hbefore j hlt hcrlf
      · refine h.2 (j - i) (by omega) ((hdrop (j - i)).mpr ?_)
        rwa [Nat.sub_add_cancel (Nat.le_of_not_lt hlt)]

/-- The loop over the chunks does not fault, and nothing is found in front of the cursor. -/
theorem scanChunks_first
    (hpos : 0 < width) (hwidth : width ≤ 32) {fuel i : Nat}
    (hfuel : buf.length < i + fuel) (hi : i ≤ buf.length)
    (hbefore : ∀ j < i, ¬ CrlfAt buf j) :
    ∃ r, scanChunks width buf fuel i = some r ∧ IsFirstCrlf buf r := by
  induction fuel generalizing i with
  | zero => exact absurd hfuel (Nat.not_lt.mpr hi)
  | succ fuel ih =>
      rw [scanChunks]
      by_cases hin : i + width < buf.length
      · rw [if_pos hin, loadu, if_pos hin.le]
        dsimp only
        obtain ⟨r, hr, hresult⟩ := scanMask_spec i (crMask_lt hwidth (buf.drop i))
        rw [hr]
        cases r with
        | some pos =>
            obtain ⟨j, rfl, hj, hlf, hfirst⟩ := hresult
            rw [testBit_crMask] at hj
            refine ⟨_, rfl, ⟨hj.2, hlf⟩, fun k hk hcrlf => ?_⟩
            by_cases hki : k < i
            · exact hbefore k hki hcrlf
            · obtain ⟨d, rfl⟩ := Nat.exists_eq_add_of_le (Nat.le_of_not_lt hki)
              have hd : d < j := by omega
              exact hfirst d hd ((testBit_crMask i d).mpr ⟨by omega, hcrlf.1⟩) hcrlf.2
        | none =>
            refine ih (by omega) hin.le fun k hk hcrlf => ?_
            by_cases hki : k < i
            · exact hbefore k hki hcrlf
            · obtain ⟨d, rfl⟩ := Nat.exists_eq_add_of_le (Nat.le_of_not_lt hki)
              exact hresult d ((testBit_crMask i d).mpr ⟨by omega, hcrlf.1⟩) hcrlf.2
      · rw [if_neg hin]
        exact ⟨_, rfl, isFirstCrlf_of_drop hbefore (findCrlfScalar_first _)⟩

/-- A vector scanner finds the first CRLF. -/
theorem findCrlfVector_first
    (hpos : 0 < width) (hwidth : width ≤ 32) (buf : Bytes) :
    ∃ r, findCrlfVector width buf = some r ∧ IsFirstCrlf buf r := by
  unfold findCrlfVector
  split
  · exact ⟨_, rfl, findCrlfScalar_first buf⟩
  · exact scanChunks_first hpos hwidth (by omega) (Nat.zero_le _) fun j hj =>
      absurd hj (Nat.not_lt_zero j)

theorem findCrlfVector_eq
    (hpos : 0 < width) (hwidth : width ≤ 32) (buf : Bytes) :
    findCrlfVector width buf = some (findCrlfScalar buf) := by
  obtain ⟨r, hr, hfirst⟩ := findCrlfVector_first hpos hwidth buf
  rw [hr, hfirst.unique (findCrlfScalar_first buf)]

end Chunks

/--
No scanner faults, and the vector scanners give what the scalar one gives: the first CR
with a LF behind it.
-/
theorem scanners_agree
    (buf : Bytes) :
    findCrlfSse2 buf = some (findCrlfScalar buf) ∧
      findCrlfAvx2 buf = some (findCrlfScalar buf) ∧
      IsFirstCrlf buf (findCrlfScalar buf) :=
  ⟨findCrlfVector_eq (by decide) (by decide) buf, findCrlfVector_eq (by decide) (by decide) buf,
    findCrlfScalar_first buf⟩

/-- The parser reads the same lines on every processor. -/
theorem findCrlfAt_eq
    (level : SimdLevel) (buf : Bytes) :
    findCrlfAt level buf = some (findCrlf buf) := by
  have hscalar : findCrlfScalar buf = findCrlf buf :=
    (findCrlfScalar_first buf).unique (findCrlf_first buf)
  cases level with
  | scalar => exact congrArg some hscalar
  | sse2 =>
      rw [← hscalar]
      exact findCrlfVector_eq (by decide) (by decide) buf
  | avx2 =>
      rw [← hscalar]
      exact findCrlfVector_eq (by decide) (by decide) buf

end Simd
end RunNginx
