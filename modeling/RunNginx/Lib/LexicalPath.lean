import Mathlib.Data.List.Induction
import RunNginx.Lib.FileTree

/-!
# Lexical paths

A path is normalised without a look at the file tree: `here` is dropped, and `up` takes the
name before it away.  At the root of an absolute path `up` stays there; a relative path may
begin with some.

`under_iff`: a path goes on from a root to something under it exactly if it climbs no higher
than it comes back by the same names.
-/

namespace LexicalPath

open FileTree

variable {ν : Type}

/-- A component behind a normalised path, which is held with its last component first. -/
def step (absolute : Bool) (stack : List (Component ν)) : Component ν → List (Component ν)
  | .here => stack
  | .name n => .name n :: stack
  | .up =>
      match stack with
      | .name _ :: rest => rest
      | stack => if absolute then stack else .up :: stack

def normalize (absolute : Bool) (path : List (Component ν)) : List (Component ν) :=
  (path.foldl (step absolute) []).reverse

/-- The path is the root with some names behind it. -/
def Under (absolute : Bool) (root path : List (Component ν)) : Prop :=
  ∃ names : List ν, normalize absolute path = normalize absolute root ++ names.map .name

/-- How far a path climbs, and the names it goes down from there, the last one first. -/
structure Way (ν : Type) where
  climbs : Nat
  names : List ν

namespace Way

def step (w : Way ν) : Component ν → Way ν
  | .here => w
  | .name n => { w with names := n :: w.names }
  | .up =>
      match w.names with
      | _ :: rest => { w with names := rest }
      | [] => ⟨w.climbs + 1, []⟩

def ofPath (path : List (Component ν)) : Way ν :=
  path.foldl step ⟨0, []⟩

/-- The stack behind this way, from a stack of `tops` over `ups` further components `up`. -/
def follow (absolute : Bool) (tops : List ν) (ups : Nat) (w : Way ν) : List (Component ν) :=
  w.names.map .name ++ ((tops.drop w.climbs).map .name ++
    List.replicate (if absolute then 0 else ups + (w.climbs - tops.length)) .up)

end Way

section Follow

variable {absolute : Bool} {tops : List ν} {ups : Nat}

/-- One component behind a way. -/
theorem step_follow
    (w : Way ν) (c : Component ν) :
    step absolute (w.follow absolute tops ups) c = (w.step c).follow absolute tops ups := by
  obtain ⟨climbs, names⟩ := w
  cases c with
  | here => rfl
  | name n => rfl
  | up =>
      cases names with
      | cons n names => rfl
      | nil =>
          unfold Way.follow Way.step
          dsimp only
          rw [List.map_nil, List.nil_append, List.nil_append]
          cases hdrop : tops.drop climbs with
          | cons t rest =>
              have hlt : climbs < tops.length := by
                by_contra hle
                rw [List.drop_eq_nil_of_le (Nat.le_of_not_lt hle)] at hdrop
                cases hdrop
              have hrest : tops.drop (climbs + 1) = rest := by
                rw [← List.drop_drop, hdrop]
                rfl
              rw [hrest, Nat.sub_eq_zero_of_le hlt, Nat.sub_eq_zero_of_le (Nat.le_of_lt hlt)]
              rfl
          | nil =>
              have hle : tops.length ≤ climbs := List.drop_eq_nil_iff.mp hdrop
              rw [List.drop_eq_nil_of_le (Nat.le_succ_of_le hle), Nat.succ_sub hle]
              cases absolute with
              | true => rfl
              | false =>
                  rw [List.map_nil, List.nil_append, if_neg Bool.false_ne_true,
                    if_neg Bool.false_ne_true, List.nil_append, Nat.add_succ,
                    List.replicate_succ]
                  cases ups + (climbs - tops.length) with
                  | zero => rfl
                  | succ k => rfl

/-- A path, followed from a stack. -/
theorem foldl_step
    (path : List (Component ν)) :
    path.foldl (step absolute) ((⟨0, []⟩ : Way ν).follow absolute tops ups) =
      (Way.ofPath path).follow absolute tops ups := by
  induction path using List.reverseRecOn with
  | nil => rfl
  | append_singleton path c ih =>
      rw [List.foldl_append, List.foldl_cons, List.foldl_nil, ih, step_follow, Way.ofPath,
        Way.ofPath, List.foldl_append]
      rfl

/-- What a path is normalised to. -/
theorem stack_eq
    (path : List (Component ν)) :
    path.foldl (step absolute) [] =
      (Way.ofPath path).names.map .name ++
        List.replicate (if absolute then 0 else (Way.ofPath path).climbs) .up := by
  have h := @foldl_step ν absolute [] 0 path
  have hstart : ((⟨0, []⟩ : Way ν).follow absolute [] 0) = [] := by
    cases absolute <;> rfl
  rw [hstart] at h
  rw [h, Way.follow, List.drop_nil, List.map_nil, List.nil_append, List.length_nil, Nat.sub_zero,
    Nat.zero_add]

end Follow

section Names

variable [DecidableEq ν]

/-- Steps to the same place leave no trace. -/
theorem foldl_step_filter
    (absolute : Bool) (path stack : List (Component ν)) :
    (path.filter fun c => c != .here).foldl (step absolute) stack =
      path.foldl (step absolute) stack := by
  induction path generalizing stack with
  | nil => rfl
  | cons c path ih =>
      cases c with
      | here => exact ih stack
      | up => exact ih _
      | name n => exact ih _

theorem Way.foldl_step_filter
    (path : List (Component ν)) (w : Way ν) :
    (path.filter fun c => c != .here).foldl Way.step w = path.foldl Way.step w := by
  induction path generalizing w with
  | nil => rfl
  | cons c path ih =>
      cases c with
      | here => exact ih w
      | up => exact ih _
      | name n => exact ih _

theorem normalize_filter
    (absolute : Bool) (path : List (Component ν)) :
    normalize absolute (path.filter fun c => c != .here) = normalize absolute path :=
  congrArg List.reverse (foldl_step_filter absolute path [])

theorem Way.ofPath_filter
    (path : List (Component ν)) :
    Way.ofPath (path.filter fun c => c != .here) = Way.ofPath path :=
  Way.foldl_step_filter path _

end Names

section Under

variable {absolute : Bool} {root path : List (Component ν)}

theorem under_iff_stack :
    Under absolute root path ↔
      ∃ names : List ν, path.foldl (step absolute) [] =
        names.map .name ++ root.foldl (step absolute) [] := by
  unfold Under normalize
  constructor
  · rintro ⟨names, h⟩
    refine ⟨names.reverse, ?_⟩
    have hreverse := congrArg List.reverse h
    rwa [List.reverse_reverse, List.reverse_append, List.reverse_reverse, ← List.map_reverse]
      at hreverse
  · rintro ⟨names, h⟩
    refine ⟨names.reverse, ?_⟩
    rw [h, List.reverse_append, ← List.map_reverse]

/-- The names over a number of components `up` can be read from a stack. -/
theorem names_ups_inj
    {ns ms : List ν} {j k : Nat}
    (h : (ns.map .name ++ List.replicate j .up : List (Component ν)) =
      ms.map .name ++ List.replicate k .up) :
    ns = ms ∧ j = k := by
  induction ns generalizing ms with
  | nil =>
      cases ms with
      | nil =>
          have hlength := congrArg List.length h
          simp only [List.map_nil, List.nil_append, List.length_replicate] at hlength
          exact ⟨rfl, hlength⟩
      | cons m ms =>
          cases j with
          | zero => cases h
          | succ j => cases h
  | cons n ns ih =>
      cases ms with
      | nil =>
          cases k with
          | zero => cases h
          | succ k => cases h
      | cons m ms =>
          obtain ⟨hname, hrest⟩ := List.cons.inj h
          obtain ⟨rfl, rfl⟩ := ih hrest
          cases hname
          exact ⟨rfl, rfl⟩

/--
A path that goes on from a root stays under it if and only if it comes back by the names of
the root it has climbed over; a relative root has to have as many.
-/
theorem under_iff
    (absolute : Bool) (root path : List (Component ν)) :
    Under absolute root (root ++ path) ↔
      (Way.ofPath root).names.take (Way.ofPath path).climbs <:+ (Way.ofPath path).names ∧
        (absolute = true ∨ (Way.ofPath path).climbs ≤ (Way.ofPath root).names.length) := by
  have hstart : root.foldl (step absolute) [] =
      (⟨0, []⟩ : Way ν).follow absolute (Way.ofPath root).names (Way.ofPath root).climbs := by
    rw [stack_eq]
    cases absolute <;> simp [Way.follow]
  rw [under_iff_stack, List.foldl_append, hstart, foldl_step, ← hstart, stack_eq]
  generalize Way.ofPath root = r
  generalize Way.ofPath path = w
  unfold Way.follow
  simp only [← List.append_assoc, ← List.map_append]
  constructor
  · rintro ⟨names, h⟩
    obtain ⟨hnames, hups⟩ := names_ups_inj h
    have hsplit : w.names = names ++ r.names.take w.climbs := by
      have hsame : w.names ++ r.names.drop w.climbs =
          names ++ r.names.take w.climbs ++ r.names.drop w.climbs := by
        rw [List.append_assoc, List.take_append_drop]
        exact hnames
      exact List.append_cancel_right hsame
    refine ⟨⟨names, hsplit.symm⟩, ?_⟩
    cases absolute with
    | true => exact Or.inl rfl
    | false =>
        rw [if_neg Bool.false_ne_true, if_neg Bool.false_ne_true] at hups
        exact Or.inr (by omega)
  · rintro ⟨⟨names, hsplit⟩, hclimbs⟩
    refine ⟨names, ?_⟩
    have hups : (if absolute = true then 0 else r.climbs + (w.climbs - r.names.length)) =
        if absolute = true then 0 else r.climbs := by
      rcases hclimbs with rfl | hle
      · rfl
      · rw [Nat.sub_eq_zero_of_le hle, Nat.add_zero]
    rw [hups, ← hsplit, List.append_assoc, List.take_append_drop]

end Under

end LexicalPath
