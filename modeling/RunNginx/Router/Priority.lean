import RunNginx.Router.Locations

/-!
# The rules of the patterns and the choice of a location

A pattern says by itself whether it matches a path and what its priority is.  The scan of
`select_location` asks neither of the two: it has the rules written out once more, in four
candidates and the order in which they are tried.

`selectLocation_eq_iff`: both say the same.  A location is chosen by its rank, the priority
first and the length of a prefix second, and of those of one rank the first is chosen.
-/

namespace RunNginx

namespace LocationPattern

def priority : LocationPattern → Nat
  | .exact _ => 4
  | .prefixNoRegex _ => 3
  | .regex _ _ | .regexInsensitive _ _ => 2
  | .longestPrefix _ => 1
  | .named _ => 0

def «matches» : LocationPattern → Bytes → Bool
  | .exact p, path => p == path
  | .longestPrefix p, path | .prefixNoRegex p, path => p.isPrefixOf path
  | .regex _ re, path | .regexInsensitive _ re, path => re.isMatch path
  | .named _, _ => false

/-- The length of a prefix; patterns of the other kinds are not compared by length. -/
def prefixLen : LocationPattern → Nat
  | .longestPrefix p | .prefixNoRegex p => p.length
  | _ => 0

theorem priority_le (pattern : LocationPattern) : pattern.priority ≤ 4 := by
  cases pattern <;> simp [priority]

theorem priority_pos
    {pattern : LocationPattern} {path : Bytes}
    (h : pattern.matches path = true) :
    0 < pattern.priority := by
  cases pattern with
  | named name => cases h
  | _ => exact Nat.succ_pos _

end LocationPattern

namespace Router

open ByteString Longest

/-! ### What the patterns ask for -/

/--
Of the locations that match, this one has the highest priority and, among those of its
priority, the longest prefix; an earlier one is shorter.  Patterns that are not compared by
length are all as long, so that of these none is earlier.
-/
structure IsPreferred
    (path : Bytes) (before : List LocationBlock) (loc : LocationBlock)
    (after : List LocationBlock) : Prop where
  hit : loc.pattern.matches path = true
  highest : ∀ l ∈ before ++ loc :: after, l.pattern.matches path = true →
    l.pattern.priority ≤ loc.pattern.priority
  longest : ∀ l ∈ before ++ loc :: after, l.pattern.matches path = true →
    l.pattern.priority = loc.pattern.priority → l.pattern.prefixLen ≤ loc.pattern.prefixLen
  first : ∀ l ∈ before, l.pattern.matches path = true →
    l.pattern.priority = loc.pattern.priority → l.pattern.prefixLen < loc.pattern.prefixLen

/-- The choice that the patterns ask for; `none` only if none of them matches. -/
def Selects (path : Bytes) (locs : List LocationBlock) : Option LocationBlock → Prop
  | none => ∀ loc ∈ locs, loc.pattern.matches path = false
  | some loc => ∃ before after, locs = before ++ loc :: after ∧ IsPreferred path before loc after

/-- Two preferred locations stand at the same place. -/
theorem IsPreferred.unique
    {path : Bytes} {before before' after after' : List LocationBlock} {loc loc' : LocationBlock}
    (h : IsPreferred path before loc after) (h' : IsPreferred path before' loc' after')
    (heq : before ++ loc :: after = before' ++ loc' :: after') :
    loc = loc' := by
  have hmem : loc ∈ before' ++ loc' :: after' := heq ▸ by simp
  have hmem' : loc' ∈ before ++ loc :: after := heq ▸ by simp
  have hpriority : loc.pattern.priority = loc'.pattern.priority :=
    Nat.le_antisymm (h'.highest loc hmem h.hit) (h.highest loc' hmem' h'.hit)
  have hlen : loc.pattern.prefixLen = loc'.pattern.prefixLen :=
    Nat.le_antisymm (h'.longest loc hmem h.hit hpriority)
      (h.longest loc' hmem' h'.hit hpriority.symm)
  rcases List.append_eq_append_iff.mp heq with ⟨mid, hbefore, hrest⟩ | ⟨mid, hbefore, hrest⟩
  · cases mid with
    | nil => exact (List.cons.inj hrest).1
    | cons l mid =>
        obtain rfl : loc = l := (List.cons.inj hrest).1
        have hshort := h'.first loc (by simp [hbefore]) h.hit hpriority
        omega
  · cases mid with
    | nil => exact (List.cons.inj hrest).1.symm
    | cons l mid =>
        obtain rfl : loc' = l := (List.cons.inj hrest).1
        have hshort := h.first loc' (by simp [hbefore]) h'.hit hpriority.symm
        omega

/-- The patterns ask for one choice. -/
theorem Selects.unique
    {path : Bytes} {locs : List LocationBlock} {a b : Option LocationBlock}
    (ha : Selects path locs a) (hb : Selects path locs b) :
    a = b := by
  have hclash : ∀ loc, Selects path locs none → ¬ Selects path locs (some loc) := by
    rintro loc hnone ⟨before, after, rfl, hloc⟩
    have hmiss := hnone loc (by simp)
    rw [hloc.hit] at hmiss
    cases hmiss
  cases a with
  | none =>
      cases b with
      | none => rfl
      | some loc => exact absurd hb (hclash loc ha)
  | some loc =>
      cases b with
      | none => exact absurd ha (hclash loc hb)
      | some loc' =>
          obtain ⟨before, after, rfl, hloc⟩ := ha
          obtain ⟨before', after', heq, hloc'⟩ := hb
          exact congrArg some (hloc.unique hloc' heq)

/-! ### The candidates of the scan by their priority -/

section Rank

variable {path : Bytes} {loc : LocationBlock} {locs : List LocationBlock} {k n : Nat}

/-- The length by which a location that matches competes at a priority. -/
def rank (path : Bytes) (k : Nat) (loc : LocationBlock) : Option Nat :=
  if loc.pattern.matches path = true ∧ loc.pattern.priority = k then some loc.pattern.prefixLen
  else none

theorem rank_eq_some_iff :
    rank path k loc = some n ↔ loc.pattern.matches path = true ∧ loc.pattern.priority = k ∧
      loc.pattern.prefixLen = n := by
  unfold rank
  split
  · rename_i h
    simp [h.1, h.2]
  · rename_i h
    constructor
    · intro hnone
      cases hnone
    · rintro ⟨hmatch, hpriority, -⟩
      exact absurd ⟨hmatch, hpriority⟩ h

theorem rank_self
    (h : loc.pattern.matches path = true) :
    rank path loc.pattern.priority loc = some loc.pattern.prefixLen :=
  rank_eq_some_iff.mpr ⟨h, rfl, rfl⟩

theorem noRegexLength_eq_rank : noRegexLength path = rank path 3 := by
  funext loc
  unfold noRegexLength rank
  cases hpattern : loc.pattern <;>
    simp [LocationPattern.matches, LocationPattern.priority, LocationPattern.prefixLen]

theorem plainLength_eq_rank : plainLength path = rank path 1 := by
  funext loc
  unfold plainLength rank
  cases hpattern : loc.pattern <;>
    simp [LocationPattern.matches, LocationPattern.priority, LocationPattern.prefixLen]

/-- At these two priorities nothing is compared by length. -/
theorem eq_zero_of_rank
    (hk : k = 4 ∨ k = 2) (h : rank path k loc = some n) :
    n = 0 := by
  obtain ⟨-, hpriority, rfl⟩ := rank_eq_some_iff.mp h
  rcases hk with rfl | rfl
  · cases hpattern : loc.pattern <;>
      simp_all [LocationPattern.priority, LocationPattern.prefixLen]
  · cases hpattern : loc.pattern <;>
      simp_all [LocationPattern.priority, LocationPattern.prefixLen]

theorem isSome_rank :
    (rank path k loc).isSome =
      (loc.pattern.matches path && decide (loc.pattern.priority = k)) := by
  unfold rank
  split <;> simp_all

theorem isExactMatch_eq_rank : isExactMatch path = fun loc => (rank path 4 loc).isSome := by
  funext loc
  rw [isSome_rank]
  unfold isExactMatch
  cases hpattern : loc.pattern <;> simp [LocationPattern.matches, LocationPattern.priority]

theorem isRegexMatch_eq_rank : isRegexMatch path = fun loc => (rank path 2 loc).isSome := by
  funext loc
  rw [isSome_rank]
  unfold isRegexMatch
  cases hpattern : loc.pattern <;> simp [LocationPattern.matches, LocationPattern.priority]

/-- No location competes above a priority. -/
def NoneAbove (path : Bytes) (locs : List LocationBlock) (k : Nat) : Prop :=
  ∀ loc ∈ locs, loc.pattern.matches path = true → loc.pattern.priority ≤ k

theorem NoneAbove.step
    (h : NoneAbove path locs (k + 1)) (hnone : ∀ loc ∈ locs, rank path (k + 1) loc = none) :
    NoneAbove path locs k := by
  intro loc hloc hmatch
  have hle := h loc hloc hmatch
  have hne : loc.pattern.priority ≠ k + 1 := by
    intro heq
    have hrank := rank_self hmatch
    rw [heq, hnone loc hloc] at hrank
    cases hrank
  omega

/-- The first of the longest at the highest priority is what the patterns ask for. -/
theorem selects_of_first
    {before after : List LocationBlock}
    (habove : NoneAbove path (before ++ loc :: after) k) (hloc : rank path k loc = some n)
    (hfirst : IsFirst (rank path k) before after n) :
    Selects path (before ++ loc :: after) (some loc) := by
  obtain ⟨hmatch, rfl, rfl⟩ := rank_eq_some_iff.mp hloc
  have hshorter : ∀ l ∈ before, l.pattern.matches path = true →
      l.pattern.priority = loc.pattern.priority →
        l.pattern.prefixLen < loc.pattern.prefixLen :=
    fun l hl hl' heq => hfirst.1 l hl _ (rank_eq_some_iff.mpr ⟨hl', heq, rfl⟩)
  refine ⟨before, after, rfl, hmatch, habove, fun l hl hl' heq => ?_, hshorter⟩
  rcases List.mem_append.mp hl with hl | hl
  · exact Nat.le_of_lt (hshorter l hl hl' heq)
  · rcases List.mem_cons.mp hl with rfl | hl
    · exact Nat.le_refl _
    · exact hfirst.2 l hl _ (rank_eq_some_iff.mpr ⟨hl', heq, rfl⟩)

/-- A candidate that is the longest prefix of its kind. -/
theorem selects_of_scan
    (habove : NoneAbove path locs k) (h : scan (rank path k) locs = some (loc, n)) :
    Selects path locs (some loc) := by
  obtain ⟨hloc, before, after, rfl, hfirst⟩ := scan_split h
  exact selects_of_first habove hloc hfirst

/-- A candidate that is the first of its kind. -/
theorem selects_of_find
    (hk : k = 4 ∨ k = 2) (habove : NoneAbove path locs k)
    (h : (locs.find? fun loc => (rank path k loc).isSome) = some loc) :
    Selects path locs (some loc) := by
  obtain ⟨hsome, before, after, rfl, hbefore⟩ := List.find?_eq_some_iff_append.mp h
  obtain ⟨n, hloc⟩ := Option.isSome_iff_exists.mp hsome
  refine selects_of_first habove hloc ⟨fun y hy m hm => ?_, fun y _ m hm => ?_⟩
  · have hnot := hbefore y hy
    rw [hm] at hnot
    cases hnot
  · rw [eq_zero_of_rank hk hm]
    exact Nat.zero_le n

theorem rank_of_find_none
    (h : (locs.find? fun loc => (rank path k loc).isSome) = none) :
    ∀ loc ∈ locs, rank path k loc = none := by
  intro loc hloc
  have hnot := List.find?_eq_none.mp h loc hloc
  simpa using hnot

theorem rank_of_scan_none
    (h : scan (rank path k) locs = none) :
    ∀ loc ∈ locs, rank path k loc = none := by
  have hbest := best_scan (rank path k) locs
  rw [h] at hbest
  exact hbest

end Rank

/-! ### The scan and the patterns -/

/-- The scan makes a choice that the patterns ask for. -/
theorem selectLocation_selects
    (server : ServerBlock) (path : Bytes) :
    Selects path server.locations (selectLocation server path) := by
  rw [selectLocation_eq, isExactMatch_eq_rank, noRegexLength_eq_rank, isRegexMatch_eq_rank,
    plainLength_eq_rank]
  have h4 : NoneAbove path server.locations 4 := fun loc _ _ => loc.pattern.priority_le
  cases hfind : server.locations.find? (fun loc => (rank path 4 loc).isSome) with
  | some loc => exact selects_of_find (.inl rfl) h4 hfind
  | none =>
      have h3 := h4.step (rank_of_find_none hfind)
      cases hscan : scan (rank path 3) server.locations with
      | some b => exact selects_of_scan (n := b.2) h3 hscan
      | none =>
          have h2 := h3.step (rank_of_scan_none hscan)
          cases hfind : server.locations.find? (fun loc => (rank path 2 loc).isSome) with
          | some loc => exact selects_of_find (.inr rfl) h2 hfind
          | none =>
              have h1 := h2.step (rank_of_find_none hfind)
              cases hscan : scan (rank path 1) server.locations with
              | some b => exact selects_of_scan (n := b.2) h1 hscan
              | none =>
                  have h0 := h1.step (rank_of_scan_none hscan)
                  intro loc hloc
                  by_contra hmatch
                  have hmatch : loc.pattern.matches path = true := by simpa using hmatch
                  have hpos := LocationPattern.priority_pos hmatch
                  have hle := h0 loc hloc hmatch
                  omega

/-- The scan chooses a location, or none, exactly where the patterns ask for it. -/
theorem selectLocation_eq_iff
    (server : ServerBlock) (path : Bytes) (choice : Option LocationBlock) :
    selectLocation server path = choice ↔ Selects path server.locations choice := by
  constructor
  · rintro rfl
    exact selectLocation_selects server path
  · intro h
    exact (selectLocation_selects server path).unique h

end Router
end RunNginx
