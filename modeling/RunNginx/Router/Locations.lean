import RunNginx.Config.Blocks
import RunNginx.Lib.Longest
import RunNginx.Router

/-!
# The choice of a location

`select_location` scans the locations once and keeps four candidates.  The algorithm that it
implements couples two of them: the longest matching prefix, of whichever kind, decides
whether regexes are looked at.

`selectLocation_chosen_iff`: the scan finds the location due exactly where no longer plain
prefix hides behind a shorter `^~` prefix.
-/

namespace RunNginx
namespace Router

open ByteString Longest

section Matching

variable (path : Bytes) (loc : LocationBlock)

/-- The location is an exact one for this path. -/
def isExactMatch : Bool :=
  match loc.pattern with
  | .exact p => p == path
  | _ => false

def isRegexMatch : Bool :=
  match loc.pattern with
  | .regex _ re | .regexInsensitive _ re => re.isMatch path
  | _ => false

/-- The length of a matching `^~` prefix. -/
def noRegexLength : Option Nat :=
  match loc.pattern with
  | .prefixNoRegex p => if p.isPrefixOf path then some p.length else none
  | _ => none

/-- The length of a matching plain prefix. -/
def plainLength : Option Nat :=
  match loc.pattern with
  | .longestPrefix p => if p.isPrefixOf path then some p.length else none
  | _ => none

/-- The length of a matching prefix of either kind. -/
def prefixLength : Option Nat :=
  (noRegexLength path loc).or (plainLength path loc)

variable {path loc}

theorem plainLength_of_noRegex
    {n : Nat}
    (h : noRegexLength path loc = some n) :
    plainLength path loc = none := by
  unfold noRegexLength at h
  unfold plainLength
  cases hpattern : loc.pattern <;> simp_all

theorem isRegexMatch_of_noRegex
    {n : Nat}
    (h : noRegexLength path loc = some n) :
    isRegexMatch path loc = false := by
  unfold noRegexLength at h
  unfold isRegexMatch
  cases hpattern : loc.pattern <;> simp_all

end Matching

section Scan

variable {path : Bytes} {locs : List LocationBlock} {found : Candidates}

/-- What a location that is no exact match adds to the candidates. -/
def scanOne (path : Bytes) (found : Candidates) (loc : LocationBlock) : Candidates where
  exact := found.exact
  bestPrefixNoRegex := keep (noRegexLength path) found.bestPrefixNoRegex loc
  firstRegex := found.firstRegex.or (if isRegexMatch path loc then some loc else none)
  bestPrefix := keep (plainLength path) found.bestPrefix loc

theorem keep_eq_longerPrefix
    {len : LocationBlock → Option Nat} {best : Option (LocationBlock × Nat)}
    {loc : LocationBlock} {n : Nat}
    (h : len loc = some n) :
    keep len best loc = longerPrefix best loc n := by
  unfold keep longerPrefix
  rw [h]
  cases best <;> rfl

theorem keep_of_none
    {len : LocationBlock → Option Nat} {best : Option (LocationBlock × Nat)}
    {loc : LocationBlock}
    (h : len loc = none) :
    keep len best loc = best := by
  unfold keep
  rw [h]

/-- Only the first regex that matches is kept. -/
theorem scanLocations_regex
    (path : Bytes) (found : Candidates) (loc : LocationBlock) (locs : List LocationBlock)
    (hit : Bool) :
    (if found.firstRegex.isNone && hit then
        scanLocations path { found with firstRegex := some loc } locs
      else scanLocations path found locs) =
      scanLocations path
        { found with firstRegex := found.firstRegex.or (if hit then some loc else none) }
        locs := by
  obtain ⟨exact, bestPrefixNoRegex, firstRegex, bestPrefix⟩ := found
  cases firstRegex <;> cases hit <;> rfl

/-- A turn of the scan. -/
theorem scanLocations_cons
    (path : Bytes) (found : Candidates) (loc : LocationBlock) (locs : List LocationBlock) :
    scanLocations path found (loc :: locs) =
      if isExactMatch path loc then { found with exact := some loc }
      else scanLocations path (scanOne path found loc) locs := by
  rw [scanLocations]
  unfold scanOne isExactMatch isRegexMatch
  cases hpattern : loc.pattern with
  | exact p =>
      have hguard : noRegexLength path loc = none := by simp [noRegexLength, hpattern]
      have hplain : plainLength path loc = none := by simp [plainLength, hpattern]
      by_cases hp : p = path <;> simp [hp, keep_of_none hguard, keep_of_none hplain]
  | prefixNoRegex p =>
      have hplain : plainLength path loc = none := by simp [plainLength, hpattern]
      by_cases hp : p.isPrefixOf path = true
      · have hguard : noRegexLength path loc = some p.length := by
          simp [noRegexLength, hpattern, hp]
        simp [hp, keep_eq_longerPrefix hguard, keep_of_none hplain]
      · have hguard : noRegexLength path loc = none := by simp [noRegexLength, hpattern, hp]
        simp [hp, keep_of_none hguard, keep_of_none hplain]
  | longestPrefix p =>
      have hguard : noRegexLength path loc = none := by simp [noRegexLength, hpattern]
      by_cases hp : p.isPrefixOf path = true
      · have hplain : plainLength path loc = some p.length := by
          simp [plainLength, hpattern, hp]
        simp [hp, keep_of_none hguard, keep_eq_longerPrefix hplain]
      · have hplain : plainLength path loc = none := by simp [plainLength, hpattern, hp]
        simp [hp, keep_of_none hguard, keep_of_none hplain]
  | regex source re =>
      have hguard : noRegexLength path loc = none := by simp [noRegexLength, hpattern]
      have hplain : plainLength path loc = none := by simp [plainLength, hpattern]
      rw [keep_of_none hguard, keep_of_none hplain]
      exact scanLocations_regex path found loc locs (re.isMatch path)
  | regexInsensitive source re =>
      have hguard : noRegexLength path loc = none := by simp [noRegexLength, hpattern]
      have hplain : plainLength path loc = none := by simp [plainLength, hpattern]
      rw [keep_of_none hguard, keep_of_none hplain]
      exact scanLocations_regex path found loc locs (re.isMatch path)
  | named name =>
      have hguard : noRegexLength path loc = none := by simp [noRegexLength, hpattern]
      have hplain : plainLength path loc = none := by simp [plainLength, hpattern]
      simp [keep_of_none hguard, keep_of_none hplain]

/-- The scan up to an exact match. -/
theorem scanLocations_exact
    {loc : LocationBlock}
    (h : locs.find? (isExactMatch path) = some loc) :
    (scanLocations path found locs).exact = some loc := by
  induction locs generalizing found with
  | nil => cases h
  | cons l locs ih =>
      rw [scanLocations_cons]
      by_cases hl : isExactMatch path l = true
      · rw [List.find?_cons_of_pos hl] at h
        rw [if_pos hl]
        exact h
      · rw [List.find?_cons_of_neg hl] at h
        rw [if_neg hl]
        exact ih h

/-- The scan where no location is an exact match. -/
theorem scanLocations_eq_foldl
    (h : locs.find? (isExactMatch path) = none) :
    scanLocations path found locs = locs.foldl (scanOne path) found := by
  induction locs generalizing found with
  | nil => rfl
  | cons l locs ih =>
      rw [List.find?_cons] at h
      cases hl : isExactMatch path l with
      | true => simp [hl] at h
      | false =>
          rw [scanLocations_cons, hl, List.foldl_cons]
          exact ih (by simpa [hl] using h)

/-- The candidates do not know of each other. -/
theorem foldl_scanOne
    (path : Bytes) (locs : List LocationBlock) (found : Candidates) :
    locs.foldl (scanOne path) found =
      ⟨found.exact, locs.foldl (keep (noRegexLength path)) found.bestPrefixNoRegex,
        found.firstRegex.or (locs.find? (isRegexMatch path)),
        locs.foldl (keep (plainLength path)) found.bestPrefix⟩ := by
  induction locs generalizing found with
  | nil => simp
  | cons l locs ih =>
      rw [List.foldl_cons, ih]
      unfold scanOne
      rw [List.foldl_cons, List.foldl_cons, Option.or_assoc, List.find?_cons]
      cases isRegexMatch path l <;> rfl

/-- What the code chooses. -/
theorem selectLocation_eq
    (server : ServerBlock) (path : Bytes) :
    selectLocation server path =
      (server.locations.find? (isExactMatch path)
        |>.or ((scan (noRegexLength path) server.locations).map Prod.fst)
        |>.or (server.locations.find? (isRegexMatch path))
        |>.or ((scan (plainLength path) server.locations).map Prod.fst)) := by
  unfold selectLocation
  dsimp only
  cases hexact : server.locations.find? (isExactMatch path) with
  | some loc =>
      rw [scanLocations_exact hexact]
      rfl
  | none =>
      rw [scanLocations_eq_foldl hexact, foldl_scanOne]
      rfl

end Scan

section Choice

variable {server : ServerBlock} {path : Bytes}

/-- The longest matching prefix, of whichever kind; `none` only if no prefix matches. -/
def IsLongestPrefix (server : ServerBlock) (path : Bytes) : Option LocationBlock → Prop
  | none => ∀ loc ∈ server.locations, prefixLength path loc = none
  | some loc => IsLongest (prefixLength path) server.locations loc

/--
The location due: the exact match if any; otherwise, with `p` the longest matching prefix,
`p` itself if it is a `^~` prefix, else the first regex that matches, else `p`.
-/
def Chosen (server : ServerBlock) (path : Bytes) (choice : Option LocationBlock) : Prop :=
  match server.locations.find? (isExactMatch path) with
  | some loc => choice = some loc
  | none => ∃ p, IsLongestPrefix server path p ∧
      choice = ((p.filter fun loc => (noRegexLength path loc).isSome)
        |>.or (server.locations.find? (isRegexMatch path))
        |>.or p)

/-- No plain prefix that matches is longer than all the `^~` prefixes that match. -/
def NoneHidden (server : ServerBlock) (path : Bytes) : Prop :=
  (∀ loc ∈ server.locations, noRegexLength path loc = none) ∨
    ∃ loc ∈ server.locations, ∃ n, noRegexLength path loc = some n ∧
      AtMost (plainLength path) server.locations n

theorem prefixLength_of_noRegex
    {loc : LocationBlock} {n : Nat}
    (h : noRegexLength path loc = some n) :
    prefixLength path loc = some n := by
  rw [prefixLength, h, Option.some_or]

theorem prefixLength_of_noRegex_none
    {loc : LocationBlock}
    (h : noRegexLength path loc = none) :
    prefixLength path loc = plainLength path loc := by
  rw [prefixLength, h, Option.none_or]

/-- Without a `^~` prefix the best plain prefix is the longest. -/
theorem isLongestPrefix_plain
    (h : ∀ loc ∈ server.locations, noRegexLength path loc = none) :
    IsLongestPrefix server path ((scan (plainLength path) server.locations).map Prod.fst) := by
  have hplain : ∀ loc ∈ server.locations, prefixLength path loc = plainLength path loc :=
    fun loc hloc => prefixLength_of_noRegex_none (h loc hloc)
  have hbest := best_scan (plainLength path) server.locations
  cases hscan : scan (plainLength path) server.locations with
  | none =>
      rw [hscan] at hbest
      exact fun loc hloc => (hplain loc hloc).trans (hbest loc hloc)
  | some b =>
      rw [hscan] at hbest
      obtain ⟨hmem, hlen, hmax⟩ := hbest
      refine ⟨hmem, b.2, (hplain b.1 hmem).trans hlen, fun y hy m hm => ?_⟩
      exact hmax y hy m ((hplain y hy).symm.trans hm)

/-- A `^~` prefix is the longest if no plain prefix that matches is longer. -/
theorem isLongest_noRegex
    {loc : LocationBlock} {n : Nat}
    (hloc : loc ∈ server.locations) (hlen : noRegexLength path loc = some n)
    (hguards : AtMost (noRegexLength path) server.locations n)
    (hplains : AtMost (plainLength path) server.locations n) :
    IsLongest (prefixLength path) server.locations loc := by
  refine ⟨hloc, n, prefixLength_of_noRegex hlen, fun y hy m hm => ?_⟩
  cases hy' : noRegexLength path y with
  | some k =>
      rw [prefixLength_of_noRegex hy'] at hm
      exact hguards y hy m (hy'.trans hm)
  | none =>
      rw [prefixLength_of_noRegex_none hy'] at hm
      exact hplains y hy m hm

/-- A longest prefix that is a `^~` prefix hides no plain prefix. -/
theorem atMost_of_isLongest
    {loc : LocationBlock} {n : Nat}
    (hlongest : IsLongest (prefixLength path) server.locations loc)
    (hlen : noRegexLength path loc = some n) :
    AtMost (plainLength path) server.locations n := by
  obtain ⟨-, k, hk, hmax⟩ := hlongest
  rw [prefixLength_of_noRegex hlen] at hk
  cases hk
  intro y hy m hm
  have hguard : noRegexLength path y = none := by
    cases hy' : noRegexLength path y with
    | none => rfl
    | some k =>
        rw [plainLength_of_noRegex hy'] at hm
        cases hm
  exact hmax y hy m ((prefixLength_of_noRegex_none hguard).trans hm)

/-- Where a `^~` prefix matches, the longest of them is due only if it hides nothing. -/
theorem noneHidden_of_chosen
    {loc : LocationBlock} {n : Nat} {p : Option LocationBlock}
    (hloc : loc ∈ server.locations) (hlen : noRegexLength path loc = some n)
    (hp : IsLongestPrefix server path p)
    (hchoice : some loc = ((p.filter fun loc => (noRegexLength path loc).isSome)
      |>.or (server.locations.find? (isRegexMatch path))
      |>.or p)) :
    NoneHidden server path := by
  have hself : IsLongest (prefixLength path) server.locations loc := by
    cases p with
    | none =>
        have hnone := hp loc hloc
        rw [prefixLength_of_noRegex hlen] at hnone
        cases hnone
    | some l =>
        cases hl : noRegexLength path l with
        | some k =>
            have heq : loc = l := by simpa [Option.filter, hl] using hchoice
            rw [heq]
            exact hp
        | none =>
            -- then a regex is chosen, or the plain prefix `l`
            cases hregex : server.locations.find? (isRegexMatch path) with
            | none =>
                have heq : loc = l := by simpa [Option.filter, hl, hregex] using hchoice
                rw [heq, hl] at hlen
                cases hlen
            | some r =>
                have heq : loc = r := by simpa [Option.filter, hl, hregex] using hchoice
                have hmatch := List.find?_some hregex
                rw [← heq, isRegexMatch_of_noRegex hlen] at hmatch
                cases hmatch
  exact Or.inr ⟨loc, hloc, n, hlen, atMost_of_isLongest hself hlen⟩

/-- The scan finds the location due exactly if a location matches exactly or nothing is hidden. -/
theorem selectLocation_chosen_iff
    (server : ServerBlock) (path : Bytes) :
    Chosen server path (selectLocation server path) ↔
      (∃ loc ∈ server.locations, isExactMatch path loc = true) ∨ NoneHidden server path := by
  unfold Chosen
  rw [selectLocation_eq]
  cases hexact : server.locations.find? (isExactMatch path) with
  | some loc =>
      refine iff_of_true rfl (Or.inl ⟨loc, List.mem_of_find?_eq_some hexact, ?_⟩)
      exact List.find?_some hexact
  | none =>
      have hno : ¬ ∃ loc ∈ server.locations, isExactMatch path loc = true := by
        rintro ⟨loc, hloc, h⟩
        exact List.find?_eq_none.mp hexact loc hloc h
      rw [or_iff_right hno, Option.none_or]
      have hguards := best_scan (noRegexLength path) server.locations
      cases hscan : scan (noRegexLength path) server.locations with
      | none =>
          rw [hscan] at hguards
          refine iff_of_true ⟨_, isLongestPrefix_plain hguards, ?_⟩ (Or.inl hguards)
          cases hplain : scan (plainLength path) server.locations with
          | none => rfl
          | some b =>
              have hlen := hguards b.1 (isLongest_of_scan (n := b.2) hplain).1
              simp [Option.filter, hlen]
      | some b =>
          rw [hscan] at hguards
          obtain ⟨hmem, hlen, hmax⟩ := hguards
          constructor
          · rintro ⟨p, hp, hchoice⟩
            exact noneHidden_of_chosen hmem hlen hp hchoice
          · rintro (hnone | ⟨loc, hloc, n, hn, hplains⟩)
            · rw [hnone b.1 hmem] at hlen
              cases hlen
            · have hle : n ≤ b.2 := hmax loc hloc n hn
              have hlongest := isLongest_noRegex hmem hlen hmax fun y hy m hm =>
                (hplains y hy m hm).trans hle
              exact ⟨some b.1, hlongest, by simp [Option.filter, hlen]⟩

/-- A location as the parser leaves it that reads nothing but its pattern. -/
def bareLocation (pattern : LocationPattern) : LocationBlock :=
  ConfigParser.LocationReader.initial.finish pattern

/-- A server with nothing but locations. -/
def bareServer (locations : List LocationBlock) : ServerBlock :=
  { ConfigParser.ServerReader.initial.block with locations := locations }

/-- The shorter `^~` prefix is chosen over the longer plain prefix. -/
theorem longer_prefix_hidden :
    let server := bareServer [bareLocation (.prefixNoRegex (ascii "/a")),
      bareLocation (.longestPrefix (ascii "/a/b"))]
    (selectLocation server (ascii "/a/b")).map LocationBlock.pattern =
        some (.prefixNoRegex (ascii "/a")) ∧
      ¬ Chosen server (ascii "/a/b") (selectLocation server (ascii "/a/b")) := by
  intro server
  refine ⟨rfl, ?_⟩
  rintro ⟨p, hp, hchoice⟩
  have hnone : NoneHidden server (ascii "/a/b") :=
    noneHidden_of_chosen List.mem_cons_self rfl hp hchoice
  rcases hnone with hnone | ⟨loc, hloc, n, hn, hplains⟩
  · exact absurd (hnone _ List.mem_cons_self) (by decide)
  · have hlong := hplains _ (List.mem_cons_of_mem _ List.mem_cons_self) 4 rfl
    have hshort : n ≤ 2 := by
      rcases List.mem_cons.mp hloc with rfl | hloc
      · cases hn
        exact Nat.le_refl 2
      · rw [List.mem_singleton.mp hloc] at hn
        cases hn
    omega

end Choice

end Router
end RunNginx
