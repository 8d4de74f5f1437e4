import RunNginx.Config.Types
import RunNginx.Lib.Utf8

/-!
# Request router

From the Host header to a server block, and from a path to a location.
-/

namespace RunNginx
namespace Router

open ByteString

/-- The host without its port. -/
def hostName (host : Bytes) : Bytes :=
  Utf8.trim ((splitByte 58 host).headD host)

def isExact : ServerName → Bool
  | .exact _ => true
  | _ => false

def isWildcard : ServerName → Bool
  | .wildcard _ => true
  | _ => false

def isSuffix : ServerName → Bool
  | .suffix _ => true
  | _ => false

/-- First server with a name of this class that matches the host. -/
def serverNamed
    (servers : List ServerBlock) (class_ : ServerName → Bool) (host : Bytes) :
    Option ServerBlock :=
  servers.find? fun srv => srv.serverNames.any fun n => class_ n && n.matches host

/-- The server block for a Host header; `none` only without any server block. -/
def selectServer (servers : List ServerBlock) (host : Bytes) : Option ServerBlock :=
  let host := hostName host
  (serverNamed servers isExact host)
    |>.or (serverNamed servers isWildcard host)
    |>.or (serverNamed servers isSuffix host)
    |>.or (servers.find? fun srv => srv.serverNames.any fun n => n == .catchAll)
    |>.or servers.head?

/-- What the scan over the locations has found so far. -/
structure Candidates where
  exact : Option LocationBlock
  bestPrefixNoRegex : Option (LocationBlock × Nat)
  firstRegex : Option LocationBlock
  bestPrefix : Option (LocationBlock × Nat)

/-- Keep the longer of two prefixes, the earlier one on a tie. -/
def longerPrefix
    (best : Option (LocationBlock × Nat)) (loc : LocationBlock) (len : Nat) :
    Option (LocationBlock × Nat) :=
  match best with
  | none => some (loc, len)
  | some (_, l) => if l < len then some (loc, len) else best

/-- The scan; an exact match ends it. -/
def scanLocations (path : Bytes) : Candidates → List LocationBlock → Candidates
  | found, [] => found
  | found, loc :: locs =>
      match loc.pattern with
      | .exact p =>
          if p = path then { found with exact := some loc }
          else scanLocations path found locs
      | .prefixNoRegex p =>
          if p.isPrefixOf path then
            scanLocations path
              { found with
                bestPrefixNoRegex := longerPrefix found.bestPrefixNoRegex loc p.length }
              locs
          else scanLocations path found locs
      | .regex _ re | .regexInsensitive _ re =>
          if found.firstRegex.isNone && re.isMatch path then
            scanLocations path { found with firstRegex := some loc } locs
          else scanLocations path found locs
      | .longestPrefix p =>
          if p.isPrefixOf path then
            scanLocations path
              { found with bestPrefix := longerPrefix found.bestPrefix loc p.length } locs
          else scanLocations path found locs
      | .named _ => scanLocations path found locs

/-- The location for a path. -/
def selectLocation (server : ServerBlock) (path : Bytes) : Option LocationBlock :=
  let found := scanLocations path ⟨none, none, none, none⟩ server.locations
  found.exact
    |>.or (found.bestPrefixNoRegex.map Prod.fst)
    |>.or found.firstRegex
    |>.or (found.bestPrefix.map Prod.fst)

theorem selectServer_mem
    {servers : List ServerBlock} {host : Bytes} {server : ServerBlock}
    (h : selectServer servers host = some server) :
    server ∈ servers := by
  simp only [selectServer, Option.or_eq_some_iff] at h
  rcases h with (((h | ⟨_, h⟩) | ⟨_, h⟩) | ⟨_, h⟩) | ⟨_, h⟩
  · exact List.mem_of_find?_eq_some h
  · exact List.mem_of_find?_eq_some h
  · exact List.mem_of_find?_eq_some h
  · exact List.mem_of_find?_eq_some h
  · exact List.mem_of_head? h

/-- The locations a scan has found. -/
def Candidates.found (c : Candidates) : List LocationBlock :=
  c.exact.toList ++ (c.bestPrefixNoRegex.map Prod.fst).toList ++ c.firstRegex.toList ++
    (c.bestPrefix.map Prod.fst).toList

theorem longerPrefix_found
    (best : Option (LocationBlock × Nat)) (loc l : LocationBlock) (len : Nat)
    (h : l ∈ ((longerPrefix best loc len).map Prod.fst).toList) :
    l ∈ (best.map Prod.fst).toList ∨ l = loc := by
  unfold longerPrefix at h
  cases best with
  | none => exact Or.inr (by simpa using h)
  | some b =>
      simp only at h
      split at h
      · exact Or.inr (by simpa using h)
      · exact Or.inl h

/-- A scan finds locations of the list, beside those it started with. -/
theorem scanLocations_found
    {path : Bytes} {locs : List LocationBlock} {c : Candidates} {l : LocationBlock}
    (h : l ∈ (scanLocations path c locs).found) :
    l ∈ c.found ∨ l ∈ locs := by
  induction locs generalizing c with
  | nil => exact Or.inl h
  | cons loc locs ih =>
      -- each turn goes on with the same candidates, or with `loc` among them
      have hsame : l ∈ (scanLocations path c locs).found → l ∈ c.found ∨ l ∈ loc :: locs :=
        fun h => (ih h).imp_right (List.mem_cons_of_mem loc)
      have hmore : ∀ c' : Candidates, (l ∈ c'.found → l ∈ c.found ∨ l = loc) →
          l ∈ (scanLocations path c' locs).found → l ∈ c.found ∨ l ∈ loc :: locs := by
        intro c' hc' h
        rcases ih h with h | h
        · exact (hc' h).imp_right (by rintro rfl; simp)
        · exact Or.inr (by simp [h])
      rw [scanLocations] at h
      split at h
      · split at h
        · simp only [Candidates.found, List.mem_append, Option.mem_toList] at h ⊢
          grind
        · exact hsame h
      · split at h
        · refine hmore _ ?_ h
          simp only [Candidates.found, List.mem_append]
          have hlonger := fun len =>
            longerPrefix_found c.bestPrefixNoRegex loc l len
          grind
        · exact hsame h
      · split at h
        · refine hmore _ ?_ h
          simp only [Candidates.found, List.mem_append, Option.mem_toList]
          grind
        · exact hsame h
      · split at h
        · refine hmore _ ?_ h
          simp only [Candidates.found, List.mem_append, Option.mem_toList]
          grind
        · exact hsame h
      · split at h
        · refine hmore _ ?_ h
          simp only [Candidates.found, List.mem_append]
          have hlonger := fun len =>
            longerPrefix_found c.bestPrefix loc l len
          grind
        · exact hsame h
      · exact hsame h

theorem selectLocation_mem
    {server : ServerBlock} {path : Bytes} {loc : LocationBlock}
    (h : selectLocation server path = some loc) :
    loc ∈ server.locations := by
  have hfound : loc ∈ (scanLocations path ⟨none, none, none, none⟩ server.locations).found := by
    simp only [selectLocation, Option.or_eq_some_iff] at h
    simp only [Candidates.found, List.mem_append, Option.mem_toList]
    rcases h with ((h | ⟨_, h⟩) | ⟨_, h⟩) | ⟨_, h⟩ <;> simp [h]
  rcases scanLocations_found hfound with h | h
  · simp [Candidates.found] at h
  · exact h

end Router
end RunNginx
