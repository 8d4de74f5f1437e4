import RunNginx.Cache
import RunNginx.Lib.Run

/-!
# What the response cache remembers

The store as a bounded map whose entries expire: it never holds more than its size, and a
lookup gives what was put last under its key, no longer than the time to live.  A full cache
without an expired entry drops what is put.  Where it holds an older value under the same
key, it goes on giving that one: such a put is refused, and does not count.
-/

namespace RunNginx
namespace Cache
namespace ResponseCache

open ByteString

/-- The entries of the map, in the order in which it lists them. -/
abbrev Listing := List (Sigma fun _ : Bytes => CacheEntry)

/-- `makeRoom` on the entries in any order. -/
def makeRoomIn (listing : Listing) (cache : ResponseCache) (now : Nat) :
    Option (Table Bytes CacheEntry) :=
  if cache.entries.entries.length < cache.maxSize then some cache.entries
  else match listing.find? fun e => e.2.expiresAt < now with
  | some e => some (cache.entries.erase e.1)
  | none => none

/-- `put` on the entries in any order, with a reading of the clock for each of its uses. -/
def putIn (listing : Listing) (cache : ResponseCache) (key bytes : Bytes)
    (status checked stored : Nat) : ResponseCache :=
  if !cache.enabled then cache
  else match cache.makeRoomIn listing checked with
  | none => cache
  | some entries =>
      { cache with entries := entries.insert key ⟨bytes, status, stored + cache.ttl⟩ }

theorem put_eq_putIn
    (cache : ResponseCache) (key bytes : Bytes) (status now : Nat) :
    cache.put key bytes status now =
      cache.putIn cache.entries.entries key bytes status now now :=
  rfl

/-- A call of the store, with what it takes from outside. -/
inductive Op
  | put (listing : Listing) (key bytes : Bytes) (status checked stored : Nat)
  | get (key : Bytes) (now : Nat)
  | invalidateAll

def step (cache : ResponseCache) : Op → ResponseCache
  | .put listing key bytes status checked stored =>
      cache.putIn listing key bytes status checked stored
  | .get key now => (cache.get key now).2
  | .invalidateAll => cache.invalidateAll

/-- A full cache without an expired entry refuses a new value for a key that it holds. -/
def Refuses (cache : ResponseCache) (key : Bytes) (now : Nat) : Prop :=
  key ∈ cache.entries ∧ cache.maxSize ≤ cache.entries.entries.length ∧
    ∀ e ∈ cache.entries.entries, now ≤ e.2.expiresAt

instance (cache : ResponseCache) (key : Bytes) (now : Nat) :
    Decidable (cache.Refuses key now) := by
  unfold Refuses
  infer_instance

/-- What a call puts under a key, and when, unless it is refused. -/
def putUnder (key : Bytes) (cache : ResponseCache) : Op → Option (Bytes × Nat)
  | .put _ key' bytes _ checked stored =>
      if key = key' ∧ ¬ cache.Refuses key' checked then some (bytes, stored) else none
  | _ => none

/-- What was put last under a key, and when. -/
def latest (key : Bytes) (calls : List (ResponseCache × Op)) : Option (Bytes × Nat) :=
  calls.reverse.findSome? fun call => call.1.putUnder key call.2

theorem latest_concat
    (key : Bytes) (calls : List (ResponseCache × Op)) (cache : ResponseCache) (op : Op) :
    latest key (calls ++ [(cache, op)]) = (cache.putUnder key op).or (latest key calls) := by
  unfold latest
  rw [List.reverse_concat, List.findSome?_cons]
  cases cache.putUnder key op with
  | none => rfl
  | some put => rfl

/-- The map lists its entries. -/
def Lists (cache : ResponseCache) : Op → Prop
  | .put listing _ _ _ _ _ => listing.Perm cache.entries.entries
  | _ => True

/-- What is known of a store after some calls. -/
structure Remembers (maxSize ttl : Nat) (calls : List (ResponseCache × Op))
    (cache : ResponseCache) : Prop where
  bounded : cache.entries.entries.length ≤ maxSize
  fresh : ∀ key now bytes, (cache.get key now).1 = some bytes →
    ∃ time, latest key calls = some (bytes, time) ∧ now ≤ time + ttl

/-- The invariant of the store. -/
structure Stamped (maxSize ttl : Nat) (calls : List (ResponseCache × Op))
    (cache : ResponseCache) : Prop where
  enabled : cache.enabled = true
  maxSize_eq : cache.maxSize = maxSize
  ttl_eq : cache.ttl = ttl
  bounded : cache.entries.entries.length ≤ maxSize
  stamped : ∀ key entry, cache.entries.lookup key = some entry →
    ∃ time, latest key calls = some (entry.bytes, time) ∧ entry.expiresAt = time + ttl

variable {maxSize ttl : Nat} {calls : List (ResponseCache × Op)} {cache : ResponseCache}

/-- A lookup gives an entry that has not expired. -/
theorem get_fresh
    {key bytes : Bytes} {now : Nat} (h : (cache.get key now).1 = some bytes) :
    ∃ entry, cache.entries.lookup key = some entry ∧ entry.bytes = bytes ∧
      now ≤ entry.expiresAt := by
  unfold get at h
  split at h
  · cases h
  split at h
  · cases h
  · rename_i entry hentry
    split at h
    · cases h
    · rename_i hfresh
      exact ⟨entry, hentry, Option.some.inj h, Nat.le_of_not_lt hfresh⟩

theorem Stamped.remembers
    (h : Stamped maxSize ttl calls cache) :
    Remembers maxSize ttl calls cache := by
  refine ⟨h.bounded, ?_⟩
  intro key now bytes hget
  obtain ⟨entry, hentry, rfl, hfresh⟩ := get_fresh hget
  obtain ⟨time, hlatest, hexpires⟩ := h.stamped key entry hentry
  exact ⟨time, hlatest, hexpires ▸ hfresh⟩

/-- Room is made by removing at most one entry, and there is room then. -/
theorem makeRoomIn_eq_some
    {listing : Listing} {now : Nat} {room : Table Bytes CacheEntry}
    (hlisting : listing.Perm cache.entries.entries)
    (hbounded : cache.entries.entries.length ≤ cache.maxSize)
    (h : cache.makeRoomIn listing now = some room) :
    room.entries.length < cache.maxSize ∧
      ∀ key entry, room.lookup key = some entry → cache.entries.lookup key = some entry := by
  unfold makeRoomIn at h
  split at h
  · rename_i hroom
    obtain rfl := Option.some.inj h
    exact ⟨hroom, fun _ _ hentry => hentry⟩
  split at h
  · rename_i e hfind
    obtain rfl := Option.some.inj h
    have hmem : e ∈ cache.entries.entries := hlisting.mem_iff.mp (List.mem_of_find?_eq_some hfind)
    have hkey : e.1 ∈ cache.entries := List.mem_map.mpr ⟨e, hmem, rfl⟩
    have hpos : 0 < cache.entries.entries.length := List.length_pos_of_mem hmem
    refine ⟨?_, ?_⟩
    · rw [Table.length_erase hkey]
      omega
    · intro key entry hentry
      rw [Table.lookup_erase_ite] at hentry
      split at hentry
      · cases hentry
      · exact hentry
  · cases h

/-- No room is made in a full cache without an expired entry only. -/
theorem makeRoomIn_eq_none_iff
    {listing : Listing} {now : Nat} (hlisting : listing.Perm cache.entries.entries) :
    cache.makeRoomIn listing now = none ↔
      cache.maxSize ≤ cache.entries.entries.length ∧
        ∀ e ∈ cache.entries.entries, now ≤ e.2.expiresAt := by
  have hfind : (listing.find? fun e => e.2.expiresAt < now) = none ↔
      ∀ e ∈ cache.entries.entries, now ≤ e.2.expiresAt := by
    rw [List.find?_eq_none]
    simp only [decide_eq_true_eq, Nat.not_lt, hlisting.mem_iff]
  unfold makeRoomIn
  split
  · rename_i hroom
    exact iff_of_false nofun fun h => Nat.not_lt.mpr h.1 hroom
  · rename_i hfull
    rw [and_iff_right (Nat.le_of_not_lt hfull), ← hfind]
    cases listing.find? fun e => e.2.expiresAt < now with
    | none => exact iff_of_true rfl rfl
    | some e => exact iff_of_false nofun nofun

/-- Calls that put nothing leave what was put last. -/
theorem Stamped.of_subset
    (h : Stamped maxSize ttl calls cache) {op : Op} {entries : Table Bytes CacheEntry}
    (hputs : ∀ key, (entries.lookup key).isSome = true → cache.putUnder key op = none)
    (hlength : entries.entries.length ≤ cache.entries.entries.length)
    (hsubset : ∀ key entry, entries.lookup key = some entry →
      cache.entries.lookup key = some entry) :
    Stamped maxSize ttl (calls ++ [(cache, op)]) { cache with entries := entries } := by
  refine ⟨h.enabled, h.maxSize_eq, h.ttl_eq, Nat.le_trans hlength h.bounded, ?_⟩
  intro key entry hentry
  rw [latest_concat, hputs key (Option.isSome_iff_exists.mpr ⟨entry, hentry⟩)]
  exact h.stamped key entry (hsubset key entry hentry)

theorem stamped_put
    {listing : Listing} {key bytes : Bytes} {status checked stored : Nat}
    (h : Stamped maxSize ttl calls cache) (hlisting : listing.Perm cache.entries.entries) :
    Stamped maxSize ttl (calls ++ [(cache, .put listing key bytes status checked stored)])
      (cache.putIn listing key bytes status checked stored) := by
  have henabled : ¬ (!cache.enabled) = true := by
    rw [h.enabled]
    decide
  unfold putIn
  rw [if_neg henabled]
  cases hmake : cache.makeRoomIn listing checked with
  | none =>
      -- what is dropped has no older value that could be taken for it, or is refused
      have hfull := (makeRoomIn_eq_none_iff hlisting).mp hmake
      refine h.of_subset ?_ (Nat.le_refl _) fun _ _ hentry => hentry
      intro key' hsome
      refine if_neg ?_
      rintro ⟨rfl, haccepted⟩
      exact haccepted ⟨AList.lookup_isSome.mp hsome, hfull⟩
  | some room =>
      have haccepted : ¬ cache.Refuses key checked := by
        rintro ⟨-, hfull⟩
        rw [(makeRoomIn_eq_none_iff hlisting).mpr hfull] at hmake
        cases hmake
      obtain ⟨hlength, hsubset⟩ := makeRoomIn_eq_some hlisting
        (h.maxSize_eq.symm ▸ h.bounded) hmake
      refine ⟨h.enabled, h.maxSize_eq, h.ttl_eq, ?_, ?_⟩
      · rw [h.maxSize_eq] at hlength
        exact Nat.le_trans (Table.length_insert_le _ _ _) hlength
      · intro key' entry hentry
        dsimp only at hentry
        rw [Table.lookup_insert_ite] at hentry
        rw [latest_concat, putUnder]
        split at hentry
        · rename_i heq
          obtain rfl := Option.some.inj hentry
          rw [if_pos ⟨heq, haccepted⟩, h.ttl_eq]
          exact ⟨stored, rfl, rfl⟩
        · rename_i hne
          rw [if_neg fun hkey => hne hkey.1]
          exact h.stamped key' entry (hsubset key' entry hentry)

theorem stamped_get
    {key : Bytes} {now : Nat} (h : Stamped maxSize ttl calls cache) :
    Stamped maxSize ttl (calls ++ [(cache, .get key now)]) (cache.get key now).2 := by
  have hsame : Stamped maxSize ttl (calls ++ [(cache, .get key now)]) cache :=
    h.of_subset (fun _ _ => rfl) (Nat.le_refl _) fun _ _ hentry => hentry
  unfold get
  split
  · exact hsame
  split
  · exact hsame
  · rename_i entry hentry
    split
    · have hkey : key ∈ cache.entries :=
        AList.lookup_isSome.mp (Option.isSome_iff_exists.mpr ⟨entry, hentry⟩)
      refine h.of_subset (fun _ _ => rfl) ?_ ?_
      · rw [Table.length_erase hkey]
        exact Nat.sub_le _ _
      · intro key' entry' hentry'
        rw [Table.lookup_erase_ite] at hentry'
        split at hentry'
        · cases hentry'
        · exact hentry'
    · exact hsame

/-- What one call keeps. -/
theorem stamped_step
    {op : Op} (h : Stamped maxSize ttl calls cache) (hop : Lists cache op) :
    Stamped maxSize ttl (calls ++ [(cache, op)]) (cache.step op) := by
  cases op with
  | put listing key bytes status checked stored => exact stamped_put h hop
  | get key now => exact stamped_get h
  | invalidateAll =>
      refine h.of_subset (fun _ _ => rfl) (Nat.zero_le _) ?_
      intro key entry hentry
      rw [AList.lookup_empty] at hentry
      cases hentry

theorem stamped_new
    {ttlSecs : Nat} (henabled : (new ttlSecs maxSize).enabled = true) :
    Stamped maxSize (ttlSecs * 1000000000) [] (new ttlSecs maxSize) := by
  refine ⟨henabled, rfl, rfl, Nat.zero_le _, ?_⟩
  intro key entry hentry
  rw [new, AList.lookup_empty] at hentry
  cases hentry

/--
After each call of a run the store is within its size, and every lookup gives nothing or
what was put last under its key and not refused, at most the time to live ago.
-/
theorem run_remembers
    {ttlSecs : Nat} {ops : List Op} (henabled : (new ttlSecs maxSize).enabled = true)
    (hops : Run.Steps step Lists (new ttlSecs maxSize) ops) :
    ∀ before after, ops = before ++ after →
      Remembers maxSize (ttlSecs * 1000000000)
        (Run.transitions step (new ttlSecs maxSize) before)
        (before.foldl step (new ttlSecs maxSize)) := by
  rintro before after rfl
  obtain ⟨hbefore, -⟩ := Run.steps_append_iff.mp hops
  have hstamped := Run.history_rule (P := Stamped maxSize (ttlSecs * 1000000000))
    (fun _ _ _ h hop => stamped_step h hop) (stamped_new henabled) hbefore
  exact hstamped.remembers

/-- One answer, in a cache with room for one. -/
def putOnce : List Op :=
  [.put [] (ascii "k") (ascii "old") 200 0 0]

theorem run_remembers_example :
    (new 60 1).enabled = true ∧ Run.Steps step Lists (new 60 1) putOnce ∧
      Remembers 1 (60 * 1000000000) (Run.transitions step (new 60 1) putOnce)
        (putOnce.foldl step (new 60 1)) := by
  have hops : Run.Steps step Lists (new 60 1) putOnce :=
    ⟨List.Perm.refl _, trivial⟩
  exact ⟨rfl, hops, run_remembers rfl hops putOnce [] (List.append_nil _).symm⟩

/-- Two answers under one key, in a cache with room for one. -/
def putTwice : List Op :=
  putOnce ++
    [.put [⟨ascii "k", ⟨ascii "old", 200, 60000000000⟩⟩] (ascii "k") (ascii "new") 200 1 1]

/-- The older answer is given after the newer one was put. -/
theorem stale_after_put :
    Run.Steps step Lists (new 60 1) putTwice ∧
      putTwice.getLast? = some (.put [⟨ascii "k", ⟨ascii "old", 200, 60000000000⟩⟩]
        (ascii "k") (ascii "new") 200 1 1) ∧
      ((putTwice.foldl step (new 60 1)).get (ascii "k") 2).1 = some (ascii "old") := by
  refine ⟨⟨List.Perm.refl _, ?_, trivial⟩, rfl, by decide +kernel⟩
  exact List.Perm.refl _

end ResponseCache
end Cache
end RunNginx
