import RunNginx.Lib.Table
import RunNginx.Server.Response

/-!
# Response cache

Serialized responses under a text key, each until its expiry.  Times are readings of
a clock that does not go back.
-/

namespace RunNginx
namespace Cache

open ByteString

structure CacheEntry where
  bytes : Bytes
  status : Nat
  expiresAt : Nat
deriving DecidableEq, Repr

structure ResponseCache where
  entries : Table Bytes CacheEntry
  ttl : Nat
  maxSize : Nat
  enabled : Bool

namespace ResponseCache

def new (ttlSecs maxSize : Nat) : ResponseCache where
  entries := ∅
  ttl := ttlSecs * 1000000000
  maxSize := maxSize
  enabled := decide (0 < ttlSecs ∧ 0 < maxSize)

def cacheKey (host method uri : Bytes) : Bytes :=
  host ++ 124 :: (method ++ 124 :: uri)

/-- Look an entry up; one that has expired is removed. -/
def get (cache : ResponseCache) (key : Bytes) (now : Nat) : Option Bytes × ResponseCache :=
  if !cache.enabled then (none, cache)
  else match cache.entries.lookup key with
  | none => (none, cache)
  | some entry =>
      if entry.expiresAt < now then (none, { cache with entries := cache.entries.erase key })
      else (some entry.bytes, cache)

/--
Make room for one entry: a cache that is full gives up an expired entry, or refuses.
-/
def makeRoom (cache : ResponseCache) (now : Nat) : Option (Table Bytes CacheEntry) :=
  if cache.entries.entries.length < cache.maxSize then some cache.entries
  else match cache.entries.entries.find? fun e => e.2.expiresAt < now with
  | some e => some (cache.entries.erase e.1)
  | none => none

/-- Store a response. -/
def put (cache : ResponseCache) (key bytes : Bytes) (status now : Nat) : ResponseCache :=
  if !cache.enabled then cache
  else match cache.makeRoom now with
  | none => cache
  | some entries =>
      { cache with entries := entries.insert key ⟨bytes, status, now + cache.ttl⟩ }

def invalidateAll (cache : ResponseCache) : ResponseCache :=
  { cache with entries := ∅ }

/-- What a lookup gives, it gives as it was stored. -/
theorem get_eq_some
    {cache : ResponseCache} {key bytes : Bytes} {now : Nat}
    (h : (cache.get key now).1 = some bytes) :
    ∃ entry, cache.entries.lookup key = some entry ∧ entry.bytes = bytes ∧
      (cache.get key now).2 = cache := by
  unfold get at h ⊢
  split at h
  · cases h
  · rename_i henabled
    rw [if_neg henabled]
    cases hentry : cache.entries.lookup key with
    | none => simp [hentry] at h
    | some entry =>
        simp only [hentry] at h ⊢
        split at h
        · cases h
        · rename_i hfresh
          rw [if_neg hfresh]
          exact ⟨entry, rfl, Option.some.inj h, rfl⟩

end ResponseCache

/-- Statuses of responses that may be stored. -/
def cacheableStatuses : List Nat := [200, 301, 302, 304, 404]

/-- Methods whose responses are stored and looked up. -/
def isCachedMethod (method : Bytes) : Bool :=
  method == ascii "GET" || method == ascii "HEAD"

/-- May the response be stored? -/
def isCacheable (method : Bytes) (status : Nat) (responseHeaders : Headers) : Bool :=
  isCachedMethod method && cacheableStatuses.contains status &&
    responseHeaders.all fun h =>
      let v := toAsciiLower h.2
      !(eqIgnoreCase h.1 (ascii "cache-control") &&
          (contains (ascii "no-store") v || contains (ascii "no-cache") v ||
            contains (ascii "private") v)) &&
        !eqIgnoreCase h.1 (ascii "set-cookie")

/-- Does the request ask for a fresh response? -/
def requestBypassesCache (requestHeaders : Headers) : Bool :=
  requestHeaders.any fun h =>
    let v := toAsciiLower h.2
    (eqIgnoreCase h.1 (ascii "cache-control") &&
        (contains (ascii "no-cache") v || contains (ascii "no-store") v)) ||
      (eqIgnoreCase h.1 (ascii "pragma") && eqIgnoreCase h.2 (ascii "no-cache"))

end Cache
end RunNginx
