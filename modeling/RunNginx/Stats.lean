import RunNginx.Lib.IpAddr
import RunNginx.Lib.Table

/-!
# Counters and the rate limiter

The request counters, and the limiter of the management API: for each client the second of
its last request and the number of its requests in that second.
-/

namespace RunNginx

/-- Number of latency classes: powers of two, in microseconds. -/
def latencyClasses : Nat := 32

/-- The latency class of a request that took this many microseconds. -/
def latencyBucket (us : Nat) : Nat :=
  if us = 0 then 0 else min (Nat.log2 us) (latencyClasses - 1)

theorem latencyBucket_lt
    (us : Nat) :
    latencyBucket us < latencyClasses := by
  unfold latencyBucket latencyClasses
  split
  · decide
  · omega

structure Stats where
  requestsTotal : Nat
  bytesSent : Nat
  bytesReceived : Nat
  /-- Requests that are being handled. -/
  active : Nat
  status2xx : Nat
  status3xx : Nat
  status4xx : Nat
  status5xx : Nat
  latencyBuckets : List Nat
  /-- There is one counter for each latency class. -/
  buckets_length : latencyBuckets.length = latencyClasses

namespace Stats

/-- Add one to the counter at an index. -/
def countAt (i : Nat) (counters : List Nat) : List Nat :=
  counters.modify i (· + 1)

def recordRequest (status bytesOut bytesIn us : Nat) (s : Stats) : Stats where
  requestsTotal := s.requestsTotal + 1
  bytesSent := s.bytesSent + bytesOut
  bytesReceived := s.bytesReceived + bytesIn
  active := s.active
  status2xx := if status / 100 = 2 then s.status2xx + 1 else s.status2xx
  status3xx := if status / 100 = 3 then s.status3xx + 1 else s.status3xx
  status4xx := if status / 100 = 4 then s.status4xx + 1 else s.status4xx
  status5xx := if status / 100 = 5 then s.status5xx + 1 else s.status5xx
  latencyBuckets := countAt (latencyBucket us) s.latencyBuckets
  buckets_length := by rw [countAt, List.length_modify, s.buckets_length]

theorem sum_countAt
    {i : Nat} {counters : List Nat} (hi : i < counters.length) :
    (countAt i counters).sum = counters.sum + 1 := by
  induction counters generalizing i with
  | nil => cases hi
  | cons c counters ih =>
      cases i with
      | zero =>
          simp only [countAt, List.modify_zero_cons, List.sum_cons]
          omega
      | succ i =>
          have := ih (Nat.lt_of_succ_lt_succ hi)
          simp only [countAt, List.modify_succ_cons, List.sum_cons] at this ⊢
          omega

/-- A recorded request is in exactly one latency class. -/
theorem sum_latencyBuckets_recordRequest
    (status bytesOut bytesIn us : Nat) (s : Stats) :
    (s.recordRequest status bytesOut bytesIn us).latencyBuckets.sum =
      s.latencyBuckets.sum + 1 := by
  refine sum_countAt ?_
  rw [s.buckets_length]
  exact latencyBucket_lt us

end Stats

structure RateLimiter where
  /-- The last second and the requests in it, for each client. -/
  windows : Table IpAddr (Nat × Nat)
  rpsLimit : Nat

namespace RateLimiter

/-- Is the request of a client allowed?  The answer comes with the limiter after it. -/
def allow (nowSec : Nat) (ip : IpAddr) (r : RateLimiter) : Bool × RateLimiter :=
  let entry := (r.windows.lookup ip).getD (nowSec, 0)
  if entry.1 ≠ nowSec then (true, { r with windows := r.windows.insert ip (nowSec, 1) })
  else
    (entry.2 + 1 ≤ r.rpsLimit, { r with windows := r.windows.insert ip (nowSec, entry.2 + 1) })

/-- The number of requests of a client that are still allowed in a second. -/
def room (nowSec : Nat) (ip : IpAddr) (r : RateLimiter) : Nat :=
  match r.windows.lookup ip with
  | none => r.rpsLimit
  | some (second, count) =>
      if second ≠ nowSec then max 1 r.rpsLimit else r.rpsLimit - count

@[simp] theorem allow_rpsLimit
    (nowSec : Nat) (ip : IpAddr) (r : RateLimiter) :
    (r.allow nowSec ip).2.rpsLimit = r.rpsLimit := by
  unfold allow
  dsimp only
  split
  · rfl
  · rfl

/-- A request is allowed exactly while there is room for one. -/
theorem allow_iff_room
    (nowSec : Nat) (ip : IpAddr) (r : RateLimiter) :
    (r.allow nowSec ip).1 = true ↔ 0 < r.room nowSec ip := by
  unfold allow room
  rcases r.windows.lookup ip with _ | ⟨second, count⟩
  · rw [Option.getD_none, if_neg (fun h => h rfl), decide_eq_true_eq]
    exact Iff.rfl
  · dsimp only [Option.getD_some]
    by_cases hsecond : second = nowSec
    · rw [if_neg (fun h => h hsecond), if_neg (fun h => h hsecond), decide_eq_true_eq]
      omega
    · rw [if_pos hsecond, if_pos hsecond]
      have hroom : 0 < max 1 r.rpsLimit := by omega
      exact iff_of_true rfl hroom

theorem room_allow
    (nowSec : Nat) (ip : IpAddr) (r : RateLimiter) :
    (r.allow nowSec ip).2.room nowSec ip = r.room nowSec ip - 1 := by
  have hinsert : ∀ count, (r.windows.insert ip (nowSec, count)).lookup ip =
      some (nowSec, count) :=
    fun count => AList.lookup_insert _
  unfold allow room
  rcases hlookup : r.windows.lookup ip with _ | ⟨second, count⟩
  · simp [hinsert]
  · by_cases hsecond : second = nowSec
    · simp [hsecond, hinsert]
      omega
    · simp [hsecond, hinsert]
      omega

end RateLimiter

end RunNginx
