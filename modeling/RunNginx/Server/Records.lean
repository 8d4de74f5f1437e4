import RunNginx.Lib.Run
import RunNginx.Server.Exits
import RunNginx.Stats

/-!
# What is recorded of a request

The scan detector hears of a request at the last exit of the dispatcher only.  Counters and
access log are kept by hand at each exit: a cache hit is counted twice, and five exits send
no log entry.
-/

namespace RunNginx
namespace Handler

open ByteString StaticFiles

namespace Effect

/-- What the scan detector records. -/
def scanned : Effect → Option (Bytes × Nat)
  | .scan path status => some (path, status)
  | _ => none

def isStats : Effect → Bool
  | .stats _ _ _ => true
  | _ => false

def isLog : Effect → Bool
  | .log _ => true
  | _ => false

/-- A call begins or ends. -/
def isMark : Effect → Bool
  | .enter | .leave => true
  | _ => false

/-- Effects on backends and their connections. -/
def isExchange : Effect → Bool
  | .net _ | .connectGroup _ | .releaseGroup _ _ | .fastcgi _ _ => true
  | _ => false

end Effect

section Exchanges

variable {env : Env} {st : ServerState} {server : ServerBlock}
variable {location : Option LocationBlock} {req : ParsedRequest}

theorem exchange_net
    (events : List Proxy.NetEvent) :
    ∀ e ∈ events.map Effect.net, e.isExchange = true := by
  intro e he
  obtain ⟨event, _, rfl⟩ := List.mem_map.mp he
  rfl

theorem groupHandler_exchanges
    (group : Bytes) :
    ∀ e ∈ (groupHandler env location group req).2, e.isExchange = true := by
  unfold groupHandler
  split
  · intro e he
    rcases List.mem_append.mp he with he | he
    · rcases List.mem_cons.mp he with rfl | he
      · rfl
      · exact exchange_net _ e he
    · rw [List.mem_singleton.mp he]
      rfl
  · intro e he
    rw [List.mem_singleton.mp he]
    rfl
  · nofun

/-- A handler does nothing but ask its backend. -/
theorem handlerStage_exchanges
    {resp : StaticResponse} {effects : List Effect}
    (h : handlerStage env st server location req = .ok (resp, effects)) :
    ∀ e ∈ effects, e.isExchange = true := by
  cases handlerStage_ok_iff.mp h with
  | static => nofun
  | proxy => exact exchange_net _
  | upstreamGroup => exact groupHandler_exchanges _
  | fastCgi =>
      intro e he
      rw [List.mem_singleton.mp he]
      rfl

variable {effects : List Effect}

theorem no_scan_of_exchange
    (h : ∀ e ∈ effects, e.isExchange = true) :
    effects.filterMap Effect.scanned = [] := by
  refine List.filterMap_eq_nil_iff.mpr ?_
  intro e he
  have hexchange := h e he
  cases e with
  | scan path status => cases hexchange
  | _ => rfl

theorem no_stats_of_exchange
    (h : ∀ e ∈ effects, e.isExchange = true) :
    effects.countP Effect.isStats = 0 := by
  refine List.countP_eq_zero.mpr ?_
  intro e he hstats
  have hexchange := h e he
  cases e with
  | stats status sent received => cases hexchange
  | _ => cases hstats

theorem no_log_of_exchange
    (h : ∀ e ∈ effects, e.isExchange = true) :
    effects.countP Effect.isLog = 0 := by
  refine List.countP_eq_zero.mpr ?_
  intro e he hlog
  have hexchange := h e he
  cases e with
  | log entry => cases hexchange
  | _ => cases hlog

theorem no_mark_of_exchange
    (h : ∀ e ∈ effects, e.isExchange = true) :
    ∀ e ∈ effects, e.isMark = false := by
  intro e he
  have hexchange := h e he
  cases e with
  | enter => cases hexchange
  | leave => cases hexchange
  | _ => rfl

end Exchanges

section Scans

/-- The path of the request line. -/
def requestPath (raw : Bytes) : Option Bytes :=
  match Simd.parseRequestLine raw with
  | .error _ => none
  | .ok (line, _) => some (ParsedRequest.splitUri (Utf8.fromUtf8Lossy line.uri)).1

/-- The scan detector hears of the request once, with its path and the status it gets. -/
def ScannedOnce (raw : Bytes) (o : Outcome) : Prop :=
  ∃ path, o.effects.filterMap Effect.scanned = [(path, o.result.status)] ∧
    ∀ p ∈ requestPath raw, path = p

variable {ctx : Context} {env : Env} {st : ServerState} {raw : Bytes} {req : ParsedRequest}

theorem requestPath_of_parses
    (h : parseRequest raw = .ok req) :
    requestPath raw = some req.path := by
  unfold parseRequest at h
  unfold requestPath
  cases hline : Simd.parseRequestLine raw with
  | error e =>
      rw [hline] at h
      cases h
  | ok parsed =>
      rw [hline] at h
      dsimp only at h ⊢
      split at h
      · cases h
      split at h
      · cases h
      · rename_i received hreceived
        rw [← Except.ok.inj h]
        unfold Request.readBehindLine at hreceived
        split at hreceived
        · cases hreceived
        · rw [← Except.ok.inj hreceived]
          rfl

variable (ctx env st raw) in
/--
The request gets to a handler that answers it, and the rewrite rules leave its path as it
was received.
-/
def AnsweredInPlace : Prop :=
  ∃ req server location routed, Admitted ctx env st raw req server location routed ∧
    (∀ rd, location.map LocationBlock.handler ≠ some (.return rd)) ∧
    (∀ pc, location.map LocationBlock.handler = some (.proxy pc) →
      isWsUpgrade routed.headers = false) ∧
    routed.path = req.path

/-- No exit but the last one tells the scan detector. -/
theorem scanned_of_ends
    {o : Outcome} (h : Ends ctx env st raw o) (hscan : o.effects.filterMap Effect.scanned ≠ []) :
    ∃ req server location routed resp effects,
      Admitted ctx env st raw req server location routed ∧
        handlerStage env (afterLookup env st req) server location routed = .ok (resp, effects) ∧
        o = finish ctx env (afterLookup env st req) server location routed resp effects := by
  cases h with
  | finished hreq h => exact ⟨_, _, _, _, _, _, hreq, h, rfl⟩
  | upgraded hreq hproxy hws h =>
      refine absurd ?_ hscan
      rw [List.filterMap_append, no_scan_of_exchange (exchange_net _)]
      rfl
  | upgradeFailed hreq hproxy hws h => exact absurd (no_scan_of_exchange (exchange_net _)) hscan
  | _ => exact absurd rfl hscan

theorem scanned_finish
    {server : ServerBlock} {location : Option LocationBlock} {routed : ParsedRequest}
    {resp : StaticResponse} {effects : List Effect}
    (h : handlerStage env st server location routed = .ok (resp, effects)) :
    (finish ctx env st server location routed resp effects).effects.filterMap Effect.scanned =
      [(routed.path, resp.status)] := by
  unfold finish
  rw [List.filterMap_append, no_scan_of_exchange (handlerStage_exchanges h)]
  rfl

/--
The scan detector hears of a request exactly if a handler answers it under the path it was
received with.
-/
theorem scannedOnce_iff
    (ctx : Context) (env : Env) (st : ServerState) (raw : Bytes) :
    ScannedOnce raw (dispatch ctx env st raw) ↔ AnsweredInPlace ctx env st raw := by
  constructor
  · rintro ⟨path, hscan, hpath⟩
    obtain ⟨req, server, location, routed, resp, effects, hreq, hhandler, heq⟩ :=
      scanned_of_ends (ends_dispatch ctx env st raw) (by rw [hscan]; exact List.cons_ne_nil _ _)
    obtain ⟨hreturn, hws⟩ := of_handlerStage_ok hhandler
    refine ⟨req, server, location, routed, hreq, hreturn, hws, ?_⟩
    rw [heq, scanned_finish hhandler] at hscan
    rw [(Prod.mk.inj (List.singleton_inj.mp hscan)).1]
    exact hpath _ (requestPath_of_parses hreq.proceeds.parses)
  · rintro ⟨req, server, location, routed, hreq, hreturn, hws, hpath⟩
    obtain ⟨resp, effects, hhandler⟩ :=
      handlerStage_ok env (afterLookup env st req) hreturn hws
    have heq := (Ends.finished hreq hhandler).dispatch_eq
    refine ⟨req.path, ?_, ?_⟩
    · rw [heq, scanned_finish hhandler, hpath]
      rfl
    · rw [requestPath_of_parses hreq.proceeds.parses]
      rintro p ⟨⟩
      rfl

/-- A location that asks for credentials. -/
def guardedLocation : LocationBlock :=
  { proxyLocation internalUpstream with
    authBasic := some ⟨ascii "area", ascii "/etc/users"⟩ }

/-- The scan detector does not hear of a request that is turned away for its credentials. -/
theorem unauthorized_not_scanned :
    let raw := requestOf ["GET / HTTP/1.1", "Host: a"]
    let o := dispatch (contextOf (serverWith guardedLocation)) (workingEnv [])
      (stateWithCache 0 0) raw
    (workingEnv []).scanBlocked = false ∧ o.result.status = 401 ∧ ¬ ScannedOnce raw o := by
  intro raw o
  have hscan : o.effects.filterMap Effect.scanned = [] := by decide
  refine ⟨rfl, by decide, ?_⟩
  rintro ⟨path, hpath, -⟩
  rw [hscan] at hpath
  cases hpath

end Scans

section Counts

/-- One call of the handler. -/
structure Call where
  env : Env
  raw : Bytes
  /-- The time it took, in microseconds. -/
  elapsed : Nat

/-- The server with its counters and what was sent to its access log. -/
structure Recorder where
  state : ServerState
  stats : Stats
  /-- There is an access log. -/
  logs : Bool
  entries : List LogEntry

namespace Recorder

/-- Record one effect of a call that has taken this long. -/
def apply (elapsed : Nat) (r : Recorder) : Effect → Recorder
  | .enter => { r with stats := { r.stats with active := r.stats.active + 1 } }
  | .leave => { r with stats := { r.stats with active := r.stats.active - 1 } }
  | .stats status sent received =>
      { r with stats := r.stats.recordRequest status sent received elapsed }
  | .log entry => { r with entries := if r.logs then r.entries ++ [entry] else r.entries }
  | _ => r

/--
Handle one request.  A cache hit is counted without a duration before the call ends; the
last effect counts the call itself.
-/
def serve (ctx : Context) (r : Recorder) (call : Call) : Recorder :=
  let o := handle ctx call.env r.state call.raw
  o.effects.getLast?.toList.foldl (apply call.elapsed)
    (o.effects.dropLast.foldl (apply 0) { r with state := o.state })

/-- Handle requests one after the other. -/
def run (ctx : Context) (r : Recorder) (calls : List Call) : Recorder :=
  calls.foldl (serve ctx) r

/-- One request, one count and one log line. -/
structure CountsEach (ctx : Context) (r : Recorder) (calls : List Call) : Prop where
  requests : (r.run ctx calls).stats.requestsTotal = r.stats.requestsTotal + calls.length
  latency :
    (r.run ctx calls).stats.latencyBuckets.sum = r.stats.latencyBuckets.sum + calls.length
  active : (r.run ctx calls).stats.active = r.stats.active
  entries : r.logs = true → (r.run ctx calls).entries.length = r.entries.length + calls.length

end Recorder

section Exits

variable (ctx : Context) (env : Env) (st : ServerState) (raw : Bytes)

/-- The request is answered from the cache. -/
def HitsCache : Prop :=
  ∃ req bytes, Received env raw req ∧ cachedAnswer env st req = some bytes

/-- Requests that are answered without a log entry. -/
inductive Unlogged : Prop
  | blocked
      (h : env.scanBlocked = true)
  | badRequest {reason : Bytes}
      (hfree : env.scanBlocked = false) (h : parseRequest raw = .error reason)
  | cacheHit
      (h : HitsCache env st raw)
  | challenge {req : ParsedRequest} {body : Bytes}
      (hreq : Missed env st raw req) (h : challengeAnswer env req = some body)
  | upgradeFailed {req routed : ParsedRequest} {server : ServerBlock}
      {location : Option LocationBlock} {pc : ProxyConfig} {reason : Bytes}
      (hreq : Admitted ctx env st raw req server location routed)
      (hproxy : location.map LocationBlock.handler = some (.proxy pc))
      (hws : isWsUpgrade routed.headers = true)
      (h : (WebSocket.upgradeToWebsocket (Proxy.upstreamAddr pc) routed.method routed.path
        routed.headers env.exchange).1 = .error reason)

/-- Exits that send no log entry. -/
def Exit.isSilent : Exit → Bool
  | .blocked | .badRequest | .cacheHit | .challenge | .upgradeFailed => true
  | _ => false

variable {ctx env st raw}

theorem exit_cacheHit_iff :
    (dispatch ctx env st raw).exit = .cacheHit ↔ HitsCache env st raw := by
  constructor
  · intro h
    have hends := ends_dispatch ctx env st raw
    generalize dispatch ctx env st raw = o at h hends
    cases hends with
    | cacheHit hreq hcache => exact ⟨_, _, hreq, hcache⟩
    | _ => cases h
  · rintro ⟨req, bytes, hreq, h⟩
    have hends : Ends ctx env st raw _ := .cacheHit hreq h
    rw [hends.dispatch_eq]

theorem exit_silent_iff :
    (dispatch ctx env st raw).exit.isSilent = true ↔ Unlogged ctx env st raw := by
  constructor
  · intro h
    have hends := ends_dispatch ctx env st raw
    generalize dispatch ctx env st raw = o at h hends
    cases hends with
    | blocked hblocked => exact .blocked hblocked
    | badRequest hfree hbad => exact .badRequest hfree hbad
    | cacheHit hreq hcache => exact .cacheHit ⟨_, _, hreq, hcache⟩
    | challenge hreq hchallenge => exact .challenge hreq hchallenge
    | upgradeFailed hreq hproxy hws hfailed =>
        exact .upgradeFailed hreq hproxy hws (congrArg Prod.fst hfailed)
    | _ => cases h
  · intro h
    cases h with
    | blocked h =>
        rw [(Ends.blocked h).dispatch_eq]
        rfl
    | badRequest hfree h =>
        rw [(Ends.badRequest hfree h).dispatch_eq]
        rfl
    | cacheHit h =>
        rw [exit_cacheHit_iff.mpr h]
        rfl
    | challenge hreq h =>
        rw [(Ends.challenge hreq h).dispatch_eq]
        rfl
    | @upgradeFailed req routed server location pc reason hreq hproxy hws h =>
        have hends : Ends ctx env st raw _ :=
          .upgradeFailed hreq hproxy hws (Prod.ext h rfl)
        rw [hends.dispatch_eq]
        rfl

/-- What a dispatch counts and logs, by its exit. -/
theorem counts_of_ends
    {o : Outcome} (h : Ends ctx env st raw o) :
    o.effects.countP Effect.isStats = (if o.exit = .cacheHit then 1 else 0) ∧
      o.effects.countP Effect.isLog = (if o.exit.isSilent then 0 else 1) ∧
      ∀ e ∈ o.effects, e.isMark = false := by
  cases h with
  | upgraded hreq hproxy hws h =>
      rw [List.countP_append, List.countP_append, no_stats_of_exchange (exchange_net _),
        no_log_of_exchange (exchange_net _)]
      refine ⟨rfl, rfl, ?_⟩
      intro e he
      rcases List.mem_append.mp he with he | he
      · exact no_mark_of_exchange (exchange_net _) e he
      · rw [List.mem_singleton.mp he]
        rfl
  | upgradeFailed hreq hproxy hws h =>
      exact ⟨no_stats_of_exchange (exchange_net _), no_log_of_exchange (exchange_net _),
        no_mark_of_exchange (exchange_net _)⟩
  | finished hreq h =>
      unfold finish
      rw [List.countP_append, List.countP_append,
        no_stats_of_exchange (handlerStage_exchanges h),
        no_log_of_exchange (handlerStage_exchanges h)]
      refine ⟨rfl, rfl, ?_⟩
      intro e he
      rcases List.mem_append.mp he with he | he
      · exact no_mark_of_exchange (handlerStage_exchanges h) e he
      · rcases List.mem_cons.mp he with rfl | he
        · rfl
        · rw [List.mem_singleton.mp he]
          rfl
  | blocked | badRequest | challenge => exact ⟨rfl, rfl, nofun⟩
  | _ =>
      refine ⟨rfl, rfl, ?_⟩
      intro e he
      rw [List.mem_singleton.mp he]
      rfl

end Exits

namespace Recorder

variable {ctx : Context} {r r' r'' : Recorder} {counted logged counted' logged' : Nat}

/-- From one state to another this much is counted and logged. -/
structure Adds (counted logged : Nat) (r r' : Recorder) : Prop where
  logs : r'.logs = r.logs
  requests : r'.stats.requestsTotal = r.stats.requestsTotal + counted
  latency : r'.stats.latencyBuckets.sum = r.stats.latencyBuckets.sum + counted
  active : r'.stats.active = r.stats.active
  entries : r.logs = true → r'.entries.length = r.entries.length + logged

theorem Adds.refl (r : Recorder) : Adds 0 0 r r :=
  ⟨rfl, rfl, rfl, rfl, fun _ => rfl⟩

theorem Adds.trans
    (h : Adds counted logged r r') (h' : Adds counted' logged' r' r'') :
    Adds (counted + counted') (logged + logged') r r'' where
  logs := h'.logs.trans h.logs
  requests := by rw [h'.requests, h.requests, Nat.add_assoc]
  latency := by rw [h'.latency, h.latency, Nat.add_assoc]
  active := h'.active.trans h.active
  entries := by
    intro hlogs
    rw [h'.entries (h.logs.trans hlogs), h.entries hlogs, Nat.add_assoc]

theorem apply_adds
    (elapsed : Nat) (r : Recorder) {e : Effect} (h : e.isMark = false) :
    Adds (if e.isStats then 1 else 0) (if e.isLog then 1 else 0) r (r.apply elapsed e) := by
  cases e with
  | enter => cases h
  | leave => cases h
  | stats status sent received =>
      exact ⟨rfl, rfl, Stats.sum_latencyBuckets_recordRequest _ _ _ _ _, rfl, fun _ => rfl⟩
  | log entry =>
      refine ⟨rfl, rfl, rfl, rfl, ?_⟩
      intro hlogs
      change (if r.logs then r.entries ++ [entry] else r.entries).length = _
      rw [if_pos hlogs, List.length_append]
      rfl
  | _ => exact .refl r

theorem effects_add
    (elapsed : Nat) (r : Recorder) {effects : List Effect}
    (h : ∀ e ∈ effects, e.isMark = false) :
    Adds (effects.countP Effect.isStats) (effects.countP Effect.isLog) r
      (effects.foldl (apply elapsed) r) := by
  induction effects generalizing r with
  | nil => exact .refl r
  | cons e effects ih =>
      rw [List.countP_cons, List.countP_cons, List.foldl_cons,
        Nat.add_comm (List.countP Effect.isStats _), Nat.add_comm (List.countP Effect.isLog _)]
      exact (apply_adds elapsed r (h e List.mem_cons_self)).trans
        (ih _ fun e he => h e (List.mem_cons_of_mem _ he))

/-- What one call counts and logs, by its exit. -/
theorem serve_adds
    (ctx : Context) (r : Recorder) (call : Call) :
    let exit := (dispatch ctx call.env r.state call.raw).exit
    Adds (1 + if exit = .cacheHit then 1 else 0) (if exit.isSilent then 0 else 1) r
      (serve ctx r call) := by
  intro exit
  obtain ⟨hstats, hlog, hmarks⟩ := counts_of_ends (ends_dispatch ctx call.env r.state call.raw)
  unfold serve handle
  dsimp only
  generalize hentered :
    ({ r with state := (dispatch ctx call.env r.state call.raw).state } : Recorder).apply 0
      .enter = entered
  have hadds := effects_add 0 entered hmarks
  rw [hstats, hlog] at hadds
  rw [List.getLast?_append_of_ne_nil _ (List.cons_ne_nil _ _), List.dropLast_append_of_ne_nil
    (List.cons_ne_nil _ _), List.foldl_append, List.foldl_cons, hentered]
  generalize (dispatch ctx call.env r.state call.raw).effects.foldl (apply 0) entered = done at *
  subst hentered
  exact {
    logs := hadds.logs
    requests := by
      have hdone := hadds.requests
      change done.stats.requestsTotal =
        r.stats.requestsTotal + (if exit = .cacheHit then 1 else 0) at hdone
      change done.stats.requestsTotal + 1 = _
      rw [hdone]
      omega
    latency := by
      have hdone := hadds.latency
      change done.stats.latencyBuckets.sum =
        r.stats.latencyBuckets.sum + (if exit = .cacheHit then 1 else 0) at hdone
      change (Stats.recordRequest _ _ _ _ _).latencyBuckets.sum = _
      rw [Stats.sum_latencyBuckets_recordRequest]
      change done.stats.latencyBuckets.sum + 1 = _
      rw [hdone]
      omega
    active := by
      have hdone := hadds.active
      change done.stats.active = r.stats.active + 1 at hdone
      change done.stats.active - 1 = _
      omega
    entries := hadds.entries }

/-- What a run counts and logs: too much for each cache hit, too little for silent exits. -/
theorem run_adds
    (ctx : Context) (r : Recorder) (calls : List Call) :
    ∃ hits silent, Adds (calls.length + hits) (calls.length - silent) r (r.run ctx calls) ∧
      silent ≤ calls.length ∧
      (hits = 0 ↔ Run.Steps (serve ctx)
        (fun r call => ¬ HitsCache call.env r.state call.raw) r calls) ∧
      (silent = 0 ↔ Run.Steps (serve ctx)
        (fun r call => ¬ Unlogged ctx call.env r.state call.raw) r calls) := by
  induction calls generalizing r with
  | nil => exact ⟨0, 0, .refl r, Nat.le_refl 0, iff_of_true rfl trivial, iff_of_true rfl trivial⟩
  | cons call calls ih =>
      obtain ⟨hits, silent, hadds, hle, hhits, hsilent⟩ := ih (serve ctx r call)
      have hserve := serve_adds ctx r call
      have hhit := @exit_cacheHit_iff ctx call.env r.state call.raw
      have hquiet := @exit_silent_iff ctx call.env r.state call.raw
      generalize (dispatch ctx call.env r.state call.raw).exit = exit at hserve hhit hquiet
      dsimp only at hserve
      refine ⟨(if exit = .cacheHit then 1 else 0) + hits,
        (if exit.isSilent then 1 else 0) + silent, ?_, ?_, ?_, ?_⟩
      · have hcounted : calls.length + 1 + ((if exit = .cacheHit then 1 else 0) + hits) =
            1 + (if exit = .cacheHit then 1 else 0) + (calls.length + hits) := by
          omega
        have hlogged : calls.length + 1 - ((if exit.isSilent then 1 else 0) + silent) =
            (if exit.isSilent then 0 else 1) + (calls.length - silent) := by
          split
          · omega
          · omega
        rw [List.length_cons, hcounted, hlogged]
        exact hserve.trans hadds
      · rw [List.length_cons]
        split
        · omega
        · omega
      · change _ ↔ ¬ HitsCache _ _ _ ∧ _
        rw [← hhits, ← hhit]
        split
        · simp_all
        · simp_all
      · change _ ↔ ¬ Unlogged _ _ _ _ ∧ _
        rw [← hsilent, ← hquiet]
        split
        · simp_all
        · simp_all

/--
A run counts and logs every call once exactly if no call is answered from the cache and,
where there is an access log, none takes an exit without a log entry.
-/
theorem countsEach_iff
    (ctx : Context) (r : Recorder) (calls : List Call) :
    CountsEach ctx r calls ↔
      Run.Steps (serve ctx) (fun r call => ¬ HitsCache call.env r.state call.raw) r calls ∧
        (r.logs = true → Run.Steps (serve ctx)
          (fun r call => ¬ Unlogged ctx call.env r.state call.raw) r calls) := by
  obtain ⟨hits, silent, hadds, hle, hhits, hsilent⟩ := run_adds ctx r calls
  rw [← hhits, ← hsilent]
  constructor
  · intro h
    have hrequests := h.requests
    rw [hadds.requests] at hrequests
    refine ⟨by omega, ?_⟩
    intro hlogs
    have hentries := h.entries hlogs
    rw [hadds.entries hlogs] at hentries
    omega
  · rintro ⟨rfl, hlogged⟩
    refine ⟨hadds.requests, hadds.latency, hadds.active, ?_⟩
    intro hlogs
    rw [hadds.entries hlogs, hlogged hlogs, Nat.sub_zero]

/-- A server with an access log, whose cache holds one answer. -/
def warm : Recorder where
  state :=
    { stateWithCache 60 10 with
      cache := (Cache.ResponseCache.new 60 10).put
        (Cache.ResponseCache.cacheKey (ascii "a") (ascii "GET") (ascii "/"))
        (Response.formatResponse 200 [] true []) 200 0 }
  stats := ⟨0, 0, 0, 0, 0, 0, 0, 0, List.replicate latencyClasses 0, List.length_replicate⟩
  logs := true
  entries := []

/-- A request the cache answers. -/
def cachedCall : Call :=
  ⟨workingEnv [], requestOf ["GET / HTTP/1.1", "Host: a"], 5⟩

/-- One request that the cache answers is counted twice and not logged. -/
theorem cacheHit_counted_twice :
    let r := warm.run (contextOf (serverAt (ascii "/srv"))) [cachedCall]
    r.stats.requestsTotal = 2 ∧ r.entries.length = 0 ∧
      ¬ CountsEach (contextOf (serverAt (ascii "/srv"))) warm [cachedCall] := by
  have htotal : (warm.run (contextOf (serverAt (ascii "/srv"))) [cachedCall]).stats.requestsTotal =
      2 := by
    decide
  refine ⟨htotal, by decide, ?_⟩
  intro h
  exact absurd (htotal.symm.trans h.requests) (by decide)

end Recorder

end Counts

end Handler
end RunNginx
