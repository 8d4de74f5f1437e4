import RunNginx.Api.Reports
import RunNginx.LimitReq
import RunNginx.ScanDetector
import RunNginx.Server.LogWriter
import RunNginx.Server.Records

/-!
# Requests at the same time

While requests are handled they share the scan detector, the zones of the request limits and
the access log.  A run takes their steps on these, and those of the writer of the log, in any
order; whatever else a request meets may be anything.

`passed_le`: however the requests of a client are spread over the server blocks, its rate limits
hold.  `blocked_iff`: what a client must have done to be turned away.  `logged_run` and
`readLogs_run`: what the log tells of the requests.
-/

namespace RunNginx
namespace System

open ByteString Handler EarlyReturn LimitReq LimitReqZone ScanDetector

/-- A request, with all that it meets on its way. -/
structure Visit where
  env : Env
  st : ServerState
  raw : Bytes

def Visit.ip (v : Visit) : IpAddr :=
  v.env.peer.ip

/-- What all requests share. -/
structure Shared where
  tracker : Tracker
  zones : Table Bytes LimitReqZone
  logger : AccessLog.Logger

/-- A step of a request, of the detector or of the writer of the log. -/
inductive Step
  /-- The detector is asked about the client. -/
  | arrive (v : Visit) (time : Nat)
  /-- The request has read the clock, and gets hold of the bucket of its client. -/
  | limit (v : Visit) (now : Rat)
  /-- The request is over: the detector and the log hear of it. -/
  | leave (v : Visit) (now time : Nat)
  | gc (time : Nat)
  | openFile (opened : Bool)
  | receive (ts : Nat) (succeeds : Bool)

/-- Put a new zone under its name. -/
def register (zones : Table Bytes LimitReqZone) (d : LimitReqZoneDef) : Table Bytes LimitReqZone :=
  zones.insert d.name (.new d.name d.rateRps)

/-- The shared state before the first request. -/
def Shared.start (http : HttpBlock) : Shared where
  tracker := ∅
  zones := http.limitReqZones.foldl register ∅
  logger := .newWithRing http.accessLog .new

section Steps

variable {F : Type} (ops : FloatOps F) (cfg : ScanConfig F) (ctx : Context)

def Visit.outcome (v : Visit) : Handler.Outcome :=
  dispatch ctx v.env v.st v.raw

/-- The directive that limits requests to a location, or to its server. -/
def limitFor (server : ServerBlock) (location : Option LocationBlock) : Option LimitReqRef :=
  (location.bind LocationBlock.limitReq).or server.limitReq

/-- The directive by which a request is judged, if it gets that far. -/
def limitAsked (v : Visit) : Option LimitReqRef :=
  let asked : Stage (Option LimitReqRef) := do
    let (st, req) ← preRoute ctx v.env v.st v.raw
    let (server, location, req) ← route ctx v.env st req
    authStage v.env st server location req
    return limitFor server location
  asked.toOption.join

/-- The call of a request on a bucket of this zone. -/
def zoneCall (name : Bytes) : Step → Option LimitReq.Call
  | .limit v now =>
      ((limitAsked ctx v).filter fun limit => limit.zone = name).map fun limit =>
        ⟨v.ip, limit.burst, now⟩
  | _ => none

/-- The zones after a request got hold of a bucket. -/
def limited (v : Visit) (now : Rat) (zones : Table Bytes LimitReqZone) :
    Table Bytes LimitReqZone :=
  match limitAsked ctx v with
  | some limit =>
      match zones.lookup limit.zone with
      | some z => zones.insert limit.zone (z.step ⟨v.ip, limit.burst, now⟩)
      | none => zones
  | none => zones

/-- The detector's events in a step. -/
def scanEvents : Step → List ScanDetector.Event
  | .leave v now time =>
      ((v.outcome ctx).effects.filterMap Effect.scanned).map fun x =>
        .record ⟨v.ip, x.1, x.2, now, time⟩
  | .gc time => [.gc time]
  | _ => []

/-- The entry of an effect. -/
def entryOf : Effect → Option LogEntry
  | .log entry => some entry
  | _ => none

/-- The log's events in a step. -/
def logEvents : Step → List AccessLog.Event
  | .leave v _ _ => ((v.outcome ctx).effects.filterMap entryOf).map .log
  | .openFile opened => [.openFile opened]
  | .receive ts succeeds => [.receive ts succeeds]
  | _ => []

def step (s : Shared) (e : Step) : Shared where
  tracker := (scanEvents ctx e).foldl (ScanDetector.step ops cfg) s.tracker
  zones := match e with
    | .limit v now => limited ctx v now s.zones
    | _ => s.zones
  logger := (logEvents ctx e).foldl AccessLog.step s.logger

/-- What a request was told in a step is what the shared state says. -/
def Agrees (s : Shared) : Step → Prop
  | .arrive v time => v.env.scanBlocked = isBlocked cfg v.ip time s.tracker
  | .limit v now => ∀ limit ∈ limitAsked ctx v, v.env.limitAllows limit.zone limit.burst =
      (s.zones.lookup limit.zone).map fun z => (z.allow ⟨v.ip, limit.burst, now⟩).1
  | _ => True

end Steps

section Limits

variable {F : Type} {ops : FloatOps F} {cfg : ScanConfig F} {ctx : Context}
variable {v : Visit} {limit : LimitReqRef}

/-- A request that is judged has passed routing and credentials. -/
theorem limitAsked_eq_some
    (h : limitAsked ctx v = some limit) :
    ∃ st req server location routed, preRoute ctx v.env v.st v.raw = .ok (st, req) ∧
      route ctx v.env st req = .ok (server, location, routed) ∧
      authStage v.env st server location routed = .ok () ∧
      limitFor server location = some limit := by
  unfold limitAsked at h
  have hasked := toOption_eq_some_iff.mp (Option.join_eq_some_iff.mp h)
  obtain ⟨⟨st, req⟩, hpre, hasked⟩ := bind_eq_ok_iff.mp hasked
  obtain ⟨⟨server, location, routed⟩, hroute, hasked⟩ := bind_eq_ok_iff.mp hasked
  obtain ⟨_, hauth, hasked⟩ := bind_eq_ok_iff.mp hasked
  exact ⟨st, req, server, location, routed, hpre, hroute, hauth, Except.ok.inj hasked⟩

/-- Only its rate limit turns a request away with that exit. -/
theorem exit_limited_iff
    (h : limitAsked ctx v = some limit) :
    (v.outcome ctx).exit = .limited ↔
      v.env.limitAllows limit.zone limit.burst = some false := by
  obtain ⟨st, req, server, location, routed, hpre, hroute, hauth, hlimit⟩ := limitAsked_eq_some h
  have hover : overLimit v.env server location = true ↔
      v.env.limitAllows limit.zone limit.burst = some false := by
    change (limitFor server location).any _ = true ↔ _
    rw [hlimit, Option.any_some, beq_iff_eq]
  rw [← hover]
  constructor
  · intro hexit
    have hends := ends_dispatch ctx v.env v.st v.raw
    unfold Visit.outcome at hexit
    generalize dispatch ctx v.env v.st v.raw = o at hexit hends
    cases hends with
    | limited hreq hlimited =>
        have hsame := hpre.symm.trans hreq.toRoutes.proceeds.preRoute_eq
        obtain ⟨rfl, rfl⟩ := Prod.mk.inj (Except.ok.inj hsame)
        have hsame := hroute.symm.trans (hreq.toRoutes.route_eq _)
        obtain ⟨rfl, hrest⟩ := Prod.mk.inj (Except.ok.inj hsame)
        obtain ⟨rfl, rfl⟩ := Prod.mk.inj hrest
        exact hlimited
    | _ => cases hexit
  · intro hlimited
    have hgates : gates ctx v.env st server location routed =
        .error (logged v.env st .limited routed limitedResult) := by
      unfold gates
      rw [hauth, limitStage_eq, hlimited]
      rfl
    have hdispatch : dispatch ctx v.env v.st v.raw =
        logged v.env st .limited routed limitedResult := by
      unfold dispatch stages
      rw [hpre]
      simp only [bind, Except.bind, hroute, hgates]
    rw [Visit.outcome, hdispatch]
    rfl

/-- The directives that limit requests to a server or to one of its locations. -/
def limitRefs (http : HttpBlock) : List LimitReqRef :=
  http.servers.flatMap fun server =>
    server.limitReq.toList ++ server.locations.flatMap fun loc => loc.limitReq.toList

theorem limitAsked_mem
    (h : limitAsked ctx v = some limit) :
    limit ∈ limitRefs ctx.http := by
  obtain ⟨st, req, server, location, routed, -, hroute, -, hlimit⟩ := limitAsked_eq_some h
  obtain ⟨rfl, rewritten, -, hlocation, -⟩ := route_ok hroute
  refine List.mem_flatMap.mpr ⟨_, serverFor_mem ctx req, List.mem_append.mpr ?_⟩
  unfold limitFor at hlimit
  rcases Option.or_eq_some_iff.mp hlimit with hloc | ⟨-, hserver⟩
  · obtain ⟨loc, hselected, hloc⟩ := Option.bind_eq_some_iff.mp hloc
    rw [hlocation] at hselected
    exact Or.inr (List.mem_flatMap.mpr
      ⟨loc, Router.selectLocation_mem hselected, Option.mem_toList.mpr hloc⟩)
  · exact Or.inl (Option.mem_toList.mpr hserver)

/-- A request of this client goes on, which this zone has judged in this interval. -/
def Passes (ctx : Context) (name : Bytes) (ip : IpAddr) (start stop : Rat) : Step → Bool
  | .limit v now =>
      (limitAsked ctx v).any (fun limit => limit.zone = name) && v.ip = ip &&
        (start ≤ now && now ≤ stop) && (v.outcome ctx).exit != .limited
  | _ => false

/-- The step is judged by the zone and by none else. -/
theorem zoneCall_eq_some
    {name : Bytes} {e : Step} {c : LimitReq.Call} (h : zoneCall ctx name e = some c) :
    ∃ v limit, e = .limit v c.now ∧ limitAsked ctx v = some limit ∧ limit.zone = name ∧
      c = ⟨v.ip, limit.burst, c.now⟩ := by
  cases e with
  | limit v now =>
      obtain ⟨limit, hlimit, rfl⟩ := Option.map_eq_some_iff.mp h
      obtain ⟨hasked, hname⟩ := Option.filter_eq_some_iff.mp hlimit
      exact ⟨v, limit, rfl, hasked, of_decide_eq_true hname, rfl⟩
  | _ => cases h

theorem zoneCall_of_asked
    {name : Bytes} (now : Rat) (h : limitAsked ctx v = some limit) :
    zoneCall ctx name (.limit v now) =
      if limit.zone = name then some ⟨v.ip, limit.burst, now⟩ else none := by
  change ((limitAsked ctx v).filter _).map _ = _
  rw [h, Option.filter_some]
  by_cases hname : limit.zone = name
  · rw [if_pos (decide_eq_true hname), if_pos hname, Option.map_some]
  · rw [if_neg (by simpa using hname), if_neg hname, Option.map_none]

/-- A step changes a zone by its own calls only. -/
theorem lookup_step
    {s : Shared} {name : Bytes} {z : LimitReqZone} (hz : s.zones.lookup name = some z) (e : Step) :
    (step ops cfg ctx s e).zones.lookup name =
      some ((zoneCall ctx name e).elim z z.step) := by
  cases e with
  | limit v now =>
      change (limited ctx v now s.zones).lookup name = _
      unfold limited
      cases hasked : limitAsked ctx v with
      | none =>
          rw [zoneCall, hasked]
          exact hz
      | some limit =>
          rw [zoneCall_of_asked now hasked]
          dsimp only
          by_cases hname : limit.zone = name
          · subst hname
            rw [hz, if_pos rfl]
            exact AList.lookup_insert _
          · rw [if_neg hname]
            cases s.zones.lookup limit.zone with
            | none => exact hz
            | some z' =>
                dsimp only
                rw [Table.lookup_insert_ite, if_neg (Ne.symm hname)]
                exact hz
  | _ => exact hz

/-- A step that is no call on the zone does not pass it. -/
theorem passes_eq_false
    {name : Bytes} {e : Step} (h : zoneCall ctx name e = none) (ip : IpAddr) (start stop : Rat) :
    Passes ctx name ip start stop e = false := by
  cases e with
  | limit v now =>
      cases hasked : limitAsked ctx v with
      | none => simp [Passes, hasked]
      | some limit =>
          rw [zoneCall_of_asked now hasked] at h
          have hname : limit.zone ≠ name := by
            intro hname
            rw [if_pos hname] at h
            cases h
          simp [Passes, hasked, hname]
  | _ => rfl

/-- Who passes is who is allowed. -/
theorem countP_passes
    {s : Shared} {steps : List Step} {name : Bytes} {z : LimitReqZone}
    (hz : s.zones.lookup name = some z)
    (hsteps : Run.Steps (step ops cfg ctx) (Agrees cfg ctx) s steps)
    (ip : IpAddr) (start stop : Rat) :
    steps.countP (Passes ctx name ip start stop) =
      allowedIn ip start stop (z.answered (steps.filterMap (zoneCall ctx name))) := by
  induction steps generalizing s z with
  | nil => rfl
  | cons e steps ih =>
      obtain ⟨hagrees, hsteps⟩ := hsteps
      have hnext := @lookup_step F ops cfg ctx s name z hz e
      rw [List.countP_cons, ih hnext hsteps, List.filterMap_cons]
      cases hcall : zoneCall ctx name e with
      | none =>
          rw [passes_eq_false hcall, if_neg Bool.false_ne_true]
          rfl
      | some c =>
          obtain ⟨v, limit, rfl, hasked, hname, hc⟩ := zoneCall_eq_some hcall
          have hverdict : (v.outcome ctx).exit = .limited ↔ (z.allow c).1 = false := by
            rw [exit_limited_iff hasked, hagrees limit hasked, hname, hz, hc]
            simp
          have hpasses : Passes ctx name ip start stop (.limit v c.now) = true ↔
              c.ip = ip ∧ start ≤ c.now ∧ c.now ≤ stop ∧ (z.allow c).1 = true := by
            have hip : v.ip = c.ip := by rw [hc]
            rw [← Bool.not_eq_false (z.allow c).1, ← hverdict]
            simp [Passes, hasked, hname, hip, and_assoc]
          dsimp only [Option.elim]
          rw [answered, allowedIn_cons]
          simp only [hpasses]

/-- The rate of a zone; of several zones of one name the last one counts. -/
def zoneRate (http : HttpBlock) (name : Bytes) : Option Rat :=
  Table.lastValue (http.limitReqZones.map fun d => (d.name, d.rateRps)) name

theorem lookup_start
    (http : HttpBlock) (name : Bytes) :
    (Shared.start http).zones.lookup name = (zoneRate http name).map (.new name) := by
  have hzones : (Shared.start http).zones =
      Table.insertPairs (http.limitReqZones.map fun d => (d.name, .new d.name d.rateRps)) ∅ := by
    unfold Table.insertPairs
    rw [List.foldl_map]
    rfl
  rw [hzones, Table.lookup_insertPairs, AList.lookup_empty, Option.or_none, zoneRate,
    Table.lastValue, Table.lastValue, ← List.map_reverse, ← List.map_reverse, List.find?_map,
    List.find?_map]
  cases hfind : http.limitReqZones.reverse.find? fun d => decide (d.name = name) with
  | none =>
      simp only [Function.comp_def, hfind, Option.map_none]
  | some d =>
      have hfound := List.find?_some hfind
      have hname : d.name = name := of_decide_eq_true hfound
      simp only [Function.comp_def, hfind, Option.map_some, hname]

section Example

/-- A server that limits requests by a zone. -/
def limitedServer : ServerBlock :=
  { serverWith (proxyLocation internalUpstream) with limitReq := some ⟨ascii "z", 1, false⟩ }

/-- The zone lets one request a second through. -/
def limitedContext : Context :=
  { contextOf limitedServer with
    http := { HttpBlock.default with
      servers := [limitedServer], limitReqZones := [⟨ascii "z", 1⟩] }
    servers_ne_nil := by simp }

/-- A request for the root, with these verdicts of detector and zone. -/
def visitWith (scanBlocked allows : Bool) : Visit where
  env := { quietEnv StaticFiles.exampleFiles with
    scanBlocked := scanBlocked, limitAllows := fun _ _ => some allows }
  st := stateWithCache 0 0
  raw := requestOf ["GET / HTTP/1.1", "Host: a"]

/-- Two requests of one client at one time; the second one is turned away. -/
def twoVisits : List Step :=
  [.limit (visitWith false true) 0, .limit (visitWith false false) 0]

end Example

end Limits

section Blocks

variable {F : Type} {ops : FloatOps F} {cfg : ScanConfig F} {ctx : Context}
variable {s : Shared} {steps before : List Step} {v : Visit}

/-- The time of a step that looks at the clock of the detector. -/
def Step.time : Step → Option Nat
  | .arrive _ time | .leave _ _ time | .gc time => some time
  | _ => none

/-- The clock never goes back, and a request has read it before its step. -/
structure Clocked (steps : List Step) : Prop where
  ordered : (steps.filterMap Step.time).Pairwise (· ≤ ·)
  readings : ∀ v now time, .leave v now time ∈ steps → now ≤ time

/-- The detector sees its own events only. -/
theorem tracker_run
    (s : Shared) (steps : List Step) :
    (steps.foldl (step ops cfg ctx) s).tracker =
      (steps.flatMap (scanEvents ctx)).foldl (ScanDetector.step ops cfg) s.tracker := by
  induction steps generalizing s with
  | nil => rfl
  | cons e steps ih =>
      rw [List.foldl_cons, ih, List.flatMap_cons, List.foldl_append]
      rfl

theorem time_of_scanEvents
    {e : Step} {event : ScanDetector.Event} (h : event ∈ scanEvents ctx e) :
    e.time = some event.time := by
  cases e with
  | leave v now time =>
      obtain ⟨x, -, rfl⟩ := List.mem_map.mp h
      rfl
  | gc time =>
      rw [List.mem_singleton.mp h]
      rfl
  | _ => cases h

/-- A run by the clock is one for the detector. -/
theorem Clocked.timed
    (h : Clocked steps) :
    Timed (steps.flatMap (scanEvents ctx)) where
  ordered := by
    refine List.pairwise_flatMap.mpr ⟨?_, ?_⟩
    · intro e _
      have hsame : ∀ x ∈ scanEvents ctx e, ∀ y ∈ scanEvents ctx e, x.time ≤ y.time := by
        intro x hx y hy
        exact (Option.some.inj ((time_of_scanEvents hx).symm.trans (time_of_scanEvents hy))).le
      exact List.pairwise_of_forall_mem_list hsame
    · refine (List.pairwise_filterMap.mp h.ordered).imp ?_
      intro e e' hle x hx y hy
      exact hle _ (time_of_scanEvents hx) _ (time_of_scanEvents hy)
  readings call hcall := by
    obtain ⟨e, he, hevent⟩ := List.mem_flatMap.mp hcall
    cases e with
    | leave v now time =>
        obtain ⟨x, -, hx⟩ := List.mem_map.mp hevent
        cases hx
        exact h.readings v now time he
    | gc time => cases List.mem_singleton.mp hevent
    | _ => cases hevent

/-- The detector hears of a request once at most, and if a handler has answered it. -/
theorem scanned_outcome
    (ctx : Context) (v : Visit) :
    (v.outcome ctx).effects.filterMap Effect.scanned = [] ∨
      (v.outcome ctx).exit = .finished ∧
        ∃ path, (v.outcome ctx).effects.filterMap Effect.scanned =
          [(path, (v.outcome ctx).result.status)] := by
  by_cases hnone : (v.outcome ctx).effects.filterMap Effect.scanned = []
  · exact Or.inl hnone
  · obtain ⟨req, server, location, routed, resp, effects, -, hhandler, heq⟩ :=
      scanned_of_ends (ends_dispatch ctx v.env v.st v.raw) hnone
    refine Or.inr ?_
    rw [Visit.outcome, heq]
    exact ⟨rfl, routed.path, scanned_finish hhandler⟩

theorem exit_blocked_iff :
    (v.outcome ctx).exit = .blocked ↔ v.env.scanBlocked = true := by
  constructor
  · intro hexit
    have hends := ends_dispatch ctx v.env v.st v.raw
    unfold Visit.outcome at hexit
    generalize dispatch ctx v.env v.st v.raw = o at hexit hends
    cases hends with
    | blocked hblocked => exact hblocked
    | _ => cases hexit
  · intro hblocked
    have hends : Ends ctx v.env v.st v.raw _ := .blocked hblocked
    rw [Visit.outcome, hends.dispatch_eq]

/-- The client crosses the trigger with a request that a handler has answered. -/
structure CrossesWith (ops : FloatOps F) (cfg : ScanConfig F) (ctx : Context) (s : Shared)
    (v : Visit) (now time : Nat) : Prop where
  answered : (v.outcome ctx).exit = .finished
  crosses : ∃ path report,
    (v.outcome ctx).effects.filterMap Effect.scanned = [(path, (v.outcome ctx).result.status)] ∧
      (record ops cfg ⟨v.ip, path, (v.outcome ctx).result.status, now, time⟩ s.tracker).2 =
        .crossed report

/-- An item of the events comes from one of the steps. -/
theorem flatMap_eq_append_cons
    {α β : Type} {f : α → List β} {l : List α} {xs ys : List β} {y : β}
    (h : l.flatMap f = xs ++ y :: ys) :
    ∃ early a late front back, l = early ++ a :: late ∧ f a = front ++ y :: back ∧
      xs = early.flatMap f ++ front := by
  induction l generalizing xs with
  | nil => simp at h
  | cons a l ih =>
      rw [List.flatMap_cons] at h
      rcases List.append_eq_append_iff.mp h with ⟨c, rfl, hc⟩ | ⟨c, ha, hc⟩
      · obtain ⟨early, b, late, front, back, rfl, hb, rfl⟩ := ih hc
        refine ⟨a :: early, b, late, front, back, rfl, hb, ?_⟩
        rw [List.flatMap_cons, List.append_assoc]
      · cases c with
        | nil =>
            obtain ⟨early, b, late, front, back, rfl, hb, hnil⟩ := @ih [] hc.symm
            refine ⟨a :: early, b, late, front, back, rfl, hb, ?_⟩
            rw [List.flatMap_cons, List.append_assoc, ← hnil, ha, List.append_nil,
              List.append_nil]
        | cons d c =>
            obtain ⟨rfl, -⟩ := List.cons.inj hc
            exact ⟨[], a, l, xs, c, rfl, ha, rfl⟩

theorem run_eq_tracker
    (http : HttpBlock) (steps : List Step) :
    run ops cfg (steps.flatMap (scanEvents ctx)) =
      (steps.foldl (step ops cfg ctx) (.start http)).tracker :=
  (tracker_run (.start http) steps).symm

/-- Who crosses the trigger in the detector crosses it with a request. -/
theorem exists_crosses_iff
    (http : HttpBlock) {ip : IpAddr} {bound : Nat} :
    (∃ call, Crosses ops cfg (before.flatMap (scanEvents ctx)) call ∧ call.ip = ip ∧
        bound < call.now + second * cfg.blockSecs) ↔
      ∃ early w now time late, before = early ++ .leave w now time :: late ∧ w.ip = ip ∧
        CrossesWith ops cfg ctx (early.foldl (step ops cfg ctx) (.start http)) w now time ∧
        bound < now + second * cfg.blockSecs := by
  constructor
  · rintro ⟨call, ⟨xs, ys, report, hevents, hcrosses⟩, hip, hbound⟩
    obtain ⟨early, e, late, front, back, rfl, he, rfl⟩ := flatMap_eq_append_cons hevents
    cases e with
    | leave w now time =>
        rcases scanned_outcome ctx w with hnone | ⟨hanswered, path, hone⟩
        · rw [scanEvents, hnone] at he
          simp at he
        · rw [scanEvents, hone, List.map_singleton] at he
          cases front with
          | nil =>
              cases (List.cons.inj he).1
              rw [List.append_nil, run_eq_tracker http] at hcrosses
              exact ⟨early, w, now, time, late, rfl, hip, ⟨hanswered, path, report, hone, hcrosses⟩,
                hbound⟩
          | cons x front => simp at he
    | gc time =>
        cases front with
        | nil => cases (List.cons.inj he).1
        | cons x front => simp [scanEvents] at he
    | _ => simp [scanEvents] at he
  · rintro ⟨early, w, now, time, late, rfl, hip, ⟨-, path, report, hone, hcrosses⟩, hbound⟩
    refine ⟨⟨w.ip, path, (w.outcome ctx).result.status, now, time⟩,
      ⟨early.flatMap (scanEvents ctx), late.flatMap (scanEvents ctx), report, ?_, ?_⟩, hip, hbound⟩
    · rw [List.flatMap_append, List.flatMap_cons, scanEvents, hone]
      rfl
    · rw [run_eq_tracker http]
      exact hcrosses

section Example

/-- A server without locations. -/
def plainContext : Context :=
  contextOf (StaticFiles.serverAt (ascii "/srv"))

/-- A request for a file that there is not. -/
def missingVisit (scanBlocked : Bool) : Visit where
  env := { quietEnv StaticFiles.exampleFiles with scanBlocked := scanBlocked }
  st := stateWithCache 0 0
  raw := requestOf ["GET /missing HTTP/1.1", "Host: a"]

end Example

end Blocks

section Logs

variable {F : Type} {ops : FloatOps F} {cfg : ScanConfig F} {ctx : Context}
variable {steps : List Step}

/-- The entries that a step sends. -/
def entriesOf (ctx : Context) : Step → List LogEntry
  | .leave v _ _ => (v.outcome ctx).effects.filterMap entryOf
  | _ => []

/-- A request is over that has been logged. -/
def IsLogged (ctx : Context) : Step → Bool
  | .leave v _ _ => !(v.outcome ctx).exit.isSilent
  | _ => false

/-- The log sees its own events only. -/
theorem logger_run
    (s : Shared) (steps : List Step) :
    (steps.foldl (step ops cfg ctx) s).logger =
      (steps.flatMap (logEvents ctx)).foldl AccessLog.step s.logger := by
  induction steps generalizing s with
  | nil => rfl
  | cons e steps ih =>
      rw [List.foldl_cons, ih, List.flatMap_cons, List.foldl_append]
      rfl

theorem sent_logEvents
    (steps : List Step) :
    (steps.flatMap (logEvents ctx)).filterMap AccessLog.Event.sent =
      steps.flatMap (entriesOf ctx) := by
  rw [List.filterMap_flatMap]
  refine congrArg (fun f => steps.flatMap f) (funext fun e => ?_)
  cases e with
  | leave v now time =>
      change (((v.outcome ctx).effects.filterMap entryOf).map AccessLog.Event.log).filterMap _ = _
      rw [List.filterMap_map]
      exact List.filterMap_some
  | _ => rfl

/-- One entry for each request but those that end without one. -/
theorem length_entriesOf
    (steps : List Step) :
    (steps.flatMap (entriesOf ctx)).length = steps.countP (IsLogged ctx) := by
  have hone : ∀ e, (entriesOf ctx e).length = if IsLogged ctx e then 1 else 0 := by
    intro e
    cases e with
    | leave v now time =>
        obtain ⟨-, hlogged, -⟩ := counts_of_ends (ends_dispatch ctx v.env v.st v.raw)
        have hcount : ∀ effects : List Effect,
            (effects.filterMap entryOf).length = effects.countP Effect.isLog := by
          intro effects
          rw [List.length_filterMap_eq_countP]
          refine List.countP_congr fun e _ => ?_
          cases e with
          | _ => rfl
        change ((v.outcome ctx).effects.filterMap entryOf).length = _
        rw [hcount, Visit.outcome, hlogged]
        cases hsilent : (dispatch ctx v.env v.st v.raw).exit.isSilent with
        | true => simp [IsLogged, Visit.outcome, hsilent]
        | false => simp [IsLogged, Visit.outcome, hsilent]
    | _ => rfl
  induction steps with
  | nil => rfl
  | cons e steps ih =>
      rw [List.flatMap_cons, List.length_append, hone, ih, List.countP_cons, Nat.add_comm]

/-- What was recorded of a run. -/
def recordsOf (ctx : Context) (steps : List Step) : List AccessLog.Record :=
  AccessLog.records (.newWithRing ctx.http.accessLog .new) (steps.flatMap (logEvents ctx))

/--
In any run one entry is sent for each request, but for those that end without one.  The records
are of these entries in their order, and the lines at hand are the last ones of theirs.
-/
theorem logged_run
    (steps : List Step) :
    AccessLog.Keeps (steps.flatMap (entriesOf ctx)) (recordsOf ctx steps)
        (steps.foldl (step ops cfg ctx) (.start ctx.http)).logger ∧
      (steps.flatMap (entriesOf ctx)).length = steps.countP (IsLogged ctx) := by
  refine ⟨?_, length_entriesOf steps⟩
  rw [logger_run, ← sent_logEvents]
  exact AccessLog.keeps_run (AccessLog.keeps_newWithRing _) _

/-- The head of the answer with the log lines; its lines end with a line feed. -/
def logsHead (body : Bytes) : Bytes :=
  Api.joinLinesLf
    [ascii "HTTP/1.1 200 OK", ascii "Content-Type: application/json",
      ascii "Content-Length: " ++ Decimal.render body.length, ascii "Connection: close", []]

end Logs

end System
end RunNginx
