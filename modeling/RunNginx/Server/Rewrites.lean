import RunNginx.Router.Locations
import RunNginx.Server.Exits

/-!
# Settings behind a rewrite

The dispatcher selects a location and then applies the rewrite rules of that location.  The
gates and the handler read their settings from the location that was selected, also where a
rule with the flag `last` has led to a path of another one.

`rematches_iff`: the settings applied are those of the rewritten path exactly if both
locations have the same.
-/

namespace RunNginx
namespace Handler

open ByteString

section Settings

/-- What the gates and the choice of a handler read of a location and its server. -/
structure Settings where
  auth : Option AuthBasicConfig
  limit : Option LimitReqRef
  maxBody : Nat
  returned : Option ReturnDirective
  handler : Option LocationHandler

variable (ctx : Context) (env : Env) (st : ServerState) (server : ServerBlock)

def settingsOf (location : Option LocationBlock) : Settings where
  auth := authConfig server location
  limit := (location.bind LocationBlock.limitReq).or server.limitReq
  maxBody := maxBody ctx server location
  returned := returnFor server location
  handler := location.map LocationBlock.handler

variable {ctx env st server}
variable {location location' : Option LocationBlock} {req routed : ParsedRequest} {raw : Bytes}

/-- The gates read nothing else of a location. -/
theorem gates_congr
    (h : settingsOf ctx server location = settingsOf ctx server location') :
    gates ctx env st server location req = gates ctx env st server location' req := by
  have hauth : authConfig server location = authConfig server location' :=
    congrArg Settings.auth h
  have hlimit : (location.bind LocationBlock.limitReq).or server.limitReq =
      (location'.bind LocationBlock.limitReq).or server.limitReq :=
    congrArg Settings.limit h
  have hbody : maxBody ctx server location = maxBody ctx server location' :=
    congrArg Settings.maxBody h
  have hreturn : returnFor server location = returnFor server location' :=
    congrArg Settings.returned h
  unfold gates authStage limitStage bodyStage
  rw [returnStage_eq, returnStage_eq, hauth, hlimit, hbody, hreturn]

end Settings

section Applied

variable (ctx : Context) (env : Env) (st : ServerState) (raw : Bytes)

/-- The settings that the dispatcher applies to a request, if it gets that far. -/
def appliedSettings : Option Settings :=
  match (do
    let (st, req) ← preRoute ctx env st raw
    route ctx env st req) with
  | .ok (server, location, _) => some (settingsOf ctx server location)
  | .error _ => none

/-- The location-level rules lead from the path `first` to another one by the flag `last`. -/
def RewritesLast (server : ServerBlock) (first path : Bytes) : Prop :=
  Rewrite.applyRewrites ctx.lib (rulesOf (Router.selectLocation server first)) first =
    .rewritten path false ∧ path ≠ first

/-- Behind such a rewrite the settings are those of the location of the new path. -/
def Rematches : Prop :=
  ∀ req first path, Enters ctx env st raw req first →
    RewritesLast ctx (serverFor ctx req) first path →
    appliedSettings ctx env st raw =
      some (settingsOf ctx (serverFor ctx req)
        (Router.selectLocation (serverFor ctx req) path))

variable {ctx env st raw}
variable {req : ParsedRequest} {first path : Bytes}

/-- A request whose path is rewritten is routed to the location of its path before. -/
theorem routes_of_rewritesLast
    (henters : Enters ctx env st raw req first)
    (hlast : RewritesLast ctx (serverFor ctx req) first path) :
    Routes ctx env st raw req (serverFor ctx req)
      (Router.selectLocation (serverFor ctx req) first) { req with path := path } := by
  refine ⟨rfl, first, path, henters, rfl, ?_, rfl⟩
  rw [rewrittenPath, hlast.1]

theorem Routes.appliedSettings_eq
    {server : ServerBlock} {location : Option LocationBlock} {routed : ParsedRequest}
    (h : Routes ctx env st raw req server location routed) :
    appliedSettings ctx env st raw = some (settingsOf ctx server location) := by
  unfold appliedSettings
  rw [h.proceeds.preRoute_eq]
  simp only [bind, Except.bind, h.route_eq]

/--
The dispatcher applies the settings of the rewritten path exactly if they are those of the
path before.
-/
theorem rematches_iff
    (ctx : Context) (env : Env) (st : ServerState) (raw : Bytes) :
    Rematches ctx env st raw ↔
      ∀ req first path, Enters ctx env st raw req first →
        RewritesLast ctx (serverFor ctx req) first path →
        settingsOf ctx (serverFor ctx req) (Router.selectLocation (serverFor ctx req) first) =
          settingsOf ctx (serverFor ctx req)
            (Router.selectLocation (serverFor ctx req) path) := by
  refine forall_congr' fun req => forall_congr' fun first => forall_congr' fun path => ?_
  refine imp_congr_right fun henters => imp_congr_right fun hlast => ?_
  rw [(routes_of_rewritesLast henters hlast).appliedSettings_eq, Option.some_inj]

/-- Then a rewrite leads to no location whose credentials the request lacks. -/
theorem protected_of_rematches
    {cfg : AuthBasicConfig}
    (hrematches : Rematches ctx env st raw) (henters : Enters ctx env st raw req first)
    (hlast : RewritesLast ctx (serverFor ctx req) first path)
    (hcfg : authConfig (serverFor ctx req)
      (Router.selectLocation (serverFor ctx req) path) = some cfg)
    (hlacks : isAuthorized env cfg { req with path := path } = false) :
    (dispatch ctx env st raw).exit = .unauthorized ∧
      (dispatch ctx env st raw).result = unauthorizedResult cfg.realm req.keepAlive := by
  have hroutes := routes_of_rewritesLast henters hlast
  have happlied := hrematches req first path henters hlast
  rw [hroutes.appliedSettings_eq, Option.some_inj] at happlied
  have hauth : authConfig (serverFor ctx req)
      (Router.selectLocation (serverFor ctx req) first) = some cfg :=
    (congrArg Settings.auth happlied).trans hcfg
  rw [(Ends.unauthorized hroutes hauth hlacks).dispatch_eq]
  exact ⟨rfl, rfl⟩

/-- The rule that leads from `/pub/` to the root. -/
def pubRule : RewriteRule :=
  ⟨ascii "^/pub/(.*)$", ascii "/$1", .last⟩

/-- The expression of that rule, on one line of text. -/
def pubRegex : Regex where
  isMatch := fun uri => (ascii "/pub/").isPrefixOf uri
  replace := fun uri template =>
    if (ascii "/pub/").isPrefixOf uri ∧ template = pubRule.replacement then
      ascii "/" ++ uri.drop 5
    else uri

/-- A public location that rewrites, beside one file that asks for credentials. -/
def pubServer : ServerBlock :=
  { StaticFiles.serverAt (ascii "/srv") with
    locations := [
      { Router.bareLocation (.longestPrefix (ascii "/pub/")) with
        rewrites := [pubRule] },
      { Router.bareLocation (.exact (ascii "/a.txt")) with
        authBasic := some ⟨ascii "area", ascii "/etc/users"⟩ }] }

def pubContext : Context :=
  { contextOf pubServer with
    lib := ⟨fun _ => none, fun p => if p = pubRule.pattern then some pubRegex else none,
      fun _ => none⟩ }

/-- A request that is answered behind its handler has passed the rules of its server. -/
theorem enters_of_finished
    (h : (dispatch ctx env st raw).exit = .finished) :
    ∃ req first, Enters ctx env st raw req first := by
  have hends := ends_dispatch ctx env st raw
  generalize dispatch ctx env st raw = o at h hends
  cases hends with
  | finished hreq hresp =>
      obtain ⟨first, path, henters, -⟩ := hreq.enters
      exact ⟨_, first, henters⟩
  | _ => cases h

/-- The file is served without credentials under its public path. -/
theorem public_path_unprotected :
    let env := quietEnv StaticFiles.exampleFiles
    let st := stateWithCache 0 0
    let raw := requestOf ["GET /pub/a.txt HTTP/1.1", "Host: a"]
    (dispatch pubContext env st (requestOf ["GET /a.txt HTTP/1.1", "Host: a"])).result.status =
        401 ∧
      (dispatch pubContext env st raw).result.status = 200 ∧
      ¬ Rematches pubContext env st raw := by
  intro env st raw
  refine ⟨by decide +kernel, by decide +kernel, fun h => ?_⟩
  have hexit : (dispatch pubContext env st raw).exit = .finished := by decide +kernel
  obtain ⟨req, first, henters⟩ := enters_of_finished hexit
  have hserver : serverFor pubContext req = pubServer :=
    List.mem_singleton.mp (serverFor_mem pubContext req)
  have hparsed : (parseRequest raw).toOption.map (fun req =>
      (req.path, Request.getHeader req.headers (ascii "authorization"))) =
        some (ascii "/pub/a.txt", none) := by decide +kernel
  rw [henters.parses] at hparsed
  obtain ⟨hpath, hnone⟩ := Prod.mk.inj (Option.some.inj hparsed)
  have hfirst := henters.rewritten
  rw [hserver, hpath] at hfirst
  obtain rfl : ascii "/pub/a.txt" = first := Option.some.inj hfirst
  have hlast : RewritesLast pubContext (serverFor pubContext req) (ascii "/pub/a.txt")
      (ascii "/a.txt") := by
    rw [hserver]
    exact ⟨by decide, by decide⟩
  have hcfg : authConfig (serverFor pubContext req)
      (Router.selectLocation (serverFor pubContext req) (ascii "/a.txt")) =
        some ⟨ascii "area", ascii "/etc/users"⟩ := by
    rw [hserver]
    decide
  have hlacks : isAuthorized env ⟨ascii "area", ascii "/etc/users"⟩
      { req with path := ascii "/a.txt" } = false := by
    unfold isAuthorized
    rw [hnone]
    rfl
  have hturned := (protected_of_rematches h henters hlast hcfg hlacks).1
  rw [hexit] at hturned
  cases hturned

end Applied

end Handler
end RunNginx
