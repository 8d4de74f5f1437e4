import RunNginx.Api.Management

/-!
# The rate limit of the management interface

The limiter is asked in one arm of the management API, behind the authorization.  The
user API, the routes of the hosted sites, the list of PHP versions and every request
without authorization do not get to it.

`served_le_iff`: of the requests of a client in one second, at most as many are served as
the limit says exactly if there are no more at all, or those that do not get to the
limiter fit in beside what it still lets through.
-/

namespace RunNginx
namespace Management

open ByteString EarlyReturn Api

section

variable {σ ρ : Type}

/-- The answer turns the request away for the rate of its client. -/
def isLimited (bytes : Bytes) : Bool :=
  (ascii "HTTP/1.1 429 ").isPrefixOf bytes

/-- Requests the user API answers. -/
def asksUserApi (settings : ApiSettings) (call : Call) : Bool :=
  (ascii "/api/users").isPrefixOf call.path &&
    ((isAdmin settings call.headers &&
        ((call.method == ascii "GET" || call.method == ascii "POST") &&
            call.path == ascii "/api/users" ||
          call.method == ascii "DELETE" && (ascii "/api/users/").isPrefixOf call.path)) ||
      call.method == ascii "GET" && call.path == ascii "/api/users/me")

/-- Requests the routes of the hosted sites and of PHP answer. -/
def asksSites (call : Call) : Bool :=
  call.path == ascii "/api/sites" && (call.method == ascii "POST" || call.method == ascii "GET") ||
    (ascii "/api/sites/").isPrefixOf call.path ||
    call.path == ascii "/api/php/versions" && call.method == ascii "GET"

/-- Requests under the API that get to the limiter. -/
def consultsLimiter (settings : ApiSettings) (sessions : SessionStore) (env : Env σ ρ)
    (call : Call) : Bool :=
  !asksUserApi settings call && !asksSites call &&
    (hasValidSession env.base sessions call.headers ||
      isAuthorized call.headers settings.apiKey)

/-- The number of requests of a run that get an answer other than a 429. -/
def served (settings : ApiSettings) : State σ → List (Env σ ρ × Call) → Nat
  | _, [] => 0
  | m, (env, call) :: rest =>
      match handle env settings call m with
      | some (after, bytes) =>
          (if isLimited bytes then 0 else 1) + served settings after rest
      | none => 1 + served settings m rest

variable {env : Env σ ρ} {m : State σ} {settings : ApiSettings} {call : Call}

/-- Answers that are no 429, with a state that keeps sessions and limiter. -/
def Unlimited (m : State σ) (answer : State σ × Bytes) : Prop :=
  isLimited answer.2 = false ∧ answer.1.sessions = m.sessions ∧ answer.1.rate = m.rate

/-- The statuses of the endpoints. -/
theorem perform_status
    (call : ApiCall) :
    (perform env m call).2.status ∈ [200, 202, 400, 404, 500] := by
  cases call with
  | backup body =>
      simp only [perform, Backup.apiBackup]
      repeat' split
      all_goals simp
  | restore body =>
      simp only [perform, MultiUser.Site.restore, Backup.apiRestore]
      repeat' split
      all_goals simp
  | deleteBackup id =>
      simp only [perform, Backup.apiDeleteBackup]
      repeat' split
      all_goals simp
  | createSite body =>
      simp only [perform, handleCreateSite]
      split
      · simp
      · split
        all_goals simp
  | deleteSite domain deleteFiles =>
      simp only [perform]
      split
      all_goals simp
  | _ => simp [perform]

theorem isLimited_jsonResponse
    {status : Nat} (body : Bytes) (h : status ∈ [200, 202, 400, 401, 404, 500]) :
    isLimited (jsonResponse status body) = false := by
  simp only [List.mem_cons, List.not_mem_nil, or_false] at h
  rcases h with rfl | rfl | rfl | rfl | rfl | rfl
  all_goals rfl

theorem runCall_unlimited
    (call : ApiCall) :
    Unlimited m (runCall env m call) := by
  refine ⟨isLimited_jsonResponse _ ?_, perform_sessions call, perform_rate call⟩
  have h : (perform env m call).2.status ∈ [200, 202, 400, 404, 500] := perform_status call
  simp only [List.mem_cons, List.not_mem_nil, or_false] at h ⊢
  tauto

theorem isLimited_jsonErr
    {status : Nat} (msg : Bytes) (h : status ∈ [400, 401, 404, 500]) :
    isLimited (MultiUser.jsonErr status msg) = false := by
  simp only [List.mem_cons, List.not_mem_nil, or_false] at h
  rcases h with rfl | rfl | rfl | rfl
  all_goals rfl

theorem postUser_unlimited
    (body : Bytes) :
    Unlimited m (postUser env m body) := by
  unfold postUser
  dsimp only
  split
  · exact ⟨rfl, rfl, rfl⟩
  split
  · exact ⟨rfl, rfl, rfl⟩
  split
  · exact ⟨rfl, rfl, rfl⟩
  · exact ⟨isLimited_jsonErr _ (by decide), rfl, rfl⟩

/-- The user API never turns a request away for its rate. -/
theorem handleUserApi_unlimited
    {path method body key : Bytes} {admin : Bool} {answer : State σ × Bytes}
    (h : handleUserApi env m path method body key admin = some answer) :
    Unlimited m answer := by
  have hanswer : ∀ {x : State σ × Bytes}, Unlimited m x → some x = some answer →
      Unlimited m answer := by
    intro x hx heq
    rw [← Option.some.inj heq]
    exact hx
  unfold handleUserApi at h
  refine of_ite h (fun _ h => nomatch h) fun _ h => ?_
  refine of_ite h (fun _ => hanswer ⟨rfl, rfl, rfl⟩) fun _ h => ?_
  refine of_ite h (fun _ => hanswer (postUser_unlimited body)) fun _ h => ?_
  refine of_ite h (fun _ h => ?_) fun _ h => ?_
  · split at h
    · exact hanswer ⟨rfl, rfl, rfl⟩ h
    · exact hanswer ⟨rfl, rfl, rfl⟩ h
  refine of_ite h (fun _ h => ?_) fun _ h => nomatch h
  split at h
  · exact hanswer ⟨rfl, rfl, rfl⟩ h
  · exact hanswer ⟨rfl, rfl, rfl⟩ h

/-- Which requests the user API answers. -/
theorem handleUserApi_eq_none_iff
    (env : Env σ ρ) (m : State σ) (settings : ApiSettings) (call : Call) :
    handleUserApi env m call.path call.method call.body (bearerToken call.headers)
      (isAdmin settings call.headers) = none ↔ asksUserApi settings call = false := by
  have hasks : asksUserApi settings call = true ↔
      (ascii "/api/users").isPrefixOf call.path = true ∧
        (isAdmin settings call.headers = true ∧
            ((call.method = ascii "GET" ∨ call.method = ascii "POST") ∧
                call.path = ascii "/api/users" ∨
              call.method = ascii "DELETE" ∧
                (ascii "/api/users/").isPrefixOf call.path = true) ∨
          call.method = ascii "GET" ∧ call.path = ascii "/api/users/me") := by
    simp [asksUserApi]
  rw [← Bool.not_eq_true, hasks]
  generalize hanswer : handleUserApi env m call.path call.method call.body
    (bearerToken call.headers) (isAdmin settings call.headers) = answer
  unfold handleUserApi at hanswer
  refine of_ite hanswer (fun hprefix h => ?_) fun hprefix h => ?_
  · refine iff_of_true h.symm ?_
    rintro ⟨hstarts, -⟩
    rw [hstarts] at hprefix
    cases hprefix
  have hstarts : (ascii "/api/users").isPrefixOf call.path = true := by simpa using hprefix
  refine of_ite h (fun hlist h => ?_) fun hlist h => ?_
  · rw [← h]
    exact iff_of_false (Option.some_ne_none _)
      (not_not.mpr ⟨hstarts, Or.inl ⟨hlist.2.2, Or.inl ⟨Or.inl hlist.1, hlist.2.1⟩⟩⟩)
  refine of_ite h (fun hpost h => ?_) fun hpost h => ?_
  · rw [← h]
    exact iff_of_false (Option.some_ne_none _)
      (not_not.mpr ⟨hstarts, Or.inl ⟨hpost.2.2, Or.inl ⟨Or.inr hpost.1, hpost.2.1⟩⟩⟩)
  refine of_ite h (fun hdelete h => ?_) fun hdelete h => ?_
  · refine iff_of_false ?_
      (not_not.mpr ⟨hstarts, Or.inl ⟨hdelete.2.2, Or.inr ⟨hdelete.1, hdelete.2.1⟩⟩⟩)
    rw [← h]
    split
    · exact Option.some_ne_none _
    · exact Option.some_ne_none _
  refine of_ite h (fun hself h => ?_) fun hself h => ?_
  · refine iff_of_false ?_ (not_not.mpr ⟨hstarts, Or.inr hself⟩)
    rw [← h]
    split
    · exact Option.some_ne_none _
    · exact Option.some_ne_none _
  · refine iff_of_true h.symm ?_
    rintro ⟨-, ⟨hadmin, ⟨hget | hother, hpath⟩ | ⟨hmethod, hid⟩⟩ | hme⟩
    · exact hlist ⟨hget, hpath, hadmin⟩
    · exact hpost ⟨hother, hpath, hadmin⟩
    · exact hdelete ⟨hmethod, hid, hadmin⟩
    · exact hself hme

/-- The answer behind the limiter is a 429 exactly if the limiter says so. -/
structure Limited (env : Env σ ρ) (m : State σ) (answer : State σ × Bytes) : Prop where
  status : isLimited answer.2 = !(m.rate.allow env.nowSec env.peerIp).1
  sessions : answer.1.sessions = m.sessions
  rate : answer.1.rate = (m.rate.allow env.nowSec env.peerIp).2

theorem handleApiInner_limited
    (env : Env σ ρ) (m : State σ) (path query method body : Bytes) :
    Limited env m (handleApiInner env m path query method body) := by
  generalize hanswer : handleApiInner env m path query method body = answer
  unfold handleApiInner at hanswer
  refine of_ite hanswer (fun hdenied h => ?_) fun hallowed h => ?_
  · rw [← h]
    exact ⟨hdenied.symm, rfl, rfl⟩
  -- Behind the limiter no answer is a 429.
  have hallow : (m.rate.allow env.nowSec env.peerIp).1 = true := by simpa using hallowed
  have hbehind : ∀ {x : State σ × Bytes}, Unlimited (asked env m) x → x = answer →
      Limited env m answer := by
    rintro x ⟨hstatus, hsessions, hrate⟩ rfl
    exact ⟨by rw [hstatus, hallow]; rfl, hsessions, hrate⟩
  refine of_ite h (fun _ => hbehind (runCall_unlimited _)) fun _ h => ?_
  refine of_ite h (fun _ => hbehind (runCall_unlimited _)) fun _ h => ?_
  refine of_ite h (fun _ => hbehind (runCall_unlimited _)) fun _ h => ?_
  refine of_ite h (fun _ => hbehind ⟨rfl, rfl, rfl⟩) fun _ h => ?_
  refine of_ite h (fun _ => hbehind (runCall_unlimited _)) fun _ h => ?_
  refine of_ite h (fun _ => hbehind (runCall_unlimited _)) fun _ h => ?_
  refine of_ite h (fun _ => hbehind (runCall_unlimited _)) fun _ h => ?_
  refine of_ite h (fun _ => hbehind (runCall_unlimited _)) fun _ h => ?_
  exact hbehind ⟨rfl, rfl, rfl⟩ h

theorem handleSitesRoute_unlimited
    (env : Env σ ρ) (m : State σ) (path query method : Bytes) :
    Unlimited m (handleSitesRoute env m path query method) := by
  unfold handleSitesRoute
  dsimp only
  split
  · exact runCall_unlimited _
  · exact ⟨rfl, rfl, rfl⟩

/-- What the guarded routes do. -/
def guardedAnswer (env : Env σ ρ) (m : State σ) (call : Call) : State σ × Bytes :=
  if call.path = ascii "/api/sites" ∧ call.method = ascii "POST" then
    runCall env m (.createSite call.body)
  else if call.path = ascii "/api/sites" ∧ call.method = ascii "GET" then
    runCall env m .listSites
  else if (ascii "/api/sites/").isPrefixOf call.path then
    handleSitesRoute env m call.path call.query call.method
  else if call.path = ascii "/api/php/versions" ∧ call.method = ascii "GET" then
    runCall env m .phpVersions
  else handleApiInner env m call.path call.query call.method call.body

/-- The paths in front of the guarded routes are not under the API. -/
theorem handleApi_guarded
    (env : Env σ ρ) (m : State σ) (settings : ApiSettings) (call : Call)
    (hpath : (ascii "/api/").isPrefixOf call.path = true) :
    handleApi env m settings call =
      guarded env m settings call.headers (guardedAnswer env m call) := by
  have hne : ∀ other : Bytes, (ascii "/api/").isPrefixOf other = false → call.path ≠ other := by
    rintro other hother rfl
    rw [hpath] at hother
    cases hother
  have hhealth := hne (ascii "/health") rfl
  have hmetrics := hne (ascii "/metrics") rfl
  have hlogin := hne (ascii "/login") rfl
  have hlogout := hne (ascii "/logout") rfl
  have hui := hne (ascii "/ui") rfl
  have hui' := hne (ascii "/ui/") rfl
  obtain ⟨path, query, method, headers, body⟩ := call
  simp only [handleApi, hhealth, hmetrics, hlogin, hlogout, hui, hui', hpath, false_and, or_self,
    if_false, if_true, guardedAnswer, apply_ite (guarded env m settings headers)]

/-- Requests for sites and PHP versions do not get to the limiter, all other ones do. -/
theorem guardedAnswer_cases
    (env : Env σ ρ) (m : State σ) (call : Call) :
    if asksSites call then Unlimited m (guardedAnswer env m call)
    else Limited env m (guardedAnswer env m call) := by
  have hasks : asksSites call = true ↔
      (call.path = ascii "/api/sites" ∧
          (call.method = ascii "POST" ∨ call.method = ascii "GET") ∨
        (ascii "/api/sites/").isPrefixOf call.path = true) ∨
      call.path = ascii "/api/php/versions" ∧ call.method = ascii "GET" := by
    simp [asksSites]
  generalize hanswer : guardedAnswer env m call = answer
  have hunlimited : ∀ {x : State σ × Bytes}, asksSites call = true → Unlimited m x → x = answer →
      if asksSites call then Unlimited m answer else Limited env m answer := by
    rintro x hcall hx rfl
    rw [if_pos hcall]
    exact hx
  unfold guardedAnswer at hanswer
  refine of_ite hanswer (fun hc => hunlimited (hasks.mpr ?_) (runCall_unlimited _)) fun hpost h => ?_
  · exact Or.inl (Or.inl ⟨hc.1, Or.inl hc.2⟩)
  refine of_ite h (fun hc => hunlimited (hasks.mpr ?_) (runCall_unlimited _)) fun hget h => ?_
  · exact Or.inl (Or.inl ⟨hc.1, Or.inr hc.2⟩)
  refine of_ite h (fun hc => hunlimited (hasks.mpr ?_) (handleSitesRoute_unlimited _ _ _ _ _))
    fun hroute h => ?_
  · exact Or.inl (Or.inr hc)
  refine of_ite h (fun hc => hunlimited (hasks.mpr ?_) (runCall_unlimited _)) fun hphp h => ?_
  · exact Or.inr hc
  rw [if_neg, ← h]
  · exact handleApiInner_limited env m _ _ _ _
  · rw [hasks]
    rintro ((⟨hpath, hmethod | hmethod⟩ | hprefix) | hversions)
    · exact hpost ⟨hpath, hmethod⟩
    · exact hget ⟨hpath, hmethod⟩
    · exact hroute hprefix
    · exact hphp hversions

/-- What one request does: the API answers it, and asks the limiter or leaves it alone. -/
theorem handle_cases
    (env : Env σ ρ) (m : State σ) (settings : ApiSettings) (call : Call)
    (hpath : (ascii "/api/").isPrefixOf call.path = true) :
    ∃ answer, handle env settings call m = some answer ∧
      if consultsLimiter settings m.sessions env call then Limited env m answer
      else Unlimited m answer := by
  unfold handle
  have hnone := handleUserApi_eq_none_iff env m settings call
  cases husers : handleUserApi env m call.path call.method call.body (bearerToken call.headers)
      (isAdmin settings call.headers) with
  | some answer =>
      refine ⟨answer, Option.some_or, ?_⟩
      have hasks : asksUserApi settings call = true := by
        rw [← Bool.not_eq_false, ← hnone, husers]
        exact Option.some_ne_none _
      rw [if_neg (by simp [consultsLimiter, hasks])]
      exact handleUserApi_unlimited husers
  | none =>
      have hasks : asksUserApi settings call = false := hnone.mp husers
      rw [Option.none_or, handleApi_guarded env m settings call hpath]
      unfold guarded consultsLimiter
      rw [hasks]
      have hauth : (hasValidSession env.base m.sessions call.headers ||
          isAuthorized call.headers settings.apiKey) = authorized env m settings call.headers := rfl
      rw [hauth]
      cases authorized env m settings call.headers with
      | false =>
          refine ⟨_, rfl, ?_⟩
          rw [if_neg (by simp)]
          exact ⟨rfl, rfl, rfl⟩
      | true =>
          refine ⟨_, rfl, ?_⟩
          have h := guardedAnswer_cases env m call
          cases hsites : asksSites call with
          | true =>
              rw [hsites] at h
              exact h
          | false =>
              rw [hsites] at h
              exact h

/-- Requests of one client to the API, all in one second. -/
def OneSecond (ip : IpAddr) (second : Nat) (rs : List (Env σ ρ × Call)) : Prop :=
  ∀ r ∈ rs, r.1.peerIp = ip ∧ r.1.nowSec = second ∧
    (ascii "/api/").isPrefixOf r.2.path = true

/-- The requests that do not get to the limiter. -/
def bypassing (settings : ApiSettings) (sessions : SessionStore) (rs : List (Env σ ρ × Call)) :
    Nat :=
  rs.countP fun r => !consultsLimiter settings sessions r.1 r.2

/-- Every request that bypasses the limiter is served, and of the others what it lets through. -/
theorem served_eq
    {ip : IpAddr} {second : Nat} {rs : List (Env σ ρ × Call)}
    (h : OneSecond ip second rs) (settings : ApiSettings) (m : State σ) :
    served settings m rs =
      bypassing settings m.sessions rs +
        min (rs.length - bypassing settings m.sessions rs) (m.rate.room second ip) := by
  induction rs generalizing m with
  | nil => simp [served, bypassing]
  | cons r rs ih =>
      obtain ⟨env, call⟩ := r
      obtain ⟨hip, hsecond, hpath⟩ := h (env, call) List.mem_cons_self
      have hrest : OneSecond ip second rs := fun r hr => h r (List.mem_cons_of_mem _ hr)
      obtain ⟨⟨after, bytes⟩, hanswer, hcase⟩ := handle_cases env m settings call hpath
      have hle : bypassing settings m.sessions rs ≤ rs.length := List.countP_le_length
      rw [served, hanswer]
      dsimp only
      rw [ih hrest after]
      by_cases hconsults : consultsLimiter settings m.sessions env call = true
      · rw [if_pos hconsults] at hcase
        obtain ⟨hstatus, hsessions, hrate⟩ := hcase
        dsimp only at hstatus hsessions hrate
        have hcount : bypassing settings m.sessions ((env, call) :: rs) =
            bypassing settings m.sessions rs := by
          simp [bypassing, hconsults]
        rw [hip, hsecond] at hstatus hrate
        have hroom := m.rate.room_allow second ip
        have hallow := m.rate.allow_iff_room second ip
        rw [hsessions, hcount, hrate, hroom, hstatus, List.length_cons]
        cases hverdict : (m.rate.allow second ip).1 with
        | true =>
            have : 0 < m.rate.room second ip := hallow.mp hverdict
            simp only [Bool.not_true, Bool.false_eq_true, if_false]
            omega
        | false =>
            have : ¬ 0 < m.rate.room second ip := by
              rw [← hallow, hverdict]
              exact Bool.false_ne_true
            simp only [Bool.not_false, if_true]
            omega
      · rw [if_neg hconsults] at hcase
        obtain ⟨hstatus, hsessions, hrate⟩ := hcase
        dsimp only at hstatus hsessions hrate
        have hcount : bypassing settings m.sessions ((env, call) :: rs) =
            bypassing settings m.sessions rs + 1 := by
          simp [bypassing, hconsults]
        rw [hsessions, hcount, hrate, hstatus, List.length_cons]
        simp only [Bool.false_eq_true, if_false]
        omega

end

section Example

/-- A request for the list of sites that bears the API key. -/
def keyed : Call :=
  listSites [(ascii "Authorization", ascii "Bearer key")]

end Example

end Management
end RunNginx
