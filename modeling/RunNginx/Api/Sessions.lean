import RunNginx.Api
import RunNginx.Lib.EarlyReturn

/-!
# Sessions of the management API

`hasValidSession_iff`: after any requests to the API, a request has a valid session
exactly if its session cookie is a token that a login has handed out, that has not
expired, and that no logout has carried since.

The readings of the clock that the logins take must be in order, and lie before the one
that the session is checked at.  Tokens may repeat: a later login with a token that is in
use starts its lifetime anew.
-/

namespace RunNginx
namespace Api

open ByteString EarlyReturn Request

/-- A request to the API, with what it takes from outside. -/
structure ApiRequest where
  env : ApiEnv
  path : Bytes
  query : Bytes
  method : Bytes
  headers : Headers
  body : Bytes

/-- The sessions a request leaves. -/
def sessionsAfter (settings : ApiSettings) (sessions : SessionStore) (r : ApiRequest) :
    SessionStore :=
  ((handleApi r.env settings sessions r.path r.query r.method r.headers r.body).map
    Prod.snd).getD sessions

/-- The first session cookie of the first Cookie header. -/
def SessionCookie (headers : Headers) (token : Bytes) : Prop :=
  ∃ before h after,
    headers = before ++ h :: after ∧
      (∀ g ∈ before, eqIgnoreCase g.1 (ascii "cookie") = false) ∧
      eqIgnoreCase h.1 (ascii "cookie") = true ∧
      ∃ others rest,
        (splitByte 59 h.2).map Utf8.trim = others ++ (ascii "session=" ++ token) :: rest ∧
          ∀ cookie ∈ others, (ascii "session=").isPrefixOf cookie = false

namespace ApiRequest

variable (settings : ApiSettings)

/-- A login with the credentials of the configuration. -/
def LogsIn (r : ApiRequest) : Prop :=
  r.path = ascii "/login" ∧ r.method = ascii "POST" ∧ r.env.rateAllows = true ∧
    r.env.parseLogin r.body = some (settings.adminUser, settings.adminPassword)

/-- A logout that carries this token. -/
def LogsOut (r : ApiRequest) (token : Bytes) : Prop :=
  r.path = ascii "/logout" ∧ r.method = ascii "POST" ∧ SessionCookie r.headers token

end ApiRequest

section Lifecycle

variable (settings : ApiSettings)

/-- The logins read the clock in order, and not after this moment. -/
structure Clocked (rs : List ApiRequest) (t : Nat) : Prop where
  login : ∀ r ∈ rs, r.LogsIn settings → r.env.now ≤ r.env.issuedAt ∧ r.env.issuedAt ≤ t
  order : rs.Pairwise fun r q =>
    r.LogsIn settings → q.LogsIn settings → r.env.issuedAt ≤ q.env.now

/-- A login has handed the token out, it has not expired, and no logout has carried it since. -/
def Live (rs : List ApiRequest) (token : Bytes) (t : Nat) : Prop :=
  ∃ before r after,
    rs = before ++ r :: after ∧ r.LogsIn settings ∧ r.env.token = token ∧
      t < r.env.issuedAt + sessionTtl ∧ ∀ q ∈ after, ¬ q.LogsOut token

variable {settings}

theorem getSessionToken_eq_some_iff
    {headers : Headers} {token : Bytes} :
    getSessionToken headers = some token ↔ SessionCookie headers token := by
  unfold getSessionToken getHeader SessionCookie
  constructor
  · intro h
    obtain ⟨value, hvalue, hcookie⟩ := Option.bind_eq_some_iff.mp h
    obtain ⟨header, hheader, rfl⟩ := Option.map_eq_some_iff.mp hvalue
    obtain ⟨hname, before, after, hsplit, hbefore⟩ := List.find?_eq_some_iff_append.mp hheader
    obtain ⟨cookie, hfind, hstrip⟩ := Option.bind_eq_some_iff.mp hcookie
    obtain ⟨_, others, rest, hcookies, hothers⟩ := List.find?_eq_some_iff_append.mp hfind
    rw [stripPrefix_eq_some_iff.mp hstrip] at hcookies
    exact ⟨before, header, after, hsplit, by simpa using hbefore, hname, others, rest,
      hcookies, by simpa using hothers⟩
  · rintro ⟨before, header, after, hsplit, hbefore, hname, others, rest, hcookies, hothers⟩
    have hheader : headers.find? (fun h => eqIgnoreCase h.1 (ascii "cookie")) = some header :=
      List.find?_eq_some_iff_append.mpr ⟨hname, before, after, hsplit, by simpa using hbefore⟩
    have hfind : ((splitByte 59 header.2).map Utf8.trim).find?
        (fun s => (ascii "session=").isPrefixOf s) = some (ascii "session=" ++ token) :=
      List.find?_eq_some_iff_append.mpr
        ⟨List.isPrefixOf_iff_prefix.mpr (List.prefix_append _ _), others, rest, hcookies,
          by simpa using hothers⟩
    rw [hheader, Option.map_some, Option.bind_some, hfind, Option.bind_some]
    exact stripPrefix_eq_some_iff.mpr rfl

/-- Only logins and logouts change the sessions. -/
theorem handleApi_sessions
    {env : ApiEnv} {sessions : SessionStore} {path query method : Bytes} {headers : Headers}
    {body : Bytes} {answer : Bytes × SessionStore}
    (h : handleApi env settings sessions path query method headers body = some answer) :
    answer.2 = sessions ∨
      (path = ascii "/login" ∧ method = ascii "POST" ∧ env.rateAllows = true ∧
        answer = handleLoginPost env settings sessions headers body) ∨
      (path = ascii "/logout" ∧ method = ascii "POST" ∧
        answer = handleLogout sessions headers) := by
  have hkept : ∀ {bytes : Bytes}, some (bytes, sessions) = some answer →
      answer.2 = sessions := by
    intro bytes heq
    rw [← Option.some.inj heq]
  unfold handleApi at h
  refine of_ite h (fun _ h => Or.inl (hkept h)) fun _ h => ?_
  refine of_ite h (fun _ h => Or.inl (hkept h)) fun _ h => ?_
  refine of_ite h (fun _ h => Or.inl (hkept h)) fun _ h => ?_
  refine of_ite h (fun hlogin h => ?_) fun _ h => ?_
  · refine of_ite h (fun _ h => Or.inl (hkept h)) fun hallowed h => ?_
    exact Or.inr (Or.inl ⟨hlogin.1, hlogin.2, by simpa using hallowed, (Option.some.inj h).symm⟩)
  refine of_ite h (fun hlogout h => ?_) fun _ h => Or.inl ?_
  · exact Or.inr (Or.inr ⟨hlogout.1, hlogout.2, (Option.some.inj h).symm⟩)
  refine of_ite h (fun _ h => ?_) fun _ h => ?_
  · exact of_ite h (fun _ => hkept) fun _ => hkept
  refine of_ite h (fun _ => hkept) fun _ h => ?_
  refine of_ite h (fun _ => hkept) fun _ h => ?_
  refine of_ite h (fun _ => hkept) fun _ h => ?_
  refine of_ite h (fun _ => hkept) fun _ h => ?_
  refine of_ite h (fun _ => hkept) fun _ h => ?_
  cases h

theorem handleApi_login
    {r : ApiRequest} (sessions : SessionStore)
    (h : r.LogsIn settings) :
    handleApi r.env settings sessions r.path r.query r.method r.headers r.body =
      some (loginResponse r.headers r.env.token, addSession r.env sessions) := by
  obtain ⟨hpath, hmethod, hallowed, hlogin⟩ := h
  have hhealth : ascii "/login" ≠ ascii "/health" := by decide
  have hmetrics : ascii "/login" ≠ ascii "/metrics" := by decide
  have hget : ascii "POST" ≠ ascii "GET" := by decide
  simp [handleApi, handleLoginPost, hpath, hmethod, hallowed, hlogin, hhealth, hmetrics, hget]

theorem handleApi_logout
    {r : ApiRequest} (settings : ApiSettings) (sessions : SessionStore)
    (hpath : r.path = ascii "/logout") (hmethod : r.method = ascii "POST") :
    handleApi r.env settings sessions r.path r.query r.method r.headers r.body =
      some (handleLogout sessions r.headers) := by
  have hhealth : ascii "/logout" ≠ ascii "/health" := by decide
  have hmetrics : ascii "/logout" ≠ ascii "/metrics" := by decide
  have hlogin : ascii "/logout" ≠ ascii "/login" := by decide
  simp [handleApi, hpath, hmethod, hhealth, hmetrics, hlogin]

/-- A request logs in, logs out, or leaves the sessions as they are. -/
theorem sessionsAfter_cases
    (settings : ApiSettings) (sessions : SessionStore) (r : ApiRequest) :
    (r.LogsIn settings ∧ sessionsAfter settings sessions r = addSession r.env sessions) ∨
      (¬ r.LogsIn settings ∧ ∃ token, (∀ other, r.LogsOut other ↔ other = token) ∧
        sessionsAfter settings sessions r = sessions.erase token) ∨
      (¬ r.LogsIn settings ∧ (∀ token, ¬ r.LogsOut token) ∧
        sessionsAfter settings sessions r = sessions) := by
  by_cases hin : r.LogsIn settings
  · left
    rw [sessionsAfter, handleApi_login sessions hin]
    exact ⟨hin, rfl⟩
  right
  by_cases hout : r.path = ascii "/logout" ∧ r.method = ascii "POST"
  · rw [sessionsAfter, handleApi_logout settings sessions hout.1 hout.2]
    unfold handleLogout
    cases hcookie : getSessionToken r.headers with
    | some token =>
        refine Or.inl ⟨hin, token, ?_, rfl⟩
        intro other
        constructor
        · intro h
          rw [getSessionToken_eq_some_iff.mpr h.2.2] at hcookie
          exact Option.some.inj hcookie
        · rintro rfl
          exact ⟨hout.1, hout.2, getSessionToken_eq_some_iff.mp hcookie⟩
    | none =>
        refine Or.inr ⟨hin, ?_, rfl⟩
        intro token h
        rw [getSessionToken_eq_some_iff.mpr h.2.2] at hcookie
        cases hcookie
  · refine Or.inr ⟨hin, fun token h => hout ⟨h.1, h.2.1⟩, ?_⟩
    unfold sessionsAfter
    cases hanswer : handleApi r.env settings sessions r.path r.query r.method r.headers r.body with
    | none => rfl
    | some answer =>
        rcases handleApi_sessions hanswer with h | ⟨hpath, hmethod, hallowed, h⟩ | ⟨hpath, hmethod, _⟩
        · exact h
        · -- A login that is let through and fails is not `LogsIn`.
          unfold handleLoginPost at h
          split at h
          · rw [h]
            rfl
          · rename_i username password hparse
            split at h
            · rename_i hcreds
              rw [hcreds.1, hcreds.2] at hparse
              exact absurd ⟨hpath, hmethod, hallowed, hparse⟩ hin
            · rw [h]
              rfl
        · exact absurd ⟨hpath, hmethod⟩ hout

/-- A login and a logout are different requests. -/
theorem ApiRequest.LogsIn.not_logsOut
    {r : ApiRequest} {token : Bytes}
    (h : r.LogsIn settings) :
    ¬ r.LogsOut token := by
  rintro ⟨hpath, -, -⟩
  have hne : ascii "/login" ≠ ascii "/logout" := by decide
  exact hne (h.1.symm.trans hpath)

/-- What a new session store knows of a token. -/
theorem lookup_addSession
    (env : ApiEnv) (sessions : SessionStore) (token : Bytes) :
    (addSession env sessions).lookup token =
      if token = env.token then some (env.issuedAt + sessionTtl)
      else (sessions.lookup token).filter fun expires => env.now < expires := by
  rw [addSession, Table.lookup_insert_ite]
  by_cases htoken : token = env.token
  · rw [if_pos htoken, if_pos htoken]
  rw [if_neg htoken, if_neg htoken, Table.lookup_eraseAll]
  have hexpired : token ∈ (sessions.entries.filter fun e => e.2 ≤ env.now).map Sigma.fst ↔
      ∃ expires, sessions.lookup token = some expires ∧ expires ≤ env.now := by
    simp only [List.mem_map, List.mem_filter, decide_eq_true_eq]
    constructor
    · rintro ⟨⟨a, expires⟩, ⟨hmem, hle⟩, rfl⟩
      exact ⟨expires, AList.mem_lookup_iff.mpr hmem, hle⟩
    · rintro ⟨expires, hlookup, hle⟩
      exact ⟨⟨token, expires⟩, ⟨AList.mem_lookup_iff.mp hlookup, hle⟩, rfl⟩
  cases hlookup : sessions.lookup token with
  | none => simp
  | some expires =>
      by_cases hle : expires ≤ env.now
      · rw [if_pos (hexpired.mpr ⟨expires, hlookup, hle⟩)]
        simp [Option.filter, hle]
      · rw [if_neg fun h => ?_]
        · simp [Option.filter, Nat.lt_of_not_le hle]
        · obtain ⟨other, hother, hle'⟩ := hexpired.mp h
          rw [hlookup] at hother
          exact hle (Option.some.inj hother ▸ hle')

theorem Clocked.of_append
    {rs : List ApiRequest} {q : ApiRequest} {t : Nat}
    (h : Clocked settings (rs ++ [q]) t) :
    Clocked settings rs t := by
  refine ⟨fun r hr => h.login r (List.mem_append_left _ hr), ?_⟩
  exact (List.pairwise_append.mp h.order).1

/-- The sessions that one more request leaves live. -/
theorem live_append
    {rs : List ApiRequest} {q : ApiRequest} {token : Bytes} {t : Nat} :
    Live settings (rs ++ [q]) token t ↔
      (q.LogsIn settings ∧ q.env.token = token ∧ t < q.env.issuedAt + sessionTtl) ∨
        (Live settings rs token t ∧ ¬ q.LogsOut token) := by
  constructor
  · rintro ⟨before, r, after, hsplit, hin, htoken, ht, hafter⟩
    rcases List.eq_nil_or_concat after with rfl | ⟨after, last, rfl⟩
    · obtain ⟨rfl, hlast⟩ := List.append_inj' hsplit rfl
      obtain rfl := List.singleton_inj.mp hlast
      exact Or.inl ⟨hin, htoken, ht⟩
    · rw [List.concat_eq_append] at hsplit hafter
      rw [← List.cons_append, ← List.append_assoc] at hsplit
      obtain ⟨rfl, hlast⟩ := List.append_inj' hsplit rfl
      obtain rfl := List.singleton_inj.mp hlast
      refine Or.inr ⟨⟨before, r, after, rfl, hin, htoken, ht, fun p hp => ?_⟩, ?_⟩
      · exact hafter p (List.mem_append_left _ hp)
      · exact hafter q (List.mem_append_right _ (List.mem_singleton.mpr rfl))
  · rintro (⟨hin, htoken, ht⟩ | ⟨⟨before, r, after, rfl, hin, htoken, ht, hafter⟩, hout⟩)
    · exact ⟨rs, q, [], rfl, hin, htoken, ht, fun _ h => absurd h List.not_mem_nil⟩
    · refine ⟨before, r, after ++ [q], by simp, hin, htoken, ht, fun p hp => ?_⟩
      rcases List.mem_append.mp hp with hp | hp
      · exact hafter p hp
      · rw [List.mem_singleton.mp hp]
        exact hout

/-- A session whose login came before another login has expired when that one's would. -/
theorem Live.expires_before
    {rs : List ApiRequest} {q : ApiRequest} {token : Bytes} {t : Nat}
    (hlive : Live settings rs token t) (hclock : Clocked settings (rs ++ [q]) t)
    (hin : q.LogsIn settings) :
    t < q.env.issuedAt + sessionTtl := by
  obtain ⟨before, r, after, rfl, hr, _, ht, _⟩ := hlive
  have horder := (List.pairwise_append.mp hclock.order).2.2 r (by simp) q (by simp) hr hin
  have hq := (hclock.login q (by simp) hin).1
  omega

/-- The store holds the live sessions, whatever it has dropped on the way. -/
theorem lookup_run
    {rs : List ApiRequest} {token : Bytes} {t : Nat}
    (hclock : Clocked settings rs t) :
    ((rs.foldl (sessionsAfter settings) ∅).lookup token).any (fun expires => t < expires) = true ↔
      Live settings rs token t := by
  induction rs using List.reverseRecOn with
  | nil =>
      constructor
      · intro h
        cases h
      · rintro ⟨before, r, after, h, -⟩
        cases before <;> cases h
  | append_singleton rs q ih =>
      specialize ih hclock.of_append
      rw [List.foldl_append, List.foldl_cons, List.foldl_nil, live_append]
      generalize rs.foldl (sessionsAfter settings) ∅ = sessions at ih
      rcases sessionsAfter_cases settings sessions q with
        ⟨hin, hafter⟩ | ⟨hin, carried, hout, hafter⟩ | ⟨hin, hout, hafter⟩
      · rw [hafter, lookup_addSession]
        obtain ⟨hnow, hissued⟩ := hclock.login q (by simp) hin
        by_cases htoken : token = q.env.token
        · subst htoken
          rw [if_pos rfl]
          constructor
          · intro h
            rw [Option.any_some, decide_eq_true_eq] at h
            exact Or.inl ⟨hin, rfl, h⟩
          · intro h
            rw [Option.any_some, decide_eq_true_eq]
            rcases h with ⟨_, _, ht⟩ | ⟨hlive, _⟩
            · exact ht
            · exact hlive.expires_before hclock hin
        · rw [if_neg htoken]
          -- What the login drops has expired by now.
          have hkeep : ((sessions.lookup token).filter fun expires => q.env.now < expires).any
              (fun expires => t < expires) =
                (sessions.lookup token).any (fun expires => t < expires) := by
            cases sessions.lookup token with
            | none => rfl
            | some expires =>
                by_cases hlt : q.env.now < expires
                · simp [Option.filter, hlt]
                · have : ¬ t < expires := by omega
                  simp [Option.filter, hlt, this]
          rw [hkeep, ih]
          constructor
          · intro hlive
            exact Or.inr ⟨hlive, hin.not_logsOut⟩
          · rintro (⟨_, rfl, _⟩ | ⟨hlive, _⟩)
            · exact absurd rfl htoken
            · exact hlive
      · rw [hafter, Table.lookup_erase_ite, hout]
        by_cases htoken : token = carried
        · simp [htoken, hin]
        · simp [htoken, hin, ih]
      · rw [hafter, ih]
        simp [hin, hout]

/-- A session is valid exactly while it is live. -/
theorem hasValidSession_iff
    (rs : List ApiRequest) (env : ApiEnv) (headers : Headers)
    (hclock : Clocked settings rs env.now) :
    hasValidSession env (rs.foldl (sessionsAfter settings) ∅) headers = true ↔
      ∃ token, SessionCookie headers token ∧ Live settings rs token env.now := by
  unfold hasValidSession
  constructor
  · intro h
    split at h
    · cases h
    · rename_i token hcookie
      exact ⟨token, getSessionToken_eq_some_iff.mp hcookie, (lookup_run hclock).mp h⟩
  · rintro ⟨token, hcookie, hlive⟩
    rw [getSessionToken_eq_some_iff.mpr hcookie]
    exact (lookup_run hclock).mpr hlive

end Lifecycle

section Example

/-- The administrator `admin` with the password `secret`. -/
def exampleSettings : ApiSettings :=
  ⟨[], ascii "admin", ascii "secret"⟩

/-- A moment at which a login would get this token. -/
def exampleEnv (now : Nat) (token : Bytes) : ApiEnv where
  rateAllows := true
  now := now
  issuedAt := now + 1
  token := token
  parseLogin := fun _ => some (ascii "admin", ascii "secret")
  webuiHtml := []
  loginHtml := []
  metrics := []
  logs := fun _ => []
  call := fun _ => (200, [])

/-- A login that gets this token. -/
def exampleLogin (now : Nat) (token : Bytes) : ApiRequest where
  env := exampleEnv now token
  path := ascii "/login"
  query := []
  method := ascii "POST"
  headers := []
  body := []

/-- A session outlives the login of another client, up to the end of its own lifetime. -/
theorem hasValidSession_example :
    hasValidSession (exampleEnv sessionTtl [])
      ([exampleLogin 0 (ascii "a1"), exampleLogin 7 (ascii "b2")].foldl
        (sessionsAfter exampleSettings) ∅)
      [(ascii "Cookie", ascii "theme=dark; session=a1")] = true := by
  have hissued : ∀ r ∈ [exampleLogin 0 (ascii "a1"), exampleLogin 7 (ascii "b2")],
      r.env.now ≤ r.env.issuedAt ∧ r.env.issuedAt ≤ 8 := by
    decide
  refine (hasValidSession_iff _ _ _ ⟨?_, ?_⟩).mpr ⟨ascii "a1", ?_, ?_⟩
  · intro r hr _
    have httl : 8 ≤ sessionTtl := by decide
    exact ⟨(hissued r hr).1, le_trans (hissued r hr).2 httl⟩
  · refine List.Pairwise.cons ?_ (List.pairwise_singleton _ _)
    intro q hq _ _
    rw [List.mem_singleton.mp hq]
    decide
  · exact getSessionToken_eq_some_iff.mp (by decide)
  · refine ⟨[], exampleLogin 0 (ascii "a1"), [exampleLogin 7 (ascii "b2")], rfl,
      ⟨rfl, rfl, rfl, rfl⟩, rfl, ?_, ?_⟩
    · exact Nat.lt_add_of_pos_left Nat.one_pos
    · intro q hq hout
      rw [List.mem_singleton.mp hq] at hout
      exact absurd hout.1 (by decide)

end Example

end Api
end RunNginx
