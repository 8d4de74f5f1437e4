import RunNginx.Lib.Run
import RunNginx.Proxy.Completeness
import RunNginx.Proxy.PathMapping

/-!
# The pool of upstream connections

A connection goes back to the pool if the response asks for it.  The headers that are asked
have lost the Connection field before, because it is not handed on to the client.

`doProxy_keeps_nothing`: no exchange gives its connection back.  So the pool is empty in
every state of every run (`pool_empty`), and the pool is used as meant exactly where there is
nothing to reuse (`pooled_exactly_iff`).
-/

namespace RunNginx
namespace Proxy

open ByteString HttpMessage StaticFiles

section Reusable

/-- The options of the Connection fields. -/
def connectionOptions (fieldLines : List Bytes) : List Bytes :=
  (valuesOf (ascii "connection") fieldLines).flatMap fun v =>
    (splitByte 44 v).map (trimBy isOws)

def AsksKeepAlive (fieldLines : List Bytes) : Prop :=
  ∃ o ∈ connectionOptions fieldLines, eqIgnoreCase o (ascii "keep-alive") = true

/-- Responses without a body, whatever their fields say. -/
def Bodiless (method startLine : Bytes) : Prop :=
  method = ascii "HEAD" ∨ statusOf startLine 502 / 100 = 1 ∨ statusOf startLine 502 = 204 ∨
    statusOf startLine 502 = 304

instance (method startLine : Bytes) : Decidable (Bodiless method startLine) := by
  unfold Bodiless
  infer_instance

/-- The bytes behind the head are the body and nothing else. -/
def EndsWith (method startLine : Bytes) (fieldLines : List Bytes) (got : Bytes) : Prop :=
  if Bodiless method startLine then got = []
  else ∃ framing : Framing, framing ≠ .close ∧ framing.DeclaredBy fieldLines ∧
    framing.Frames got

/-- The bytes read are one response, read to its end, that leaves the connection open. -/
def Reusable (method buf : Bytes) : Prop :=
  ∃ startLine fieldLines got, parseHead buf = some (startLine :: fieldLines, got) ∧
    ascii "HTTP/" <+: startLine ∧ AsksKeepAlive fieldLines ∧
    EndsWith method startLine fieldLines got

end Reusable

section Exchanges

variable {cfg : ProxyConfig} {method path locPrefix body buf : Bytes} {headers : Headers}
variable {ex : Exchange}

/-- What is handed on has no field named in the list. -/
theorem parseProxyResponse_names
    {resp : StaticResponse} (h : parseProxyResponse buf = .ok resp) :
    ∀ field ∈ resp.headers, isNamed responseHop field.1 = false := by
  unfold parseProxyResponse at h
  repeat' split at h
  all_goals cases h
  intro field hfield
  have hkept := (List.mem_filter.mp hfield).2
  rwa [Bool.not_eq_true'] at hkept

theorem returnToPool_eq_nil
    {resp : StaticResponse}
    (h : ∀ field ∈ resp.headers, isNamed responseHop field.1 = false) :
    returnToPool cfg resp = [] := by
  refine if_neg fun hany => ?_
  obtain ⟨field, hfield, hasks⟩ := List.any_eq_true.mp hany
  have hconnection : eqIgnoreCase field.1 (ascii "connection") = true :=
    (Bool.and_eq_true_iff.mp hasks).1
  have hnamed := h field hfield
  rw [isNamed, List.any_eq_false] at hnamed
  exact hnamed _ List.mem_cons_self hconnection

/-- What comes back from an exchange is a parsed response. -/
theorem sendAndReceive_ok
    {request : Bytes} {resp : StaticResponse}
    (h : (sendAndReceive request ex).1 = .ok resp) :
    ∃ buf, parseProxyResponse buf = .ok resp := by
  unfold sendAndReceive at h
  dsimp only at h
  repeat' split at h
  all_goals first | exact ⟨_, h⟩ | cases h

/-- A connection is passed to the pool. -/
def Pooled (events : List NetEvent) : Prop :=
  ∃ addr, .keep addr ∈ events

/-- What an exchange does: nothing, or it opens a connection, and may send its request. -/
theorem doProxy_events
    (cfg : ProxyConfig) (method path locPrefix : Bytes) (headers : Headers) (body : Bytes)
    (ex : Exchange) :
    (doProxy cfg method path locPrefix headers body ex).2 = [] ∨
      (doProxy cfg method path locPrefix headers body ex).2 = (getConnection cfg ex).2 ∨
      ∃ request, (doProxy cfg method path locPrefix headers body ex).2 =
        (getConnection cfg ex).2 ++ [.send request] := by
  unfold doProxy
  split
  · exact .inl rfl
  split
  · rename_i hconnect
    rw [hconnect]
    exact .inr (.inl rfl)
  · rename_i hconnect
    rw [hconnect]
    dsimp only
    split
    · rename_i sent hsent
      obtain rfl : [.send _] = sent := congrArg Prod.snd hsent
      exact .inr (.inr ⟨_, rfl⟩)
    · rename_i resp sent hsent
      obtain rfl : [.send _] = sent := congrArg Prod.snd hsent
      obtain ⟨buf, hparsed⟩ := sendAndReceive_ok (congrArg Prod.fst hsent)
      rw [returnToPool_eq_nil (parseProxyResponse_names hparsed), List.append_nil]
      exact .inr (.inr ⟨_, rfl⟩)

theorem mem_getConnection
    {event : NetEvent} (h : event ∈ (getConnection cfg ex).2) :
    (ex.idle = true ∧ event = .reuse (poolKey cfg)) ∨ event = .connect (upstreamAddr cfg) := by
  unfold getConnection at h
  split at h
  · rename_i hidle
    exact .inl ⟨hidle, List.mem_singleton.mp h⟩
  · exact .inr (List.mem_singleton.mp h)

/-- An exchange takes an idle connection or opens one, and sends. -/
theorem mem_doProxy
    {event : NetEvent} (h : event ∈ (doProxy cfg method path locPrefix headers body ex).2) :
    (ex.idle = true ∧ event = .reuse (poolKey cfg)) ∨ event = .connect (upstreamAddr cfg) ∨
      ∃ request, event = .send request := by
  rcases doProxy_events cfg method path locPrefix headers body ex with heq | heq | ⟨request, heq⟩
  · rw [heq] at h
    cases h
  · rw [heq] at h
    rcases mem_getConnection h with hreuse | hopen
    · exact .inl hreuse
    · exact .inr (.inl hopen)
  · rw [heq] at h
    rcases List.mem_append.mp h with h | h
    · rcases mem_getConnection h with hreuse | hopen
      · exact .inl hreuse
      · exact .inr (.inl hopen)
    · exact .inr (.inr ⟨request, List.mem_singleton.mp h⟩)

/-- No exchange gives its connection back. -/
theorem doProxy_keeps_nothing
    (cfg : ProxyConfig) (method path locPrefix : Bytes) (headers : Headers) (body : Bytes)
    (ex : Exchange) :
    ¬ Pooled (doProxy cfg method path locPrefix headers body ex).2 := by
  rintro ⟨addr, hmem⟩
  rcases mem_doProxy hmem with ⟨-, heq⟩ | heq | ⟨request, heq⟩
  · cases heq
  · cases heq
  · cases heq

/-- The exchange reads these bytes, in whatever pieces they arrive. -/
structure Receives (cfg : ProxyConfig) (ex : Exchange) (buf : Bytes) : Prop where
  allowed : ssrfBlock cfg = none
  connected : (getConnection cfg ex).1 = .ok ()
  sent : ex.send = .done
  read : Stream.collect isResponseComplete maxResponseBuffer [] ex.reads = .ok buf

variable (cfg method ex) in
/-- The exchange reads a response that leaves its connection reusable. -/
def ReadsReusable : Prop :=
  ∃ buf, Receives cfg ex buf ∧ Reusable method buf

variable (cfg method ex) in
/-- The pool gets the reusable connections exactly where there is none. -/
theorem pooled_exactly_iff
    (path locPrefix : Bytes) (headers : Headers) (body : Bytes) :
    (Pooled (doProxy cfg method path locPrefix headers body ex).2 ↔
        ReadsReusable cfg method ex) ↔
      ¬ ReadsReusable cfg method ex := by
  have hnever := doProxy_keeps_nothing cfg method path locPrefix headers body ex
  exact ⟨fun h hreusable => hnever (h.mpr hreusable), fun h => iff_of_false hnever h⟩

end Exchanges

section Runs

/-- One request that is forwarded, and what the upstream does. -/
structure ProxyCall where
  cfg : ProxyConfig
  method : Bytes
  path : Bytes
  locationPrefix : Bytes
  headers : Headers
  body : Bytes
  exchange : Exchange

/-- Idle connections of one upstream. -/
def poolSize : Nat := 32

namespace ProxyCall

variable (pool : List Bytes) (call : ProxyCall)

/-- The exchange takes an idle connection if there is one. -/
def events : List NetEvent :=
  (doProxy call.cfg call.method call.path call.locationPrefix call.headers call.body
    { call.exchange with idle := pool.contains (poolKey call.cfg) }).2

/-- The idle connections after the exchange, each by the key it is filed under. -/
def step : List Bytes :=
  (call.events pool).foldl
    (fun pool event =>
      match event with
      | .reuse key => pool.erase key
      | .keep key => if pool.count key < poolSize then pool ++ [key] else pool
      | _ => pool)
    pool

/-- Without idle connections, none is taken. -/
theorem not_reuse_of_empty
    (addr : Bytes) :
    .reuse addr ∉ call.events [] := by
  intro hmem
  rcases mem_doProxy hmem with ⟨hidle, -⟩ | heq | ⟨request, heq⟩
  · cases hidle
  · cases heq
  · cases heq

/-- An exchange leaves an empty pool empty. -/
theorem step_empty :
    call.step [] = [] := by
  have hkeep : ∀ addr, .keep addr ∉ call.events [] :=
    fun addr hmem => doProxy_keeps_nothing _ _ _ _ _ _ _ ⟨addr, hmem⟩
  have hreuse := not_reuse_of_empty call
  unfold step
  generalize call.events [] = events at hkeep hreuse
  induction events with
  | nil => rfl
  | cons event events ih =>
      have hrest := ih (fun addr hmem => hkeep addr (List.mem_cons_of_mem _ hmem))
        fun addr hmem => hreuse addr (List.mem_cons_of_mem _ hmem)
      cases event with
      | connect addr => exact hrest
      | send request => exact hrest
      | reuse addr => exact absurd List.mem_cons_self (hreuse addr)
      | keep addr => exact absurd List.mem_cons_self (hkeep addr)

end ProxyCall

/-- The pool is empty in every state of every run. -/
theorem pool_empty
    (calls : List ProxyCall) :
    ∀ pool ∈ Run.states (fun pool call => ProxyCall.step pool call) [] calls, pool = [] := by
  refine @Run.invariant _ _ _ (fun pool => pool = []) (fun _ _ => True)
    (fun pool call hpool _ => ?_) _ _ rfl ?_
  · subst hpool
    exact call.step_empty
  · induction calls with
    | nil => trivial
    | cons call calls ih =>
        refine ⟨trivial, ?_⟩
        change Run.Steps _ _ (call.step []) calls
        rwa [call.step_empty]

end Runs

section Example

/-- A response that is read to its end and asks for the connection to stay open. -/
def keepAliveResponse : Bytes :=
  ascii ("HTTP/1.1 200 OK\r\nConnection: keep-alive\r\n" ++ "Content-Length: 2\r\n\r\nok")

/-- An upstream that sends it in one piece. -/
def keepAliveExchange : Exchange where
  idle := false
  connect := .done
  nodelay := .ok ()
  send := .done
  reads := [.bytes keepAliveResponse]

theorem receives_keepAliveExchange :
    Receives (exampleProxy (ascii "/")) keepAliveExchange keepAliveResponse where
  allowed := by decide
  connected := rfl
  sent := rfl
  read := by decide

/-- Its connection is not kept. -/
theorem keepAlive_not_pooled :
    ReadsReusable (exampleProxy (ascii "/")) (ascii "GET") keepAliveExchange ∧
      ¬ Pooled (doProxy (exampleProxy (ascii "/")) (ascii "GET") (ascii "/") [] [] []
        keepAliveExchange).2 := by
  refine ⟨⟨_, receives_keepAliveExchange, ?_⟩, doProxy_keeps_nothing _ _ _ _ _ _ _⟩
  refine ⟨ascii "HTTP/1.1 200 OK", [ascii "Connection: keep-alive", ascii "Content-Length: 2"],
    ascii "ok", by decide, by decide, ⟨ascii "keep-alive", by decide, by decide⟩, ?_⟩
  rw [EndsWith, if_neg (by decide)]
  exact ⟨.length 2, by decide, ⟨by decide, ascii "2", by decide, by decide⟩, rfl⟩

end Example

end Proxy
end RunNginx
