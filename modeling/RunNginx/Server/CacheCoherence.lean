import RunNginx.Cache.Store
import RunNginx.Lib.Framed
import RunNginx.Server.CacheKeys
import RunNginx.Server.Negotiation
import RunNginx.Server.Records

/-!
# Coherence of the response cache

A request is looked up under its whole URI, and its answer is stored under the path that the
handler saw: without the query, and behind the rewrite rules.  The key says nothing of the
content coding of an answer.

`cache_coherent`: a run from an empty cache gives each request an answer to an earlier request
for the same, in codings that it accepts, if every answer is stored under its whole URI, no
host has a `|`, and what is found under a key is in codings that the request accepts.
-/

namespace RunNginx
namespace Handler

open ByteString Cache Cache.ResponseCache HttpMessage Request StaticFiles

section Model

/-- A request, with the configuration and the surroundings it meets. -/
structure Visit where
  ctx : Context
  env : Env
  raw : Bytes

namespace Visit

def outcome (v : Visit) (st : ServerState) : Outcome :=
  dispatch v.ctx v.env st v.raw

def step (st : ServerState) (v : Visit) : ServerState :=
  (v.outcome st).state

end Visit

/-- The codings a client has to undo. -/
def contentCodings (hdrs : Headers) : List Bytes :=
  ((codingsOf hdrs).flatMap fun v => (splitByte 44 v).map (trimBy isOws)).filter fun coding =>
    coding != [] && !eqIgnoreCase coding (ascii "identity")

/-- The key a request is looked up under. -/
def requestKey (req : ParsedRequest) : Bytes :=
  cacheKey req.host req.method req.fullUri

/-- A handler answers a request under a path with these headers and bytes, to be stored. -/
inductive Files (st : ServerState) (v : Visit) (req : ParsedRequest) (path : Bytes) :
    Headers → Bytes → Prop
  | finished {server : ServerBlock} {location : Option LocationBlock} {resp : StaticResponse}
      {effects : List Effect}
      (hreq : Admitted v.ctx v.env st v.raw req server location { req with path := path })
      (hhandler : handlerStage v.env (afterLookup v.env st req) server location
        { req with path := path } = .ok (resp, effects))
      (hstored : (isCacheable req.method resp.status
        (finalHeaders v.ctx v.env server location { req with path := path } resp) &&
          !requestBypassesCache req.headers) = true) :
      Files st v req path (finalHeaders v.ctx v.env server location { req with path := path } resp)
        (finish v.ctx v.env (afterLookup v.env st req) server location { req with path := path }
          resp effects).result.bytes

/-- The bytes were the answer to a request for the same, in codings that this one accepts. -/
structure Produced (req : ParsedRequest) (bytes : Bytes) (st : ServerState) (v : Visit) :
    Prop where
  answered : (v.outcome st).result.bytes = bytes
  same : ∃ asked path hdrs, parseRequest v.raw = .ok asked ∧ Files st v asked path hdrs bytes ∧
    asked.host = req.host ∧ asked.method = req.method ∧ asked.fullUri = req.fullUri ∧
      ∀ coding ∈ contentCodings hdrs, AcceptsCoding req.headers coding

/-- Each answer from the cache was produced earlier in the run. -/
def CacheCoherent (st : ServerState) (visits : List Visit) : Prop :=
  ∀ before v after req, visits = before ++ v :: after → parseRequest v.raw = .ok req →
    (v.outcome (before.foldl Visit.step st)).exit = .cacheHit →
      ∃ earlier ∈ Run.transitions Visit.step st before,
        Produced req (v.outcome (before.foldl Visit.step st)).result.bytes earlier.1 earlier.2

/--
An answer that is stored is stored under the whole URI, in some of these codings; a request
whose key has an entry accepts all of them.  No host has a separator of keys.
-/
structure Unmixed (codings : List Bytes) (st : ServerState) (v : Visit) : Prop where
  stored : ∀ req path hdrs bytes, Files st v req path hdrs bytes →
    path = req.fullUri ∧ (124 : UInt8) ∉ req.host ∧ ∀ coding ∈ contentCodings hdrs, coding ∈ codings
  found : ∀ req, parseRequest v.raw = .ok req → requestKey req ∈ st.cache.entries →
    (124 : UInt8) ∉ req.host ∧ ∀ coding ∈ codings, AcceptsCoding req.headers coding

end Model

section Lookups

variable {cache : ResponseCache} {key k bytes : Bytes} {status now : Nat} {entry : CacheEntry}

/-- A lookup adds no entry. -/
theorem get_lookup
    (h : (cache.get key now).2.entries.lookup k = some entry) :
    cache.entries.lookup k = some entry := by
  unfold ResponseCache.get at h
  split at h
  · exact h
  split at h
  · exact h
  split at h
  · rw [Table.lookup_erase_ite] at h
    split at h
    · cases h
    · exact h
  · exact h

theorem makeRoom_lookup
    {room : Table Bytes CacheEntry} (hroom : cache.makeRoom now = some room)
    (h : room.lookup k = some entry) :
    cache.entries.lookup k = some entry := by
  unfold makeRoom at hroom
  split at hroom
  · rw [Option.some.inj hroom]
    exact h
  split at hroom
  · rw [← Option.some.inj hroom, Table.lookup_erase_ite] at h
    split at h
    · cases h
    · exact h
  · cases hroom

/-- A put adds one entry at most. -/
theorem put_lookup
    (h : (cache.put key bytes status now).entries.lookup k = some entry) :
    cache.entries.lookup k = some entry ∨ k = key ∧ entry.bytes = bytes := by
  unfold ResponseCache.put at h
  split at h
  · exact Or.inl h
  split at h
  · exact Or.inl h
  · rename_i room hroom
    rw [Table.lookup_insert_ite] at h
    split at h
    · rename_i hkey
      rw [← Option.some.inj h]
      exact Or.inr ⟨hkey, rfl⟩
    · exact Or.inl (makeRoom_lookup hroom h)

end Lookups

section Runs

variable {st : ServerState} {v : Visit} {req : ParsedRequest} {path bytes key : Bytes}
variable {hdrs : Headers} {entry : CacheEntry} {codings : List Bytes}

theorem afterLookup_lookup
    {env : Env} (h : (afterLookup env st req).cache.entries.lookup key = some entry) :
    st.cache.entries.lookup key = some entry := by
  unfold afterLookup at h
  split at h
  · exact get_lookup h
  · exact h

theorem Files.parses
    (h : Files st v req path hdrs bytes) :
    parseRequest v.raw = .ok req := by
  cases h with
  | finished hreq hhandler hstored =>
      obtain ⟨first, last, henters, -⟩ := hreq.enters
      exact henters.parses

theorem Files.answered
    (h : Files st v req path hdrs bytes) :
    (v.outcome st).result.bytes = bytes := by
  cases h with
  | finished hreq hhandler hstored =>
      have hends : Ends v.ctx v.env st v.raw _ := .finished hreq hhandler
      unfold Visit.outcome
      rw [hends.dispatch_eq]

theorem Files.isCachedMethod
    (h : Files st v req path hdrs bytes) :
    isCachedMethod req.method = true := by
  cases h with
  | finished hreq hhandler hstored =>
      unfold isCacheable at hstored
      simp only [Bool.and_eq_true] at hstored
      exact hstored.1.1.1

/-- An entry is older than the visit, or it is the answer to it. -/
theorem step_lookup
    (h : (Visit.step st v).cache.entries.lookup key = some entry) :
    st.cache.entries.lookup key = some entry ∨
      ∃ req path hdrs, Files st v req path hdrs entry.bytes ∧
        key = cacheKey req.host req.method path := by
  have hends := ends_dispatch v.ctx v.env st v.raw
  unfold Visit.step Visit.outcome at h
  generalize dispatch v.ctx v.env st v.raw = o at h hends
  cases hends with
  | blocked | badRequest => exact Or.inl h
  | @finished req routed server location resp effects hreq hhandler =>
      obtain ⟨first, path, -, -, -, rfl⟩ := hreq.enters
      by_cases hstored : (isCacheable req.method resp.status
          (finalHeaders v.ctx v.env server location { req with path := path } resp) &&
            !requestBypassesCache req.headers) = true
      · unfold finish at h
        dsimp only at h
        rw [if_pos hstored] at h
        rcases put_lookup h with h | ⟨hkey, hbytes⟩
        · exact Or.inl (afterLookup_lookup h)
        · have hfiles := Files.finished hreq hhandler hstored
          refine Or.inr ⟨req, path, finalHeaders v.ctx v.env server location
            { req with path := path } resp, ?_, hkey⟩
          rw [hbytes]
          exact hfiles
      · unfold finish at h
        dsimp only at h
        rw [if_neg hstored] at h
        exact Or.inl (afterLookup_lookup h)
  | _ => exact Or.inl (afterLookup_lookup h)

/-- Every entry is the answer to a visit so far, under the key of its path. -/
def Filed (before : List (ServerState × Visit)) (st : ServerState) : Prop :=
  ∀ key entry, st.cache.entries.lookup key = some entry →
    ∃ earlier ∈ before, ∃ req path hdrs, Files earlier.1 earlier.2 req path hdrs entry.bytes ∧
      key = cacheKey req.host req.method path

theorem filed_step
    {before : List (ServerState × Visit)} (h : Filed before st) :
    Filed (before ++ [(st, v)]) (Visit.step st v) := by
  intro key entry hentry
  rcases step_lookup hentry with hold | ⟨req, path, hdrs, hfiles, hkey⟩
  · obtain ⟨earlier, hmem, hfiled⟩ := h key entry hold
    exact ⟨earlier, List.mem_append_left _ hmem, hfiled⟩
  · exact ⟨(st, v), List.mem_append_right _ (List.mem_singleton.mpr rfl), req, path, hdrs, hfiles,
      hkey⟩

theorem filed_run
    (hempty : st.cache.entries = ∅) (visits : List Visit) :
    Filed (Run.transitions Visit.step st visits) (visits.foldl Visit.step st) := by
  have hinit : Filed [] st := by
    intro key entry hentry
    rw [hempty] at hentry
    cases hentry
  have hsteps : Run.Steps Visit.step (fun _ _ => True) st visits := by
    clear hempty hinit
    induction visits generalizing st with
    | nil => trivial
    | cons v visits ih => exact ⟨trivial, ih⟩
  exact Run.history_rule (fun before st v h _ => filed_step h) hinit hsteps

theorem bar_not_mem_of_isCachedMethod
    {method : Bytes} (h : isCachedMethod method = true) :
    (124 : UInt8) ∉ method := by
  unfold isCachedMethod at h
  rw [Bool.or_eq_true, beq_iff_eq, beq_iff_eq] at h
  rcases h with rfl | rfl
  · decide
  · decide

/-- Keys of hosts and methods without a separator have one reading. -/
theorem cacheKey_inj
    {host method uri host' method' uri' : Bytes} (hhost : (124 : UInt8) ∉ host)
    (hhost' : (124 : UInt8) ∉ host') (hmethod : (124 : UInt8) ∉ method)
    (hmethod' : (124 : UInt8) ∉ method')
    (h : cacheKey host method uri = cacheKey host' method' uri') :
    host = host' ∧ method = method' ∧ uri = uri' := by
  obtain ⟨rfl, hrest⟩ := Framed.eq_of_quote hhost hhost' h
  exact ⟨rfl, Framed.eq_of_quote hmethod hmethod' hrest⟩

/-- A request that is answered from the cache finds the entry under its key. -/
theorem cacheHit_entry
    (hparses : parseRequest v.raw = .ok req) (hhit : (v.outcome st).exit = .cacheHit) :
    isCachedMethod req.method = true ∧ ∃ entry,
      st.cache.entries.lookup (requestKey req) = some entry ∧
        (v.outcome st).result.bytes = entry.bytes := by
  obtain ⟨req', bytes, hreceived, hanswer⟩ := exit_cacheHit_iff.mp hhit
  obtain rfl : req' = req := Except.ok.inj (hreceived.parses.symm.trans hparses)
  have hends : Ends v.ctx v.env st v.raw _ := .cacheHit hreceived hanswer
  unfold Visit.outcome
  rw [hends.dispatch_eq]
  unfold cachedAnswer at hanswer
  split at hanswer
  · rename_i hasks
    unfold asksCache at hasks
    obtain ⟨entry, hentry, hbytes, -⟩ := get_fresh hanswer
    exact ⟨(Bool.and_eq_true_iff.mp hasks).1, entry, hentry, hbytes.symm⟩
  · cases hanswer

/--
A run whose steps all keep answers apart is coherent: what is answered from the cache was the
answer to an earlier request for the same, in codings that the client accepts.
-/
theorem cache_coherent
    (codings : List Bytes) (st : ServerState) (ttlSecs maxSize : Nat) (visits : List Visit)
    (hempty : st.cache = .new ttlSecs maxSize)
    (hsteps : Run.Steps Visit.step (Unmixed codings) st visits) :
    CacheCoherent st visits := by
  intro before v after req hvisits hparses hhit
  rw [hvisits, Run.steps_append_iff] at hsteps
  obtain ⟨hbefore, hnow, -⟩ := hsteps
  have hfiled : Filed (Run.transitions Visit.step st before) (before.foldl Visit.step st) := by
    apply filed_run
    rw [hempty]
    rfl
  have hapart := Run.transitions_rule (P := fun _ => True) (fun _ _ _ _ => trivial) trivial hbefore
  obtain ⟨hmethod, entry, hentry, hbytes⟩ := cacheHit_entry hparses hhit
  obtain ⟨earlier, hmem, asked, path, hdrs, hfiles, hkey⟩ := hfiled _ _ hentry
  obtain ⟨rfl, hhost', hcodings⟩ := (hapart earlier hmem).2.stored _ _ _ _ hfiles
  have hfound : requestKey req ∈ (before.foldl Visit.step st).cache.entries :=
    AList.lookup_isSome.mp (by rw [hentry]; rfl)
  obtain ⟨hhost, haccepts⟩ := hnow.found req hparses hfound
  obtain ⟨hsamehost, hsamemethod, hsameuri⟩ := cacheKey_inj hhost hhost'
    (bar_not_mem_of_isCachedMethod hmethod) (bar_not_mem_of_isCachedMethod hfiles.isCachedMethod)
    hkey
  refine ⟨earlier, hmem, ?_, asked, asked.fullUri, hdrs, hfiles.parses, ?_, hsamehost.symm,
    hsamemethod.symm, hsameuri.symm, ?_⟩
  · rw [hbytes]
    exact hfiles.answered
  · rw [hbytes]
    exact hfiles
  · intro coding hcoding
    exact haccepts coding (hcodings coding hcoding)

end Runs

section Example

/-- A request with this line, to a file server that does not compress. -/
def visitOf (line : String) : Visit :=
  ⟨fileContext false, quietEnv repeatedFiles, requestOf [line]⟩

def plainVisit : Visit :=
  visitOf "GET /a.txt HTTP/1.1"

theorem plainVisit_parses :
    parseRequest plainVisit.raw = .ok (fileAsked (ascii "GET") []) := by
  decide +kernel

theorem plainVisit_unmixed
    (st : ServerState) :
    Unmixed [] st plainVisit := by
  refine ⟨?_, ?_⟩
  · intro req path hdrs bytes hfiles
    obtain rfl := Except.ok.inj (hfiles.parses.symm.trans plainVisit_parses)
    cases hfiles with
    | @finished server location resp effects hreq hhandler hstored =>
        obtain ⟨first, last, henters, hlocation, hlast, hrouted⟩ := hreq.enters
        have hserver : server = serverAt (ascii "/srv") := hreq.server_eq
        subst hserver
        obtain rfl : ascii "/a.txt" = first := Option.some.inj henters.rewritten
        obtain rfl : location = none := hlocation
        obtain rfl : ascii "/a.txt" = last := Option.some.inj hlast
        obtain rfl : path = ascii "/a.txt" := congrArg ParsedRequest.path hrouted
        have hresp : (staticHandler repeatedFiles (serverAt (ascii "/srv")) none (ascii "/a.txt")
            (ascii "GET") [], []) = (resp, effects) := Except.ok.inj hhandler
        cases hresp
        have hplain : contentCodings (finalHeaders plainVisit.ctx plainVisit.env
            (serverAt (ascii "/srv")) none (fileAsked (ascii "GET") [])
            (staticHandler repeatedFiles (serverAt (ascii "/srv")) none (ascii "/a.txt")
              (ascii "GET") [])) = [] := by
          decide +kernel
        refine ⟨rfl, nofun, fun coding hcoding => ?_⟩
        rw [← hplain]
        exact hcoding
  · intro req hparses hfound
    obtain rfl := Except.ok.inj (hparses.symm.trans plainVisit_parses)
    exact ⟨nofun, nofun⟩

/-- A file that is asked for twice comes from the cache the second time. -/
theorem cache_coherent_example :
    (plainVisit.outcome (Visit.step (stateWithCache 60 10) plainVisit)).exit = .cacheHit ∧
      CacheCoherent (stateWithCache 60 10) [plainVisit, plainVisit] :=
  ⟨by decide +kernel,
    cache_coherent [] _ 60 10 _ rfl ⟨plainVisit_unmixed _, plainVisit_unmixed _, trivial⟩⟩

/-- The answer to a request with a query is given to one without. -/
theorem query_dropped :
    ¬ ∀ (st : ServerState) (ttlSecs maxSize : Nat) (visits : List Visit), 0 < ttlSecs →
      0 < maxSize → st.cache = .new ttlSecs maxSize → CacheCoherent st visits := by
  intro h
  let asked := visitOf "GET /a.txt?x HTTP/1.1"
  have hparses : parseRequest asked.raw =
      .ok { fileAsked (ascii "GET") [] with query := ascii "x", fullUri := ascii "/a.txt?x" } := by
    decide +kernel
  have hhit : (plainVisit.outcome (Visit.step (stateWithCache 60 10) asked)).exit = .cacheHit := by
    decide +kernel
  obtain ⟨earlier, hmem, hproduced⟩ := h (stateWithCache 60 10) 60 10 [asked, plainVisit]
    (by decide) (by decide) rfl [asked] plainVisit [] _ rfl plainVisit_parses hhit
  obtain rfl : earlier = (stateWithCache 60 10, asked) := List.mem_singleton.mp hmem
  obtain ⟨req, path, hdrs, hreq, -, -, -, huri, -⟩ := hproduced.same
  obtain rfl := Except.ok.inj (hreq.symm.trans hparses)
  exact absurd huri (by decide)

end Example

end Handler
end RunNginx
