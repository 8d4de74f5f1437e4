import RunNginx.Server.Exits

/-!
# How large a body may be

The declared length is compared with the limit after it was read as a machine integer, and
a number that does not fit in one counts as zero.

`oversized_refused_iff`: of the bodies above the limit, those are refused whose length fits.
-/

namespace RunNginx
namespace Handler

open ByteString

variable {ctx : Context} {env : Env} {st : ServerState} {raw : Bytes}
  {req : ParsedRequest} {server : ServerBlock} {location : Option LocationBlock}
  {routed : ParsedRequest} {n : Nat}

section Length

/-- The length that a request with this text declares. -/
theorem contentLen_of_render
    {headers : Headers}
    (h : Request.getHeader headers (ascii "content-length") = some (Decimal.render n)) :
    Request.contentLen headers = if n < Decimal.usizeBound then n else 0 := by
  unfold Request.contentLen
  rw [h, Option.bind_some]
  split
  · rename_i hlt
    rw [Decimal.parseUnsigned_render hlt]
    rfl
  · rename_i hge
    rw [Decimal.parseUnsigned_render_eq_none (Nat.not_lt.mp hge)]
    rfl

theorem Received.contentLen_eq
    (h : Received env raw req) :
    req.contentLen = Request.contentLen req.headers := by
  have hparses := h.parses
  unfold parseRequest at hparses
  split at hparses
  · cases hparses
  split at hparses
  · cases hparses
  split at hparses
  · cases hparses
  · cases hparses
    rfl

theorem Routes.contentLen_eq
    (h : Routes ctx env st raw req server location routed) :
    routed.contentLen = Request.contentLen req.headers := by
  obtain ⟨first, path, henters, -, -, rfl⟩ := h.enters
  exact henters.toReceived.contentLen_eq

end Length

section Refusal

variable (ctx env st raw req server location routed) in
/-- The request is answered 413, and it does not get to a handler. -/
def Refused : Prop :=
  (dispatch ctx env st raw).result.status = 413 ∧
    ¬ Admitted ctx env st raw req server location routed

/-- A length that fits is compared with the limit. -/
theorem refused_of_fits
    (hreq : WithinRate ctx env st raw req server location routed)
    (hlength : Request.getHeader req.headers (ascii "content-length") = some (Decimal.render n))
    (hover : maxBody ctx server location < n) (hn : n < Decimal.usizeBound) :
    Refused ctx env st raw req server location routed := by
  have hlen : routed.contentLen = n := by
    rw [hreq.toRoutes.contentLen_eq, contentLen_of_render hlength, if_pos hn]
  have hlarge : maxBody ctx server location < routed.contentLen := by
    rw [hlen]
    exact hover
  refine ⟨?_, fun h => Nat.not_lt.mpr h.fits hlarge⟩
  rw [(Ends.tooLarge hreq hlarge).dispatch_eq]
  rfl

/-- One that does not fit gets past the limit. -/
theorem fits_of_overflow
    (hreq : WithinRate ctx env st raw req server location routed)
    (hlength : Request.getHeader req.headers (ascii "content-length") = some (Decimal.render n))
    (hn : ¬ n < Decimal.usizeBound) :
    Fits ctx env st raw req server location routed := by
  refine ⟨hreq, ?_⟩
  rw [hreq.toRoutes.contentLen_eq, contentLen_of_render hlength, if_neg hn]
  exact Nat.zero_le _

/--
A body above the limit is refused exactly if its length fits in a machine integer, or if all
requests to its location are answered 413.
-/
theorem oversized_refused_iff
    (hreq : WithinRate ctx env st raw req server location routed)
    (hlength : Request.getHeader req.headers (ascii "content-length") = some (Decimal.render n))
    (hover : maxBody ctx server location < n) :
    Refused ctx env st raw req server location routed ↔
      n < Decimal.usizeBound ∨ ∃ rd, returnFor server location = some rd ∧ rd.status = 413 := by
  by_cases hn : n < Decimal.usizeBound
  · exact iff_of_true (refused_of_fits hreq hlength hover hn) (.inl hn)
  have hfits := fits_of_overflow hreq hlength hn
  rw [or_iff_right hn]
  cases hreturn : returnFor server location with
  | none =>
      refine iff_of_false ?_ nofun
      exact fun h => h.2 ⟨hfits, hreturn⟩
  | some rd =>
      have hstatus : (dispatch ctx env st raw).result.status = rd.status := by
        rw [(Ends.returned hfits hreturn).dispatch_eq]
        rfl
      constructor
      · exact fun h => ⟨rd, rfl, hstatus ▸ h.1⟩
      · rintro ⟨_, hsame, h⟩
        cases hsame
        refine ⟨hstatus.trans h, fun hadmitted => ?_⟩
        have hnone := hadmitted.noReturn
        rw [hreturn] at hnone
        cases hnone

end Refusal

section Example

/-- A request that is refused for its size or answered has passed the gates before that. -/
theorem exists_withinRate
    (h : (dispatch ctx env st raw).exit = .tooLarge ∨ (dispatch ctx env st raw).exit = .finished) :
    ∃ req server location routed, WithinRate ctx env st raw req server location routed := by
  have hends := ends_dispatch ctx env st raw
  generalize dispatch ctx env st raw = o at h hends
  cases hends with
  | tooLarge hreq hlarge => exact ⟨_, _, _, _, hreq⟩
  | finished hreq hresp => exact ⟨_, _, _, _, hreq.toWithinRate⟩
  | _ => rcases h with h | h <;> cases h

/-- A client that sends these lines to a server without locations. -/
def answerTo (lines : List String) : Outcome :=
  dispatch (contextOf (StaticFiles.serverAt (ascii "/srv"))) (quietEnv StaticFiles.exampleFiles)
    (stateWithCache 0 0) (requestOf lines)

/-- The request behind such an answer, with the length it declares and the limit for it. -/
structure DeclaresLength
    (lines : List String) (n : Nat) (req : ParsedRequest) (server : ServerBlock)
    (location : Option LocationBlock) (routed : ParsedRequest) : Prop where
  gates : WithinRate (contextOf (StaticFiles.serverAt (ascii "/srv")))
    (quietEnv StaticFiles.exampleFiles) (stateWithCache 0 0) (requestOf lines) req server
    location routed
  length : Request.getHeader req.headers (ascii "content-length") = some (Decimal.render n)
  above : maxBody (contextOf (StaticFiles.serverAt (ascii "/srv"))) server location < n

theorem exists_declaresLength
    (lines : List String)
    (hexit : (answerTo lines).exit = .tooLarge ∨ (answerTo lines).exit = .finished)
    (hlength : (parseRequest (requestOf lines)).toOption.map (fun req =>
      Request.getHeader req.headers (ascii "content-length")) = some (some (Decimal.render n)))
    (hover : HttpBlock.default.clientMaxBodySize < n) :
    ∃ req server location routed, DeclaresLength lines n req server location routed := by
  obtain ⟨req, server, location, routed, hreq⟩ := exists_withinRate hexit
  obtain ⟨first, path, henters, hlocation, -⟩ := hreq.enters
  refine ⟨req, server, location, routed, hreq, ?_, ?_⟩
  · rw [henters.parses] at hlength
    exact Option.some.inj hlength
  · have hserver : server = StaticFiles.serverAt (ascii "/srv") := by
      rw [hreq.server_eq]
      exact List.mem_singleton.mp (serverFor_mem _ req)
    cases location with
    | none =>
        rw [hserver]
        exact hover
    | some loc =>
        have hmem := Router.selectLocation_mem hlocation.symm
        rw [hserver] at hmem
        cases hmem

/-- A declared length of a hundred million. -/
theorem oversized_refused_example :
    ∃ req server location routed,
      DeclaresLength ["POST / HTTP/1.1", "Host: a", "Content-Length: 100000000"] (10 ^ 8) req server
          location routed ∧
        Refused (contextOf (StaticFiles.serverAt (ascii "/srv")))
          (quietEnv StaticFiles.exampleFiles) (stateWithCache 0 0)
          (requestOf ["POST / HTTP/1.1", "Host: a", "Content-Length: 100000000"]) req server
          location routed := by
  obtain ⟨req, server, location, routed, h⟩ :=
    exists_declaresLength (n := 10 ^ 8)
      ["POST / HTTP/1.1", "Host: a", "Content-Length: 100000000"]
      (.inl (by decide +kernel)) (by decide +kernel) (by decide)
  exact ⟨req, server, location, routed, h,
    (oversized_refused_iff h.gates h.length h.above).mpr (.inl (by decide))⟩

/-- A declared length of one more than the largest machine integer. -/
def hugeRequest : List String :=
  ["GET /a.txt HTTP/1.1", "Host: a", "Content-Length: 18446744073709551616"]

/-- That is above the limit, and the file is served. -/
theorem overflow_served :
    ∃ req server location routed,
      DeclaresLength hugeRequest (2 ^ 64) req server location routed ∧
        (answerTo hugeRequest).result.status = 200 ∧
        ¬ Refused (contextOf (StaticFiles.serverAt (ascii "/srv")))
          (quietEnv StaticFiles.exampleFiles) (stateWithCache 0 0) (requestOf hugeRequest) req
          server location routed := by
  have hstatus : (answerTo hugeRequest).result.status = 200 := by
    decide +kernel
  obtain ⟨req, server, location, routed, h⟩ :=
    exists_declaresLength (n := 2 ^ 64) hugeRequest (.inr (by decide +kernel)) (by decide +kernel)
      (by decide)
  refine ⟨req, server, location, routed, h, hstatus, fun hrefused => ?_⟩
  have hsame : (answerTo hugeRequest).result.status = 413 := hrefused.1
  rw [hstatus] at hsame
  cases hsame

end Example

end Handler
end RunNginx
