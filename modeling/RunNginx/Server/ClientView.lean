import RunNginx.Proxy.Messages
import RunNginx.Server.FieldValues

/-!
# What a client reads off its connection

A client takes the head of an answer, and by its fields the body: a number of bytes, chunks,
or everything up to the end of the connection.  Then it undoes the content codings that were
added on the way.

`clientReads_of_length`: an answer with the Content-Length of its body is read as it is meant.
`clientReads_close_iff`: one without is so exactly if the connection ends behind it.
-/

namespace RunNginx
namespace Handler

open ByteString HttpMessage Proxy StaticFiles

/-- Functions that undo what the compressors of the server do. -/
structure Decoders (env : Env) where
  undo : Bytes → Bytes → Option Bytes
  gzip : ∀ body coded, env.gzip body = some coded → undo (ascii "gzip") coded = some body
  brotli : ∀ body coded, env.brotli body = some coded → undo (ascii "br") coded = some body

variable {env : Env}

/-- The last coding is undone first. -/
def Decoders.undoAll (dec : Decoders env) (codings : List Bytes) (body : Bytes) : Option Bytes :=
  codings.foldr (fun coding rest => rest.bind (dec.undo coding)) (some body)

/--
A client reads this status and this body, whatever follows on a connection that is kept open.
The first `known` content codings are those of the body itself.
-/
def ClientReads (dec : Decoders env) (known : Nat) (keepAlive : Bool) (bytes : Bytes)
    (status : Nat) (body : Option Bytes) : Prop :=
  ∃ startLine fieldLines got framing sent,
    parseHead bytes = some (startLine :: fieldLines, got) ∧
      ascii "HTTP/1.1 " ++ Decimal.render status ++ ascii " " <+: startLine ∧
      Framing.DeclaredBy fieldLines framing ∧
      (∀ later, (keepAlive = false → later = []) → framing.take (got ++ later) = some sent) ∧
      dec.undoAll ((valuesOf (ascii "content-encoding") fieldLines).drop known) sent = body

/-- The fields that say how a body is sent. -/
def bodyFields : List Bytes :=
  [ascii "content-length", ascii "transfer-encoding", ascii "content-encoding"]

/-- A header that ends no line and says nothing about the body. -/
def Neutral (h : Bytes × Bytes) : Prop :=
  CleanHeader h ∧ ∀ name ∈ bodyFields, eqIgnoreCase h.1 name = false

instance (h : Bytes × Bytes) : Decidable (Neutral h) := by
  unfold Neutral
  infer_instance

section Sent

variable {ctx : Context} {st : ServerState} {server : ServerBlock}
variable {location : Option LocationBlock} {req : ParsedRequest} {resp : StaticResponse}
variable {effects : List Effect} {dec : Decoders env} {name : Bytes}

/-- A coding is undone. -/
theorem undo_encodeBody
    (dec : Decoders env) :
    dec.undoAll (encodeBody ctx env location req resp).2.toList
      (encodeBody ctx env location req resp).1 = some resp.body := by
  by_cases hplain : SentPlain ctx env location req (contentTypeOf resp.headers) resp.body
  · rw [encodeBody_of_plain hplain]
    rfl
  · obtain ⟨coding, coded, heq, ⟨rfl, hgzip⟩ | ⟨rfl, hbrotli⟩⟩ := encodeBody_of_not_plain hplain
    · rw [heq]
      exact dec.gzip _ _ hgzip
    · rw [heq]
      exact dec.brotli _ _ hbrotli

theorem finished_clean
    (hheaders : ∀ h ∈ resp.headers, CleanHeader h)
    (hconfigured : ∀ h ∈ configuredHeaders server location, CleanHeader h) :
    ∀ h ∈ (finishedMessage ctx env server location req resp).fields, CleanHeader h := by
  have hhsts : ∀ h ∈ hstsHeaders env server, CleanHeader h := by
    intro h hh
    unfold hstsHeaders at hh
    split at hh
    · split at hh
      · rw [List.mem_singleton.mp hh]
        exact (other_of_name (by decide) (not_lf_hstsValue server _)).1
      · cases hh
    · cases hh
  have hencoded := (encodedHeaders_clean hheaders
    (encodeBody_coding ctx env location req resp)
    (encodeBody ctx env location req resp).1.length).1
  unfold finishedMessage replyMessage finalHeaders
  rw [addedHeaders_eq]
  refine List.forall_mem_cons.mpr ⟨by decide, List.forall_mem_append.mpr
    ⟨List.forall_mem_append.mpr ⟨hencoded, List.forall_mem_append.mpr ⟨hconfigured, hhsts⟩⟩, ?_⟩⟩
  cases req.keepAlive <;> decide

/-- The head of an answer, and its body, as they are read. -/
theorem parseHead_finish
    (hheaders : ∀ h ∈ resp.headers, CleanHeader h)
    (hconfigured : ∀ h ∈ configuredHeaders server location, CleanHeader h) :
    parseHead (finish ctx env st server location req resp effects).result.bytes =
      some ((finishedMessage ctx env server location req resp).startLine ::
          (finishedMessage ctx env server location req resp).fields.map Response.headerLine,
        (encodeBody ctx env location req resp).1) := by
  have hbytes : (finish ctx env st server location req resp effects).result.bytes =
      (finishedMessage ctx env server location req resp).bytes := by
    rw [finishedMessage, replyMessage_bytes]
    rfl
  have hclean := @finished_clean env ctx server location req resp hheaders hconfigured
  have hstatus : (10 : UInt8) ∉ (finishedMessage ctx env server location req resp).startLine := by
    have h1 : (10 : UInt8) ∉ ascii "HTTP/1.1 " := by decide
    have h2 : (10 : UInt8) ∉ ascii " " := by decide
    simp [finishedMessage, replyMessage, h1, h2, not_lf_render, not_lf_statusReason]
  have hstart : (finishedMessage ctx env server location req resp).startLine ≠ [] := by
    simp [finishedMessage, replyMessage, ascii]
  rw [hbytes, Message.bytes, Message.lines]
  refine parseHead_joinLines ?_ ?_ _
  · refine List.forall_mem_cons.mpr ⟨crlfFree_of_not_mem hstatus, ?_⟩
    rw [List.forall_mem_map]
    exact fun h hh => headerLine_crlfFree (hclean h hh)
  · refine List.forall_mem_cons.mpr ⟨hstart, ?_⟩
    rw [List.forall_mem_map]
    exact fun h _ => headerLine_ne_nil h

/-- The fields that say how the body is sent are those of the handler and of its coding. -/
theorem finished_values
    (hneutral : ∀ h ∈ configuredHeaders server location, Neutral h) :
    ∀ name ∈ bodyFields, fieldValues name (finishedMessage ctx env server location req resp).fields =
      fieldValues name (encodedHeaders resp.headers (encodeBody ctx env location req resp).2
        (encodeBody ctx env location req resp).1.length) := by
  have hown : ∀ name ∈ bodyFields, eqIgnoreCase (ascii "Server") name = false ∧
      eqIgnoreCase (ascii "Connection") name = false ∧
      eqIgnoreCase (ascii "Strict-Transport-Security") name = false := by
    decide
  have hcolon : (58 : UInt8) ∉ ascii "Strict-Transport-Security" := by decide
  intro name hname
  obtain ⟨hserver, hconnection, hsts⟩ := hown name hname
  have hhsts : fieldValues name (hstsHeaders env server) = [] := by
    unfold hstsHeaders
    split
    · split
      · rw [fieldValues_cons_other ⟨hcolon, hsts⟩, fieldValues_nil]
      · rfl
    · rfl
  have hconfigured : fieldValues name (configuredHeaders server location) = [] :=
    fieldValues_of_other fun h hh => ⟨(hneutral h hh).1.2.1, (hneutral h hh).2 name hname⟩
  rw [finishedMessage, fieldValues_replyMessage hserver hconnection, fieldValues_finalHeaders,
    hhsts, hconfigured, List.append_nil, List.append_nil]

/-- A new length takes the place of the first one that is there. -/
theorem contentLength_replaced
    {hdrs : Headers} (hcolon : ∀ h ∈ hdrs, (58 : UInt8) ∉ h.1) (len : Nat) :
    fieldValues (ascii "content-length") (replaceContentLength len hdrs) =
      match fieldValues (ascii "content-length") hdrs with
      | [] => []
      | _ :: values => Decimal.render len :: values := by
  induction hdrs with
  | nil => rfl
  | cons h hdrs ih =>
      obtain ⟨hh, hrest⟩ := List.forall_mem_cons.mp hcolon
      unfold replaceContentLength
      split
      · rename_i hname
        rw [fieldValues_cons_named (by decide), trimBy_blank_render, fieldValues_cons h,
          fieldValues_singleton hh, if_pos hname]
        rfl
      · rename_i hname
        rw [fieldValues_cons, fieldValues_cons h hdrs, fieldValues_singleton hh, if_neg hname,
          ih hrest]
        rfl

/-- The coding that is added is read as it is written. -/
theorem codings_encoded
    (ctx : Context) (env : Env) (location : Option LocationBlock) (req : ParsedRequest)
    (resp : StaticResponse) :
    fieldValues (ascii "content-encoding") (encodedHeaders resp.headers
        (encodeBody ctx env location req resp).2
        (encodeBody ctx env location req resp).1.length) =
      fieldValues (ascii "content-encoding") resp.headers ++
        (encodeBody ctx env location req resp).2.toList := by
  have hname : (58 : UInt8) ∉ ascii "Content-Encoding" ∧
      eqIgnoreCase (ascii "Content-Encoding") (ascii "content-encoding") = true := by
    decide
  have hgzip : trimBy isOws (32 :: ascii "gzip") = ascii "gzip" := by decide
  have hbrotli : trimBy isOws (32 :: ascii "br") = ascii "br" := by decide
  rw [fieldValues_encodedHeaders (by decide)]
  by_cases hplain : SentPlain ctx env location req (contentTypeOf resp.headers) resp.body
  · rw [encodeBody_of_plain hplain]
    rfl
  · obtain ⟨coding, coded, heq, ⟨rfl, -⟩ | ⟨rfl, -⟩⟩ := encodeBody_of_not_plain hplain
    · rw [heq, Option.toList_some, List.map_singleton, fieldValues_cons_named hname,
        fieldValues_nil, hgzip]
    · rw [heq, Option.toList_some, List.map_singleton, fieldValues_cons_named hname,
        fieldValues_nil, hbrotli]

/-- What a client undoes of an answer leaves the body of the handler. -/
theorem undo_finished
    (dec : Decoders env) (hneutral : ∀ h ∈ configuredHeaders server location, Neutral h) :
    dec.undoAll ((fieldValues (ascii "content-encoding")
          (finishedMessage ctx env server location req resp).fields).drop
        (fieldValues (ascii "content-encoding") resp.headers).length)
      (encodeBody ctx env location req resp).1 = some resp.body := by
  rw [finished_values hneutral _ (by decide), codings_encoded, List.drop_left,
    undo_encodeBody]

theorem statusLine_prefix
    (ctx : Context) (env : Env) (server : ServerBlock) (location : Option LocationBlock)
    (req : ParsedRequest) (resp : StaticResponse) :
    ascii "HTTP/1.1 " ++ Decimal.render resp.status ++ ascii " " <+:
      (finishedMessage ctx env server location req resp).startLine :=
  ⟨Response.statusReason resp.status, rfl⟩

/-- The server codes no body for the transfer. -/
theorem finished_no_transfer
    (hneutral : ∀ h ∈ configuredHeaders server location, Neutral h)
    (hcoding : fieldValues (ascii "transfer-encoding") resp.headers = []) :
    fieldValues (ascii "transfer-encoding")
      (finishedMessage ctx env server location req resp).fields = [] := by
  have hname : ((encodeBody ctx env location req resp).2.toList.map fun coding =>
      (ascii "Content-Encoding", coding)).map Prod.fst ⊆ [ascii "Content-Encoding"] := by
    cases (encodeBody ctx env location req resp).2 <;> simp
  rw [finished_values hneutral _ (by decide), fieldValues_encodedHeaders (by decide), hcoding,
    List.nil_append]
  exact fieldValues_of_names hname (by decide)

/-- The length that is sent, from that of the handler. -/
theorem finished_length
    (hheaders : ∀ h ∈ resp.headers, CleanHeader h)
    (hneutral : ∀ h ∈ configuredHeaders server location, Neutral h) :
    fieldValues (ascii "content-length")
        (finishedMessage ctx env server location req resp).fields =
      match (encodeBody ctx env location req resp).2,
        fieldValues (ascii "content-length") resp.headers with
      | none, values => values
      | some _, [] => []
      | some _, _ :: values =>
          Decimal.render (encodeBody ctx env location req resp).1.length :: values := by
  have hcolon : ∀ coding, ∀ h ∈ resp.headers ++ [(ascii "Content-Encoding", coding)],
      (58 : UInt8) ∉ h.1 := by
    have hname : (58 : UInt8) ∉ ascii "Content-Encoding" := by decide
    intro coding
    refine List.forall_mem_append.mpr ⟨fun h hh => (hheaders h hh).2.1, ?_⟩
    exact List.forall_mem_singleton.mpr hname
  rw [finished_values hneutral _ (by decide)]
  cases (encodeBody ctx env location req resp).2 with
  | none => rfl
  | some coding =>
      have hother : fieldValues (ascii "content-length")
          [(ascii "Content-Encoding", coding)] = [] := by
        rw [fieldValues_cons_other (by decide), fieldValues_nil]
      rw [encodedHeaders, contentLength_replaced (hcolon coding), fieldValues_append, hother,
        List.append_nil]
      cases fieldValues (ascii "content-length") resp.headers <;> rfl

/-- An answer that declares the length of its body is read as it is meant. -/
theorem clientReads_of_length
    (hheaders : ∀ h ∈ resp.headers, CleanHeader h)
    (hneutral : ∀ h ∈ configuredHeaders server location, Neutral h)
    (hcoding : fieldValues (ascii "transfer-encoding") resp.headers = []) {v : Bytes}
    (hlength : fieldValues (ascii "content-length") resp.headers = [v])
    (hv : IsNumeral v resp.body.length) :
    ClientReads dec (fieldValues (ascii "content-encoding") resp.headers).length req.keepAlive
      (finish ctx env st server location req resp effects).result.bytes resp.status
      (some resp.body) := by
  have hcodings := @finished_no_transfer env ctx server location req resp hneutral hcoding
  -- the length that is sent is that of the handler, or that of the coded body
  have hsent : ∃ v', fieldValues (ascii "content-length")
        (finishedMessage ctx env server location req resp).fields = [v'] ∧
      IsNumeral v' (encodeBody ctx env location req resp).1.length := by
    rw [finished_length hheaders hneutral, hlength]
    cases hcoded : (encodeBody ctx env location req resp).2 with
    | none =>
        have hplain := encodeBody_of_plain (encodeBody_coding_eq_none_iff.mp hcoded)
        refine ⟨v, rfl, ?_⟩
        rw [hplain]
        exact hv
    | some coding => exact ⟨_, rfl, isNumeral_render _⟩
  obtain ⟨v', hlengths, hv'⟩ := hsent
  refine ⟨_, _, _, .length (encodeBody ctx env location req resp).1.length, _,
    parseHead_finish hheaders fun h hh => (hneutral h hh).1,
    statusLine_prefix ctx env server location req resp, ⟨hcodings, v', hlengths, hv'⟩,
    fun later _ => ?_, undo_finished dec hneutral⟩
  rw [Framing.take, if_pos (by rw [List.length_append]; omega), List.take_left]

/-- One that declares none is so if the connection ends behind it, and never otherwise. -/
theorem clientReads_close_iff
    (hheaders : ∀ h ∈ resp.headers, CleanHeader h)
    (hneutral : ∀ h ∈ configuredHeaders server location, Neutral h)
    (hcoding : fieldValues (ascii "transfer-encoding") resp.headers = [])
    (hlength : fieldValues (ascii "content-length") resp.headers = []) {body : Option Bytes} :
    ClientReads dec (fieldValues (ascii "content-encoding") resp.headers).length req.keepAlive
        (finish ctx env st server location req resp effects).result.bytes resp.status body ↔
      req.keepAlive = false ∧ body = some resp.body := by
  have hclean := fun h hh => (hneutral h hh).1
  have hhead := @parseHead_finish env ctx st server location req resp effects hheaders hclean
  have hcodings := @finished_no_transfer env ctx server location req resp hneutral hcoding
  have hlengths : fieldValues (ascii "content-length")
      (finishedMessage ctx env server location req resp).fields = [] := by
    rw [finished_length hheaders hneutral, hlength]
    cases (encodeBody ctx env location req resp).2 <;> rfl
  have hclose : Framing.DeclaredBy ((finishedMessage ctx env server location req
      resp).fields.map Response.headerLine) .close := by
    refine ⟨hlengths, ?_⟩
    rintro ⟨c, hlast, -⟩
    rw [fieldValues] at hcodings
    rw [transferCodings, hcodings] at hlast
    cases hlast
  constructor
  · rintro ⟨startLine, fieldLines, got, framing, sent, hparse, -, hframing, htake, rfl⟩
    rw [hhead, Option.some.injEq, Prod.mk.injEq, List.cons.injEq] at hparse
    obtain ⟨⟨-, rfl⟩, rfl⟩ := hparse
    obtain rfl := hframing.unique hclose
    have hnow := Option.some.inj (htake [] fun _ => rfl)
    rw [List.append_nil] at hnow
    refine ⟨?_, ?_⟩
    · by_contra hkeep
      have hlater := Option.some.inj (htake [0] fun hclosed => absurd hclosed hkeep)
      have hboth := congrArg List.length (hnow.trans hlater.symm)
      rw [List.length_append, List.length_singleton] at hboth
      omega
    · rw [← hnow]
      exact undo_finished dec hneutral
  · rintro ⟨hkeep, rfl⟩
    refine ⟨_, _, _, .close, _, hhead, statusLine_prefix ctx env server location req resp,
      hclose, fun later hlater => ?_, undo_finished dec hneutral⟩
    rw [hlater hkeep, List.append_nil]
    rfl

end Sent

end Handler
end RunNginx
