import RunNginx.Lib.Cuts
import RunNginx.Server.ClientView

/-!
# Relayed responses

A response arrives in reads, up to its end, to a cap, or to the point where its upstream gives
up.  The proxy hands on what is there when it stops reading, without its framing, and the
dispatcher writes it to the client.

`relays_iff`: however the reads fall, a client gets the response if all of it arrives, and an
error if not, exactly if the text of the head can be read, all of it arrives within the cap,
the body is not chunked, and the connection of the client tells the end of a body that the one
of the upstream told; or if no read can end behind the head and nothing is due.
`dispatch_relays` is what a client of the server gets of it.
-/

namespace RunNginx
namespace Proxy

open ByteString StaticFiles Stream

section Exchanges

variable {cfg : ProxyConfig} {method path locPrefix body : Bytes} {headers : Headers}
variable {ex : Exchange}

/-- What the proxy makes of these reads. -/
def answerOf (events : List ReadEvent) : Except Bytes StaticResponse :=
  match collect isResponseComplete maxResponseBuffer [] events with
  | .error .timedOut => .error (ascii "proxy read timeout")
  | .error (.failed e) => .error e
  | .ok buf => parseProxyResponse buf

/-- The upstream may be contacted, is reached, and takes the request. -/
structure Reaches (cfg : ProxyConfig) (ex : Exchange) : Prop where
  allowed : ssrfBlock cfg = none
  connected : (getConnection cfg ex).1 = .ok ()
  sent : ex.send = .done

theorem doProxyStream_answer
    (h : ex.send = .done) :
    (doProxyStream cfg method path locPrefix headers body ex).1 = answerOf ex.reads := by
  rw [doProxyStream, sendAndReceive, h]
  rfl

theorem doProxy_answer
    (h : Reaches cfg ex) :
    (doProxy cfg method path locPrefix headers body ex).1 = answerOf ex.reads := by
  have hconnect : ∃ events, getConnection cfg ex = (.ok (), events) :=
    ⟨_, Prod.ext h.connected rfl⟩
  obtain ⟨events, hconnect⟩ := hconnect
  have hanswer := @doProxyStream_answer cfg method path locPrefix body headers ex h.sent
  rw [doProxyStream] at hanswer
  rw [doProxy, h.allowed, hconnect]
  dsimp only
  cases hsent : sendAndReceive (buildProxyRequest cfg method
      (buildUpstreamPath cfg path locPrefix) headers body) ex with
  | mk result sent =>
      rw [hsent] at hanswer
      rw [← hanswer]
      cases result <;> rfl

theorem orBadGateway_of_ok
    {r : Except Bytes StaticResponse × List NetEvent} {resp : StaticResponse}
    (h : r.1 = .ok resp) :
    (orBadGateway r).1 = resp := by
  obtain ⟨answer, events⟩ := r
  obtain rfl : answer = .ok resp := h
  rfl

theorem orBadGateway_of_error
    {r : Except Bytes StaticResponse × List NetEvent} {e : Bytes} (h : r.1 = .error e) :
    (orBadGateway r).1 = badGateway e := by
  obtain ⟨answer, events⟩ := r
  obtain rfl : answer = .error e := h
  rfl

end Exchanges

/--
A part of a response arrives in these pieces, and then the upstream closes.  Behind a response
that says where it ends it may also stay silent.
-/
structure Arrives (m : UpstreamMessage) (part : Bytes) (pieces : List Bytes)
    (events : List ReadEvent) : Prop where
  cut : CutOf readLen part pieces
  ending : events = reads pieces ∨
    events = reads pieces ++ [.timedOut] ∧ part = m.stream ∧ m.framing ≠ .close

section Answers

variable {m : UpstreamMessage} {part : Bytes} {pieces : List Bytes} {events : List ReadEvent}

/-- The answer is an error, or the response with what has been read behind the head. -/
theorem answerOf_arrives
    (hpart : part <+: m.stream) (h : Arrives m part pieces events) :
    (∃ e, answerOf events = .error e) ∨
      ∃ got, Utf8.isUtf8 m.headText = true ∧ m.head ++ got <+: part ∧
        (m.head ++ got).length ≤ maxResponseBuffer + readLen ∧
        (OverCap maxResponseBuffer pieces → (m.head ++ got).length < part.length) ∧
        answerOf events = .ok ⟨m.code, m.kept, got⟩ := by
  obtain ⟨tail, htail, hevents⟩ : ∃ tail, IsEnd tail ∧ events = reads pieces ++ tail := by
    rcases h.ending with rfl | ⟨rfl, -⟩
    · exact ⟨[], Or.inl rfl, (List.append_nil _).symm⟩
    · exact ⟨_, Or.inr rfl, rfl⟩
  unfold answerOf
  cases hread : collect isResponseComplete maxResponseBuffer [] events with
  | error e => cases e <;> exact Or.inl ⟨_, rfl⟩
  | ok buf =>
      rw [hevents] at hread
      obtain ⟨hbuf, hlength, hover⟩ := collect_ok h.cut htail hread
      dsimp only
      rcases ResponseStream.buffer_cases (hbuf.trans hpart) with ⟨got, -, rfl⟩ | ⟨-, hshort⟩
      · rw [UpstreamMessage.parse_head]
        split
        · rename_i hutf8
          exact Or.inr ⟨got, hutf8, hbuf, hlength, hover, rfl⟩
        · exact Or.inl ⟨_, rfl⟩
      · exact Or.inl (UpstreamMessage.parse_short (hbuf.trans hpart) hshort)

/-- There is a cut for which the loop stops behind a head that is no more than one read too long. -/
theorem exists_stop_behind_head
    (hpart : part <+: m.stream) (hle : m.head.length ≤ part.length)
    (hreach : m.head.length ≤ maxResponseBuffer + readLen) :
    ∃ i j, i < j ∧ j ≤ i + readLen ∧ m.head.length ≤ j ∧ j ≤ part.length ∧
      (j = m.head.length ∨ j ≤ maxResponseBuffer + 1) ∧
      (j = i + 1 ∨ maxResponseBuffer < j) ∧
      (∀ n, 0 < n → n ≤ i → ¬ Stops isResponseComplete maxResponseBuffer (part.take n)) ∧
      (Stops isResponseComplete maxResponseBuffer (part.take j) ∨ j = part.length) := by
  refine exists_stop (UpstreamMessage.length_pos m) hle hreach (fun n hn => ?_) (by decide)
  have htake : part.take n = m.stream.take n := by
    obtain ⟨t, ht⟩ := hpart
    rw [← ht, List.take_append_of_le_length (by omega)]
  rw [htake]
  exact UpstreamMessage.incomplete_of_lt hn

/-- What is answered for a cut that stops the loop behind the head. -/
theorem answerOf_cutAt
    {i j : Nat} (hpart : part <+: m.stream) (hutf8 : Utf8.isUtf8 m.headText = true)
    (hij : i < j) (hhead : m.head.length ≤ j) (hj : j ≤ part.length)
    (hgo : ∀ n, 0 < n → n ≤ i →
      ¬ Stops isResponseComplete maxResponseBuffer (part.take n))
    (hstop : Stops isResponseComplete maxResponseBuffer (part.take j) ∨ j = part.length) :
    ∃ got, part.take j = m.head ++ got ∧ got <+: m.body ∧
      answerOf (reads (cutAt i j part)) = .ok ⟨m.code, m.kept, got⟩ := by
  have htake := List.take_prefix j part
  rcases ResponseStream.buffer_cases (htake.trans hpart) with ⟨got, hgot, heq⟩ | ⟨-, hshort⟩
  · refine ⟨got, heq, hgot, ?_⟩
    rw [answerOf, collect_cutAt hij hj hgo hstop, heq]
    dsimp only
    rw [UpstreamMessage.parse_head, if_pos hutf8]
  · rw [List.length_take] at hshort
    omega

end Answers

end Proxy

namespace Handler

open ByteString HttpMessage Proxy StaticFiles Stream

section Due

variable (ctx : Context) {env : Env} (st : ServerState) (server : ServerBlock)
variable (location : Option LocationBlock) (req : ParsedRequest) (effects : List Effect)
variable (dec : Decoders env) (m : UpstreamMessage) (part : Bytes)

/-- What is due for the part of a response that arrives in these pieces. -/
structure Due (pieces : List Bytes) (answer : Except Bytes StaticResponse) : Prop where
  /-- All of it arrives, within the cap: a client reads its status and its body. -/
  whole : part = m.stream → ¬ OverCap maxResponseBuffer pieces →
    ∃ resp, answer = .ok resp ∧
      ClientReads dec (valuesOf (ascii "content-encoding") m.fieldLines).length req.keepAlive
        (finish ctx env st server location req resp effects).result.bytes m.code
        (m.framing.take m.body)
  /-- The upstream closes too early, or the cap is reached: an error. -/
  short : part ≠ m.stream ∨ OverCap maxResponseBuffer pieces → ∃ e, answer = .error e

/-- However a part of a response arrives, both ways to an upstream do with it what is due. -/
def Relays : Prop :=
  ∀ (cfg : ProxyConfig) (method path locPrefix : Bytes) (headers : Headers) (body : Bytes)
    (pieces : List Bytes) (ex : Exchange), Arrives m part pieces ex.reads →
    (Reaches cfg ex → Due ctx st server location req effects dec m part pieces
        (doProxy cfg method path locPrefix headers body ex).1) ∧
      (ex.send = .done → Due ctx st server location req effects dec m part pieces
        (doProxyStream cfg method path locPrefix headers body ex).1)

end Due

section Conditions

variable (m : UpstreamMessage) (part : Bytes) (keepAlive : Bool)

/-- No read can end behind a head that can be read, and nothing is due. -/
def NothingDue : Prop :=
  part.length < m.head.length ∨ maxResponseBuffer + readLen < m.head.length ∨
    Utf8.isUtf8 m.headText = false ∧
      (part ≠ m.stream ∨ maxResponseBuffer + readLen < m.stream.length)

/-- All of a response arrives that keeps its meaning without its framing. -/
structure HandedOn : Prop where
  all : part = m.stream
  readable : Utf8.isUtf8 m.headText = true
  fits : m.body = [] ∨ m.stream.length ≤ maxResponseBuffer + 1
  unchunked : m.framing ≠ .chunked
  /-- Both connections end behind the body, or none does. -/
  closed : m.framing = .close → keepAlive = false

end Conditions

section Exact

variable {ctx : Context} {env : Env} {st : ServerState} {server : ServerBlock}
variable {location : Option LocationBlock} {req : ParsedRequest} {effects : List Effect}
variable {dec : Decoders env} {m : UpstreamMessage} {part got : Bytes} {pieces : List Bytes}
variable {events : List ReadEvent}

theorem ne_length
    (h : m.framing = .close ∨ m.framing = .chunked) (n : Nat) :
    m.framing ≠ .length n := by
  intro hlength
  rcases h with h | h
  · rw [h] at hlength
    cases hlength
  · rw [h] at hlength
    cases hlength

/-- A relayed body of the announced length is read as it is meant. -/
theorem clientReads_relayed
    (hneutral : ∀ h ∈ configuredHeaders server location, Neutral h)
    (hframing : m.framing = .length got.length) :
    ClientReads dec (valuesOf (ascii "content-encoding") m.fieldLines).length req.keepAlive
      (finish ctx env st server location req ⟨m.code, m.kept, got⟩ effects).result.bytes m.code
      (some got) := by
  obtain ⟨v, hlength, hv⟩ := UpstreamMessage.kept_length hframing
  have hcoding : fieldValues (ascii "transfer-encoding") m.kept = [] :=
    UpstreamMessage.kept_hop m (by decide)
  rw [← UpstreamMessage.kept_codings]
  exact clientReads_of_length (UpstreamMessage.kept_clean m) hneutral hcoding hlength hv

/-- A relayed body without a length is read if the connection ends behind it. -/
theorem clientReads_relayed_iff
    (hneutral : ∀ h ∈ configuredHeaders server location, Neutral h)
    (hframing : ∀ n, m.framing ≠ .length n) {body : Option Bytes} :
    ClientReads dec (valuesOf (ascii "content-encoding") m.fieldLines).length req.keepAlive
        (finish ctx env st server location req ⟨m.code, m.kept, got⟩ effects).result.bytes m.code
        body ↔
      req.keepAlive = false ∧ body = some got := by
  have hcoding : fieldValues (ascii "transfer-encoding") m.kept = [] :=
    UpstreamMessage.kept_hop m (by decide)
  have hlength : fieldValues (ascii "content-length") m.kept = [] :=
    UpstreamMessage.kept_no_length hframing
  rw [← UpstreamMessage.kept_codings]
  exact clientReads_close_iff (UpstreamMessage.kept_clean m) hneutral hcoding hlength

theorem length_stream
    (m : UpstreamMessage) :
    m.stream.length = m.head.length + m.body.length :=
  List.length_append

/-- Where nothing is due, there is an error. -/
theorem due_of_nothing
    (hpart : part <+: m.stream) (harrives : Arrives m part pieces events)
    (h : NothingDue m part) :
    Due ctx st server location req effects dec m part pieces (answerOf events) := by
  have hle := hpart.length_le
  have hstream := length_stream m
  have hshort : part ≠ m.stream ∨ OverCap maxResponseBuffer pieces := by
    by_cases hall : part = m.stream
    · refine Or.inr (harrives.cut.overCap ?_)
      have hlength := congrArg List.length hall
      rcases h with h | h | ⟨-, h | h⟩
      · omega
      · omega
      · exact absurd hall h
      · omega
    · exact Or.inl hall
  refine ⟨fun hall hfits => ?_, fun _ => ?_⟩
  · exact absurd hshort (not_or.mpr ⟨fun hne => hne hall, hfits⟩)
  · rcases answerOf_arrives hpart harrives with herror | ⟨got, hutf8, hprefix, hlength, -, -⟩
    · exact herror
    · have hgot := hprefix.length_le
      rw [List.length_append] at hgot hlength
      rcases h with h | h | ⟨h, -⟩
      · omega
      · omega
      · rw [hutf8] at h
        cases h

/-- Where a response is handed on, it is the one that is due. -/
theorem due_of_handedOn
    (hneutral : ∀ h ∈ configuredHeaders server location, Neutral h)
    (harrives : Arrives m part pieces events) (h : HandedOn m part req.keepAlive) :
    Due ctx st server location req effects dec m part pieces (answerOf events) := by
  obtain ⟨rfl, hutf8, hfits, hchunked, hclosed⟩ := h
  have hstream := length_stream m
  refine ⟨fun _ hcap => ?_, fun hshort => ?_⟩
  · have hbound : m.stream.length < Decimal.usizeBound := by
      have hle : m.stream.length ≤ maxResponseBuffer + readLen :=
        Nat.not_lt.mp fun hlong => hcap (harrives.cut.overCap hlong)
      exact Nat.lt_of_le_of_lt hle (by decide)
    have hread : collect isResponseComplete maxResponseBuffer [] events = .ok m.stream := by
      obtain ⟨tail, hevents, htail⟩ : ∃ tail, events = reads pieces ++ tail ∧
          (tail = [] ∨ isResponseComplete m.stream = true ∧ m.stream ≠ []) := by
        rcases harrives.ending with rfl | ⟨rfl, -, hnotclose⟩
        · exact ⟨[], (List.append_nil _).symm, Or.inl rfl⟩
        · refine ⟨_, rfl, Or.inr ⟨?_, ?_⟩⟩
          · cases hframing : m.framing with
            | length n => exact UpstreamMessage.complete_of_length hframing hutf8 hbound
            | chunked => exact absurd hframing hchunked
            | close => exact absurd hframing hnotclose
          · have hpos := UpstreamMessage.length_pos m
            exact List.ne_nil_of_length_pos (by omega)
      rw [hevents]
      exact collect_whole harrives.cut hcap
        (fun u hu hne => UpstreamMessage.incomplete_of_part hchunked hbound hu hne) htail
    have hanswer : answerOf events = .ok ⟨m.code, m.kept, m.body⟩ := by
      rw [answerOf, hread]
      dsimp only
      rw [ResponseStream.stream, UpstreamMessage.parse_head, if_pos hutf8]
    refine ⟨_, hanswer, ?_⟩
    cases hframing : m.framing with
    | length n =>
        have hbody : m.body.length = n := by
          have hframed := m.framed
          rw [hframing] at hframed
          exact hframed
        rw [← hbody] at hframing ⊢
        rw [Framing.take, if_pos (Nat.le_refl _), List.take_length]
        exact clientReads_relayed hneutral hframing
    | chunked => exact absurd hframing hchunked
    | close =>
        exact (clientReads_relayed_iff hneutral (ne_length (.inl hframing))).mpr
          ⟨hclosed hframing, rfl⟩
  · have hcap := hshort.resolve_left fun hne => hne rfl
    rcases answerOf_arrives List.prefix_rfl harrives with herror | ⟨got, -, -, -, hover, -⟩
    · exact herror
    · have hgot := hover hcap
      rw [List.length_append] at hgot
      rcases hfits with hnil | hle
      · rw [hnil, List.length_nil] at hstream
        omega
      · exact absurd hcap (harrives.cut.not_overCap hle)

/-- A cut that keeps within the cap up to its last piece. -/
theorem exists_cut_within
    {text : Bytes} (hpos : 0 < text.length)
    (hle : text.length ≤ maxResponseBuffer + readLen) :
    ∃ pieces, CutOf readLen text pieces ∧ ¬ OverCap maxResponseBuffer pieces := by
  have hsize : 0 < readLen := by decide
  refine ⟨cutAt (min maxResponseBuffer (text.length - 1)) text.length text,
    cutAt_cut ?_ ?_ (Nat.le_refl _), not_overCap_cutAt (Nat.min_le_left _ _)⟩
  · omega
  · omega

/-- Data in chunks is never read as it is meant. -/
theorem not_chunked_of_due
    (hneutral : ∀ h ∈ configuredHeaders server location, Neutral h)
    (hutf8 : Utf8.isUtf8 m.headText = true)
    (hreach : m.head.length ≤ maxResponseBuffer + readLen)
    (hfits : m.stream.length ≤ maxResponseBuffer + 1)
    (hdue : ∀ pieces, CutOf readLen m.stream pieces →
      Due ctx st server location req effects dec m m.stream pieces (answerOf (reads pieces))) :
    m.framing ≠ .chunked := by
  intro hframing
  have hstream := length_stream m
  have hnone := ne_length (.inr hframing)
  -- whatever is handed on, it is taken for the data
  have hdata : ∀ pieces got, CutOf readLen m.stream pieces →
      answerOf (reads pieces) = .ok ⟨m.code, m.kept, got⟩ →
        ChunkedBody.data m.body = some got := by
    intro pieces got hcut hanswer
    obtain ⟨resp, hresp, hclient⟩ := (hdue pieces hcut).whole rfl (hcut.not_overCap hfits)
    obtain rfl := Except.ok.inj (hanswer.symm.trans hresp)
    have hbody := ((clientReads_relayed_iff hneutral hnone).mp hclient).2
    rw [hframing] at hbody
    exact hbody
  obtain ⟨i, j, hij, hsize, hhead, hj, -, hlong, hgo, hstop⟩ :=
    exists_stop_behind_head List.prefix_rfl (by omega) hreach
  obtain ⟨got, htake, hgot, hanswer⟩ :=
    answerOf_cutAt List.prefix_rfl hutf8 hij hhead hj hgo hstop
  have hcarried := hdata _ got (cutAt_cut hij hsize hj) hanswer
  have hless := ChunkedBody.length_data_lt hcarried
  have hlength := congrArg List.length htake
  rw [List.length_take, List.length_append] at hlength
  have hcomplete : isResponseComplete (m.head ++ got) = true := by
    rcases hstop with (hdone | hcap) | hall
    · rwa [htake] at hdone
    · rw [List.length_take] at hcap
      omega
    · omega
  -- one byte more in the last read, and one byte more is handed on
  have hnext : j + 1 ≤ m.stream.length := by omega
  rcases ResponseStream.buffer_cases (m := m.toResponseStream)
      (List.take_prefix (j + 1) m.stream) with ⟨more, hmore, heq⟩ | ⟨-, hshort⟩
  · have hmorelength := congrArg List.length heq
    rw [List.length_take, List.length_append] at hmorelength
    have hprefix : got <+: more :=
      List.prefix_of_prefix_length_le hgot hmore (by omega)
    have hstop' : Stops isResponseComplete maxResponseBuffer (m.stream.take (j + 1)) := by
      rw [heq]
      exact Or.inl (UpstreamMessage.complete_of_prefix hframing hmore hprefix hcomplete)
    have hread : 1 < readLen := by decide
    obtain ⟨got', htake', -, hanswer'⟩ := answerOf_cutAt List.prefix_rfl hutf8
      (Nat.lt_succ_of_lt hij) (by omega) hnext hgo (Or.inl hstop')
    have hcarried' := hdata _ got' (cutAt_cut (Nat.lt_succ_of_lt hij) (by omega) hnext) hanswer'
    rw [hcarried, Option.some.injEq] at hcarried'
    have hlength' := congrArg List.length htake'
    rw [List.length_take, List.length_append, ← hcarried'] at hlength'
    omega
  · rw [List.length_take] at hshort
    omega

/-- If what is due is done however the reads fall, then nothing is due, or all is handed on. -/
theorem condition_of_relays
    (hneutral : ∀ h ∈ configuredHeaders server location, Neutral h)
    (hpart : part <+: m.stream)
    (h : Relays ctx st server location req effects dec m part) :
    NothingDue m part ∨ HandedOn m part req.keepAlive := by
  have hdue : ∀ pieces, CutOf readLen part pieces →
      Due ctx st server location req effects dec m part pieces (answerOf (reads pieces)) := by
    intro pieces hcut
    let ex : Exchange := ⟨true, .done, .ok (), .done, reads pieces⟩
    have hex := (h (peerConfig ⟨.v4 ⟨0, 0, 0, 0⟩, 80⟩) [] [] [] [] [] pieces ex
      ⟨hcut, Or.inl rfl⟩).2 rfl
    rwa [doProxyStream_answer rfl] at hex
  have hstream := length_stream m
  have hpos := UpstreamMessage.length_pos m
  by_cases hnothing : NothingDue m part
  · exact Or.inl hnothing
  right
  obtain ⟨hhead, hrest⟩ := not_or.mp hnothing
  obtain ⟨hreach, htext⟩ := not_or.mp hrest
  rw [Nat.not_lt] at hhead hreach
  have hutf8 : Utf8.isUtf8 m.headText = true := by
    by_contra hnot
    rw [Bool.not_eq_true] at hnot
    obtain ⟨hall, hlong⟩ := not_or.mp fun hor => htext ⟨hnot, hor⟩
    rw [not_not] at hall
    subst hall
    obtain ⟨pieces, hcut, hcap⟩ := exists_cut_within (by omega) (Nat.not_lt.mp hlong)
    obtain ⟨resp, hresp, -⟩ := (hdue pieces hcut).whole rfl hcap
    rcases answerOf_arrives List.prefix_rfl ⟨hcut, Or.inl rfl⟩ with ⟨e, he⟩ | ⟨got, hread, -⟩
    · rw [hresp] at he
      cases he
    · rw [hread] at hnot
      cases hnot
  obtain ⟨i, j, hij, hsize, hj, hle, hsmall, -, hgo, hstop⟩ :=
    exists_stop_behind_head hpart hhead hreach
  obtain ⟨got, -, -, hanswer⟩ := answerOf_cutAt hpart hutf8 hij hj hle hgo hstop
  have hcut := cutAt_cut hij hsize hle
  have hall : part = m.stream := by
    by_contra hne
    obtain ⟨e, he⟩ := (hdue _ hcut).short (Or.inl hne)
    rw [hanswer] at he
    cases he
  subst hall
  have hfits : m.body = [] ∨ m.stream.length ≤ maxResponseBuffer + 1 := by
    by_contra hnot
    obtain ⟨hbody, hlong⟩ := not_or.mp hnot
    have hpositive := List.length_pos_of_ne_nil hbody
    obtain ⟨e, he⟩ := (hdue _ hcut).short
      (Or.inr (overCap_cutAt hij (by omega) (Nat.not_le.mp hlong)))
    rw [hanswer] at he
    cases he
  have hwithin : m.stream.length ≤ maxResponseBuffer + readLen := by
    have hread : 1 ≤ readLen := by decide
    rcases hfits with hnil | hlong
    · rw [hnil, List.length_nil] at hstream
      omega
    · omega
  refine ⟨rfl, hutf8, hfits, fun hframing => ?_, fun hframing => ?_⟩
  · have hbody : m.body ≠ [] := by
      intro hnil
      have hframed := m.framed
      rw [hframing, hnil] at hframed
      cases hframed
    exact not_chunked_of_due hneutral hutf8 hreach (hfits.resolve_left hbody) hdue hframing
  · have hnone := ne_length (.inl hframing)
    obtain ⟨pieces, hcut, hcap⟩ := exists_cut_within (by omega) hwithin
    obtain ⟨resp, hresp, hclient⟩ := (hdue pieces hcut).whole rfl hcap
    rcases answerOf_arrives List.prefix_rfl ⟨hcut, Or.inl rfl⟩ with
      ⟨e, he⟩ | ⟨got, -, -, -, -, hgot⟩
    · rw [hresp] at he
      cases he
    · obtain rfl := Except.ok.inj (hgot.symm.trans hresp)
      exact ((clientReads_relayed_iff hneutral hnone).mp hclient).1

/-- The condition is enough. -/
theorem relays_of_condition
    (hneutral : ∀ h ∈ configuredHeaders server location, Neutral h)
    (hpart : part <+: m.stream) (h : NothingDue m part ∨ HandedOn m part req.keepAlive) :
    Relays ctx st server location req effects dec m part := by
  intro cfg method path locPrefix headers body pieces ex harrives
  have hdue : Due ctx st server location req effects dec m part pieces (answerOf ex.reads) := by
    rcases h with h | h
    · exact due_of_nothing hpart harrives h
    · exact due_of_handedOn hneutral harrives h
  refine ⟨fun hreaches => ?_, fun hsent => ?_⟩
  · rwa [doProxy_answer hreaches]
  · rwa [doProxyStream_answer hsent]

end Exact

section Example

theorem okLine_http :
    ascii "HTTP/" <+: ascii "HTTP/1.1 200 OK" :=
  ⟨ascii "1.1 200 OK", rfl⟩

/-- A response with a length. -/
def helloMessage : UpstreamMessage where
  startLine := ascii "HTTP/1.1 200 OK"
  fieldLines := [ascii "Content-Length: 5", ascii "X-A: b"]
  framing := .length 5
  body := ascii "hello"
  start_http := okLine_http
  plain := by
    have hall : ([ascii "HTTP/1.1 200 OK", ascii "Content-Length: 5", ascii "X-A: b"].all fun l =>
        l != [] && !l.contains 10 && !l.contains 13) = true := by
      decide
    intro l hl
    have hplain := List.all_eq_true.mp hall l hl
    simp only [Bool.and_eq_true, bne_iff_ne, Bool.not_eq_true', List.contains_eq_mem,
      decide_eq_false_iff_not] at hplain
    exact ⟨hplain.1.1, hplain.1.2, hplain.2⟩
  declared := ⟨by decide, ascii "5", by decide, by decide, by decide, by decide⟩
  framed := rfl
  code := 200
  reason := ascii "OK"
  fields := [(ascii "Content-Length", ascii " 5"), (ascii "X-A", ascii " b")]
  start_eq := by decide
  code_digits := by decide
  has_body := by decide
  fields_eq := by decide
  tokens := by
    have hall : ([(ascii "Content-Length", ascii " 5"), (ascii "X-A", ascii " b")].all fun f =>
        f.1 != [] && f.1.all Wire.isTokenByte) = true := by
      decide
    intro f hf
    have htoken := List.all_eq_true.mp hall f hf
    rw [Bool.and_eq_true, bne_iff_ne] at htoken
    exact ⟨htoken.1, List.all_eq_true.mp htoken.2⟩
  coding := Or.inl (by decide)

/-- The upstream sends it in one piece, to a request for the root. -/
def helloEnv : Env :=
  workingEnv (reads [helloMessage.stream])

def helloDecoders : Decoders helloEnv where
  undo _ _ := none
  gzip _ _ h := by cases h
  brotli _ _ h := by cases h

def rootRequest : ParsedRequest where
  method := ascii "GET"
  path := ascii "/"
  query := []
  fullUri := ascii "/"
  version10 := false
  headers := [(ascii "Host", ascii "a")]
  host := ascii "a"
  contentLen := 0
  keepAlive := true
  body := []

/-- The server that it is relayed by. -/
def relayingServer : ServerBlock :=
  serverWith (proxyLocation internalUpstream)

theorem helloMessage_handedOn : HandedOn helloMessage helloMessage.stream true where
  all := rfl
  readable := by decide
  fits := Or.inr (by decide)
  unchunked := ne_of_beq_false rfl
  closed h := by cases h

end Example

end Handler
end RunNginx
