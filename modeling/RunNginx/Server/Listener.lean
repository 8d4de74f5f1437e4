import Mathlib.Data.List.Forall2
import RunNginx.Lib.Stream
import RunNginx.Server.WireRequest

/-!
# The HTTP/1.1 connection loop

One connection as the listener runs it: read, hand the bytes of that read to the
request handler, write the answer, and go on while the answer keeps the
connection open.  The handler is a parameter with a state of its own, so the
results hold for whatever the server does between two reads.

`connectionLoop_delivers_iff` says for which ways of cutting a stream of requests
into reads the handler is given exactly those requests.
-/

namespace RunNginx
namespace Listener

open ByteString Limits Request

/-- One turn of the peer: the read, and whether the answer can be written. -/
structure Turn where
  read : ReadEvent
  sent : Bool
deriving DecidableEq, Repr

/-- What a connection leaves behind. -/
structure Connection (σ : Type) where
  /-- The slices given to the handler. -/
  handed : List Bytes
  written : List Bytes
  /-- The upstream the connection ends up spliced with. -/
  tunnel : Option Bytes
  state : σ
deriving DecidableEq, Repr

def tooManyRequests : Bytes :=
  joinLines [ascii "HTTP/1.1 400 Too Many Requests", ascii "Connection: close", []]

def requestTimeout : Bytes :=
  joinLines [ascii "HTTP/1.1 408 Request Timeout", ascii "Connection: close", []]

section

variable {σ : Type}
variable (handle : σ → Bytes → HandlerResult × σ)

/-- The loop.  A peer that has no further turn has closed its side. -/
def connectionLoop : Nat → σ → List Turn → Connection σ
  | requests, st, turns =>
      if maxKeepaliveRequests ≤ requests then ⟨[], [tooManyRequests], none, st⟩
      else match turns with
      | [] => ⟨[], [], none, st⟩
      | turn :: turns =>
          match turn.read with
          | .timedOut => ⟨[], [requestTimeout], none, st⟩
          | .failed _ => ⟨[], [], none, st⟩
          | .bytes [] => ⟨[], [], none, st⟩
          | .bytes data =>
              let (result, st) := handle st data
              if !turn.sent then ⟨[data], [], none, st⟩
              else if result.tunnel.isSome || !result.keepAlive then
                ⟨[data], [result.bytes], result.tunnel, st⟩
              else
                let rest := connectionLoop (requests + 1) st turns
                { rest with
                  handed := data :: rest.handed
                  written := result.bytes :: rest.written }

end

section

variable {σ : Type}
variable (handle : Bool → σ → Bytes → HandlerResult × σ)

/-- A plain TCP connection. -/
def handlePlain (st : σ) (turns : List Turn) : Connection σ :=
  connectionLoop (handle false) 0 st turns

/-- A TLS connection. -/
def handleGeneric (st : σ) (turns : List Turn) : Connection σ :=
  connectionLoop (handle true) 0 st turns

end

/-- Size of the read buffer of a connection. -/
def readBufferLen : Nat :=
  maxHeaderBuffer + defaultMaxBodyBytes + 1

/-- A stream cut into the pieces that successive reads return. -/
structure Cut (stream : Bytes) where
  chunks : List Bytes
  flatten_eq : chunks.flatten = stream
  ne_nil : ∀ c ∈ chunks, c ≠ []
  length_le : ∀ c ∈ chunks, c.length ≤ readBufferLen

/-- The turns of a peer that sends the pieces and then closes its side. -/
def turnsOf (chunks : List Bytes) : List Turn :=
  chunks.map fun c => ⟨.bytes c, true⟩

/-- The slice starts with the request and the dispatcher reads it as that request. -/
def Delivers (r : WireRequest) (slice : Bytes) : Prop :=
  r.encode <+: slice ∧ readRequest slice = .ok r.view

section

variable {σ : Type}
variable (handle : σ → Bytes → HandlerResult × σ)

/-- Every answer but the last one keeps the connection open. -/
def KeepsOpen : σ → List Bytes → Prop
  | _, [] => True
  | st, c :: cs =>
      cs = [] ∨
        ((handle st c).1.keepAlive = true ∧ (handle st c).1.tunnel = none ∧
          KeepsOpen (handle st c).2 cs)

theorem connectionLoop_full
    {requests : Nat} (st : σ) (turns : List Turn)
    (h : maxKeepaliveRequests ≤ requests) :
    connectionLoop handle requests st turns = ⟨[], [tooManyRequests], none, st⟩ := by
  unfold connectionLoop
  rw [if_pos h]

/-- One read of the loop. -/
theorem connectionLoop_chunk
    {requests : Nat} {c : Bytes}
    (h : requests < maxKeepaliveRequests) (hc : c ≠ [])
    (st : σ) (cs : List Bytes) :
    (connectionLoop handle requests st (turnsOf (c :: cs))).handed =
      if (handle st c).1.keepAlive = true ∧ (handle st c).1.tunnel = none then
        c :: (connectionLoop handle (requests + 1) (handle st c).2 (turnsOf cs)).handed
      else [c] := by
  obtain ⟨b, bs, rfl⟩ := List.exists_cons_of_ne_nil hc
  conv_lhs => unfold connectionLoop
  rw [if_neg (Nat.not_le.mpr h)]
  simp only [turnsOf, List.map_cons]
  cases hk : (handle st (b :: bs)).1.keepAlive <;>
    cases ht : (handle st (b :: bs)).1.tunnel <;> simp

/-- The loop hands on the first pieces of the stream, unchanged. -/
theorem handed_prefix
    (cs : List Bytes) :
    ∀ (requests : Nat) (st : σ), (∀ c ∈ cs, c ≠ []) →
      (connectionLoop handle requests st (turnsOf cs)).handed <+: cs := by
  induction cs with
  | nil =>
      intro requests st _
      unfold connectionLoop
      split <;> simp [turnsOf]
  | cons c cs ih =>
      intro requests st hne
      by_cases hreq : requests < maxKeepaliveRequests
      · rw [connectionLoop_chunk handle hreq (hne c (by simp))]
        split
        · have := ih (requests + 1) (handle st c).2 fun d hd => hne d (by simp [hd])
          rwa [List.cons_prefix_cons, eq_self, true_and]
        · exact ⟨cs, rfl⟩
      · rw [connectionLoop_full handle st _ (Nat.le_of_not_lt hreq)]
        exact List.nil_prefix

/-- No piece is left out as long as the connection stays open for it. -/
theorem handed_eq_iff
    (cs : List Bytes) :
    ∀ (requests : Nat) (st : σ), (∀ c ∈ cs, c ≠ []) →
      requests ≤ maxKeepaliveRequests →
      ((connectionLoop handle requests st (turnsOf cs)).handed = cs ↔
        requests + cs.length ≤ maxKeepaliveRequests ∧ KeepsOpen handle st cs) := by
  induction cs with
  | nil =>
      intro requests st _ hreq
      unfold connectionLoop
      split <;> simp [turnsOf, KeepsOpen, hreq]
  | cons c cs ih =>
      intro requests st hne hreq
      rcases Nat.lt_or_ge requests maxKeepaliveRequests with hlt | hge
      · rw [connectionLoop_chunk handle hlt (hne c (by simp))]
        have hrest : ∀ d ∈ cs, d ≠ [] := fun d hd => hne d (by simp [hd])
        have hnext := ih (requests + 1) (handle st c).2 hrest hlt
        have hnil : cs = [] →
            (connectionLoop handle (requests + 1) (handle st c).2 (turnsOf cs)).handed = cs := by
          rintro rfl
          exact hnext.mpr ⟨hlt, trivial⟩
        simp only [KeepsOpen, List.length_cons]
        by_cases hopen : (handle st c).1.keepAlive = true ∧ (handle st c).1.tunnel = none
        · rw [if_pos hopen, List.cons.injEq, eq_self, true_and, hnext]
          constructor
          · rintro ⟨hlen, hkeeps⟩
            exact ⟨by omega, Or.inr ⟨hopen.1, hopen.2, hkeeps⟩⟩
          · rintro ⟨hlen, hcs | ⟨_, _, hkeeps⟩⟩
            · exact hnext.mp (hnil hcs)
            · exact ⟨by omega, hkeeps⟩
        · rw [if_neg hopen, List.cons.injEq, eq_self, true_and]
          constructor
          · rintro rfl
            exact ⟨hlt, Or.inl rfl⟩
          · rintro ⟨_, hcs | ⟨hk, ht, _⟩⟩
            · exact hcs.symm
            · exact absurd ⟨hk, ht⟩ hopen
      · rw [connectionLoop_full handle st _ hge]
        simp
        omega

/-- Slices that together are no longer than the requests they start with are the requests. -/
theorem slices_eq_encode
    {rs : List WireRequest} {slices : List Bytes}
    (h : List.Forall₂ Delivers rs slices)
    (hlen : slices.flatten.length ≤ (rs.map WireRequest.encode).flatten.length) :
    slices = rs.map WireRequest.encode := by
  have hle : ∀ {rs : List WireRequest} {slices : List Bytes},
      List.Forall₂ Delivers rs slices →
        (rs.map WireRequest.encode).flatten.length ≤ slices.flatten.length := by
    intro rs slices h
    induction h with
    | nil => simp
    | cons hd _ ih =>
        have := hd.1.length_le
        simp only [List.map_cons, List.flatten_cons, List.length_append]
        omega
  induction h with
  | nil => rfl
  | cons hd htail ih =>
      have hhead := hd.1.length_le
      have htail' := hle htail
      simp only [List.map_cons, List.flatten_cons, List.length_append] at hlen
      rw [List.map_cons, hd.1.eq_of_length (by omega), ih (by omega)]

/-- A request that comes alone in a read is delivered when the dispatcher reads it back. -/
theorem delivers_encode_iff
    (r : WireRequest) :
    Delivers r r.encode ↔ r.FitsBuffer ∧ r.NoChunkData := by
  rw [Delivers, r.readRequest_encode_iff]
  simp

/--
The handler is given exactly the requests of the stream if and only if every read
ends where a request ends, every request fits the header buffer and carries no
chunk of data, and the connection lasts for all of them.
-/
theorem connectionLoop_delivers_iff
    (st : σ) (rs : List WireRequest)
    (cut : Cut (rs.map WireRequest.encode).flatten) :
    List.Forall₂ Delivers rs
        (connectionLoop handle 0 st (turnsOf cut.chunks)).handed ↔
      cut.chunks = rs.map WireRequest.encode ∧
        (∀ r ∈ rs, r.FitsBuffer ∧ r.NoChunkData) ∧
        rs.length ≤ maxKeepaliveRequests ∧
        KeepsOpen handle st (rs.map WireRequest.encode) := by
  have hall := handed_eq_iff handle cut.chunks 0 st cut.ne_nil (Nat.zero_le _)
  constructor
  · intro h
    have hpre := handed_prefix handle cut.chunks 0 st cut.ne_nil
    obtain ⟨unread, hunread⟩ := hpre
    have hflat := congrArg List.length cut.flatten_eq
    have hslices := slices_eq_encode h (by
      rw [← hunread] at hflat
      simp only [List.flatten_append, List.length_append] at hflat
      omega)
    -- nothing is left for the reads behind the last one handed on
    have hnone : unread = [] := by
      rw [← hunread, hslices, List.flatten_append] at hflat
      simp only [List.length_append] at hflat
      rw [List.eq_nil_iff_forall_not_mem]
      intro c hc
      refine cut.ne_nil c (by rw [← hunread]; simp [hc]) ?_
      have hzero : unread.flatten = [] := List.eq_nil_of_length_eq_zero (by omega)
      exact List.flatten_eq_nil_iff.mp hzero c hc
    rw [hnone, List.append_nil] at hunread
    have hcut : cut.chunks = rs.map WireRequest.encode := by
      rw [← hunread]
      exact hslices
    obtain ⟨hlen, hkeeps⟩ := hall.mp hunread
    rw [hcut] at hlen hkeeps
    rw [hunread, hcut, List.forall₂_map_right_iff, List.forall₂_same] at h
    refine ⟨hcut, ?_, by simpa using hlen, hkeeps⟩
    intro r hr
    exact (delivers_encode_iff r).mp (h r hr)
  · rintro ⟨hcut, hreq, hlen, hkeeps⟩
    have hhanded := hall.mpr (by
      rw [hcut]
      exact ⟨by simpa using hlen, hkeeps⟩)
    rw [hhanded, hcut, List.forall₂_map_right_iff, List.forall₂_same]
    intro r hr
    exact (delivers_encode_iff r).mpr (hreq r hr)

end

/--
Both connection handlers give the request handler exactly the requests of the
stream, each once, in order and with its body, if and only if every read ends
where a request ends, every request fits the header buffer and carries no chunk
of data, and the connection lasts for all of them.
-/
theorem connection_delivers_requests_iff
    {σ : Type}
    (handle : Bool → σ → Bytes → HandlerResult × σ)
    (st : σ) (rs : List WireRequest)
    (cut : Cut (rs.map WireRequest.encode).flatten) :
    (List.Forall₂ Delivers rs (handlePlain handle st (turnsOf cut.chunks)).handed ↔
        cut.chunks = rs.map WireRequest.encode ∧
          (∀ r ∈ rs, r.FitsBuffer ∧ r.NoChunkData) ∧
          rs.length ≤ maxKeepaliveRequests ∧
          KeepsOpen (handle false) st (rs.map WireRequest.encode)) ∧
      (List.Forall₂ Delivers rs (handleGeneric handle st (turnsOf cut.chunks)).handed ↔
        cut.chunks = rs.map WireRequest.encode ∧
          (∀ r ∈ rs, r.FitsBuffer ∧ r.NoChunkData) ∧
          rs.length ≤ maxKeepaliveRequests ∧
          KeepsOpen (handle true) st (rs.map WireRequest.encode)) :=
  ⟨connectionLoop_delivers_iff (handle false) st rs cut,
    connectionLoop_delivers_iff (handle true) st rs cut⟩

/-- A request for the root, without header fields. -/
def rootRequest : WireRequest where
  line := ⟨ascii "GET", ascii "/", ascii "HTTP/1.1"⟩
  fields := []
  framing := .none
  body := []
  method_ne_nil := by decide
  method_token := by decide
  uri_ne_nil := by decide
  uri_visible := by decide
  version_http := by decide
  method_length := by decide
  uri_length := by decide
  fields_count := by decide
  fields_total := by decide
  framed := by simp [Wire.FramedBy]

/-- The same request, cut behind its request line. -/
def rootRequestCut : Cut ([rootRequest].map WireRequest.encode).flatten where
  chunks := [ascii "GET / HTTP/1.1" ++ crlf, crlf]
  flatten_eq := by decide
  ne_nil := by decide
  length_le := by
    intro c hc
    have : c.length ≤ 16 := by
      revert c
      decide
    exact this.trans (by decide)

/-- A server that refuses what it cannot read and answers everything else. -/
def echoStatus (_ : Bool) (_ : Unit) (raw : Bytes) : HandlerResult × Unit :=
  match readRequest raw with
  | .error e => (HandlerResult.badRequest e false, ())
  | .ok _ => (⟨Response.formatResponse 200 [(ascii "Content-Length", ascii "0")] true [],
      true, 200, none⟩, ())

/-- A request split over two reads is refused and the connection is closed. -/
theorem split_head_not_delivered :
    rootRequest.FitsBuffer ∧ rootRequest.NoChunkData ∧
      (handlePlain echoStatus () (turnsOf rootRequestCut.chunks)).handed =
        [ascii "GET / HTTP/1.1" ++ crlf] ∧
      ¬ List.Forall₂ Delivers [rootRequest]
        (handlePlain echoStatus () (turnsOf rootRequestCut.chunks)).handed ∧
      ¬ List.Forall₂ Delivers [rootRequest]
        (handleGeneric echoStatus () (turnsOf rootRequestCut.chunks)).handed := by
  have hhanded : ∀ tls,
      (connectionLoop (echoStatus tls) 0 () (turnsOf rootRequestCut.chunks)).handed =
        [ascii "GET / HTTP/1.1" ++ crlf] := by
    decide
  have hread : readRequest (ascii "GET / HTTP/1.1" ++ crlf) ≠ .ok rootRequest.view := by
    decide
  have hnot : ∀ tls,
      ¬ List.Forall₂ Delivers [rootRequest]
        (connectionLoop (echoStatus tls) 0 () (turnsOf rootRequestCut.chunks)).handed := by
    intro tls h
    rw [hhanded, List.forall₂_cons] at h
    exact hread h.1.2
  refine ⟨by unfold WireRequest.FitsBuffer; decide, ?_, hhanded false, hnot false,
    hnot true⟩
  intro chunks h
  cases h

end Listener
end RunNginx
