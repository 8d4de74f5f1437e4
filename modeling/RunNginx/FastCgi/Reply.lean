import RunNginx.FastCgi.Records
import RunNginx.Lib.Stream

/-!
# The FastCGI reply stream

The second half of `run_fastcgi` reads records, in as many reads as they take, and collects
what stands in those of the standard output up to the record that ends the request.

`reply_assembled`: whatever the records are and however they arrive, that is what is parsed;
a stream that is over before that is an error.
-/

namespace RunNginx
namespace FastCgi

open ByteString Stream

def fcgiEndRequest : UInt8 := 3
def fcgiStdout : UInt8 := 6

section Reader

/-- What is said of a read that fails; a context takes the place of the reason. -/
def readFailure (context : Bytes) : ReadError → Bytes
  | .timedOut => ascii "fastcgi read timeout"
  | .failed _ => context

/-- Kind, content length and padding length of the next record. -/
def readRecordHeader (events : List ReadEvent) :
    Except Bytes (UInt8 × UInt16 × UInt8) × List ReadEvent :=
  let (r, events) := readExact 8 events
  match r with
  | .error e => (.error (readFailure (ascii "reading fastcgi record header") e), events)
  | .ok hdr =>
      (.ok (hdr.getD 1 0, (hdr.getD 4 0).toUInt16 <<< 8 ||| (hdr.getD 5 0).toUInt16,
        hdr.getD 6 0), events)

/--
The loop of `run_fastcgi`; `stdout` is what it has collected.  Every turn that continues has
read a header, so the length of the stream is fuel enough.
-/
def readRecords : Nat → Bytes → List ReadEvent → Except Bytes Bytes
  | 0, _, _ => .error []
  | fuel + 1, stdout, events =>
      let (header, events) := readRecordHeader events
      match header with
      | .error e => .error e
      | .ok (recordType, contentLen, paddingLen) =>
          let (content, events) := readExact contentLen.toNat events
          match content with
          | .error e => .error (readFailure (ascii "reading fastcgi record content") e)
          | .ok content =>
              -- whether the padding could be read is not looked at
              let events := if 0 < paddingLen then (readExact paddingLen.toNat events).2 else events
              if recordType = fcgiStdout then readRecords fuel (stdout ++ content) events
              else if recordType = fcgiEndRequest then .ok stdout
              else readRecords fuel stdout events

/-- The number of bytes that are still to come. -/
def streamLength (events : List ReadEvent) : Nat :=
  (events.map fun e => match e with
    | .bytes data => data.length
    | _ => 0).sum

/-- What the loop collects. -/
def collectReply (events : List ReadEvent) : Except Bytes Bytes :=
  readRecords (streamLength events + 1) [] events

/-- Read the reply to a request that was written. -/
def readReply (events : List ReadEvent) : Except Bytes StaticFiles.StaticResponse :=
  (collectReply events).bind parseCgiResponse

/-- The client gets the page that was read, and what went wrong where there is none. -/
theorem fastcgiRequest_collectReply
    (events : List ReadEvent) :
    (∀ resp, readReply events = .ok resp → fastcgiRequest (collectReply events) = resp) ∧
      ∀ e, readReply events = .error e →
        fastcgiRequest (collectReply events) = fcgiError 502 e := by
  unfold readReply fastcgiRequest
  exact ⟨fun resp h => by rw [h], fun e h => by rw [h]⟩

end Reader

section Wire

/-- A record of a reply, as it is written. -/
structure ReplyRecord where
  version : UInt8
  kind : UInt8
  id1 : UInt8
  id0 : UInt8
  reserved : UInt8
  content : Bytes
  padding : Bytes
  content_lt : content.length < 2 ^ 16
  padding_lt : padding.length < 2 ^ 8

namespace ReplyRecord

def header (r : ReplyRecord) : Bytes :=
  [r.version, r.kind, r.id1, r.id0] ++ RecordStream.twoBytes (UInt16.ofNat r.content.length) ++
    [UInt8.ofNat r.padding.length, r.reserved]

def bytes (r : ReplyRecord) : Bytes :=
  r.header ++ (r.content ++ r.padding)

@[simp] theorem length_header
    (r : ReplyRecord) :
    r.header.length = 8 := by
  rfl

end ReplyRecord

/-- What the standard output holds in front of the end of the request. -/
def stdoutOf (records : List ReplyRecord) : Bytes :=
  ((records.takeWhile fun r => r.kind ≠ fcgiEndRequest).filter fun r =>
    r.kind = fcgiStdout).flatMap ReplyRecord.content

/-- The bytes up to the end of the request, where there is one; its padding is behind them. -/
def untilEnd : List ReplyRecord → Option Bytes
  | [] => none
  | r :: rs =>
      if r.kind = fcgiEndRequest then some (r.header ++ r.content)
      else (untilEnd rs).map fun s => r.bytes ++ s

end Wire

section Steps

variable {pieces : List Bytes} {r : ReplyRecord} {fuel : Nat} {out : Bytes}

/-- The two bytes of a length are put together again. -/
theorem length_of_twoBytes
    (n : UInt16) :
    (n >>> 8).toUInt8.toUInt16 <<< 8 ||| (n &&& 0xff).toUInt8.toUInt16 = n := by
  have hhigh := (n >>> 8).toUInt8.toNat_lt
  have hlow := (n &&& 0xff).toUInt8.toNat_lt
  have hshift : UInt16.toNat 8 % 16 = 8 := rfl
  apply UInt16.toNat_inj.mp
  rw [← RecordStream.twoBytes_toNat n, UInt16.toNat_or, UInt16.toNat_shiftLeft,
    UInt8.toNat_toUInt16, UInt8.toNat_toUInt16, hshift,
    Nat.mod_eq_of_lt (by rw [Nat.shiftLeft_eq]; omega), ← Nat.shiftLeft_add_eq_or_of_lt hlow,
    Nat.shiftLeft_eq]
  omega

theorem readRecordHeader_reads
    (hne : ∀ p ∈ pieces, p ≠ []) (hheader : r.header <+: pieces.flatten) :
    ∃ rest, (∀ p ∈ rest, p ≠ []) ∧ rest.flatten = pieces.flatten.drop 8 ∧
      readRecordHeader (reads pieces) =
        (.ok (r.kind, UInt16.ofNat r.content.length, UInt8.ofNat r.padding.length),
          reads rest) := by
  have hlong : 8 ≤ pieces.flatten.length := hheader.length_le
  obtain ⟨rest, hrest, hflatten, hread⟩ := readExact_reads hne hlong
  refine ⟨rest, hrest, hflatten, ?_⟩
  have htake : pieces.flatten.take 8 = r.header := (List.prefix_iff_eq_take.mp hheader).symm
  have hlength := length_of_twoBytes (UInt16.ofNat r.content.length)
  simp only [readRecordHeader, hread, htake, ReplyRecord.header, RecordStream.twoBytes,
    List.cons_append, List.nil_append, List.getD_cons_succ, List.getD_cons_zero, hlength]

/-- Skipping the padding leaves what is behind it, or nothing where it is cut off. -/
theorem skip_reads
    (n : Nat) (hne : ∀ p ∈ pieces, p ≠ []) :
    ∃ rest, (∀ p ∈ rest, p ≠ []) ∧ rest.flatten = pieces.flatten.drop n ∧
      (readExact n (reads pieces)).2 = reads rest := by
  by_cases hn : n ≤ pieces.flatten.length
  · obtain ⟨rest, hrest, hflatten, hread⟩ := readExact_reads hne hn
    exact ⟨rest, hrest, hflatten, congrArg Prod.snd hread⟩
  · have hshort := Nat.not_le.mp hn
    refine ⟨[], nofun, ?_, congrArg Prod.snd (readExact_short hne hshort)⟩
    rw [List.drop_eq_nil_of_le (Nat.le_of_lt hshort)]
    rfl

/-- One turn of the loop, over a record whose content is there. -/
theorem readRecords_record
    (fuel : Nat) (out : Bytes)
    (hne : ∀ p ∈ pieces, p ≠ []) (hrecord : r.header ++ r.content <+: pieces.flatten) :
    ∃ rest, (∀ p ∈ rest, p ≠ []) ∧ rest.flatten = pieces.flatten.drop r.bytes.length ∧
      readRecords (fuel + 1) out (reads pieces) =
        if r.kind = fcgiStdout then readRecords fuel (out ++ r.content) (reads rest)
        else if r.kind = fcgiEndRequest then .ok out
        else readRecords fuel out (reads rest) := by
  obtain ⟨behind, hbehind⟩ := hrecord
  have hlength : (UInt16.ofNat r.content.length).toNat = r.content.length :=
    Nat.mod_eq_of_lt r.content_lt
  have hpadding : (UInt8.ofNat r.padding.length).toNat = r.padding.length :=
    Nat.mod_eq_of_lt r.padding_lt
  obtain ⟨second, hsecond, hflatten, hheader⟩ :=
    readRecordHeader_reads hne ⟨r.content ++ behind, by rw [← hbehind, List.append_assoc]⟩
  have hdrop : second.flatten = r.content ++ behind := by
    rw [hflatten, ← hbehind, List.append_assoc]
    exact List.drop_left' r.length_header
  obtain ⟨third, hthird, hflatten', hcontent⟩ :=
    readExact_reads (n := r.content.length) hsecond (by rw [hdrop]; simp)
  rw [hdrop, List.take_left] at hcontent
  rw [hdrop, List.drop_left] at hflatten'
  obtain ⟨rest, hrest, hflatten'', hskip⟩ := skip_reads r.padding.length hthird
  refine ⟨rest, hrest, ?_, ?_⟩
  · rw [hflatten'', hflatten', ← hbehind, ReplyRecord.bytes, ← List.append_assoc,
      List.length_append, ← List.drop_drop, List.drop_left]
  · have hevents : (if 0 < UInt8.ofNat r.padding.length then
        (readExact (UInt8.ofNat r.padding.length).toNat (reads third)).2 else reads third) =
          reads rest := by
      rw [hpadding, hskip]
      split
      · rfl
      · rename_i hzero
        rw [UInt8.lt_iff_toNat_lt, hpadding] at hzero
        rw [← hskip, Nat.eq_zero_of_not_pos hzero, readExact]
    simp only [readRecords, hheader, hlength, hcontent, hevents]

/-- The errors of a stream that is over too early. -/
def cutErrors : List Bytes :=
  [ascii "reading fastcgi record header", ascii "reading fastcgi record content"]

theorem readRecords_short
    (hne : ∀ p ∈ pieces, p ≠ []) (hshort : pieces.flatten.length < 8) :
    readRecords (fuel + 1) out (reads pieces) =
      .error (ascii "reading fastcgi record header") := by
  simp only [readRecords, readRecordHeader, readExact_short hne hshort, readFailure]

/-- A stream that is over within a record is an error. -/
theorem readRecords_cut
    (hne : ∀ p ∈ pieces, p ≠ []) (hfront : pieces.flatten <+: r.header ++ r.content)
    (hcut : pieces.flatten ≠ r.header ++ r.content) :
    ∃ e ∈ cutErrors, readRecords (fuel + 1) out (reads pieces) = .error e := by
  by_cases hheader : pieces.flatten.length < 8
  · exact ⟨_, List.mem_cons_self, readRecords_short hne hheader⟩
  · refine ⟨_, List.mem_cons_of_mem _ List.mem_cons_self, ?_⟩
    have hlength : (UInt16.ofNat r.content.length).toNat = r.content.length :=
      Nat.mod_eq_of_lt r.content_lt
    have hwhole : r.header <+: pieces.flatten :=
      List.prefix_of_prefix_length_le (List.prefix_append _ _) hfront (by
        rw [r.length_header]
        exact Nat.not_lt.mp hheader)
    obtain ⟨second, hsecond, hflatten, hread⟩ := readRecordHeader_reads hne hwhole
    have hshort : second.flatten.length < r.content.length := by
      have hlt : pieces.flatten.length < (r.header ++ r.content).length :=
        Nat.lt_of_le_of_ne hfront.length_le fun heq => hcut (hfront.eq_of_length heq)
      rw [List.length_append, r.length_header] at hlt
      rw [hflatten, List.length_drop]
      omega
    simp only [readRecords, hread, hlength, readExact_short hsecond hshort, readFailure]

end Steps

section Reply

variable {pieces : List Bytes} {records : List ReplyRecord} {fuel : Nat}

theorem stdoutOf_cons
    (r : ReplyRecord) (rs : List ReplyRecord) :
    stdoutOf (r :: rs) =
      if r.kind = fcgiEndRequest then []
      else if r.kind = fcgiStdout then r.content ++ stdoutOf rs else stdoutOf rs := by
  unfold stdoutOf
  rw [List.takeWhile_cons]
  by_cases hend : r.kind = fcgiEndRequest
  · rw [if_pos hend, if_neg (by simpa using hend)]
    rfl
  · rw [if_neg hend, if_pos (by simpa using hend), List.filter_cons]
    split
    · rename_i hkind
      rw [if_pos (by simpa using hkind), List.flatMap_cons]
    · rename_i hkind
      rw [if_neg (by simpa using hkind)]

theorem untilEnd_ne_nil
    {s : Bytes} (h : untilEnd records = some s) :
    s ≠ [] := by
  cases records with
  | nil => cases h
  | cons r rs =>
      unfold untilEnd at h
      split at h
      · cases h
        exact List.cons_ne_nil _ _
      · obtain ⟨t, -, rfl⟩ := Option.map_eq_some_iff.mp h
        exact List.cons_ne_nil _ _

/-- Whether a part of the stream is there can be seen behind its first record. -/
theorem append_prefix_iff
    {s t first stream rest : Bytes} (hstream : stream <+: first ++ t) (hs : s ≠ [])
    (hrest : rest = stream.drop first.length) :
    first ++ s <+: stream ↔ s <+: rest := by
  subst hrest
  constructor
  · intro h
    have hdrop := h.drop first.length
    rwa [List.drop_left] at hdrop
  · intro h
    have hlong : first.length ≤ stream.length := by
      by_contra hshort
      rw [List.drop_eq_nil_of_le (by omega)] at h
      exact hs (List.prefix_nil.mp h)
    obtain ⟨more, rfl⟩ := List.prefix_of_prefix_length_le (List.prefix_append first t) hstream hlong
    rw [List.drop_left] at h
    exact (List.prefix_append_right_inj first).mpr h

/--
The loop over a stream that is a part of some records: it ends behind the end of the
request if that is there, and with an error if not.
-/
theorem readRecords_records
    (out : Bytes) (hne : ∀ p ∈ pieces, p ≠ []) (hstream : pieces.flatten <+: records.flatMap ReplyRecord.bytes)
    (hfuel : pieces.flatten.length < fuel) :
    ((∃ s, untilEnd records = some s ∧ s <+: pieces.flatten) →
        readRecords fuel out (reads pieces) = .ok (out ++ stdoutOf records)) ∧
      ((∀ s, untilEnd records = some s → ¬ s <+: pieces.flatten) →
        ∃ e ∈ cutErrors, readRecords fuel out (reads pieces) = .error e) := by
  induction records generalizing pieces fuel out with
  | nil =>
      obtain ⟨fuel, rfl⟩ := Nat.exists_eq_succ_of_ne_zero (Nat.ne_of_gt (Nat.zero_lt_of_lt hfuel))
      refine ⟨?_, fun _ => ⟨_, List.mem_cons_self, ?_⟩⟩
      · rintro ⟨s, hs, -⟩
        cases hs
      · refine readRecords_short hne ?_
        rw [List.prefix_nil.mp hstream]
        exact Nat.zero_lt_succ _
  | cons r rs ih =>
      obtain ⟨fuel, rfl⟩ := Nat.exists_eq_succ_of_ne_zero (Nat.ne_of_gt (Nat.zero_lt_of_lt hfuel))
      rw [List.flatMap_cons] at hstream
      rw [untilEnd, stdoutOf_cons]
      by_cases hrecord : r.header ++ r.content <+: pieces.flatten
      · obtain ⟨rest, hrest, hflatten, hturn⟩ := readRecords_record fuel out hne hrecord
        rw [hturn]
        by_cases hend : r.kind = fcgiEndRequest
        · rw [if_pos hend, if_pos hend, if_pos hend, hend, if_neg (by decide), List.append_nil]
          exact ⟨fun _ => rfl, fun h => absurd hrecord (h _ rfl)⟩
        rw [if_neg hend, if_neg hend, if_neg hend]
        have hshorter : rest.flatten.length < fuel := by
          have hlength := hrecord.length_le
          rw [List.length_append, r.length_header] at hlength
          rw [hflatten, List.length_drop, ReplyRecord.bytes, List.length_append, r.length_header]
          omega
        have hbehind : rest.flatten <+: rs.flatMap ReplyRecord.bytes := by
          have hdrop := hstream.drop r.bytes.length
          rwa [← hflatten, List.drop_left] at hdrop
        have hsame : ∀ s, untilEnd rs = some s →
            (r.bytes ++ s <+: pieces.flatten ↔ s <+: rest.flatten) :=
          fun s hs => append_prefix_iff hstream (untilEnd_ne_nil hs) hflatten
        -- in both cases the loop goes on behind the record
        have htail : ∀ out' : Bytes,
            ((∃ s, (untilEnd rs).map (r.bytes ++ ·) = some s ∧ s <+: pieces.flatten) →
              readRecords fuel out' (reads rest) = .ok (out' ++ stdoutOf rs)) ∧
            ((∀ s, (untilEnd rs).map (r.bytes ++ ·) = some s → ¬ s <+: pieces.flatten) →
              ∃ e ∈ cutErrors, readRecords fuel out' (reads rest) = .error e) := by
          intro out'
          obtain ⟨hdone, hover⟩ := ih out' hrest hbehind hshorter
          constructor
          · rintro ⟨s, hs, hfront⟩
            obtain ⟨t, ht, rfl⟩ := Option.map_eq_some_iff.mp hs
            exact hdone ⟨t, ht, (hsame t ht).mp hfront⟩
          · intro hnone
            refine hover fun t ht hfront => ?_
            exact hnone _ (by rw [ht, Option.map_some]) ((hsame t ht).mpr hfront)
        split
        · rw [← List.append_assoc]
          exact htail (out ++ r.content)
        · exact htail out
      · have hcut : pieces.flatten <+: r.header ++ r.content := by
          refine (List.prefix_or_prefix_of_prefix hstream ?_).resolve_right hrecord
          rw [ReplyRecord.bytes, ← List.append_assoc, List.append_assoc]
          exact List.prefix_append _ _
        have hne' : pieces.flatten ≠ r.header ++ r.content := by
          intro heq
          exact hrecord (heq ▸ List.prefix_rfl)
        refine ⟨?_, fun _ => readRecords_cut hne hcut hne'⟩
        rintro ⟨s, hs, hfront⟩
        refine absurd (List.IsPrefix.trans ?_ hfront) hrecord
        split at hs
        · cases hs
          exact List.prefix_rfl
        · obtain ⟨t, -, rfl⟩ := Option.map_eq_some_iff.mp hs
          rw [ReplyRecord.bytes, ← List.append_assoc, List.append_assoc]
          exact List.prefix_append _ _

theorem streamLength_reads
    (pieces : List Bytes) :
    streamLength (reads pieces) = pieces.flatten.length := by
  rw [streamLength, reads, List.map_map, List.length_flatten]
  rfl

theorem untilEnd_prefix
    (h : ∃ r ∈ records, r.kind = fcgiEndRequest) :
    ∃ s, untilEnd records = some s ∧ s <+: records.flatMap ReplyRecord.bytes := by
  induction records with
  | nil =>
      obtain ⟨r, hr, -⟩ := h
      cases hr
  | cons r rs ih =>
      rw [untilEnd, List.flatMap_cons]
      by_cases hend : r.kind = fcgiEndRequest
      · refine ⟨_, if_pos hend, ?_⟩
        rw [ReplyRecord.bytes, ← List.append_assoc, List.append_assoc]
        exact List.prefix_append _ _
      · obtain ⟨s, hs, hfront⟩ := ih (by
          obtain ⟨r', hr', hkind⟩ := h
          rcases List.mem_cons.mp hr' with rfl | hr'
          · exact absurd hkind hend
          · exact ⟨r', hr', hkind⟩)
        refine ⟨r.bytes ++ s, ?_, (List.prefix_append_right_inj _).mpr hfront⟩
        rw [if_neg hend, hs, Option.map_some]

/--
A stream of records with an end of the request gives the page that stands in the standard
output in front of it, however the stream is cut into reads; one that is over before the
end of the request is there gives an error.
-/
theorem reply_assembled
    (hne : ∀ p ∈ pieces, p ≠ []) :
    (pieces.flatten = records.flatMap ReplyRecord.bytes →
        (∃ r ∈ records, r.kind = fcgiEndRequest) →
        readReply (reads pieces) = parseCgiResponse (stdoutOf records)) ∧
      (pieces.flatten <+: records.flatMap ReplyRecord.bytes →
        (∀ s, untilEnd records = some s → ¬ s <+: pieces.flatten) →
        ∃ e ∈ cutErrors, readReply (reads pieces) = .error e) := by
  have hloop := fun hstream : pieces.flatten <+: records.flatMap ReplyRecord.bytes =>
    readRecords_records [] hne hstream (Nat.lt_succ_self pieces.flatten.length)
  unfold readReply collectReply
  rw [streamLength_reads]
  constructor
  · intro hstream hend
    obtain ⟨s, hs, hfront⟩ := untilEnd_prefix hend
    rw [← hstream] at hfront
    rw [(hloop (hstream ▸ List.prefix_rfl)).1 ⟨s, hs, hfront⟩]
    rfl
  · intro hstream hover
    obtain ⟨e, he, herror⟩ := (hloop hstream).2 hover
    exact ⟨e, he, by rw [herror]; rfl⟩

/-- Output in two records, a message and a record of no kind between them, and its end. -/
def exampleRecords : List ReplyRecord :=
  [⟨1, 6, 0, 1, 0, ascii "Status: 404\n\nno", [0, 0], by decide, by decide⟩,
    ⟨1, 7, 0, 1, 0, ascii "warning", [], by decide, by decide⟩,
    ⟨1, 99, 0, 7, 0, [], [0], by decide, by decide⟩,
    ⟨1, 6, 0, 1, 0, ascii " page", [], by decide, by decide⟩,
    ⟨1, 3, 0, 1, 0, [0, 0, 0, 0, 0, 0, 0, 0], [], by decide, by decide⟩]

/-- The records arrive byte by byte. -/
theorem reply_assembled_example :
    readReply (reads ((exampleRecords.flatMap ReplyRecord.bytes).map fun b => [b])) =
      .ok ⟨404, [(ascii "Content-Length", ascii "7")], ascii "no page"⟩ := by
  have hne : ∀ p ∈ (exampleRecords.flatMap ReplyRecord.bytes).map fun b => [b], p ≠ [] := by
    intro p hp
    obtain ⟨b, -, rfl⟩ := List.mem_map.mp hp
    exact List.cons_ne_nil _ _
  have hend : ∃ r ∈ exampleRecords, r.kind = fcgiEndRequest := by
    decide
  refine ((reply_assembled hne).1 (by decide) hend).trans ?_
  decide

end Reply

end FastCgi
end RunNginx
