import RunNginx.FastCgi
import RunNginx.Lib.RecordStream

/-!
# The FastCGI request stream

What is written to the application server before its answer is read: the record that
begins a request, the parameters and the body in chunks, and an empty record behind each of
the two.

`requestStream_wellFormed`: a reader of records and of name-value pairs gets the parameters
and the body back, whatever the order of the map is and wherever the chunks are cut.
-/

namespace RunNginx
namespace FastCgi

open ByteString RecordStream

def fcgiVersion : UInt8 := 1
def fcgiBeginRequest : UInt8 := 1
def fcgiParams : UInt8 := 4
def fcgiStdin : UInt8 := 5
def fcgiResponder : UInt16 := 1

def requestId : UInt16 := 1

def makeRecord (recordType : UInt8) (id : UInt16) (content : Bytes) : Bytes :=
  let len := UInt16.ofNat content.length
  [fcgiVersion, recordType, (id >>> 8).toUInt8, (id &&& 0xff).toUInt8, (len >>> 8).toUInt8,
    (len &&& 0xff).toUInt8, 0, 0] ++ content

def beginRequestRecord (id : UInt16) : Bytes :=
  let body := [(fcgiResponder >>> 8).toUInt8, (fcgiResponder &&& 0xff).toUInt8, 0, 0, 0, 0, 0, 0]
  makeRecord fcgiBeginRequest id body

def encodeLength (len : Nat) : Bytes :=
  if len < 128 then [UInt8.ofNat len]
  else
    [UInt8.ofNat (len >>> 24) ||| 0x80, UInt8.ofNat (len >>> 16), UInt8.ofNat (len >>> 8),
      UInt8.ofNat len]

def encodeParam (kv : Bytes × Bytes) : Bytes :=
  encodeLength kv.1.length ++ encodeLength kv.2.length ++ kv.1 ++ kv.2

/-- The parameters in the order in which the map gives them. -/
def encodeParams (params : List (Bytes × Bytes)) : Bytes :=
  params.flatMap encodeParam

def chunkSize : ℕ+ := 65000

/-- What is written to the application server, call by call. -/
def runFastcgi (params : List (Bytes × Bytes)) (body : Bytes) : List Bytes :=
  [beginRequestRecord requestId] ++
    (chunks chunkSize (encodeParams params)).map (makeRecord fcgiParams requestId) ++
    [makeRecord fcgiParams requestId []] ++
    (chunks chunkSize body).map (makeRecord fcgiStdin requestId) ++
    [makeRecord fcgiStdin requestId []]

/-- The entries of a map, in some order. -/
def Lists (params : List (Bytes × Bytes)) (map : Table Bytes Bytes) : Prop :=
  params.Perm (map.entries.map fun e => (e.1, e.2))

/-! ### Lengths and pairs -/

theorem highByte
    {b : UInt8} (h : b < 128) :
    ¬ (b ||| 0x80) < 128 ∧ (b ||| 0x80).toNat = b.toNat + 128 := by
  have := forall_byte
    (P := fun b => b < 128 → ¬ (b ||| 0x80) < 128 ∧ (b ||| 0x80).toNat = b.toNat + 128)
    (by decide +kernel) b
  exact this h

theorem readLength_encodeLength
    {len : Nat} (h : len < 2 ^ 31) (rest : Bytes) :
    readLength (encodeLength len ++ rest) = some (len, rest) := by
  unfold encodeLength
  split
  · rename_i hshort
    have hbyte : (UInt8.ofNat len).toNat = len := Nat.mod_eq_of_lt (by omega)
    have hlt : UInt8.ofNat len < 128 := by
      rw [UInt8.lt_iff_toNat_lt, hbyte]
      exact hshort
    simp only [List.cons_append, List.nil_append, readLength, if_pos hlt, hbyte]
  · have htop : (UInt8.ofNat (len >>> 24)).toNat = len / 2 ^ 24 := by
      rw [UInt8.toNat_ofNat', Nat.shiftRight_eq_div_pow]
      omega
    have hlt : UInt8.ofNat (len >>> 24) < 128 := by
      rw [UInt8.lt_iff_toNat_lt, htop]
      show len / 2 ^ 24 < 128
      omega
    obtain ⟨hlong, hhigh⟩ := highByte hlt
    simp only [List.cons_append, List.nil_append, readLength]
    rw [if_neg hlong, hhigh, htop]
    simp only [UInt8.toNat_ofNat', Nat.shiftRight_eq_div_pow, Nat.add_sub_cancel,
      Option.some.injEq, Prod.mk.injEq, and_true]
    omega

theorem encodeLength_ne_nil (len : Nat) : encodeLength len ≠ [] := by
  unfold encodeLength
  split <;> simp

theorem encodeParam_ne_nil (kv : Bytes × Bytes) : encodeParam kv ≠ [] := by
  simp [encodeParam, encodeLength_ne_nil]

theorem readPair_encodeParam
    {kv : Bytes × Bytes}
    (hname : kv.1.length < 2 ^ 31) (hvalue : kv.2.length < 2 ^ 31) (rest : Bytes) :
    readPair (encodeParam kv ++ rest) = some (kv, rest) := by
  have hfits : ¬ (kv.1 ++ (kv.2 ++ rest)).length < kv.1.length + kv.2.length := by
    simp only [List.length_append]
    omega
  simp only [readPair, encodeParam, List.append_assoc, readLength_encodeLength hname,
    readLength_encodeLength hvalue, Option.bind_some, if_neg hfits, List.take_left,
    List.drop_left]
  rw [← List.drop_drop, List.drop_left, List.drop_left]

/-- The stream of the parameters decodes to them. -/
theorem readPairs_encodeParams
    {params : List (Bytes × Bytes)}
    (hsmall : ∀ kv ∈ params, kv.1.length < 2 ^ 31 ∧ kv.2.length < 2 ^ 31) :
    readPairs (encodeParams params) = some params :=
  readMany_flatMap
    (fun kv hkv rest => readPair_encodeParam (hsmall kv hkv).1 (hsmall kv hkv).2 rest)
    (fun kv _ => encodeParam_ne_nil kv)
    (length_le_flatMap fun kv _ => encodeParam_ne_nil kv)

/-! ### The records of a request -/

/-- The records of a request, by kind and content. -/
def requestRecords (params : List (Bytes × Bytes)) (body : Bytes) : List (UInt8 × Bytes) :=
  [(fcgiBeginRequest, [0, 1, 0, 0, 0, 0, 0, 0])] ++
    (chunks chunkSize (encodeParams params)).map (fcgiParams, ·) ++ [(fcgiParams, [])] ++
    (chunks chunkSize body).map (fcgiStdin, ·) ++ [(fcgiStdin, [])]

theorem runFastcgi_eq
    (params : List (Bytes × Bytes)) (body : Bytes) :
    runFastcgi params body =
      (requestRecords params body).map fun r => makeRecord r.1 requestId r.2 := by
  simp only [runFastcgi, requestRecords, List.map_append, List.map_map, List.map_cons,
    List.map_nil]
  rfl

/-- A record of the request, as it is read. -/
def recordOf (r : UInt8 × Bytes) : Record :=
  ⟨fcgiVersion, r.1, requestId.toNat, r.2⟩

theorem readRecord_makeRecord
    {r : UInt8 × Bytes}
    (hlength : r.2.length < 2 ^ 16) (rest : Bytes) :
    readRecord (makeRecord r.1 requestId r.2 ++ rest) = some (recordOf r, rest) :=
  readRecord_append hlength rest

/-- No length is cut off by the cast to 16 bits. -/
theorem requestRecords_length
    {params : List (Bytes × Bytes)} {body : Bytes} {r : UInt8 × Bytes}
    (h : r ∈ requestRecords params body) :
    r.2.length < 2 ^ 16 := by
  have hchunk : ∀ {l c : Bytes}, c ∈ chunks chunkSize l → c.length < 2 ^ 16 :=
    fun hc => Nat.lt_of_le_of_lt (chunks_length hc) (by decide)
  simp only [requestRecords, List.mem_append, List.mem_map, List.mem_singleton] at h
  rcases h with (((rfl | ⟨c, hc, rfl⟩) | rfl) | ⟨c, hc, rfl⟩) | rfl
  · decide
  · exact hchunk hc
  · decide
  · exact hchunk hc
  · decide

theorem readAll_runFastcgi
    (params : List (Bytes × Bytes)) (body : Bytes) :
    readAll (runFastcgi params body).flatten =
      some ((requestRecords params body).map recordOf) := by
  have hne : ∀ r ∈ (requestRecords params body).map recordOf,
      makeRecord r.kind requestId r.content ≠ [] := by
    intro r _
    simp [makeRecord]
  have hbytes : (runFastcgi params body).flatten =
      ((requestRecords params body).map recordOf).flatMap
        fun r => makeRecord r.kind requestId r.content := by
    rw [runFastcgi_eq, List.flatMap_def, List.map_map]
    rfl
  rw [readAll, hbytes]
  refine readMany_flatMap ?_ hne (length_le_flatMap hne)
  intro r hr rest
  obtain ⟨r, hmem, rfl⟩ := List.mem_map.mp hr
  exact readRecord_makeRecord (requestRecords_length hmem) rest

/-- The stream of one request: a record that begins it, the parameters, the body.  No record
but the two that end the parameters and the body is empty. -/
def IsRequest (map : Table Bytes Bytes) (body : Bytes) (records : List Record) : Prop :=
  ∃ paramChunks bodyChunks : List Bytes,
    records =
      [recordOf (fcgiBeginRequest, [0, 1, 0, 0, 0, 0, 0, 0])] ++
        paramChunks.map (fun c => recordOf (fcgiParams, c)) ++ [recordOf (fcgiParams, [])] ++
        bodyChunks.map (fun c => recordOf (fcgiStdin, c)) ++ [recordOf (fcgiStdin, [])] ∧
    (∀ c ∈ paramChunks ++ bodyChunks, c ≠ []) ∧
    (∃ params, readPairs paramChunks.flatten = some params ∧ Lists params map) ∧
    bodyChunks.flatten = body

/-- What is written is one request, and it is read as the map and the body. -/
theorem requestStream_wellFormed
    {map : Table Bytes Bytes} {params : List (Bytes × Bytes)}
    (hparams : Lists params map)
    (hsmall : ∀ name value, map.lookup name = some value →
      name.length < 2 ^ 31 ∧ value.length < 2 ^ 31)
    (body : Bytes) :
    ∃ records, readAll (runFastcgi params body).flatten = some records ∧
      IsRequest map body records := by
  refine ⟨_, readAll_runFastcgi params body, chunks chunkSize (encodeParams params),
    chunks chunkSize body, ?_, ?_, ⟨params, ?_, hparams⟩, chunks_flatten _ _⟩
  · simp only [requestRecords, List.map_append, List.map_map, List.map_cons, List.map_nil]
    rfl
  · intro c hc
    rcases List.mem_append.mp hc with hc | hc
    · exact chunks_ne_nil hc
    · exact chunks_ne_nil hc
  · rw [chunks_flatten]
    refine readPairs_encodeParams ?_
    intro kv hkv
    obtain ⟨e, he, rfl⟩ := List.mem_map.mp (hparams.subset hkv)
    exact hsmall e.1 e.2 (AList.mem_lookup_iff.mpr he)

/-- A request with one parameter and no body. -/
theorem requestStream_example :
    ∃ records,
      readAll (runFastcgi [(ascii "REQUEST_METHOD", ascii "GET")] []).flatten = some records ∧
        IsRequest (AList.singleton (ascii "REQUEST_METHOD") (ascii "GET")) [] records := by
  have hparams : Lists [(ascii "REQUEST_METHOD", ascii "GET")]
      (AList.singleton (ascii "REQUEST_METHOD") (ascii "GET")) :=
    List.Perm.refl _
  refine requestStream_wellFormed hparams ?_ []
  intro name value h
  have hmem := AList.mem_lookup_iff.mp h
  rw [AList.singleton_entries, List.mem_singleton] at hmem
  cases hmem
  decide

end FastCgi
end RunNginx
