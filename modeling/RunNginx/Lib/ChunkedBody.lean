import RunNginx.Lib.HttpMessage
import RunNginx.Lib.IpAddr

/-!
# Chunked bodies

A chunked body is a sequence of chunks, each behind a line with its size, up to a chunk of
size zero and the trailer fields behind it.  `ChunkedBody.rest` finds its end by reading the
sizes; what it finds does not depend on what follows.  `ChunkedBody.data` is what it carries.

The module begins with what a search finds in the parts of a text that arrive first.
-/

namespace ByteString

/-- What is found stays found when more text arrives. -/
theorem find_append_of_some
    {pat s : Bytes} {i : Nat} (hpat : pat ≠ []) (h : find pat s = some i) (t : Bytes) :
    find pat (s ++ t) = some i := by
  obtain ⟨hocc, hmin⟩ := (find_eq_some_iff hpat s i).mp h
  have hpos := List.length_pos_of_ne_nil hpat
  have hfits := hocc.length_le
  rw [List.length_drop] at hfits
  refine (find_eq_some_iff hpat _ _).mpr ⟨?_, fun j hj hearlier => hmin j hj ?_⟩
  · rw [List.drop_append_of_le_length (by omega)]
    exact hocc.trans (List.prefix_append _ _)
  · rw [List.drop_append_of_le_length (by omega)] at hearlier
    refine List.prefix_of_prefix_length_le hearlier (List.prefix_append _ _) ?_
    rw [List.length_drop]
    omega

/-- The first parts of a text hold the first occurrence as soon as it is complete. -/
theorem find_of_isPrefix
    {pat s u : Bytes} {i : Nat} (hpat : pat ≠ []) (hu : u <+: s) (h : find pat s = some i) :
    find pat u = if i + pat.length ≤ u.length then some i else none := by
  obtain ⟨t, rfl⟩ := hu
  cases hfind : find pat u with
  | none =>
      rw [if_neg fun hle => ?_]
      obtain ⟨hocc, -⟩ := (find_eq_some_iff hpat _ _).mp h
      rw [List.drop_append_of_le_length (by omega)] at hocc
      refine (find_eq_none_iff hpat u).mp hfind i ?_
      refine List.prefix_of_prefix_length_le hocc (List.prefix_append _ _) ?_
      rw [List.length_drop]
      omega
  | some j =>
      have heq := find_append_of_some hpat hfind t
      rw [h] at heq
      obtain rfl := Option.some.inj heq
      have hfits := ((find_eq_some_iff hpat u i).mp hfind).1.length_le
      have hpos := List.length_pos_of_ne_nil hpat
      rw [List.length_drop] at hfits
      rw [if_pos (by omega)]

end ByteString

namespace HttpMessage

open ByteString

/-- The head that is read does not change when more text arrives. -/
theorem headLoop_append
    {fuel fuel' : Nat} {s rest : Bytes} {lines : List Bytes} (hfuel : fuel ≤ fuel')
    (h : headLoop fuel s = some (lines, rest)) (t : Bytes) :
    headLoop fuel' (s ++ t) = some (lines, rest ++ t) := by
  induction fuel generalizing fuel' s lines with
  | zero => cases h
  | succ fuel ih =>
      obtain ⟨fuel', rfl⟩ := Nat.exists_eq_succ_of_ne_zero (Nat.ne_zero_of_lt hfuel)
      rw [headLoop] at h ⊢
      cases hfind : find crlf s with
      | none =>
          rw [hfind] at h
          cases h
      | some n =>
          have hfits := (find_split crlf_ne_nil hfind).1
          have hlength := congrArg List.length hfits
          simp only [List.length_append, List.length_take, crlf, List.length_cons,
            List.length_nil, List.length_drop] at hlength
          rw [hfind] at h
          rw [find_append_of_some crlf_ne_nil hfind]
          cases n with
          | zero =>
              obtain ⟨rfl, rfl⟩ := Prod.mk.inj (Option.some.inj h)
              rw [List.drop_append_of_le_length (by omega)]
          | succ n =>
              obtain ⟨⟨more, rest'⟩, hmore, heq⟩ := Option.map_eq_some_iff.mp h
              obtain ⟨rfl, rfl⟩ := Prod.mk.inj heq
              dsimp only
              rw [List.drop_append_of_le_length (by omega),
                List.take_append_of_le_length (by omega), ih (Nat.le_of_succ_le_succ hfuel) hmore]
              rfl

theorem parseHead_append
    {s rest : Bytes} {lines : List Bytes} (h : parseHead s = some (lines, rest)) (t : Bytes) :
    parseHead (s ++ t) = some (lines, rest ++ t) :=
  headLoop_append (by rw [List.length_append]; omega) h t

end HttpMessage

namespace ChunkedBody

open ByteString IpAddr HttpMessage

/-- The size in a size line, in front of a blank or of the extensions. -/
def chunkSize (line : Bytes) : Option Nat :=
  let digits := line.takeWhile fun b => (hexVal b).isSome
  let behind := line.dropWhile fun b => (hexVal b).isSome
  if digits ≠ [] ∧ behind.head?.all (fun b => b == 59 || isOws b) = true then
    some (digits.foldl (fun n b => 16 * n + ((hexVal b).getD 0).toNat) 0)
  else none

/-- Read chunk by chunk, with fuel; what is left behind the trailer fields. -/
def readLoop : Nat → Bytes → Option Bytes
  | 0, _ => none
  | fuel + 1, s =>
      match find crlf s with
      | none => none
      | some i =>
          match chunkSize (s.take i) with
          | none => none
          | some 0 => (parseHead (s.drop (i + 2))).map Prod.snd
          | some (n + 1) =>
              match stripPrefix crlf (s.drop (i + 2 + (n + 1))) with
              | none => none
              | some behind => readLoop fuel behind

/-- What stands behind the chunked body at the beginning of a text, if all of it is there. -/
def rest (s : Bytes) : Option Bytes :=
  readLoop (s.length + 1) s

theorem readLoop_append
    {fuel fuel' : Nat} {s r : Bytes} (hfuel : fuel ≤ fuel') (h : readLoop fuel s = some r)
    (t : Bytes) :
    readLoop fuel' (s ++ t) = some (r ++ t) := by
  induction fuel generalizing fuel' s with
  | zero => cases h
  | succ fuel ih =>
      obtain ⟨fuel', rfl⟩ := Nat.exists_eq_succ_of_ne_zero (Nat.ne_zero_of_lt hfuel)
      rw [readLoop] at h ⊢
      cases hfind : find crlf s with
      | none =>
          rw [hfind] at h
          cases h
      | some i =>
          have hlength := congrArg List.length (find_split crlf_ne_nil hfind).1
          simp only [List.length_append, List.length_take, crlf, List.length_cons,
            List.length_nil, List.length_drop] at hlength
          rw [hfind] at h
          rw [find_append_of_some crlf_ne_nil hfind]
          dsimp only at h ⊢
          rw [List.take_append_of_le_length (by omega)]
          cases hsize : chunkSize (s.take i) with
          | none =>
              rw [hsize] at h
              cases h
          | some n =>
              rw [hsize] at h
              cases n with
              | zero =>
                  obtain ⟨⟨trailers, r'⟩, hhead, rfl⟩ := Option.map_eq_some_iff.mp h
                  dsimp only
                  rw [List.drop_append_of_le_length (by omega), parseHead_append hhead]
                  rfl
              | succ n =>
                  dsimp only at h ⊢
                  cases hstrip : stripPrefix crlf (s.drop (i + 2 + (n + 1))) with
                  | none =>
                      rw [hstrip] at h
                      cases h
                  | some behind =>
                      rw [hstrip] at h
                      have hdrop := stripPrefix_eq_some_iff.mp hstrip
                      have hle := congrArg List.length hdrop
                      simp only [List.length_append, crlf, List.length_cons, List.length_nil,
                        List.length_drop] at hle
                      rw [List.drop_append_of_le_length (by omega), hdrop, List.append_assoc,
                        stripPrefix_eq_some_iff.mpr rfl]
                      exact ih (Nat.le_of_succ_le_succ hfuel) h

/-- The end of a body does not depend on what follows. -/
theorem rest_append
    {s r : Bytes} (h : rest s = some r) (t : Bytes) :
    rest (s ++ t) = some (r ++ t) :=
  readLoop_append (by rw [List.length_append]; omega) h t

/-- Of the first parts of a chunked body, only all of it is complete. -/
theorem rest_isSome_iff
    {body got : Bytes} (hbody : rest body = some []) (hgot : got <+: body) :
    (rest got).isSome = true ↔ got = body := by
  constructor
  · intro h
    obtain ⟨r, hr⟩ := Option.isSome_iff_exists.mp h
    obtain ⟨t, rfl⟩ := hgot
    rw [rest_append hr, Option.some.injEq] at hbody
    rw [(List.append_eq_nil_iff.mp hbody).2, List.append_nil]
  · rintro rfl
    rw [hbody]
    rfl

/-! ### The data -/

/-- The data of the chunks that `readLoop` passes. -/
def dataLoop : Nat → Bytes → Option Bytes
  | 0, _ => none
  | fuel + 1, s =>
      match find crlf s with
      | none => none
      | some i =>
          match chunkSize (s.take i) with
          | none => none
          | some 0 => (parseHead (s.drop (i + 2))).map fun _ => []
          | some (n + 1) =>
              match stripPrefix crlf (s.drop (i + 2 + (n + 1))) with
              | none => none
              | some behind =>
                  (dataLoop fuel behind).map fun more => (s.drop (i + 2)).take (n + 1) ++ more

/-- What a chunked body carries. -/
def data (s : Bytes) : Option Bytes :=
  dataLoop (s.length + 1) s

/-- The size lines and the last chunk take room. -/
theorem length_dataLoop_lt
    {fuel : Nat} {s d : Bytes} (h : dataLoop fuel s = some d) :
    d.length < s.length := by
  induction fuel generalizing s d with
  | zero => cases h
  | succ fuel ih =>
      rw [dataLoop] at h
      cases hfind : find crlf s with
      | none =>
          rw [hfind] at h
          cases h
      | some i =>
          have hlength := congrArg List.length (find_split crlf_ne_nil hfind).1
          simp only [List.length_append, List.length_take, crlf, List.length_cons,
            List.length_nil, List.length_drop] at hlength
          rw [hfind] at h
          dsimp only at h
          cases hsize : chunkSize (s.take i) with
          | none =>
              rw [hsize] at h
              cases h
          | some n =>
              rw [hsize] at h
              cases n with
              | zero =>
                  obtain ⟨-, -, rfl⟩ := Option.map_eq_some_iff.mp h
                  rw [List.length_nil]
                  omega
              | succ n =>
                  dsimp only at h
                  cases hstrip : stripPrefix crlf (s.drop (i + 2 + (n + 1))) with
                  | none =>
                      rw [hstrip] at h
                      cases h
                  | some behind =>
                      rw [hstrip] at h
                      obtain ⟨more, hmore, rfl⟩ := Option.map_eq_some_iff.mp h
                      have hless := ih hmore
                      have hrest := congrArg List.length (stripPrefix_eq_some_iff.mp hstrip)
                      simp only [List.length_append, crlf, List.length_cons, List.length_nil,
                        List.length_drop] at hrest
                      rw [List.length_append, List.length_take, List.length_drop]
                      omega

theorem length_data_lt
    {s d : Bytes} (h : data s = some d) :
    d.length < s.length :=
  length_dataLoop_lt h

end ChunkedBody
