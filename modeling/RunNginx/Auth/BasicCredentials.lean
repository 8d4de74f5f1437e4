import RunNginx.Auth
import RunNginx.Lib.Base64

/-!
# Basic credentials

A client sends `Basic` and the base64 text of its user name, a colon and its password.

`checkBasicAuth_encoded`: the check of such a header is the check of the password against the
first line of the password file that is for the user, and fails where no line is.
-/

namespace RunNginx
namespace Auth

open ByteString StaticFiles

/-- The Authorization header of a user. -/
def credentials (username password : Bytes) : Bytes :=
  ascii "Basic " ++ Base64.encode (username ++ 58 :: password)

/-- A line that begins with a hash sign, behind white space. -/
def IsComment (line : Bytes) : Prop :=
  (Utf8.trim line).head? = some 35

/-- The line holds this hash for the user.  A user name has no colon, so its first one ends it. -/
def HashLine (username hash line : Bytes) : Prop :=
  ¬ IsComment line ∧ Utf8.trim line = username ++ 58 :: hash

/-- The hash of the first line for the user. -/
def FirstHash (contents username hash : Bytes) : Prop :=
  ∃ pre line post, lines contents = pre ++ line :: post ∧ HashLine username hash line ∧
    ∀ l ∈ pre, ∀ h, ¬ HashLine username h l

section Decoding

theorem ofNat_eq
    {n : Nat} {b : UInt8} (h : n % 256 = b.toNat) :
    UInt8.ofNat n = b :=
  UInt8.toNat_inj.mp ((UInt8.toNat_ofNat').trans h)

/-- The digits of a text are decoded to its bytes. -/
theorem base64Bytes_sextets
    (s : Bytes) :
    base64Bytes (Base64.sextets s) = s := by
  induction s using Base64.sextets.induct with
  | case1 a b c rest ih =>
      have ha := a.toNat_lt
      have hb := b.toNat_lt
      have hc := c.toNat_lt
      rw [Base64.sextets, base64Bytes, ih, base64Group]
      rw [@ofNat_eq _ a (by omega), @ofNat_eq _ b (by omega), @ofNat_eq _ c (by omega)]
      rfl
  | case2 a b =>
      have ha := a.toNat_lt
      have hb := b.toNat_lt
      rw [Base64.sextets, base64Bytes, base64Group]
      · rw [@ofNat_eq _ a (by omega), @ofNat_eq _ b (by omega)]
      · intro a b c d rest heq
        cases heq
  | case3 a =>
      have ha := a.toNat_lt
      rw [Base64.sextets, base64Bytes, base64Group]
      · rw [@ofNat_eq _ a (by omega)]
      · intro a b c d rest heq
        cases heq
  | case4 => rfl

theorem base64Indices_encode
    (s : Bytes) :
    base64Indices (Base64.encode s) = Base64.sextets s :=
  Base64.digitsOf_encode s

/-- An encoded text is decoded to itself. -/
theorem base64Decode_encode
    {s : Bytes} (hs : Utf8.isUtf8 s = true) :
    base64Decode (Base64.encode s) = some s := by
  rw [base64Decode, base64Indices_encode, base64Bytes_sextets]
  exact if_pos hs

/-- Nothing is trimmed off an encoded text. -/
theorem trim_encode
    (s : Bytes) :
    Utf8.trim (Base64.encode s) = Base64.encode s := by
  have halphabet : Base64.alphabet.all Utf8.isVisible = true := rfl
  refine Utf8.trim_visible fun b hb => ?_
  rcases Base64.mem_encode hb with hdigit | rfl
  · exact List.all_eq_true.mp halphabet b hdigit
  · rfl

end Decoding

section Check

variable {fs : FileSystem} {bcryptVerify : Bytes → Bytes → Bool}
variable {userFile contents username password hash : Bytes}

/-- What the scan takes from a line. -/
theorem lineOf_eq_some_iff
    (hcolon : (58 : UInt8) ∉ username) (line : Bytes) :
    lineOf username line = some hash ↔ HashLine username hash line := by
  unfold lineOf HashLine IsComment
  dsimp only
  generalize Utf8.trim line = l
  constructor
  · intro h
    split at h
    · cases h
    rename_i hskip
    rw [not_or] at hskip
    refine ⟨hskip.2, ?_⟩
    split at h
    · cases h
    rename_i col hfind
    obtain ⟨hsplit, -, -⟩ := find_byte_split hfind
    split at h
    · rename_i huser
      rw [huser, Option.some.inj h] at hsplit
      exact hsplit
    · cases h
  · rintro ⟨hcomment, rfl⟩
    have hskip : ¬ (username ++ 58 :: hash = [] ∨ (username ++ 58 :: hash).head? = some 35) := by
      rw [not_or]
      exact ⟨by simp, hcomment⟩
    have hafter : (username ++ 58 :: hash).drop (username.length + 1) = hash := by
      rw [List.drop_length_add_append]
      rfl
    rw [if_neg hskip, find_byte_append hcolon]
    dsimp only
    rw [List.take_left, if_pos rfl, hafter]

/-- The scan ends at the first line for the user. -/
theorem findSome_lineOf_iff
    (hcolon : (58 : UInt8) ∉ username) :
    (lines contents).findSome? (lineOf username) = some hash ↔
      FirstHash contents username hash := by
  have hskipped : ∀ l, lineOf username l = none ↔ ∀ h, ¬ HashLine username h l := by
    intro l
    rw [Option.eq_none_iff_forall_ne_some]
    exact forall_congr' fun h => not_congr (lineOf_eq_some_iff hcolon l)
  rw [List.findSome?_eq_some_iff, FirstHash]
  simp only [lineOf_eq_some_iff hcolon, hskipped]

/-- The check of the header of a user is the scan for the line of this user. -/
theorem checkBasicAuth_credentials
    (hread : fs.readFile userFile = some contents) (htext : Utf8.isUtf8 contents = true)
    (hcolon : (58 : UInt8) ∉ username) (huser : Utf8.isUtf8 username = true)
    (hpassword : Utf8.isUtf8 password = true) :
    checkBasicAuth fs bcryptVerify userFile (credentials username password) =
      ((lines contents).findSome? (lineOf username)).any
        (verifyPassword bcryptVerify password) := by
  have hsent : Utf8.isUtf8 (username ++ 58 :: password) = true :=
    Utf8.isUtf8_append huser (@Utf8.isUtf8_append [58] password (by decide) hpassword)
  have hheader : stripPrefix (ascii "Basic ") (credentials username password) =
      some (Base64.encode (username ++ 58 :: password)) :=
    stripPrefix_eq_some_iff.mpr rfl
  have hbehind : (username ++ 58 :: password).drop (username.length + 1) = password := by
    rw [List.drop_length_add_append]
    rfl
  unfold checkBasicAuth
  rw [hheader, Option.bind_some, trim_encode, base64Decode_encode hsent]
  dsimp only
  rw [find_byte_append hcolon]
  dsimp only
  rw [hread, Option.filter_some, if_pos htext]
  dsimp only
  rw [List.take_left, hbehind]
  cases (lines contents).findSome? (lineOf username) with
  | none => rfl
  | some hash => rfl

/--
The header of a user is accepted exactly if the password fits the hash of the first line for
this user; without such a line it is refused.
-/
theorem checkBasicAuth_encoded
    (hread : fs.readFile userFile = some contents) (htext : Utf8.isUtf8 contents = true)
    (hcolon : (58 : UInt8) ∉ username) (huser : Utf8.isUtf8 username = true)
    (hpassword : Utf8.isUtf8 password = true) :
    (∀ hash, FirstHash contents username hash →
      checkBasicAuth fs bcryptVerify userFile (credentials username password) =
        verifyPassword bcryptVerify password hash) ∧
      ((∀ hash, ¬ FirstHash contents username hash) →
        checkBasicAuth fs bcryptVerify userFile (credentials username password) = false) := by
  rw [checkBasicAuth_credentials hread htext hcolon huser hpassword]
  constructor
  · intro hash hfirst
    rw [(findSome_lineOf_iff hcolon).mpr hfirst, Option.any_some]
  · intro hnone
    cases hscan : (lines contents).findSome? (lineOf username) with
    | none => rfl
    | some hash => exact absurd ((findSome_lineOf_iff hcolon).mp hscan) (hnone hash)

end Check

section Example

def passwordText : Bytes :=
  ascii "# alice:old\n bob:x\r\nalice:s3:cret\nalice:other\n"

/-- A file system with one password file. -/
def passwordFiles : FileSystem where
  tree := ⟨fun names =>
    if names = [ascii "etc"] then some .dir
    else if names = [ascii "etc", ascii "users"] then
      some (.file ⟨passwordText, some 7, true, by decide⟩)
    else none⟩
  cwd := []
  cwd_dir := .root

/-- A password with a colon, behind a comment that looks like the line of the user. -/
theorem checkBasicAuth_encoded_example :
    checkBasicAuth passwordFiles (fun _ _ => false) (ascii "/etc/users")
        (credentials (ascii "alice") (ascii "s3:cret")) =
      verifyPassword (fun _ _ => false) (ascii "s3:cret") (ascii "s3:cret") := by
  have hread : passwordFiles.readFile (ascii "/etc/users") = some passwordText := by
    decide +kernel
  have hlines : lines passwordText =
      [ascii "# alice:old", ascii " bob:x"] ++ ascii "alice:s3:cret" :: [ascii "alice:other"] := by
    decide +kernel
  have hfirst : FirstHash passwordText (ascii "alice") (ascii "s3:cret") := by
    refine ⟨_, _, _, hlines, ⟨?_, by decide +kernel⟩, ?_⟩
    · unfold IsComment
      decide +kernel
    · intro l hl h hline
      have hother : Utf8.trim l = ascii "# alice:old" ∨ Utf8.trim l = ascii "bob:x" := by
        rcases List.mem_pair.mp hl with rfl | rfl
        · exact Or.inl (by decide +kernel)
        · exact Or.inr (by decide +kernel)
      obtain ⟨-, htrim⟩ := hline
      have hhead := congrArg List.head? htrim
      rcases hother with heq | heq
      · rw [heq] at hhead
        cases hhead
      · rw [heq] at hhead
        cases hhead
  exact (checkBasicAuth_encoded hread (by decide +kernel) (by decide) (by decide)
    (by decide)).1 _ hfirst

end Example

end Auth
end RunNginx
