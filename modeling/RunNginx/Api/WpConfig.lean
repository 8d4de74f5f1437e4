import RunNginx.Api.Entropy
import RunNginx.Api.SiteDatabase
import RunNginx.Lib.PhpText

/-!
# The configuration of a WordPress site

`wp-config.php` is made of the sample file: four placeholders, each in a literal between
single quotes, are replaced one after the other all over the text, then the phrases of the
eight keys.  Of the four values the password is escaped.

`wpConfig_iff`: the file is the program of the sample, with literals that denote the four
values, exactly if the host needs no escapes and no value is changed by the replacements
behind its own.
-/

namespace RunNginx
namespace Sites

open ByteString PhpText

/-- The escapes of the password. -/
def phpEscape (s : Bytes) : Bytes :=
  replace [39] [92, 39] (replace [92] [92, 92] s)

/-- The four values, or the bodies of their literals. -/
structure Credentials where
  name : Bytes
  user : Bytes
  password : Bytes
  host : Bytes
deriving DecidableEq

def Credentials.map (f : Bytes → Bytes) (x : Credentials) : Credentials :=
  ⟨f x.name, f x.user, f x.password, f x.host⟩

/-- What stands in the sample for them. -/
def placeholders : Credentials where
  name := ascii "database_name_here"
  user := ascii "username_here"
  password := ascii "password_here"
  host := ascii "localhost"

/-- A buffer of random bytes, or of zeros. -/
abbrev Buffer := { bytes : Bytes // bytes.length = 32 }

def randHex (buffer : Buffer) : Bytes :=
  (Api.hexText buffer.val).take 64

def keyNames : List Bytes :=
  [ascii "AUTH_KEY", ascii "SECURE_AUTH_KEY", ascii "LOGGED_IN_KEY", ascii "NONCE_KEY",
    ascii "AUTH_SALT", ascii "SECURE_AUTH_SALT", ascii "LOGGED_IN_SALT", ascii "NONCE_SALT"]

/-- A key with its value. -/
def keyTable (draw : Bytes → Buffer) : List (Bytes × Bytes) :=
  keyNames.map fun k => (k, randHex (draw k))

/-- The statement that gives a constant its literal. -/
def define (key body : Bytes) : Bytes :=
  ascii "define( '" ++ (key ++ (ascii "', '" ++ (body ++ ascii "' );")))

def phrase : Bytes :=
  ascii "put your unique phrase here"

def fillKey (key : Bytes × Bytes) (content : Bytes) : Bytes :=
  replace (define key.1 phrase) (define key.1 key.2) content

def fillKeys (keys : List (Bytes × Bytes)) (content : Bytes) : Bytes :=
  keys.foldl (fun content key => fillKey key content) content

/-- The content of the file, from that of the sample. -/
def wpConfig (keys : List (Bytes × Bytes)) (sample : Bytes) (db : Credentials) : Bytes :=
  fillKeys keys (replace placeholders.host db.host
    (replace placeholders.password (phpEscape db.password)
      (replace placeholders.user db.user
        (replace placeholders.name db.name sample))))

/-- The values of a request. -/
def credentials (dbName dbUser dbPass : Bytes) (dbHost : Option Bytes) : Credentials :=
  ⟨dbName, dbUser, dbPass, dbHost.getD (ascii "localhost")⟩

/-- The part of the setup that writes the file. -/
def setupConfig (draw : Bytes → Buffer) (sample dbName dbUser dbPass : Bytes)
    (dbHost : Option Bytes) : Except Bytes Bytes :=
  if !okIdent dbName || !okIdent dbUser then
    .error (ascii "Invalid db_name or db_user: only alphanumeric, _ and - allowed")
  else .ok (wpConfig (keyTable draw) sample (credentials dbName dbUser dbPass dbHost))

section Sample

/-- The names of the constants. -/
def constants : Credentials where
  name := ascii "DB_NAME"
  user := ascii "DB_USER"
  password := ascii "DB_PASSWORD"
  host := ascii "DB_HOST"

/-- The text around the four statements. -/
structure Parts where
  start : Bytes
  afterName : Bytes
  afterUser : Bytes
  afterPassword : Bytes
  afterHost : Bytes

namespace Parts

def map (f : Bytes → Bytes) (p : Parts) : Parts :=
  ⟨f p.start, f p.afterName, f p.afterUser, f p.afterPassword, f p.afterHost⟩

/-- The file with these bodies. -/
def fill (p : Parts) (x : Credentials) : Bytes :=
  p.start ++ (define constants.name x.name ++ (p.afterName ++ (define constants.user x.user ++
    (p.afterUser ++ (define constants.password x.password ++ (p.afterPassword ++
      (define constants.host x.host ++ p.afterHost)))))))

def opening (key : Bytes) : Bytes :=
  ascii "define( '" ++ (key ++ ascii "', '")

def closing : Bytes :=
  ascii "' );"

/-- What stands between the bodies. -/
def between (p : Parts) : List Bytes :=
  [p.start ++ opening constants.name, closing ++ p.afterName ++ opening constants.user,
    closing ++ p.afterUser ++ opening constants.password,
    closing ++ p.afterPassword ++ opening constants.host, closing ++ p.afterHost]

def codeBytes (s : String) : List Token :=
  (ascii s).map (Token.byte .code)

/-- The tokens of a statement. -/
def defineTokens (key body : Bytes) : List Token :=
  codeBytes "define( " ++ .literal key :: (codeBytes ", " ++ .literal body :: codeBytes " );")

/-- The tokens of the file with these bodies. -/
def tokens (p : Parts) (x : Credentials) : List Token :=
  (lexer.run lexer.start p.start).1 ++ (defineTokens constants.name x.name ++
    ((lexer.run .code p.afterName).1 ++ (defineTokens constants.user x.user ++
      ((lexer.run .code p.afterUser).1 ++ (defineTokens constants.password x.password ++
        ((lexer.run .code p.afterPassword).1 ++ (defineTokens constants.host x.host ++
          ((lexer.run .code p.afterHost).1 ++
            (lexer.finish (lexer.run .code p.afterHost).2).getD []))))))))

/-- The statements stand in the code, and the end of the file ends nothing too soon. -/
structure Coded (p : Parts) : Prop where
  start : (lexer.run lexer.start p.start).2 = .code
  afterName : (lexer.run .code p.afterName).2 = .code
  afterUser : (lexer.run .code p.afterUser).2 = .code
  afterPassword : (lexer.run .code p.afterPassword).2 = .code
  afterHost : (lexer.finish (lexer.run .code p.afterHost).2).isSome = true

end Parts

/-- A sample file: the placeholders are in their literals, and nowhere else. -/
structure Sample extends Parts where
  coded : toParts.Coded
  free : ∀ part ∈ toParts.between, ¬ placeholders.name <:+: part ∧ ¬ placeholders.user <:+: part ∧
    ¬ placeholders.password <:+: part ∧ ¬ placeholders.host <:+: part

def Sample.text (sample : Sample) : Bytes :=
  sample.fill placeholders

/-- The bodies denote the values. -/
structure Credentials.Denote (x db : Credentials) : Prop where
  name : unquote x.name = some db.name
  user : unquote x.user = some db.user
  password : unquote x.password = some db.password
  host : unquote x.host = some db.host

/-- The host needs no escapes, and no value is changed behind its own replacement. -/
structure Credentials.Stay (db : Credentials) : Prop where
  host : Plain db.host
  password : ¬ placeholders.host <:+: db.password ∨ db.host = placeholders.host
  user : replace placeholders.host db.host
    (replace placeholders.password db.password db.user) = db.user
  name : replace placeholders.host db.host (replace placeholders.password db.password
    (replace placeholders.user db.user db.name)) = db.name

end Sample

section Placeholders

variable {pat new : Bytes}

theorem phpEscape_eq
    (s : Bytes) :
    phpEscape s = escape s := by
  rw [phpEscape, replace_singleton, replace_singleton, List.flatMap_assoc, escape]
  congr 1
  funext b
  by_cases hback : b = 92
  · subst hback
    rfl
  by_cases hquote : b = 39
  · subst hquote
    rfl
  · simp [escapeByte, hback, hquote]

/-- A text without quotes and backslashes. -/
def Placeholder (pat : Bytes) : Prop :=
  pat ≠ [] ∧ ∀ b ∈ pat, Simple b

theorem placeholder_name :
    Placeholder placeholders.name :=
  ⟨by decide, simple_of_not_mem (by decide) (by decide)⟩

theorem placeholder_user :
    Placeholder placeholders.user :=
  ⟨by decide, simple_of_not_mem (by decide) (by decide)⟩

theorem placeholder_password :
    Placeholder placeholders.password :=
  ⟨by decide, simple_of_not_mem (by decide) (by decide)⟩

theorem placeholder_host :
    Placeholder placeholders.host :=
  ⟨by decide, simple_of_not_mem (by decide) (by decide)⟩

theorem getLast?_opening
    (s key : Bytes) :
    (s ++ Parts.opening key).getLast? = some 39 := by
  have hend : ascii "', '" = ascii "', " ++ [39] := rfl
  rw [Parts.opening, hend, ← List.append_assoc, ← List.append_assoc, ← List.append_assoc,
    List.getLast?_concat]

theorem head?_closing
    (s : Bytes) :
    (Parts.closing ++ s).head? = some 39 := rfl

/-- The file as the texts around the bodies. -/
theorem fill_eq
    (p : Parts) (x : Credentials) :
    p.fill x = p.start ++ Parts.opening constants.name ++ (x.name ++
      (Parts.closing ++ p.afterName ++ Parts.opening constants.user ++ (x.user ++
        (Parts.closing ++ p.afterUser ++ Parts.opening constants.password ++ (x.password ++
          (Parts.closing ++ p.afterPassword ++ Parts.opening constants.host ++ (x.host ++
            (Parts.closing ++ p.afterHost)))))))) := by
  simp only [Parts.fill, define, Parts.opening, Parts.closing, List.append_assoc]

/-- A body between two texts is replaced for itself. -/
theorem replace_between
    (hpat : Placeholder pat) {part rest : Bytes} (hfree : ¬ pat <:+: part)
    (hlast : part.getLast? = some 39) (hhead : rest.head? = some 39) (body : Bytes) :
    replace pat new (part ++ (body ++ rest)) =
      part ++ (replace pat new body ++ replace pat new rest) := by
  have hquote : 39 ∉ pat := fun h => (hpat.2 39 h).1 rfl
  obtain ⟨rest, rfl⟩ : ∃ rest', rest = 39 :: rest' := by
    cases rest with
    | nil => cases hhead
    | cons b rest => exact ⟨rest, by rw [Option.some.inj hhead]⟩
  rw [replace_append hpat.1 (apart_of_last (mt List.mem_of_mem_dropLast hquote) hlast),
    replace_eq_self hfree,
    replace_append hpat.1 (apart_of_head (mt List.mem_of_mem_tail hquote))]

/-- A placeholder is replaced in the bodies, and only there. -/
theorem replace_fill
    (hpat : Placeholder pat) {p : Parts} (hfree : ∀ part ∈ p.between, ¬ pat <:+: part)
    (x : Credentials) :
    replace pat new (p.fill x) = p.fill (x.map (replace pat new)) := by
  simp only [Parts.between, List.forall_mem_cons] at hfree
  obtain ⟨hname, huser, hpassword, hhost, hend, -⟩ := hfree
  have hhead : ∀ a b c : Bytes, (Parts.closing ++ a ++ b ++ c).head? = some 39 := fun _ _ _ => rfl
  rw [fill_eq, fill_eq, replace_between hpat hname (getLast?_opening _ _) (hhead _ _ _),
    replace_between hpat huser (getLast?_opening _ _) (hhead _ _ _),
    replace_between hpat hpassword (getLast?_opening _ _) (hhead _ _ _),
    replace_between hpat hhost (getLast?_opening _ _) (head?_closing _), replace_eq_self hend]
  rfl

/-- The bodies behind the four replacements. -/
def insertedBodies (db : Credentials) : Credentials where
  name := replace placeholders.host db.host (replace placeholders.password (phpEscape db.password)
    (replace placeholders.user db.user db.name))
  user := replace placeholders.host db.host (replace placeholders.password (phpEscape db.password)
    db.user)
  password := replace placeholders.host db.host (phpEscape db.password)
  host := db.host

theorem wpConfig_eq
    (keys : List (Bytes × Bytes)) (sample : Sample) (db : Credentials) :
    wpConfig keys sample.text db = fillKeys keys (sample.fill (insertedBodies db)) := by
  have hfree := sample.free
  rw [wpConfig, Sample.text,
    replace_fill placeholder_name fun part h => (hfree part h).1,
    replace_fill placeholder_user fun part h => (hfree part h).2.1,
    replace_fill placeholder_password fun part h => (hfree part h).2.2.1,
    replace_fill placeholder_host fun part h => (hfree part h).2.2.2]
  -- Each placeholder is replaced by its own value, and is in no other one.
  have hother : ∀ {pat s : Bytes}, Placeholder pat → contains pat s = false →
      ∀ new, replace pat new s = s := by
    intro pat s hpat hnot new
    refine replace_eq_self fun hin => ?_
    rw [← contains_iff_infix hpat.1, hnot] at hin
    cases hin
  have huser := @hother _ placeholders.user placeholder_name (by decide)
  have hpassword := @hother _ placeholders.password placeholder_name (by decide)
  have hhost := @hother _ placeholders.host placeholder_name (by decide)
  have hpassword' := @hother _ placeholders.password placeholder_user (by decide)
  have hhost' := @hother _ placeholders.host placeholder_user (by decide)
  have hhost'' := @hother _ placeholders.host placeholder_password (by decide)
  simp only [Credentials.map, insertedBodies, replace_self placeholder_name.1,
    replace_self placeholder_user.1, replace_self placeholder_password.1,
    replace_self placeholder_host.1, huser, hpassword, hhost, hpassword', hhost', hhost'']

end Placeholders

section Tokens

variable {p : Parts} {key body value : Bytes} {x : Credentials}

theorem define_eq
    (key body t : Bytes) :
    define key body ++ t =
      ascii "define( '" ++ (key ++ 39 :: (ascii ", '" ++ (body ++ 39 :: (ascii " );" ++ t)))) := by
  have hcomma : ascii "', '" = 39 :: ascii ", '" := rfl
  have hend : ascii "' );" = 39 :: ascii " );" := rfl
  simp [define, hcomma, hend]

/-- A statement is read as one. -/
theorem run_define
    (hkey : ∀ b ∈ key, Simple b) (hbody : Reads body value) (t : Bytes) :
    lexer.run .code (define key body ++ t) =
      (Parts.defineTokens key body ++ (lexer.run .code t).1, (lexer.run .code t).2) := by
  have hstart : lexer.run .code (ascii "define( '") =
      (Parts.codeBytes "define( ", .single [] false) := by decide
  have hcomma : lexer.run .code (ascii ", '") = (Parts.codeBytes ", ", .single [] false) := by
    decide
  have hend : lexer.run .code (ascii " );") = (Parts.codeBytes " );", .code) := by decide
  rw [define_eq, Lexer.run_append_of_eq hstart, (reads_of_simple hkey).run,
    Lexer.run_append_of_eq hcomma, hbody.run, Lexer.run_append_of_eq hend]
  simp [Parts.defineTokens]

theorem constants_simple :
    (∀ b ∈ constants.name, Simple b) ∧ (∀ b ∈ constants.user, Simple b) ∧
      (∀ b ∈ constants.password, Simple b) ∧ ∀ b ∈ constants.host, Simple b :=
  ⟨simple_of_not_mem (by decide) (by decide), simple_of_not_mem (by decide) (by decide),
    simple_of_not_mem (by decide) (by decide), simple_of_not_mem (by decide) (by decide)⟩

/-- Bodies of literals. -/
def Credentials.Read (x db : Credentials) : Prop :=
  Reads x.name db.name ∧ Reads x.user db.user ∧ Reads x.password db.password ∧ Reads x.host db.host

theorem denote_iff
    {db : Credentials} :
    x.Denote db ↔ x.Read db := by
  constructor
  · intro h
    exact ⟨unquote_eq_some_iff.mp h.name, unquote_eq_some_iff.mp h.user,
      unquote_eq_some_iff.mp h.password, unquote_eq_some_iff.mp h.host⟩
  · rintro ⟨hname, huser, hpassword, hhost⟩
    exact ⟨unquote_eq_some_iff.mpr hname, unquote_eq_some_iff.mpr huser,
      unquote_eq_some_iff.mpr hpassword, unquote_eq_some_iff.mpr hhost⟩

/-- A file with bodies of literals has the tokens of its parts and of the statements. -/
theorem tokens_fill
    {db : Credentials} (hp : p.Coded) (hx : x.Read db) :
    lexer.tokens (p.fill x) = some (p.tokens x) := by
  obtain ⟨hname, huser, hpassword, hhost⟩ := constants_simple
  obtain ⟨last, hlast⟩ := Option.isSome_iff_exists.mp hp.afterHost
  have hpart : ∀ {m : Mode} {s : Bytes} (t : Bytes), (lexer.run m s).2 = .code →
      lexer.run m (s ++ t) = ((lexer.run m s).1 ++ (lexer.run .code t).1, (lexer.run .code t).2) :=
    fun t h => by rw [Lexer.run_append, h]
  rw [Lexer.tokens, Parts.fill, hpart _ hp.start, run_define hname hx.1, hpart _ hp.afterName,
    run_define huser hx.2.1, hpart _ hp.afterUser, run_define hpassword hx.2.2.1,
    hpart _ hp.afterPassword, run_define hhost hx.2.2.2]
  simp only [hlast, Parts.tokens, Option.map_some, Option.getD_some, List.append_assoc]

theorem defineTokens_text
    (key body : Bytes) :
    (Parts.defineTokens key body).flatMap Token.text = define key body := by
  have hcode : ∀ s : String, (Parts.codeBytes s).flatMap Token.text = ascii s := by
    intro s
    rw [Parts.codeBytes, List.flatMap_map]
    exact List.flatMap_singleton' _
  have hstart : ascii "define( '" = ascii "define( " ++ [39] := rfl
  have hmiddle : ascii "', '" = 39 :: (ascii ", " ++ [39]) := rfl
  have hend : ascii "' );" = 39 :: ascii " );" := rfl
  simp [Parts.defineTokens, define, hcode, Token.text, hstart, hmiddle, hend]

/-- The tokens are the text of the file. -/
theorem tokens_text
    (hp : p.Coded) (x : Credentials) :
    (p.tokens x).flatMap Token.text = p.fill x := by
  have hpart : ∀ {m : Mode} {s : Bytes}, m.pending = [] → (lexer.run m s).2 = .code →
      (lexer.run m s).1.flatMap Token.text = s := by
    intro m s hm h
    have hrun := lossless.run m s
    have hcode : Mode.pending .code = [] := rfl
    rwa [hm, h, hcode, List.append_nil] at hrun
  obtain ⟨last, hlast⟩ := Option.isSome_iff_exists.mp hp.afterHost
  have hrest := lossless.run .code p.afterHost
  rw [← lossless.finish _ _ hlast, ← List.flatMap_append] at hrest
  simp only [Parts.tokens, hlast, Option.getD_some, List.flatMap_append, defineTokens_text,
    hpart rfl hp.start, hpart rfl hp.afterName, hpart rfl hp.afterUser, hpart rfl hp.afterPassword]
  rw [← List.flatMap_append, hrest]
  rfl

end Tokens

section Keys

variable {key : Bytes × Bytes} {keys : List (Bytes × Bytes)}

def capital (b : UInt8) : Bool :=
  (65 ≤ b && b ≤ 90) || b == 95

/-- A key in capitals, unlike the constants at its first letter, with a value of dull bytes. -/
structure KeyEntry (key : Bytes × Bytes) : Prop where
  capitals : ∀ b ∈ key.1, capital b = true
  first : ∃ c rest, key.1 = c :: rest ∧ c ≠ 68
  digits : ∀ b ∈ key.2, dull b = true
  value : key.2 ≠ []

theorem hexText_dull
    (bytes : Bytes) :
    ∀ b ∈ Api.hexText bytes, dull b = true := by
  have hdigit : ∀ n : UInt8, n.toNat < 16 → dull (Api.hexDigit n) = true := by
    intro n hn
    have hall : ∀ k : Fin 16, dull (Api.hexDigit (UInt8.ofNat k)) = true := by decide
    have h := hall ⟨n.toNat, hn⟩
    rwa [UInt8.ofNat_toNat] at h
  intro b hb
  obtain ⟨c, -, hb⟩ := List.mem_flatMap.mp hb
  have hc := c.toNat_lt
  rcases List.mem_pair.mp hb with rfl | rfl
  · refine hdigit _ ?_
    rw [UInt8.toNat_div]
    exact Nat.div_lt_of_lt_mul hc
  · refine hdigit _ ?_
    rw [UInt8.toNat_mod]
    exact Nat.mod_lt _ (by decide)

theorem keyTable_entries
    (draw : Bytes → Buffer) :
    ∀ key ∈ keyTable draw, KeyEntry key := by
  have hnames : keyNames.all (fun k => k.all capital && k.head?.any (· ≠ 68)) = true := rfl
  intro key hkey
  obtain ⟨k, hk, rfl⟩ := List.mem_map.mp hkey
  obtain ⟨hcapitals, hfirst⟩ := Bool.and_eq_true_iff.mp (List.all_eq_true.mp hnames k hk)
  refine ⟨List.all_eq_true.mp hcapitals, ?_, fun b hb => hexText_dull _ b (List.mem_of_mem_take hb), ?_⟩
  · cases k with
    | nil => cases hfirst
    | cons c rest => exact ⟨c, rest, rfl, by simpa using hfirst⟩
  · intro hnil
    have hlength := (draw k).2
    have hempty : (Api.hexText (draw k).1).take 64 = [] := hnil
    rw [List.take_eq_nil_iff] at hempty
    obtain ⟨b, bytes, hbytes⟩ : ∃ b bytes, (draw k).1 = b :: bytes :=
      List.exists_cons_of_ne_nil fun h => by simp [h] at hlength
    rw [hbytes] at hempty
    simp [Api.hexText] at hempty

theorem capital_bytes
    {b : UInt8} (h : capital b = true) :
    b ≠ 32 ∧ b ≠ 39 ∧ b ≠ 59 ∧ b ≠ 100 ∧ dull b = true := by
  have hmarks : ∀ c ∈ marks, capital c = false := by
    have hall : marks.all (fun c => !capital c) = true := rfl
    exact fun c hc => by simpa using List.all_eq_true.mp hall c hc
  have hother : capital 32 = false ∧ capital 59 = false ∧ capital 100 = false := by decide
  have hne : ∀ c, capital c = false → b ≠ c := by
    rintro c hc rfl
    rw [h] at hc
    cases hc
  have hdull : dull b = true := by
    rw [dull, Bool.not_eq_true', List.contains_eq_mem, decide_eq_false_iff_not]
    exact fun hmem => hne b (hmarks b hmem) rfl
  exact ⟨hne 32 hother.1, hne 39 (hmarks 39 (by decide)), hne 59 hother.2.1, hne 100 hother.2.2,
    hdull⟩

/-- What is left of a statement behind its first letter. -/
def defineTail (k v : Bytes) : Bytes :=
  ascii "efine( '" ++ (k ++ (ascii "', '" ++ (v ++ ascii "' );")))

theorem define_cons
    (k v : Bytes) :
    define k v = 100 :: defineTail k v := rfl

theorem define_ne_nil
    (k v : Bytes) :
    define k v ≠ [] :=
  nofun

theorem define_concat
    (k v : Bytes) :
    define k v = ascii "define( '" ++ (k ++ (ascii "', '" ++ (v ++ ascii "' )"))) ++ [59] := by
  have hend : ascii "' );" = ascii "' )" ++ [59] := rfl
  simp [define, hend]

theorem getLast?_define
    (k v : Bytes) :
    (define k v).getLast? = some 59 := by
  rw [define_concat, List.getLast?_concat]

namespace KeyEntry

variable (h : KeyEntry key)

include h

theorem tail_not_mem :
    100 ∉ (define key.1 phrase).tail := by
  have hkey : 100 ∉ key.1 := fun hmem => (capital_bytes (h.capitals 100 hmem)).2.2.2.1 rfl
  have hrest : 100 ∉ ascii "efine( '" ∧ 100 ∉ ascii "', '" ++ (phrase ++ ascii "' );") := by decide
  rw [define_cons, List.tail_cons, defineTail, List.mem_append, List.mem_append]
  exact not_or.mpr ⟨hrest.1, not_or.mpr ⟨hkey, hrest.2⟩⟩

theorem dropLast_not_mem :
    59 ∉ (define key.1 phrase).dropLast := by
  have hkey : 59 ∉ key.1 := fun hmem => (capital_bytes (h.capitals 59 hmem)).2.2.1 rfl
  have hrest : 59 ∉ ascii "define( '" ∧ 59 ∉ ascii "', '" ++ (phrase ++ ascii "' )") := by decide
  rw [define_concat, List.dropLast_concat, List.mem_append, List.mem_append]
  exact not_or.mpr ⟨hrest.1, not_or.mpr ⟨hkey, hrest.2⟩⟩

/-- A filled key leads to where its phrase leads to. -/
theorem run_kind
    (m : Mode) :
    (lexer.run m (define key.1 key.2)).2.kind = (lexer.run m (define key.1 phrase)).2.kind := by
  have hphrase : ∀ b ∈ phrase, dull b = true := List.all_eq_true.mp (by decide)
  have hfront : ∀ b ∈ ascii "efine( '" ++ (key.1 ++ ascii "', '"), dull b = true ∨ b = 39 := by
    have hstart : (ascii "efine( '").all (fun b => dull b || b == 39) = true := rfl
    have hmiddle : (ascii "', '").all (fun b => dull b || b == 39) = true := rfl
    intro b hb
    rcases List.mem_append.mp hb with hb | hb
    · simpa using List.all_eq_true.mp hstart b hb
    rcases List.mem_append.mp hb with hb | hb
    · exact .inl (capital_bytes (h.capitals b hb)).2.2.2.2
    · simpa using List.all_eq_true.mp hmiddle b hb
  have hrun := run_instead hfront h.digits hphrase m (ascii "' );")
  simpa only [define_cons, defineTail, List.append_assoc] using hrun

end KeyEntry

theorem fillKeys_cons
    (key : Bytes × Bytes) (keys : List (Bytes × Bytes)) (content : Bytes) :
    fillKeys (key :: keys) content = fillKeys keys (fillKey key content) := rfl

theorem run_fillKeys
    (hkeys : ∀ key ∈ keys, KeyEntry key) (m : Mode) (s : Bytes) :
    (lexer.run m (fillKeys keys s)).2.kind = (lexer.run m s).2.kind := by
  induction keys generalizing s with
  | nil => rfl
  | cons key keys ih =>
      obtain ⟨hkey, hkeys⟩ := List.forall_mem_cons.mp hkeys
      rw [fillKeys_cons, ih hkeys]
      exact run_replace_kind (define_ne_nil _ _) hkey.run_kind rfl s

/-- The keys are filled without moving the statements out of the code. -/
theorem fillKeys_coded
    {p : Parts} (hkeys : ∀ key ∈ keys, KeyEntry key) (hp : p.Coded) :
    (p.map (fillKeys keys)).Coded := by
  have hcode : ∀ {m : Mode} {s : Bytes}, (lexer.run m s).2 = .code →
      (lexer.run m (fillKeys keys s)).2 = .code := by
    intro m s hs
    have hkind := run_fillKeys hkeys m s
    rw [hs] at hkind
    generalize (lexer.run m (fillKeys keys s)).2 = m' at hkind
    cases m' <;> cases hkind
    rfl
  have hfinish : ∀ m : Mode, lexer.finish m = lexer.finish m.kind := by
    intro m
    cases m <;> rfl
  refine ⟨hcode hp.start, hcode hp.afterName, hcode hp.afterUser, hcode hp.afterPassword, ?_⟩
  have hrest := hp.afterHost
  rw [hfinish, ← run_fillKeys hkeys] at hrest
  rwa [hfinish]

end Keys

section Filling

variable {key : Bytes × Bytes} {keys : List (Bytes × Bytes)} {x db : Credentials} {p : Parts}

/-- A constant of the database, which is no key. -/
def Constant (n : Bytes) : Prop :=
  n.head? = some 68 ∧ n.getLast? ≠ some 32 ∧ ∀ b ∈ n, Simple b

theorem constants_constant :
    Constant constants.name ∧ Constant constants.user ∧ Constant constants.password ∧
      Constant constants.host := by
  obtain ⟨hname, huser, hpassword, hhost⟩ := constants_simple
  exact ⟨⟨rfl, by decide, hname⟩, ⟨rfl, by decide, huser⟩, ⟨rfl, by decide, hpassword⟩,
    ⟨rfl, by decide, hhost⟩⟩

/-- The quotes of a statement: four around the name and the body, and those in the body. -/
theorem define_quotes
    {n body value front back : Bytes} (hn : 39 ∉ n) (hbody : Reads body value)
    (heq : define n body = front ++ 39 :: back) :
    (∃ t, back = n ++ 39 :: t) ∨ front = ascii "define( '" ++ n ∨
      (∃ f, front = f ++ ascii ", ") ∨ front.getLast? = some 92 ∨ back = ascii " );" := by
  have hopen : ascii "define( '" = ascii "define( " ++ [39] := rfl
  have hcomma : ascii ", '" = ascii ", " ++ [39] := rfl
  have htext : define n body = ascii "define( " ++ 39 :: (n ++ 39 :: (ascii ", " ++
      39 :: (body ++ 39 :: ascii " );"))) := by
    have h := define_eq n body []
    simpa only [List.append_nil, hopen, hcomma, List.append_assoc, List.singleton_append] using h
  obtain ⟨g, rfl, hrest⟩ := append_eq_append_cons (by decide) (htext.symm.trans heq)
  cases g with
  | nil => exact .inl ⟨_, (List.cons.inj hrest).2.symm⟩
  | cons d g =>
  obtain ⟨rfl, hname⟩ := List.cons.inj hrest
  obtain ⟨g, rfl, hcomma'⟩ := append_eq_append_cons hn hname
  cases g with
  | nil => exact .inr (.inl (by rw [hopen, List.append_nil, List.append_assoc]; rfl))
  | cons d g =>
  obtain ⟨rfl, hmiddle⟩ := List.cons.inj hcomma'
  obtain ⟨g, rfl, hbody'⟩ := append_eq_append_cons (by decide) hmiddle
  cases g with
  | nil =>
      refine .inr (.inr (.inl ⟨ascii "define( " ++ 39 :: (n ++ [39]), ?_⟩))
      simp
  | cons d g =>
  obtain ⟨rfl, htail⟩ := List.cons.inj hbody'
  rcases hbody.quote_cases (by decide) htail with hlast | ⟨-, hback⟩
  · refine .inr (.inr (.inr (.inl ?_)))
    simp [List.getLast?_append, List.getLast?_cons, hlast]
  · exact .inr (.inr (.inr (.inr hback)))

/-- No statement of the database is that of a key. -/
theorem KeyEntry.not_infix
    (h : KeyEntry key) {n body value : Bytes} (hn : Constant n) (hbody : Reads body value) :
    ¬ define key.1 phrase <:+: define n body := by
  rintro ⟨front, back, heq⟩
  obtain ⟨c, rest, hkey, hc⟩ := h.first
  have hc32 : c ≠ 32 := (capital_bytes (h.capitals c (by simp [hkey]))).1
  -- The quote in front of the key would be one of the statement.
  have hopen : ascii "define( '" = ascii "define" ++ [40, 32] ++ [39] := rfl
  have hsplit : define n body = (front ++ ascii "define" ++ [40, 32]) ++ 39 :: (c :: (rest ++
      (ascii "', '" ++ (phrase ++ (ascii "' );" ++ back))))) := by
    rw [← heq, define, hkey, hopen]
    simp
  have hquote : 39 ∉ n := fun hmem => (hn.2.2 39 hmem).1 rfl
  rcases define_quotes hquote hbody hsplit with ⟨t, hback⟩ | hfront | ⟨f, hfront⟩ | hlast | hback
  · have hhead := congrArg List.head? hback
    rw [List.head?_append, hn.1] at hhead
    exact hc (Option.some.inj hhead)
  · have hne : n ≠ [] := fun hnil => by simp [Constant, hnil] at hn
    have hlast := congrArg List.getLast? hfront
    rw [List.getLast?_append_of_ne_nil _ hne, List.getLast?_append_of_ne_nil _ (by simp)] at hlast
    exact hn.2.1 hlast.symm
  · have hcomma : ascii ", " = [44, 32] := rfl
    rw [hcomma] at hfront
    exact absurd (List.append_inj_right' hfront rfl) (by decide)
  · simp at hlast
  · exact hc32 (List.cons.inj hback).1

/-- The keys are filled around the statements of the database. -/
theorem fillKey_fill
    (h : KeyEntry key) (hx : x.Read db) (p : Parts) :
    fillKey key (p.fill x) = (p.map (fillKey key)).fill x := by
  have hpart : ∀ (n body s t : Bytes),
      fillKey key (s ++ (define n body ++ t)) = fillKey key s ++ fillKey key (define n body ++ t) :=
    fun n body s t => replace_append (define_ne_nil _ _) (apart_of_head h.tail_not_mem)
  have hdefine : ∀ {n body value : Bytes}, Constant n → Reads body value → ∀ t,
      fillKey key (define n body ++ t) = define n body ++ fillKey key t := by
    intro n body value hn hbody t
    rw [fillKey, replace_append (define_ne_nil _ _)
      (apart_of_last h.dropLast_not_mem (getLast?_define n body)),
      replace_eq_self (h.not_infix hn hbody), fillKey]
  obtain ⟨hname, huser, hpassword, hhost⟩ := constants_constant
  rw [Parts.fill, hpart, hdefine hname hx.1, hpart, hdefine huser hx.2.1, hpart,
    hdefine hpassword hx.2.2.1, hpart, hdefine hhost hx.2.2.2]
  rfl

theorem fillKeys_fill
    (hkeys : ∀ key ∈ keys, KeyEntry key) (hx : x.Read db) (p : Parts) :
    fillKeys keys (p.fill x) = (p.map (fillKeys keys)).fill x := by
  induction keys generalizing p with
  | nil => rfl
  | cons key keys ih =>
      obtain ⟨hkey, hkeys⟩ := List.forall_mem_cons.mp hkeys
      rw [fillKeys_cons, fillKey_fill hkey hx, ih hkeys]
      rfl

/-- The bodies can be told from the file. -/
theorem fill_inj
    {y db' : Credentials} (hx : x.Read db) (hy : y.Read db') (h : p.fill x = p.fill y) :
    x = y := by
  have hclose : ∀ s, Parts.closing ++ s = 39 :: (ascii " );" ++ s) := fun _ => rfl
  rw [fill_eq, fill_eq] at h
  simp only [List.append_assoc, hclose, List.cons_append, List.append_cancel_left_eq] at h
  obtain ⟨hname, hrest⟩ := hx.1.unique hy.1 h
  simp only [List.append_cancel_left_eq] at hrest
  obtain ⟨huser, hrest⟩ := hx.2.1.unique hy.2.1 hrest
  simp only [List.append_cancel_left_eq] at hrest
  obtain ⟨hpassword, hrest⟩ := hx.2.2.1.unique hy.2.2.1 hrest
  simp only [List.append_cancel_left_eq] at hrest
  obtain ⟨hhost, -⟩ := hx.2.2.2.unique hy.2.2.2 hrest
  cases x
  cases y
  exact Credentials.mk.injEq .. ▸ ⟨hname, huser, hpassword, hhost⟩

end Filling

section Host

variable {key : Bytes × Bytes} {keys : List (Bytes × Bytes)} {s t u x y z : Bytes}

theorem getLast?_suffix
    {l m : Bytes} (hl : l ≠ []) (h : l <:+ m) :
    m.getLast? = l.getLast? := by
  obtain ⟨z, rfl⟩ := h
  exact List.getLast?_append_of_ne_nil z hl

/-- A literal at the end of a text was there before a key is filled, or is its value. -/
theorem KeyEntry.ends_cases
    (h : KeyEntry key) (hu : Reads u y)
    (hend : 39 :: (u ++ Parts.closing) <:+ 39 :: fillKey key s) :
    39 :: (u ++ Parts.closing) <:+ 39 :: s ∨ u = key.2 := by
  have hdull : ∀ b ∈ key.2, b ≠ 39 ∧ b ≠ 92 := by
    refine simple_of_not_mem (fun hmem => ?_) fun hmem => ?_
    · exact absurd (h.digits 39 hmem) (by decide)
    · exact absurd (h.digits 92 hmem) (by decide)
  rcases replace_cases (define_ne_nil key.1 phrase) (define key.1 key.2) s with
    hsame | ⟨front, w, back, hs, hnew⟩
  · rw [fillKey, hsame] at hend
    exact .inl hend
  -- The last key ends with a quote and the end of its statement, before and after.
  have hstatement : ∀ f v, 39 :: (f ++ define key.1 v ++ back) =
      39 :: f ++ ascii "define( '" ++ key.1 ++ ascii "', " ++ 39 :: v ++
        39 :: (ascii " );" ++ back) := by
    intro f v
    have hcomma : ascii "', '" = ascii "', " ++ [39] := rfl
    have hclose : ascii "' );" = 39 :: ascii " );" := rfl
    simp [define, hcomma, hclose]
  rw [fillKey, hnew, hstatement] at hend
  rcases List.suffix_or_suffix_of_suffix hend (List.suffix_append _ _) with hshort | ⟨l, hl⟩
  · rw [hs, hstatement]
    exact .inl (hshort.trans (List.suffix_append _ _))
  cases l with
  | nil =>
      rw [hs, hstatement, ← hl]
      exact .inl (List.suffix_append _ _)
  | cons d l =>
  obtain ⟨rfl, htail⟩ := List.cons.inj hl
  rw [← hl, List.suffix_append_self_iff] at hend
  rcases hu.quote_cases (by decide) htail.symm with hlast | ⟨rfl, -⟩
  · have hend' := getLast?_suffix (List.cons_ne_nil _ _) hend
    rw [List.getLast?_cons, hlast, List.getLast?_append_of_ne_nil _ (List.cons_ne_nil _ _),
      List.getLast?_cons] at hend'
    cases hvalue : key.2.getLast? with
    | none => exact absurd (List.getLast?_eq_none_iff.mp hvalue) h.value
    | some e =>
        rw [hvalue] at hend'
        exact absurd (Option.some.inj hend') (hdull e (List.mem_of_getLast? hvalue)).2
  · rcases List.suffix_or_suffix_of_suffix hend (List.suffix_append _ _) with hin | hin
    · rcases List.suffix_cons_iff.mp hin with heq | hin
      · exact .inr (List.cons.inj heq).2
      · exact absurd rfl (hdull 39 (hin.subset List.mem_cons_self)).1
    · rcases List.suffix_cons_iff.mp hin with heq | ⟨m, rfl⟩
      · exact .inr (List.cons.inj heq).2.symm
      -- A body does not begin in front of the quote of the value.
      rw [← List.cons_append, List.suffix_append_self_iff] at hend
      have hspace : ascii "', " = ascii "'," ++ [32] := rfl
      have hend' := getLast?_suffix (List.cons_ne_nil _ _) hend
      rw [hspace, ← List.append_assoc, List.getLast?_concat] at hend'
      have hquote : m ++ 39 :: key.2 ++ 39 :: [] = m ++ 39 :: (key.2 ++ [39]) := by simp
      rcases hu.quote_cases (by simp) hquote with hlast | ⟨hm, -⟩
      · rw [List.getLast?_cons, hlast] at hend'
        exact absurd (Option.some.inj hend') (by decide)
      · have hlength := congrArg List.length hm
        simp at hlength

theorem fillKeys_ends
    (hkeys : ∀ key ∈ keys, KeyEntry key) (hu : Reads u y)
    (hend : 39 :: (u ++ Parts.closing) <:+ 39 :: fillKeys keys s) :
    39 :: (u ++ Parts.closing) <:+ 39 :: s ∨ ∀ b ∈ u, Simple b := by
  induction keys generalizing s with
  | nil => exact .inl hend
  | cons key keys ih =>
      obtain ⟨hkey, hkeys⟩ := List.forall_mem_cons.mp hkeys
      rcases ih hkeys hend with hend | hsimple
      · refine (hkey.ends_cases hu hend).imp_right ?_
        rintro rfl
        refine simple_of_not_mem (fun hmem => ?_) fun hmem => ?_
        · exact absurd (hkey.digits 39 hmem) (by decide)
        · exact absurd (hkey.digits 92 hmem) (by decide)
      · exact .inr hsimple

/-- The statement of the host is left alone in front of its body. -/
theorem KeyEntry.split_host
    (h : KeyEntry key) (hs : s.getLast? = some 59) (z t : Bytes) :
    fillKey key (z ++ (Parts.opening constants.host ++ (s ++ t))) =
      fillKey key z ++ (Parts.opening constants.host ++ (fillKey key s ++ fillKey key t)) := by
  have hfront : ¬ define key.1 phrase <+: Parts.opening constants.host ++ (s ++ t) := by
    obtain ⟨c, rest, hkey, hc⟩ := h.first
    intro hin
    rw [Parts.opening, define, List.append_assoc, List.prefix_append_right_inj, hkey] at hin
    exact hc (List.cons_prefix_cons.mp hin).1
  have htail : 100 ∉ ascii "efine( 'DB_HOST', '" := by decide
  have hopen : ∀ r, Parts.opening constants.host ++ r = 100 :: (ascii "efine( 'DB_HOST', '" ++ r) :=
    fun _ => rfl
  rw [hopen] at hfront
  rw [fillKey, hopen, replace_append (define_ne_nil _ _) (apart_of_head h.tail_not_mem),
    replace_cons hfront, define_cons, replace_append_of_not_mem htail, ← define_cons,
    replace_append (define_ne_nil _ _) (apart_of_last h.dropLast_not_mem hs)]
  rfl

theorem fillKeys_split_host
    (hkeys : ∀ key ∈ keys, KeyEntry key) (hs : s.getLast? = some 59) (z t : Bytes) :
    fillKeys keys (z ++ (Parts.opening constants.host ++ (s ++ t))) =
      fillKeys keys z ++ (Parts.opening constants.host ++ (fillKeys keys s ++ fillKeys keys t)) := by
  induction keys generalizing s z t with
  | nil => rfl
  | cons key keys ih =>
      obtain ⟨hkey, hkeys⟩ := List.forall_mem_cons.mp hkeys
      have hlast : (fillKey key s).getLast? = some 59 :=
        getLast?_replace (define_ne_nil _ _) (getLast?_define _ _) hs
      rw [fillKeys_cons, hkey.split_host hs, ih hkeys hlast]
      rfl

/-- Behind two places of the same opening the texts end alike. -/
theorem opening_aligned
    {a b : Bytes} (hu : Reads u x)
    (heq : a ++ (Parts.opening constants.host ++ (u ++ Parts.closing)) =
      b ++ (Parts.opening constants.host ++ y)) :
    39 :: (u ++ Parts.closing) <:+ 39 :: y := by
  have htail : 100 ∉ ascii "efine( 'DB_HOST', '" := by decide
  have hopen : ∀ r, Parts.opening constants.host ++ r = 100 :: (ascii "efine( 'DB_HOST', '" ++ r) :=
    fun _ => rfl
  rcases List.append_eq_append_iff.mp heq with ⟨e, -, he⟩ | ⟨e, -, he⟩
  · cases e with
    | nil => rw [List.append_cancel_left he]
    | cons d e =>
        rw [hopen, hopen] at he
        obtain ⟨g, -, hg⟩ := append_eq_append_cons htail (List.cons.inj he).2
        have hquote : u ++ 39 :: ascii " );" =
            (g ++ ascii "define( ") ++ 39 :: (ascii "DB_HOST', '" ++ y) := by
          have hname : ascii "efine( 'DB_HOST', '" =
              ascii "efine( " ++ 39 :: ascii "DB_HOST', '" := rfl
          have hdefine : ascii "define( " = 100 :: ascii "efine( " := rfl
          have hclose : Parts.closing = 39 :: ascii " );" := rfl
          rw [hname, hclose] at hg
          rw [hdefine, List.append_assoc]
          simpa using hg
        rcases hu.quote_cases (by decide) hquote with hlast | ⟨-, hback⟩
        · rw [List.getLast?_append_of_ne_nil _ (by decide)] at hlast
          exact absurd hlast (by decide)
        · exact absurd (List.cons.inj hback).1 (by decide)
  · cases e with
    | nil => rw [List.append_cancel_left he]
    | cons d e =>
        rw [hopen, hopen] at he
        obtain ⟨g, -, rfl⟩ := append_eq_append_cons htail (List.cons.inj he).2
        have hend : ascii "efine( 'DB_HOST', '" = ascii "efine( 'DB_HOST', " ++ [39] := rfl
        refine ⟨39 :: (g ++ 100 :: ascii "efine( 'DB_HOST', "), ?_⟩
        rw [hend]
        simp

/-- A host that its literal denotes needs no escapes. -/
theorem plain_of_ends
    (hu : Reads u x) (hend : 39 :: (u ++ Parts.closing) <:+ 39 :: (x ++ Parts.closing)) :
    Plain x := by
  rw [← List.cons_append, ← List.cons_append, List.suffix_append_self_iff] at hend
  have hle := hend.length_le
  have hle' := hu.length_le
  simp only [List.length_cons] at hle
  have hsame : 39 :: u = 39 :: x := hend.eq_of_length (by simp only [List.length_cons]; omega)
  obtain rfl := (List.cons.inj hsame).2
  exact hu.plain rfl

end Host

section Config

variable {db : Credentials} {dbName dbUser dbPass file : Bytes} {dbHost : Option Bytes}

/-- What the bodies denote behind the four replacements. -/
def insertedValues (db : Credentials) : Credentials where
  name := replace placeholders.host db.host (replace placeholders.password db.password
    (replace placeholders.user db.user db.name))
  user := replace placeholders.host db.host (replace placeholders.password db.password db.user)
  password := replace placeholders.host db.host db.password
  host := db.host

theorem insertedBodies_read
    (hname : ∀ b ∈ db.name, Simple b) (huser : ∀ b ∈ db.user, Simple b) (hhost : Plain db.host) :
    (insertedBodies db).Read (insertedValues db) := by
  have hinserted : ∀ b ∈ replace placeholders.user db.user db.name, Simple b :=
    fun b hb => (mem_replace hb).elim (huser b) (hname b)
  have hpassword : ∀ {s : Bytes}, (∀ b ∈ s, Simple b) →
      replace placeholders.password (phpEscape db.password) s =
        escape (replace placeholders.password db.password s) := by
    intro s hs
    have h := replace_escape placeholder_password.1 placeholder_password.2 db.password s
    rwa [escape_of_simple hs, ← phpEscape_eq] at h
  have hlast : ∀ y, Reads (replace placeholders.host db.host (escape y))
      (replace placeholders.host db.host y) :=
    fun y => hhost.reads.replace placeholder_host.1 placeholder_host.2 y
  refine ⟨?_, ?_, ?_, hhost.reads⟩
  · rw [insertedBodies, hpassword hinserted]
    exact hlast _
  · rw [insertedBodies, hpassword huser]
    exact hlast _
  · rw [insertedBodies, phpEscape_eq]
    exact hlast _

theorem stay_iff :
    db.Stay ↔ Plain db.host ∧ insertedValues db = db := by
  have hpassword := @replace_eq_self_iff placeholders.host db.host placeholder_host.1 db.password
  constructor
  · intro h
    refine ⟨h.host, ?_⟩
    rw [insertedValues, h.name, h.user, hpassword.mpr h.password]
  · rintro ⟨hhost, hsame⟩
    exact ⟨hhost, hpassword.mp (congrArg Credentials.password hsame),
      congrArg Credentials.user hsame, congrArg Credentials.name hsame⟩

theorem fill_host
    (p : Parts) (x : Credentials) :
    ∃ front, p.fill x = front ++ (Parts.opening constants.host ++
      ((x.host ++ Parts.closing) ++ p.afterHost)) := by
  refine ⟨p.start ++ (define constants.name x.name ++ (p.afterName ++ (define constants.user x.user ++
    (p.afterUser ++ (define constants.password x.password ++ p.afterPassword))))), ?_⟩
  simp only [Parts.fill, define, Parts.opening, Parts.closing, List.append_assoc]

theorem Credentials.Read.functional
    {x values : Credentials} (h : x.Read values) (h' : x.Read db) :
    values = db := by
  have hname := h.1.functional h'.1
  have huser := h.2.1.functional h'.2.1
  have hpassword := h.2.2.1.functional h'.2.2.1
  have hhost := h.2.2.2.functional h'.2.2.2
  cases values
  cases db
  exact Credentials.mk.injEq .. ▸ ⟨hname, huser, hpassword, hhost⟩

/-- Whatever the host is: if its literal denotes it, it needs no escapes. -/
theorem plain_of_denoted
    {keys : List (Bytes × Bytes)} (hkeys : ∀ key ∈ keys, KeyEntry key) (p : Parts)
    {x y values : Credentials} (hx : x.Read values) (hhost : values.host = y.host)
    (hfile : (p.map (fillKeys keys)).fill x = fillKeys keys (p.fill y)) :
    Plain values.host := by
  obtain ⟨front, hfront⟩ := fill_host (p.map (fillKeys keys)) x
  obtain ⟨front', hfront'⟩ := fill_host p y
  have hlast : (y.host ++ Parts.closing).getLast? = some 59 := by
    rw [List.getLast?_append_of_ne_nil _ (by decide)]
    rfl
  have hrest : (p.map (fillKeys keys)).afterHost = fillKeys keys p.afterHost := rfl
  rw [hfront, hfront', hrest, fillKeys_split_host hkeys hlast] at hfile
  have hends : front ++ (Parts.opening constants.host ++ (x.host ++ Parts.closing)) =
      fillKeys keys front' ++
        (Parts.opening constants.host ++ fillKeys keys (y.host ++ Parts.closing)) := by
    refine (List.append_left_inj (fillKeys keys p.afterHost)).mp ?_
    simpa only [List.append_assoc] using hfile
  rcases fillKeys_ends hkeys hx.2.2.2 (opening_aligned hx.2.2.2 hends) with hend | hsimple
  · rw [← hhost] at hend
    exact plain_of_ends hx.2.2.2 hend
  · have hself := reads_of_simple hsimple
    rw [← hself.functional hx.2.2.2]
    exact hself.plain rfl

/-- The file is the sample with the values exactly if they need nothing that is not done. -/
theorem wpConfig_iff
    (draw : Bytes → Buffer) (sample : Sample)
    (h : setupConfig draw sample.text dbName dbUser dbPass dbHost = .ok file) :
    (∃ x : Credentials, x.Denote (credentials dbName dbUser dbPass dbHost) ∧ lexer.tokens file =
        some ((sample.toParts.map (fillKeys (keyTable draw))).tokens x)) ↔
      (credentials dbName dbUser dbPass dbHost).Stay := by
  obtain ⟨hidents, h⟩ := okIdents_of_ok h
  have hname : ∀ b ∈ dbName, Simple b := fun b hb => ((okIdent_bytes hidents.1).2 b hb).2
  have huser : ∀ b ∈ dbUser, Simple b := fun b hb => ((okIdent_bytes hidents.2).2 b hb).2
  have hkeys := keyTable_entries draw
  have hcoded := fillKeys_coded hkeys sample.coded
  rw [← Except.ok.inj h, wpConfig_eq, stay_iff]
  generalize hdb : credentials dbName dbUser dbPass dbHost = db
  rw [show dbName = db.name from by rw [← hdb]; rfl] at hname
  rw [show dbUser = db.user from by rw [← hdb]; rfl] at huser
  constructor
  · rintro ⟨x, hdenote, htokens⟩
    have hx := denote_iff.mp hdenote
    have hfile := lossless.tokens htokens
    rw [tokens_text hcoded] at hfile
    have hhost : Plain db.host := plain_of_denoted (y := insertedBodies db) hkeys
      sample.toParts hx rfl hfile
    have hread := insertedBodies_read hname huser hhost
    rw [fillKeys_fill hkeys hread] at hfile
    obtain rfl := fill_inj hx hread hfile
    exact ⟨hhost, hread.functional hx⟩
  · rintro ⟨hhost, hsame⟩
    have hread := insertedBodies_read hname huser hhost
    rw [hsame] at hread
    refine ⟨insertedBodies db, denote_iff.mpr hread, ?_⟩
    rw [fillKeys_fill hkeys hread]
    exact tokens_fill hcoded hread

end Config

section Example

/-- The statements of the database, and nothing else. -/
def exampleParts : Parts where
  start := ascii "<?php "
  afterName := []
  afterUser := []
  afterPassword := []
  afterHost := []

def exampleSample : Sample where
  toParts := exampleParts
  coded := ⟨rfl, rfl, rfl, rfl, rfl⟩
  free := by
    have hnone : ∀ {pat s : Bytes}, Placeholder pat → contains pat s = false → ¬ pat <:+: s := by
      intro pat s hpat hnot hin
      rw [← contains_iff_infix hpat.1, hnot] at hin
      cases hin
    have hparts : ∀ part ∈ exampleParts.between,
        contains placeholders.name part = false ∧ contains placeholders.user part = false ∧
        contains placeholders.password part = false ∧ contains placeholders.host part = false := by
      decide
    intro part hpart
    obtain ⟨hname, huser, hpassword, hhost⟩ := hparts part hpart
    exact ⟨hnone placeholder_name hname, hnone placeholder_user huser,
      hnone placeholder_password hpassword, hnone placeholder_host hhost⟩

def exampleDraw : Bytes → Buffer :=
  fun _ => ⟨List.replicate 32 0, rfl⟩

def exampleFile (host : Bytes) : Bytes :=
  exampleParts.fill ⟨ascii "wp", ascii "wp_user", ascii "it\\'s", host⟩

theorem setup_example
    {host : Bytes}
    (hfile : wpConfig (keyTable exampleDraw) exampleSample.text
      (credentials (ascii "wp") (ascii "wp_user") (ascii "it's") (some host)) = exampleFile host) :
    setupConfig exampleDraw exampleSample.text (ascii "wp") (ascii "wp_user") (ascii "it's")
      (some host) = .ok (exampleFile host) := by
  have hidents : (!okIdent (ascii "wp") || !okIdent (ascii "wp_user")) = false := by decide
  rw [setupConfig, hidents, hfile]
  rfl

/-- A host that is a name. -/
theorem wpConfig_example :
    ∃ x : Credentials,
      x.Denote (credentials (ascii "wp") (ascii "wp_user") (ascii "it's") (some (ascii "db"))) ∧
      lexer.tokens (exampleFile (ascii "db")) =
        some ((exampleSample.toParts.map (fillKeys (keyTable exampleDraw))).tokens x) := by
  have hplain : Plain (ascii "db") :=
    (reads_of_simple (simple_of_not_mem (by decide) (by decide))).plain rfl
  exact (wpConfig_iff exampleDraw exampleSample (setup_example (by decide))).mpr
    (stay_iff.mpr ⟨hplain, by decide⟩)

/-- The literals of a program, one after the other. -/
def literals (ts : List Token) : List Bytes :=
  ts.filterMap fun
    | .literal body => some body
    | .byte _ _ => none

/-- The code around them. -/
def codeText (ts : List Token) : Bytes :=
  ts.filterMap fun
    | .byte .code b => some b
    | _ => none

/-- A host that ends its literal, with code behind it. -/
def codeInHost : Bytes :=
  ascii "x' ); evil(); //"

set_option maxRecDepth 4000 in
/-- The code is part of the program. -/
theorem host_injects :
    setupConfig exampleDraw exampleSample.text (ascii "wp") (ascii "wp_user") (ascii "it's")
        (some codeInHost) = .ok (exampleFile codeInHost) ∧
      (lexer.tokens (exampleFile codeInHost)).map codeText =
        some (ascii "define( ,  );define( ,  );define( ,  );define( ,  ); evil(); ") ∧
      ¬ ∃ x : Credentials,
        x.Denote (credentials (ascii "wp") (ascii "wp_user") (ascii "it's") (some codeInHost)) ∧
        lexer.tokens (exampleFile codeInHost) =
          some ((exampleSample.toParts.map (fillKeys (keyTable exampleDraw))).tokens x) := by
  refine ⟨setup_example (by decide), rfl, ?_⟩
  rintro ⟨x, hdenote, htokens⟩
  have hliterals : (lexer.tokens (exampleFile codeInHost)).map (fun ts => (literals ts)[7]?) =
      some (some (ascii "x")) := rfl
  have hhost : (literals ((exampleSample.toParts.map
      (fillKeys (keyTable exampleDraw))).tokens x))[7]? = some x.host := rfl
  rw [htokens, Option.map_some, hhost, Option.some.injEq, Option.some.injEq] at hliterals
  have hvalue := hdenote.host
  rw [hliterals] at hvalue
  exact absurd (Option.some.inj hvalue) (by decide)

end Example

end Sites
end RunNginx
