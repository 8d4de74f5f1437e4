import RunNginx.Lib.SqlText

/-!
# The database of a site

A WordPress site gets a database and a user of its own, by one text that is handed to the
client of the database.  The names in it are checked; the password is put between single
quotes as it is.  (An escaped copy of it is made, and not used.)

`provisioning_iff`: the text consists of the four statements, with the password, exactly if
the password denotes itself between single quotes.
-/

namespace RunNginx
namespace Sites

open ByteString SqlText

/-- The identifiers that are accepted. -/
def okIdent (s : Bytes) : Bool :=
  !s.isEmpty && s.length ≤ 64 && s.all fun c =>
    (48 ≤ c && c ≤ 57) || (65 ≤ c && c ≤ 90) || (97 ≤ c && c ≤ 122) || c == 95 || c == 45

/-- The text for the client of the database. -/
def mysqlCmd (dbName dbUser dbPass : Bytes) : Bytes :=
  ascii "CREATE DATABASE IF NOT EXISTS `" ++ dbName ++
    ascii "`; CREATE USER IF NOT EXISTS '" ++ dbUser ++
    ascii "'@'localhost' IDENTIFIED BY '" ++ dbPass ++
    ascii "'; GRANT ALL PRIVILEGES ON `" ++ dbName ++
    ascii "`.* TO '" ++ dbUser ++ ascii "'@'localhost'; FLUSH PRIVILEGES;"

/-- The part of the setup that the database sees. -/
def setupDatabase (dbName dbUser dbPass : Bytes) : Except Bytes Bytes :=
  if !okIdent dbName || !okIdent dbUser then
    .error (ascii "Invalid db_name or db_user: only alphanumeric, _ and - allowed")
  else .ok (mysqlCmd dbName dbUser dbPass)

section Statements

variable (dbName dbUser dbPass : Bytes)

def words (texts : List String) : List Token :=
  texts.map fun t => .word (ascii t)

/-- A user of the local host. -/
def account : List Token :=
  [.string dbUser, .symbol 64, .string (ascii "localhost")]

/-- The statements of the template. -/
def statements : List (List Token) :=
  [words ["CREATE", "DATABASE", "IF", "NOT", "EXISTS"] ++ [.name dbName],
    words ["CREATE", "USER", "IF", "NOT", "EXISTS"] ++ account dbUser ++
      words ["IDENTIFIED", "BY"] ++ [.string dbPass],
    words ["GRANT", "ALL", "PRIVILEGES", "ON"] ++ [.name dbName, .symbol 46, .symbol 42] ++
      words ["TO"] ++ account dbUser,
    words ["FLUSH", "PRIVILEGES"]]

/-- The four statements, each with its semicolon. -/
def templateTokens : List Token :=
  (statements dbName dbUser dbPass).flatMap fun statement => statement ++ [.symbol 59]

/-- The tokens in front of the password. -/
def frontTokens : List Token :=
  words ["CREATE", "DATABASE", "IF", "NOT", "EXISTS"] ++
    (.name dbName :: .symbol 59 :: words ["CREATE", "USER", "IF", "NOT", "EXISTS"] ++
      account dbUser ++ words ["IDENTIFIED", "BY"])

/-- The tokens behind it. -/
def backTokens : List Token :=
  .symbol 59 :: words ["GRANT", "ALL", "PRIVILEGES", "ON"] ++
    (.name dbName :: .symbol 46 :: .symbol 42 :: words ["TO"] ++ account dbUser ++
      .symbol 59 :: words ["FLUSH", "PRIVILEGES"] ++ [.symbol 59])

theorem templateTokens_eq :
    templateTokens dbName dbUser dbPass =
      frontTokens dbName dbUser ++ .string dbPass :: backTokens dbName dbUser := by
  simp [templateTokens, statements, frontTokens, backTokens, account, words]

/-- The text in front of the password, and behind its closing quote up to the user. -/
def frontText : Bytes :=
  ascii "CREATE DATABASE IF NOT EXISTS `" ++ (dbName ++ (ascii "`; CREATE USER IF NOT EXISTS '" ++
    (dbUser ++ ascii "'@'localhost' IDENTIFIED BY '")))

def grantText : Bytes :=
  ascii "; GRANT ALL PRIVILEGES ON `" ++ (dbName ++ ascii "`.* TO ")

def endText : Bytes :=
  ascii "'@'localhost'; FLUSH PRIVILEGES;"

theorem mysqlCmd_eq :
    mysqlCmd dbName dbUser dbPass =
      frontText dbName dbUser ++
        (dbPass ++ 39 :: (grantText dbName ++ 39 :: (dbUser ++ endText))) := by
  have hgrant : ascii "'; GRANT ALL PRIVILEGES ON `" =
      39 :: ascii "; GRANT ALL PRIVILEGES ON `" := by decide
  have hto : ascii "`.* TO '" = ascii "`.* TO " ++ [39] := by decide
  simp [mysqlCmd, frontText, grantText, endText, hgrant, hto]

end Statements

section Lexing

variable {dbName dbUser dbPass : Bytes}

/-- Identifiers have no quotes and no backslash. -/
theorem okIdent_bytes
    {s : Bytes} (h : okIdent s = true) :
    s ≠ [] ∧ ∀ b ∈ s, b ≠ 96 ∧ b ≠ 39 ∧ b ≠ 92 := by
  unfold okIdent at h
  rw [Bool.and_eq_true, Bool.and_eq_true, List.all_eq_true] at h
  refine ⟨by simpa using h.1.1, fun b hb => ?_⟩
  have hbyte := h.2 b hb
  refine ⟨?_, ?_, ?_⟩
  · rintro rfl
    exact absurd hbyte (by decide)
  · rintro rfl
    exact absurd hbyte (by decide)
  · rintro rfl
    exact absurd hbyte (by decide)

theorem run_frontText
    (hname : okIdent dbName = true) (huser : okIdent dbUser = true) :
    lexer.run .between (frontText dbName dbUser) = (frontTokens dbName dbUser, .string 39 []) := by
  have hname' := (okIdent_bytes hname).2
  have huser' := (okIdent_bytes huser).2
  have hstart : lexer.run .between (ascii "CREATE DATABASE IF NOT EXISTS `") =
      (words ["CREATE", "DATABASE", "IF", "NOT", "EXISTS"], .name []) := by decide
  have hname_end : ascii "`; CREATE USER IF NOT EXISTS '" =
      96 :: 59 :: ascii " CREATE USER IF NOT EXISTS '" := by decide
  have hcreate : lexer.run .between (59 :: ascii " CREATE USER IF NOT EXISTS '") =
      (.symbol 59 :: words ["CREATE", "USER", "IF", "NOT", "EXISTS"], .string 39 []) := by decide
  have huser_end : ascii "'@'localhost' IDENTIFIED BY '" =
      39 :: 64 :: ascii "'localhost' IDENTIFIED BY '" := by decide
  have hidentified : lexer.run .between (64 :: ascii "'localhost' IDENTIFIED BY '") =
      (.symbol 64 :: .string (ascii "localhost") :: words ["IDENTIFIED", "BY"],
        .string 39 []) := by decide
  rw [frontText, Lexer.run_append_of_eq hstart,
    Lexer.run_append_of_eq (run_name (fun b hb => (hname' b hb).1) []), List.nil_append, hname_end,
    List.cons_append, run_name_text (by decide) hcreate,
    Lexer.run_append_of_eq (run_string (fun b hb => (huser' b hb).2) []), List.nil_append,
    huser_end, run_string_end (by decide), hidentified]
  simp [frontTokens, account, words]

theorem run_back
    (hname : okIdent dbName = true) (huser : okIdent dbUser = true) (v : Bytes) :
    lexer.run (.string 39 v) (39 :: (grantText dbName ++ 39 :: (dbUser ++ endText))) =
      (.string v :: backTokens dbName dbUser, .between) := by
  have hname' := (okIdent_bytes hname).2
  have huser' := (okIdent_bytes huser).2
  have hgrant : ascii "; GRANT ALL PRIVILEGES ON `" =
      59 :: ascii " GRANT ALL PRIVILEGES ON `" := by decide
  have hgrant_run : lexer.run .between (59 :: ascii " GRANT ALL PRIVILEGES ON `") =
      (.symbol 59 :: words ["GRANT", "ALL", "PRIVILEGES", "ON"], .name []) := by decide
  have hto : ascii "`.* TO " = 96 :: 46 :: ascii "* TO " := by decide
  have hquote : ascii "* TO '" = ascii "* TO " ++ [39] := by decide
  have hto_run : lexer.run .between (46 :: ascii "* TO '") =
      (.symbol 46 :: .symbol 42 :: words ["TO"], .string 39 []) := by decide
  have hend : endText = 39 :: 64 :: ascii "'localhost'; FLUSH PRIVILEGES;" := by decide
  have hend_run : lexer.run .between (64 :: ascii "'localhost'; FLUSH PRIVILEGES;") =
      (.symbol 64 :: .string (ascii "localhost") :: .symbol 59 ::
        words ["FLUSH", "PRIVILEGES"] ++ [.symbol 59], .between) := by decide
  have htext : grantText dbName ++ 39 :: (dbUser ++ endText) =
      59 :: ascii " GRANT ALL PRIVILEGES ON `" ++
        (dbName ++ 96 :: (46 :: ascii "* TO '" ++ (dbUser ++ endText))) := by
    simp [grantText, hgrant, hto, hquote]
  rw [htext, run_string_text (by decide) hgrant_run,
    Lexer.run_append_of_eq (run_name (fun b hb => (hname' b hb).1) []), List.nil_append,
    run_name_text (by decide) hto_run,
    Lexer.run_append_of_eq (run_string (fun b hb => (huser' b hb).2) []), List.nil_append,
    hend, run_string_end (by decide), hend_run]
  simp [backTokens, account, words]

/-- What is done behind the check of the two names is done for names that pass it. -/
theorem okIdents_of_ok
    {ε α : Type} {error : ε} {r : Except ε α} {a : α} {name user : Bytes}
    (h : (if !okIdent name || !okIdent user then .error error else r) = .ok a) :
    (okIdent name = true ∧ okIdent user = true) ∧ r = .ok a := by
  split at h
  · cases h
  · rename_i hidents
    rw [Bool.or_eq_true, not_or, Bool.not_eq_true', Bool.not_eq_true', Bool.not_eq_false,
      Bool.not_eq_false] at hidents
    exact ⟨hidents, h⟩

/-- The password stands in the text for what it is, and for nothing else. -/
theorem provisioning_iff
    {cmd : Bytes} (h : setupDatabase dbName dbUser dbPass = .ok cmd) :
    lexer.tokens cmd = some (templateTokens dbName dbUser dbPass) ↔ Verbatim dbPass := by
  obtain ⟨⟨hname, huser⟩, h⟩ := okIdents_of_ok h
  rw [← Except.ok.inj h, mysqlCmd_eq, Lexer.tokens]
  have hstart : lexer.start = .between := rfl
  rw [hstart, Lexer.run_append_of_eq (run_frontText hname huser)]
  dsimp only
  rw [templateTokens_eq]
  constructor
  · intro htokens
    obtain ⟨⟨c, user', hcons⟩, huser'⟩ : (∃ c user', dbUser = c :: user') ∧
        ∀ b ∈ dbUser, b ≠ 96 ∧ b ≠ 39 ∧ b ≠ 92 :=
      ⟨List.exists_cons_of_ne_nil (okIdent_bytes huser).1, (okIdent_bytes huser).2⟩
    have hc : c ≠ 39 := (huser' c (hcons ▸ List.mem_cons_self)).2.1
    have hfirst : (grantText dbName).head?.all (· ≠ 39) = true := by rfl
    have hlast : (grantText dbName).getLast? = some 32 := by
      rw [grantText, List.getLast?_append, List.getLast?_append]
      rfl
    have hplain : ∀ b ∈ grantText dbName, b ≠ 39 ∧ b ≠ 92 := by
      have hfront : 39 ∉ ascii "; GRANT ALL PRIVILEGES ON `" ∧
          92 ∉ ascii "; GRANT ALL PRIVILEGES ON `" := by decide
      have hback : 39 ∉ ascii "`.* TO " ∧ 92 ∉ ascii "`.* TO " := by decide
      intro b hb
      rcases List.mem_append.mp hb with hb | hb
      · exact ⟨ne_of_mem_of_not_mem hb hfront.1, ne_of_mem_of_not_mem hb hfront.2⟩
      rcases List.mem_append.mp hb with hb | hb
      · exact ((okIdent_bytes hname).2 b hb).2
      · exact ⟨ne_of_mem_of_not_mem hb hback.1, ne_of_mem_of_not_mem hb hback.2⟩
    obtain ⟨v, rest, hrun, hverbatim⟩ :=
      string_cases hfirst hlast hplain hc dbPass (user' ++ endText)
    rw [hcons, List.cons_append, hrun] at htokens
    obtain ⟨last, -, htokens⟩ := Option.map_eq_some_iff.mp htokens
    rw [List.append_assoc] at htokens
    have hsame := List.append_cancel_left htokens
    rw [List.cons_append] at hsame
    exact hverbatim (Token.string.inj (List.cons.inj hsame).1)
  · intro hverbatim
    rw [Lexer.run_append_of_eq (run_verbatim hverbatim []), List.nil_append,
      run_back hname huser]
    simp [lexer, finish]

end Lexing

section Example

/-- A password of letters and marks that are no quotes. -/
theorem provisioning_example :
    lexer.tokens (mysqlCmd (ascii "wp") (ascii "wp_user") (ascii "a;b--c")) =
      some (templateTokens (ascii "wp") (ascii "wp_user") (ascii "a;b--c")) := by
  have haccepted : setupDatabase (ascii "wp") (ascii "wp_user") (ascii "a;b--c") =
      .ok (mysqlCmd (ascii "wp") (ascii "wp_user") (ascii "a;b--c")) := rfl
  have hback : 92 ∉ ascii "a;b--c" := by decide
  refine (provisioning_iff haccepted).mpr ⟨by decide, fun front back heq => ?_⟩
  exact absurd (heq ▸ List.mem_append_right front List.mem_cons_self) hback

/-- A password that ends the literal, adds a statement and comments the rest out. -/
def injection : Bytes :=
  ascii "x'; DROP DATABASE mysql; #"

theorem run_injection
    {rest : Bytes} (hrest : 10 ∉ rest) :
    lexer.run (.string 39 []) (injection ++ rest) =
      (.string (ascii "x") :: .symbol 59 :: words ["DROP", "DATABASE", "mysql"] ++ [.symbol 59],
        .line) := by
  have hrun : lexer.run (.string 39 []) injection =
      (.string (ascii "x") :: .symbol 59 :: words ["DROP", "DATABASE", "mysql"] ++ [.symbol 59],
        .line) := by decide
  have hskip : lexer.run .line rest = ([], .line) := by
    refine Lexer.run_skip fun b hb => ?_
    have hb10 : b ≠ 10 := fun heq => hrest (heq ▸ hb)
    simp [lexer, step, hb10]
  rw [Lexer.run_append_of_eq hrun, hskip, List.append_nil]

/-- The database is dropped, and the user gets no rights. -/
theorem password_injects :
    setupDatabase (ascii "wp") (ascii "wp") injection =
        .ok (mysqlCmd (ascii "wp") (ascii "wp") injection) ∧
      lexer.tokens (mysqlCmd (ascii "wp") (ascii "wp") injection) =
        some (frontTokens (ascii "wp") (ascii "wp") ++ .string (ascii "x") :: .symbol 59 ::
          words ["DROP", "DATABASE", "mysql"] ++ [.symbol 59]) ∧
      lexer.tokens (mysqlCmd (ascii "wp") (ascii "wp") injection) ≠
        some (templateTokens (ascii "wp") (ascii "wp") injection) := by
  have htokens : lexer.tokens (mysqlCmd (ascii "wp") (ascii "wp") injection) =
      some (frontTokens (ascii "wp") (ascii "wp") ++ .string (ascii "x") :: .symbol 59 ::
        words ["DROP", "DATABASE", "mysql"] ++ [.symbol 59]) := by
    have hstart : lexer.start = .between := rfl
    have hrest : 10 ∉ 39 :: (grantText (ascii "wp") ++ 39 :: (ascii "wp" ++ endText)) := by decide
    rw [mysqlCmd_eq, Lexer.tokens, hstart,
      Lexer.run_append_of_eq (run_frontText (by decide) (by decide)), run_injection hrest]
    simp [lexer, finish]
  refine ⟨rfl, htokens, fun htemplate => ?_⟩
  rw [htokens, templateTokens_eq, Option.some.injEq, List.append_assoc] at htemplate
  have hvalue := (List.cons.inj (List.append_cancel_left htemplate)).1
  exact absurd (Token.string.inj hvalue) (by decide)

end Example

end Sites
end RunNginx
