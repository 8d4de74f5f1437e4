import RunNginx.Router
import RunNginx.Server.StaticFiles

/-!
# `try_files`

An entry of `try_files` before the last one is a test: it is taken if its path is there, as a
directory with a slash at its end and as a file without one.  The last entry is what happens
otherwise.  The handler makes no difference between the entries: it takes the first path that
exists at all, and the first status or name ends its loop, wherever it stands.

`tryFiles_iff`: a request is answered as its entries say exactly if the loop ends at the path
that passes the test first, or, where none does, at the status that stands last.
-/

namespace RunNginx

namespace Router

def findNamedLocation (server : ServerBlock) (name : Bytes) : Option LocationBlock :=
  server.locations.find? fun loc =>
    match loc.pattern with
    | .named n => n == name
    | _ => false

end Router

namespace StaticFiles

open ByteString

/-- What a list of entries decides. -/
inductive TryAnswer
  | serve (path : Bytes)
  | status (code : Nat)
  | location (loc : LocationBlock)
  | redirect (uri : Bytes)

section Paths

/-- The names on a path, without empty pieces and dots. -/
def namesOf (path : Bytes) : List (FileTree.Component Bytes) :=
  (FileSystem.components path).filter fun c => c != .here

/-- Paths that differ in slashes and dots at most. -/
def SamePath (p q : Bytes) : Prop :=
  PathText.isAbsolute p = PathText.isAbsolute q ∧ namesOf p = namesOf q

/-- Answers that name the same path are the same. -/
def TryAnswer.Same : TryAnswer → TryAnswer → Prop
  | .serve p, .serve q => SamePath p q
  | a, b => a = b

end Paths

section Wanted

variable (fs : FileSystem) (server : ServerBlock) (root decodedUri : Bytes)

/-- The URI of an entry, with the decoded URI for every `$uri`. -/
def filledUri (p : Bytes) : Bytes :=
  replace (ascii "$uri") decodedUri p

/-- The path of an entry that names a directory with a slash at its end, and a file without. -/
def matching : TryFilesEntry → Option Bytes
  | .path p =>
      let path := jailPath root (filledUri decodedUri p)
      let found := if p.getLast? = some PathText.slash then fs.isDir path else fs.isFile path
      if found then some path else none
  | _ => none

/-- What the entries ask for; a name without its location asks for nothing. -/
def wanted (before : List TryFilesEntry) (last : TryFilesEntry) : Option TryAnswer :=
  match before.findSome? (matching fs root decodedUri) with
  | some path => some (.serve path)
  | none =>
      match last with
      | .statusCode code => some (.status code)
      | .named name => (Router.findNamedLocation server name).map .location
      | .path p => some (.redirect (filledUri decodedUri p))

end Wanted

section Decided

variable (fs : FileSystem) (root decodedUri : Bytes)

/-- The path of an entry as the handler expands it. -/
def expandedPath (p : Bytes) : Bytes :=
  jailPath root (expandUri p decodedUri)

/-- What an entry decides, if the loop does not pass it. -/
def stop : TryFilesEntry → Option TryAnswer
  | .path p =>
      if fs.exists (expandedPath root decodedUri p) then
        some (.serve (expandedPath root decodedUri p))
      else none
  | .statusCode code => some (.status code)
  | .named _ => some (.status 404)

/-- What the loop decides. -/
def decided (entries : List TryFilesEntry) : TryAnswer :=
  (entries.findSome? (stop fs root decodedUri)).getD (.status 404)

/-- The answer to a decision of the loop, which never names a location or another URI. -/
def respond (indexFiles : List Bytes) (method : Bytes) (reqHdrs : Headers) :
    TryAnswer → StaticResponse
  | .serve path => servePath fs path root indexFiles method reqHdrs
  | .status code => errorResponse code (ascii "not found")
  | .location _ | .redirect _ => errorResponse 404 (ascii "not found")

/-- The path of the entry does not exist. -/
def Passed : TryFilesEntry → Prop
  | .path p => fs.exists (expandedPath root decodedUri p) = false
  | _ => False

/-- The paths before the entry do not exist. -/
def Reached (entries : List TryFilesEntry) (entry : TryFilesEntry) : Prop :=
  ∃ pre post, entries = pre ++ entry :: post ∧ ∀ e ∈ pre, Passed fs root decodedUri e

variable {fs root decodedUri}

/-- The handler answers what its loop decides. -/
theorem handleTryFiles_eq
    (indexFiles : List Bytes) (method : Bytes) (reqHdrs : Headers)
    (entries : List TryFilesEntry) :
    handleTryFiles fs root decodedUri indexFiles method reqHdrs entries =
      respond fs root indexFiles method reqHdrs (decided fs root decodedUri entries) := by
  induction entries with
  | nil => rfl
  | cons entry entries ih =>
      cases entry with
      | path p =>
          rw [handleTryFiles, decided, List.findSome?_cons, stop, expandedPath]
          split
          · rfl
          · exact ih
      | statusCode code => rfl
      | named name => rfl

theorem stop_eq_none_iff
    {e : TryFilesEntry} :
    stop fs root decodedUri e = none ↔ Passed fs root decodedUri e := by
  cases e with
  | path p => simp [stop, Passed]
  | statusCode code => simp [stop, Passed]
  | named name => simp [stop, Passed]

theorem stop_path_iff
    {p : Bytes} {answer : TryAnswer} :
    stop fs root decodedUri (.path p) = some answer ↔
      fs.exists (expandedPath root decodedUri p) = true ∧
        .serve (expandedPath root decodedUri p) = answer := by
  rw [stop]
  split
  · rename_i hexists
    simp [hexists]
  · rename_i hmissing
    simp [hmissing]

/-- What the loop finds stands behind entries it passes. -/
theorem findSome_stop_iff
    {entries : List TryFilesEntry} {answer : TryAnswer} :
    entries.findSome? (stop fs root decodedUri) = some answer ↔
      ∃ e, Reached fs root decodedUri entries e ∧ stop fs root decodedUri e = some answer := by
  rw [List.findSome?_eq_some_iff]
  constructor
  · rintro ⟨pre, e, post, heq, hstop, hpre⟩
    exact ⟨e, ⟨pre, post, heq, fun x hx => stop_eq_none_iff.mp (hpre x hx)⟩, hstop⟩
  · rintro ⟨e, ⟨pre, post, heq, hpre⟩, hstop⟩
    exact ⟨pre, e, post, heq, hstop, fun x hx => stop_eq_none_iff.mpr (hpre x hx)⟩

/-- The loop serves the path of the first entry that it does not pass. -/
theorem decided_serve_iff
    {entries : List TryFilesEntry} {path : Bytes} :
    decided fs root decodedUri entries = .serve path ↔
      ∃ p, Reached fs root decodedUri entries (.path p) ∧
        fs.exists (expandedPath root decodedUri p) = true ∧
          expandedPath root decodedUri p = path := by
  have hfound : decided fs root decodedUri entries = .serve path ↔
      entries.findSome? (stop fs root decodedUri) = some (.serve path) := by
    unfold decided
    cases entries.findSome? (stop fs root decodedUri) with
    | none => simp
    | some answer => simp
  rw [hfound, findSome_stop_iff]
  constructor
  · rintro ⟨e, hreached, hstop⟩
    cases e with
    | path p =>
        obtain ⟨hexists, heq⟩ := stop_path_iff.mp hstop
        exact ⟨p, hreached, hexists, TryAnswer.serve.inj heq⟩
    | statusCode code => cases hstop
    | named name => cases hstop
  · rintro ⟨p, hreached, hexists, rfl⟩
    exact ⟨.path p, hreached, if_pos hexists⟩

/-- The loop ends with a status at such an entry, at a name, or behind its last entry. -/
theorem decided_status_iff
    {entries : List TryFilesEntry} {code : Nat} :
    decided fs root decodedUri entries = .status code ↔
      Reached fs root decodedUri entries (.statusCode code) ∨
        code = 404 ∧ ((∃ name, Reached fs root decodedUri entries (.named name)) ∨
          ∀ e ∈ entries, Passed fs root decodedUri e) := by
  constructor
  · intro h
    unfold decided at h
    cases hfound : entries.findSome? (stop fs root decodedUri) with
    | none =>
        rw [hfound] at h
        cases h
        rw [List.findSome?_eq_none_iff] at hfound
        exact Or.inr ⟨rfl, Or.inr fun e he => stop_eq_none_iff.mp (hfound e he)⟩
    | some answer =>
        rw [hfound] at h
        obtain ⟨e, hreached, hstop⟩ := findSome_stop_iff.mp hfound
        change answer = .status code at h
        subst h
        cases e with
        | path p => cases (stop_path_iff.mp hstop).2
        | statusCode code =>
            cases hstop
            exact Or.inl hreached
        | named name =>
            cases hstop
            exact Or.inr ⟨rfl, Or.inl ⟨name, hreached⟩⟩
  · have hends : ∀ {e}, Reached fs root decodedUri entries e →
        stop fs root decodedUri e = some (.status code) →
          decided fs root decodedUri entries = .status code := by
      intro e hreached hstop
      rw [decided, findSome_stop_iff.mpr ⟨e, hreached, hstop⟩]
      rfl
    rintro (hcode | ⟨rfl, ⟨name, hname⟩ | hall⟩)
    · exact hends hcode rfl
    · exact hends hname rfl
    · have hnone : entries.findSome? (stop fs root decodedUri) = none :=
        List.findSome?_eq_none_iff.mpr fun e he => stop_eq_none_iff.mpr (hall e he)
      rw [decided, hnone]
      rfl

theorem decided_served_or_status
    (entries : List TryFilesEntry) :
    (∃ path, decided fs root decodedUri entries = .serve path) ∨
      ∃ code, decided fs root decodedUri entries = .status code := by
  unfold decided
  cases hfound : entries.findSome? (stop fs root decodedUri) with
  | none => exact Or.inr ⟨404, rfl⟩
  | some answer =>
      obtain ⟨e, -, hstop⟩ := findSome_stop_iff.mp hfound
      cases e with
      | path p =>
          obtain ⟨-, rfl⟩ := stop_path_iff.mp hstop
          exact Or.inl ⟨_, rfl⟩
      | statusCode code =>
          cases hstop
          exact Or.inr ⟨code, rfl⟩
      | named name =>
          cases hstop
          exact Or.inr ⟨404, rfl⟩

end Decided

section Answered

variable (fs : FileSystem) (server : ServerBlock) (root decodedUri : Bytes)
variable (before : List TryFilesEntry) (last : TryFilesEntry)

/-- The handler does what the entries ask for. -/
def AnsweredAsAsked : Prop :=
  ∀ answer, wanted fs server root decodedUri before last = some answer →
    TryAnswer.Same (decided fs root decodedUri (before ++ [last])) answer

/-- The loop ends where the entries say. -/
structure EndsAsAsked : Prop where
  /-- At the path of the first entry that passes the test. -/
  found : ∀ path, before.findSome? (matching fs root decodedUri) = some path →
    ∃ p, Reached fs root decodedUri (before ++ [last]) (.path p) ∧
      fs.exists (expandedPath root decodedUri p) = true ∧
        SamePath (expandedPath root decodedUri p) path
  /-- Without one, at a status of the same code as the last entry. -/
  otherwise : before.findSome? (matching fs root decodedUri) = none →
    (∃ code, last = .statusCode code ∧
      (Reached fs root decodedUri (before ++ [last]) (.statusCode code) ∨
        code = 404 ∧ ∃ name, Reached fs root decodedUri (before ++ [last]) (.named name))) ∨
      ∃ name, last = .named name ∧ Router.findNamedLocation server name = none

variable {fs server root decodedUri before last}

theorem same_serve_iff
    {answer : TryAnswer} {path : Bytes} :
    answer.Same (.serve path) ↔ ∃ found, answer = .serve found ∧ SamePath found path := by
  cases answer with
  | serve found =>
      constructor
      · intro h
        exact ⟨found, rfl, h⟩
      · rintro ⟨_, heq, h⟩
        cases heq
        exact h
  | status code => simp [TryAnswer.Same]
  | location loc => simp [TryAnswer.Same]
  | redirect uri => simp [TryAnswer.Same]

theorem same_status_iff
    {answer : TryAnswer} {code : Nat} :
    answer.Same (.status code) ↔ answer = .status code := by
  cases answer <;> rfl

/-- The loop never decides for a location or another URI. -/
theorem not_same_decided
    {answer : TryAnswer} (entries : List TryFilesEntry)
    (hserve : ∀ path, answer ≠ .serve path) (hstatus : ∀ code, answer ≠ .status code) :
    ¬ TryAnswer.Same (decided fs root decodedUri entries) answer := by
  intro h
  cases answer with
  | serve path => exact hserve path rfl
  | status code => exact hstatus code rfl
  | location loc =>
      rcases decided_served_or_status entries with ⟨path, heq⟩ | ⟨code, heq⟩
      · rw [heq] at h
        cases h
      · rw [heq] at h
        cases h
  | redirect uri =>
      rcases decided_served_or_status entries with ⟨path, heq⟩ | ⟨code, heq⟩
      · rw [heq] at h
        cases h
      · rw [heq] at h
        cases h

/-- The last entry, if it is a status, is where the loop ends at the latest. -/
theorem decided_status_last_iff
    {code : Nat} :
    decided fs root decodedUri (before ++ [.statusCode code]) = .status code ↔
      Reached fs root decodedUri (before ++ [.statusCode code]) (.statusCode code) ∨
        code = 404 ∧
          ∃ name, Reached fs root decodedUri (before ++ [.statusCode code]) (.named name) := by
  have hlast : ¬ ∀ e ∈ before ++ [.statusCode code], Passed fs root decodedUri e := by
    intro hall
    exact hall (.statusCode code) (by simp)
  rw [decided_status_iff, or_iff_left hlast]

/--
The handler answers what its loop decides, and that is what the entries ask for if and only
if the loop ends at the path that passes the test first, or, without one, at the status that
the last entry gives.
-/
theorem tryFiles_iff
    (fs : FileSystem) (server : ServerBlock) (root decodedUri : Bytes)
    (before : List TryFilesEntry) (last : TryFilesEntry) (indexFiles : List Bytes)
    (method : Bytes) (reqHdrs : Headers) :
    handleTryFiles fs root decodedUri indexFiles method reqHdrs (before ++ [last]) =
        respond fs root indexFiles method reqHdrs
          (decided fs root decodedUri (before ++ [last])) ∧
      (AnsweredAsAsked fs server root decodedUri before last ↔
        EndsAsAsked fs server root decodedUri before last) := by
  refine ⟨handleTryFiles_eq _ _ _ _, ?_⟩
  unfold AnsweredAsAsked wanted
  cases hfound : before.findSome? (matching fs root decodedUri) with
  | some path =>
      dsimp only
      simp only [Option.some.injEq, forall_eq', same_serve_iff, decided_serve_iff]
      constructor
      · rintro ⟨_, ⟨p, hreached, hexists, rfl⟩, hsame⟩
        refine ⟨fun path' hpath => ?_, fun hnone => ?_⟩
        · rw [hfound] at hpath
          cases hpath
          exact ⟨p, hreached, hexists, hsame⟩
        · rw [hfound] at hnone
          cases hnone
      · intro h
        obtain ⟨p, hreached, hexists, hsame⟩ := h.found path hfound
        exact ⟨_, ⟨p, hreached, hexists, rfl⟩, hsame⟩
  | none =>
      have hempty : ∀ path, before.findSome? (matching fs root decodedUri) ≠ some path := by
        intro path hpath
        rw [hfound] at hpath
        cases hpath
      dsimp only
      cases last with
      | statusCode code =>
          simp only [Option.some.injEq, forall_eq', same_status_iff, decided_status_last_iff]
          constructor
          · intro h
            exact ⟨fun path hpath => absurd hpath (hempty path), fun _ => Or.inl ⟨code, rfl, h⟩⟩
          · intro h
            rcases h.otherwise hfound with ⟨_, heq, h⟩ | ⟨_, heq, -⟩
            · cases heq
              exact h
            · cases heq
      | named name =>
          constructor
          · intro h
            refine ⟨fun path hpath => absurd hpath (hempty path), fun _ => Or.inr ⟨name, rfl, ?_⟩⟩
            cases hloc : Router.findNamedLocation server name with
            | none => rfl
            | some loc =>
                refine absurd (h (.location loc) ?_) (not_same_decided _ ?_ ?_)
                · exact congrArg (Option.map TryAnswer.location) hloc
                · intro path heq
                  cases heq
                · intro code heq
                  cases heq
          · intro h answer hanswer
            rcases h.otherwise hfound with ⟨_, heq, -⟩ | ⟨_, heq, hnone⟩
            · cases heq
            · cases heq
              have hmap := congrArg (Option.map TryAnswer.location) hnone
              cases hmap.symm.trans hanswer
      | path p =>
          constructor
          · intro h
            refine absurd (h _ rfl) (not_same_decided _ ?_ ?_)
            · intro path heq
              cases heq
            · intro code heq
              cases heq
          · intro h
            rcases h.otherwise hfound with ⟨_, heq, -⟩ | ⟨_, heq, -⟩
            · cases heq
            · cases heq

/-- The fallback of a site with a front controller is not taken. -/
theorem fallback_not_taken :
    ¬ ∀ (fs : FileSystem) (server : ServerBlock) (root decodedUri : Bytes)
      (before : List TryFilesEntry) (last : TryFilesEntry),
      AnsweredAsAsked fs server root decodedUri before last := by
  intro h
  have hwanted : wanted exampleFiles (serverAt (ascii "/srv")) (ascii "/srv") (ascii "/hello")
      [.path (ascii "$uri"), .path (ascii "$uri/")] (.path (ascii "/index.php?$args")) =
      some (.redirect (ascii "/index.php?$args")) := by
    rfl
  have hdecided : decided exampleFiles (ascii "/srv") (ascii "/hello")
      [.path (ascii "$uri"), .path (ascii "$uri/"), .path (ascii "/index.php?$args")] =
      .status 404 := by
    rfl
  have hsame := h _ _ _ _ _ _ _ hwanted
  rw [List.cons_append, List.cons_append, List.nil_append, hdecided] at hsame
  cases hsame

end Answered

end StaticFiles
end RunNginx
