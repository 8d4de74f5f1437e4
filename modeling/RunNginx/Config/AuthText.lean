import RunNginx.Config.Provenance

/-!
# Basic authentication in the text of a block

What the parser makes of the directives `auth_basic` and `auth_basic_user_file`.  In a
location both are needed, and the last of each counts; a server block takes either of
them for a request for credentials.
-/

namespace RunNginx
namespace ConfigParser

open ByteString Parse

/-- The realms that a block asks for credentials of. -/
def realms (items : List (Bytes × List Token)) : List Bytes :=
  (itemArgs (ascii "auth_basic") items).filter fun realm => realm != ascii "off"

/-- The user files that a block names. -/
def userFiles (items : List (Bytes × List Token)) : List Bytes :=
  itemArgs (ascii "auth_basic_user_file") items

section Items

variable {name : Bytes} {ts : List Token} {before : List (Bytes × List Token)}

theorem realms_append_auth
    (before : List (Bytes × List Token)) (realm : Bytes) (rest : List Token) :
    realms (before ++ [(ascii "auth_basic", .word realm :: rest)]) =
      realms before ++ if realm = ascii "off" then [] else [realm] := by
  unfold realms itemArgs
  by_cases hoff : realm = ascii "off"
  · simp [itemArg, wordOf, hoff]
  · simp [itemArg, wordOf, hoff]

theorem realms_append_other
    (h : name ≠ ascii "auth_basic") :
    realms (before ++ [(name, ts)]) = realms before := by
  simp [realms, itemArgs, itemArg, h]

theorem userFiles_append_file
    {file : Bytes} {rest : List Token} :
    userFiles (before ++ [(ascii "auth_basic_user_file", .word file :: rest)]) =
      userFiles before ++ [file] := by
  simp [userFiles, itemArgs, itemArg, wordOf]

theorem userFiles_append_other
    (h : name ≠ ascii "auth_basic_user_file") :
    userFiles (before ++ [(name, ts)]) = userFiles before := by
  simp [userFiles, itemArgs, itemArg, h]

end Items

section Location

variable (lib : Libraries)

/-- What a location has read about basic authentication. -/
def authOf (st : LocationReader) : Option Bytes × Option Bytes :=
  (st.authBasicRealm, st.authBasicFile)

/-- Only two directives of a location are about basic authentication. -/
theorem locationDirectives_auth
    (a : Option Bytes × Option Bytes) :
    ∀ entry ∈ locationDirectives lib,
      entry.1 ∈ [ascii "auth_basic", ascii "auth_basic_user_file"] ∨
        Keeps (fun st => authOf st = a) entry.2 := by
  have hfcgi : ∀ f st, authOf (onFastCgi f st) = authOf st := by
    intro f st
    unfold onFastCgi
    split <;> rfl
  have hproxy : ∀ f st, authOf (onProxy f st) = authOf st := by
    intro f st
    unfold onProxy
    split <;> rfl
  have hword : ∀ g : Bytes → LocationReader → LocationReader,
      (∀ v st, authOf (g v st) = authOf st) →
        Keeps (fun st => authOf st = a) (oneWord fun v st => .ok (g v st)) :=
    fun g hg => keeps_word fun v st hst => (hg v st).trans hst
  simp only [locationDirectives, List.forall_mem_cons]
  refine ⟨Or.inr (keeps_check fun _ _ h => h), Or.inr (keeps_anyWords fun _ _ h => h),
    Or.inr (keeps_anyWords fun _ _ h => h), Or.inr (keeps_check fun _ _ h => h),
    Or.inr (keeps_check fun _ _ h => h),
    Or.inr (keeps_twoWords fun _ _ _ h => (hfcgi _ _).trans h),
    Or.inr (hword _ fun _ _ => hfcgi _ _), Or.inr (hword _ fun _ _ => hfcgi _ _),
    Or.inr (keeps_twoWords fun _ _ _ h => (hproxy _ _).trans h),
    Or.inr (hword _ fun _ _ => hproxy _ _), Or.inr (hword _ fun _ _ => hproxy _ _),
    Or.inr (hword _ fun _ _ => hproxy _ _), Or.inr (keeps_parsed fun _ _ h => h),
    Or.inr (keeps_checkedWord fun _ _ h => h), Or.inr (keeps_parsed fun _ _ h => h),
    Or.inr (hword _ fun _ _ => rfl), Or.inr (keeps_anyWords fun _ _ h => h),
    Or.inr (keeps_parsed fun _ _ h => h), Or.inl (by simp), Or.inl (by simp), by simp⟩

/-- What a directive of a location does to what was read about basic authentication. -/
theorem location_step
    {name : Bytes} {st st' : LocationReader} {ts : List Token} {rest : Rest ts}
    (h : runDirective (locationDirectives lib) unknownDirective name st ts = .ok (st', rest)) :
    (∃ realm ts', name = ascii "auth_basic" ∧ ts = .word realm :: ts' ∧
        authOf st' = (if realm = ascii "off" then st.authBasicRealm else some realm,
          st.authBasicFile)) ∨
      (∃ file ts', name = ascii "auth_basic_user_file" ∧ ts = .word file :: ts' ∧
        authOf st' = (st.authBasicRealm, some file)) ∨
      (name ≠ ascii "auth_basic" ∧ name ≠ ascii "auth_basic_user_file" ∧
        authOf st' = authOf st) := by
  by_cases hauth : name = ascii "auth_basic"
  · left
    subst hauth
    obtain ⟨realm, ts', hts, hrun⟩ := oneWord_ok
      (f := fun realm (st : LocationReader) =>
        .ok (if realm = ascii "off" then st else { st with authBasicRealm := some realm })) h
    refine ⟨realm, ts', rfl, hts, ?_⟩
    rw [← Except.ok.inj hrun]
    split <;> rfl
  by_cases hfile : name = ascii "auth_basic_user_file"
  · right
    left
    subst hfile
    obtain ⟨file, ts', hts, hrun⟩ := oneWord_ok
      (f := fun file (st : LocationReader) => .ok { st with authBasicFile := some file }) h
    refine ⟨file, ts', rfl, hts, ?_⟩
    rw [← Except.ok.inj hrun]
    rfl
  · right
    right
    refine ⟨hauth, hfile, ?_⟩
    exact keeps_runDirective_of_not_mem (locationDirectives_auth lib (authOf st)) keeps_unknown
      (by simp [hauth, hfile]) st rfl ts st' rest h

/-- The last realm and the last user file of a location are what it asks for. -/
theorem location_authBasic
    {loc : LocationBlock} {ts : List Token}
    (h : LocationText lib loc ts) :
    loc.authBasic =
      match (realms (locationItems lib ts)).getLast?,
        (userFiles (locationItems lib ts)).getLast? with
      | some realm, some file => some ⟨realm, file⟩
      | _, _ => none := by
  obtain ⟨st, pattern, hloc, hread⟩ := location_rule lib
    (P := fun items (st : LocationReader) => authOf st =
      ((realms items).getLast?, (userFiles items).getLast?))
    rfl
    (fun before name s ts s' rest hs hstep => by
      have hrealm := congrArg Prod.fst hs
      have hfile := congrArg Prod.snd hs
      simp only [authOf] at hrealm hfile
      rcases location_step lib hstep with
        ⟨realm, ts', rfl, rfl, hs'⟩ | ⟨file, ts', rfl, rfl, hs'⟩ | ⟨h1, h2, hs'⟩
      · rw [hs', realms_append_auth, userFiles_append_other (by decide)]
        split <;> simp [hrealm, hfile]
      · rw [hs', realms_append_other (by decide), userFiles_append_file]
        simp [hrealm]
      · rw [hs', realms_append_other h1, userFiles_append_other h2, hs])
    h
  have hrealm := congrArg Prod.fst hread
  have hfile := congrArg Prod.snd hread
  simp only [authOf] at hrealm hfile
  rw [← hloc]
  exact congrArg₂ (fun realm file => LocationReader.authBasic
    { st with authBasicRealm := realm, authBasicFile := file }) hrealm hfile

end Location

section Server

variable (lib : Libraries)

/-- The directives of a server block. -/
def serverItems (ts : List Token) : List (Bytes × List Token) :=
  blockItems .server (serverDirectives lib) .initial ts

/-- What a server block has read about basic authentication, and its locations. -/
def serverAuthOf (st : ServerReader) : Option AuthBasicConfig × List LocationBlock :=
  (st.block.authBasic, st.block.locations)

/-- Only three directives of a server block are about authentication or locations. -/
theorem serverDirectives_auth
    (a : Option AuthBasicConfig × List LocationBlock) :
    ∀ entry ∈ serverDirectives lib,
      entry.1 ∈ [ascii "auth_basic", ascii "auth_basic_user_file", ascii "location"] ∨
        Keeps (fun st => serverAuthOf st = a) entry.2 := by
  have hword : ∀ f : Bytes → ServerBlock → ServerBlock,
      (∀ v b, (f v b).authBasic = b.authBasic ∧ (f v b).locations = b.locations) →
        Keeps (fun st => serverAuthOf st = a) (blockWord f) := by
    refine fun f hf => keeps_word fun v st hst => ?_
    rw [← hst]
    simp [serverAuthOf, onBlock, hf]
  have hsts : ∀ v (b : ServerBlock),
      (if isNotOff v then { b with hstsMaxAge := some 31536000 } else b).authBasic =
          b.authBasic ∧
        (if isNotOff v then { b with hstsMaxAge := some 31536000 } else b).locations =
          b.locations := by
    intro v b
    split <;> exact ⟨rfl, rfl⟩
  simp only [serverDirectives, List.forall_mem_cons]
  refine ⟨Or.inr (keeps_parsed fun _ _ h => h), Or.inr (keeps_anyWords fun _ _ h => h),
    Or.inr (keeps_check fun _ _ h => h), Or.inr (keeps_anyWords fun _ _ h => h),
    Or.inr (keeps_parsed fun _ _ h => h), Or.inr (keeps_checkedWord fun _ _ h => h),
    Or.inr (keeps_parsed fun _ _ h => h), Or.inr (keeps_anyWords fun _ _ h => h),
    Or.inr (keeps_parsed fun _ _ h => h), Or.inl (by simp), Or.inl (by simp),
    Or.inr (keeps_anyWords fun _ _ h => h), Or.inr (keeps_parsed fun _ _ h => h),
    Or.inr (hword _ fun _ _ => ⟨rfl, rfl⟩), Or.inr (hword _ fun _ _ => ⟨rfl, rfl⟩),
    Or.inr (keeps_anyWords fun _ _ h => h), Or.inl (by simp),
    Or.inr (hword _ fun _ _ => ⟨rfl, rfl⟩), Or.inr (hword _ fun _ _ => ⟨rfl, rfl⟩),
    Or.inr (hword _ hsts), Or.inr (hword _ fun _ _ => ⟨rfl, rfl⟩),
    Or.inr (hword _ fun _ _ => ⟨rfl, rfl⟩), Or.inr (hword _ fun _ _ => ⟨rfl, rfl⟩),
    Or.inr (hword _ fun _ _ => ⟨rfl, rfl⟩), by simp⟩

/-- What a directive of a server block does to its authentication and its locations. -/
theorem server_step
    {name : Bytes} {st st' : ServerReader} {ts : List Token} {rest : Rest ts}
    (h : runDirective (serverDirectives lib) unknownDirective name st ts = .ok (st', rest)) :
    (∃ realm ts', name = ascii "auth_basic" ∧ ts = .word realm :: ts' ∧
        serverAuthOf st' =
          (if realm = ascii "off" then st.block.authBasic else some ⟨realm, []⟩,
            st.block.locations)) ∨
      (∃ file ts', name = ascii "auth_basic_user_file" ∧ ts = .word file :: ts' ∧
        ∃ realm, serverAuthOf st' = (some ⟨realm, file⟩, st.block.locations)) ∨
      (∃ loc, name = ascii "location" ∧ LocationText lib loc ts ∧
        serverAuthOf st' = (st.block.authBasic, st.block.locations ++ [loc])) ∨
      (name ≠ ascii "auth_basic" ∧ name ≠ ascii "auth_basic_user_file" ∧
        name ≠ ascii "location" ∧ serverAuthOf st' = serverAuthOf st) := by
  by_cases hauth : name = ascii "auth_basic"
  · left
    subst hauth
    obtain ⟨realm, ts', hts, hrun⟩ := oneWord_ok
      (f := fun v (st : ServerReader) => .ok (onBlock withRealm v st)) h
    refine ⟨realm, ts', rfl, hts, ?_⟩
    rw [← Except.ok.inj hrun]
    simp only [serverAuthOf, onBlock, withRealm]
    split <;> rfl
  by_cases hfile : name = ascii "auth_basic_user_file"
  · right
    left
    subst hfile
    obtain ⟨file, ts', hts, hrun⟩ := oneWord_ok
      (f := fun v (st : ServerReader) => .ok (onBlock withUserFile v st)) h
    refine ⟨file, ts', rfl, hts, ?_⟩
    rw [← Except.ok.inj hrun]
    cases hb : st.block.authBasic with
    | none => exact ⟨_, by simp [serverAuthOf, onBlock, withUserFile, hb]; rfl⟩
    | some auth => exact ⟨_, by simp [serverAuthOf, onBlock, withUserFile, hb]; rfl⟩
  by_cases hloc : name = ascii "location"
  · right
    right
    left
    subst hloc
    have hrun : locationDirective lib st ts = .ok (st', rest) := h
    unfold locationDirective at hrun
    split at hrun
    · cases hrun
    · obtain ⟨loc, rest₁, _, hparse, hrun⟩ := bind_ok hrun
      refine ⟨loc, rfl, ⟨rest₁, hparse⟩, ?_⟩
      cases hrun
      rfl
  · right
    right
    right
    refine ⟨hauth, hfile, hloc, ?_⟩
    exact keeps_runDirective_of_not_mem (serverDirectives_auth lib (serverAuthOf st))
      keeps_unknown (by simp [hauth, hfile, hloc]) st rfl ts st' rest h

/-- What a server block has read, seen against its directives. -/
structure ServerRead (items : List (Bytes × List Token))
    (a : Option AuthBasicConfig × List LocationBlock) : Prop where
  asks_iff : a.1.isSome = true ↔ realms items ≠ [] ∨ userFiles items ≠ []
  userFile : ∀ auth ∈ a.1, auth.userFile = [] ∨ auth.userFile ∈ userFiles items
  locations : ∀ loc ∈ a.2, ∃ lts, (ascii "location", lts) ∈ items ∧ LocationText lib loc lts

theorem serverRead_step
    {before : List (Bytes × List Token)} {name : Bytes} {st st' : ServerReader}
    {ts : List Token} {rest : Rest ts}
    (hst : ServerRead lib before (serverAuthOf st))
    (h : runDirective (serverDirectives lib) unknownDirective name st ts = .ok (st', rest)) :
    ServerRead lib (before ++ [(name, ts)]) (serverAuthOf st') := by
  obtain ⟨hasks, hfile, hlocs⟩ := hst
  have hkept : ∀ loc ∈ st.block.locations,
      ∃ lts, (ascii "location", lts) ∈ before ++ [(name, ts)] ∧ LocationText lib loc lts := by
    intro loc hloc
    obtain ⟨lts, hmem, htext⟩ := hlocs loc hloc
    exact ⟨lts, by simp [hmem], htext⟩
  rcases server_step lib h with ⟨realm, ts', rfl, rfl, heq⟩ | ⟨file, ts', rfl, rfl, realm, heq⟩ |
    ⟨loc, rfl, htext, heq⟩ | ⟨h1, h2, -, heq⟩
  · rw [heq]
    by_cases hoff : realm = ascii "off"
    · have hsame := realms_append_auth before realm ts'
      rw [if_pos hoff, List.append_nil] at hsame
      simp only [hoff, if_true] at hsame ⊢
      refine ⟨?_, ?_, by rw [hoff] at hkept; exact hkept⟩
      · rw [hsame, userFiles_append_other (by decide)]
        exact hasks
      · rw [userFiles_append_other (by decide)]
        exact hfile
    · refine ⟨?_, ?_, hkept⟩
      · simp [hoff, realms_append_auth]
      · intro auth hauth
        simp only [hoff, if_false, Option.mem_some_iff] at hauth
        rw [← hauth]
        exact Or.inl rfl
  · rw [heq]
    refine ⟨by simp [userFiles_append_file], ?_, hkept⟩
    intro auth hauth
    simp only [Option.mem_some_iff] at hauth
    rw [← hauth, userFiles_append_file]
    exact Or.inr (by simp)
  · rw [heq]
    refine ⟨?_, ?_, ?_⟩
    · rw [realms_append_other (by decide), userFiles_append_other (by decide)]
      exact hasks
    · rw [userFiles_append_other (by decide)]
      exact hfile
    · intro l hl
      rcases List.mem_append.mp hl with hl | hl
      · exact hkept l hl
      · rw [List.mem_singleton.mp hl]
        exact ⟨ts, by simp, htext⟩
  · rw [heq]
    refine ⟨?_, ?_, hkept⟩
    · rw [realms_append_other h1, userFiles_append_other h2]
      exact hasks
    · rw [userFiles_append_other h2]
      exact hfile

/-- A server block that was read from these tokens. -/
theorem serverText_read
    {server : ServerBlock} {ts : List Token}
    (h : ServerText lib server ts) :
    ServerRead lib (serverItems lib ts) (server.authBasic, server.locations) := by
  obtain ⟨rest, h⟩ := h
  obtain ⟨st, rest₁, rest₂, hblock, h⟩ := bind_ok h
  have hserver : st.block = server := congrArg Prod.fst (Except.ok.inj h)
  rw [← hserver]
  refine block_rule (P := fun items (st : ServerReader) => ServerRead lib items (serverAuthOf st))
    (fun before name s ts s' rest hs hstep => serverRead_step lib hs hstep) ?_ hblock
  refine ⟨?_, ?_, ?_⟩
  · exact ⟨fun h => (by cases h), fun h => by simp [realms, userFiles, itemArgs] at h⟩
  · intro auth hauth
    cases hauth
  · intro loc hloc
    cases hloc

end Server

end ConfigParser
end RunNginx
