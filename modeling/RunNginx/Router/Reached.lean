import RunNginx.Config.Includes
import RunNginx.Config.ServerOrder
import RunNginx.Lib.LfLines
import RunNginx.Lib.Trimmed
import RunNginx.Router.Servers

/-!
# Server blocks that no host reaches

A server block may be written in vain: its names are taken by blocks of a better class or in
front of it, or no Host header is cut to them.  Whether it is reached by any host at all is
told by a few hosts that are read off its names.

`reached_iff`: that is so for every block of a loaded configuration.
`selectServer_without`: leaving out a block that is not chosen changes no choice.
-/

namespace RunNginx
namespace Router

open ByteString ConfigParser LfLines Parse Utf8

section Hosts

variable {s t h : Bytes}

/-- A text that Host headers are cut to. -/
structure IsHost (s : Bytes) : Prop where
  noPort : 58 ∉ s
  trimmed : Trimmed s

theorem isHost_hostName
    (host : Bytes) :
    IsHost (hostName host) := by
  have hhead : (splitByte 58 host).headD host ∈ splitByte 58 host := by
    obtain ⟨pieces, hpieces⟩ := splitByte_eq_cons 58 host
    rw [hpieces]
    exact List.mem_cons_self
  exact ⟨fun hmem => not_mem_of_mem_splitByte hhead (mem_of_mem_trim hmem), trimmed_trim _⟩

theorem hostName_of_isHost
    (h : IsHost s) :
    hostName s = s := by
  rw [hostName, splitByte_of_not_mem h.noPort]
  exact trim_eq_self_iff.mpr h.trimmed

theorem isHost_toAsciiLower_iff :
    IsHost (toAsciiLower s) ↔ IsHost s := by
  have hcolon : ∀ b : UInt8, toLowerByte b = 58 ↔ b = 58 := forall_byte (by decide +kernel)
  have hmem : 58 ∈ toAsciiLower s ↔ 58 ∈ s := by
    simp only [toAsciiLower, List.mem_map, hcolon, exists_eq_right]
  constructor
  · rintro ⟨hport, htrimmed⟩
    exact ⟨mt hmem.mpr hport, trimmed_toAsciiLower_iff.mp htrimmed⟩
  · rintro ⟨hport, htrimmed⟩
    exact ⟨mt hmem.mp hport, trimmed_toAsciiLower_iff.mpr htrimmed⟩

/-- The first text ends with the other one, but for case. -/
def EndsWith (h t : Bytes) : Prop :=
  toAsciiLower t <:+ toAsciiLower h

theorem EndsWith.trans
    {u : Bytes} (h₁ : EndsWith h t) (h₂ : EndsWith t u) :
    EndsWith h u :=
  List.IsSuffix.trans h₂ h₁

/-- What a host ends with, from a dot on, is a host. -/
theorem IsHost.ending
    (hhost : IsHost h) (hends : EndsWith h (46 :: t)) :
    IsHost (46 :: t) := by
  have hlower := isHost_toAsciiLower_iff.mpr hhost
  rw [← isHost_toAsciiLower_iff]
  exact ⟨fun hmem => hlower.noPort (hends.subset hmem),
    hlower.trimmed.of_suffix (by decide) hends⟩

end Hosts

section Names

/-- The names are ones that the parser reads. -/
def ReadNames (servers : List ServerBlock) : Prop :=
  ∀ srv ∈ servers, ∀ n ∈ srv.serverNames, ∃ text, parseServerName text = n

/-- The text of a name. -/
def nameText : ServerName → Bytes
  | .exact s => s
  | .wildcard s => s
  | .suffix s => s
  | .catchAll => []

/-- The hosts that a name is tried on. -/
def nameHosts : ServerName → List Bytes
  | .exact n => [n]
  | .wildcard w => [w.dropWhile (· == 42)]
  | .suffix s =>
      let s := s.dropWhile (· == 46)
      [s, 46 :: s]
  | .catchAll => []

/-- A host that is longer than any name, and has no dot. -/
def unnamedHost (servers : List ServerBlock) : Bytes :=
  List.replicate
    (((servers.flatMap ServerBlock.serverNames).flatMap nameText).length + 1) 120

/-- The hosts that tell whether a block is reached. -/
def testHosts (servers : List ServerBlock) (srv : ServerBlock) : List Bytes :=
  unnamedHost servers :: srv.serverNames.flatMap nameHosts

variable {n : ServerName} {h e s t : Bytes}

theorem matches_congr
    (heq : eqIgnoreCase h e = true) :
    n.matches h = n.matches e := by
  have hlower : toAsciiLower h = toAsciiLower e := beq_iff_eq.mp heq
  cases n with
  | exact s => simp only [ServerName.matches, eqIgnoreCase, hlower]
  | wildcard w => simp only [ServerName.matches, hlower]
  | suffix s => simp only [ServerName.matches, eqIgnoreCase, hlower]
  | catchAll => rfl

theorem matches_wildcard_iff
    {w : Bytes} :
    (ServerName.wildcard w).matches h = true ↔ EndsWith h (w.dropWhile (· == 42)) :=
  List.isSuffixOf_iff_suffix

theorem matches_suffix_iff :
    (ServerName.suffix s).matches h = true ↔
      eqIgnoreCase h (s.dropWhile (· == 46)) = true ∨
        EndsWith h (46 :: s.dropWhile (· == 46)) := by
  unfold ServerName.matches EndsWith
  rw [Bool.or_eq_true, List.isSuffixOf_iff_suffix]
  rfl

/-- A name that is read is taken for a wildcard only behind a star and a dot. -/
theorem parseServerName_cases
    (text : Bytes) :
    (∃ s, parseServerName text = .exact s ∧ s.head? ≠ some 46) ∨
      (∃ w t, parseServerName text = .wildcard w ∧ w.dropWhile (· == 42) = 46 :: t) ∨
        (∃ s, parseServerName text = .suffix s) ∨ parseServerName text = .catchAll := by
  unfold parseServerName
  split
  · exact .inr (.inr (.inr rfl))
  split
  · rename_i hstar
    obtain ⟨t, rfl⟩ := List.isPrefixOf_iff_prefix.mp hstar
    exact .inr (.inl ⟨_, t, rfl, rfl⟩)
  split
  · exact .inr (.inr (.inl ⟨_, rfl⟩))
  · rename_i hdot
    refine .inl ⟨_, rfl, fun hhead => hdot ?_⟩
    obtain ⟨t, rfl⟩ := List.head?_eq_some_iff.mp hhead
    rfl

theorem wildcard_ending
    {w : Bytes} (hread : ∃ text, parseServerName text = .wildcard w) :
    ∃ t, w.dropWhile (· == 42) = 46 :: t := by
  obtain ⟨text, hname⟩ := hread
  rcases parseServerName_cases text with
    ⟨s, hother, -⟩ | ⟨w', t, hother, hw⟩ | ⟨s, hother⟩ | hother
  · cases hother.symm.trans hname
  · cases hother.symm.trans hname
    exact ⟨t, hw⟩
  · cases hother.symm.trans hname
  · cases hother.symm.trans hname

/-- A text that starts with a dot is no other text up to case. -/
theorem head_of_eqIgnoreCase
    (h : eqIgnoreCase s (46 :: t) = true) :
    s.head? = some 46 := by
  have hdot : ∀ b : UInt8, toLowerByte b = 46 → b = 46 := forall_byte (by decide +kernel)
  have hlower : toAsciiLower s = toAsciiLower (46 :: t) := beq_iff_eq.mp h
  cases s with
  | nil => cases hlower
  | cons b s => rw [hdot b (List.cons.inj hlower).1, List.head?_cons]

/-- A name that matches an ending, from a dot on, matches the host. -/
theorem matches_of_ending
    (hread : ∃ text, parseServerName text = n) (hends : EndsWith h (46 :: t))
    (hmatch : n.matches (46 :: t) = true) :
    n.matches h = true := by
  obtain ⟨text, rfl⟩ := hread
  rcases parseServerName_cases text with
    ⟨s, hname, hhead⟩ | ⟨w, u, hname, hw⟩ | ⟨s, hname⟩ | hname
  · rw [hname] at hmatch
    exact absurd (head_of_eqIgnoreCase hmatch) hhead
  · rw [hname] at hmatch ⊢
    rw [matches_wildcard_iff] at hmatch ⊢
    exact hends.trans hmatch
  · rw [hname] at hmatch ⊢
    rw [matches_suffix_iff] at hmatch ⊢
    refine .inr (hends.trans (hmatch.resolve_left fun heq => ?_))
    have hlower : eqIgnoreCase (s.dropWhile (· == 46)) (46 :: t) = true := by
      unfold eqIgnoreCase at heq ⊢
      rwa [Bool.beq_comm]
    have hhead := List.head?_dropWhile_not (· == 46) s
    rw [head_of_eqIgnoreCase hlower] at hhead
    cases hhead
  · rw [hname]
    rfl

/-- No name is for the host that has none. -/
theorem not_matches_unnamedHost
    {servers : List ServerBlock} {srv : ServerBlock}
    (hsrv : srv ∈ servers) (hn : n ∈ srv.serverNames)
    (hread : ∃ text, parseServerName text = n) (hcatch : n ≠ .catchAll) :
    n.matches (unnamedHost servers) = false := by
  have hlong : (nameText n).length < (unnamedHost servers).length := by
    have hmem : n ∈ servers.flatMap ServerBlock.serverNames :=
      List.mem_flatMap.mpr ⟨srv, hsrv, hn⟩
    rw [unnamedHost, List.length_replicate]
    exact Nat.lt_succ_of_le
      (List.sublist_flatten_of_mem (List.mem_map_of_mem hmem)).length_le
  have hdotless : (46 : UInt8) ∉ toAsciiLower (unnamedHost servers) := by
    intro hmem
    obtain ⟨b, hb, hlower⟩ := List.mem_map.mp hmem
    rw [List.eq_of_mem_replicate hb] at hlower
    exact absurd hlower (by decide)
  have hends : ∀ t, ¬ EndsWith (unnamedHost servers) (46 :: t) :=
    fun t h => hdotless (h.subset List.mem_cons_self)
  have hother : ∀ s : Bytes, s.length < (unnamedHost servers).length →
      toAsciiLower s ≠ toAsciiLower (unnamedHost servers) := by
    intro s hs heq
    have hlen := congrArg List.length heq
    rw [toAsciiLower, toAsciiLower, List.length_map, List.length_map] at hlen
    exact Nat.ne_of_lt hs hlen
  rw [Bool.eq_false_iff]
  intro hmatch
  obtain ⟨text, rfl⟩ := hread
  rcases parseServerName_cases text with
    ⟨s, hname, -⟩ | ⟨w, u, hname, hw⟩ | ⟨s, hname⟩ | hname
  · rw [hname] at hmatch hlong
    exact hother s hlong (beq_iff_eq.mp hmatch)
  · rw [hname, matches_wildcard_iff, hw] at hmatch
    exact hends u hmatch
  · rw [hname, matches_suffix_iff] at hmatch
    rw [hname] at hlong
    refine hends _ (hmatch.resolve_left fun heq => ?_)
    have hshort := Nat.lt_of_le_of_lt (List.dropWhile_sublist (· == 46)).length_le hlong
    exact hother _ hshort (beq_iff_eq.mp heq).symm
  · exact hcatch hname

end Names

section Reached

variable {servers : List ServerBlock} {srv : ServerBlock} {class_ : ServerName → Bool}
variable {h e : Bytes}

theorem byName_congr
    (servers : List ServerBlock) (heq : eqIgnoreCase h e = true) :
    byName servers h = byName servers e := by
  unfold byName serverNamed
  simp only [matches_congr heq]

/-- Where the names that match one host match the other one as well, none of them is new. -/
theorem serverNamed_none_of
    (hback : ∀ x ∈ servers, ∀ n ∈ x.serverNames, n.matches e = true → n.matches h = true)
    (hnone : serverNamed servers class_ h = none) :
    serverNamed servers class_ e = none := by
  unfold serverNamed at hnone ⊢
  rw [List.find?_eq_none] at hnone ⊢
  intro x hx hname
  refine hnone x hx ?_
  obtain ⟨n, hn, hclass, hmatch⟩ := hasName_iff.mp hname
  exact hasName_iff.mpr ⟨n, hn, hclass, hback x hx n hn hmatch⟩

theorem serverNamed_some_of
    (hback : ∀ x ∈ servers, ∀ n ∈ x.serverNames, n.matches e = true → n.matches h = true)
    (hsome : serverNamed servers class_ h = some srv) (hname : HasName class_ e srv) :
    serverNamed servers class_ e = some srv := by
  unfold serverNamed at hsome ⊢
  rw [List.find?_eq_some_iff_append] at hsome ⊢
  obtain ⟨-, front, back, rfl, hfront⟩ := hsome
  refine ⟨hasName_iff.mpr hname, front, back, rfl, fun x hx => ?_⟩
  have hother := hfront x hx
  rw [Bool.not_eq_true', Bool.eq_false_iff] at hother ⊢
  intro hx'
  obtain ⟨n, hn, hclass, hmatch⟩ := hasName_iff.mp hx'
  exact hother (hasName_iff.mpr
    ⟨n, hn, hclass, hback x (List.mem_append_left _ hx) n hn hmatch⟩)

/-- The choice for a host that no name matches. -/
theorem byName_unnamedHost
    (hread : ReadNames servers) :
    byName servers (unnamedHost servers) = none := by
  have hnone : ∀ class_ : ServerName → Bool, class_ .catchAll = false →
      serverNamed servers class_ (unnamedHost servers) = none := by
    intro class_ hclass
    refine List.find?_eq_none.mpr fun x hx hname => ?_
    obtain ⟨n, hn, hclass', hmatch⟩ := hasName_iff.mp hname
    have hother := not_matches_unnamedHost hx hn (hread x hx n hn) fun heq => by
      rw [heq, hclass] at hclass'
      cases hclass'
    rw [hmatch] at hother
    cases hother
  rw [byName, hnone _ rfl, hnone _ rfl, hnone _ rfl]
  rfl

theorem isHost_unnamedHost
    (servers : List ServerBlock) :
    IsHost (unnamedHost servers) := by
  have hletter : ∀ b ∈ unnamedHost servers, b = 120 :=
    fun b hb => List.eq_of_mem_replicate hb
  refine ⟨fun hmem => absurd (hletter 58 hmem) (by decide), trim_eq_self_iff.mp ?_⟩
  refine trim_visible fun b hb => ?_
  rw [hletter b hb]
  rfl

theorem mem_of_byName
    (h : byName servers e = some srv) :
    srv ∈ servers := by
  simp only [byName, Option.or_eq_some_iff] at h
  rcases h with (h | ⟨-, h⟩) | ⟨-, h⟩
  · exact List.mem_of_find?_eq_some h
  · exact List.mem_of_find?_eq_some h
  · exact List.mem_of_find?_eq_some h

/-- A block that a name wins for some host wins for a host that the name is tried on. -/
theorem exists_nameHost
    (hread : ReadNames servers) (hhost : IsHost h) (hchoice : byName servers h = some srv) :
    ∃ n ∈ srv.serverNames, ∃ e ∈ nameHosts n, IsHost e ∧ byName servers e = some srv := by
  have hback : ∀ t, EndsWith h (46 :: t) → ∀ x ∈ servers, ∀ n ∈ x.serverNames,
      n.matches (46 :: t) = true → n.matches h = true :=
    fun t hends x hx n hn => matches_of_ending (hread x hx n hn) hends
  have hsrv : srv ∈ servers := mem_of_byName hchoice
  have hchoice' := hchoice
  have hsame : ∀ s, eqIgnoreCase h s = true → IsHost s ∧ byName servers s = some srv := by
    intro s heq
    have hlower : toAsciiLower h = toAsciiLower s := beq_iff_eq.mp heq
    refine ⟨?_, (byName_congr servers heq).symm.trans hchoice⟩
    rwa [← isHost_toAsciiLower_iff, ← hlower, isHost_toAsciiLower_iff]
  have hname : ∀ {class_ : ServerName → Bool}, serverNamed servers class_ h = some srv →
      HasName class_ h srv := by
    intro class_ hfound
    exact hasName_iff.mp (List.find?_some (p := fun x : ServerBlock =>
      x.serverNames.any fun n => class_ n && n.matches h) hfound)
  rw [byName, Option.or_eq_some_iff, Option.or_eq_some_iff, Option.or_eq_none_iff] at hchoice'
  rcases hchoice' with (hexact | ⟨hnoExact, hwildcard⟩) | ⟨⟨hnoExact, hnoWildcard⟩, hsuffix⟩
  · obtain ⟨n, hn, hclass, hmatch⟩ := hname hexact
    cases n with
    | exact s =>
        have heq : eqIgnoreCase h s = true := by
          unfold ServerName.matches eqIgnoreCase at hmatch
          rwa [eqIgnoreCase, Bool.beq_comm]
        exact ⟨_, hn, s, List.mem_singleton_self s, hsame s heq⟩
    | wildcard w => cases hclass
    | suffix s => cases hclass
    | catchAll => cases hclass
  · obtain ⟨n, hn, hclass, hmatch⟩ := hname hwildcard
    cases n with
    | wildcard w =>
        obtain ⟨t, hw⟩ := wildcard_ending (hread srv hsrv _ hn)
        rw [matches_wildcard_iff, hw] at hmatch
        have hself : HasName isWildcard (46 :: t) srv :=
          ⟨_, hn, rfl, matches_wildcard_iff.mpr (hw ▸ List.suffix_rfl)⟩
        refine ⟨_, hn, 46 :: t, by rw [nameHosts, hw]; exact List.mem_singleton_self _,
          hhost.ending hmatch, ?_⟩
        rw [byName, serverNamed_none_of (hback t hmatch) hnoExact,
          serverNamed_some_of (hback t hmatch) hwildcard hself]
        rfl
    | exact s => cases hclass
    | suffix s => cases hclass
    | catchAll => cases hclass
  · obtain ⟨n, hn, hclass, hmatch⟩ := hname hsuffix
    cases n with
    | suffix s =>
        rcases matches_suffix_iff.mp hmatch with heq | hends
        · exact ⟨_, hn, _, List.mem_cons_self, hsame _ heq⟩
        · have hself : HasName isSuffix (46 :: s.dropWhile (· == 46)) srv :=
            ⟨_, hn, rfl, matches_suffix_iff.mpr (.inr List.suffix_rfl)⟩
          refine ⟨_, hn, _, List.mem_cons_of_mem _ List.mem_cons_self, hhost.ending hends, ?_⟩
          rw [byName, serverNamed_none_of (hback _ hends) hnoExact,
            serverNamed_none_of (hback _ hends) hnoWildcard,
            serverNamed_some_of (hback _ hends) hsuffix hself]
          rfl
    | exact s => cases hclass
    | wildcard w => cases hclass
    | catchAll => cases hclass

/-- A block is reached by some host exactly if one of the hosts it is tried on reaches it. -/
theorem reached_iff_of_readNames
    (hread : ReadNames servers) (srv : ServerBlock) :
    (∃ host, selectServer servers host = some srv) ↔
      ∃ host ∈ testHosts servers srv, selectServer servers host = some srv := by
  refine ⟨?_, fun ⟨host, _, hchoice⟩ => ⟨host, hchoice⟩⟩
  rintro ⟨host, hchoice⟩
  rw [selectServer_eq, Option.or_eq_some_iff] at hchoice
  rcases hchoice with hnamed | ⟨-, hfallback⟩
  · obtain ⟨n, hn, e, he, hhost, hchoice⟩ :=
      exists_nameHost hread (isHost_hostName host) hnamed
    refine ⟨e, List.mem_cons_of_mem _ (List.mem_flatMap.mpr ⟨n, hn, he⟩), ?_⟩
    rw [selectServer_eq, hostName_of_isHost hhost, hchoice, Option.some_or]
  · refine ⟨_, List.mem_cons_self, ?_⟩
    rw [selectServer_eq, hostName_of_isHost (isHost_unnamedHost servers),
      byName_unnamedHost hread, Option.none_or, hfallback]

end Reached

section Loaded

variable {lib : Libraries} {files : ConfigFiles} {path : Bytes} {cfg : Config}

/-- What a server block has read of its names. -/
def NamesRead (st : ServerReader) : Prop :=
  ∀ n ∈ st.block.serverNames, ∃ text, parseServerName text = n

theorem serverDirectives_names
    (lib : Libraries) :
    ∀ entry ∈ serverDirectives lib, Keeps NamesRead entry.2 := by
  have hword : ∀ f : Bytes → ServerBlock → ServerBlock,
      (∀ v b, (f v b).serverNames = b.serverNames) → Keeps NamesRead (blockWord f) := by
    refine fun f hf => keeps_word fun v st hst => ?_
    unfold NamesRead
    rw [onBlock, hf]
    exact hst
  have hsts : ∀ v (b : ServerBlock),
      (if isNotOff v then { b with hstsMaxAge := some 31536000 } else b).serverNames =
        b.serverNames := by
    intro v b
    split <;> rfl
  have hlocation : Keeps NamesRead (locationDirective lib) := by
    intro st hst ts st' rest hrun
    unfold locationDirective at hrun
    split at hrun
    · cases hrun
    · obtain ⟨loc, rest₁, _, -, hrun⟩ := bind_ok hrun
      cases hrun
      exact hst
  simp only [serverDirectives, List.forall_mem_cons]
  refine ⟨keeps_parsed fun _ _ h => h, keeps_anyWords fun names st h => ?_,
    keeps_check fun _ _ h => h, keeps_anyWords fun _ _ h => h,
    keeps_parsed fun _ _ h => h, keeps_checkedWord fun _ _ h => h,
    keeps_parsed fun _ _ h => h, keeps_anyWords fun _ _ h => h,
    keeps_parsed fun _ _ h => h, hword _ ?_, hword _ ?_,
    keeps_anyWords fun _ _ h => h, keeps_parsed fun _ _ h => h,
    hword _ fun _ _ => rfl, hword _ fun _ _ => rfl,
    keeps_anyWords fun _ _ h => h, hlocation,
    hword _ fun _ _ => rfl, hword _ fun _ _ => rfl,
    hword _ hsts, hword _ fun _ _ => rfl, hword _ fun _ _ => rfl,
    hword _ fun _ _ => rfl, hword _ fun _ _ => rfl, by simp⟩
  · intro n hn
    rcases List.mem_append.mp hn with hn | hn
    · exact h n hn
    · obtain ⟨text, -, rfl⟩ := List.mem_map.mp hn
      exact ⟨text, rfl⟩
  · intro v b
    unfold withRealm
    split <;> rfl
  · intro v b
    unfold withUserFile
    split <;> rfl

/-- The names of a loaded configuration are ones that the parser reads. -/
theorem readNames_of_load
    (hload : load lib files path = .ok cfg) :
    ReadNames cfg.http.servers := by
  intro srv hsrv
  obtain ⟨ts, rest, htext⟩ := load_written lib files hload srv hsrv
  obtain ⟨st, rest₁, rest₂, hblock, hdone⟩ := bind_ok htext
  have hserver : st.block = srv := congrArg Prod.fst (Except.ok.inj hdone)
  have hstep : ∀ name,
      Keeps NamesRead (runDirective (serverDirectives lib) unknownDirective name) :=
    fun name => @keeps_runDirective_of_not_mem _ _ _ _ name []
      (fun entry hentry => .inr (serverDirectives_names lib entry hentry)) keeps_unknown
      List.not_mem_nil
  rw [← hserver]
  exact keeps_block hstep .initial (fun n hn => absurd hn List.not_mem_nil) ts st rest₁ hblock

/--
In a loaded configuration a block is reached by some host exactly if one of the hosts that
are read off its names, or the one that has no name, reaches it.
-/
theorem reached_iff
    (hload : load lib files path = .ok cfg) (srv : ServerBlock) :
    (∃ host, selectServer cfg.http.servers host = some srv) ↔
      ∃ host ∈ testHosts cfg.http.servers srv,
        selectServer cfg.http.servers host = some srv :=
  reached_iff_of_readNames (readNames_of_load hload) srv

/-- A file with two servers of the same name. -/
def namedTwice : ConfigFiles where
  glob _ := []
  read _ := some (ascii "http \x7b server \x7b server_name a.b; \x7d " ++
    ascii "server \x7b server_name A.b; \x7d \x7d")

theorem namedTwice_tested :
    (load bareLibraries namedTwice (ascii "/main")).toOption.map (fun cfg =>
      cfg.http.servers.getLast?.map fun srv => (testHosts cfg.http.servers srv).all fun host =>
        (selectServer cfg.http.servers host).map ServerBlock.serverNames !=
          some srv.serverNames) = some (some true) := by
  decide +kernel

/-- No test host reaches the second one. -/
theorem exists_namedTwice :
    ∃ cfg srv, load bareLibraries namedTwice (ascii "/main") = .ok cfg ∧
      srv ∈ cfg.http.servers ∧ ∀ host ∈ testHosts cfg.http.servers srv,
        selectServer cfg.http.servers host ≠ some srv := by
  obtain ⟨cfg, hcfg, htested⟩ := Option.map_eq_some_iff.mp namedTwice_tested
  obtain ⟨srv, hsrv, hall⟩ := Option.map_eq_some_iff.mp htested
  refine ⟨cfg, srv, EarlyReturn.toOption_eq_some_iff.mp hcfg, List.mem_of_getLast? hsrv, ?_⟩
  intro host hhost hchoice
  have hother := List.all_eq_true.mp hall host hhost
  rw [hchoice, Option.map_some, bne_self_eq_false] at hother
  cases hother

/-- So no host does. -/
theorem reached_iff_example :
    ∃ cfg srv, load bareLibraries namedTwice (ascii "/main") = .ok cfg ∧
      srv ∈ cfg.http.servers ∧ ¬ ∃ host, selectServer cfg.http.servers host = some srv := by
  obtain ⟨cfg, srv, hload, hmem, hunreached⟩ := exists_namedTwice
  refine ⟨cfg, srv, hload, hmem, fun hreached => ?_⟩
  obtain ⟨host, hhost, hchoice⟩ := (reached_iff hload srv).mp hreached
  exact hunreached host hhost hchoice

end Loaded

section Without

variable {front back : List ServerBlock} {srv : ServerBlock} {host : Bytes}

/-- A search that does not end at an element does without it. -/
theorem find?_without
    {p : ServerBlock → Bool} (h : (front ++ srv :: back).find? p ≠ some srv) :
    (front ++ back).find? p = (front ++ srv :: back).find? p := by
  rw [List.find?_append, List.find?_cons] at h
  rw [List.find?_append, List.find?_append, List.find?_cons]
  cases hfront : front.find? p with
  | some x => rfl
  | none =>
      rw [hfront, Option.none_or] at h
      cases hp : p srv with
      | true =>
          rw [hp] at h
          exact absurd rfl h
      | false => rfl

/-- Two searches, one behind the other. -/
theorem or_without
    {a a' b b' : Option ServerBlock} (h : a'.or b' ≠ some srv)
    (ha : a' ≠ some srv → a = a') (hb : b' ≠ some srv → b = b') :
    a.or b = a'.or b' := by
  cases a' with
  | some x => rw [ha h, Option.some_or, Option.some_or]
  | none =>
      rw [Option.none_or] at h ⊢
      rw [ha (by simp), Option.none_or, hb h]

/-- The choice is the same without a block that is not chosen. -/
theorem selectServer_without
    (h : selectServer (front ++ srv :: back) host ≠ some srv) :
    selectServer (front ++ back) host = selectServer (front ++ srv :: back) host := by
  unfold selectServer at h ⊢
  have hhead : (front ++ srv :: back).head? ≠ some srv →
      (front ++ back).head? = (front ++ srv :: back).head? := by
    cases front with
    | nil => exact fun hne => absurd rfl hne
    | cons x front => exact fun _ => rfl
  exact or_without h (fun h => or_without h (fun h => or_without h (fun h => or_without h
    find?_without find?_without) find?_without) find?_without) hhead

end Without

end Router
end RunNginx
