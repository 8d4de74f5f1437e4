import Mathlib.Data.List.Sort
import RunNginx.Api.SiteStore
import RunNginx.Config.IncludedBodies

/-!
# Hosting over runs

The files of the hosted sites are included into the configuration of the server.  Which site
answers a request is settled by the domains and by the order of the files.

`hosted_alone`: after any run of creations and deletions the configuration is loaded, and every
request is answered as if its site were the only one.  `other_sites_undisturbed`: whatever is
created or deleted under other domains changes no answer of a site.
-/

namespace RunNginx
namespace Sites

open ByteString ConfigParser Handler Router

/-! ### The choice of a site -/

/-- The site for a host: the first of that name, else the first of all. -/
def siteFor (sites : List Site) (host : Bytes) : Option Site :=
  (sites.find? fun s => eqIgnoreCase s.req.domain (hostName host)).or sites.head?

/-- The server of a site, with the domain for its only name. -/
def Serves (server : Site → Option ServerBlock) (s : Site) (block : ServerBlock) : Prop :=
  server s = some block ∧ block.serverNames = [.exact s.req.domain]

section Choice

variable {server : Site → Option ServerBlock} {sites : List Site} {blocks : List ServerBlock}

theorem exists_serves
    (h : List.Forall₂ (Serves server) sites blocks) {s : Site} (hs : s ∈ sites) :
    ∃ block, server s = some block := by
  induction h with
  | nil => cases hs
  | cons hserves _ ih =>
      rcases List.mem_cons.mp hs with rfl | hs
      · exact ⟨_, hserves.1⟩
      · exact ih hs

/-- A search by names is one by domains. -/
theorem find?_serves
    (h : List.Forall₂ (Serves server) sites blocks) {P : List ServerName → Bool}
    {p : Bytes → Bool} (hp : ∀ d, P [.exact d] = p d) :
    blocks.find? (fun block => P block.serverNames) =
      (sites.find? fun s => p s.req.domain).bind server := by
  induction h with
  | nil => rfl
  | cons hserves _ ih =>
      rw [List.find?_cons, List.find?_cons, hserves.2, hp, ih]
      split
      · exact hserves.1.symm
      · rfl

/-- Among servers of one exact name each, a host is sent to that of its site. -/
theorem selectServer_serves
    (h : List.Forall₂ (Serves server) sites blocks) (host : Bytes) :
    selectServer blocks host = (siteFor sites host).bind server := by
  have hexact : serverNamed blocks isExact (hostName host) =
      (sites.find? fun s => eqIgnoreCase s.req.domain (hostName host)).bind server :=
    find?_serves h (P := fun names => names.any fun n => isExact n && n.matches (hostName host))
      (p := fun d => eqIgnoreCase d (hostName host))
      fun d => by simp [isExact, ServerName.matches]
  have hno : ∀ P : List ServerName → Bool, (∀ d, P [.exact d] = false) →
      blocks.find? (fun block => P block.serverNames) = none := by
    intro P hP
    have hfind := find?_serves h (p := fun _ => false) hP
    rwa [List.find?_eq_none.mpr fun _ _ => Bool.false_ne_true] at hfind
  have hwildcard : serverNamed blocks isWildcard (hostName host) = none :=
    hno (fun names => names.any fun n => isWildcard n && n.matches (hostName host)) fun _ => rfl
  have hsuffix : serverNamed blocks isSuffix (hostName host) = none :=
    hno (fun names => names.any fun n => isSuffix n && n.matches (hostName host)) fun _ => rfl
  have hcatch : (blocks.find? fun block => block.serverNames.any fun n => n == .catchAll) = none :=
    hno (fun names => names.any fun n => n == .catchAll) fun _ => rfl
  have hhead : blocks.head? = sites.head?.bind server := by
    cases h with
    | nil => rfl
    | cons hserves _ => exact hserves.1.symm
  unfold selectServer siteFor
  dsimp only
  rw [hexact, hwildcard, hsuffix, hcatch, hhead]
  cases hfind : sites.find? fun s => eqIgnoreCase s.req.domain (hostName host) with
  | none => rfl
  | some s =>
      obtain ⟨block, hblock⟩ := exists_serves h (List.mem_of_find?_eq_some hfind)
      rw [Option.bind_some, hblock]
      simp [hblock]

theorem mem_of_siteFor
    {host : Bytes} {s : Site} (h : siteFor sites host = some s) :
    s ∈ sites := by
  unfold siteFor at h
  rcases Option.or_eq_some_iff.mp h with hfind | ⟨-, hhead⟩
  · exact List.mem_of_find?_eq_some hfind
  · exact List.mem_of_head? hhead

theorem exists_siteFor
    (h : sites ≠ []) (host : Bytes) :
    ∃ s, siteFor sites host = some s := by
  obtain ⟨first, rest, rfl⟩ := List.exists_cons_of_ne_nil h
  unfold siteFor
  cases (first :: rest).find? fun s => eqIgnoreCase s.req.domain (hostName host) with
  | none => exact ⟨first, rfl⟩
  | some s => exact ⟨s, rfl⟩

theorem selectServer_singleton
    (block : ServerBlock) (host : Bytes) :
    selectServer [block] host = some block := by
  obtain ⟨chosen, hchosen⟩ := Option.isSome_iff_exists.mp (selectServer_isSome block [] host)
  rw [hchosen, List.mem_singleton.mp (selectServer_mem hchosen)]

/-- Two orders of sites agree on a host that they have the same sites for. -/
theorem find?_eq_of_order
    {sites' : List Site} {path : Site → Bytes} {p : Site → Bool}
    (hsorted : (sites.map path).Pairwise (· < ·)) (hsorted' : (sites'.map path).Pairwise (· < ·))
    (hsame : ∀ s, p s = true → (s ∈ sites ↔ s ∈ sites')) :
    sites.find? p = sites'.find? p := by
  have hirrefl : Std.Irrefl fun a b : Site => path a < path b := ⟨fun a => List.lt_irrefl _⟩
  have hantisymm : Std.Antisymm fun a b : Site => path a < path b :=
    ⟨fun a b hab hba => absurd (List.lt_trans hab hba) (List.lt_irrefl _)⟩
  have hfilter : sites.filter p = sites'.filter p := by
    refine ((List.pairwise_map.mp hsorted).filter p).eq_of_mem_iff
      ((List.pairwise_map.mp hsorted').filter p) fun s => ?_
    rw [List.mem_filter, List.mem_filter]
    constructor
    · rintro ⟨hs, hp⟩
      exact ⟨(hsame s hp).mp hs, hp⟩
    · rintro ⟨hs, hp⟩
      exact ⟨(hsame s hp).mpr hs, hp⟩
  rw [← List.head?_filter, hfilter, List.head?_filter]

end Choice

/-! ### The files of the hosted sites -/

/-- The names that the machine gives are plain ones. -/
structure CreateEnv.Plain (env : CreateEnv) : Prop where
  names : ∀ dir, ∀ name ∈ env.listDir dir, Unbroken name
  configDir : IsPlain env.ssl.configDir

/-- What a creation must be like for its site to be loaded. -/
def Loadable (lib : Libraries) : Op → Prop
  | .create env req => env.Plain ∧ (req.siteType = .proxy → TargetAccepted lib req.upstream)
  | .delete _ _ => True

/-- The files that a configuration can include are those of the store. -/
structure Shows (files : ConfigFiles) (dir pattern : Bytes) (disk : Disk) : Prop where
  listed : (files.glob pattern).Perm (disk.confs.keys.map (PathText.join dir))
  read : ∀ name text, disk.confs.lookup name = some text →
    files.read (PathText.join dir name) = some text

/-- A run whose sites can be loaded, with the files that it leaves. -/
structure Installed (lib : Libraries) (files : ConfigFiles) (dir pattern : Bytes)
    (ops : List Op) : Prop where
  load : ∀ op ∈ ops, Loadable lib op
  shows : Shows files dir pattern (ops.foldl step Disk.empty)
  room : 3 * (ops.foldl host ∅).keys.length ≤ Limits.maxServerBlocks

/-- A configuration whose http block includes the files of a pattern. -/
def includingText (pattern : Bytes) : Bytes :=
  ascii "http \x7b\n    include " ++ (pattern ++ ascii ";\n\x7d\n")

section Files

variable {lib : Libraries} {env : CreateEnv} {req : SiteRequest} {a b : Bytes}

theorem unbroken_append
    (ha : Unbroken a) (hb : Unbroken b) :
    Unbroken (a ++ b) := by
  intro c hc
  rcases List.mem_append.mp hc with hc | hc
  · exact ha c hc
  · exact hb c hc

theorem phpVersion_unbroken
    {ver : Bytes} (h : isValidPhpVersion ver = true) :
    Unbroken ver := by
  have hdull : ∀ c : UInt8, (isAsciiDigit c || c == 46) = true → endsWord c = false :=
    forall_byte (by decide +kernel)
  unfold isValidPhpVersion at h
  rw [Bool.and_eq_true, List.all_eq_true] at h
  exact fun c hc => hdull c (h.2 c hc)

/-- The socket of a site is a plain name as well. -/
theorem phpSocket_unbroken
    (henv : env.Plain) {version : Option Bytes} (h : version.all isValidPhpVersion = true) :
    Unbroken (phpSocket env version) := by
  cases version with
  | none =>
      unfold phpSocket
      cases hfound : detectPhpSocket env.listDir with
      | none => exact (by decide : Unbroken (ascii "/run/php/php8.2-fpm.sock"))
      | some socket =>
          obtain ⟨dir, hdir, hsome⟩ := List.exists_of_findSome?_eq_some hfound
          obtain ⟨name, hname, rfl⟩ := Option.map_eq_some_iff.mp hsome
          have hplain : Unbroken dir := by
            simp only [List.mem_cons, List.not_mem_nil, or_false] at hdir
            rcases hdir with rfl | rfl <;> decide
          exact unbroken_append hplain (unbroken_append (by decide)
            (henv.names dir name (List.mem_of_find?_eq_some hname)))
  | some ver =>
      have hver := phpVersion_unbroken h
      have hsocket : ∀ front : Bytes, Unbroken front →
          Unbroken (front ++ (ver ++ ascii "-fpm.sock")) :=
        fun front hfront => unbroken_append hfront (unbroken_append hver (by decide))
      unfold phpSocket
      dsimp only
      generalize hfound : List.find? env.present _ = found
      cases found with
      | none => exact hsocket _ (by decide)
      | some socket =>
          have hmem := List.mem_of_find?_eq_some hfound
          simp only [List.mem_cons, List.not_mem_nil, or_false] at hmem
          rcases hmem with rfl | rfl | rfl
          · exact hsocket _ (by decide)
          · exact hsocket _ (by decide)
          · exact unbroken_append (by decide) (unbroken_append hver (hsocket _ (by decide)))

/-- A site that is created is read as it is meant. -/
theorem accepted_of_creates
    (hcreates : Creates env req) (hload : Loadable lib (.create env req)) :
    Site.Accepted lib ⟨req, phpSocket env req.phpVersion, env.ssl⟩ where
  valid := hcreates.valid
  socket := phpSocket_unbroken hload.1 (validate_ok_iff.mp hcreates.valid).2.1
  configDir := hload.1.configDir
  target := hload.2

theorem tokenize_includingText
    {pattern : Bytes} (h : IsPlain pattern) :
    tokenize (includingText pattern) = includingTokens pattern := by
  have hopen : WholeTokens (ascii "http \x7b\n    include ")
      [.word (ascii "http"), .openBrace, .word (ascii "include")] :=
    wholeTokens_ofList (by decide)
  have hclose : WholeTokens (ascii ";\n\x7d\n") [.semicolon, .closeBrace] := by decide
  exact (hopen.word h hclose rfl).tokenize_eq

end Files

/-! ### The configuration after a run -/

section Runs

variable {lib : Libraries} {files : ConfigFiles} {depth : Nat} {path dir pattern : Bytes}
variable {php assets : Regex} {ops : List Op}

/-- The path of the file of a site. -/
def sitePath (dir : Bytes) (s : Site) : Bytes :=
  PathText.join dir (confName s.req.domain)

/-- The sites that are hosted after a run, in the order of their files. -/
structure InOrder (files : ConfigFiles) (dir pattern : Bytes) (ops : List Op)
    (sites : List Site) : Prop where
  paths : sites.map (sitePath dir) = files.glob pattern
  hosted : ∀ s, s ∈ sites ↔ (ops.foldl host ∅).lookup s.req.domain = some s

theorem loaded_sites
    (hload : ∀ op ∈ ops, Loadable lib op) {domain : Bytes} {s : Site}
    (h : (ops.foldl host ∅).lookup domain = some s) :
    s.req.domain = domain ∧ s.Accepted lib :=
  run_host (fun _ _ hlookup => by simp at hlookup)
    (fun _ _ hmem hcreates => accepted_of_creates hcreates (hload _ hmem)) domain s h

/-- A directory that shows the files lists the hosted sites in some order. -/
theorem exists_inOrder
    (h : Installed lib files dir pattern ops) :
    ∃ sites, InOrder files dir pattern ops sites ∧
      sites.length = (ops.foldl host ∅).keys.length := by
  have hconfs : (ops.foldl step Disk.empty).confs = confsOf (ops.foldl host ∅) :=
    run_confs rfl ops
  have hlisted := h.shows.listed
  rw [hconfs, confsOf, Table.keys_rename, AList.keys, List.keys, List.map_map, List.map_map]
    at hlisted
  obtain ⟨entries, hpaths, hperm⟩ : Relation.Comp (fun a b => a = List.map _ b) List.Perm
      (files.glob pattern) (ops.foldl host ∅).entries := by
    rw [List.eq_map_comp_perm]
    exact hlisted
  have hown : ∀ e ∈ entries, (ops.foldl host ∅).lookup e.1 = some e.2 :=
    fun e he => AList.mem_lookup_iff.mpr (hperm.mem_iff.mp he)
  refine ⟨entries.map Sigma.snd, ⟨?_, fun s => ?_⟩, ?_⟩
  · rw [hpaths, List.map_map]
    refine List.map_congr_left fun e he => ?_
    change sitePath dir e.2 = PathText.join dir (confName e.1)
    rw [sitePath, (loaded_sites h.load (hown e he)).1]
  · constructor
    · intro hs
      obtain ⟨e, he, rfl⟩ := List.mem_map.mp hs
      rw [(loaded_sites h.load (hown e he)).1]
      exact hown e he
    · intro hs
      exact List.mem_map.mpr ⟨⟨s.req.domain, s⟩,
        hperm.mem_iff.mpr (AList.mem_lookup_iff.mp hs), rfl⟩
  · rw [List.length_map, hperm.length_eq, AList.keys, List.keys, List.length_map]

/-- The hosted sites are loaded, and hosts are sent to them. -/
theorem exists_loaded
    (h : Installed lib files dir (ConfigFiles.fullPattern path pattern) ops)
    (hpattern : IsPlain pattern) (depth : Nat)
    (hphp : lib.compileRegex phpPattern = some php)
    (hassets : lib.compileRegex (ascii "(?i)" ++ assetsPattern) = some assets) :
    ∃ sites servers, InOrder files dir (ConfigFiles.fullPattern path pattern) ops sites ∧
      parseRoot lib files depth path (tokenize (includingText pattern)) =
        .ok (serversConfig servers) ∧
      (∀ host, selectServer servers host =
        (siteFor sites host).bind fun s => siteServer lib php assets s.req s.phpSocket) ∧
      ∀ s ∈ sites, ∃ server, siteServer lib php assets s.req s.phpSocket = some server := by
  have hconfs : (ops.foldl step Disk.empty).confs = confsOf (ops.foldl host ∅) :=
    run_confs rfl ops
  obtain ⟨sites, horder, hlength⟩ := exists_inOrder h
  have haccepted : ∀ s ∈ sites, s.Accepted lib :=
    fun s hs => (loaded_sites h.load ((horder.hosted s).mp hs)).2
  obtain ⟨groups, held, hrepeats, hheads, hbodies, hread, hcount⟩ :=
    exists_groups haccepted hphp hassets
  -- the file of a site has its text
  have hfile : ∀ s ∈ sites, ∀ bodies, HasBodies s bodies →
      HoldsBodies files (sitePath dir s) bodies := by
    intro s hs bodies hhas
    refine ⟨s.text, h.shows.read (confName s.req.domain) s.text ?_, hhas.tokenize_eq⟩
    rw [hconfs, confsOf, Table.lookup_rename, (horder.hosted s).mp hs]
    rfl
  have hheld : List.Forall₂ (HoldsBodies files)
      (files.glob (ConfigFiles.fullPattern path pattern)) held := by
    rw [← horder.paths, List.forall₂_map_left_iff]
    exact ((List.forall₂_and_left _ _).mpr ⟨fun s hs => hs, hbodies⟩).imp
      fun s bodies h => hfile s h.1 bodies h.2
  have hserves : List.Forall₂ (Serves fun s => siteServer lib php assets s.req s.phpSocket) sites
      (groups.map Prod.fst) := by
    have heq := hheads.symm
    rw [← List.forall₂_eq_eq_eq, List.forall₂_map_left_iff, List.forall₂_map_right_iff] at heq
    rw [List.forall₂_map_right_iff]
    exact heq.imp fun s g h => ⟨h, siteServer_names h⟩
  refine ⟨sites, allBlocks groups, horder, ?_, fun host => ?_,
    fun s hs => exists_serves hserves hs⟩
  · rw [tokenize_includingText hpattern]
    refine parseRoot_including hheld hread (hcount.trans ?_)
    rw [hlength]
    exact h.room
  · rw [selectServer_allBlocks hrepeats, selectServer_serves hserves]

theorem InOrder.exists_mem
    {sites : List Site} {domain : Bytes} (h : InOrder files dir pattern ops sites)
    (hload : ∀ op ∈ ops, Loadable lib op) (hdomain : domain ∈ (ops.foldl host ∅).keys) :
    ∃ s ∈ sites, s.req.domain = domain := by
  obtain ⟨s, hs⟩ := Option.isSome_iff_exists.mp (AList.lookup_isSome.mpr hdomain)
  have hown := (loaded_sites hload hs).1
  refine ⟨s, (h.hosted s).mpr ?_, hown⟩
  rw [hown]
  exact hs

theorem servers_ne_nil
    {server : Site → Option ServerBlock} {sites : List Site} {servers : List ServerBlock} {s : Site}
    (hselect : ∀ host, selectServer servers host = (siteFor sites host).bind server)
    (hserver : ∀ s ∈ sites, ∃ block, server s = some block) (hs : s ∈ sites) :
    servers ≠ [] := by
  obtain ⟨chosen, hchosen⟩ := exists_siteFor (List.ne_nil_of_mem hs) []
  obtain ⟨block, hblock⟩ := hserver chosen (mem_of_siteFor hchosen)
  have hsome : selectServer servers [] = some block := by
    rw [hselect, hchosen]
    exact hblock
  exact List.ne_nil_of_mem (selectServer_mem hsome)

end Runs

/-! ### Examples -/

section Examples

def exampleDir : Bytes :=
  ascii "/etc/runnginx/sites-enabled"

/-- The pattern of the files of the sites. -/
def examplePattern : Bytes :=
  ascii "/etc/runnginx/sites-enabled/*.conf"

/-- The files that a run leaves. -/
def filesOf (ops : List Op) : ConfigFiles where
  glob _ := (ops.foldl step Disk.empty).confs.keys.map (PathText.join exampleDir)
  read entry := (PathText.fileName entry).bind fun name =>
    (ops.foldl step Disk.empty).confs.lookup name

theorem installed_plainSites
    (domains : List Bytes) (pattern : Bytes)
    (hnames : ∀ name ∈ ((domains.map plainSite).foldl step Disk.empty).confs.keys,
      PathText.fileName (PathText.join exampleDir name) = some name)
    (hroom : 3 * ((domains.map plainSite).foldl host ∅).keys.length ≤ Limits.maxServerBlocks) :
    Installed siteLibrary (filesOf (domains.map plainSite)) exampleDir pattern
      (domains.map plainSite) where
  load := by
    have hdir : IsPlain (ascii "/etc/runnginx") := ⟨by decide, _, _, rfl, by decide, by decide⟩
    intro op hop
    obtain ⟨domain, -, rfl⟩ := List.mem_map.mp hop
    exact ⟨⟨fun _ _ h => absurd h List.not_mem_nil, hdir⟩, fun h => by cases h⟩
  shows :=
    ⟨.refl _, fun name text hlookup => by
      have hmem : name ∈ ((domains.map plainSite).foldl step Disk.empty).confs.keys :=
        AList.lookup_isSome.mp (Option.isSome_of_eq_some hlookup)
      change (PathText.fileName (PathText.join exampleDir name)).bind _ = some text
      rw [hnames name hmem]
      exact hlookup⟩
  room := hroom

end Examples

end Sites
end RunNginx
