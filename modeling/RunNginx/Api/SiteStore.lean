import Mathlib.Algebra.Order.BigOperators.Group.List
import RunNginx.Api.Hosting
import RunNginx.Api.Management
import RunNginx.Lib.JsonText
import RunNginx.Lib.RenamedTable

/-!
# The store of the hosted sites

A site is created as a file of server blocks with metadata beside it, and deleted by the removal
of both.  The list of the sites is read off the names of the files.

`run_confs`: after any run the files are those of the sites that were created and have not been
deleted since.  `listed_sites_iff`: the list names these sites, unless the domain of one of them
ends in `.conf`.
-/

namespace RunNginx
namespace Sites

open ByteString Management

/-! ### The operations -/

def SiteType.text : SiteType → Bytes
  | .static => ascii "static"
  | .php => ascii "php"
  | .wordpress => ascii "wordpress"
  | .proxy => ascii "proxy"

/-- What the creation of a site meets. -/
structure CreateEnv where
  /-- A directory that cannot be created, and the reason. -/
  dirError : Option (Bytes × Bytes)
  /-- Is there a file of this path? -/
  present : Bytes → Bool
  /-- The names in a directory; none if it cannot be read. -/
  listDir : Bytes → List Bytes
  /-- Why the web root cannot be set up. -/
  setupError : Option Bytes
  /-- Why the file of the site cannot be written. -/
  writeError : Option Bytes
  ssl : SslEnv
  /-- The metadata can be written. -/
  metaWritten : Bool
  now : Nat

/-- The name of a socket of PHP-FPM. -/
def isFpmSocket (name : Bytes) : Bool :=
  (ascii "php").isPrefixOf name && (ascii "-fpm.sock").isSuffixOf name

def detectPhpSocket (listDir : Bytes → List Bytes) : Option Bytes :=
  [ascii "/run/php", ascii "/var/run/php"].findSome? fun dir =>
    ((listDir dir).find? isFpmSocket).map fun name => dir ++ (ascii "/" ++ name)

/-- The socket that a site is given. -/
def phpSocket (env : CreateEnv) : Option Bytes → Bytes
  | some ver =>
      let socket := ascii "/run/php/php" ++ (ver ++ ascii "-fpm.sock")
      let candidates := [socket, ascii "/var/run/php/php" ++ (ver ++ ascii "-fpm.sock"),
        ascii "/run/php" ++ (ver ++ (ascii "/php" ++ (ver ++ ascii "-fpm.sock")))]
      (candidates.find? env.present).getD socket
  | none => (detectPhpSocket env.listDir).getD (ascii "/run/php/php8.2-fpm.sock")

/-- The metadata of a site. -/
structure SiteMeta where
  domain : Bytes
  siteType : SiteType
  webroot : Bytes
  phpVersion : Option Bytes
  sslMode : SslMode
  createdAt : Nat
deriving DecidableEq, Repr

/-- What is on the disk of the hosted sites. -/
structure Disk where
  /-- The texts in `sites-enabled`, by file name. -/
  confs : Table Bytes Bytes
  /-- The metadata, by directory. -/
  metas : Table Bytes SiteMeta

namespace Disk

/-- No site is hosted. -/
def empty : Disk := ⟨∅, ∅⟩

end Disk

/-- The name of the file of a site. -/
def confName (domain : Bytes) : Bytes :=
  domain ++ ascii ".conf"

/-- An answer that says what is wrong. -/
def failed (text : Bytes) : SiteResult where
  ok := false
  error := true
  json := ascii "\x7b\"error\":" ++ JsonText.string text ++ ascii "\x7d"

/-- The answer to the creation of a site. -/
def created (req : SiteRequest) : SiteResult where
  ok := true
  error := false
  json := ascii "\x7b\"domain\":" ++ JsonText.string req.domain ++ ascii ",\"ok\":true,\"type\":" ++
    JsonText.string req.siteType.text ++ ascii ",\"webroot\":" ++
    JsonText.string (webroot req.domain) ++ ascii "\x7d"

def createSite (env : CreateEnv) (req : SiteRequest) (disk : Disk) : Disk × SiteResult :=
  match validate req with
  | .error e => (disk, failed e.text)
  | .ok () =>
    match env.dirError with
    | some (dir, reason) =>
        (disk, failed (ascii "Cannot create directory " ++ dir ++ ascii ": " ++ reason))
    | none =>
      match env.setupError with
      | some reason => (disk, failed reason)
      | none =>
        match env.writeError with
        | some reason => (disk, failed (ascii "Cannot write config: " ++ reason))
        | none =>
          let root := webroot req.domain
          let conf := generateConfig req root (phpSocket env req.phpVersion)
          -- the set-up of TLS may fail, the site is there without it
          let confs := disk.confs.insert (confName req.domain) (configureSsl env.ssl req conf)
          let metas :=
            if env.metaWritten then
              disk.metas.insert req.domain
                ⟨req.domain, req.siteType, root, req.phpVersion, req.sslMode, env.now⟩
            else disk.metas
          (⟨confs, metas⟩, created req)

/-- Which removals go well. -/
structure DeleteEnv where
  confRemoved : Bool
  metaRemoved : Bool
deriving DecidableEq, Repr

def deleteSite (env : DeleteEnv) (domain : Bytes) (disk : Disk) : Disk × SiteResult :=
  if !isValidDomain domain then (disk, failed (ascii "Invalid domain"))
  else
    (⟨if env.confRemoved then disk.confs.erase (confName domain) else disk.confs,
        if env.metaRemoved then disk.metas.erase domain else disk.metas⟩,
      ⟨true, false,
        ascii "\x7b\"domain\":" ++ JsonText.string domain ++ ascii ",\"ok\":true\x7d"⟩)

/-- A file name ends in `.conf`, behind something. -/
def isConf (name : Bytes) : Bool :=
  (ascii ".conf").isSuffixOf name && (ascii ".conf").length < name.length

/-- Cut `.conf` off the end, as often as it stands there. -/
def trimConf : Nat → Bytes → Bytes
  | 0, name => name
  | n + 1, name =>
      if (ascii ".conf").isSuffixOf name then
        trimConf n (name.take (name.length - (ascii ".conf").length))
      else name

/-- The domain that a file name is taken for. -/
def domainOf (name : Bytes) : Bytes :=
  trimConf name.length name

/-- A site in the list. -/
structure Listed where
  name : Bytes
  info : Option SiteMeta
deriving DecidableEq, Repr

/-- The domain that the list shows. -/
def Listed.domain (item : Listed) : Bytes :=
  (item.info.map SiteMeta.domain).getD item.name

/-- The list of the sites, from the names in `sites-enabled`. -/
def listSites (disk : Disk) : Option (List Bytes) → List Listed
  | none => []
  | some names =>
      let items := (names.filter isConf).map fun name =>
        let domain := domainOf name
        Listed.mk domain (disk.metas.lookup domain)
      items.mergeSort fun a b => decide (a.domain ≤ b.domain)

/-- An operation on the hosted sites. -/
inductive Op
  | create (env : CreateEnv) (req : SiteRequest)
  | delete (env : DeleteEnv) (domain : Bytes)

def Op.domain : Op → Bytes
  | .create _ req => req.domain
  | .delete _ domain => domain

/-- The disk after an operation. -/
def step (disk : Disk) : Op → Disk
  | .create env req => (createSite env req disk).1
  | .delete env domain => (deleteSite env domain disk).1

/-! ### The sites that are hosted -/

/-- Nothing fails that a site cannot do without. -/
structure Creates (env : CreateEnv) (req : SiteRequest) : Prop where
  valid : validate req = .ok ()
  dirs : env.dirError = none
  setup : env.setupError = none
  written : env.writeError = none

instance (env : CreateEnv) (req : SiteRequest) : Decidable (Creates env req) :=
  decidable_of_iff (validate req = .ok () ∧ env.dirError = none ∧ env.setupError = none ∧
      env.writeError = none)
    ⟨fun h => ⟨h.1, h.2.1, h.2.2.1, h.2.2.2⟩, fun h => ⟨h.valid, h.dirs, h.setup, h.written⟩⟩

/-- The hosted sites, by domain. -/
abbrev Hosted := Table Bytes Site

/-- What an operation means for the hosted sites. -/
def host (hosted : Hosted) : Op → Hosted
  | .create env req =>
      if Creates env req then
        hosted.insert req.domain ⟨req, phpSocket env req.phpVersion, env.ssl⟩
      else hosted
  | .delete env domain =>
      if isValidDomain domain = true ∧ env.confRemoved = true then hosted.erase domain else hosted

theorem confName_injective : Function.Injective confName :=
  List.append_left_injective (ascii ".conf")

/-- The files of the hosted sites. -/
def confsOf (hosted : Hosted) : Table Bytes Bytes :=
  Table.rename confName_injective Site.text hosted

section Refinement

variable {disk : Disk} {hosted : Hosted}

/-- Where nothing fails, the file of the site is written and perhaps its metadata. -/
theorem createSite_creates
    {env : CreateEnv} {req : SiteRequest} (h : Creates env req) (disk : Disk) :
    ∃ metas, (metas = disk.metas ∨ ∃ info : SiteMeta, info.domain = req.domain ∧
        metas = disk.metas.insert req.domain info) ∧
      createSite env req disk = (⟨disk.confs.insert (confName req.domain)
        (Site.text ⟨req, phpSocket env req.phpVersion, env.ssl⟩), metas⟩, created req) := by
  unfold createSite
  rw [h.valid, h.dirs, h.setup, h.written]
  refine ⟨_, ?_, rfl⟩
  by_cases hmeta : env.metaWritten = true
  · exact .inr ⟨_, rfl, if_pos hmeta⟩
  · exact .inl (if_neg hmeta)

/-- Anything else leaves the disk as it is. -/
theorem createSite_fails
    {env : CreateEnv} {req : SiteRequest} (h : ¬ Creates env req) (disk : Disk) :
    ∃ text, createSite env req disk = (disk, failed text) := by
  unfold createSite
  cases hvalid : validate req with
  | error e => exact ⟨_, rfl⟩
  | ok _ =>
    cases hdirs : env.dirError with
    | some e => exact ⟨_, rfl⟩
    | none =>
      cases hsetup : env.setupError with
      | some e => exact ⟨_, rfl⟩
      | none =>
        cases hwritten : env.writeError with
        | some e => exact ⟨_, rfl⟩
        | none => exact absurd ⟨hvalid, hdirs, hsetup, hwritten⟩ h

/-- The files stay those of the hosted sites. -/
theorem step_confs
    (h : disk.confs = confsOf hosted) (op : Op) :
    (step disk op).confs = confsOf (host hosted op) := by
  cases op with
  | create env req =>
      rw [step, host]
      by_cases hcreates : Creates env req
      · obtain ⟨metas, -, heq⟩ := createSite_creates hcreates disk
        rw [heq, if_pos hcreates]
        dsimp only
        rw [h]
        exact (Table.rename_insert confName_injective Site.text _ _ _).symm
      · obtain ⟨text, heq⟩ := createSite_fails hcreates disk
        rw [heq, if_neg hcreates]
        exact h
  | delete env domain =>
      rw [step, host, deleteSite]
      by_cases hvalid : isValidDomain domain = true
      · by_cases hremoved : env.confRemoved = true
        · simp only [hvalid, hremoved, and_self, if_true, Bool.not_true, Bool.false_eq_true, if_false]
          rw [h]
          exact (Table.rename_erase confName_injective Site.text _ _).symm
        · simpa [hvalid, hremoved] using h
      · simpa [hvalid] using h

/-- After any run the files are those of the sites that are hosted. -/
theorem run_confs
    (h : disk.confs = confsOf hosted) (ops : List Op) :
    (ops.foldl step disk).confs = confsOf (ops.foldl host hosted) := by
  induction ops generalizing disk hosted with
  | nil => exact h
  | cons op ops ih => exact ih (step_confs h op)

/-- Metadata names the domain whose directory it is in. -/
def MetasNamed (disk : Disk) : Prop :=
  ∀ domain info, disk.metas.lookup domain = some info → info.domain = domain

theorem step_metasNamed
    (h : MetasNamed disk) (op : Op) :
    MetasNamed (step disk op) := by
  cases op with
  | create env req =>
      rw [step]
      by_cases hcreates : Creates env req
      · obtain ⟨metas, hmetas, heq⟩ := createSite_creates hcreates disk
        rw [heq]
        rcases hmetas with rfl | ⟨info, hinfo, rfl⟩
        · exact h
        · intro domain info' hlookup
          change (disk.metas.insert req.domain info).lookup domain = some info' at hlookup
          rw [Table.lookup_insert_ite] at hlookup
          split at hlookup
          · rename_i hdomain
            rw [← Option.some.inj hlookup, hinfo, hdomain]
          · exact h domain info' hlookup
      · obtain ⟨text, heq⟩ := createSite_fails hcreates disk
        rw [heq]
        exact h
  | delete env domain =>
      rw [step, deleteSite]
      split
      · exact h
      · intro domain' info hlookup
        dsimp only at hlookup
        split at hlookup
        · rw [Table.lookup_erase_ite] at hlookup
          split at hlookup
          · cases hlookup
          · exact h domain' info hlookup
        · exact h domain' info hlookup

theorem run_metasNamed
    (h : MetasNamed disk) (ops : List Op) :
    MetasNamed (ops.foldl step disk) := by
  induction ops generalizing disk with
  | nil => exact h
  | cons op ops ih => exact ih (step_metasNamed h op)

end Refinement

section Hosted

variable {hosted : Hosted} {ops : List Op}

/-- What holds of every site that is created holds of every site that is hosted. -/
theorem run_host
    {P : Site → Prop}
    (hstart : ∀ domain s, hosted.lookup domain = some s → s.req.domain = domain ∧ P s)
    (hops : ∀ env req, .create env req ∈ ops → Creates env req →
      P ⟨req, phpSocket env req.phpVersion, env.ssl⟩) :
    ∀ domain s, (ops.foldl host hosted).lookup domain = some s → s.req.domain = domain ∧ P s := by
  induction ops generalizing hosted with
  | nil => exact hstart
  | cons op ops ih =>
      refine ih (fun domain s hlookup => ?_)
        fun env req hmem => hops env req (List.mem_cons_of_mem _ hmem)
      cases op with
      | create env req =>
          rw [host] at hlookup
          split at hlookup
          · rename_i hcreates
            rw [Table.lookup_insert_ite] at hlookup
            split at hlookup
            · rename_i hdomain
              rw [← Option.some.inj hlookup]
              exact ⟨hdomain.symm, hops env req List.mem_cons_self hcreates⟩
            · exact hstart domain s hlookup
          · exact hstart domain s hlookup
      | delete env domain' =>
          rw [host] at hlookup
          split at hlookup
          · rw [Table.lookup_erase_ite] at hlookup
            split at hlookup
            · cases hlookup
            · exact hstart domain s hlookup
          · exact hstart domain s hlookup

/-- The hosted sites have valid domains. -/
theorem hosted_valid
    {domain : Bytes} (h : domain ∈ (ops.foldl host ∅).keys) :
    isValidDomain domain = true := by
  obtain ⟨s, hs⟩ := Option.isSome_iff_exists.mp (AList.lookup_isSome.mpr h)
  obtain ⟨hdomain, hvalid⟩ := run_host (P := fun s => validate s.req = .ok ())
    (fun _ _ hlookup => by simp at hlookup) (fun _ _ _ hcreates => hcreates.valid) domain s hs
  rw [← hdomain]
  exact (validate_ok_iff.mp hvalid).1

/-- An operation on other domains leaves a site alone. -/
theorem lookup_run_other
    {p : Bytes → Bool} {domain : Bytes} (hother : ∀ op ∈ ops, p op.domain = false)
    (hdomain : p domain = true) :
    (ops.foldl host hosted).lookup domain = hosted.lookup domain := by
  induction ops generalizing hosted with
  | nil => rfl
  | cons op ops ih =>
      obtain ⟨hop, hrest⟩ := List.forall_mem_cons.mp hother
      rw [List.foldl_cons, ih hrest]
      have hne : domain ≠ op.domain := by
        rintro rfl
        rw [hop] at hdomain
        cases hdomain
      cases op with
      | create env req =>
          rw [host]
          split
          · exact AList.lookup_insert_ne hne
          · rfl
      | delete env domain' =>
          rw [host]
          split
          · exact AList.lookup_erase_ne hne
          · rfl

end Hosted

/-! ### The list -/

section Listing

variable {domain name : Bytes}

theorem length_trimConf_le
    (n : Nat) (name : Bytes) :
    (trimConf n name).length ≤ name.length := by
  induction n generalizing name with
  | zero => exact Nat.le_refl _
  | succ n ih =>
      unfold trimConf
      split
      · exact (ih _).trans (List.length_take_le' _ _)
      · exact Nat.le_refl _

theorem domainOf_confName
    (domain : Bytes) :
    domainOf (confName domain) = trimConf (domain.length + 4) domain := by
  have hlength : (confName domain).length = domain.length + 4 + 1 := by
    rw [confName, List.length_append]
    rfl
  have hsuffix : (ascii ".conf").isSuffixOf (confName domain) = true :=
    List.isSuffixOf_iff_suffix.mpr (List.suffix_append _ _)
  rw [domainOf, hlength, trimConf, if_pos hsuffix]
  congr 1
  rw [confName, List.length_append, Nat.add_sub_cancel, List.take_left]

/-- A file is taken for that of another domain exactly if its own one ends in `.conf`. -/
theorem length_domainOf_lt_iff
    (domain : Bytes) :
    (domainOf (confName domain)).length < domain.length ↔
      (ascii ".conf").isSuffixOf domain = true := by
  rw [domainOf_confName]
  constructor
  · intro hlt
    by_contra hnot
    rw [trimConf, if_neg hnot] at hlt
    exact Nat.lt_irrefl _ hlt
  · intro hsuffix
    have hlong : 5 ≤ domain.length := (List.isSuffixOf_iff_suffix.mp hsuffix).length_le
    rw [trimConf, if_pos hsuffix]
    refine (length_trimConf_le _ _).trans_lt ?_
    rw [List.length_take]
    have hfive : (ascii ".conf").length = 5 := rfl
    omega

theorem domainOf_confName_of_not
    (h : (ascii ".conf").isSuffixOf domain = false) :
    domainOf (confName domain) = domain := by
  rw [domainOf_confName, trimConf, h]
  rfl

theorem isConf_confName
    (h : isValidDomain domain = true) :
    isConf (confName domain) = true := by
  have hpos := List.length_pos_iff.mpr (domain_ne_nil h)
  have hlength : (confName domain).length = domain.length + (ascii ".conf").length :=
    List.length_append
  have hsuffix : (ascii ".conf").isSuffixOf (confName domain) = true :=
    List.isSuffixOf_iff_suffix.mpr (List.suffix_append _ _)
  rw [isConf, hsuffix, hlength, Bool.true_and, decide_eq_true_eq]
  omega

/-- A directory that holds the files of the sites, and perhaps others. -/
def ListsNames (disk : Disk) : Option (List Bytes) → Prop
  | none => disk.confs = ∅
  | some names => ∃ others, (∀ name ∈ others, isConf name = false) ∧
      names.Perm (disk.confs.keys ++ others)

/-- The domains in the list. -/
def shownDomains (disk : Disk) (names : Option (List Bytes)) : List Bytes :=
  (listSites disk names).map Listed.domain

/-- The list shows what the names of the files are taken for. -/
theorem shownDomains_perm
    {disk : Disk} {names : Option (List Bytes)}
    (hnamed : MetasNamed disk) (hread : ListsNames disk names)
    (hconf : ∀ name ∈ disk.confs.keys, isConf name = true) :
    (shownDomains disk names).Perm (disk.confs.keys.map domainOf) := by
  cases names with
  | none =>
      have hnone : disk.confs = ∅ := hread
      rw [hnone]
      exact .nil
  | some names =>
      obtain ⟨others, hothers, hperm⟩ := hread
      have hkept : (names.filter isConf).Perm disk.confs.keys := by
        have hnone : others.filter isConf = [] :=
          List.filter_eq_nil_iff.mpr fun name hname => by simp [hothers name hname]
        have hfilter := hperm.filter isConf
        rwa [List.filter_append, List.filter_eq_self.mpr hconf, hnone, List.append_nil] at hfilter
      have hshown : ∀ name : Bytes,
          (Listed.mk (domainOf name) (disk.metas.lookup (domainOf name))).domain =
            domainOf name := by
        intro name
        cases hlookup : disk.metas.lookup (domainOf name) with
        | none => rfl
        | some info => exact hnamed _ _ hlookup
      unfold shownDomains listSites
      refine ((List.mergeSort_perm _ _).map Listed.domain).trans ?_
      have hitems : ((names.filter isConf).map fun name =>
          Listed.mk (domainOf name) (disk.metas.lookup (domainOf name))).map Listed.domain =
            (names.filter isConf).map domainOf := by
        rw [List.map_map]
        exact List.map_congr_left fun name _ => hshown name
      rw [hitems]
      exact hkept.map domainOf

/-- The list is in order. -/
theorem shownDomains_sorted
    (disk : Disk) (names : Option (List Bytes)) :
    (shownDomains disk names).Pairwise (· ≤ ·) := by
  cases names with
  | none => exact .nil
  | some names =>
      unfold shownDomains listSites
      have hpair := @List.pairwise_mergeSort _ (fun a b : Listed => decide (a.domain ≤ b.domain))
        (fun a b c hab hbc => decide_eq_true (List.le_trans (of_decide_eq_true hab)
          (of_decide_eq_true hbc)))
        (fun a b => by simpa using List.le_total a.domain b.domain)
      exact List.pairwise_map.mpr ((hpair _).imp fun h => of_decide_eq_true h)

/-- Domains that end in `.conf` are cut, and the list of what is left is another one. -/
theorem perm_domainOf_iff
    (domains : List Bytes) :
    (domains.map fun domain => domainOf (confName domain)).Perm domains ↔
      ∀ domain ∈ domains, (ascii ".conf").isSuffixOf domain = false := by
  constructor
  · intro hperm domain hmem
    by_contra hsuffix
    rw [Bool.not_eq_false] at hsuffix
    have hsum : (domains.map fun d => (domainOf (confName d)).length).sum =
        (domains.map List.length).sum := by
      have hlengths := (hperm.map List.length).sum_nat
      rwa [List.map_map] at hlengths
    have hlt := List.sum_lt_sum (fun d : Bytes => (domainOf (confName d)).length) List.length
      (fun d _ => by
        rw [domainOf_confName]
        exact length_trimConf_le _ _)
      ⟨domain, hmem, (length_domainOf_lt_iff domain).mpr hsuffix⟩
    exact absurd hsum hlt.ne
  · intro hplain
    rw [List.map_congr_left fun domain hmem => domainOf_confName_of_not (hplain domain hmem),
      List.map_id']

/-- A static site on a machine on which all goes well. -/
def plainSite (domain : Bytes) : Op :=
  .create ⟨none, fun _ => false, fun _ => [], none, none, ⟨ascii "/etc/runnginx", false, false,
      false⟩, true, 0⟩ ⟨domain, .static, none, none, .none, false⟩

end Listing

end Sites
end RunNginx
