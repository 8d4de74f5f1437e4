import RunNginx.Config.LocationOrder

/-!
# The order of directives in a server block

A server block is read like a location, one directive after the other, with a whole
location as one of its directives.  Directives of distinct names that edit one field are
those about the credentials, the TLS settings, the redirect to TLS and the two settings of
HSTS.  The credentials that `auth_basic` makes have no file, and of two directives that
write one field the last one counts.

`directive_order` puts the conditions for a location and for a server block together.
-/

namespace RunNginx
namespace ConfigParser

open ByteString Limits Parse Updates

/-! ### Fields of a server block -/

inductive ServerField
  | listen
  | serverNames
  | root
  | index
  | accessLog
  | clientMaxBodySize
  | addHeaders
  | limitReq
  | rewrites
  | authBasic
  | errorPages
  | returnDirective
  | tls
  | locations
  | sslRedirect
  | hstsMaxAge
  | hstsIncludeSubdomains
deriving DecidableEq

/-- The locations are counted as they are read, so the count goes with them. -/
def ServerField.Value : ServerField → Type
  | .listen => List ListenDirective
  | .serverNames => List ServerName
  | .root => Option Bytes
  | .index => List Bytes
  | .accessLog => Option AccessLog
  | .clientMaxBodySize => Option Nat
  | .addHeaders => List (Bytes × Bytes)
  | .limitReq => Option LimitReqRef
  | .rewrites => List RewriteRule
  | .authBasic => Option AuthBasicConfig
  | .errorPages => List ErrorPage
  | .returnDirective => Option ReturnDirective
  | .tls => Option TlsConfig
  | .locations => List LocationBlock × Nat
  | .sslRedirect => Bool
  | .hstsMaxAge => Option Nat
  | .hstsIncludeSubdomains => Bool

def ServerReader.read (st : ServerReader) : (f : ServerField) → f.Value
  | .listen => st.block.listen
  | .serverNames => st.block.serverNames
  | .root => st.block.root
  | .index => st.block.index
  | .accessLog => st.block.accessLog
  | .clientMaxBodySize => st.block.clientMaxBodySize
  | .addHeaders => st.block.addHeaders
  | .limitReq => st.block.limitReq
  | .rewrites => st.block.rewrites
  | .authBasic => st.block.authBasic
  | .errorPages => st.block.errorPages
  | .returnDirective => st.block.returnDirective
  | .tls => st.block.tls
  | .locations => (st.block.locations, st.locationCount)
  | .sslRedirect => st.block.sslRedirect
  | .hstsMaxAge => st.block.hstsMaxAge
  | .hstsIncludeSubdomains => st.block.hstsIncludeSubdomains

def ServerReader.write (st : ServerReader) : (f : ServerField) → f.Value → ServerReader
  | .listen, v => { st with block := { st.block with listen := v } }
  | .serverNames, v => { st with block := { st.block with serverNames := v } }
  | .root, v => { st with block := { st.block with root := v } }
  | .index, v => { st with block := { st.block with index := v } }
  | .accessLog, v => { st with block := { st.block with accessLog := v } }
  | .clientMaxBodySize, v => { st with block := { st.block with clientMaxBodySize := v } }
  | .addHeaders, v => { st with block := { st.block with addHeaders := v } }
  | .limitReq, v => { st with block := { st.block with limitReq := v } }
  | .rewrites, v => { st with block := { st.block with rewrites := v } }
  | .authBasic, v => { st with block := { st.block with authBasic := v } }
  | .errorPages, v => { st with block := { st.block with errorPages := v } }
  | .returnDirective, v => { st with block := { st.block with returnDirective := v } }
  | .tls, v => { st with block := { st.block with tls := v } }
  | .locations, v => ⟨{ st.block with locations := v.1 }, v.2⟩
  | .sslRedirect, v => { st with block := { st.block with sslRedirect := v } }
  | .hstsMaxAge, v => { st with block := { st.block with hstsMaxAge := v } }
  | .hstsIncludeSubdomains, v => { st with block := { st.block with hstsIncludeSubdomains := v } }

theorem ServerReader.read_write_self
    (st : ServerReader) (f : ServerField) (v : f.Value) :
    (st.write f v).read f = v := by
  cases f <;> rfl

theorem ServerReader.read_write_other
    (st : ServerReader) {f j : ServerField} (v : f.Value)
    (h : j ≠ f) :
    (st.write f v).read j = st.read j := by
  cases f <;> cases j <;> first | rfl | exact absurd rfl h

theorem ServerReader.read_injective : Function.Injective ServerReader.read := by
  intro st st' h
  have hf := congrFun h
  obtain ⟨⟨_, _, _, _, _, _, _, _, _, _, _, _, _, _, _, _, _⟩, _⟩ := st
  obtain ⟨⟨_, _, _, _, _, _, _, _, _, _, _, _, _, _, _, _, _⟩, _⟩ := st'
  rw [ServerReader.mk.injEq, ServerBlock.mk.injEq]
  exact ⟨⟨hf .listen, hf .serverNames, hf .root, hf .index,
    congrArg Prod.fst (hf .locations), hf .tls, hf .accessLog, hf .clientMaxBodySize,
    hf .errorPages, hf .addHeaders, hf .returnDirective, hf .limitReq, hf .rewrites,
    hf .authBasic, hf .sslRedirect, hf .hstsMaxAge, hf .hstsIncludeSubdomains⟩,
    congrArg Prod.snd (hf .locations)⟩

/-- A change of one field of a server block. -/
theorem edits_server
    {f : ServerField} {u : ServerReader → ServerReader} (φ : f.Value → f.Value)
    (hu : ∀ st : ServerReader, u st = st.write f (φ (st.read f))) :
    Edits ServerReader.read f fun st => some (u st) := by
  refine edits_some φ (fun st => ?_) fun st j hj => ?_
  · rw [hu, st.read_write_self]
  · rw [hu, st.read_write_other _ hj]

/-- The field each directive of a server block edits. -/
def serverFields : List (Bytes × ServerField) :=
  [(ascii "listen", .listen), (ascii "server_name", .serverNames), (ascii "root", .root),
    (ascii "index", .index), (ascii "access_log", .accessLog),
    (ascii "client_max_body_size", .clientMaxBodySize), (ascii "add_header", .addHeaders),
    (ascii "limit_req", .limitReq), (ascii "rewrite", .rewrites),
    (ascii "auth_basic", .authBasic), (ascii "auth_basic_user_file", .authBasic),
    (ascii "error_page", .errorPages), (ascii "return", .returnDirective),
    (ascii "ssl_certificate", .tls), (ascii "ssl_certificate_key", .tls),
    (ascii "ssl_protocols", .tls), (ascii "location", .locations),
    (ascii "ssl_redirect", .sslRedirect), (ascii "ssl-redirect", .sslRedirect),
    (ascii "hsts", .hstsMaxAge), (ascii "hsts_max_age", .hstsMaxAge),
    (ascii "hsts-max-age", .hstsMaxAge),
    (ascii "hsts_include_subdomains", .hstsIncludeSubdomains),
    (ascii "hsts-include-subdomains", .hstsIncludeSubdomains)]

/-- A directive of one word that changes one field of the block. -/
theorem edits_blockArg
    {f : ServerField} {u : Bytes → ServerBlock → ServerBlock} (φ : Bytes → f.Value → f.Value)
    (hu : ∀ v (st : ServerReader), onBlock u v st = st.write f (φ v (st.read f)))
    (args : List Bytes) :
    Edits ServerReader.read f (blockArg u args) :=
  edits_oneArg (fun v => edits_server (φ v) (hu v)) args

theorem serverShapes_edit : EditFields ServerReader.read serverShapes serverFields := by
  refine editFields_cons (edits_valueOfArgs fun d =>
      edits_server (f := .listen) (List.append · [d]) fun _ => rfl) ?_
  refine editFields_cons (fun args => edits_server (f := .serverNames)
      (List.append · (args.map parseServerName)) fun _ => rfl) ?_
  refine editFields_cons (edits_oneArg fun v => edits_check fun a =>
      edits_server (f := .root) (fun _ => some a) fun _ => rfl) ?_
  refine editFields_cons (fun args =>
      edits_server (f := .index) (fun _ => args) fun _ => rfl) ?_
  refine editFields_cons (edits_valueOfArgs fun log =>
      edits_server (f := .accessLog) (fun _ => some log) fun _ => rfl) ?_
  refine editFields_cons (edits_checkedArg fun n =>
      edits_server (f := .clientMaxBodySize) (fun _ => some n) fun _ => rfl) ?_
  refine editFields_cons (edits_valueOfArgs fun h =>
      edits_server (f := .addHeaders) (List.append · [h]) fun _ => rfl) ?_
  refine editFields_cons (fun args =>
      edits_server (f := .limitReq) (fun _ => parseLimitReq args) fun _ => rfl) ?_
  refine editFields_cons (edits_valueOfArgs fun rule =>
      edits_server (f := .rewrites) (List.append · [rule]) fun _ => rfl) ?_
  refine editFields_cons (edits_oneArg fun realm => ?_) ?_
  · by_cases hoff : realm = ascii "off"
    · simp only [onBlock, withRealm, if_pos hoff]
      exact edits_server (f := .authBasic) (fun a => a) fun _ => rfl
    · simp only [onBlock, withRealm, if_neg hoff]
      exact edits_server (f := .authBasic) (fun _ => some ⟨realm, []⟩) fun _ => rfl
  refine editFields_cons (edits_blockArg (f := .authBasic) (fun v a =>
      match a with
      | some auth => some { auth with userFile := v }
      | none => some ⟨ascii "Restricted", v⟩) fun _ _ => rfl) ?_
  refine editFields_cons (fun args => edits_server (f := .errorPages)
      (List.append · (parseErrorPage args).toList) fun _ => rfl) ?_
  refine editFields_cons (edits_valueOfArgs fun rd =>
      edits_server (f := .returnDirective) (fun _ => some rd) fun _ => rfl) ?_
  refine editFields_cons (edits_blockArg (f := .tls)
      (fun v (t : Option TlsConfig) => some { t.getD ⟨[], [], .tls12⟩ with certPath := v })
      fun _ _ => rfl) ?_
  refine editFields_cons (edits_blockArg (f := .tls)
      (fun v (t : Option TlsConfig) => some { t.getD ⟨[], [], .tls12⟩ with keyPath := v })
      fun _ _ => rfl) ?_
  refine editFields_cons (fun args => edits_server (f := .tls)
      (fun (t : Option TlsConfig) => some { t.getD ⟨[], [], .tls12⟩ with
        minVersion := if args.contains (ascii "TLSv1.2") then .tls12 else .tls13 })
      fun _ => rfl) ?_
  refine editFields_nested ?_
  refine editFields_cons (edits_blockArg (f := .sslRedirect) (fun v _ => isNotOff v)
      fun _ _ => rfl) ?_
  refine editFields_cons (edits_blockArg (f := .sslRedirect) (fun v _ => isNotOff v)
      fun _ _ => rfl) ?_
  refine editFields_cons (edits_oneArg fun v => ?_) ?_
  · by_cases hon : isNotOff v = true
    · simp only [onBlock, if_pos hon]
      exact edits_server (f := .hstsMaxAge) (fun _ => some 31536000) fun _ => rfl
    · simp only [onBlock, if_neg hon]
      exact edits_server (f := .hstsMaxAge) (fun age => age) fun _ => rfl
  refine editFields_cons (edits_blockArg (f := .hstsMaxAge)
      (fun v _ => Decimal.parseUnsigned Decimal.u64Bound v) fun _ _ => rfl) ?_
  refine editFields_cons (edits_blockArg (f := .hstsMaxAge)
      (fun v _ => Decimal.parseUnsigned Decimal.u64Bound v) fun _ _ => rfl) ?_
  refine editFields_cons (edits_blockArg (f := .hstsIncludeSubdomains) (fun v _ => isNotOff v)
      fun _ _ => rfl) ?_
  refine editFields_cons (edits_blockArg (f := .hstsIncludeSubdomains) (fun v _ => isNotOff v)
      fun _ _ => rfl) ?_
  exact .nil

/-! ### Locations as directives -/

section Location

variable {lib : Libraries}

/-- A location stays within the block it stands in. -/
theorem stays_parseLocation
    {k : Nat} :
    Stays (k + 1) (k + 1) (parseLocation lib) := by
  have hhead : Stays (k + 1) (k + 2) (parseLocationHead lib) :=
    stays_collectArgs.bind fun _ => stays_expectOpen.bind fun _ =>
      stays_of_nothing (nothing_ofExcept _)
  have hblock : ∀ st, Stays (k + 2) (k + 1)
      (parseBlock .location (locationDirectives lib) st) :=
    stays_parseBlock (locationDirectives_shapes lib)
      fun name _ _ hnested => absurd hnested (locationShapes_simple lib name)
  exact hhead.bind fun _ => (hblock _).bind fun _ => stays_of_nothing (nothing_pure _)

/-- A location is read off its directive and leaves what comes behind. -/
theorem reads_location_whole
    {d : Directive} {ts rest : List Token} {loc : LocationBlock}
    (h : Reads (parseLocation lib) (d.text ++ ts) loc rest) :
    rest = ts ∧ ∀ more, Reads (parseLocation lib) (d.text ++ more) loc more := by
  rcases d.text_cases with ⟨-, htext⟩ | ⟨inner, hinner, -, htext⟩
  · rw [htext, List.append_assoc, List.singleton_append] at h
    simp only [parseLocation, parseLocationHead, reads_bind_iff, reads_expectOpen_iff] at h
    obtain ⟨_, _, ⟨_, _, hargs, _, _, hopen, -⟩, -⟩ := h
    obtain ⟨hinput, hno⟩ := reads_collectArgs_iff.mp hargs
    obtain ⟨-, hrest⟩ := words_append_inj (noWord_semicolon _) hno hinput
    rw [hopen] at hrest
    cases hrest
  · have hinput : ∀ more, d.text ++ more =
        words d.args ++ .openBrace :: (inner ++ [.closeBrace] ++ more) := by
      intro more
      rw [htext]
      simp
    have hhead : ∀ more pattern mid,
        Reads (parseLocationHead lib) (d.text ++ more) pattern mid ↔
          parseLocationPattern lib d.args = .ok pattern ∧ mid = inner ++ [.closeBrace] ++ more := by
      intro more pattern mid
      rw [hinput]
      exact reads_parseLocationHead_iff
    have hstays : Stays 1 0 (parseBlock .location (locationDirectives lib) .initial) :=
      stays_parseBlock (locationDirectives_shapes lib)
        (fun name _ _ hnested => absurd hnested (locationShapes_simple lib name)) _
    obtain ⟨pattern, mid, hread, hbody⟩ := reads_bind_iff.mp h
    obtain ⟨hpattern, rfl⟩ := (hhead _ _ _).mp hread
    obtain ⟨st, mid, hblock, hpure⟩ := reads_bind_iff.mp hbody
    obtain ⟨rfl, rfl⟩ := reads_pure_iff.mp hpure
    obtain ⟨seg, hseg, rfl, hmore⟩ := hstays _ _ _ _ (closes_of_balanced hinner closes_nil) hblock
    obtain rfl := closes_zero hseg
    refine ⟨rfl, fun more => ?_⟩
    exact reads_bind_iff.mpr ⟨pattern, _, (hhead _ _ _).mpr ⟨hpattern, rfl⟩,
      reads_bind_iff.mpr ⟨st, _, hmore more, reads_pure_iff.mpr ⟨rfl, rfl⟩⟩⟩

theorem reads_location_iff
    {d : Directive} {ts rest : List Token} {loc : LocationBlock} :
    Reads (parseLocation lib) (d.text ++ ts) loc rest ↔
      Parse.value (parseLocation lib) d.text = some loc ∧ rest = ts := by
  rw [value_eq_some_iff]
  constructor
  · intro h
    obtain ⟨rfl, hmore⟩ := reads_location_whole h
    refine ⟨⟨[], ?_⟩, rfl⟩
    simpa using hmore []
  · rintro ⟨⟨rest', h⟩, rfl⟩
    rw [← List.append_nil d.text] at h
    exact (reads_location_whole h).2 _

end Location

/-- One more location. -/
def ServerReader.add (st : ServerReader) (loc : LocationBlock) : ServerReader where
  block := { st.block with locations := st.block.locations ++ [loc] }
  locationCount := st.locationCount + 1

/-- What a directive does to a server block. -/
def serverChange (lib : Libraries) (d : Directive) (st : ServerReader) : Option ServerReader :=
  if d.name = ascii "location" then
    if maxLocationBlocks ≤ st.locationCount then none
    else (Parse.value (parseLocation lib) d.text).map st.add
  else change serverShapes d st

theorem reads_serverDirective_iff
    {lib : Libraries} {d : Directive} {st st' : ServerReader} {ts rest : List Token} :
    Reads (runDirective (serverDirectives lib) unknownDirective d.name st) (d.text ++ ts) st' rest ↔
      serverChange lib d st = some st' ∧ rest = ts := by
  unfold serverChange
  by_cases hloc : d.name = ascii "location"
  · have hrun : runDirective (serverDirectives lib) unknownDirective d.name st =
        locationDirective lib st := by
      rw [hloc]
      rfl
    rw [hrun, if_pos hloc]
    unfold locationDirective
    by_cases hcount : maxLocationBlocks ≤ st.locationCount
    · rw [if_pos hcount, if_pos hcount]
      simp [reads_fail_iff]
    · rw [if_neg hcount, if_neg hcount, reads_bind_iff]
      simp only [reads_location_iff, reads_pure_iff, Option.map_eq_some_iff]
      constructor
      · rintro ⟨loc, _, ⟨hvalue, rfl⟩, rfl, rfl⟩
        exact ⟨⟨loc, hvalue, rfl⟩, rfl⟩
      · rintro ⟨⟨loc, hvalue, rfl⟩, rfl⟩
        exact ⟨loc, _, ⟨hvalue, rfl⟩, rfl, rfl⟩
  · rw [if_neg hloc]
    refine reads_runDirective_iff (serverDirectives_shapes lib) fun hnested => ?_
    have hnames : ∀ entry ∈ serverShapes, entry.2 = none → entry.1 = ascii "location" := by
      simp [serverShapes]
    exact hloc (hnames _ (mem_of_lookup hnested) rfl)

/-- The block that is read off a server block of this body. -/
def readServer (lib : Libraries) (ds : List Directive) : Option ServerBlock :=
  Parse.value (parseServerBlock lib) (bodyTokens ds ++ [.closeBrace])

theorem readServer_eq
    (lib : Libraries) (ds : List Directive) :
    readServer lib ds = (run (serverChange lib) ds .initial).map ServerReader.block := by
  refine Option.ext fun block => ?_
  unfold readServer parseServerBlock
  rw [value_eq_some_iff]
  have hknown : ∀ d ∈ ds, ∀ st st' ts rest,
      Reads (runDirective (serverDirectives lib) unknownDirective d.name st) (d.text ++ ts) st'
        rest ↔ serverChange lib d st = some st' ∧ rest = ts :=
    fun d _ st st' ts rest => reads_serverDirective_iff
  simp only [reads_bind_iff, reads_pure_iff, Option.map_eq_some_iff, reads_parseBlock_iff hknown]
  constructor
  · rintro ⟨_, st, _, ⟨hrun, rfl⟩, rfl, rfl⟩
    exact ⟨st, hrun, rfl⟩
  · rintro ⟨st, hrun, rfl⟩
    exact ⟨[], st, _, ⟨hrun, rfl⟩, rfl, rfl⟩

/-! ### Directives that share a field -/

/-- An accepted directive of one word changes the block by it. -/
theorem change_blockArg
    {u : Bytes → ServerBlock → ServerBlock} {d : Directive}
    (hshape : serverShapes.lookup d.name = some (some (blockArg u)))
    (hd : change serverShapes d .initial ≠ none) :
    ∃ v, d.args = [v] ∧ ∀ st, change serverShapes d st = some (onBlock u v st) := by
  obtain ⟨hblock, -⟩ := block_of_accepted hshape hd
  have hchange : ∀ st, change serverShapes d st = blockArg u d.args st := by
    intro st
    simp only [change, hshape, hblock]
  rw [hchange] at hd
  obtain ⟨v, hv⟩ : ∃ v, d.args = [v] := by
    cases hargs : d.args with
    | nil =>
        rw [hargs] at hd
        exact absurd rfl hd
    | cons v rest =>
        cases rest with
        | nil => exact ⟨v, rfl⟩
        | cons w rest =>
            rw [hargs] at hd
            exact absurd rfl hd
  refine ⟨v, hv, fun st => ?_⟩
  rw [hchange, hv]
  rfl

/-- Write a value, where there is one to write. -/
def overwrite {α : Type} (set : α → ServerBlock → ServerBlock) :
    Option α → ServerBlock → ServerBlock
  | none, block => block
  | some a, block => set a block

/-- The directives that write a field, each with the value it writes. -/
abbrev Writers (α : Type) : Type :=
  List (Bytes × (Bytes → Option α))

def redirectWriters : Writers Bool :=
  [(ascii "ssl_redirect", fun v => some (isNotOff v)),
    (ascii "ssl-redirect", fun v => some (isNotOff v))]

/-- Of `hsts off` nothing is written. -/
def maxAgeWriters : Writers (Option Nat) :=
  [(ascii "hsts", fun v => if isNotOff v then some (some 31536000) else none),
    (ascii "hsts_max_age", fun v => some (Decimal.parseUnsigned Decimal.u64Bound v)),
    (ascii "hsts-max-age", fun v => some (Decimal.parseUnsigned Decimal.u64Bound v))]

def subdomainWriters : Writers Bool :=
  [(ascii "hsts_include_subdomains", fun v => some (isNotOff v)),
    (ascii "hsts-include-subdomains", fun v => some (isNotOff v))]

section Writers

variable {α : Type} {writers : Writers α} {set : α → ServerBlock → ServerBlock}

/-- What a directive writes. -/
def written (writers : Writers α) (d : Directive) : Option α :=
  (writers.lookup d.name).bind fun w => d.args.head?.bind w

/-- The directives write the field, and not the same value. -/
def Overwrites (writers : Writers α) (d e : Directive) : Prop :=
  ∃ a b, written writers d = some a ∧ written writers e = some b ∧ a ≠ b

theorem Overwrites.symm
    {d e : Directive}
    (h : Overwrites writers d e) :
    Overwrites writers e d := by
  obtain ⟨a, b, ha, hb, hne⟩ := h
  exact ⟨b, a, hb, ha, hne.symm⟩

/-- The writers write the field that is set. -/
def WritesBy (set : α → ServerBlock → ServerBlock) (writers : Writers α) : Prop :=
  ∀ entry ∈ writers,
    serverShapes.lookup entry.1 = some (some (blockArg fun v => overwrite set (entry.2 v)))

theorem WritesBy.change_eq
    {d : Directive}
    (h : WritesBy set writers) (hname : d.name ∈ writers.map Prod.fst)
    (hd : change serverShapes d .initial ≠ none) (st : ServerReader) :
    change serverShapes d st = some (onBlock (overwrite set) (written writers d) st) := by
  cases hlookup : writers.lookup d.name with
  | none =>
      obtain ⟨entry, hentry, heq⟩ := List.mem_map.mp hname
      have := List.lookup_eq_none_iff.mp hlookup entry hentry
      simp [heq] at this
  | some w =>
      obtain ⟨v, hargs, hchange⟩ := change_blockArg (h _ (mem_of_lookup hlookup)) hd
      have hwritten : written writers d = w v := by
        simp [written, hlookup, hargs]
      rw [hchange, hwritten]
      rfl

theorem overwrite_comm
    {x y : Option α}
    (h : ¬ ∃ a b, x = some a ∧ y = some b ∧ a ≠ b) (block : ServerBlock) :
    overwrite set x (overwrite set y block) = overwrite set y (overwrite set x block) := by
  cases x with
  | none => rfl
  | some a =>
      cases y with
      | none => rfl
      | some b =>
          obtain rfl : a = b := by
            by_contra hne
            exact h ⟨a, b, rfl, rfl, hne⟩
          rfl

/-- Writers that do not overwrite each other commute. -/
theorem WritesBy.commute
    {d e : Directive}
    (h : WritesBy set writers)
    (hdname : d.name ∈ writers.map Prod.fst) (hename : e.name ∈ writers.map Prod.fst)
    (hd : change serverShapes d .initial ≠ none) (he : change serverShapes e .initial ≠ none)
    (hde : ¬ Overwrites writers d e) :
    Commute (change serverShapes) d e := by
  intro st
  rw [h.change_eq hdname hd, h.change_eq hename he, Option.bind_some, Option.bind_some,
    h.change_eq hename he, h.change_eq hdname hd]
  simp only [onBlock]
  rw [overwrite_comm hde]

/-- The last of two writers that overwrite each other shows. -/
theorem WritesBy.differ
    {d e : Directive} (get : ServerBlock → α)
    (h : WritesBy set writers) (hget : ∀ a block, get (set a block) = a)
    (hd : change serverShapes d .initial ≠ none) (he : change serverShapes e .initial ≠ none)
    (hde : Overwrites writers d e) :
    Differ (change serverShapes) ServerReader.block d e := by
  obtain ⟨a, b, ha, hb, hne⟩ := hde
  have hname : ∀ {d : Directive} {a : α}, written writers d = some a →
      d.name ∈ writers.map Prod.fst := by
    intro d a hwritten
    obtain ⟨w, hlookup, -⟩ := Option.bind_eq_some_iff.mp hwritten
    exact List.mem_map.mpr ⟨_, mem_of_lookup hlookup, rfl⟩
  have hdchange := h.change_eq (hname ha) hd
  have hechange := h.change_eq (hname hb) he
  rw [ha] at hdchange
  rw [hb] at hechange
  intro st
  refine ⟨onBlock (overwrite set) (some b) (onBlock (overwrite set) (some a) st),
    onBlock (overwrite set) (some a) (onBlock (overwrite set) (some b) st), ?_, ?_, ?_⟩
  · rw [hdchange, Option.bind_some, hechange]
  · rw [hechange, Option.bind_some, hdchange]
  · intro heq
    have hvalue := congrArg get heq
    simp only [onBlock, overwrite, hget] at hvalue
    exact hne hvalue.symm

end Writers

theorem redirectWriters_by :
    WritesBy (fun on block => { block with sslRedirect := on }) redirectWriters := by
  simp only [WritesBy, redirectWriters, List.forall_mem_cons]
  exact ⟨rfl, rfl, by simp⟩

theorem subdomainWriters_by :
    WritesBy (fun on block => { block with hstsIncludeSubdomains := on }) subdomainWriters := by
  simp only [WritesBy, subdomainWriters, List.forall_mem_cons]
  exact ⟨rfl, rfl, by simp⟩

theorem maxAgeWriters_by :
    WritesBy (fun age block => { block with hstsMaxAge := age }) maxAgeWriters := by
  simp only [WritesBy, maxAgeWriters, List.forall_mem_cons]
  refine ⟨?_, rfl, rfl, by simp⟩
  have hupdate : (fun v => overwrite (fun age (block : ServerBlock) =>
      { block with hstsMaxAge := age }) (if isNotOff v then some (some 31536000) else none)) =
      fun v b => if isNotOff v then { b with hstsMaxAge := some 31536000 } else b := by
    funext v b
    split <;> rfl
  rw [hupdate]
  rfl

/-- The directives that change the TLS settings. -/
def tlsModifiers : List (Bytes × (List Bytes → Option (TlsConfig → TlsConfig))) :=
  [(ascii "ssl_certificate", firstArg fun p => noArgs <| some fun t => { t with certPath := p }),
    (ascii "ssl_certificate_key", firstArg fun p => noArgs <| some fun t =>
      { t with keyPath := p }),
    (ascii "ssl_protocols", fun args => some fun t =>
      { t with minVersion := if args.contains (ascii "TLSv1.2") then .tls12 else .tls13 })]

theorem tlsModifiers_swap : tlsModifiers.Pairwise Swap := by
  simp only [tlsModifiers, List.pairwise_cons, List.forall_mem_cons]
  refine ⟨⟨?_, ?_, by simp⟩, ⟨?_, by simp⟩, by simp⟩
  · intro args args' m m' hm hm' t
    obtain ⟨v, -, rfl⟩ := one_of_firstArg hm
    obtain ⟨w, -, rfl⟩ := one_of_firstArg hm'
    rfl
  · intro args args' m m' hm hm' t
    obtain ⟨v, -, rfl⟩ := one_of_firstArg hm
    cases hm'
    rfl
  · intro args args' m m' hm hm' t
    obtain ⟨v, -, rfl⟩ := one_of_firstArg hm
    cases hm'
    rfl

/-- An accepted directive about TLS changes the TLS settings. -/
theorem change_tls
    {d : Directive} {p : Bytes × (List Bytes → Option (TlsConfig → TlsConfig))}
    (hp : p ∈ tlsModifiers) (hname : d.name = p.1)
    (hd : change serverShapes d .initial ≠ none) :
    ∃ m, p.2 d.args = some m ∧
      ∀ st, change serverShapes d st = some { st with block := withTls m st.block } := by
  simp only [tlsModifiers, List.mem_cons, List.not_mem_nil, or_false] at hp
  rcases hp with rfl | rfl | rfl
  · obtain ⟨v, hargs, hchange⟩ := change_blockArg
      (u := fun p => withTls fun t => { t with certPath := p }) (by rw [hname]; rfl) hd
    exact ⟨_, by rw [hargs]; rfl, hchange⟩
  · obtain ⟨v, hargs, hchange⟩ := change_blockArg
      (u := fun p => withTls fun t => { t with keyPath := p }) (by rw [hname]; rfl) hd
    exact ⟨_, by rw [hargs]; rfl, hchange⟩
  · have hshape : serverShapes.lookup d.name = some (some (anyArgs (onBlock fun args =>
        withTls fun t => { t with
          minVersion := if args.contains (ascii "TLSv1.2") then .tls12 else .tls13 }))) := by
      rw [hname]
      rfl
    obtain ⟨hblock, -⟩ := block_of_accepted hshape hd
    refine ⟨_, rfl, fun st => ?_⟩
    simp only [change, hshape, hblock]
    rfl

theorem withTls_comm
    {m m' : TlsConfig → TlsConfig}
    (h : ∀ t, m (m' t) = m' (m t)) (block : ServerBlock) :
    withTls m (withTls m' block) = withTls m' (withTls m block) := by
  simp only [withTls, Option.getD_some]
  rw [h]

/-! ### Conflicts in a server block -/

/-- The second directive is lost where it stands before the first. -/
def AuthConflict (d e : Directive) : Prop :=
  d.name = ascii "auth_basic" ∧ d.args ≠ [ascii "off"] ∧
    e.name = ascii "auth_basic_user_file" ∧ e.args ≠ [[]]

/-- What the two directives leave depends on which of them is the last. -/
def ServerConflict (d e : Directive) : Prop :=
  AuthConflict d e ∨ Overwrites redirectWriters d e ∨ Overwrites maxAgeWriters d e ∨
    Overwrites subdomainWriters d e

theorem change_auth
    {d e : Directive}
    (hdname : d.name = ascii "auth_basic") (hename : e.name = ascii "auth_basic_user_file")
    (hd : change serverShapes d .initial ≠ none) (he : change serverShapes e .initial ≠ none) :
    ∃ realm file, d.args = [realm] ∧ e.args = [file] ∧
      (∀ st, change serverShapes d st = some (onBlock withRealm realm st)) ∧
      ∀ st, change serverShapes e st = some (onBlock withUserFile file st) := by
  obtain ⟨realm, hrealm, hdchange⟩ := change_blockArg (u := withRealm) (by rw [hdname]; rfl) hd
  obtain ⟨file, hfile, hechange⟩ := change_blockArg (u := withUserFile) (by rw [hename]; rfl) he
  exact ⟨realm, file, hrealm, hfile, hdchange, hechange⟩

theorem auth_commute
    {d e : Directive}
    (hdname : d.name = ascii "auth_basic") (hename : e.name = ascii "auth_basic_user_file")
    (hd : change serverShapes d .initial ≠ none) (he : change serverShapes e .initial ≠ none)
    (h : ¬ AuthConflict d e) :
    Commute (change serverShapes) d e := by
  obtain ⟨realm, file, hrealm, hfile, hdchange, hechange⟩ := change_auth hdname hename hd he
  intro st
  rw [hdchange, hechange, Option.bind_some, Option.bind_some, hdchange, hechange]
  simp only [onBlock, Option.some.injEq, ServerReader.mk.injEq, and_true]
  by_cases hoff : realm = ascii "off"
  · simp [withRealm, hoff]
  · obtain rfl : file = [] := by
      by_contra hne
      exact h ⟨hdname, by simpa [hrealm] using hoff, hename, by simpa [hfile] using hne⟩
    simp only [withRealm, if_neg hoff, withUserFile]

theorem auth_differ
    {d e : Directive}
    (hd : change serverShapes d .initial ≠ none) (he : change serverShapes e .initial ≠ none)
    (h : AuthConflict d e) :
    Differ (change serverShapes) ServerReader.block d e := by
  obtain ⟨hdname, hrealm, hename, hfile⟩ := h
  obtain ⟨realm, file, hdargs, heargs, hdchange, hechange⟩ := change_auth hdname hename hd he
  have hoff : realm ≠ ascii "off" := by
    rintro rfl
    exact hrealm hdargs
  have hne : file ≠ [] := by
    rintro rfl
    exact hfile heargs
  intro st
  refine ⟨onBlock withUserFile file (onBlock withRealm realm st),
    onBlock withRealm realm (onBlock withUserFile file st), ?_, ?_, ?_⟩
  · rw [hdchange, Option.bind_some, hechange]
  · rw [hechange, Option.bind_some, hdchange]
  · intro heq
    have hauth := congrArg ServerBlock.authBasic heq
    simp only [onBlock, withRealm, if_neg hoff, withUserFile, Option.some.injEq,
      AuthBasicConfig.mk.injEq, true_and] at hauth
    exact hne hauth

/-! ### Server blocks in any order -/

/-- Directives of distinct names share only these fields. -/
theorem serverFields_shared :
    ∀ a ∈ serverFields, ∀ b ∈ serverFields, a.2 = b.2 → a.1 = b.1 ∨
      (a.1 = ascii "auth_basic" ∧ b.1 = ascii "auth_basic_user_file") ∨
      (b.1 = ascii "auth_basic" ∧ a.1 = ascii "auth_basic_user_file") ∨
      (a.1 ∈ tlsModifiers.map Prod.fst ∧ b.1 ∈ tlsModifiers.map Prod.fst) ∨
      (a.1 ∈ redirectWriters.map Prod.fst ∧ b.1 ∈ redirectWriters.map Prod.fst) ∨
      (a.1 ∈ maxAgeWriters.map Prod.fst ∧ b.1 ∈ maxAgeWriters.map Prod.fst) ∨
      (a.1 ∈ subdomainWriters.map Prod.fst ∧ b.1 ∈ subdomainWriters.map Prod.fst) := by
  decide

/-- Only a location edits the locations. -/
theorem serverFields_locations :
    ∀ a ∈ serverFields, a.2 = .locations → a.1 = ascii "location" := by
  decide

section Server

variable {lib : Libraries}

theorem serverChange_eq
    {d : Directive}
    (h : d.name ≠ ascii "location") :
    serverChange lib d = change serverShapes d := by
  funext st
  rw [serverChange, if_neg h]

/-- A directive edits one field, or none. -/
theorem serverChange_touches
    (lib : Libraries) (d : Directive) :
    serverChange lib d = some ∨
      ∃ i, (d.name, i) ∈ serverFields ∧ Touches ServerReader.read i (serverChange lib d) := by
  by_cases hloc : d.name = ascii "location"
  · refine .inr ⟨.locations, by rw [hloc]; decide, ?_⟩
    refine ⟨fun v => if maxLocationBlocks ≤ v.2 then none else
      (Parse.value (parseLocation lib) d.text).map fun loc => (v.1 ++ [loc], v.2 + 1),
      fun st => ?_⟩
    have hread : st.read .locations = (st.block.locations, st.locationCount) := rfl
    simp only [serverChange, if_pos hloc, hread]
    by_cases hcount : maxLocationBlocks ≤ st.locationCount
    · exact .inl ⟨if_pos hcount, if_pos hcount⟩
    · rw [if_neg hcount, if_neg hcount]
      cases Parse.value (parseLocation lib) d.text with
      | none => exact .inl ⟨rfl, rfl⟩
      | some loc =>
          refine .inr ⟨_, st.add loc, rfl, rfl, rfl, fun j hj => ?_⟩
          cases j <;> first | rfl | exact absurd rfl hj
  · rw [serverChange_eq hloc]
    cases hshape : serverShapes.lookup d.name with
    | none =>
        refine .inl ?_
        funext st
        simp [change, hshape]
    | some s =>
        obtain ⟨i, hi, hedits⟩ := serverShapes_edit.lookup hshape
        refine .inr ⟨i, mem_of_lookup hi, ?_⟩
        unfold change
        rw [hshape]
        cases s with
        | none => exact edits_none.touches
        | some f =>
            cases d.block with
            | none => exact (hedits f rfl d.args).touches
            | some inner => exact edits_none.touches

/-- What is refused at the start of a block is refused everywhere in it. -/
theorem serverChange_eq_none
    {d : Directive}
    (h : serverChange lib d .initial = none) (st : ServerReader) :
    serverChange lib d st = none := by
  by_cases hloc : d.name = ascii "location"
  · have hvalue : Parse.value (parseLocation lib) d.text = none := by
      unfold serverChange at h
      rw [if_pos hloc, if_neg (by decide)] at h
      exact Option.map_eq_none_iff.mp h
    unfold serverChange
    rw [if_pos hloc, hvalue]
    split <;> rfl
  · rw [serverChange_eq hloc] at h ⊢
    rcases steady_change serverShapes_edit d with hsteady | hsteady
    · exact hsteady st
    · have := hsteady .initial
      rw [h] at this
      cases this

/-- What is accepted at the start of a block is accepted wherever there is room for it. -/
theorem serverChange_isSome
    {d : Directive} (st : ServerReader)
    (h : serverChange lib d .initial ≠ none)
    (hroom : d.name = ascii "location" → st.locationCount < maxLocationBlocks) :
    ∃ st', serverChange lib d st = some st' ∧
      st'.locationCount =
        st.locationCount + if d.name = ascii "location" then 1 else 0 := by
  by_cases hloc : d.name = ascii "location"
  · cases hvalue : Parse.value (parseLocation lib) d.text with
    | none =>
        unfold serverChange at h
        rw [if_pos hloc, if_neg (by decide), hvalue] at h
        exact absurd rfl h
    | some loc =>
        refine ⟨st.add loc, ?_, by rw [if_pos hloc]; rfl⟩
        unfold serverChange
        rw [if_pos hloc, if_neg (Nat.not_le.mpr (hroom hloc)), hvalue]
        rfl
  · have hsteady : (serverChange lib d st).isSome = true := by
      rw [serverChange_eq hloc] at h ⊢
      rcases steady_change serverShapes_edit d with hsteady | hsteady
      · exact absurd (hsteady _) h
      · exact hsteady st
    obtain ⟨st', hst'⟩ := Option.isSome_iff_exists.mp hsteady
    refine ⟨st', hst', ?_⟩
    rw [if_neg hloc, Nat.add_zero]
    rcases serverChange_touches lib d with hunknown | ⟨i, hi, φ, hφ⟩
    · rw [hunknown] at hst'
      cases hst'
      rfl
    · have hfield : ServerField.locations ≠ i := by
        rintro rfl
        exact hloc (serverFields_locations _ hi rfl)
      rcases hφ st with ⟨-, hnone⟩ | ⟨v, st₁, -, hsome, -, hother⟩
      · rw [hst'] at hnone
        cases hnone
      · rw [hst'] at hsome
        cases hsome
        exact congrArg Prod.snd (hother .locations hfield)

/-- A body with one location at most has room for it. -/
theorem run_serverChange_isSome
    {ds : List Directive}
    (hnames : (ds.map Directive.name).Nodup)
    (h : ∀ d ∈ ds, serverChange lib d .initial ≠ none) :
    (run (serverChange lib) ds .initial).isSome = true := by
  refine run_isSome_of_kept
    (I := fun ds st => (∀ d ∈ ds, serverChange lib d .initial ≠ none) ∧
      st.locationCount + (ds.map Directive.name).count (ascii "location") ≤ maxLocationBlocks)
    (fun d ds st ⟨haccepted, hcount⟩ => ?_) ⟨h, ?_⟩
  · have hcount' : st.locationCount + ((if d.name = ascii "location" then 1 else 0) +
        (ds.map Directive.name).count (ascii "location")) ≤ maxLocationBlocks := by
      rw [List.map_cons, List.count_cons] at hcount
      simp only [beq_iff_eq] at hcount
      omega
    obtain ⟨st', hst', hlocations⟩ := serverChange_isSome st
      (haccepted d List.mem_cons_self) (fun hloc => by rw [if_pos hloc] at hcount'; omega)
    refine ⟨st', hst', fun e he => haccepted e (List.mem_cons_of_mem d he), ?_⟩
    rw [hlocations]
    omega
  · have hone := List.nodup_iff_count_le_one.mp hnames (ascii "location")
    have hroom : ServerReader.initial.locationCount + 1 ≤ maxLocationBlocks := by decide
    omega

/-- Two directives of different names commute, unless they are in conflict. -/
theorem server_commute
    {d e : Directive}
    (hname : d.name ≠ e.name)
    (hd : serverChange lib d .initial ≠ none) (he : serverChange lib e .initial ≠ none)
    (hde : ¬ ServerConflict d e) (hed : ¬ ServerConflict e d) :
    Commute (serverChange lib) d e := by
  intro st
  rcases serverChange_touches lib d with hunknown | ⟨i, hi, hdtouches⟩
  · rw [hunknown]
    simp
  rcases serverChange_touches lib e with hunknown | ⟨j, hj, hetouches⟩
  · rw [hunknown]
    simp
  by_cases hij : i = j
  · subst hij
    have hnot : ∀ names : List Bytes, ascii "location" ∉ names →
        ∀ name ∈ names, name ≠ ascii "location" := by
      rintro names hmem name hname rfl
      exact hmem hname
    -- neither of the two is a location, so that both are known by their shapes
    have hplain : d.name ≠ ascii "location" → e.name ≠ ascii "location" →
        (change serverShapes d .initial ≠ none → change serverShapes e .initial ≠ none →
          Commute (change serverShapes) d e) →
        (serverChange lib d st).bind (serverChange lib e) =
          (serverChange lib e st).bind (serverChange lib d) := by
      intro hdloc heloc hcommute
      rw [serverChange_eq hdloc] at hd ⊢
      rw [serverChange_eq heloc] at he ⊢
      exact hcommute hd he st
    obtain ⟨hauth, hredirect, hmaxAge, hsubdomain⟩ :
        ¬ AuthConflict d e ∧ ¬ Overwrites redirectWriters d e ∧
          ¬ Overwrites maxAgeWriters d e ∧ ¬ Overwrites subdomainWriters d e := by
      simpa only [ServerConflict, not_or] using hde
    have hauth' : ¬ AuthConflict e d := fun h => hed (.inl h)
    rcases serverFields_shared _ hi _ hj rfl with
      h | ⟨hdn, hen⟩ | ⟨hen, hdn⟩ | ⟨hdn, hen⟩ | ⟨hdn, hen⟩ | ⟨hdn, hen⟩ | ⟨hdn, hen⟩
    · exact absurd h hname
    · simp only at hdn hen
      exact hplain (by rw [hdn]; decide) (by rw [hen]; decide) fun hd he =>
        auth_commute hdn hen hd he hauth
    · simp only at hdn hen
      exact hplain (by rw [hdn]; decide) (by rw [hen]; decide) fun hd he =>
        (auth_commute hen hdn he hd hauth').symm
    · refine hplain (hnot _ (by decide) _ hdn) (hnot _ (by decide) _ hen) fun hd he st => ?_
      obtain ⟨p, hp, hdn⟩ := List.mem_map.mp hdn
      obtain ⟨q, hq, hen⟩ := List.mem_map.mp hen
      obtain ⟨m, hm, hdchange⟩ := change_tls hp hdn.symm hd
      obtain ⟨m', hm', hechange⟩ := change_tls hq hen.symm he
      have hne : q ≠ p := by
        rintro rfl
        exact hname (hdn.symm.trans hen)
      rw [hdchange, hechange, Option.bind_some, Option.bind_some, hdchange, hechange]
      simp only
      rw [withTls_comm (tlsModifiers_swap.forall hq hp hne _ _ _ _ hm' hm)]
    · exact hplain (hnot _ (by decide) _ hdn) (hnot _ (by decide) _ hen) fun hd he =>
        redirectWriters_by.commute hdn hen hd he hredirect
    · exact hplain (hnot _ (by decide) _ hdn) (hnot _ (by decide) _ hen) fun hd he =>
        maxAgeWriters_by.commute hdn hen hd he hmaxAge
    · exact hplain (hnot _ (by decide) _ hdn) (hnot _ (by decide) _ hen) fun hd he =>
        subdomainWriters_by.commute hdn hen hd he hsubdomain
  · exact commute_of_touches ServerReader.read_injective hij hdtouches hetouches st

theorem ServerConflict.names
    {d e : Directive}
    (h : ServerConflict d e) :
    d.name ≠ ascii "location" ∧ e.name ≠ ascii "location" ∧ d ≠ e := by
  have hwritten : ∀ {α : Type} {writers : Writers α} {d e : Directive},
      ascii "location" ∉ writers.map Prod.fst → Overwrites writers d e →
        d.name ≠ ascii "location" ∧ e.name ≠ ascii "location" ∧ d ≠ e := by
    rintro α writers d e hnot ⟨a, b, ha, hb, hne⟩
    have hknown : ∀ {d : Directive} {a : α}, written writers d = some a →
        d.name ≠ ascii "location" := by
      intro d a hwritten hloc
      obtain ⟨w, hlookup, -⟩ := Option.bind_eq_some_iff.mp hwritten
      exact hnot (hloc ▸ List.mem_map.mpr ⟨_, mem_of_lookup hlookup, rfl⟩)
    refine ⟨hknown ha, hknown hb, ?_⟩
    rintro rfl
    rw [ha] at hb
    exact hne (Option.some.inj hb)
  rcases h with ⟨hdname, -, hename, -⟩ | h | h | h
  · refine ⟨by rw [hdname]; decide, by rw [hename]; decide, ?_⟩
    rintro rfl
    rw [hdname] at hename
    exact absurd hename (by decide)
  · exact hwritten (by decide) h
  · exact hwritten (by decide) h
  · exact hwritten (by decide) h

/-- The order of two directives in conflict shows in the server block. -/
theorem differ_of_serverConflict
    {d e : Directive}
    (hd : serverChange lib d .initial ≠ none) (he : serverChange lib e .initial ≠ none)
    (h : ServerConflict d e) :
    Differ (serverChange lib) ServerReader.block d e := by
  obtain ⟨hdloc, heloc, -⟩ := h.names
  rw [serverChange_eq hdloc] at hd
  rw [serverChange_eq heloc] at he
  unfold Differ
  rw [serverChange_eq hdloc, serverChange_eq heloc]
  rcases h with h | h | h | h
  · exact auth_differ hd he h
  · exact redirectWriters_by.differ ServerBlock.sslRedirect (fun _ _ => rfl) hd he h
  · exact maxAgeWriters_by.differ ServerBlock.hstsMaxAge (fun _ _ => rfl) hd he h
  · exact subdomainWriters_by.differ ServerBlock.hstsIncludeSubdomains (fun _ _ => rfl) hd he h

/-- Nothing is read where a directive by itself is refused. -/
def ServerRefused (lib : Libraries) (ds : List Directive) : Prop :=
  ∃ d ∈ ds, serverChange lib d .initial = none

theorem readServer_eq_none_of_refused
    {ds : List Directive}
    (h : ServerRefused lib ds) :
    readServer lib ds = none := by
  obtain ⟨d, hd, h⟩ := h
  rw [readServer_eq, run_eq_none hd (serverChange_eq_none h)]
  rfl

/-- When a body of directives of distinct names is one server block in every order. -/
theorem server_order
    {ds : List Directive}
    (hnames : (ds.map Directive.name).Nodup) :
    (∀ es, es.Perm ds → readServer lib es = readServer lib ds) ↔
      ServerRefused lib ds ∨ ∀ d ∈ ds, ∀ e ∈ ds, ¬ ServerConflict d e := by
  by_cases hrefused : ServerRefused lib ds
  · simp only [hrefused, true_or, iff_true]
    intro es hes
    have hrefused' : ServerRefused lib es := by
      obtain ⟨d, hd, h⟩ := hrefused
      exact ⟨d, hes.mem_iff.mpr hd, h⟩
    rw [readServer_eq_none_of_refused hrefused, readServer_eq_none_of_refused hrefused']
  simp only [hrefused, false_or]
  have haccepted : ∀ d ∈ ds, serverChange lib d .initial ≠ none :=
    fun d hd h => hrefused ⟨d, hd, h⟩
  constructor
  · intro hperm d hd e he hconflict
    have hsome : ∀ es : List Directive, es.Sublist ds →
        (run (serverChange lib) es .initial).isSome :=
      fun es hes => run_serverChange_isSome (hnames.sublist (hes.map _))
        fun d hd => haccepted d (hes.subset hd)
    obtain ⟨es, es', hes, hes', hdiffer⟩ := exists_perm_of_differ hd he hconflict.names.2.2 hsome
      (differ_of_serverConflict (haccepted d hd) (haccepted e he) hconflict)
    have h := hperm es hes
    have h' := hperm es' hes'
    rw [readServer_eq] at h h'
    exact hdiffer (h.trans h'.symm)
  · intro hconflict es hes
    have hrun : run (serverChange lib) ds .initial = run (serverChange lib) es .initial :=
      run_perm hes.symm (fun d hd e he => ?_) _
    · rw [readServer_eq, readServer_eq, hrun]
    · by_cases hde : d = e
      · rw [hde]
        exact fun _ => rfl
      · have hname : d.name ≠ e.name := fun h =>
          hde (List.inj_on_of_nodup_map hnames hd he h)
        exact server_commute hname (haccepted d hd) (haccepted e he) (hconflict d hd e he)
          (hconflict e he d hd)

/-- Directives of distinct names mean the same in every order, in a location and in a server
block, unless one of them is refused by itself or two of them are in conflict. -/
theorem directive_order
    (lib : Libraries) (args : List Bytes) (ds : List Directive)
    (hnames : (ds.map Directive.name).Nodup) :
    ((∀ d ∈ ds, ∀ e ∈ ds, d.name ∈ makerNames → e.name ∈ makerNames → d = e) →
      ((∀ es, es.Perm ds → readLocation lib args es = readLocation lib args ds) ↔
        LocationRefused lib args ds ∨ ∀ d ∈ ds, ∀ e ∈ ds, ¬ LocationConflict d e)) ∧
    ((∀ es, es.Perm ds → readServer lib es = readServer lib ds) ↔
      ServerRefused lib ds ∨ ∀ d ∈ ds, ∀ e ∈ ds, ¬ ServerConflict d e) :=
  ⟨location_order hnames, server_order hnames⟩

end Server

/-- A directive of words. -/
def rowDirective (name : Bytes) (args : List Bytes) : Directive :=
  ⟨name, args, none⟩

/-- The server asks for credentials, and says where they are. -/
def guardedBody : List Directive :=
  [rowDirective (ascii "auth_basic") [ascii "staff"],
    rowDirective (ascii "auth_basic_user_file") [ascii "/etc/htpasswd"]]

/-- The file is lost where it is named first. -/
theorem guardedBody_order :
    ∃ es, es.Perm guardedBody ∧ (guardedBody.map Directive.name).Nodup ∧
      ∀ lib, readServer lib es ≠ readServer lib guardedBody ∧
        ((readServer lib guardedBody).bind ServerBlock.authBasic).map AuthBasicConfig.userFile =
          some (ascii "/etc/htpasswd") ∧
        ((readServer lib es).bind ServerBlock.authBasic).map AuthBasicConfig.userFile = some [] := by
  refine ⟨guardedBody.reverse, List.reverse_perm _, by decide, fun lib => ?_⟩
  have hfile : ((readServer lib guardedBody).bind ServerBlock.authBasic).map
      AuthBasicConfig.userFile = some (ascii "/etc/htpasswd") := by
    rw [readServer_eq]
    rfl
  have hlost : ((readServer lib guardedBody.reverse).bind ServerBlock.authBasic).map
      AuthBasicConfig.userFile = some [] := by
    rw [readServer_eq]
    rfl
  refine ⟨fun heq => ?_, hfile, hlost⟩
  rw [heq, hfile] at hlost
  exact absurd hlost (by decide)

/-- No URL, no regular expression and no fraction is understood. -/
def bareLibraries : Libraries where
  parseUrl _ := none
  compileRegex _ := none
  parseFloat _ := none

theorem directive_order_example :
    ((∀ es, es.Perm guardedBody → readLocation bareLibraries [ascii "/"] es =
          readLocation bareLibraries [ascii "/"] guardedBody) ↔
        LocationRefused bareLibraries [ascii "/"] guardedBody ∨
          ∀ d ∈ guardedBody, ∀ e ∈ guardedBody, ¬ LocationConflict d e) ∧
      ((∀ es, es.Perm guardedBody → readServer bareLibraries es =
          readServer bareLibraries guardedBody) ↔
        ServerRefused bareLibraries guardedBody ∨
          ∀ d ∈ guardedBody, ∀ e ∈ guardedBody, ¬ ServerConflict d e) :=
  have horder := directive_order bareLibraries [ascii "/"] guardedBody (by decide)
  ⟨horder.1 (by decide), horder.2⟩

end ConfigParser
end RunNginx
