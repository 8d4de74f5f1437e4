import RunNginx.Config.AuthText
import RunNginx.Config.Fields
import RunNginx.Config.ProxyText

/-!
# References of a configuration

A `limit_req` names a zone, and a `proxy_pass` may name a group of upstreams as its host.
The parser looks neither of them up: a zone that nothing defines is a limit that is never
applied, and a group is taken for a host, whatever the configuration declares.

`references_iff`: the references of a loaded configuration resolve exactly where the text
defines every zone it uses and sends no location to a group.
-/

namespace RunNginx
namespace ConfigParser

open ByteString Limits Parse Updates

/-! ### What a text refers to -/

/-- The limit of a block, from its last `limit_req`. -/
def limitOf (items : List (Bytes × List Token)) : Option LimitReqRef :=
  (itemRows (ascii "limit_req") items).getLast?.bind parseLimitReq

/-- The texts of the locations of a server block. -/
def locationTexts (items : List (Bytes × List Token)) : List (List Token) :=
  items.filterMap fun item => if item.1 = ascii "location" then some item.2 else none

/-- The last directive that makes a handler. -/
def handlerItem (items : List (Bytes × List Token)) : Option (Bytes × List Token) :=
  (items.filter fun item => makerNames.contains item.1).getLast?

/-- Where the proxy of a location goes, if its last directive about a handler makes one. -/
def proxiedUrl (lib : Libraries) (items : List (Bytes × List Token)) : Option Url :=
  (handlerItem items).bind fun item =>
    if item.1 = ascii "proxy_pass" then (wordOf item.2.head?).bind lib.parseUrl else none

/-- The zones that the directives of an http block define. -/
def zonesOf (lib : Libraries) (items : List (Bytes × List Token)) : List Bytes :=
  (itemRows (ascii "limit_req_zone") items).filterMap fun args =>
    (parseLimitReqZone lib args).map LimitReqZoneDef.name

/-- The groups that the directives of an http block declare. -/
def groupsOf (items : List (Bytes × List Token)) : List Bytes :=
  itemArgs (ascii "upstream") items

section Load

variable (lib : Libraries) (files : ConfigFiles) (path : Bytes)

/-- The http block of a file that counts, the last one. -/
def lastHttp (items : List (Bytes × List Token)) : Option (List Token) :=
  (items.filterMap (bodyOf (ascii "http"))).getLast?

/-- The directives of the http block of a file; those of included files do not count. -/
def loadedHttp (items : List (Bytes × List Token)) : List (Bytes × List Token) :=
  match lastHttp items with
  | none => []
  | some body => httpItems lib files path body

end Load

/-! ### References that resolve -/

section Limits

variable (zones : List Bytes) (items : List (Bytes × List Token))

/-- Each `limit_req` of a block names a zone that is there. -/
def LimitDeclared : Prop :=
  ∀ args ∈ itemRows (ascii "limit_req") items, ∃ lr, parseLimitReq args = some lr ∧ lr.zone ∈ zones

/-- A block that asks for a limit has one, and each zone that it asks for is there. -/
structure LimitResolves (limit : Option LimitReqRef) : Prop where
  named : LimitDeclared zones items
  applied : itemRows (ascii "limit_req") items ≠ [] → ∃ lr, limit = some lr ∧ lr.zone ∈ zones

variable {zones items}

theorem limitResolves_iff
    {limit : Option LimitReqRef} (h : limit = limitOf items) :
    LimitResolves zones items limit ↔ LimitDeclared zones items := by
  refine ⟨LimitResolves.named, fun hnamed => ⟨hnamed, fun hsome => ?_⟩⟩
  have hlast := List.getLast?_eq_some_getLast hsome
  obtain ⟨lr, hlr, hzone⟩ := hnamed _ (List.getLast_mem hsome)
  refine ⟨lr, ?_, hzone⟩
  rw [h, limitOf, hlast, Option.bind_some, hlr]

end Limits

section Resolves

variable (lib : Libraries) (zones groups : List Bytes)

/-- The references of a location, seen against its text. -/
structure LocationResolves (items : List (Bytes × List Token)) (loc : LocationBlock) :
    Prop where
  limit : LimitResolves zones items loc.limitReq
  proxy : ∀ url name, proxiedUrl lib items = some url → url.hostStr = some name →
    name ∈ groups → loc.handler = .upstreamGroup name

structure ServerResolves (ts : List Token) (server : ServerBlock) : Prop where
  limit : LimitResolves zones (serverItems lib ts) server.limitReq
  locations : ∀ p ∈ (locationTexts (serverItems lib ts)).zip server.locations,
    LocationResolves lib zones groups (locationItems lib p.1) p.2

/-- What the text of a location has to say for its references to resolve. -/
structure LocationDeclared (items : List (Bytes × List Token)) : Prop where
  limit : LimitDeclared zones items
  proxy : ∀ url name, proxiedUrl lib items = some url → url.hostStr = some name → name ∉ groups

structure ServerDeclared (ts : List Token) : Prop where
  limit : LimitDeclared zones (serverItems lib ts)
  locations : ∀ lts ∈ locationTexts (serverItems lib ts),
    LocationDeclared lib zones groups (locationItems lib lts)

variable (files : ConfigFiles) (depth : Nat) (path : Bytes) (tokens : List Token)

/-- The references of a configuration, each server seen against the text it was read from. -/
def Resolves (cfg : Config) : Prop :=
  ∀ p ∈ (rootKept lib files depth path tokens).zip cfg.http.servers,
    ServerResolves lib (cfg.http.limitReqZones.map LimitReqZoneDef.name)
      (cfg.http.upstreamGroups.map UpstreamGroupDef.name) p.1.tokens p.2

/-- The text defines every zone it uses, and sends no location to a group. -/
def ReferencesDeclared : Prop :=
  let http := loadedHttp lib files path (rootItems lib files depth path tokens)
  ∀ source ∈ rootKept lib files depth path tokens,
    ServerDeclared lib (zonesOf lib http) (groupsOf http) source.tokens

end Resolves

/-! ### Locations -/

section Location

variable {lib : Libraries} {ts : List Token} {loc : LocationBlock}

theorem location_limitReq
    (h : LocationText lib loc ts) :
    loc.limitReq = limitOf (locationItems lib ts) := by
  obtain ⟨rest, h⟩ := h
  obtain ⟨pattern, rest₁, rest₂, hhead, h⟩ := bind_ok h
  obtain ⟨st, rest₃, rest₄, hblock, h⟩ := bind_ok h
  obtain rfl : st.finish pattern = loc := congrArg Prod.fst (Except.ok.inj h)
  have hitems : locationItems lib ts =
      blockItems .location (locationDirectives lib) .initial rest₁.1 := by
    simp [locationItems, hhead]
  have hnames : ∀ e ∈ locationFields, e.2 = .limitReq → e.1 = ascii "limit_req" := by
    decide
  have hfield := parseBlock_field (j := LocationField.limitReq) (ascii "limit_req")
    parseLimitReq (locationDirectives_shapes lib) (locationShapes_edit lib)
    (fun _ name _ _ hnested => absurd hnested (locationShapes_simple lib name)) rfl
    (fun args st st' h => by cases h; rfl) (fun other hmem => hnames _ hmem rfl) hblock
  rw [hitems]
  exact hfield.trans (by rw [limitOf]; cases (itemRows _ _).getLast? <;> rfl)

/-- Where the handler that is read sends a request, if it is a proxy. -/
def upstreamOf (st : LocationReader) : Option Url :=
  match st.handler with
  | .proxy pc => some pc.upstream
  | _ => none

/-- The proxy goes there, and the handler is no group. -/
def GoesTo (url : Option Url) (st : LocationReader) : Prop :=
  upstreamOf st = url ∧ ∀ group, st.handler ≠ .upstreamGroup group

theorem goesTo_onFastCgi
    {url : Option Url} {st : LocationReader} (f : FastCgiConfig → FastCgiConfig)
    (h : GoesTo url st) :
    GoesTo url (onFastCgi f st) := by
  unfold onFastCgi
  split
  · rename_i fc hfc
    refine ⟨?_, fun group hgroup => by cases hgroup⟩
    rw [← h.1, upstreamOf, upstreamOf, hfc]
  · exact h

theorem goesTo_onProxy
    {url : Option Url} {st : LocationReader} {f : ProxyConfig → ProxyConfig}
    (hf : ∀ pc, (f pc).upstream = pc.upstream) (h : GoesTo url st) :
    GoesTo url (onProxy f st) := by
  unfold onProxy
  split
  · rename_i pc hpc
    refine ⟨?_, fun group hgroup => by cases hgroup⟩
    rw [← h.1, upstreamOf, upstreamOf, hpc]
    exact congrArg some (hf pc)
  · exact h

/-- Only three directives of a location change where its proxy goes. -/
theorem locationDirectives_goesTo
    (lib : Libraries) (url : Option Url) :
    ∀ entry ∈ locationDirectives lib,
      entry.1 ∈ makerNames ∨ Keeps (GoesTo url) entry.2 := by
  have hrealm : ∀ realm (st : LocationReader), GoesTo url st → GoesTo url
      (if realm = ascii "off" then st else { st with authBasicRealm := some realm }) := by
    intro realm st hst
    split <;> exact hst
  simp only [locationDirectives, List.forall_mem_cons]
  exact ⟨.inr (keeps_check fun _ _ h => h), .inr (keeps_anyWords fun _ _ h => h),
    .inr (keeps_anyWords fun _ _ h => h), .inl (by simp [makerNames]),
    .inl (by simp [makerNames]), .inr (keeps_twoWords fun _ _ _ h => goesTo_onFastCgi _ h),
    .inr (keeps_word fun _ _ h => goesTo_onFastCgi _ h),
    .inr (keeps_word fun _ _ h => goesTo_onFastCgi _ h),
    .inr (keeps_twoWords fun _ _ _ h => goesTo_onProxy (fun _ => rfl) h),
    .inr (keeps_word fun _ _ h => goesTo_onProxy (fun _ => rfl) h),
    .inr (keeps_word fun _ _ h => goesTo_onProxy (fun _ => rfl) h),
    .inr (keeps_word fun _ _ h => goesTo_onProxy (fun _ => rfl) h),
    .inr (keeps_parsed fun _ _ h => h), .inr (keeps_checkedWord fun _ _ h => h),
    .inl (by simp [makerNames]), .inr (keeps_word fun _ _ h => h),
    .inr (keeps_anyWords fun _ _ h => h), .inr (keeps_parsed fun _ _ h => h),
    .inr (keeps_word hrealm), .inr (keeps_word fun _ _ h => h), by simp⟩

theorem proxiedUrl_append_maker
    {name : Bytes} {before : List (Bytes × List Token)} (h : name ∈ makerNames) :
    proxiedUrl lib (before ++ [(name, ts)]) =
      if name = ascii "proxy_pass" then (wordOf ts.head?).bind lib.parseUrl else none := by
  have hlast : handlerItem (before ++ [(name, ts)]) = some (name, ts) := by
    simp [handlerItem, h]
  rw [proxiedUrl, hlast, Option.bind_some]

theorem proxiedUrl_append_other
    {name : Bytes} {before : List (Bytes × List Token)} (h : name ∉ makerNames) :
    proxiedUrl lib (before ++ [(name, ts)]) = proxiedUrl lib before := by
  have hlast : handlerItem (before ++ [(name, ts)]) = handlerItem before := by
    simp [handlerItem, h]
  rw [proxiedUrl, proxiedUrl, hlast]

theorem goesTo_step
    {before : List (Bytes × List Token)} {name : Bytes} {st st' : LocationReader}
    {rest : Rest ts}
    (hst : GoesTo (proxiedUrl lib before) st)
    (h : runDirective (locationDirectives lib) unknownDirective name st ts = .ok (st', rest)) :
    GoesTo (proxiedUrl lib (before ++ [(name, ts)])) st' := by
  by_cases hmaker : name ∈ makerNames
  · rw [proxiedUrl_append_maker hmaker]
    simp only [makerNames, List.mem_cons, List.not_mem_nil, or_false] at hmaker
    rcases hmaker with rfl | rfl | rfl
    · obtain ⟨url, ts', rfl, hrun⟩ := oneWord_ok
        (f := fun url (st : LocationReader) => do
          return { st with handler := .proxy (← parseProxyPass lib url) }) h
      obtain ⟨accepted, haccepted, hrun⟩ := EarlyReturn.bind_eq_ok_iff.mp hrun
      rw [← Except.ok.inj hrun, if_pos rfl]
      refine ⟨?_, fun group hgroup => by cases hgroup⟩
      exact (parseProxyPass_ok haccepted).1.symm
    · obtain ⟨s, ts', rfl, hrun⟩ := oneWord_ok
        (f := fun s (st : LocationReader) => do
          let upstream ← parseFastcgiUpstream s
          return { st with handler := .fastCgi ⟨upstream, [], none, 60, 5⟩ }) h
      obtain ⟨upstream, -, hrun⟩ := EarlyReturn.bind_eq_ok_iff.mp hrun
      rw [← Except.ok.inj hrun, if_neg (by decide)]
      exact ⟨rfl, fun group hgroup => by cases hgroup⟩
    · have hparsed : parsed parseReturn (fun rd (st : LocationReader) =>
          { st with returnDirective := some rd, handler := .return rd }) st ts =
            .ok (st', rest) := h
      obtain ⟨rd, rest₁, rest₂, -, hrun⟩ := bind_ok hparsed
      obtain rfl := congrArg Prod.fst (Except.ok.inj hrun)
      rw [if_neg (by decide)]
      exact ⟨rfl, fun group hgroup => by cases hgroup⟩
  · rw [proxiedUrl_append_other hmaker]
    exact keeps_runDirective_of_not_mem (locationDirectives_goesTo lib _) keeps_unknown hmaker
      st hst ts st' rest h

/-- The proxy of a location goes where its text says, and no location has a group. -/
theorem location_goesTo
    (h : LocationText lib loc ts) :
    (∀ url, proxiedUrl lib (locationItems lib ts) = some url ↔
        ∃ pc, loc.handler = .proxy pc ∧ pc.upstream = url) ∧
      ∀ group, loc.handler ≠ .upstreamGroup group := by
  obtain ⟨st, pattern, rfl, hst⟩ := location_rule lib
    (P := fun items st => GoesTo (proxiedUrl lib items) st)
    ⟨rfl, fun group hgroup => by cases hgroup⟩
    (fun before name st ts st' rest hst hstep => goesTo_step hst hstep) h
  refine ⟨fun url => ?_, hst.2⟩
  have hhandler : (st.finish pattern).handler = st.handler := rfl
  rw [← hst.1, upstreamOf, hhandler]
  cases st.handler <;> simp

theorem locationResolves_iff
    {zones groups : List Bytes} (h : LocationText lib loc ts) :
    LocationResolves lib zones groups (locationItems lib ts) loc ↔
      LocationDeclared lib zones groups (locationItems lib ts) := by
  have hlimit : LimitResolves zones (locationItems lib ts) loc.limitReq ↔ _ :=
    limitResolves_iff (location_limitReq h)
  have hgroup := (location_goesTo h).2
  constructor
  · rintro ⟨hzone, hproxy⟩
    exact ⟨hlimit.mp hzone,
      fun url name hurl hhost hmem => hgroup name (hproxy url name hurl hhost hmem)⟩
  · rintro ⟨hzone, hproxy⟩
    exact ⟨hlimit.mpr hzone,
      fun url name hurl hhost hmem => absurd hmem (hproxy url name hurl hhost)⟩

end Location

/-! ### Servers -/

section Zip

variable {α β : Type} {f : α → Option β} {P : α → β → Prop} {Q : α → Prop}

/-- A property of pairs that only depends on where each comes from. -/
theorem forall_zip_iff
    {l : List α} {l' : List β} (h : l.map f = l'.map some)
    (hPQ : ∀ a b, f a = some b → (P a b ↔ Q a)) :
    (∀ p ∈ l.zip l', P p.1 p.2) ↔ ∀ a ∈ l, Q a := by
  induction l generalizing l' with
  | nil => simp
  | cons a l ih =>
      cases l' with
      | nil => cases h
      | cons b l' =>
          obtain ⟨hab, hrest⟩ := List.cons.inj h
          rw [List.zip_cons_cons, List.forall_mem_cons, List.forall_mem_cons, ih hrest,
            hPQ a b hab]

end Zip

section Server

variable {lib : Libraries} {ts : List Token} {server : ServerBlock}

theorem server_limitReq
    (h : ServerText lib server ts) :
    server.limitReq = limitOf (serverItems lib ts) := by
  obtain ⟨rest, h⟩ := h
  obtain ⟨st, rest₁, rest₂, hblock, h⟩ := bind_ok h
  obtain rfl : st.block = server := congrArg Prod.fst (Except.ok.inj h)
  have hnames : ∀ e ∈ serverFields, e.2 = .limitReq → e.1 = ascii "limit_req" := by
    decide
  have hfield := parseBlock_field (j := ServerField.limitReq) (ascii "limit_req")
    parseLimitReq (serverDirectives_shapes lib) serverShapes_edit
    (keeps_serverNested .limitReq (by decide)) rfl
    (fun args st st' h => by cases h; rfl) (fun other hmem => hnames _ hmem rfl) hblock
  exact hfield.trans (by rw [limitOf, serverItems]; cases (itemRows _ _).getLast? <;> rfl)

theorem locationTexts_append
    (before : List (Bytes × List Token)) (name : Bytes) (ts : List Token) :
    locationTexts (before ++ [(name, ts)]) =
      locationTexts before ++ if name = ascii "location" then [ts] else [] := by
  unfold locationTexts
  by_cases h : name = ascii "location" <;> simp [h]

/-- The locations of a server block are read from their texts, in their order. -/
theorem server_locations
    (h : ServerText lib server ts) :
    (locationTexts (serverItems lib ts)).map (Parse.value (parseLocation lib)) =
      server.locations.map some := by
  obtain ⟨rest, h⟩ := h
  obtain ⟨st, rest₁, rest₂, hblock, h⟩ := bind_ok h
  obtain rfl : st.block = server := congrArg Prod.fst (Except.ok.inj h)
  refine block_rule (P := fun items (st : ServerReader) =>
    (locationTexts items).map (Parse.value (parseLocation lib)) = st.block.locations.map some)
    ?_ rfl hblock
  intro before name st ts st' rest hst hstep
  have hsame : name ≠ ascii "location" → st'.block.locations = st.block.locations →
      (locationTexts (before ++ [(name, ts)])).map (Parse.value (parseLocation lib)) =
        st'.block.locations.map some := by
    intro hname hlocs
    rw [locationTexts_append, if_neg hname, List.append_nil, hlocs]
    exact hst
  rcases server_step lib hstep with ⟨realm, ts', rfl, rfl, heq⟩ |
    ⟨file, ts', rfl, rfl, realm, heq⟩ | ⟨loc, rfl, ⟨rest', htext⟩, heq⟩ | ⟨-, -, hname, heq⟩
  · exact hsame (by decide) (congrArg Prod.snd heq)
  · exact hsame (by decide) (congrArg Prod.snd heq)
  · have hvalue : Parse.value (parseLocation lib) ts = some loc :=
      value_eq_some_iff.mpr ⟨rest'.1, reads_of_ok htext⟩
    have hlocs : st'.block.locations = st.block.locations ++ [loc] := congrArg Prod.snd heq
    rw [locationTexts_append, if_pos rfl, hlocs, List.map_append, List.map_append, hst,
      List.map_singleton, List.map_singleton, hvalue]
  · exact hsame hname (congrArg Prod.snd heq)

theorem serverResolves_iff
    {zones groups : List Bytes} (h : ServerText lib server ts) :
    ServerResolves lib zones groups ts server ↔ ServerDeclared lib zones groups ts := by
  have hlocations := forall_zip_iff (server_locations h)
    (P := fun lts loc => LocationResolves lib zones groups (locationItems lib lts) loc)
    (Q := fun lts => LocationDeclared lib zones groups (locationItems lib lts))
    fun lts loc hvalue => by
      obtain ⟨rest, hle, hread⟩ := value_eq_some_iff.mp hvalue
      exact locationResolves_iff ⟨_, hread⟩
  have hlimit : LimitResolves zones (serverItems lib ts) server.limitReq ↔ _ :=
    limitResolves_iff (server_limitReq h)
  constructor
  · rintro ⟨hzone, hlocs⟩
    exact ⟨hlimit.mp hzone, hlocations.mp hlocs⟩
  · rintro ⟨hzone, hlocs⟩
    exact ⟨hlimit.mpr hzone, hlocations.mpr hlocs⟩

end Server

/-! ### The http block -/

section Http

variable {lib : Libraries} {files : ConfigFiles} {path : Bytes}

/-- The zones and the groups of an http block are these. -/
def Defines (http : HttpBlock) (zones groups : List Bytes) : Prop :=
  http.limitReqZones.map LimitReqZoneDef.name = zones ∧
    http.upstreamGroups.map UpstreamGroupDef.name = groups

theorem defines_of_servers
    {http http' : HttpBlock} {zones groups : List Bytes}
    (h : Defines http zones groups) (hzones : http'.limitReqZones = http.limitReqZones)
    (hgroups : http'.upstreamGroups = http.upstreamGroups) :
    Defines http' zones groups := by
  unfold Defines
  rw [hzones, hgroups]
  exact h

theorem zonesOf_append_zone
    (before : List (Bytes × List Token)) (args : List Bytes) (rest : List Token) :
    zonesOf lib (before ++ [(ascii "limit_req_zone", words args ++ .semicolon :: rest)]) =
      zonesOf lib before ++
        ((parseLimitReqZone lib args).toList.map LimitReqZoneDef.name) := by
  rw [zonesOf, itemRows_append_self, leadingWords_row, List.filterMap_append, zonesOf]
  cases h : parseLimitReqZone lib args <;> simp [h]

theorem zonesOf_append_other
    {name : Bytes} {before : List (Bytes × List Token)} {ts : List Token}
    (h : name ≠ ascii "limit_req_zone") :
    zonesOf lib (before ++ [(name, ts)]) = zonesOf lib before := by
  rw [zonesOf, itemRows_append_other h, zonesOf]

/-- The directives of an upstream block leave its name as it is. -/
theorem keeps_upstreamName
    (c name : Bytes) :
    Keeps (fun g : UpstreamGroupDef => g.name = c)
      (runDirective upstreamDirectives unknownUpstreamDirective name) := by
  have hpolicy : ∀ policy, Keeps (fun g : UpstreamGroupDef => g.name = c)
      (policyDirective policy) :=
    fun policy g hg => gives_bind_any fun _ => gives_pure hg
  have hunknown : Keeps (fun g : UpstreamGroupDef => g.name = c) unknownUpstreamDirective := by
    intro g hg
    refine gives_bind_any fun _ => gives_bind_any fun t => ?_
    split
    · exact gives_bind_any fun _ => gives_pure hg
    · exact gives_pure hg
  have htable : ∀ entry ∈ upstreamDirectives,
      entry.1 ∈ ([] : List Bytes) ∨ Keeps (fun g : UpstreamGroupDef => g.name = c) entry.2 := by
    simp only [upstreamDirectives, List.forall_mem_cons]
    exact ⟨.inr (keeps_parsed fun _ _ h => h), .inr (hpolicy _), .inr (hpolicy _),
      .inr (hpolicy _), .inr (keeps_word fun _ _ h => h), .inr (keeps_word fun _ _ h => h),
      .inr (keeps_word fun _ _ h => h), .inr (keeps_anyWords fun _ _ h => h), by simp⟩
  exact keeps_runDirective_of_not_mem htable hunknown List.not_mem_nil

/-- An upstream block is named by its first word. -/
theorem parseUpstream_ok
    {ts : List Token} {group : UpstreamGroupDef} {rest : Rest ts}
    (h : parseUpstream ts = .ok (group, rest)) :
    ∃ ts', ts = .word group.name :: ts' := by
  obtain ⟨name, rest₁, rest₂, hname, h⟩ := bind_ok h
  obtain ⟨_, rest₃, rest₄, _, h⟩ := bind_ok h
  have hkept : group.name = name :=
    keeps_block (keeps_upstreamName name) _ rfl _ _ _ h
  rw [hkept]
  exact expectWord_ok hname

variable (lib files path) in
/-- Of the directives of an http block, only two change its zones and its groups. -/
theorem defines_step
    {before : List (Bytes × List Token)} {name : Bytes} {st st' : HttpReader} {ts : List Token}
    {rest : Rest ts}
    (hst : Defines st.http (zonesOf lib before) (groupsOf before))
    (h : runDirective (httpDirectives lib files path) unknownDirective name st ts =
      .ok (st', rest)) :
    Defines st'.http (zonesOf lib (before ++ [(name, ts)]))
      (groupsOf (before ++ [(name, ts)])) := by
  have hadd : ∀ (s : HttpReader) server, Defines s.http (zonesOf lib before) (groupsOf before) →
      Defines (s.add server).http (zonesOf lib before) (groupsOf before) :=
    fun s server hs => hs
  by_cases hzone : name = ascii "limit_req_zone"
  · subst hzone
    obtain ⟨args, hts, heq⟩ := (simple_anyWords _ st ts st' rest.1).mp (reads_of_ok h)
    obtain rfl := Option.some.inj heq
    have hgroups : groupsOf (before ++ [(ascii "limit_req_zone", ts)]) = groupsOf before :=
      itemArgs_append_other (by decide)
    rw [hgroups, hts, zonesOf_append_zone, ← hst.1]
    exact ⟨List.map_append, hst.2⟩
  by_cases hupstream : name = ascii "upstream"
  · subst hupstream
    obtain ⟨group, rest₁, rest₂, hgroup, hread⟩ := bind_ok h
    obtain ⟨ts', hts⟩ := parseUpstream_ok hgroup
    obtain rfl := congrArg Prod.fst (Except.ok.inj hread)
    have hgroups : groupsOf (before ++ [(ascii "upstream", ts)]) =
        groupsOf before ++ [group.name] := by
      rw [hts]
      exact itemArgs_append_word
    rw [zonesOf_append_other (by decide), hgroups, ← hst.2]
    exact ⟨hst.1, List.map_append⟩
  have hzones : zonesOf lib (before ++ [(name, ts)]) = zonesOf lib before :=
    zonesOf_append_other hzone
  have hgroups : groupsOf (before ++ [(name, ts)]) = groupsOf before :=
    itemArgs_append_other hupstream
  rw [hzones, hgroups]
  by_cases hserver : name = ascii "server"
  · subst hserver
    exact keeps_serverDirective hadd st hst ts st' rest h
  by_cases hinclude : name = ascii "include"
  · subst hinclude
    exact keeps_includeDirective files path hadd st hst ts st' rest h
  have hparts := http_otherParts lib files path
    (by simp [partDirectives, hzone, hupstream, hserver, hinclude]) h
  exact defines_of_servers hst (congrArg HttpParts.zones hparts) (congrArg HttpParts.groups hparts)

/-- The zones and the groups of an http block are those that its directives define. -/
theorem httpBlock_defines
    {ts : List Token} {rest : Rest ts} {http : HttpBlock}
    (h : parseHttpBlock lib files path ts = .ok (http, rest)) :
    Defines http (zonesOf lib (httpItems lib files path ts))
      (groupsOf (httpItems lib files path ts)) := by
  obtain ⟨st, rest₁, rest₂, hblock, h⟩ := bind_ok h
  obtain rfl : st.http = http := congrArg Prod.fst (Except.ok.inj h)
  exact block_rule (P := fun items (st : HttpReader) =>
      Defines st.http (zonesOf lib items) (groupsOf items))
    (fun before name st ts st' rest hst hstep => defines_step lib files path hst hstep)
    ⟨rfl, rfl⟩ hblock

end Http

/-! ### Whole configurations -/

section Root

variable {lib : Libraries} {files : ConfigFiles} {path : Bytes}
  {sub : Option (Bytes → List Token → Except ConfigError Config)}

theorem lastHttp_append
    (before : List (Bytes × List Token)) (item : Bytes × List Token) :
    lastHttp (before ++ [item]) = (bodyOf (ascii "http") item).or (lastHttp before) := by
  unfold lastHttp
  cases h : bodyOf (ascii "http") item <;> simp [h]

theorem loadedHttp_append_http
    (before : List (Bytes × List Token)) (body : List Token) :
    loadedHttp lib files path (before ++ [(ascii "http", .openBrace :: body)]) =
      httpItems lib files path body := by
  rw [loadedHttp, lastHttp_append, bodyOf_block, Option.some_or]

theorem loadedHttp_append_other
    {name : Bytes} {before : List (Bytes × List Token)} {ts : List Token}
    (h : name ≠ ascii "http") :
    loadedHttp lib files path (before ++ [(name, ts)]) = loadedHttp lib files path before := by
  rw [loadedHttp, lastHttp_append, bodyOf_ne h, Option.none_or, loadedHttp]

/-- An include at the root adds servers and nothing else. -/
theorem keeps_rootInclude
    {zones groups : List Bytes} :
    Keeps (fun cfg : Config => Defines cfg.http zones groups)
      (oneWord (handleInclude files path sub)) := by
  refine keeps_oneWord fun pattern cfg cfg' hcfg h => ?_
  cases sub with
  | none => cases h
  | some parseSub =>
      simp only [handleInclude] at h
      refine ConfigFiles.forEach_rule (P := fun _ (cfg : Config) => Defines cfg.http zones groups)
        (fun _ entry tokens cfg cfg' hcfg hone => ?_) hcfg h
      obtain ⟨subCfg, -, hend⟩ := EarlyReturn.bind_eq_ok_iff.mp hone
      obtain rfl := Except.ok.inj hend
      exact hcfg

/-- The last http block decides what is defined. -/
theorem rootDirective_defines
    {before : List (Bytes × List Token)} {name : Bytes} {cfg cfg' : Config} {ts : List Token}
    {rest : Rest ts}
    (hcfg : Defines cfg.http (zonesOf lib (loadedHttp lib files path before))
      (groupsOf (loadedHttp lib files path before)))
    (h : runDirective (rootDirectives lib files path sub) unknownDirective name cfg ts =
      .ok (cfg', rest)) :
    Defines cfg'.http (zonesOf lib (loadedHttp lib files path (before ++ [(name, ts)])))
      (groupsOf (loadedHttp lib files path (before ++ [(name, ts)]))) := by
  by_cases hhttp : name = ascii "http"
  · subst hhttp
    obtain ⟨_, body, hopen, hbody⟩ := reads_bind_iff.mp (reads_of_ok h)
    obtain rfl := reads_expectOpen_iff.mp hopen
    obtain ⟨http, mid, ⟨_, hblock⟩, hend⟩ := reads_bind_iff.mp hbody
    obtain ⟨rfl, -⟩ := reads_pure_iff.mp hend
    rw [loadedHttp_append_http]
    exact httpBlock_defines hblock
  rw [loadedHttp_append_other hhttp]
  by_cases hinclude : name = ascii "include"
  · subst hinclude
    exact keeps_rootInclude cfg hcfg ts cfg' rest h
  rw [root_otherHttp lib files path (by simp [httpNames, hhttp, hinclude]) h]
  exact hcfg

end Root

section Load

variable {lib : Libraries} {files : ConfigFiles} {depth : Nat} {path : Bytes}
  {tokens : List Token} {cfg : Config}

theorem parseRoot_defines
    (h : parseRoot lib files depth path tokens = .ok cfg) :
    Defines cfg.http
      (zonesOf lib (loadedHttp lib files path (rootItems lib files depth path tokens)))
      (groupsOf (loadedHttp lib files path (rootItems lib files depth path tokens))) := by
  obtain ⟨rest, hle, hread⟩ := (parseRoot_ok_iff lib files).mp h
  exact block_rule (P := fun items (cfg : Config) => Defines cfg.http
      (zonesOf lib (loadedHttp lib files path items))
      (groupsOf (loadedHttp lib files path items)))
    (fun before name cfg ts cfg' rest hcfg hstep => rootDirective_defines hcfg hstep)
    ⟨rfl, rfl⟩ hread

/-- Servers that are read from blocks refer to what is there where the blocks do. -/
theorem servers_resolve_iff
    {blocks : List Source} {servers : List ServerBlock} {zones groups : List Bytes}
    (h : ReadFrom lib blocks servers) :
    (∀ p ∈ blocks.zip servers, ServerResolves lib zones groups p.1.tokens p.2) ↔
      ∀ source ∈ blocks, ServerDeclared lib zones groups source.tokens := by
  refine forall_zip_iff h (P := fun source server =>
    ServerResolves lib zones groups source.tokens server) fun source server hserver => ?_
  obtain ⟨rest, hle, hread⟩ := value_eq_some_iff.mp hserver
  exact serverResolves_iff ⟨_, hread⟩

/--
The references of a configuration resolve where the text defines every zone that one of its
servers or locations asks for, and where no location is sent to a group.
-/
theorem references_iff
    (h : parseRoot lib files depth path tokens = .ok cfg) :
    Resolves lib files depth path tokens cfg ↔ ReferencesDeclared lib files depth path tokens := by
  obtain ⟨hzones, hgroups⟩ := parseRoot_defines h
  unfold Resolves
  rw [hzones, hgroups]
  exact servers_resolve_iff (parseRoot_kept h)

/-- One block that refers to nothing is enough. -/
theorem not_resolves
    {source : Source} (h : parseRoot lib files depth path tokens = .ok cfg)
    (hsource : source ∈ rootKept lib files depth path tokens)
    (hserver : ¬ ServerDeclared lib (cfg.http.limitReqZones.map LimitReqZoneDef.name)
      (cfg.http.upstreamGroups.map UpstreamGroupDef.name) source.tokens) :
    ¬ Resolves lib files depth path tokens cfg :=
  fun hresolves => hserver ((servers_resolve_iff (parseRoot_kept h)).mp hresolves source hsource)

end Load

/-! ### Texts -/

/-- A library that reads whole rates and the URL of one host. -/
def groupLibrary : Libraries where
  parseUrl := fun raw =>
    if raw = ascii "http://app" then
      some ⟨ascii "http", some (.domain (ascii "app")), none, ascii "/"⟩
    else none
  compileRegex := fun _ => none
  parseFloat := fun s => (Decimal.parseUnsigned Decimal.u64Bound s).map Nat.cast

/-- What a text is read as, so far as references go. -/
def referencesOf (src : Bytes) : Option (List Bytes × List Bytes) :=
  (loadFromStr groupLibrary noFiles src).toOption.map fun cfg =>
    (cfg.http.limitReqZones.map LimitReqZoneDef.name,
      cfg.http.upstreamGroups.map UpstreamGroupDef.name)

theorem referencesOf_ok
    {src : Bytes} {zones groups : List Bytes}
    (h : referencesOf src = some (zones, groups)) :
    ∃ cfg, loadFromStr groupLibrary noFiles src = .ok cfg ∧
      cfg.http.limitReqZones.map LimitReqZoneDef.name = zones ∧
      cfg.http.upstreamGroups.map UpstreamGroupDef.name = groups := by
  obtain ⟨cfg, hcfg, heq⟩ := Option.map_eq_some_iff.mp h
  exact ⟨cfg, EarlyReturn.toOption_eq_some_iff.mp hcfg, (Prod.mk.inj heq).1, (Prod.mk.inj heq).2⟩

/-- The references of a text that is loaded as a string. -/
def StringResolves (src : Bytes) (cfg : Config) : Prop :=
  Resolves groupLibrary noFiles maxIncludeDepth (ascii "<string>") (tokenize src) cfg

/-- A limit of a zone that is defined. -/
def definedZone : Bytes :=
  ascii "http \x7b limit_req_zone zone=z:1m rate=5r/s; server \x7b limit_req zone=z; \x7d \x7d"

theorem references_example :
    ∃ cfg, loadFromStr groupLibrary noFiles definedZone = .ok cfg ∧
      StringResolves definedZone cfg := by
  have hread : referencesOf definedZone = some ([ascii "z"], []) := by decide +kernel
  obtain ⟨cfg, hload, -⟩ := referencesOf_ok hread
  refine ⟨cfg, hload, (references_iff hload).mpr fun source hsource => ?_⟩
  have htext : ∀ source ∈ rootKept groupLibrary noFiles maxIncludeDepth (ascii "<string>")
      (tokenize definedZone),
        (∀ args ∈ itemRows (ascii "limit_req") (serverItems groupLibrary source.tokens),
          ∃ lr ∈ parseLimitReq args, lr.zone ∈ zonesOf groupLibrary
            (loadedHttp groupLibrary noFiles (ascii "<string>") (rootItems groupLibrary noFiles
              maxIncludeDepth (ascii "<string>") (tokenize definedZone)))) ∧
          locationTexts (serverItems groupLibrary source.tokens) = [] := by
    decide +kernel
  obtain ⟨hlimit, hlocations⟩ := htext source hsource
  exact ⟨hlimit, by simp [hlocations]⟩

/-- A limit of a zone that nothing defines. -/
def undefinedZone : Bytes :=
  ascii "http \x7b server \x7b limit_req zone=z; \x7d \x7d"

/-- A proxy to a group that is declared. -/
def groupProxied : Bytes :=
  ascii "http \x7b upstream app \x7b \x7d server \x7b location / \x7b " ++
    ascii "proxy_pass http://app; \x7d \x7d \x7d"

/-- Both texts are accepted, and neither reference leads anywhere. -/
theorem references_dangle :
    (∃ cfg, loadFromStr groupLibrary noFiles undefinedZone = .ok cfg ∧
      ¬ StringResolves undefinedZone cfg) ∧
    ∃ cfg, loadFromStr groupLibrary noFiles groupProxied = .ok cfg ∧
      ¬ StringResolves groupProxied cfg := by
  constructor
  · have hread : referencesOf undefinedZone = some ([], []) := by decide +kernel
    obtain ⟨cfg, hload, hzones, hgroups⟩ := referencesOf_ok hread
    have hsource : ∃ source ∈ rootKept groupLibrary noFiles maxIncludeDepth (ascii "<string>")
        (tokenize undefinedZone),
          itemRows (ascii "limit_req") (serverItems groupLibrary source.tokens) ≠ [] := by
      decide +kernel
    obtain ⟨source, hmem, hrows⟩ := hsource
    refine ⟨cfg, hload, not_resolves hload hmem fun hserver => ?_⟩
    rw [hzones] at hserver
    obtain ⟨lr, -, hzone⟩ := hserver.limit _ (List.getLast_mem hrows)
    cases hzone
  · have hread : referencesOf groupProxied = some ([], [ascii "app"]) := by decide +kernel
    obtain ⟨cfg, hload, hzones, hgroups⟩ := referencesOf_ok hread
    have hsource : ∃ source ∈ rootKept groupLibrary noFiles maxIncludeDepth (ascii "<string>")
        (tokenize groupProxied), ∃ lts ∈ locationTexts (serverItems groupLibrary source.tokens),
          (proxiedUrl groupLibrary (locationItems groupLibrary lts)).bind Url.hostStr =
            some (ascii "app") := by
      decide +kernel
    obtain ⟨source, hmem, lts, hlts, hproxied⟩ := hsource
    obtain ⟨url, hurl, hhost⟩ := Option.bind_eq_some_iff.mp hproxied
    refine ⟨cfg, hload, not_resolves hload hmem fun hserver => ?_⟩
    rw [hgroups] at hserver
    exact (hserver.locations lts hlts).proxy url _ hurl hhost List.mem_cons_self

end ConfigParser
end RunNginx
