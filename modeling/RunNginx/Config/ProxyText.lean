import RunNginx.Config.Provenance

/-!
# The proxy settings in the text of a location

A location that ends up with a proxy has the URL of its last `proxy_pass`, as the parser
has accepted it, and may contact internal addresses only if it says so.
-/

namespace RunNginx
namespace ConfigParser

open ByteString Parse

variable (lib : Libraries)

/-- The upstream of the proxy that is read, and whether internal addresses are allowed. -/
def proxyOf (st : LocationReader) : Option (Url × Bool) :=
  match st.handler with
  | .proxy pc => some (pc.upstream, pc.allowInternal)
  | _ => none

/-- The location has a proxy whose upstream and permission are these. -/
def ProxyIs (a : Option (Url × Bool)) (st : LocationReader) : Prop :=
  ∀ p ∈ proxyOf st, a = some p

/-- Only two directives of a location change where its proxy goes. -/
theorem locationDirectives_proxy
    (a : Option (Url × Bool)) :
    ∀ entry ∈ locationDirectives lib,
      entry.1 ∈ [ascii "proxy_pass", ascii "proxy_allow_internal"] ∨
        Keeps (ProxyIs a) entry.2 := by
  have hfcgi : ∀ f st, ProxyIs a st → ProxyIs a (onFastCgi f st) := by
    intro f st hst
    unfold onFastCgi
    split
    · intro p hp
      cases hp
    · exact hst
  have hproxy : ∀ f st,
      (∀ pc : ProxyConfig, (f pc).upstream = pc.upstream ∧
        (f pc).allowInternal = pc.allowInternal) →
      ProxyIs a st → ProxyIs a (onProxy f st) := by
    intro f st hf hst
    unfold onProxy
    split
    · rename_i pc hpc
      intro p hp
      refine hst p ?_
      simpa [proxyOf, hpc, hf] using hp
    · exact hst
  simp only [locationDirectives, List.forall_mem_cons]
  refine ⟨Or.inr (keeps_check fun _ _ h => h), Or.inr (keeps_anyWords fun _ _ h => h),
    Or.inr (keeps_anyWords fun _ _ h => h), Or.inl (by simp), Or.inr (keeps_check ?_),
    Or.inr (keeps_twoWords fun _ _ _ h => hfcgi _ _ h),
    Or.inr (keeps_word fun _ _ h => hfcgi _ _ h), Or.inr (keeps_word fun _ _ h => hfcgi _ _ h),
    Or.inr (keeps_twoWords fun _ _ _ h => hproxy _ _ (fun _ => ⟨rfl, rfl⟩) h),
    Or.inr (keeps_word fun _ _ h => hproxy _ _ (fun _ => ⟨rfl, rfl⟩) h),
    Or.inr (keeps_word fun _ _ h => hproxy _ _ (fun _ => ⟨rfl, rfl⟩) h), Or.inl (by simp),
    Or.inr (keeps_parsed fun _ _ h => h), Or.inr (keeps_checkedWord fun _ _ h => h),
    Or.inr (keeps_parsed ?_), Or.inr (keeps_word fun _ _ h => h),
    Or.inr (keeps_anyWords fun _ _ h => h), Or.inr (keeps_parsed fun _ _ h => h),
    Or.inr (keeps_word ?_), Or.inr (keeps_word fun _ _ h => h), by simp⟩
  · intro upstream st _ p hp
    cases hp
  · intro rd st _ p hp
    cases hp
  · intro realm st hst
    split
    · exact hst
    · exact hst

/-- What the text of a location says about its proxy. -/
structure ProxyText (items : List (Bytes × List Token)) (upstream : Url) (allowed : Bool) :
    Prop where
  accepted : ∃ url, (itemArgs (ascii "proxy_pass") items).getLast? = some url ∧
    lib.parseUrl url = some upstream
  allowed : allowed = true → ascii "on" ∈ itemArgs (ascii "proxy_allow_internal") items

theorem itemArgs_append_word
    {name v : Bytes} {ts : List Token} {before : List (Bytes × List Token)} :
    itemArgs name (before ++ [(name, .word v :: ts)]) = itemArgs name before ++ [v] := by
  simp [itemArgs, itemArg, wordOf]

theorem itemArgs_append_other
    {name other : Bytes} {ts : List Token} {before : List (Bytes × List Token)}
    (h : other ≠ name) :
    itemArgs name (before ++ [(other, ts)]) = itemArgs name before := by
  simp [itemArgs, itemArg, h]

theorem proxyText_step
    {before : List (Bytes × List Token)} {name : Bytes} {st st' : LocationReader}
    {ts : List Token} {rest : Rest ts}
    (hst : ∀ p ∈ proxyOf st, ProxyText lib before p.1 p.2)
    (h : runDirective (locationDirectives lib) unknownDirective name st ts = .ok (st', rest)) :
    ∀ p ∈ proxyOf st', ProxyText lib (before ++ [(name, ts)]) p.1 p.2 := by
  by_cases hpass : name = ascii "proxy_pass"
  · subst hpass
    obtain ⟨url, ts', rfl, hrun⟩ := oneWord_ok
      (f := fun url (st : LocationReader) => do
        return { st with handler := .proxy (← parseProxyPass lib url) }) h
    obtain ⟨accepted, haccepted, hrun⟩ := EarlyReturn.bind_eq_ok_iff.mp hrun
    intro p hp
    rw [← Except.ok.inj hrun] at hp
    obtain rfl : (accepted.upstream, accepted.allowInternal) = p := Option.some.inj hp
    obtain ⟨hurl, hnot⟩ := parseProxyPass_ok haccepted
    refine ⟨⟨url, ?_, hurl⟩, fun hallowed => ?_⟩
    · rw [itemArgs_append_word, List.getLast?_concat]
    · rw [hnot] at hallowed
      cases hallowed
  by_cases hallow : name = ascii "proxy_allow_internal"
  · subst hallow
    obtain ⟨v, ts', rfl, hrun⟩ := oneWord_ok
      (f := fun v (st : LocationReader) =>
        .ok (onProxy (fun pc => { pc with allowInternal := v == ascii "on" }) st)) h
    intro p hp
    rw [← Except.ok.inj hrun] at hp
    unfold onProxy at hp
    split at hp
    · rename_i pc hpc
      obtain rfl : (pc.upstream, v == ascii "on") = p := Option.some.inj hp
      obtain ⟨haccepted, _⟩ := hst (pc.upstream, pc.allowInternal) (by simp [proxyOf, hpc])
      refine ⟨?_, fun hallowed => ?_⟩
      · rw [itemArgs_append_other (by decide)]
        exact haccepted
      · rw [itemArgs_append_word]
        simp [eq_of_beq hallowed]
    · rename_i hnot
      unfold proxyOf at hp
      split at hp
      · rename_i pc hpc
        exact absurd hpc (hnot pc)
      · cases hp
  · have hkept := keeps_runDirective_of_not_mem (locationDirectives_proxy lib (proxyOf st))
      keeps_unknown (by simp [hpass, hallow]) st (fun p hp => hp) ts st' rest h
    intro p hp
    obtain ⟨haccepted, hallowed⟩ := hst p (hkept p hp)
    refine ⟨?_, ?_⟩
    · rw [itemArgs_append_other hpass]
      exact haccepted
    · rw [itemArgs_append_other hallow]
      exact hallowed

/-- A proxy goes where the text of its location says. -/
theorem location_proxy
    {loc : LocationBlock} {ts : List Token} {pc : ProxyConfig}
    (h : LocationText lib loc ts) (hproxy : loc.handler = .proxy pc) :
    ProxyText lib (locationItems lib ts) pc.upstream pc.allowInternal := by
  obtain ⟨st, pattern, hloc, hread⟩ := location_rule lib
    (P := fun items (st : LocationReader) => ∀ p ∈ proxyOf st, ProxyText lib items p.1 p.2)
    (fun p hp => by cases hp)
    (fun before name st ts st' rest hst hstep => proxyText_step lib hst hstep) h
  have hhandler : st.handler = .proxy pc := by
    rw [← hloc] at hproxy
    exact hproxy
  exact hread (pc.upstream, pc.allowInternal) (by simp [proxyOf, hhandler])

end ConfigParser
end RunNginx
