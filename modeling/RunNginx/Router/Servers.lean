import RunNginx.Config.Blocks
import RunNginx.Lib.Longest
import RunNginx.Router
import Mathlib.Data.List.Pairwise
import Mathlib.Tactic.Set

/-!
# The choice of a server

`select_server` goes through the server blocks once for each class of names.  In front it
cuts the host at its first colon, and behind the names it looks for a block named `_`; the
`default_server` flag that the parser reads is not looked at.

`selectServer_due_iff`: when the block is the one due.  `orderFree_iff`: when the choice does
not depend on the order of the blocks.
-/

namespace RunNginx
namespace Router

open ByteString Longest

section Order

/-- The block with a matching name of the best class. -/
def byName (servers : List ServerBlock) (host : Bytes) : Option ServerBlock :=
  (serverNamed servers isExact host)
    |>.or (serverNamed servers isWildcard host)
    |>.or (serverNamed servers isSuffix host)

def catchAll (servers : List ServerBlock) : Option ServerBlock :=
  servers.find? fun srv => srv.serverNames.any fun n => n == .catchAll

/-- The block whose listen directive carries `default_server`. -/
def defaultServer (servers : List ServerBlock) : Option ServerBlock :=
  servers.find? fun srv => srv.listen.any ListenDirective.defaultServer

/-- The host without its port, where a bracketed address is kept whole. -/
def bracketedHost (host : Bytes) : Bytes :=
  let trimmed := Utf8.trim host
  if trimmed.head? = some 91 ∧ 93 ∈ trimmed then
    trimmed.takeWhile (· ≠ 93) ++ [93]
  else hostName host

/-- The block due for a host. -/
def dueServer (servers : List ServerBlock) (host : Bytes) : Option ServerBlock :=
  (byName servers (bracketedHost host))
    |>.or (defaultServer servers)
    |>.or (catchAll servers)
    |>.or servers.head?

/-- The block for a host that no name matches. -/
def fallback (servers : List ServerBlock) : Option ServerBlock :=
  (catchAll servers).or servers.head?

theorem selectServer_eq
    (servers : List ServerBlock) (host : Bytes) :
    selectServer servers host = (byName servers (hostName host)).or (fallback servers) := by
  unfold selectServer byName fallback catchAll
  simp only [Option.or_assoc]

theorem dueServer_eq
    (servers : List ServerBlock) (host : Bytes) :
    dueServer servers host =
      (byName servers (bracketedHost host)).or
        ((defaultServer servers).or (fallback servers)) := by
  unfold dueServer fallback
  simp only [Option.or_assoc]

/--
What it takes for the due block to be chosen: the host as it is cut names the same block as
the full host, or the block that is chosen is the due one even so.
-/
def ServedAsDue (servers : List ServerBlock) (host : Bytes) : Prop :=
  match byName servers (hostName host), byName servers (bracketedHost host) with
  | some b, some b' => b = b'
  | some b, none => (defaultServer servers).or (fallback servers) = some b
  | none, some b' => fallback servers = some b'
  | none, none => ∀ b ∈ defaultServer servers, fallback servers = some b

/-- There is a block for every host. -/
theorem selectServer_isSome
    (first : ServerBlock) (rest : List ServerBlock) (host : Bytes) :
    (selectServer (first :: rest) host).isSome = true := by
  rw [selectServer_eq, fallback, List.head?_cons]
  simp

theorem selectServer_due_iff
    (first : ServerBlock) (rest : List ServerBlock) (host : Bytes) :
    selectServer (first :: rest) host = dueServer (first :: rest) host ↔
      ServedAsDue (first :: rest) host := by
  rw [selectServer_eq, dueServer_eq]
  unfold ServedAsDue
  generalize first :: rest = servers
  cases byName servers (hostName host) with
  | some b =>
      rw [Option.some_or]
      cases byName servers (bracketedHost host) with
      | some b' => exact Option.some_inj
      | none => exact eq_comm
  | none =>
      rw [Option.none_or]
      cases byName servers (bracketedHost host) with
      | some b' => rfl
      | none =>
          rw [Option.none_or]
          cases defaultServer servers with
          | none => simp
          | some b => simp

/-- For a host without brackets only the `default_server` flag matters. -/
theorem servedAsDue_of_plain
    {servers : List ServerBlock} {host : Bytes}
    (hplain : (Utf8.trim host).head? ≠ some 91) :
    ServedAsDue servers host ↔
      byName servers (hostName host) = none →
        ∀ b ∈ defaultServer servers, fallback servers = some b := by
  have hhost : bracketedHost host = hostName host := if_neg fun h => hplain h.1
  unfold ServedAsDue
  rw [hhost]
  cases byName servers (hostName host) <;> simp

/-- A server with nothing but names and a listen directive. -/
def namedServer (names : List ServerName) (isDefault : Bool) : ServerBlock :=
  { ConfigParser.ServerReader.initial.block with
    listen := [⟨⟨.v4 ⟨0, 0, 0, 0⟩, 80⟩, false, false, isDefault⟩]
    serverNames := names }

/-- The `default_server` is passed over, and the literal `[::1]` is cut to `[`. -/
theorem default_server_ignored :
    let a := namedServer [.exact (ascii "a")] false
    let b := namedServer [.exact (ascii "[::1]")] true
    selectServer [a, b] (ascii "other") ≠ dueServer [a, b] (ascii "other") ∧
      selectServer [a, b] (ascii "[::1]:80") ≠ dueServer [a, b] (ascii "[::1]:80") := by
  have hnames : ∀ {s t : Option ServerBlock},
      s.map ServerBlock.serverNames ≠ t.map ServerBlock.serverNames → s ≠ t :=
    fun h heq => h (congrArg _ heq)
  exact ⟨hnames (by decide), hnames (by decide)⟩

end Order

section Specificity

variable {servers : List ServerBlock} {host : Bytes}

/-- A block has a name of this class that matches the host. -/
def HasName (class_ : ServerName → Bool) (host : Bytes) (srv : ServerBlock) : Prop :=
  ∃ n ∈ srv.serverNames, class_ n = true ∧ n.matches host = true

/-- The names are the same but for case. -/
def sameName : ServerName → ServerName → Bool
  | .exact n, .exact m => eqIgnoreCase n m
  | .wildcard n, .wildcard m => eqIgnoreCase n m
  | .suffix n, .suffix m => eqIgnoreCase n m
  | .catchAll, .catchAll => true
  | _, _ => false

/-- The best class of names that match the host. -/
def bestClass (servers : List ServerBlock) (host : Bytes) : ServerName → Bool :=
  if (serverNamed servers isExact host).isSome then isExact
  else if (serverNamed servers isWildcard host).isSome then isWildcard
  else isSuffix

/-- The length of a name of a class that matches the host. -/
def nameLength (class_ : ServerName → Bool) (host : Bytes) (n : ServerName) : Option Nat :=
  if class_ n && n.matches host then
    match n with
    | .exact s | .wildcard s | .suffix s => some s.length
    | .catchAll => some 0
  else none

/--
Every order of the blocks gives the same one, which has the longest matching name of the
best class.
-/
def OrderFree (servers : List ServerBlock) (host : Bytes) : Prop :=
  ∃ srv, (∀ servers', servers'.Perm servers → selectServer servers' host = some srv) ∧
    ∃ n ∈ srv.serverNames,
      IsLongest (nameLength (bestClass servers (hostName host)) (hostName host))
        (servers.flatMap ServerBlock.serverNames) n

theorem hasName_iff
    {class_ : ServerName → Bool} {srv : ServerBlock} :
    (srv.serverNames.any fun n => class_ n && n.matches host) = true ↔
      HasName class_ host srv := by
  simp [HasName]

theorem serverNamed_isSome_iff
    {class_ : ServerName → Bool} :
    (serverNamed servers class_ host).isSome = true ↔
      ∃ srv ∈ servers, HasName class_ host srv := by
  unfold serverNamed HasName
  simp

/-- The first hit is the same in every order exactly if all hits are the same. -/
theorem find?_perm_iff
    {α : Type} {p : α → Bool} {l : List α} {x : α}
    (hx : x ∈ l) (hpx : p x = true) :
    (∃ z, ∀ l' : List α, l'.Perm l → l'.find? p = some z) ↔
      ∀ y ∈ l, ∀ z ∈ l, p y = true → p z = true → y = z := by
  constructor
  · rintro ⟨z, hz⟩
    -- an order in which `y` is in front
    have hfront : ∀ y ∈ l, p y = true → y = z := by
      intro y hy hpy
      obtain ⟨s, t, rfl⟩ := List.append_of_mem hy
      have hfirst := hz (y :: (s ++ t)) List.perm_middle.symm
      rw [List.find?_cons_of_pos hpy] at hfirst
      exact Option.some.inj hfirst
    intro y hy y' hy' hpy hpy'
    rw [hfront y hy hpy, hfront y' hy' hpy']
  · intro hall
    refine ⟨x, fun l' hl' => ?_⟩
    cases hfind : l'.find? p with
    | none => exact absurd hpx (List.find?_eq_none.mp hfind x (hl'.mem_iff.mpr hx))
    | some z =>
        have hz : z ∈ l := hl'.mem_iff.mp (List.mem_of_find?_eq_some hfind)
        rw [hall z hz x hx (List.find?_some hfind) hpx]

theorem bestClass_perm
    {servers' : List ServerBlock}
    (h : servers'.Perm servers) :
    bestClass servers' host = bestClass servers host := by
  have hsome : ∀ class_, (serverNamed servers' class_ host).isSome =
      (serverNamed servers class_ host).isSome := fun class_ => by
    rw [Bool.eq_iff_iff, serverNamed_isSome_iff, serverNamed_isSome_iff]
    simp only [h.mem_iff]
  unfold bestClass
  rw [hsome, hsome]

/-- A name other than `_` matches the host. -/
def Named (servers : List ServerBlock) (host : Bytes) : Prop :=
  ∃ srv ∈ servers, ∃ n ∈ srv.serverNames, n ≠ .catchAll ∧ n.matches host = true

/-- Where a name matches, the best class decides. -/
theorem byName_eq
    (hnamed : Named servers host) :
    byName servers host = serverNamed servers (bestClass servers host) host ∧
      ∃ srv ∈ servers, HasName (bestClass servers host) host srv := by
  unfold byName bestClass
  by_cases hexact : (serverNamed servers isExact host).isSome = true
  · rw [if_pos hexact]
    obtain ⟨srv, hsrv⟩ := Option.isSome_iff_exists.mp hexact
    rw [hsrv]
    exact ⟨rfl, serverNamed_isSome_iff.mp hexact⟩
  · rw [if_neg hexact, Option.not_isSome_iff_eq_none.mp hexact, Option.none_or]
    by_cases hwild : (serverNamed servers isWildcard host).isSome = true
    · rw [if_pos hwild]
      obtain ⟨srv, hsrv⟩ := Option.isSome_iff_exists.mp hwild
      rw [hsrv]
      exact ⟨rfl, serverNamed_isSome_iff.mp hwild⟩
    · rw [if_neg hwild, Option.not_isSome_iff_eq_none.mp hwild, Option.none_or]
      refine ⟨rfl, ?_⟩
      rw [serverNamed_isSome_iff] at hexact hwild
      obtain ⟨srv, hsrv, n, hn, hne, hmatch⟩ := hnamed
      refine ⟨srv, hsrv, n, hn, ?_, hmatch⟩
      cases n with
      | exact s => exact absurd ⟨srv, hsrv, _, hn, rfl, hmatch⟩ hexact
      | wildcard s => exact absurd ⟨srv, hsrv, _, hn, rfl, hmatch⟩ hwild
      | suffix s => rfl
      | catchAll => exact absurd rfl hne

/-- Every order of the blocks is scanned for a name of the same class. -/
theorem selectServer_perm
    {servers' : List ServerBlock}
    (hnamed : Named servers (hostName host)) (h : servers'.Perm servers) :
    selectServer servers' host =
      serverNamed servers' (bestClass servers (hostName host)) (hostName host) := by
  have hnamed' : Named servers' (hostName host) := by
    obtain ⟨srv, hsrv, hn⟩ := hnamed
    exact ⟨srv, h.mem_iff.mpr hsrv, hn⟩
  obtain ⟨heq, hsome⟩ := byName_eq hnamed'
  rw [bestClass_perm h] at heq hsome
  obtain ⟨srv, hsrv⟩ := Option.isSome_iff_exists.mp (serverNamed_isSome_iff.mpr hsome)
  rw [selectServer_eq, heq, hsrv, Option.some_or]

theorem nameLength_isSome_iff
    {class_ : ServerName → Bool} {n : ServerName} :
    (nameLength class_ host n).isSome = true ↔ class_ n = true ∧ n.matches host = true := by
  unfold nameLength
  rw [← Bool.and_eq_true]
  cases class_ n && n.matches host with
  | false => simp
  | true => cases n <;> simp

theorem sameName_comm
    (n m : ServerName) :
    sameName n m = sameName m n := by
  cases n <;> cases m <;> simp [sameName, eqIgnoreCase, Bool.beq_comm]

/-- Two exact names that match a host are the same. -/
theorem sameName_of_exact
    {n m : ServerName}
    (hn : isExact n = true ∧ n.matches host = true)
    (hm : isExact m = true ∧ m.matches host = true) :
    sameName n m = true := by
  cases n with
  | exact s =>
      cases m with
      | exact t =>
          have hs : eqIgnoreCase s host = true := hn.2
          have ht : eqIgnoreCase t host = true := hm.2
          unfold eqIgnoreCase at hs ht
          unfold sameName eqIgnoreCase
          rw [beq_iff_eq] at hs ht ⊢
          rw [hs, ht]
      | wildcard t => cases hm.1
      | suffix t => cases hm.1
      | catchAll => cases hm.1
  | wildcard s => cases hn.1
  | suffix s => cases hn.1
  | catchAll => cases hn.1

/-- No two names are the same but for case. -/
def DistinctNames (servers : List ServerBlock) : Prop :=
  (servers.flatMap ServerBlock.serverNames).Pairwise fun n m => sameName n m = false

/-- An exact name that matches is in one block only. -/
theorem exact_unique
    {x y : ServerBlock}
    (hdistinct : DistinctNames servers) (hx : x ∈ servers) (hy : y ∈ servers)
    (hnx : HasName isExact host x) (hny : HasName isExact host y) :
    x = y := by
  by_contra hne
  obtain ⟨n, hn, hclass⟩ := hnx
  obtain ⟨m, hm, hclass'⟩ := hny
  have hsymm : Std.Symm fun x y : ServerBlock =>
      ∀ n ∈ x.serverNames, ∀ m ∈ y.serverNames, sameName n m = false :=
    ⟨fun a b hab n hn m hm => (sameName_comm n m).trans (hab m hm n hn)⟩
  have happart : sameName n m = false :=
    (List.pairwise_flatMap.mp hdistinct).2.forall hx hy hne n hn m hm
  rw [sameName_of_exact hclass hclass'] at happart
  cases happart

/-- The block of the longest name of a class, where only one block has names of it. -/
theorem longest_of_unique
    {class_ : ServerName → Bool} {srv : ServerBlock}
    (hsome : ∃ srv ∈ servers, HasName class_ host srv)
    (hunique : ∀ x ∈ servers, HasName class_ host x → x = srv) :
    ∃ n ∈ srv.serverNames,
      IsLongest (nameLength class_ host) (servers.flatMap ServerBlock.serverNames) n := by
  obtain ⟨x, hx, n, hn, hmatch⟩ := hsome
  obtain ⟨k, hk⟩ := Option.isSome_iff_exists.mp (nameLength_isSome_iff.mpr hmatch)
  obtain ⟨longest, hlongest⟩ := exists_isLongest (List.mem_flatMap.mpr ⟨x, hx, hn⟩) hk
  obtain ⟨y, hy, hmem⟩ := List.mem_flatMap.mp hlongest.1
  obtain ⟨m, hm, -⟩ := hlongest.2
  have hname : HasName class_ host y :=
    ⟨longest, hmem, nameLength_isSome_iff.mp (by rw [hm]; rfl)⟩
  rw [hunique y hy hname] at hmem
  exact ⟨longest, hmem, hlongest⟩

/--
With distinct names the choice is free of the order exactly if an exact name matches, or no
two blocks have names of the best class that match.
-/
theorem orderFree_iff
    (hdistinct : DistinctNames servers) (hnamed : Named servers (hostName host)) :
    OrderFree servers host ↔
      (∃ srv ∈ servers, HasName isExact (hostName host) srv) ∨
        ∀ x ∈ servers, ∀ y ∈ servers,
          HasName (bestClass servers (hostName host)) (hostName host) x →
          HasName (bestClass servers (hostName host)) (hostName host) y → x = y := by
  set h := hostName host
  set class_ := bestClass servers h with hclass
  obtain ⟨-, x, hx, hname⟩ := byName_eq hnamed
  have hfirst := @find?_perm_iff _
    (fun srv => srv.serverNames.any fun n => class_ n && n.matches h) servers x hx
    (hasName_iff.mpr hname)
  simp only [hasName_iff] at hfirst
  constructor
  · rintro ⟨srv, hall, -⟩
    refine Or.inr (hfirst.mp ⟨srv, fun servers' hperm => ?_⟩)
    rw [← hall servers' hperm, selectServer_perm hnamed hperm]
    rfl
  · intro hcond
    have hunique : ∀ x ∈ servers, ∀ y ∈ servers,
        HasName class_ h x → HasName class_ h y → x = y := by
      rcases hcond with hexact | hunique
      · have hbest : class_ = isExact := by
          rw [hclass, bestClass, if_pos (serverNamed_isSome_iff.mpr hexact)]
        rw [hbest]
        exact fun x hx y hy => exact_unique hdistinct hx hy
      · exact hunique
    obtain ⟨srv, hall⟩ := hfirst.mpr hunique
    have hself : serverNamed servers class_ h = some srv := hall servers (List.Perm.refl servers)
    have hsrv : srv ∈ servers := List.mem_of_find?_eq_some hself
    have hhit := List.find?_some hself
    have hname' : HasName class_ h srv := hasName_iff.mp hhit
    refine ⟨srv, fun servers' hperm => ?_, ?_⟩
    · rw [selectServer_perm hnamed hperm]
      exact hall servers' hperm
    · exact longest_of_unique ⟨x, hx, hname⟩ fun y hy hy' => hunique y hy srv hsrv hy' hname'

theorem orderFree_iff_example :
    OrderFree [namedServer [.wildcard (ascii "*.example.com"), .exact (ascii "a.b")] false,
      namedServer [.exact (ascii "A.example.com")] false] (ascii "a.example.com:8443") := by
  refine (orderFree_iff ?_ ?_).mpr (Or.inl ?_)
  · unfold DistinctNames
    decide
  · unfold Named
    decide
  · unfold HasName
    decide

/-- Two wildcards that match the same host. -/
def overlapping : List ServerBlock :=
  [namedServer [.wildcard (ascii "*.example.com")] false,
    namedServer [.wildcard (ascii "*.a.example.com")] false]

/-- The shorter wildcard wins or loses with the order of the blocks. -/
theorem overlapping_not_orderFree :
    DistinctNames overlapping ∧ Named overlapping (hostName (ascii "x.a.example.com")) ∧
      (selectServer overlapping (ascii "x.a.example.com")).map ServerBlock.serverNames =
        some [.wildcard (ascii "*.example.com")] ∧
      ¬ OrderFree overlapping (ascii "x.a.example.com") := by
  refine ⟨?_, ?_, ?_, ?_⟩
  · unfold DistinctNames
    decide
  · unfold Named
    decide
  · decide
  · rintro ⟨srv, hall, -⟩
    have hone := hall overlapping (List.Perm.refl _)
    have hother := hall overlapping.reverse (List.reverse_perm _)
    have hnames := congrArg (Option.map ServerBlock.serverNames) (hone.trans hother.symm)
    exact absurd hnames (by decide)

end Specificity

end Router
end RunNginx
