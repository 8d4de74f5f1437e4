import RunNginx.Lib.Decimal
import RunNginx.Lib.Undo
import RunNginx.Lib.Utf8

/-!
# Firewall rules

A manager opens a port by a command to the firewall of the host and remembers it; at
shutdown it closes what it remembers.  `ufw` keeps a set of allow rules, `iptables` a list
from which the first matching rule is deleted, and `nft` a list whose rules are deleted by
the handle that the manager reads off the output of the command that added them.

`restored_iff`: opening and closing leaves the rules of the host as they were exactly if
every rule that was opened is found again and is not one that was there before.
-/

namespace RunNginx
namespace Firewall

open ByteString

inductive Backend
  | ufw
  | nftables
  | iptables
  | none
deriving DecidableEq, Repr

section Host

/-- A rule of the host; the handle tells rules of one text apart. -/
structure HostRule where
  text : List Bytes
  handle : Nat
deriving DecidableEq, Repr

/-- The rules of a host, whose handles are used once. -/
structure Host where
  rules : List HostRule
  nextHandle : Nat
  fresh : ∀ r ∈ rules, r.handle < nextHandle
  distinct : (rules.map HostRule.handle).Nodup

/-- What a manager asks of the firewall. -/
inductive Command
  /-- `ufw allow RULE comment COMMENT` -/
  | ufwAllow (rule comment : Bytes)
  /-- `ufw delete allow RULE` -/
  | ufwDeleteAllow (rule : Bytes)
  /-- `nft add rule inet filter input WORDS` -/
  | nftAddRule (words : List Bytes)
  /-- `nft delete rule inet filter input handle HANDLE` -/
  | nftDeleteRule (handle : Nat)
  /-- `iptables -A INPUT WORDS` -/
  | iptablesAppend (words : List Bytes)
  /-- `iptables -D INPUT WORDS` -/
  | iptablesDelete (words : List Bytes)
deriving DecidableEq, Repr

namespace Host

/-- A rule of this text is there. -/
def Has (h : Host) (text : List Bytes) : Prop :=
  ∃ r ∈ h.rules, r.text = text

instance (h : Host) (text : List Bytes) : Decidable (h.Has text) :=
  inferInstanceAs (Decidable (∃ r ∈ h.rules, r.text = text))

def append (text : List Bytes) (h : Host) : Host where
  rules := h.rules ++ [⟨text, h.nextHandle⟩]
  nextHandle := h.nextHandle + 1
  fresh := by
    intro r hr
    rcases List.mem_append.mp hr with hr | hr
    · exact Nat.lt_succ_of_lt (h.fresh r hr)
    · rw [List.mem_singleton.mp hr]
      exact Nat.lt_succ_self _
  distinct := by
    rw [List.map_append, List.map_singleton, List.nodup_append]
    refine ⟨h.distinct, List.nodup_singleton _, ?_⟩
    intro n hn m hm
    obtain ⟨r, hr, rfl⟩ := List.mem_map.mp hn
    rw [List.mem_singleton.mp hm]
    exact (h.fresh r hr).ne

/-- A rule in front of the others. -/
def insert (text : List Bytes) (h : Host) : Host where
  rules := ⟨text, h.nextHandle⟩ :: h.rules
  nextHandle := h.nextHandle + 1
  fresh := by
    intro r hr
    rcases List.mem_cons.mp hr with rfl | hr
    · exact Nat.lt_succ_self _
    · exact Nat.lt_succ_of_lt (h.fresh r hr)
  distinct := by
    rw [List.map_cons, List.nodup_cons]
    refine ⟨fun hmem => ?_, h.distinct⟩
    obtain ⟨r, hr, hhandle⟩ := List.mem_map.mp hmem
    exact (h.fresh r hr).ne hhandle

/-- Leave some rules out. -/
def leaveOut (rules : List HostRule) (h : Host) (hsub : rules.Sublist h.rules) : Host where
  rules := rules
  nextHandle := h.nextHandle
  fresh := fun r hr => h.fresh r (hsub.subset hr)
  distinct := h.distinct.sublist (hsub.map _)

/-- A host with rules of these texts. -/
def ofTexts (texts : List (List Bytes)) : Host :=
  texts.foldl (fun h text => h.append text) ⟨[], 0, by simp, by simp⟩

/-- Delete the first rule with this property, if there is one. -/
def deleteFirst (p : HostRule → Bool) (h : Host) : Option Host :=
  if h.rules.any p then some (h.leaveOut (h.rules.eraseP p) List.eraseP_sublist) else none

/-- Delete all rules with this property, if there is one. -/
def deleteAll (p : HostRule → Bool) (h : Host) : Option Host :=
  if h.rules.any p then
    some (h.leaveOut (h.rules.filter fun r => !p r) List.filter_sublist)
  else none

/--
The output of a command and the host behind it; `none` if the command fails.  `nft` prints
what `prints` says of the handle of the rule it has added.
-/
def exec (prints : Nat → Bytes) (h : Host) : Command → Option (Bytes × Host)
  | .ufwAllow rule _ =>
      if h.rules.any (fun r => r.text == [rule]) then some ([], h)
      else some ([], h.append [rule])
  | .ufwDeleteAllow rule =>
      (h.deleteAll fun r => r.text == [rule]).map fun h => ([], h)
  | .nftAddRule words => some (prints h.nextHandle, h.append words)
  | .nftDeleteRule handle =>
      (h.deleteFirst fun r => r.handle == handle).map fun h => ([], h)
  | .iptablesAppend words => some ([], h.append words)
  | .iptablesDelete words =>
      (h.deleteFirst fun r => r.text == words).map fun h => ([], h)

/-- Run a command, which the host may also refuse. -/
def run (prints : Nat → Bytes) (refused : Bool) (c : Command) (h : Host) :
    Option (Bytes × Host) :=
  if refused then none else h.exec prints c

end Host

end Host

/-- A rule the instance has opened. -/
structure Rule where
  port : UInt16
  proto : Bytes
  nftHandle : Option Nat
deriving DecidableEq, Repr

structure FirewallManager where
  backend : Backend
  tag : Bytes
  dryRun : Bool
  opened : List Rule
deriving DecidableEq, Repr

/-- A port and its protocol. -/
abbrev Port := UInt16 × Bytes

/-- The handle in the output of `nft add rule`. -/
def parseHandle (out : Bytes) : Option Nat :=
  (lines (Utf8.fromUtf8Lossy out)).findSome? fun l =>
    (stripPrefix (ascii "# handle ") l).bind fun s =>
      Decimal.parseUnsigned Decimal.u64Bound (Utf8.trim s)

def ufwRule (p : Port) : Bytes :=
  Decimal.render p.1.toNat ++ ascii "/" ++ p.2

namespace FirewallManager

def new (backend : Backend) (tag : Bytes) (dryRun : Bool) : FirewallManager :=
  ⟨backend, tag, dryRun, []⟩

/-- The words behind `nft add rule inet filter input`. -/
def nftWords (m : FirewallManager) (p : Port) : List Bytes :=
  [p.2 ++ ascii " dport " ++ Decimal.render p.1.toNat, ascii "accept", ascii "comment", m.tag]

/-- The words behind `iptables -A INPUT` and `iptables -D INPUT`. -/
def iptablesWords (m : FirewallManager) (p : Port) : List Bytes :=
  [ascii "-p", p.2, ascii "--dport", Decimal.render p.1.toNat, ascii "-m", ascii "comment",
    ascii "--comment", m.tag, ascii "-j", ascii "ACCEPT"]

variable (prints : Nat → Bytes)

/-- Open a port; the handle is that of an nft rule, where it can be read. -/
def openRule (m : FirewallManager) (refused : Bool) (p : Port) (h : Host) :
    Option (Option Nat × Host) :=
  match m.backend with
  | .ufw =>
      if m.dryRun then some (none, h)
      else (h.run prints refused (.ufwAllow (ufwRule p) m.tag)).map fun x => (none, x.2)
  | .nftables =>
      if m.dryRun then some (none, h)
      else (h.run prints refused (.nftAddRule (m.nftWords p))).map fun x =>
        (parseHandle x.1, x.2)
  | .iptables =>
      if m.dryRun then some (none, h)
      else (h.run prints refused (.iptablesAppend (m.iptablesWords p))).map fun x => (none, x.2)
  | .none => some (none, h)

/-- Open ports; `refused` says which of the commands the host refuses, counted from `k`. -/
def openFrom (refused : Nat → Bool) : Nat → List Port → FirewallManager → Host →
    FirewallManager × Host
  | _, [], m, h => (m, h)
  | k, p :: ps, m, h =>
      match m.openRule prints (refused k) p h with
      | some (handle, h) =>
          openFrom refused (k + 1) ps { m with opened := m.opened ++ [⟨p.1, p.2, handle⟩] } h
      | none => openFrom refused (k + 1) ps m h

/-- Open firewall rules for the ports; a failure is skipped. -/
def openPorts (m : FirewallManager) (refused : Nat → Bool) (ps : List Port) (h : Host) :
    FirewallManager × Host :=
  if m.backend = .none then (m, h) else openFrom prints refused 0 ps m h

def closeRule (m : FirewallManager) (refused : Bool) (rule : Rule) (h : Host) :
    Option Host :=
  match m.backend with
  | .ufw =>
      if m.dryRun then some h
      else (h.run prints refused (.ufwDeleteAllow (ufwRule (rule.port, rule.proto)))).map
        Prod.snd
  | .nftables =>
      match rule.nftHandle with
      | some handle =>
          if m.dryRun then some h
          else (h.run prints refused (.nftDeleteRule handle)).map Prod.snd
      | none => some h
  | .iptables =>
      if m.dryRun then some h
      else (h.run prints refused
        (.iptablesDelete (m.iptablesWords (rule.port, rule.proto)))).map Prod.snd
  | .none => some h

/-- Close rules; `refused` says of which of them the host refuses the command. -/
def closeFrom (m : FirewallManager) (refused : Nat → Bool) : Nat → List Rule → Host → Host
  | _, [], h => h
  | k, rule :: rules, h =>
      closeFrom m refused (k + 1) rules ((m.closeRule prints (refused k) rule h).getD h)

/-- Close all rules opened by this instance. -/
def close (m : FirewallManager) (refused : Nat → Bool) (h : Host) :
    FirewallManager × Host :=
  if m.backend = .none then (m, h)
  else ({ m with opened := [] }, closeFrom prints m refused 0 m.opened h)

/-- The host when a new manager has opened the ports and closed them again. -/
def session (m : FirewallManager) (refusedOpen refusedClose : Nat → Bool) (ps : List Port)
    (h : Host) : Host :=
  let (m, h) := m.openPorts prints refusedOpen ps h
  (m.close prints refusedClose h).2

/-- The ports whose command the host does not refuse. -/
def accepted (refused : Nat → Bool) : Nat → List Port → List Port
  | _, [] => []
  | k, p :: ps =>
      if refused k then accepted refused (k + 1) ps else p :: accepted refused (k + 1) ps

/--
What is remembered of ports that are opened one after the other, where `add` is what each
does to the host and `handleOf` the handle that can be read then.
-/
def remembered (handleOf : Host → Option Nat) (add : Port → Host → Host) :
    List Port → Host → List Rule
  | [], _ => []
  | p :: ps, h => ⟨p.1, p.2, handleOf h⟩ :: remembered handleOf add ps (add p h)

section Opening

variable {prints} {m : FirewallManager} {h : Host} {refused : Nat → Bool} {ps : List Port}

/-- A refused command opens nothing. -/
theorem openRule_refused
    {p : Port}
    (hdry : m.dryRun = false) (hbackend : m.backend ≠ .none) :
    m.openRule prints true p h = none := by
  unfold openRule
  cases hm : m.backend with
  | none => exact absurd hm hbackend
  | ufw => simp [hdry, Host.run]
  | nftables => simp [hdry, Host.run]
  | iptables => simp [hdry, Host.run]

/-- Ports that are refused make no difference. -/
theorem openFrom_accepted
    {k j : Nat}
    (hdry : m.dryRun = false) (hbackend : m.backend ≠ .none) :
    openFrom prints refused k ps m h =
      openFrom prints (fun _ => false) j (accepted refused k ps) m h := by
  induction ps generalizing k j m h with
  | nil => rfl
  | cons p ps ih =>
      rw [openFrom, accepted]
      by_cases hk : refused k = true
      · rw [if_pos hk, hk, openRule_refused hdry hbackend]
        exact ih hdry hbackend
      · rw [if_neg hk, openFrom, Bool.eq_false_iff.mpr hk]
        cases m.openRule prints false p h with
        | none => exact ih hdry hbackend
        | some x => exact ih hdry hbackend

/-- Opening goes from one host to the next and remembers what it has done. -/
theorem openFrom_eq
    {handleOf : Host → Option Nat} {add : Port → Host → Host} {k : Nat}
    (hadd : ∀ opened p h, openRule prints { m with opened := opened } false p h =
      some (handleOf h, add p h)) :
    openFrom prints (fun _ => false) k ps m h =
      ({ m with opened := m.opened ++ remembered handleOf add ps h },
        ps.foldl (fun h p => add p h) h) := by
  induction ps generalizing k m h with
  | nil => simp [openFrom, remembered]
  | cons p ps ih =>
      have hrule : openRule prints m false p h = some (handleOf h, add p h) :=
        hadd m.opened p h
      have hrest : openFrom prints (fun _ => false) (k + 1) ps
          { m with opened := m.opened ++ [⟨p.1, p.2, handleOf h⟩] } (add p h) = _ :=
        ih fun opened => hadd opened
      rw [openFrom, hrule]
      dsimp only
      rw [hrest, remembered]
      simp

end Opening

/-- The rules that are added for ports, with handles from `n` on. -/
def added (text : Port → List Bytes) : Nat → List Port → List HostRule
  | _, [] => []
  | n, p :: ps => ⟨text p, n⟩ :: added text (n + 1) ps

/-- The deletions by which remembered rules are closed. -/
def deletions (select : Bool → Rule → Option (HostRule → Bool)) (refused : Nat → Bool) :
    Nat → List Rule → List (Option (HostRule → Bool))
  | _, [] => []
  | k, rule :: rules => select (refused k) rule :: deletions select refused (k + 1) rules

section Listed

variable {prints} {m : FirewallManager} {h : Host} {refused : Nat → Bool} {ps : List Port}
variable {text : Port → List Bytes} {handleAt : Nat → Option Nat}
variable {select : Bool → Rule → Option (HostRule → Bool)} {k : Nat}

/-- A port for which the firewall adds a rule in any case. -/
def appendRule (text : Port → List Bytes) (p : Port) (h : Host) : Host :=
  h.append (text p)

theorem rules_appendRule
    (text : Port → List Bytes) (ps : List Port) (h : Host) :
    (ps.foldl (fun h p => appendRule text p h) h).rules =
      h.rules ++ added text h.nextHandle ps := by
  induction ps generalizing h with
  | nil => exact (List.append_nil _).symm
  | cons p ps ih =>
      rw [List.foldl_cons, ih, added]
      exact List.append_assoc ..

theorem closeFrom_rules
    {del : (HostRule → Bool) → List HostRule → List HostRule} {rules : List Rule}
    (hclose : ∀ refused rule h, ((m.closeRule prints refused rule h).getD h).rules =
      match select refused rule with
      | none => h.rules
      | some p => del p h.rules) :
    (closeFrom prints m refused k rules h).rules =
      Undo.deletedBy del (deletions select refused k rules) h.rules := by
  induction rules generalizing k h with
  | nil => rfl
  | cons rule rules ih =>
      have hrule := hclose (refused k) rule h
      rw [closeFrom, ih, deletions, hrule]
      cases select (refused k) rule with
      | none => rfl
      | some p => rfl

/-- Each deletion fits the rule that was added for its port. -/
theorem fits_deletions
    (hselect : ∀ refused p n q, select refused ⟨p.1, p.2, handleAt n⟩ = some q →
      q ⟨text p, n⟩ = true) :
    Undo.Fits
      (deletions select refused k
        (remembered (fun h => handleAt h.nextHandle) (appendRule text) ps h))
      (added text h.nextHandle ps) := by
  induction ps generalizing k h with
  | nil => exact List.Forall₂.nil
  | cons p ps ih =>
      refine List.Forall₂.cons ?_ (ih (h := appendRule text p h))
      intro q hq
      exact hselect _ _ _ _ hq

theorem mem_deletions_iff
    {rules : List Rule} {d : Option (HostRule → Bool)} :
    d ∈ deletions select refused k rules ↔
      ∃ j rule, rules[j]? = some rule ∧ select (refused (k + j)) rule = d := by
  induction rules generalizing k with
  | nil => simp [deletions]
  | cons rule rules ih =>
      rw [deletions, List.mem_cons, ih]
      constructor
      · rintro (rfl | ⟨j, r, hr, rfl⟩)
        · exact ⟨0, rule, rfl, rfl⟩
        · refine ⟨j + 1, r, hr, ?_⟩
          rw [show k + (j + 1) = k + 1 + j by omega]
      · rintro ⟨j, r, hr, rfl⟩
        cases j with
        | zero =>
            cases hr
            exact Or.inl rfl
        | succ j =>
            refine Or.inr ⟨j, r, hr, ?_⟩
            rw [show k + (j + 1) = k + 1 + j by omega]

theorem remembered_appendRule
    {j : Nat} :
    (remembered (fun h => handleAt h.nextHandle) (appendRule text) ps h)[j]? =
      ps[j]?.map fun p => ⟨p.1, p.2, handleAt (h.nextHandle + j)⟩ := by
  induction ps generalizing j h with
  | nil => rfl
  | cons p ps ih =>
      cases j with
      | zero => rfl
      | succ j =>
          have hnext : (appendRule text p h).nextHandle + j = h.nextHandle + (j + 1) :=
            Nat.succ_add_eq_add_succ ..
          rw [remembered, List.getElem?_cons_succ, ih, hnext, List.getElem?_cons_succ]

/-- Rules that are added in any case and deleted one by one. -/
theorem restored_listed_iff
    (hclose : ∀ refused rule h, ((m.closeRule prints refused rule h).getD h).rules =
      match select refused rule with
      | none => h.rules
      | some p => h.rules.eraseP p)
    (hselect : ∀ refused p n q, select refused ⟨p.1, p.2, handleAt n⟩ = some q →
      q ⟨text p, n⟩ = true) :
    (closeFrom prints m refused 0
        (remembered (fun h => handleAt h.nextHandle) (appendRule text) ps h)
        (ps.foldl (fun h p => appendRule text p h) h)).rules = h.rules ↔
      ∀ j p, ps[j]? = some p →
        ∃ q, select (refused j) ⟨p.1, p.2, handleAt (h.nextHandle + j)⟩ = some q ∧
          ∀ r ∈ h.rules, q r = false := by
  have hnodup : (h.rules ++ added text h.nextHandle ps).Nodup := by
    rw [← rules_appendRule]
    exact (ps.foldl (fun h p => appendRule text p h) h).distinct.of_map
  rw [closeFrom_rules hclose, rules_appendRule, Undo.undone_iff hnodup (fits_deletions hselect)]
  constructor
  · intro hall j p hp
    refine hall _ (mem_deletions_iff.mpr ⟨j, ⟨p.1, p.2, handleAt (h.nextHandle + j)⟩, ?_, ?_⟩)
    · rw [remembered_appendRule, hp, Option.map_some]
    · rw [Nat.zero_add]
  · intro hall d hd
    obtain ⟨j, rule, hrule, rfl⟩ := mem_deletions_iff.mp hd
    rw [remembered_appendRule, Option.map_eq_some_iff] at hrule
    obtain ⟨p, hp, rfl⟩ := hrule
    rw [Nat.zero_add]
    exact hall j p hp

end Listed

section Sessions

variable {prints} {m : FirewallManager} {h : Host} {refused refusedOpen refusedClose : Nat → Bool}
variable {ps : List Port}

/-- In dry-run mode ports are remembered and the host is left alone. -/
theorem openFrom_dryRun
    {k : Nat}
    (hdry : m.dryRun = true) :
    ∃ opened, openFrom prints refused k ps m h = ({ m with opened := opened }, h) := by
  induction ps generalizing k m with
  | nil => exact ⟨m.opened, rfl⟩
  | cons p ps ih =>
      have hrule : m.openRule prints (refused k) p h = some (none, h) := by
        unfold openRule
        cases m.backend <;> simp [hdry]
      obtain ⟨opened, hopened⟩ :=
        @ih { m with opened := m.opened ++ [⟨p.1, p.2, none⟩] } (k + 1) hdry
      rw [openFrom, hrule]
      exact ⟨opened, hopened⟩

theorem closeFrom_dryRun
    {k : Nat} {rules : List Rule}
    (hdry : m.dryRun = true) :
    closeFrom prints m refused k rules h = h := by
  induction rules generalizing k with
  | nil => rfl
  | cons rule rules ih =>
      have hrule : m.closeRule prints (refused k) rule h = some h := by
        unfold closeRule
        cases m.backend <;> cases rule.nftHandle <;> simp [hdry]
      rw [closeFrom, hrule]
      exact ih

/-- A manager without a backend, or in dry-run mode, leaves the host alone. -/
theorem session_idle
    (hidle : m.backend = .none ∨ m.dryRun = true) :
    session prints m refusedOpen refusedClose ps h = h := by
  by_cases hbackend : m.backend = .none
  · unfold session openPorts
    rw [if_pos hbackend]
    dsimp only
    rw [close, if_pos hbackend]
  · have hdry : m.dryRun = true := hidle.resolve_left hbackend
    have hopen : ∃ opened, openFrom prints refusedOpen 0 ps m h =
        ({ m with opened := opened }, h) := openFrom_dryRun hdry
    obtain ⟨opened, hopened⟩ := hopen
    rw [session, openPorts, if_neg hbackend, hopened]
    dsimp only
    rw [close, if_neg hbackend]
    exact closeFrom_dryRun hdry

/-- A session of a new manager, whose rules are opened by `add`. -/
theorem session_eq
    {handleOf : Host → Option Nat} {add : Port → Host → Host}
    (hdry : m.dryRun = false) (hbackend : m.backend ≠ .none) (hnew : m.opened = [])
    (hadd : ∀ opened p h, openRule prints { m with opened := opened } false p h =
      some (handleOf h, add p h)) :
    ∃ opened, session prints m refusedOpen refusedClose ps h =
      closeFrom prints { m with opened := opened } refusedClose 0
        (remembered handleOf add (accepted refusedOpen 0 ps) h)
        ((accepted refusedOpen 0 ps).foldl (fun h p => add p h) h) := by
  refine ⟨remembered handleOf add (accepted refusedOpen 0 ps) h, ?_⟩
  have hopen : openFrom prints refusedOpen 0 ps m h =
      openFrom prints (fun _ => false) 0 (accepted refusedOpen 0 ps) m h :=
    openFrom_accepted hdry hbackend
  rw [openFrom_eq hadd, hnew, List.nil_append] at hopen
  rw [session, openPorts, if_neg hbackend, hopen]
  dsimp only
  rw [close, if_neg hbackend]

/-- A port for which the firewall adds a rule unless it is there. -/
def allow (p : Port) (h : Host) : Host :=
  if h.rules.any (fun r => r.text == [ufwRule p]) then h else h.append [ufwRule p]

theorem any_text_iff
    {text : List Bytes} :
    h.rules.any (fun r => r.text == text) = true ↔ h.Has text := by
  rw [List.any_eq_true]
  exact exists_congr fun r => and_congr_right fun _ => beq_iff_eq

theorem has_append_iff
    {text text' : List Bytes} :
    (h.append text').Has text ↔ h.Has text ∨ text' = text := by
  unfold Host.Has Host.append
  simp

/-- The rules that come in are those of the ports that no rule was there for. -/
theorem rules_allow
    (ps : List Port) (h : Host) :
    ∃ rules, (ps.foldl (fun h p => allow p h) h).rules = h.rules ++ rules ∧
      ∀ text, (∃ r ∈ rules, r.text = text) ↔
        ¬ h.Has text ∧ ∃ p ∈ ps, [ufwRule p] = text := by
  induction ps generalizing h with
  | nil => exact ⟨[], by simp⟩
  | cons p ps ih =>
      obtain ⟨rules, hrules, htexts⟩ := ih (allow p h)
      rw [List.foldl_cons, hrules]
      by_cases hp : h.Has [ufwRule p]
      · have hallow : allow p h = h := if_pos (any_text_iff.mpr hp)
        rw [hallow] at htexts ⊢
        refine ⟨rules, rfl, fun text => ?_⟩
        rw [htexts]
        refine and_congr_right fun htext => ?_
        rw [List.exists_mem_cons_iff]
        exact ⟨Or.inr, fun h => h.resolve_left fun heq => htext (heq ▸ hp)⟩
      · have hallow : allow p h = h.append [ufwRule p] :=
          if_neg (fun hany => hp (any_text_iff.mp hany))
        rw [hallow] at htexts ⊢
        refine ⟨⟨[ufwRule p], h.nextHandle⟩ :: rules, List.append_assoc .., fun text => ?_⟩
        rw [List.exists_mem_cons_iff, htexts, List.exists_mem_cons_iff, has_append_iff]
        by_cases heq : [ufwRule p] = text
        · subst heq
          simp [hp]
        · simp [heq]

theorem remembered_none
    (add : Port → Host → Host) (ps : List Port) (h : Host) :
    remembered (fun _ => none) add ps h = ps.map fun p => ⟨p.1, p.2, none⟩ := by
  induction ps generalizing h with
  | nil => rfl
  | cons p ps ih =>
      rw [remembered, List.map_cons, ih]

/-- The rules that the command for closing a `ufw` rule deletes, where it is not refused. -/
def ufwSelect (refused : Bool) (rule : Rule) : Option (HostRule → Bool) :=
  if refused then none else some fun r => r.text == [ufwRule (rule.port, rule.proto)]

theorem closeRule_ufw
    {refused : Bool} {rule : Rule}
    (hbackend : m.backend = .ufw) (hdry : m.dryRun = false) :
    ((m.closeRule prints refused rule h).getD h).rules =
      match ufwSelect refused rule with
      | none => h.rules
      | some p => Undo.eraseAll p h.rules := by
  unfold closeRule ufwSelect
  rw [hbackend, hdry]
  cases refused with
  | true => rfl
  | false =>
      by_cases hany : h.rules.any (fun r => r.text == [ufwRule (rule.port, rule.proto)]) = true
      · simp [Host.run, Host.exec, Host.deleteAll, hany, Undo.eraseAll, Host.leaveOut]
      · have hfilter : h.rules.filter
            (fun r => !(r.text == [ufwRule (rule.port, rule.proto)])) = h.rules := by
          rw [List.filter_eq_self]
          intro r hr
          rw [List.any_eq_true] at hany
          simpa using fun heq => hany ⟨r, hr, by simpa using heq⟩
        simp [Host.run, Host.exec, Host.deleteAll, hany, Undo.eraseAll, hfilter]

/-- The rules that a session of `ufw` deletes. -/
theorem hit_ufw_iff
    {os : List Port} {r : HostRule} :
    Undo.Hit (deletions ufwSelect refused 0 (os.map fun p => ⟨p.1, p.2, none⟩)) r ↔
      ∃ j p, os[j]? = some p ∧ refused j = false ∧ r.text = [ufwRule p] := by
  constructor
  · rintro ⟨d, hd, hr⟩
    obtain ⟨j, rule, hrule, hselect⟩ := mem_deletions_iff.mp hd
    rw [List.getElem?_map, Option.map_eq_some_iff] at hrule
    obtain ⟨p, hp, rfl⟩ := hrule
    rw [Nat.zero_add] at hselect
    cases hrefused : refused j with
    | true => simp [ufwSelect, hrefused] at hselect
    | false =>
        have hd : (fun r : HostRule => r.text == [ufwRule p]) = d := by
          simpa [ufwSelect, hrefused] using hselect
        subst hd
        exact ⟨j, p, hp, hrefused, beq_iff_eq.mp hr⟩
  · rintro ⟨j, p, hp, hrefused, hr⟩
    refine ⟨fun r => r.text == [ufwRule p], mem_deletions_iff.mpr ⟨j, ⟨p.1, p.2, none⟩, ?_, ?_⟩,
      beq_iff_eq.mpr hr⟩
    · rw [List.getElem?_map, hp, Option.map_some]
    · simp [ufwSelect, hrefused]

/--
Every rule that is deleted was opened, and every rule that was opened is deleted: a port was
allowed before exactly if all commands that delete its rule are refused.
-/
def UfwRestores (refusedClose : Nat → Bool) (os : List Port) (h : Host) : Prop :=
  ∀ p ∈ os, h.Has [ufwRule p] ↔
    ∀ j q, os[j]? = some q → ufwRule q = ufwRule p → refusedClose j = true

theorem restored_ufw_iff
    (hdry : m.dryRun = false) (hbackend : m.backend = .ufw) (hnew : m.opened = []) :
    (session prints m refusedOpen refusedClose ps h).rules = h.rules ↔
      UfwRestores refusedClose (accepted refusedOpen 0 ps) h := by
  have hadd : ∀ opened p h, openRule prints { m with opened := opened } false p h =
      some (none, allow p h) := by
    intro opened p h
    cases hany : h.rules.any (fun r => r.text == [ufwRule p]) <;>
      simp [openRule, hbackend, hdry, Host.run, Host.exec, allow, hany]
  have hne : m.backend ≠ .none := by simp [hbackend]
  obtain ⟨opened, hsession⟩ :=
    @session_eq prints m h refusedOpen refusedClose ps _ _ hdry hne hnew hadd
  obtain ⟨rules, hrules, htexts⟩ := rules_allow (accepted refusedOpen 0 ps) h
  have hnodup : (h.rules ++ rules).Nodup := by
    rw [← hrules]
    exact (Host.distinct _).of_map
  rw [hsession, closeFrom_rules fun refused rule h =>
      closeRule_ufw (m := { m with opened := opened }) hbackend hdry,
    hrules, remembered_none, Undo.cleared_iff hnodup]
  generalize accepted refusedOpen 0 ps = os at htexts ⊢
  simp only [hit_ufw_iff]
  constructor
  · rintro ⟨hbefore, hadded⟩ p hp
    constructor
    · rintro ⟨r, hr, htext⟩ j q hq heq
      by_contra hrefused
      exact hbefore r hr ⟨j, q, hq, by simpa using hrefused, by rw [htext, heq]⟩
    · intro hall
      by_contra hhas
      obtain ⟨r, hr, htext⟩ := (htexts [ufwRule p]).mpr ⟨hhas, p, hp, rfl⟩
      obtain ⟨j, q, hq, hrefused, hrq⟩ := hadded r hr
      have heq : ufwRule q = ufwRule p := by
        rw [htext] at hrq
        exact (List.singleton_injective hrq).symm
      rw [hall j q hq heq] at hrefused
      exact Bool.noConfusion hrefused
  · intro hall
    refine ⟨?_, ?_⟩
    · rintro r hr ⟨j, q, hq, hrefused, htext⟩
      rw [(hall q (List.mem_of_getElem? hq)).mp ⟨r, hr, htext⟩ j q hq rfl] at hrefused
      exact Bool.noConfusion hrefused
    · intro r hr
      obtain ⟨hhas, p, hp, htext⟩ := (htexts r.text).mp ⟨r, hr, rfl⟩
      rw [← htext] at hhas
      by_contra hnone
      refine hhas ((hall p hp).mpr fun j q hq heq => ?_)
      by_contra hrefused
      exact hnone ⟨j, q, hq, by simpa using hrefused, by rw [← htext, heq]⟩

/-- The rule that the command for closing an `iptables` rule deletes, where it is not refused. -/
def iptablesSelect (m : FirewallManager) (refused : Bool) (rule : Rule) :
    Option (HostRule → Bool) :=
  if refused then none else some fun r => r.text == m.iptablesWords (rule.port, rule.proto)

/-- The rule that is deleted by its handle, where there is one. -/
def nftSelect (refused : Bool) (rule : Rule) : Option (HostRule → Bool) :=
  if refused then none else rule.nftHandle.map fun handle => fun r => r.handle == handle

theorem getD_deleteFirst
    (p : HostRule → Bool) :
    ((h.deleteFirst p).getD h).rules = h.rules.eraseP p := by
  unfold Host.deleteFirst
  by_cases hany : h.rules.any p = true
  · rw [if_pos hany]
    rfl
  · rw [if_neg hany]
    refine (List.eraseP_of_forall_not fun r hr hp => hany ?_).symm
    exact List.any_eq_true.mpr ⟨r, hr, hp⟩

theorem closeRule_iptables
    {refused : Bool} {rule : Rule}
    (hbackend : m.backend = .iptables) (hdry : m.dryRun = false) :
    ((m.closeRule prints refused rule h).getD h).rules =
      match m.iptablesSelect refused rule with
      | none => h.rules
      | some p => h.rules.eraseP p := by
  unfold closeRule iptablesSelect
  rw [hbackend, hdry]
  cases refused with
  | true => rfl
  | false =>
      simp only [Bool.false_eq_true, if_false, Host.run, Host.exec, Option.map_map]
      rw [← getD_deleteFirst]
      cases h.deleteFirst fun r => r.text == m.iptablesWords (rule.port, rule.proto) <;> rfl

theorem closeRule_nftables
    {refused : Bool} {rule : Rule}
    (hbackend : m.backend = .nftables) (hdry : m.dryRun = false) :
    ((m.closeRule prints refused rule h).getD h).rules =
      match nftSelect refused rule with
      | none => h.rules
      | some p => h.rules.eraseP p := by
  unfold closeRule nftSelect
  rw [hbackend, hdry]
  cases hhandle : rule.nftHandle with
  | none => cases refused <;> rfl
  | some handle =>
      cases refused with
      | true => rfl
      | false =>
          simp only [Bool.false_eq_true, if_false, Host.run, Host.exec, Option.map_map,
            Option.map_some]
          rw [← getD_deleteFirst]
          cases h.deleteFirst fun r => r.handle == handle <;> rfl

theorem iptablesSelect_fits
    (m : FirewallManager) (refused : Bool) (p : Port) (n : Nat) (q : HostRule → Bool)
    (hq : m.iptablesSelect refused ⟨p.1, p.2, none⟩ = some q) :
    q ⟨m.iptablesWords p, n⟩ = true := by
  cases refused with
  | true => cases hq
  | false =>
      cases hq
      exact beq_self_eq_true _

/-- A session whose rules are added in any case and deleted one by one. -/
theorem restored_session_iff
    (handleAt : Nat → Option Nat) {text : Port → List Bytes}
    {select : Bool → Rule → Option (HostRule → Bool)}
    (hdry : m.dryRun = false) (hbackend : m.backend ≠ .none) (hnew : m.opened = [])
    (hadd : ∀ opened p h, openRule prints { m with opened := opened } false p h =
      some (handleAt h.nextHandle, appendRule text p h))
    (hclose : ∀ opened refused rule h,
      ((({ m with opened := opened } : FirewallManager).closeRule prints refused rule h).getD
        h).rules =
        match select refused rule with
        | none => h.rules
        | some p => h.rules.eraseP p)
    (hselect : ∀ refused p n q, select refused ⟨p.1, p.2, handleAt n⟩ = some q →
      q ⟨text p, n⟩ = true) :
    (session prints m refusedOpen refusedClose ps h).rules = h.rules ↔
      ∀ j p, (accepted refusedOpen 0 ps)[j]? = some p →
        ∃ q, select (refusedClose j) ⟨p.1, p.2, handleAt (h.nextHandle + j)⟩ = some q ∧
          ∀ r ∈ h.rules, q r = false := by
  obtain ⟨opened, hsession⟩ :=
    @session_eq prints m h refusedOpen refusedClose ps _ _ hdry hbackend hnew hadd
  rw [hsession]
  exact restored_listed_iff (hclose opened) hselect

/-- No rule that was opened was there before, and all of them are deleted. -/
def IptablesRestores (m : FirewallManager) (refusedClose : Nat → Bool) (os : List Port)
    (h : Host) : Prop :=
  ∀ j p, os[j]? = some p → ¬ h.Has (m.iptablesWords p) ∧ refusedClose j = false

theorem restored_iptables_iff
    (hdry : m.dryRun = false) (hbackend : m.backend = .iptables) (hnew : m.opened = []) :
    (session prints m refusedOpen refusedClose ps h).rules = h.rules ↔
      m.IptablesRestores refusedClose (accepted refusedOpen 0 ps) h := by
  have hadd : ∀ opened p h, openRule prints { m with opened := opened } false p h =
      some (none, appendRule m.iptablesWords p h) := by
    intro opened p h
    simp only [openRule, hbackend, hdry, Host.run, Host.exec]
    rfl
  have hne : m.backend ≠ .none := by simp [hbackend]
  rw [restored_session_iff (fun _ => none) hdry hne hnew hadd
    (fun opened refused rule h => closeRule_iptables hbackend hdry) (iptablesSelect_fits m)]
  refine forall_congr' fun j => forall_congr' fun p => imp_congr_right fun _ => ?_
  cases refusedClose j with
  | true => simp [iptablesSelect]
  | false => simp [iptablesSelect, Host.Has]

theorem nftSelect_fits
    (m : FirewallManager) (hprints : ∀ n n', parseHandle (prints n) = some n' → n' = n)
    (refused : Bool) (p : Port) (n : Nat) (q : HostRule → Bool)
    (hq : nftSelect refused ⟨p.1, p.2, parseHandle (prints n)⟩ = some q) :
    q ⟨m.nftWords p, n⟩ = true := by
  cases refused with
  | true => cases hq
  | false =>
      cases hhandle : parseHandle (prints n) with
      | none => simp [nftSelect, hhandle] at hq
      | some n' =>
          have heq : n' = n := hprints n n' hhandle
          simp only [nftSelect, hhandle, Option.map_some, Bool.false_eq_true, if_false] at hq
          cases hq
          exact beq_iff_eq.mpr heq.symm

/-- The handle of every rule is read off the output, and all rules are deleted. -/
def NftRestores (prints : Nat → Bytes) (refusedClose : Nat → Bool) (os : List Port)
    (h : Host) : Prop :=
  ∀ j p, os[j]? = some p →
    parseHandle (prints (h.nextHandle + j)) ≠ none ∧ refusedClose j = false

theorem restored_nftables_iff
    (hprints : ∀ n n', parseHandle (prints n) = some n' → n' = n)
    (hdry : m.dryRun = false) (hbackend : m.backend = .nftables) (hnew : m.opened = []) :
    (session prints m refusedOpen refusedClose ps h).rules = h.rules ↔
      NftRestores prints refusedClose (accepted refusedOpen 0 ps) h := by
  have hadd : ∀ opened p h, openRule prints { m with opened := opened } false p h =
      some (parseHandle (prints h.nextHandle), appendRule m.nftWords p h) := by
    intro opened p h
    simp only [openRule, hbackend, hdry, Host.run, Host.exec]
    rfl
  have hne : m.backend ≠ .none := by simp [hbackend]
  rw [restored_session_iff (fun n => parseHandle (prints n)) hdry hne hnew hadd
    (fun opened refused rule h => closeRule_nftables hbackend hdry) (nftSelect_fits m hprints)]
  refine forall_congr' fun j => forall_congr' fun p => imp_congr_right fun _ => ?_
  cases refusedClose j with
  | true => simp [nftSelect]
  | false =>
      cases hhandle : parseHandle (prints (h.nextHandle + j)) with
      | none => simp [nftSelect]
      | some n =>
          have heq : n = h.nextHandle + j := hprints _ n hhandle
          -- no rule that was there before has a handle this large
          have hfresh : ∀ r ∈ h.rules, r.handle ≠ n := fun r hr => by
            have := h.fresh r hr
            omega
          simpa [nftSelect] using hfresh

/-- What it takes for the rules to be restored when `os` are opened and closed again. -/
def Restores (prints : Nat → Bytes) (m : FirewallManager) (refusedClose : Nat → Bool)
    (os : List Port) (h : Host) : Prop :=
  match m.backend with
  | .ufw => UfwRestores refusedClose os h
  | .nftables => NftRestores prints refusedClose os h
  | .iptables => m.IptablesRestores refusedClose os h
  | .none => True

/--
Opening ports and closing them again restores the rules of the host exactly in dry-run mode
and where the backend finds the rules that it has opened and no others.
-/
theorem restored_iff
    (backend : Backend) (tag : Bytes) (dryRun : Bool) (prints : Nat → Bytes)
    (refusedOpen refusedClose : Nat → Bool) (ps : List Port) (h : Host)
    (hprints : ∀ n n', parseHandle (prints n) = some n' → n' = n) :
    (session prints (new backend tag dryRun) refusedOpen refusedClose ps h).rules = h.rules ↔
      dryRun = true ∨
        Restores prints (new backend tag dryRun) refusedClose (accepted refusedOpen 0 ps) h := by
  cases hdry : dryRun with
  | true =>
      rw [session_idle (Or.inr rfl)]
      exact iff_of_true rfl (Or.inl rfl)
  | false =>
      have hfalse : ∀ P : Prop, (false = true ∨ P) ↔ P := by simp
      rw [hfalse]
      cases backend with
      | ufw => exact restored_ufw_iff rfl rfl rfl
      | nftables => exact restored_nftables_iff hprints rfl rfl rfl
      | iptables => exact restored_iptables_iff rfl rfl rfl
      | none =>
          rw [session_idle (Or.inl rfl)]
          exact iff_of_true rfl trivial

/-- `nft` prints nothing unless it is told to. -/
theorem silent : parseHandle [] = none := by
  decide

theorem restored_iff_example :
    let m := new .iptables (ascii "runnginx") false
    let h := Host.ofTexts [[ascii "-j", ascii "DROP"]]
    let ps := [((443 : UInt16), ascii "tcp"), ((443 : UInt16), ascii "udp")]
    (session (fun _ => []) m (fun k => k == 1) (fun _ => false) ps h).rules = h.rules := by
  refine (restored_iff .iptables (ascii "runnginx") false (fun _ => []) (fun k => k == 1)
    (fun _ => false) _ _ (by simp [silent])).mpr (Or.inr ?_)
  intro j p hp
  change [((443 : UInt16), ascii "tcp")][j]? = some p at hp
  cases j with
  | zero =>
      cases hp
      decide
  | succ j => cases hp

/--
`ufw` deletes the rule of the administrator, `nft` prints no handle and the rule stays, and
`iptables` deletes the rule of the administrator in front of the one that was opened.
-/
theorem administrator_locked_out :
    let ssh := ((22 : UInt16), ascii "tcp")
    let closed := fun backend h =>
      (session (fun _ => []) (new backend (ascii "runnginx") false) (fun _ => false)
        (fun _ => false) [ssh] h).rules.map HostRule.text
    let accept := iptablesWords (new .iptables (ascii "runnginx") false) ssh
    let drop := [ascii "-j", ascii "DROP"]
    closed .ufw (Host.ofTexts [[ascii "22/tcp"]]) = [] ∧
      closed .nftables (Host.ofTexts []) =
        [nftWords (new .nftables (ascii "runnginx") false) ssh] ∧
      closed .iptables (Host.ofTexts [accept, drop]) = [drop, accept] := by
  decide

end Sessions

end FirewallManager

end Firewall
end RunNginx
