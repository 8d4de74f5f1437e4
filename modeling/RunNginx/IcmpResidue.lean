import RunNginx.Firewall
import RunNginx.IcmpRules
import RunNginx.Lib.Persistence

/-!
# What the guard against ICMP floods leaves behind

The guard adds its rules by several commands, of which a later one may fail, and takes them
out again when it is dropped: `iptables` deletes the first rule of the same text, and `nft`
the rules whose handles it reads off the lines that hold its comment.  The handler of Ctrl-C
ends the process without dropping the guard.

`noResidue_iff`: the rules and the lock file are left as they should be exactly if the setup
stops before its first rule, or it adds the required ones, the guard is dropped, and no
rule that was there before is taken for one of its own.
-/

namespace RunNginx
namespace IcmpGuard

open ByteString

/-- The comment of the rules. -/
def icmpComment : Bytes :=
  ascii "icmp_guard"

/-- The words of a rule of `iptables`, or of `ip6tables`. -/
def iptablesWords (v6 : Bool) (limit : List Bytes) (target : Bytes) : List Bytes :=
  let protocol := ascii (if v6 then "icmpv6" else "icmp")
  [ascii "-p", protocol, ascii "--" ++ protocol ++ ascii "-type", ascii "echo-request"] ++ limit ++
    [ascii "-m", ascii "comment", ascii "--comment", icmpComment, ascii "-j", target]

/-- The text of a rule. -/
def ruleText : Rule → List Bytes
  | .accept .nftables _ =>
      [ascii "ip protocol icmp icmp type echo-request limit rate 5/second burst 10 packets accept"
        ++ ascii " comment \"icmp_guard\""]
  | .drop .nftables _ =>
      [ascii "ip protocol icmp icmp type echo-request drop comment \"icmp_guard\""]
  | .accept _ v6 =>
      iptablesWords v6 [ascii "-m", ascii "limit", ascii "--limit", ascii "5/second",
        ascii "--limit-burst", ascii "10"] (ascii "ACCEPT")
  | .drop _ v6 => iptablesWords v6 [] (ascii "DROP")

abbrev Tables := Table → Firewall.Host

/-- The chains and the lock file of the host. -/
structure System where
  tables : Tables
  lockFile : Option Bytes

/-- What a setup meets. -/
structure Surroundings where
  pid : UInt32
  enabled : Bool
  /-- The processes that run. -/
  runs : UInt32 → Bool
  backend : Backend
  /-- The commands that succeed. -/
  succeeds : Rule → Bool
  opensLock : Bool
  /-- So many bytes of the lock file can be written. -/
  written : Nat

/-- A rule is added to its chain: `iptables` inserts it in front. -/
def addTo (rule : Rule) (t : Tables) : Tables :=
  let table := inputTable rule.backend rule.v6
  Function.update t table
    (if rule.backend = .iptables then (t table).insert (ruleText rule)
    else (t table).append (ruleText rule))

/-- Run commands up to a required one that fails; the rules added before it stay. -/
def runCmds (succeeds : Rule → Bool) : List Command → Tables → Bool × Tables
  | [], t => (true, t)
  | command :: commands, t =>
      if succeeds command.rule then runCmds succeeds commands (addTo command.rule t)
      else if command.required then (false, t)
      else runCmds succeeds commands t

def writeLock (e : Surroundings) (s : System) : System :=
  if e.opensLock then { s with lockFile := some ((lockContent e.pid).take e.written) } else s

/-- The guard and the host behind a setup. -/
def setup (e : Surroundings) (s : System) : Guard × System :=
  if !e.enabled then (⟨false, .none, false⟩, s)
  else if lockIsHeld e.runs s.lockFile then (⟨false, .none, true⟩, s)
  else if e.backend = .none then (⟨false, .none, true⟩, s)
  else match runCmds e.succeeds (applyRules e.backend) s.tables with
    | (true, tables) => (⟨true, e.backend, true⟩, writeLock e { s with tables := tables })
    | (false, tables) => (⟨false, .none, true⟩, { s with tables := tables })

/-- What stands in front of a handle in a listing. -/
def handleMark : Bytes :=
  ascii "# handle "

/-- `line.split("# handle ").nth(1)`, trimmed -/
def handleWord (line : Bytes) : Option Bytes :=
  (find handleMark line).map fun i =>
    let rest := line.drop (i + handleMark.length)
    Utf8.trim (rest.take ((find handleMark rest).getD rest.length))

/-- A rule as `nft -a list chain` prints it. -/
def printed (r : Firewall.HostRule) : Bytes :=
  [9, 9] ++ (r.text.intersperse [32]).flatten ++ [32] ++ handleMark ++ Decimal.render r.handle ++
    [10]

/-- The words for handles in those lines of a rule that hold the comment. -/
def markedWords (r : Firewall.HostRule) : List Bytes :=
  (lines (Utf8.fromUtf8Lossy (printed r))).filterMap fun line =>
    if contains icmpComment line then handleWord line else none

/-- `nft delete rule inet filter input handle WORD` -/
def deleteHandle (h : Firewall.Host) (word : Bytes) : Firewall.Host :=
  (h.deleteAll fun r => Decimal.render r.handle == word).getD h

/-- `iptables -D INPUT WORDS` -/
def deleteText (rule : Rule) (t : Tables) : Tables :=
  let table := inputTable rule.backend rule.v6
  Function.update t table
    (((t table).deleteFirst fun r => r.text == ruleText rule).getD (t table))

def removeRules : Backend → Tables → Tables
  | .iptables, t =>
      deleteText (.drop .iptables true) (deleteText (.accept .iptables true)
        (deleteText (.drop .iptables false) (deleteText (.accept .iptables false) t)))
  | .nftables, t =>
      Function.update t .inet (((t .inet).rules.flatMap markedWords).foldl deleteHandle (t .inet))
  | .none, t => t

def teardown (guard : Guard) (s : System) : System :=
  if guard.isOwner then ⟨removeRules guard.backend s.tables, none⟩ else s

/-- The orderly ends of the process. -/
inductive Shutdown
  /-- `async_main` returns. -/
  | dropped
  /-- The handler of Ctrl-C calls `exit`, which drops nothing. -/
  | ctrlC
deriving DecidableEq, Repr

/-- The host behind the end of the process. -/
def Shutdown.leaves : Shutdown → Guard → System → System
  | .dropped, guard, s => teardown guard s
  | .ctrlC, _, s => s

/-- The chains hold the same rules. -/
def SameRules (s s' : System) : Prop :=
  ∀ table, (s'.tables table).rules = (s.tables table).rules

/-- Without an owner nothing has changed, and its end takes everything away again. -/
def NoResidue (e : Surroundings) (shutdown : Shutdown) (s : System) : Prop :=
  if (setup e s).1.isOwner then
    SameRules s (shutdown.leaves (setup e s).1 (setup e s).2) ∧
      (shutdown.leaves (setup e s).1 (setup e s).2).lockFile = none
  else SameRules s (setup e s).2 ∧ (setup e s).2.lockFile = s.lockFile

section Chains

variable {t : Tables} {table : Table} {rule : Rule}

theorem rules_addTo
    (rule : Rule) (t : Tables) :
    ∃ n, (addTo rule t (inputTable rule.backend rule.v6)).rules =
      if rule.backend = .iptables then
        ⟨ruleText rule, n⟩ :: (t (inputTable rule.backend rule.v6)).rules
      else (t (inputTable rule.backend rule.v6)).rules ++ [⟨ruleText rule, n⟩] := by
  refine ⟨(t (inputTable rule.backend rule.v6)).nextHandle, ?_⟩
  rw [addTo, Function.update_self]
  split <;> rfl

theorem addTo_of_ne
    (h : table ≠ inputTable rule.backend rule.v6) :
    addTo rule t table = t table :=
  Function.update_of_ne h _ _

theorem rules_deleteText
    (rule : Rule) (t : Tables) :
    (deleteText rule t (inputTable rule.backend rule.v6)).rules =
      (t (inputTable rule.backend rule.v6)).rules.eraseP fun r => r.text == ruleText rule := by
  rw [deleteText, Function.update_self]
  exact Firewall.FirewallManager.getD_deleteFirst _

theorem deleteText_of_ne
    (rule : Rule) (h : table ≠ inputTable rule.backend rule.v6) :
    deleteText rule t table = t table :=
  Function.update_of_ne h _ _

end Chains

section Iptables

variable {succeeds : Rule → Bool} {t : Tables} {v6 : Bool}

/-- A rule is added, if its command succeeds. -/
def addOk (succeeds : Rule → Bool) (rule : Rule) (t : Tables) : Tables :=
  if succeeds rule then addTo rule t else t

theorem addOk_of_ne
    {table : Table} (rule : Rule) (h : table ≠ inputTable rule.backend rule.v6) :
    addOk succeeds rule t table = t table := by
  unfold addOk
  split
  · exact addTo_of_ne h
  · rfl

theorem rules_addOk
    {rule : Rule} (hbackend : rule.backend = .iptables) (t : Tables) :
    ∃ n, (addOk succeeds rule t (inputTable .iptables rule.v6)).rules =
      (if succeeds rule then [⟨ruleText rule, n⟩] else []) ++
        (t (inputTable .iptables rule.v6)).rules := by
  obtain ⟨n, hn⟩ := rules_addTo rule t
  rw [hbackend, if_pos rfl] at hn
  refine ⟨n, ?_⟩
  unfold addOk
  split
  · exact hn
  · rfl

/-- The chains behind the commands of `iptables`, if the required ones succeed. -/
def applied (succeeds : Rule → Bool) (t : Tables) : Tables :=
  addOk succeeds (.drop .iptables true) (addOk succeeds (.accept .iptables true)
    (addOk succeeds (.drop .iptables false) (addOk succeeds (.accept .iptables false) t)))

theorem runCmds_iptables
    (haccept : succeeds (.accept .iptables false) = true)
    (hdrop : succeeds (.drop .iptables false) = true) (t : Tables) :
    runCmds succeeds (applyRules .iptables) t = (true, applied succeeds t) := by
  rw [applyRules, runCmds, if_pos haccept, runCmds, if_pos hdrop, runCmds, applied, addOk, addOk,
    addOk, addOk, if_pos haccept, if_pos hdrop]
  split
  · rw [runCmds]
    split <;> rfl
  · rw [if_neg Bool.false_ne_true, runCmds]
    split <;> rfl

theorem ipv4_ne_ipv6 :
    inputTable .iptables false ≠ inputTable .iptables true := by
  decide

theorem rules_applied
    (succeeds : Rule → Bool) (t : Tables) (v6 : Bool) :
    ∃ n m, (applied succeeds t (inputTable .iptables v6)).rules =
      (if succeeds (.drop .iptables v6) then [⟨ruleText (.drop .iptables v6), n⟩] else []) ++
        ((if succeeds (.accept .iptables v6) then [⟨ruleText (.accept .iptables v6), m⟩] else []) ++
          (t (inputTable .iptables v6)).rules) := by
  have htwo : ∀ t : Tables, ∃ n m,
      (addOk succeeds (.drop .iptables v6) (addOk succeeds (.accept .iptables v6) t)
        (inputTable .iptables v6)).rules =
      (if succeeds (.drop .iptables v6) then [⟨ruleText (.drop .iptables v6), n⟩] else []) ++
        ((if succeeds (.accept .iptables v6) then [⟨ruleText (.accept .iptables v6), m⟩] else []) ++
          (t (inputTable .iptables v6)).rules) := by
    intro t
    obtain ⟨m, hm⟩ := @rules_addOk succeeds (.accept .iptables v6) rfl t
    obtain ⟨n, hn⟩ := @rules_addOk succeeds (.drop .iptables v6) rfl
      (addOk succeeds (.accept .iptables v6) t)
    exact ⟨n, m, hn.trans (congrArg _ hm)⟩
  cases v6 with
  | false =>
      obtain ⟨n, m, hnm⟩ := htwo t
      refine ⟨n, m, ?_⟩
      rw [applied, addOk_of_ne (.drop .iptables true) ipv4_ne_ipv6,
        addOk_of_ne (.accept .iptables true) ipv4_ne_ipv6, hnm]
  | true =>
      obtain ⟨n, m, hnm⟩ := htwo (addOk succeeds (.drop .iptables false)
        (addOk succeeds (.accept .iptables false) t))
      refine ⟨n, m, ?_⟩
      rw [applied, hnm, addOk_of_ne (.drop .iptables false) ipv4_ne_ipv6.symm,
        addOk_of_ne (.accept .iptables false) ipv4_ne_ipv6.symm]

theorem rules_removed
    (t : Tables) (v6 : Bool) :
    (removeRules .iptables t (inputTable .iptables v6)).rules =
      ((t (inputTable .iptables v6)).rules.eraseP
          fun r => r.text == ruleText (.accept .iptables v6)).eraseP
        fun r => r.text == ruleText (.drop .iptables v6) := by
  have htwo : ∀ t : Tables, (deleteText (.drop .iptables v6) (deleteText (.accept .iptables v6) t)
      (inputTable .iptables v6)).rules =
      ((t (inputTable .iptables v6)).rules.eraseP
          fun r => r.text == ruleText (.accept .iptables v6)).eraseP
        fun r => r.text == ruleText (.drop .iptables v6) := by
    intro t
    have haccept := rules_deleteText (.accept .iptables v6) t
    have hdrop := rules_deleteText (.drop .iptables v6) (deleteText (.accept .iptables v6) t)
    exact hdrop.trans (congrArg _ haccept)
  cases v6 with
  | false =>
      rw [removeRules, deleteText_of_ne (.drop .iptables true) ipv4_ne_ipv6,
        deleteText_of_ne (.accept .iptables true) ipv4_ne_ipv6, htwo]
  | true =>
      rw [removeRules, htwo, deleteText_of_ne (.drop .iptables false) ipv4_ne_ipv6.symm,
        deleteText_of_ne (.accept .iptables false) ipv4_ne_ipv6.symm]

/-- Two deletions restore a chain if each one finds the rule that was added for it, or none. -/
theorem erased_iff
    {accept drop : List Bytes} {before : List Firewall.HostRule}
    (hne : drop ≠ accept) (a d : Bool) (n m : Nat) :
    ((((if d then [Firewall.HostRule.mk drop n] else []) ++
          ((if a then [Firewall.HostRule.mk accept m] else []) ++ before)).eraseP
        fun r => r.text == accept).eraseP fun r => r.text == drop) = before ↔
      (a = true ∨ ∀ r ∈ before, r.text ≠ accept) ∧ (d = true ∨ ∀ r ∈ before, r.text ≠ drop) := by
  have hself : ∀ (text : List Bytes), (before.eraseP fun r => r.text == text) = before ↔
      ∀ r ∈ before, r.text ≠ text := by
    intro text
    rw [List.eraseP_eq_self_iff]
    simp
  have haccept : ((if a then [Firewall.HostRule.mk accept m] else []) ++ before).eraseP
      (fun r => r.text == accept) =
      if a then before else before.eraseP fun r => r.text == accept := by
    cases a with
    | true => exact List.eraseP_cons_of_pos (beq_self_eq_true _)
    | false => rfl
  cases d with
  | true =>
      have hskip : ((if true = true then [Firewall.HostRule.mk drop n] else []) ++
          ((if a then [Firewall.HostRule.mk accept m] else []) ++ before)).eraseP
            (fun r => r.text == accept) =
          ⟨drop, n⟩ :: if a then before else before.eraseP fun r => r.text == accept := by
        rw [← haccept]
        exact List.eraseP_cons_of_neg (by simpa using hne)
      rw [hskip, List.eraseP_cons, beq_self_eq_true, cond_true]
      cases a with
      | true => simp
      | false => simp
  | false =>
      rw [if_neg Bool.false_ne_true, List.nil_append, haccept]
      cases a with
      | true => simp
      | false =>
          rw [if_neg Bool.false_ne_true]
          constructor
          · intro h
            -- The first deletion can have taken nothing away.
            have hfirst : (before.eraseP fun r => r.text == accept) = before := by
              have hsub : before.Sublist (before.eraseP fun r => r.text == accept) := by
                have hsecond := @List.eraseP_sublist _ (fun r => r.text == drop)
                  (before.eraseP fun r => r.text == accept)
                rwa [h] at hsecond
              exact List.eraseP_sublist.antisymm hsub
            rw [hfirst] at h
            exact ⟨.inr ((hself accept).mp hfirst), .inr ((hself drop).mp h)⟩
          · rintro ⟨haccept | haccept, hdrop | hdrop⟩
            · cases haccept
            · cases haccept
            · cases hdrop
            · rw [(hself accept).mpr haccept, (hself drop).mpr hdrop]

theorem ruleText_drop_ne
    (v6 : Bool) :
    ruleText (.drop .iptables v6) ≠ ruleText (.accept .iptables v6) := by
  cases v6 <;> decide

/-- Each rule of IPv6 was added, or the chain has no rule of its text. -/
def Separate (succeeds : Rule → Bool) (t : Tables) : Prop :=
  ∀ rule ∈ [Rule.accept .iptables true, .drop .iptables true],
    succeeds rule = true ∨ ¬ (t .ipv6).Has (ruleText rule)

theorem restored_iptables_iff
    (haccept : succeeds (.accept .iptables false) = true)
    (hdrop : succeeds (.drop .iptables false) = true) :
    (∀ table, (removeRules .iptables (applied succeeds t) table).rules = (t table).rules) ↔
      Separate succeeds t := by
  have hfamily : ∀ v6, (removeRules .iptables (applied succeeds t)
      (inputTable .iptables v6)).rules = (t (inputTable .iptables v6)).rules ↔
      (succeeds (.accept .iptables v6) = true ∨
          ∀ r ∈ (t (inputTable .iptables v6)).rules, r.text ≠ ruleText (.accept .iptables v6)) ∧
        (succeeds (.drop .iptables v6) = true ∨
          ∀ r ∈ (t (inputTable .iptables v6)).rules, r.text ≠ ruleText (.drop .iptables v6)) := by
    intro v6
    obtain ⟨n, m, hnm⟩ := rules_applied succeeds t v6
    rw [rules_removed, hnm]
    exact erased_iff (ruleText_drop_ne v6) _ _ n m
  have hinet : removeRules .iptables (applied succeeds t) .inet = t .inet := by
    rw [removeRules, deleteText_of_ne _ (by decide), deleteText_of_ne _ (by decide),
      deleteText_of_ne _ (by decide), deleteText_of_ne _ (by decide), applied,
      addOk_of_ne _ (by decide), addOk_of_ne _ (by decide), addOk_of_ne _ (by decide),
      addOk_of_ne _ (by decide)]
  have hseparate : Separate succeeds t ↔ (succeeds (.accept .iptables true) = true ∨
          ∀ r ∈ (t .ipv6).rules, r.text ≠ ruleText (.accept .iptables true)) ∧
        (succeeds (.drop .iptables true) = true ∨
          ∀ r ∈ (t .ipv6).rules, r.text ≠ ruleText (.drop .iptables true)) := by
    simp [Separate, Firewall.Host.Has]
  rw [hseparate]
  constructor
  · intro h
    exact (hfamily true).mp (h _)
  · intro h table
    cases table with
    | ipv4 => exact (hfamily false).mpr ⟨.inl haccept, .inl hdrop⟩
    | ipv6 => exact (hfamily true).mpr h
    | inet => rw [hinet]

end Iptables

section Nftables

variable {t : Tables}

/-- A text of the guard is printed in one line, which names the handle of its rule. -/
theorem markedWords_of_text
    {text : List Bytes} {n : Nat}
    (hplain : ∀ b ∈ (text.intersperse [32]).flatten, b < 0x80 ∧ b ≠ 10 ∧ b ≠ 13 ∧ b ≠ 35)
    (hcomment : contains icmpComment (text.intersperse [32]).flatten = true) :
    markedWords ⟨text, n⟩ = [Decimal.render n] := by
  generalize hshown : (text.intersperse [32]).flatten = shown at hplain hcomment
  have hdigit : ∀ b ∈ Decimal.render n, b < 0x80 ∧ b ≠ 10 ∧ b ≠ 13 ∧ b ≠ 35 := by
    have hall : ∀ b : UInt8, Decimal.isDigit b = true → b < 0x80 ∧ b ≠ 10 ∧ b ≠ 13 ∧ b ≠ 35 :=
      forall_byte (by decide +kernel)
    exact fun b hb => hall b (Decimal.isDigit_of_mem_render hb)
  have hfront : (35 : UInt8) ∉ [9, 9] ++ shown ++ [32] := by
    intro h
    simp only [List.mem_append, List.mem_cons, List.not_mem_nil, or_false] at h
    rcases h with ((h | h) | h) | h
    · cases h
    · cases h
    · exact (hplain 35 h).2.2.2 rfl
    · cases h
  have hprinted : printed ⟨text, n⟩ =
      ([9, 9] ++ shown ++ [32] ++ (handleMark ++ Decimal.render n)) ++ 10 :: [] := by
    rw [printed, hshown]
    simp only [List.append_assoc]
  have hline : ∀ b ∈ [9, 9] ++ shown ++ [32] ++ (handleMark ++ Decimal.render n),
      b < 0x80 ∧ b ≠ 10 ∧ b ≠ 13 := by
    have hmark : ∀ b ∈ handleMark, b < 0x80 ∧ b ≠ 10 ∧ b ≠ 13 := by
      have hall : handleMark.all (fun b => b < 0x80 && b != 10 && b != 13) = true := rfl
      exact fun b hb => by simpa [and_assoc] using List.all_eq_true.mp hall b hb
    intro b hb
    simp only [List.mem_append, List.mem_cons, List.not_mem_nil, or_false] at hb
    rcases hb with (((rfl | rfl) | hb) | rfl) | hb | hb
    · decide
    · decide
    · exact ⟨(hplain b hb).1, (hplain b hb).2.1, (hplain b hb).2.2.1⟩
    · decide
    · exact hmark b hb
    · exact ⟨(hdigit b hb).1, (hdigit b hb).2.1, (hdigit b hb).2.2.1⟩
  have hlines : lines (Utf8.fromUtf8Lossy (printed ⟨text, n⟩)) =
      [[9, 9] ++ shown ++ [32] ++ (handleMark ++ Decimal.render n)] := by
    have hascii : ∀ b ∈ printed ⟨text, n⟩, b < 0x80 := by
      rw [hprinted]
      intro b hb
      rcases List.mem_append.mp hb with hb | hb
      · exact (hline b hb).1
      · rw [List.mem_singleton.mp hb]
        decide
    rw [Utf8.fromUtf8Lossy_ascii hascii, hprinted]
    exact HttpMessage.lines_lf_line
      ⟨fun h => (hline 10 h).2.1 rfl, fun h => (hline 13 h).2.2 rfl⟩ []
  have hmarked : contains icmpComment
      ([9, 9] ++ shown ++ [32] ++ (handleMark ++ Decimal.render n)) = true := by
    have hne : icmpComment ≠ [] := by decide
    rw [ contains_iff_infix hne] at hcomment ⊢
    refine hcomment.trans ⟨[9, 9], [32] ++ (handleMark ++ Decimal.render n), ?_⟩
    simp only [List.append_assoc]
  have hword : handleWord ([9, 9] ++ shown ++ [32] ++ (handleMark ++ Decimal.render n)) =
      some (Decimal.render n) := by
    have hfind : find handleMark ([9, 9] ++ shown ++ [32] ++ (handleMark ++ Decimal.render n)) =
        some ([9, 9] ++ shown ++ [32]).length := by
      have hself := find_self_append (show handleMark ≠ [] by decide) (Decimal.render n)
      have hskip := find_append_of_not_mem hfront (handleMark.tail) (handleMark ++ Decimal.render n)
      rw [show (35 : UInt8) :: handleMark.tail = handleMark by decide, hself] at hskip
      exact hskip
    have hnone : find handleMark (Decimal.render n) = none := by
      have hskip := find_append_of_not_mem (fun h => (hdigit 35 h).2.2.2 rfl)
        (handleMark.tail) []
      rw [show (35 : UInt8) :: handleMark.tail = handleMark by decide, List.append_nil] at hskip
      exact hskip
    have hrest : ([9, 9] ++ shown ++ [32] ++ (handleMark ++ Decimal.render n)).drop
        (([9, 9] ++ shown ++ [32]).length + handleMark.length) = Decimal.render n := by
      rw [← List.drop_drop, List.drop_left, List.drop_left]
    rw [handleWord, hfind, Option.map_some, hrest]
    simp only [hnone, Option.getD_none, List.take_length]
    rw [Utf8.trim_visible fun b hb => Utf8.visible_of_mem_render hb]
  rw [markedWords, hlines, List.filterMap_cons, if_pos hmarked, hword]
  rfl

set_option maxRecDepth 4000 in
/-- The texts of the guard are plain. -/
theorem markedWords_ruleText
    {rule : Rule} (hrule : rule = .accept .nftables false ∨ rule = .drop .nftables false)
    (n : Nat) :
    markedWords ⟨ruleText rule, n⟩ = [Decimal.render n] := by
  have hplain : ((ruleText rule).intersperse [32]).flatten.all (fun b =>
      b < 0x80 && b != 10 && b != 13 && b != 35) = true := by
    rcases hrule with rfl | rfl
    · rfl
    · rfl
  refine markedWords_of_text (fun b hb => ?_) ?_
  · have hb := List.all_eq_true.mp hplain b hb
    simpa [and_assoc] using hb
  · rcases hrule with rfl | rfl
    · rfl
    · rfl

theorem rules_deleteHandle
    (h : Firewall.Host) (word : Bytes) :
    (deleteHandle h word).rules =
      Undo.eraseAll (fun r => Decimal.render r.handle == word) h.rules := by
  unfold deleteHandle Firewall.Host.deleteAll
  by_cases hany : h.rules.any (fun r => Decimal.render r.handle == word) = true
  · rw [if_pos hany]
    rfl
  · rw [if_neg hany]
    refine (List.filter_eq_self.mpr fun r hr => ?_).symm
    rw [Bool.not_eq_true', ← Bool.not_eq_true]
    exact fun hword => hany (List.any_eq_true.mpr ⟨r, hr, hword⟩)

/-- Deletions by words for handles. -/
def byWords (words : List Bytes) : List (Option (Firewall.HostRule → Bool)) :=
  words.map fun word => some fun r => Decimal.render r.handle == word

theorem rules_foldl_deleteHandle
    (words : List Bytes) (h : Firewall.Host) :
    (words.foldl deleteHandle h).rules =
      Undo.deletedBy Undo.eraseAll (byWords words) h.rules := by
  induction words generalizing h with
  | nil => rfl
  | cons word words ih =>
      rw [List.foldl_cons, ih, rules_deleteHandle]
      rfl

theorem hit_byWords_iff
    {words : List Bytes} {r : Firewall.HostRule} :
    Undo.Hit (byWords words) r ↔ Decimal.render r.handle ∈ words := by
  simp [Undo.Hit, byWords]

/-- The handle of no rule stands behind the comment. -/
def Unmarked (h : Firewall.Host) : Prop :=
  ∀ r ∈ h.rules, Decimal.render r.handle ∉ h.rules.flatMap markedWords

theorem restored_nftables_iff
    (t : Tables) :
    (∀ table, (removeRules .nftables (addTo (.drop .nftables false)
        (addTo (.accept .nftables false) t)) table).rules = (t table).rules) ↔
      Unmarked (t .inet) := by
  generalize hadded : addTo (.drop .nftables false) (addTo (.accept .nftables false) t) = t'
  obtain ⟨n, m, hrules⟩ : ∃ n m, (t' .inet).rules = (t .inet).rules ++
      [⟨ruleText (.accept .nftables false), n⟩, ⟨ruleText (.drop .nftables false), m⟩] := by
    obtain ⟨n, hn⟩ := rules_addTo (.accept .nftables false) t
    obtain ⟨m, hm⟩ := rules_addTo (.drop .nftables false) (addTo (.accept .nftables false) t)
    refine ⟨n, m, ?_⟩
    rw [← hadded]
    refine hm.trans ?_
    rw [if_neg (by decide)]
    have hfirst := congrArg (· ++ [⟨ruleText (.drop .nftables false), m⟩]) hn
    rw [if_neg (by decide), List.append_assoc] at hfirst
    exact hfirst
  have hothers : ∀ table, table ≠ .inet → t' table = t table := by
    intro table htable
    rw [← hadded, addTo_of_ne htable, addTo_of_ne htable]
  have hhandles := (t' .inet).distinct
  rw [hrules, List.map_append, List.nodup_append] at hhandles
  have hnodup := (t' .inet).distinct.of_map
  rw [hrules] at hnodup
  have hinet : (removeRules .nftables t' .inet).rules = (t .inet).rules ↔ Unmarked (t .inet) := by
    have hwords : (t' .inet).rules.flatMap markedWords =
        (t .inet).rules.flatMap markedWords ++ [Decimal.render n, Decimal.render m] := by
      rw [hrules, List.flatMap_append, List.flatMap_cons, List.flatMap_cons, List.flatMap_nil,
        markedWords_ruleText (.inl rfl), markedWords_ruleText (.inr rfl)]
      rfl
    rw [removeRules, Function.update_self, rules_foldl_deleteHandle, hwords, hrules,
      Undo.cleared_iff hnodup]
    constructor
    · rintro ⟨hbefore, -⟩ r hr hmarked
      exact hbefore r hr (hit_byWords_iff.mpr (List.mem_append_left _ hmarked))
    · intro h
      refine ⟨fun r hr hhit => ?_, fun r hr => hit_byWords_iff.mpr ?_⟩
      · rcases List.mem_append.mp (hit_byWords_iff.mp hhit) with hmarked | hown
        · exact h r hr hmarked
        · have hapart := fun k hk => hhandles.2.2 r.handle (List.mem_map_of_mem hr) k hk
          simp only [List.mem_cons, List.not_mem_nil, or_false] at hown
          rcases hown with hown | hown
          · exact hapart n (by simp) (Decimal.render_inj hown)
          · exact hapart m (by simp) (Decimal.render_inj hown)
      · simp only [List.mem_cons, List.not_mem_nil, or_false] at hr
        rcases hr with rfl | rfl
        · simp
        · simp
  constructor
  · intro h
    exact hinet.mp (h .inet)
  · intro h table
    by_cases htable : table = .inet
    · rw [htable]
      exact hinet.mpr h
    · rw [removeRules, Function.update_of_ne htable, hothers table htable]

end Nftables

section Residue

variable {e : Surroundings} {shutdown : Shutdown} {s : System}

/-- The setup comes to its commands. -/
def Starts (e : Surroundings) (s : System) : Prop :=
  e.enabled = true ∧ lockIsHeld e.runs s.lockFile = false ∧ e.backend ≠ .none

/-- No rule of the host is taken for one of the guard. -/
def Apart (e : Surroundings) (s : System) : Prop :=
  match e.backend with
  | .iptables => Separate e.succeeds s.tables
  | .nftables => Unmarked (s.tables .inet)
  | .none => True

/--
Behind the first rule, the setup adds the other required one, the guard is dropped, and its
rules are told apart from the others.
-/
def Clean (e : Surroundings) (shutdown : Shutdown) (s : System) : Prop :=
  Starts e s → e.succeeds (.accept e.backend false) = true →
    e.succeeds (.drop e.backend false) = true ∧ shutdown = .dropped ∧ Apart e s

theorem setup_of_not_starts
    (h : ¬ Starts e s) :
    (setup e s).1.isOwner = false ∧ (setup e s).2 = s := by
  unfold setup
  split
  · exact ⟨rfl, rfl⟩
  split
  · exact ⟨rfl, rfl⟩
  split
  · exact ⟨rfl, rfl⟩
  · rename_i henabled hheld hbackend
    exact absurd ⟨by simpa using henabled, Bool.not_eq_true _ |>.mp hheld, hbackend⟩ h

theorem setup_of_starts
    (h : Starts e s) :
    setup e s = match runCmds e.succeeds (applyRules e.backend) s.tables with
      | (true, tables) => (⟨true, e.backend, true⟩, writeLock e { s with tables := tables })
      | (false, tables) => (⟨false, .none, true⟩, { s with tables := tables }) := by
  obtain ⟨henabled, hheld, hbackend⟩ := h
  unfold setup
  rw [if_neg (by simp [henabled]), if_neg (by simp [hheld]), if_neg hbackend]

/-- The required commands are the first two. -/
theorem applyRules_eq
    {backend : Backend} (h : backend ≠ .none) :
    ∃ rest, applyRules backend =
      ⟨.accept backend false, true⟩ :: ⟨.drop backend false, true⟩ :: rest := by
  cases backend with
  | none => exact absurd rfl h
  | iptables | nftables => exact ⟨_, rfl⟩

/-- A rule that was added makes its chain longer. -/
theorem length_addTo
    (rule : Rule) (t : Tables) :
    (addTo rule t (inputTable rule.backend rule.v6)).rules.length =
      (t (inputTable rule.backend rule.v6)).rules.length + 1 := by
  obtain ⟨n, hn⟩ := rules_addTo rule t
  rw [hn]
  split
  · rw [List.length_cons]
  · rw [List.length_append, List.length_singleton]

/-- Commands take no rule away. -/
theorem length_le_runCmds
    (succeeds : Rule → Bool) (commands : List Command) (t : Tables) (table : Table) :
    (t table).rules.length ≤ ((runCmds succeeds commands t).2 table).rules.length := by
  induction commands generalizing t with
  | nil => exact Nat.le_refl _
  | cons command commands ih =>
      rw [runCmds]
      split
      · refine le_trans ?_ (ih (addTo command.rule t))
        by_cases htable : table = inputTable command.rule.backend command.rule.v6
        · rw [htable, length_addTo]
          exact Nat.le_succ _
        · rw [addTo_of_ne htable]
      · split
        · exact Nat.le_refl _
        · exact ih t

/-- Behind the first command the chains are not what they were. -/
theorem runCmds_changes
    (hstarts : Starts e s) (haccept : e.succeeds (.accept e.backend false) = true) :
    ¬ ∀ table, ((runCmds e.succeeds (applyRules e.backend) s.tables).2 table).rules =
      (s.tables table).rules := by
  intro h
  obtain ⟨rest, hrest⟩ := applyRules_eq hstarts.2.2
  have hle := length_le_runCmds e.succeeds (⟨.drop e.backend false, true⟩ :: rest)
    (addTo (.accept e.backend false) s.tables) (inputTable e.backend false)
  have hlonger := length_addTo (.accept e.backend false) s.tables
  have hsame := h (inputTable e.backend false)
  rw [hrest, runCmds, if_pos haccept] at hsame
  rw [hsame] at hle
  exact Nat.not_succ_le_self _ (hlonger ▸ hle)

/-- The required commands make an owner, whose rules can be removed or not. -/
theorem runCmds_required
    (hstarts : Starts e s) (haccept : e.succeeds (.accept e.backend false) = true)
    (hdrop : e.succeeds (.drop e.backend false) = true) :
    ∃ tables, runCmds e.succeeds (applyRules e.backend) s.tables = (true, tables) ∧
      ((∀ table, (removeRules e.backend tables table).rules = (s.tables table).rules) ↔
        Apart e s) := by
  unfold Apart
  cases hbackend : e.backend with
  | none => exact absurd hbackend hstarts.2.2
  | iptables =>
      rw [hbackend] at haccept hdrop
      exact ⟨_, runCmds_iptables haccept hdrop s.tables, restored_iptables_iff haccept hdrop⟩
  | nftables =>
      rw [hbackend] at haccept hdrop
      refine ⟨_, ?_, restored_nftables_iff s.tables⟩
      rw [applyRules, runCmds, if_pos haccept, runCmds, if_pos hdrop, runCmds]

theorem tables_writeLock
    (e : Surroundings) (s : System) :
    (writeLock e s).tables = s.tables := by
  unfold writeLock
  split <;> rfl

/-- A guard leaves nothing behind exactly under this condition. -/
theorem noResidue_iff
    (e : Surroundings) (shutdown : Shutdown) (s : System) :
    NoResidue e shutdown s ↔ Clean e shutdown s := by
  by_cases hstarts : Starts e s
  · have hsetup := setup_of_starts hstarts
    obtain ⟨rest, hrest⟩ := applyRules_eq hstarts.2.2
    cases haccept : e.succeeds (.accept e.backend false) with
    | false =>
        have hcmds : runCmds e.succeeds (applyRules e.backend) s.tables = (false, s.tables) := by
          rw [hrest, runCmds, haccept]
          rfl
        rw [hcmds] at hsetup
        refine iff_of_true ?_ fun _ h => absurd h (by rw [haccept]; exact Bool.false_ne_true)
        rw [NoResidue, hsetup]
        exact ⟨fun _ => rfl, rfl⟩
    | true =>
    have hchanges := runCmds_changes hstarts haccept
    cases hdrop : e.succeeds (.drop e.backend false) with
    | false =>
        -- The rule of the first command stays.
        have hcmds : runCmds e.succeeds (applyRules e.backend) s.tables =
            (false, addTo (.accept e.backend false) s.tables) := by
          rw [hrest, runCmds, if_pos haccept, runCmds, hdrop]
          rfl
        rw [hcmds] at hsetup hchanges
        refine iff_of_false ?_ fun h => absurd (h hstarts haccept).1 (by simp [hdrop])
        rw [NoResidue, hsetup]
        exact fun h => hchanges h.1
    | true =>
    obtain ⟨tables, hcmds, hremoved⟩ := runCmds_required hstarts haccept hdrop
    rw [hcmds] at hsetup hchanges
    cases shutdown with
    | ctrlC =>
        refine iff_of_false ?_ fun h => nomatch (h hstarts haccept).2.1
        rw [NoResidue, hsetup]
        refine fun h => hchanges fun table => ?_
        have hsame := h.1 table
        rwa [Shutdown.leaves, tables_writeLock] at hsame
    | dropped =>
        have hleft : NoResidue e .dropped s ↔
            ∀ table, (removeRules e.backend tables table).rules = (s.tables table).rules := by
          rw [NoResidue, hsetup]
          simp only [if_true, Shutdown.leaves, teardown, tables_writeLock, SameRules, and_true]
        rw [hleft, hremoved]
        exact ⟨fun h _ _ => ⟨hdrop, rfl, h⟩, fun h => (h hstarts haccept).2.2⟩
  · obtain ⟨howner, hsame⟩ := setup_of_not_starts hstarts
    refine iff_of_true ?_ fun h => absurd h hstarts
    rw [NoResidue, howner, hsame]
    exact ⟨fun _ => rfl, rfl⟩

/-- A setup with `nft`, with these commands that succeed. -/
def nftSetup (succeeds : Rule → Bool) : Surroundings where
  pid := 1
  enabled := true
  runs := fun _ => false
  backend := .nftables
  succeeds := succeeds
  opensLock := true
  written := 11

/-- A host without rules. -/
def bareSystem : System :=
  ⟨fun _ => Firewall.Host.ofTexts [], none⟩

/-- Ctrl-C leaves the rules of an owner, and a setup that fails leaves its first rule. -/
theorem rules_stay :
    ¬ NoResidue (nftSetup fun _ => true) .ctrlC bareSystem ∧
      ¬ NoResidue (nftSetup fun rule => rule == .accept .nftables false) .dropped bareSystem := by
  constructor
  · intro h
    exact absurd (h.1 .inet) (by decide)
  · intro h
    exact absurd (h.1 .inet) (by decide)

end Residue

end IcmpGuard
end RunNginx
