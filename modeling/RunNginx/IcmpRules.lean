import Mathlib.Algebra.Order.Ring.Rat
import Mathlib.Logic.Function.Basic
import RunNginx.IcmpGuard
import RunNginx.Lib.RuleChain
import RunNginx.Lib.TokenBucket

/-!
# What the rules against ICMP floods do

The commands of the guard add an accepting rule with a limit, and a dropping one behind it.
`nft` appends rules to its chain, and `iptables` inserts them in front, so that there the
rule that is added last is the first one to see a packet.

`rateLimits_iff`: on top of a chain that is silent on echo requests, those of IPv4 are
limited with `nft`, and those of IPv6 with `ip6tables` if the dropping rule could not be
added and the policy drops instead.
-/

namespace RunNginx
namespace IcmpGuard

open TokenBucket

structure Packet where
  /-- In seconds. -/
  time : Rat
  v6 : Bool
  protocol : UInt8
  icmpType : UInt8
  /-- Addresses, and whatever other rules look at. -/
  rest : Bytes
deriving DecidableEq

inductive Verdict
  | accept
  | drop
deriving DecidableEq, Repr

/-- An echo request of this family. -/
def echoRequest (v6 : Bool) (p : Packet) : Bool :=
  p.v6 == v6 &&
    if v6 then p.protocol == 58 && p.icmpType == 128 else p.protocol == 1 && p.icmpType == 8

/-- In tokens per second. -/
def icmpRate : Rat := 5

def icmpBurst : Rat := 10

namespace Rule

def backend : Rule → Backend
  | .accept backend _ | .drop backend _ => backend

def v6 : Rule → Bool
  | .accept _ v6 | .drop _ v6 => v6

end Rule

/-- A rule of a chain, with what it remembers. -/
inductive FilterRule
  | guard (rule : Rule) (bucket : Option (Bucket Rat))
  /-- A rule from elsewhere, which may look at all packets that it has seen. -/
  | other (decides : List Packet → Packet → Option Verdict) (seen : List Packet)

/-- What a rule says of a packet, and the rule behind it. -/
def FilterRule.consider : FilterRule → Packet → Option Verdict × FilterRule
  | .guard rule bucket, p =>
      if echoRequest rule.v6 p then
        match rule with
        | .accept _ _ =>
            (if (take icmpRate icmpBurst p.time bucket).1 then some .accept else none,
              .guard rule (some (take icmpRate icmpBurst p.time bucket).2))
        | .drop _ _ => (some .drop, .guard rule bucket)
      else (none, .guard rule bucket)
  | .other decides seen, p => (decides seen p, .other decides (seen ++ [p]))

/-- The chains of incoming packets. -/
inductive Table
  | ipv4
  | ipv6
  | inet
deriving DecidableEq, Repr

/-- The table of a backend that packets of this family come to. -/
def inputTable : Backend → Bool → Table
  | .nftables, _ => .inet
  | .iptables, v6 | .none, v6 => if v6 then .ipv6 else .ipv4

structure Chain where
  rules : List FilterRule
  /-- What becomes of a packet that no rule decides on. -/
  policy : Verdict

namespace Chain

/-- `iptables -I` inserts a rule in front, `nft add rule` appends it. -/
def add (backend : Backend) (rule : FilterRule) (c : Chain) : Chain :=
  { c with rules := if backend = .iptables then rule :: c.rules else c.rules ++ [rule] }

/-- The rules of the guard in the chain. -/
def guards (c : Chain) : List Rule :=
  c.rules.filterMap fun
    | .guard rule _ => some rule
    | .other _ _ => none

/-- The packets that come to the chain, with what becomes of them. -/
def verdicts (c : Chain) (ps : List Packet) : List (Packet × Verdict) :=
  Run.answered (RuleChain.verdict FilterRule.consider c.policy)
    (RuleChain.step FilterRule.consider) c.rules ps

end Chain

abbrev Firewall := Table → Chain

/-- Run a command; without a required one the setup fails. -/
def runCmd (succeeds : Rule → Bool) (fw : Firewall) (command : Command) : Option Firewall :=
  let rule := command.rule
  if succeeds rule then
    let table := inputTable rule.backend rule.v6
    some (Function.update fw table ((fw table).add rule.backend (.guard rule none)))
  else if command.required then none
  else some fw

/-- Run the commands of a backend, one after the other. -/
def setRules (succeeds : Rule → Bool) (backend : Backend) (fw : Firewall) : Option Firewall :=
  (applyRules backend).foldlM (runCmd succeeds) fw

/-- What is to become of a packet within the rate, or above it. -/
def rateVerdict (x : Rat × Bool) : Verdict :=
  if x.2 then .accept else .drop

/-- Echo requests within the rate are accepted, and the ones above it dropped. -/
def RateLimits (c : Chain) (v6 : Bool) : Prop :=
  ∀ ps, ((c.verdicts ps).filter fun x => echoRequest v6 x.1).map Prod.snd =
    (answers icmpRate icmpBurst none ((ps.filter (echoRequest v6)).map Packet.time)).map rateVerdict

section Guards

variable {v6 : Bool} {p : Packet} {rule : Rule} {bucket : Option (Bucket Rat)}

theorem behind_guard
    (rule : Rule) (bucket : Option (Bucket Rat)) (ps : List Packet) :
    ∃ bucket', RuleChain.behind FilterRule.consider (.guard rule bucket) ps =
      .guard rule bucket' := by
  induction ps generalizing bucket with
  | nil => exact ⟨bucket, rfl⟩
  | cons p ps ih =>
      have hstep : ∃ b, (FilterRule.consider (.guard rule bucket) p).2 = .guard rule b := by
        cases rule with
        | accept backend v6 | drop backend v6 =>
            rw [FilterRule.consider]
            split
            · exact ⟨_, rfl⟩
            · exact ⟨_, rfl⟩
      obtain ⟨b, hb⟩ := hstep
      rw [RuleChain.behind, List.foldl_cons, hb]
      exact ih b

theorem consider_other
    (h : echoRequest rule.v6 p = false) (bucket : Option (Bucket Rat)) :
    FilterRule.consider (.guard rule bucket) p = (none, .guard rule bucket) := by
  cases rule with
  | accept backend v6 | drop backend v6 =>
      rw [FilterRule.consider, h]
      rfl

/-- A rule of the guard looks at the echo requests of its family only. -/
theorem guard_only
    (rule : Rule) (bucket : Option (Bucket Rat)) :
    RuleChain.Only FilterRule.consider (echoRequest rule.v6) (.guard rule bucket) := by
  intro ps p hp
  obtain ⟨b, hb⟩ := behind_guard rule bucket ps
  rw [hb, consider_other hp]

theorem guard_silent
    (h : rule.v6 ≠ v6) (bucket : Option (Bucket Rat)) :
    RuleChain.Silent FilterRule.consider (echoRequest v6) (.guard rule bucket) := by
  intro ps p hp
  obtain ⟨b, hb⟩ := behind_guard rule bucket ps
  have hother : echoRequest rule.v6 p = false := by
    have hv6 : p.v6 = v6 := by
      rw [echoRequest, Bool.and_eq_true, beq_iff_eq] at hp
      exact hp.1
    rw [echoRequest, Bool.and_eq_false_iff]
    exact .inl (beq_eq_false_iff_ne.mpr (hv6 ▸ Ne.symm h))
  rw [hb, consider_other hother]

theorem behind_other
    (decides : List Packet → Packet → Option Verdict) (seen ps : List Packet) :
    RuleChain.behind FilterRule.consider (.other decides seen) ps = .other decides (seen ++ ps) := by
  induction ps generalizing seen with
  | nil => rw [List.append_nil]; rfl
  | cons p ps ih =>
      have hnext := ih (seen ++ [p])
      rw [List.append_assoc] at hnext
      exact hnext

/-- A rule that decides on no echo request, whatever it has seen. -/
theorem other_silent
    {decides : List Packet → Packet → Option Verdict}
    (h : ∀ seen p, echoRequest v6 p = true → decides seen p = none) (seen : List Packet) :
    RuleChain.Silent FilterRule.consider (echoRequest v6) (.other decides seen) := by
  intro ps p hp
  rw [behind_other]
  exact h (seen ++ ps) p hp

/-- A chain gets the rules of the guard in the order in which the host counts them. -/
theorem guards_add
    (backend : Backend) (rule : Rule) (bucket : Option (Bucket Rat)) (c : Chain) :
    (c.add backend (.guard rule bucket)).guards = addRule rule backend c.guards := by
  unfold Chain.add Chain.guards addRule
  split
  · rfl
  · rw [List.filterMap_append]
    rfl

/-- The accepting rule takes a token. -/
theorem consider_accept
    {backend : Backend} (h : echoRequest v6 p = true) (bucket : Option (Bucket Rat)) :
    FilterRule.consider (.guard (.accept backend v6) bucket) p =
      (if (take icmpRate icmpBurst p.time bucket).1 then some .accept else none,
        .guard (.accept backend v6) (some (take icmpRate icmpBurst p.time bucket).2)) := by
  rw [FilterRule.consider]
  exact if_pos h

theorem consider_drop
    {backend : Backend} (h : echoRequest v6 p = true) (bucket : Option (Bucket Rat)) :
    FilterRule.consider (.guard (.drop backend v6) bucket) p =
      (some .drop, .guard (.drop backend v6) bucket) := by
  rw [FilterRule.consider]
  exact if_pos h

end Guards

section Answers

variable {v6 : Bool} {policy : Verdict} {other : Option Verdict} {ps : List Packet}

/-- What becomes of the packets of a run. -/
def outcomes (policy : Verdict) (rules : List FilterRule) (ps : List Packet) : List Verdict :=
  (Run.answered (RuleChain.verdict FilterRule.consider policy)
    (RuleChain.step FilterRule.consider) rules ps).map Prod.snd

/-- Rules that decide as the limit says, or else as another rule or the policy does. -/
theorem outcomes_limited
    {rules : Option (Bucket Rat) → List FilterRule}
    (hrules : ∀ bucket p, echoRequest v6 p = true →
      RuleChain.pass FilterRule.consider (rules bucket) p =
        (if (take icmpRate icmpBurst p.time bucket).1 then some .accept else other,
          rules (some (take icmpRate icmpBurst p.time bucket).2)))
    (hps : ∀ p ∈ ps, echoRequest v6 p = true) (bucket : Option (Bucket Rat)) :
    outcomes policy (rules bucket) ps =
      (answers icmpRate icmpBurst bucket (ps.map Packet.time)).map fun x =>
        if x.2 then .accept else other.getD policy := by
  induction ps generalizing bucket with
  | nil => rfl
  | cons p ps ih =>
      obtain ⟨hp, hps⟩ := List.forall_mem_cons.mp hps
      have hpass := hrules bucket p hp
      have hrest := ih hps (some (take icmpRate icmpBurst p.time bucket).2)
      rw [outcomes] at hrest ⊢
      rw [Run.answered, RuleChain.verdict, RuleChain.step, hpass, List.map_cons, hrest,
        List.map_cons, answers, List.map_cons]
      split <;> rfl

/-- Rules that always decide alike. -/
theorem outcomes_constant
    {rules : List FilterRule}
    (hrules : ∀ p, echoRequest v6 p = true →
      RuleChain.pass FilterRule.consider rules p = (other, rules))
    (hps : ∀ p ∈ ps, echoRequest v6 p = true) :
    outcomes policy rules ps = ps.map fun _ => other.getD policy := by
  induction ps with
  | nil => rfl
  | cons p ps ih =>
      obtain ⟨hp, hps⟩ := List.forall_mem_cons.mp hps
      have hrest := ih hps
      rw [outcomes] at hrest ⊢
      rw [Run.answered, RuleChain.verdict, RuleChain.step, hrules p hp, List.map_cons, hrest,
        List.map_cons]

/-- An echo request of a family. -/
def ping (v6 : Bool) : Packet where
  time := 0
  v6 := v6
  protocol := if v6 then 58 else 1
  icmpType := if v6 then 128 else 8
  rest := []

theorem ping_echoRequest
    (v6 : Bool) :
    echoRequest v6 (ping v6) = true := by
  cases v6 <;> rfl

theorem rate_pos :
    (0 : Rat) < icmpRate ∧ (1 : Rat) ≤ icmpBurst := by
  constructor
  · decide
  · decide

/-- The first packet is within the rate. -/
theorem first_granted :
    ∀ x ∈ answers icmpRate icmpBurst none [(0 : Rat)], x.2 = true :=
  answers_spaced rate_pos.1 rate_pos.2 nofun ⟨nofun, trivial⟩

/-- Of eleven packets at once one is above the rate. -/
theorem eleventh_denied :
    ∃ x ∈ answers icmpRate icmpBurst none (List.replicate 11 (0 : Rat)), x.2 = false := by
  by_contra hnone
  push Not at hnone
  have horder : ∀ n, InOrder (none : Option Rat) (List.replicate n 0) ∧
      InOrder (some (0 : Rat)) (List.replicate n 0) := by
    intro n
    induction n with
    | zero => exact ⟨trivial, trivial⟩
    | succ n ih => exact ⟨⟨nofun, ih.2⟩, fun t ht => (Option.some.inj ht).symm.le, ih.2⟩
  have hle : (granted 0 (0 + 0) (answers icmpRate icmpBurst none (List.replicate 11 0)) : Rat) ≤
      icmpBurst + 0 * icmpRate :=
    granted_le rate_pos.1.le (zero_le_one.trans rate_pos.2) le_rfl nofun (horder 11).1
  have htimes := @map_fst_answers _ _ _ icmpRate icmpBurst none (List.replicate 11 (0 : Rat))
  have hall : granted 0 (0 + 0) (answers icmpRate icmpBurst none (List.replicate 11 (0 : Rat))) =
      11 := by
    have hlength := congrArg List.length htimes
    rw [List.length_map, List.length_replicate] at hlength
    refine (List.countP_eq_length.mpr fun x hx => ?_).trans hlength
    have htime : x.1 = 0 := by
      refine List.eq_of_mem_replicate (n := 11) ?_
      rw [← htimes]
      exact List.mem_map_of_mem hx
    rw [htime, Bool.not_eq_false _ |>.mp (hnone x hx)]
    simp
  rw [hall, icmpBurst, icmpRate] at hle
  norm_num at hle

end Answers

section Limits

variable {v6 : Bool} {c : Chain} {guards : List FilterRule} {policy : Verdict}

/-- The echo requests that the ideal limiter sees. -/
def idealOutcomes (ps : List Packet) : List Verdict :=
  (answers icmpRate icmpBurst none (ps.map Packet.time)).map rateVerdict

/-- Around silent rules the guard alone limits the echo requests. -/
theorem rateLimits_iff_around
    (h : RuleChain.Around FilterRule.consider (echoRequest v6) c.rules guards) :
    RateLimits c v6 ↔
      ∀ ps, (∀ p ∈ ps, echoRequest v6 p = true) →
        outcomes c.policy guards ps = idealOutcomes ps := by
  have hchain : ∀ ps, ((c.verdicts ps).filter fun x => echoRequest v6 x.1).map Prod.snd =
      outcomes c.policy guards (ps.filter (echoRequest v6)) := by
    intro ps
    rw [Chain.verdicts, RuleChain.answered_around c.policy h, outcomes]
  constructor
  · intro hlimits ps hps
    have hps' := hlimits ps
    rw [hchain, List.filter_eq_self.mpr hps] at hps'
    exact hps'
  · intro hguards ps
    rw [hchain]
    exact hguards _ fun p hp => (List.mem_filter.mp hp).2

/-- Rules that accept every echo request do not limit them. -/
theorem not_limited_of_accepts
    (h : ∀ ps, (∀ p ∈ ps, echoRequest v6 p = true) →
      ∀ v ∈ outcomes policy guards ps, v = .accept) :
    ¬ ∀ ps, (∀ p ∈ ps, echoRequest v6 p = true) → outcomes policy guards ps = idealOutcomes ps := by
  intro hlimits
  have hpings : ∀ p ∈ List.replicate 11 (ping v6), echoRequest v6 p = true := by
    intro p hp
    rw [List.eq_of_mem_replicate hp]
    exact ping_echoRequest v6
  obtain ⟨x, hx, hdenied⟩ := eleventh_denied
  have hmem : rateVerdict x ∈ outcomes policy guards (List.replicate 11 (ping v6)) := by
    rw [hlimits _ hpings, idealOutcomes, List.map_replicate]
    exact List.mem_map_of_mem hx
  have haccept := h _ hpings _ hmem
  rw [rateVerdict, hdenied] at haccept
  cases haccept

/-- Rules that drop every echo request do not limit them either. -/
theorem not_limited_of_drops
    (h : ∀ ps, (∀ p ∈ ps, echoRequest v6 p = true) →
      ∀ v ∈ outcomes policy guards ps, v = .drop) :
    ¬ ∀ ps, (∀ p ∈ ps, echoRequest v6 p = true) → outcomes policy guards ps = idealOutcomes ps := by
  intro hlimits
  have hping : ∀ p ∈ [ping v6], echoRequest v6 p = true := by
    intro p hp
    rw [List.mem_singleton.mp hp]
    exact ping_echoRequest v6
  obtain ⟨x, hx⟩ : ∃ x, x ∈ answers icmpRate icmpBurst none [(0 : Rat)] := ⟨_, List.mem_cons_self⟩
  have hmem : rateVerdict x ∈ outcomes policy guards [ping v6] := by
    rw [hlimits _ hping]
    exact List.mem_map_of_mem hx
  have hdrop := h _ hping _ hmem
  rw [rateVerdict, first_granted x hx] at hdrop
  cases hdrop

end Limits

section Setup

variable {succeeds : Rule → Bool} {backend : Backend} {fw fw' : Firewall} {v6 : Bool}

/-- The rules of a command, if it succeeded. -/
def added (succeeds : Rule → Bool) (rule : Rule) : List FilterRule :=
  if succeeds rule then [.guard rule none] else []

/-- The rules at the beginning of the chain that a family comes to, behind the setup. -/
def frontRules (succeeds : Rule → Bool) : Backend → Bool → List FilterRule
  | .iptables, v6 => added succeeds (.drop .iptables v6) ++ added succeeds (.accept .iptables v6)
  | .nftables, _ | .none, _ => []

/-- The rules at the end of it. -/
def backRules (succeeds : Rule → Bool) : Backend → List FilterRule
  | .nftables =>
      added succeeds (.accept .nftables false) ++ added succeeds (.drop .nftables false)
  | .iptables | .none => []

/-- The required commands have succeeded, and the rules are where their backend puts them. -/
theorem setRules_some
    (h : setRules succeeds backend fw = some fw') (v6 : Bool) :
    (∀ command ∈ applyRules backend, command.required = true → succeeds command.rule = true) ∧
      (fw' (inputTable backend v6)).rules = frontRules succeeds backend v6 ++
        ((fw (inputTable backend v6)).rules ++ backRules succeeds backend) ∧
      (fw' (inputTable backend v6)).policy = (fw (inputTable backend v6)).policy := by
  cases backend with
  | none =>
      cases h
      exact ⟨by simp [applyRules], by simp [frontRules, backRules], rfl⟩
  | nftables =>
      cases haccept : succeeds (.accept .nftables false) with
      | false => simp [setRules, applyRules, runCmd, haccept] at h
      | true =>
      cases hdrop : succeeds (.drop .nftables false) with
      | false => simp [setRules, applyRules, runCmd, haccept, hdrop] at h
      | true =>
      simp only [setRules, applyRules, runCmd, haccept, hdrop, List.foldlM_cons, List.foldlM_nil,
        if_true, Option.pure_def, Option.bind_eq_bind, Option.bind_some, Option.some.injEq] at h
      subst h
      refine ⟨by simp [applyRules, haccept, hdrop], ?_, ?_⟩
      · simp [inputTable, Rule.backend, Rule.v6, Chain.add, frontRules, backRules, added, haccept,
          hdrop]
      · simp [inputTable, Rule.backend, Rule.v6, Chain.add]
  | iptables =>
      cases haccept : succeeds (.accept .iptables false) with
      | false => simp [setRules, applyRules, runCmd, haccept] at h
      | true =>
      cases hdrop : succeeds (.drop .iptables false) with
      | false => simp [setRules, applyRules, runCmd, haccept, hdrop] at h
      | true =>
      refine ⟨by simp [applyRules, haccept, hdrop], ?_⟩
      cases haccept' : succeeds (.accept .iptables true) <;>
        cases hdrop' : succeeds (.drop .iptables true) <;>
        simp only [setRules, applyRules, runCmd, haccept, hdrop, haccept', hdrop',
          List.foldlM_cons, List.foldlM_nil, if_true, Bool.false_eq_true, if_false,
          Option.pure_def, Option.bind_eq_bind, Option.bind_some, Option.some.injEq] at h <;>
        subst h <;> cases v6 <;>
        simp [inputTable, Rule.backend, Rule.v6, Chain.add, frontRules, backRules, added, haccept,
          hdrop, haccept', hdrop']

/-- The setups that limit the echo requests of a family. -/
def Limiting (succeeds : Rule → Bool) (backend : Backend) (v6 : Bool) (policy : Verdict) : Prop :=
  backend = .nftables ∧ v6 = false ∨
    backend = .iptables ∧ v6 = true ∧ succeeds (.accept .iptables true) = true ∧
      succeeds (.drop .iptables true) = false ∧ policy = .drop

/-- An accepting rule in front of what `other` decides. -/
theorem pass_accept
    {other : Option Verdict} {rules : List FilterRule} {p : Packet}
    (hrules : RuleChain.pass FilterRule.consider rules p = (other, rules))
    (hp : echoRequest v6 p = true) (bucket : Option (Bucket Rat)) :
    RuleChain.pass FilterRule.consider (.guard (.accept backend v6) bucket :: rules) p =
      (if (take icmpRate icmpBurst p.time bucket).1 then some .accept else other,
        .guard (.accept backend v6) (some (take icmpRate icmpBurst p.time bucket).2) :: rules) := by
  have haccept := @consider_accept v6 p backend hp bucket
  by_cases hok : (take icmpRate icmpBurst p.time bucket).1 = true
  · rw [if_pos hok] at haccept ⊢
    rw [RuleChain.pass_cons_some (congrArg Prod.fst haccept), haccept]
  · rw [if_neg hok] at haccept ⊢
    rw [RuleChain.pass_cons_none (congrArg Prod.fst haccept), haccept, hrules]

theorem pass_drop
    {p : Packet} (hp : echoRequest v6 p = true) (bucket : Option (Bucket Rat))
    (rules : List FilterRule) :
    RuleChain.pass FilterRule.consider (.guard (.drop backend v6) bucket :: rules) p =
      (some .drop, .guard (.drop backend v6) bucket :: rules) := by
  have hdrop := @consider_drop v6 p backend hp bucket
  rw [RuleChain.pass_cons_some (congrArg Prod.fst hdrop), hdrop]

theorem added_only
    (succeeds : Rule → Bool) (rule : Rule) :
    ∀ r ∈ added succeeds rule,
      RuleChain.Only FilterRule.consider (echoRequest rule.v6) r := by
  unfold added
  split
  · intro r hr
    rw [List.mem_singleton.mp hr]
    exact guard_only rule none
  · intro r hr
    cases hr

theorem added_silent
    {rule : Rule} (hrule : rule.v6 ≠ v6) (succeeds : Rule → Bool) :
    ∀ r ∈ added succeeds rule, RuleChain.Silent FilterRule.consider (echoRequest v6) r := by
  unfold added
  split
  · intro r hr
    rw [List.mem_singleton.mp hr]
    exact guard_silent hrule none
  · intro r hr
    cases hr

/-- The rules in the chain that look at the echo requests of a family. -/
def guardRules (succeeds : Rule → Bool) : Backend → Bool → List FilterRule
  | .nftables, false => backRules succeeds .nftables
  | backend, v6 => frontRules succeeds backend v6

theorem around_guardRules
    {old : List FilterRule}
    (hold : ∀ r ∈ old, RuleChain.Silent FilterRule.consider (echoRequest v6) r) :
    RuleChain.Around FilterRule.consider (echoRequest v6)
      (frontRules succeeds backend v6 ++ (old ++ backRules succeeds backend))
      (guardRules succeeds backend v6) := by
  have hnone : ∀ {Q : FilterRule → Prop}, ∀ r ∈ ([] : List FilterRule), Q r := nofun
  cases backend with
  | none => exact ⟨[], old, hnone, hold, hnone, by simp [frontRules, backRules, guardRules]⟩
  | iptables =>
      refine ⟨[], old, hnone, hold, ?_, by simp [backRules, guardRules]⟩
      exact List.forall_mem_append.mpr ⟨added_only _ (.drop .iptables v6),
        added_only _ (.accept .iptables v6)⟩
  | nftables =>
      cases v6 with
      | false =>
          refine ⟨old, [], hold, hnone, ?_, by simp [frontRules, guardRules]⟩
          exact List.forall_mem_append.mpr ⟨added_only _ (.accept .nftables false),
            added_only _ (.drop .nftables false)⟩
      | true =>
          refine ⟨old ++ backRules succeeds .nftables, [], ?_, hnone, hnone, by
            simp [frontRules, guardRules]⟩
          refine List.forall_mem_append.mpr ⟨hold, List.forall_mem_append.mpr ⟨?_, ?_⟩⟩
          · have haccept : Rule.v6 (.accept .nftables false) ≠ true := Bool.false_ne_true
            exact added_silent haccept succeeds
          · have hdrop : Rule.v6 (.drop .nftables false) ≠ true := Bool.false_ne_true
            exact added_silent hdrop succeeds

/-- Without a rule the policy decides alike on all of them. -/
theorem policy_not_limiting
    (policy : Verdict) :
    ¬ ∀ ps, (∀ p ∈ ps, echoRequest v6 p = true) → outcomes policy [] ps = idealOutcomes ps := by
  have hpolicy : ∀ ps, (∀ p ∈ ps, echoRequest v6 p = true) → ∀ v ∈ outcomes policy [] ps,
      v = policy := by
    intro ps hps v hv
    have hconstant : outcomes policy [] ps = ps.map fun _ => policy :=
      @outcomes_constant v6 policy none ps [] (fun _ _ => rfl) hps
    rw [hconstant] at hv
    obtain ⟨p, -, rfl⟩ := List.mem_map.mp hv
    rfl
  cases policy with
  | accept => exact not_limited_of_accepts hpolicy
  | drop => exact not_limited_of_drops hpolicy

/-- Which rules of `iptables` limit the echo requests. -/
theorem frontRules_limit_iff
    {policy : Verdict} :
    (∀ ps, (∀ p ∈ ps, echoRequest v6 p = true) →
        outcomes policy (frontRules succeeds .iptables v6) ps = idealOutcomes ps) ↔
      succeeds (.accept .iptables v6) = true ∧ succeeds (.drop .iptables v6) = false ∧
        policy = .drop := by
  cases hdrop : succeeds (.drop .iptables v6) with
  | true =>
      -- The dropping rule is the first one.
      refine iff_of_false (not_limited_of_drops fun ps hps v hv => ?_) (by simp)
      have hconstant := @outcomes_constant v6 policy (some .drop) ps
        (.guard (.drop .iptables v6) none :: added succeeds (.accept .iptables v6))
        (fun p hp => pass_drop hp none _) hps
      rw [frontRules, added, if_pos hdrop, List.singleton_append, hconstant] at hv
      obtain ⟨p, -, rfl⟩ := List.mem_map.mp hv
      rfl
  | false =>
  have hfront : frontRules succeeds .iptables v6 = added succeeds (.accept .iptables v6) := by
    have hnone : added succeeds (.drop .iptables v6) = [] := by
      rw [added, hdrop]
      rfl
    rw [frontRules, hnone, List.nil_append]
  rw [hfront]
  cases haccept : succeeds (.accept .iptables v6) with
  | false =>
      rw [added, haccept]
      exact iff_of_false (policy_not_limiting policy) (by simp)
  | true =>
  rw [added, if_pos haccept]
  have hlimited : ∀ ps, (∀ p ∈ ps, echoRequest v6 p = true) →
      outcomes policy [.guard (.accept .iptables v6) none] ps =
        (answers icmpRate icmpBurst none (ps.map Packet.time)).map fun x =>
          if x.2 then .accept else policy := by
    intro ps hps
    exact @outcomes_limited v6 policy none ps
      (fun bucket => [.guard (.accept .iptables v6) bucket])
      (fun bucket p hp => pass_accept rfl hp bucket) hps none
  cases policy with
  | accept =>
      refine iff_of_false (not_limited_of_accepts fun ps hps v hv => ?_) (by simp)
      rw [hlimited ps hps] at hv
      obtain ⟨x, -, rfl⟩ := List.mem_map.mp hv
      split <;> rfl
  | drop => exact iff_of_true hlimited ⟨rfl, rfl, rfl⟩

/-- Which of the rules limit the echo requests. -/
theorem guardRules_limit_iff
    {policy : Verdict}
    (hrequired : ∀ command ∈ applyRules backend, command.required = true →
      succeeds command.rule = true) :
    (∀ ps, (∀ p ∈ ps, echoRequest v6 p = true) →
        outcomes policy (guardRules succeeds backend v6) ps = idealOutcomes ps) ↔
      Limiting succeeds backend v6 policy := by
  cases backend with
  | none => exact iff_of_false (policy_not_limiting policy) (by simp [Limiting])
  | iptables =>
      have hdrop := hrequired ⟨.drop .iptables false, true⟩ (by simp [applyRules]) rfl
      refine frontRules_limit_iff.trans ?_
      cases v6 with
      | false => simp [Limiting, hdrop]
      | true => simp [Limiting]
  | nftables =>
      cases v6 with
      | true => exact iff_of_false (policy_not_limiting policy) (by simp [Limiting])
      | false =>
          have haccept := hrequired ⟨.accept .nftables false, true⟩ (by simp [applyRules]) rfl
          have hdrop := hrequired ⟨.drop .nftables false, true⟩ (by simp [applyRules]) rfl
          have hrules : guardRules succeeds .nftables false =
              [.guard (.accept .nftables false) none, .guard (.drop .nftables false) none] := by
            rw [guardRules, backRules, added, added, if_pos haccept, if_pos hdrop]
            rfl
          refine iff_of_true (fun ps hps => ?_) (.inl ⟨rfl, rfl⟩)
          rw [hrules]
          exact @outcomes_limited false policy (some .drop) ps
            (fun bucket => [.guard (.accept .nftables false) bucket,
              .guard (.drop .nftables false) none])
            (fun bucket p hp => pass_accept (pass_drop hp none []) hp bucket) hps none

/--
On top of a chain that is silent on the echo requests of a family, the setup limits them
exactly if it is one of these.
-/
theorem rateLimits_iff
    (hsilent : ∀ r ∈ (fw (inputTable backend v6)).rules,
      RuleChain.Silent FilterRule.consider (echoRequest v6) r)
    (h : setRules succeeds backend fw = some fw') :
    RateLimits (fw' (inputTable backend v6)) v6 ↔
      Limiting succeeds backend v6 (fw (inputTable backend v6)).policy := by
  obtain ⟨hrequired, hrules, hpolicy⟩ := setRules_some h v6
  have haround := @around_guardRules succeeds backend v6 _ hsilent
  rw [← hrules] at haround
  rw [rateLimits_iff_around haround, hpolicy]
  exact guardRules_limit_iff hrequired

end Setup

section Example

/-- Accept TCP. -/
def acceptTcp : FilterRule :=
  .other (fun _ p => if p.protocol = 6 then some .accept else none) []

/-- A firewall with that rule in each chain, and with this policy. -/
def webFirewall (policy : Verdict) : Firewall :=
  fun _ => ⟨[acceptTcp], policy⟩

/-- The firewall behind the setup with a backend all of whose commands succeed. -/
def setUp (backend : Backend) (policy : Verdict) : Firewall :=
  (setRules (fun _ => true) backend (webFirewall policy)).getD (webFirewall policy)

/-- With `nft` the echo requests of IPv4 are limited. -/
theorem rateLimits_example :
    RateLimits (setUp .nftables .accept (inputTable .nftables false)) false := by
  have hsilent : ∀ r ∈ (webFirewall .accept (inputTable .nftables false)).rules,
      RuleChain.Silent FilterRule.consider (echoRequest false) r := by
    intro r hr
    rw [List.mem_singleton.mp hr]
    refine other_silent (fun seen p hp => ?_) []
    rw [echoRequest, Bool.and_eq_true, if_neg Bool.false_ne_true, Bool.and_eq_true,
      beq_iff_eq, beq_iff_eq, beq_iff_eq] at hp
    rw [hp.2.1]
    rfl
  have hset : setRules (fun _ => true) .nftables (webFirewall .accept) =
      some (setUp .nftables .accept) := rfl
  exact (rateLimits_iff hsilent hset).mpr (.inl ⟨rfl, rfl⟩)

/-- With `iptables` not even the first one is accepted. -/
theorem iptables_drops :
    setRules (fun _ => true) .iptables (webFirewall .accept) = some (setUp .iptables .accept) ∧
      ((setUp .iptables .accept .ipv4).verdicts [ping false]).map Prod.snd = [.drop] ∧
      ¬ RateLimits (setUp .iptables .accept .ipv4) false := by
  refine ⟨rfl, by decide, fun hlimits => ?_⟩
  have hdropped : (((setUp .iptables .accept .ipv4).verdicts [ping false]).filter
      fun x => echoRequest false x.1).map Prod.snd = [.drop] := by decide
  have hping : ([ping false].filter (echoRequest false)).map Packet.time = [0] := by decide
  have hlimited := hlimits [ping false]
  rw [hdropped, hping] at hlimited
  have hmem : Verdict.drop ∈ (answers icmpRate icmpBurst none [(0 : Rat)]).map rateVerdict := by
    rw [← hlimited]
    exact List.mem_cons_self
  obtain ⟨x, hx, hdrop⟩ := List.mem_map.mp hmem
  rw [rateVerdict, first_granted x hx] at hdrop
  cases hdrop

end Example

end IcmpGuard
end RunNginx
