import RunNginx.Lib.Decimal
import RunNginx.Lib.Run
import RunNginx.Lib.Utf8

/-!
# Protection against ICMP floods

Processes on one host set up firewall rules and are to leave that to one of them.  A
process reads the lock file, looks for a firewall, runs the commands that add the rules
and then writes the lock file; the steps of the processes interleave freely.

`run_exclusive`: in a run in which the setups of two processes do not overlap, no required
command fails behind the first one, and the lock file is written, at most one process is
the owner, and the firewall holds each of its rules once.
-/

namespace RunNginx
namespace IcmpGuard

open ByteString

inductive Backend
  | iptables
  | nftables
  | none
deriving DecidableEq, Repr

/-- A firewall rule of the guard. -/
inductive Rule
  | accept (backend : Backend) (v6 : Bool)
  | drop (backend : Backend) (v6 : Bool)
deriving DecidableEq, Repr

/-- A command that adds a rule; without a required one the setup fails. -/
structure Command where
  rule : Rule
  required : Bool
deriving DecidableEq, Repr

/-- The commands that add the rules. -/
def applyRules : Backend → List Command
  | .iptables =>
      [⟨.accept .iptables false, true⟩, ⟨.drop .iptables false, true⟩,
        ⟨.accept .iptables true, false⟩, ⟨.drop .iptables true, false⟩]
  | .nftables => [⟨.accept .nftables false, true⟩, ⟨.drop .nftables false, true⟩]
  | .none => []

/-- The outcome of a setup. -/
structure Guard where
  isOwner : Bool
  backend : Backend
  enabled : Bool
deriving DecidableEq, Repr

/-- How far a process is. -/
inductive Phase
  | absent
  | started
  /-- It has found the lock free. -/
  | detecting
  /-- It has run the first commands. -/
  | applying (backend : Backend) (done : Nat)
  /-- It has added the rules. -/
  | locking (backend : Backend)
  /-- It has emptied the lock file. -/
  | writing (backend : Backend)
  | ended (guard : Guard)
deriving DecidableEq, Repr

/-- The lock file, the rules of the guard in the firewall, and the processes by their id. -/
structure Host where
  lockFile : Option Bytes
  rules : List Rule
  phase : UInt32 → Phase

/-- A step of the process with this id. -/
inductive Event
  | start (pid : UInt32) (enabled : Bool)
  /-- The lock file is read; `others` are the processes beside those that set up the guard. -/
  | readLock (pid : UInt32) (others : UInt32 → Bool)
  | detectBackend (pid : UInt32) (backend : Backend)
  | runCmd (pid : UInt32) (succeeds : Bool)
  | openLock (pid : UInt32) (succeeds : Bool)
  /-- The lock file is written, up to this many bytes. -/
  | writeLock (pid : UInt32) (written : Nat)

/-- The process id that a lock file names. -/
def lockPid (content : Bytes) : Option Nat :=
  if Utf8.isUtf8 content then
    Decimal.parseUnsigned Decimal.u32Bound (Utf8.trim ((splitByte 58 content)[1]?.getD []))
  else none

/-- The lock is held if its file names a process that runs. -/
def lockIsHeld (runs : UInt32 → Bool) (lockFile : Option Bytes) : Bool :=
  ((lockFile.bind lockPid).map fun pid => runs (UInt32.ofNat pid)).getD false

/-- What a process writes to the lock file. -/
def lockContent (pid : UInt32) : Bytes :=
  ascii "runnginx:" ++ Decimal.render pid.toNat ++ [10]

/-- The firewall with one more rule: `iptables` inserts it in front. -/
def addRule (rule : Rule) (backend : Backend) (rules : List Rule) : List Rule :=
  if backend = .iptables then rule :: rules else rules ++ [rule]

namespace Host

/-- The process goes on to a phase. -/
def enter (h : Host) (pid : UInt32) (phase : Phase) : Host :=
  { h with phase := fun q => if q = pid then phase else h.phase q }

@[simp] theorem enter_self
    (h : Host) (pid : UInt32) (phase : Phase) :
    (h.enter pid phase).phase pid = phase :=
  if_pos rfl

theorem enter_of_ne
    {p pid : UInt32} (h : Host) (phase : Phase) (hp : p ≠ pid) :
    (h.enter pid phase).phase p = h.phase p :=
  if_neg hp

/-- The setup of a process has ended. -/
def finish (h : Host) (pid : UInt32) (isOwner : Bool) (backend : Backend) (enabled : Bool) :
    Host :=
  h.enter pid (.ended ⟨isOwner, backend, enabled⟩)

/-- A process that has run its first commands. -/
def applied (backend : Backend) (done : Nat) : Phase :=
  if (applyRules backend).length ≤ done then .locking backend else .applying backend done

/-- The next command of a process is run. -/
def runCommand (h : Host) (pid : UInt32) (backend : Backend) (done : Nat) (succeeds : Bool) :
    Host :=
  match (applyRules backend)[done]? with
  | none => h
  | some command =>
      if succeeds then
        { h with rules := addRule command.rule backend h.rules }.enter pid
          (applied backend (done + 1))
      else if command.required then h.finish pid false .none true
      else h.enter pid (applied backend (done + 1))

/-- The steps of `setup`; a step that is not the next one of its process does nothing. -/
def step (h : Host) : Event → Host
  | .start pid enabled =>
      if h.phase pid = .absent then
        if enabled then h.enter pid .started else h.finish pid false .none false
      else h
  | .readLock pid others =>
      if h.phase pid = .started then
        if lockIsHeld (fun q => h.phase q ≠ .absent || others q) h.lockFile then
          h.finish pid false .none true
        else h.enter pid .detecting
      else h
  | .detectBackend pid backend =>
      if h.phase pid = .detecting then
        if backend = .none then h.finish pid false .none true
        else h.enter pid (applied backend 0)
      else h
  | .runCmd pid succeeds =>
      match h.phase pid with
      | .applying backend done => h.runCommand pid backend done succeeds
      | _ => h
  | .openLock pid succeeds =>
      match h.phase pid with
      | .locking backend =>
          if succeeds then { h with lockFile := some [] }.enter pid (.writing backend)
          else h.finish pid true backend true
      | _ => h
  | .writeLock pid written =>
      match h.phase pid with
      | .writing backend =>
          let bytes := (lockContent pid).take written
          { h with lockFile := some (bytes ++ (h.lockFile.getD []).drop bytes.length) }.finish
            pid true backend true
      | _ => h

end Host

section Exclusion

variable {h : Host} {e : Event} {pid : UInt32}

/-- The phases from the reading of the lock file to the end of the setup. -/
def Phase.isBusy : Phase → Bool
  | .detecting | .applying _ _ | .locking _ | .writing _ => true
  | _ => false

def Phase.isOwner : Phase → Bool
  | .ended guard => guard.isOwner
  | _ => false

/-- The process is setting up the guard, or owns it. -/
def Phase.isActive (phase : Phase) : Bool :=
  phase.isBusy || phase.isOwner

/-- The commands that a process has run. -/
def Phase.ran : Phase → List Command
  | .applying backend done => (applyRules backend).take done
  | .locking backend => applyRules backend
  | .writing backend => applyRules backend
  | .ended guard => applyRules guard.backend
  | _ => []

/-- The rules are those of these commands, each once; only optional ones may be missing. -/
structure Added (commands : List Command) (rules : List Rule) : Prop where
  once : rules.Nodup
  only : ∀ r ∈ rules, ∃ c ∈ commands, c.rule = r
  all : ∀ c ∈ commands, c.required = true → c.rule ∈ rules

/-- There is at most one owner, and the firewall holds one copy of its rules. -/
structure Exclusive (h : Host) : Prop where
  owner : ∀ p q, (h.phase p).isOwner = true → (h.phase q).isOwner = true → p = q
  once : h.rules.Nodup
  rules : ∀ p guard, h.phase p = .ended guard → guard.isOwner = true →
    Added (applyRules guard.backend) h.rules

/--
The condition on a step: no process finds the lock free while another one is at its setup,
a required command fails only if it is the first one, and the lock file is written to the
end.
-/
def Sound (h : Host) : Event → Prop
  | .readLock _ others =>
      lockIsHeld (fun q => h.phase q ≠ .absent || others q) h.lockFile = false →
        ∀ q, (h.phase q).isBusy = false
  | .runCmd pid succeeds =>
      ∀ backend done command, h.phase pid = .applying backend done →
        (applyRules backend)[done]? = some command → command.required = true →
          succeeds = true ∨ done = 0
  | .openLock _ succeeds => succeeds = true
  | .writeLock pid written => (lockContent pid).length ≤ written
  | _ => True

/-- What the lock file and the firewall hold between two steps. -/
structure Inv (h : Host) : Prop where
  unique : ∀ p q, (h.phase p).isActive = true → (h.phase q).isActive = true → p = q
  rules : ∀ p, (h.phase p).isActive = true → Added (h.phase p).ran h.rules
  idle : (∀ p, (h.phase p).isActive = false) → h.rules = []
  lock : ∀ p, (h.phase p).isOwner = true →
    ∃ q, h.lockFile.bind lockPid = some q.toNat ∧ h.phase q ≠ .absent
  emptied : ∀ p backend, h.phase p = .writing backend → h.lockFile = some []

theorem lockPid_lockContent
    (pid : UInt32) :
    lockPid (lockContent pid) = some pid.toNat := by
  have hdigit : ∀ b ∈ Decimal.render pid.toNat, Utf8.isVisible b = true ∧ b ≠ 58 := by
    have hall : ∀ b : UInt8, Decimal.isDigit b = true → Utf8.isVisible b = true ∧ b ≠ 58 :=
      forall_byte (P := fun b => Decimal.isDigit b = true → Utf8.isVisible b = true ∧ b ≠ 58)
        (by decide +kernel)
    exact fun b hb => hall b (Decimal.isDigit_of_mem_render hb)
  have hname : (58 : UInt8) ∉ ascii "runnginx" := by decide
  have hrest : (58 : UInt8) ∉ Decimal.render pid.toNat ++ [10] := by
    intro h
    rcases List.mem_append.mp h with h | h
    · exact (hdigit 58 h).2 rfl
    · exact absurd (List.mem_singleton.mp h) (by decide)
  have hcontent : lockContent pid =
      ascii "runnginx" ++ 58 :: (Decimal.render pid.toNat ++ [10]) := by
    simp [lockContent, ascii]
  have htext : Utf8.isUtf8 (lockContent pid) = true := by
    refine Utf8.isUtf8_ascii fun b hb => ?_
    rw [lockContent] at hb
    rcases List.mem_append.mp hb with hb | hb
    · rcases List.mem_append.mp hb with hb | hb
      · exact of_decide_eq_true (List.all_eq_true.mp (show (ascii "runnginx:").all
          (fun b => b < 0x80) = true from rfl) b hb)
      · have := (hdigit b hb).1
        simp only [Utf8.isVisible, Bool.and_eq_true, decide_eq_true_eq] at this
        exact this.2
    · rw [List.mem_singleton.mp hb]
      decide
  unfold lockPid
  rw [if_pos htext, hcontent, splitByte_append hname, splitByte_of_not_mem hrest,
    List.getElem?_cons_succ, List.getElem?_cons_zero, Option.getD_some,
    Utf8.trim_line fun b hb => (hdigit b hb).1]
  exact Decimal.parseUnsigned_render pid.toNat_lt

/-- A lock file that names a process of the host is held. -/
theorem lockIsHeld_of_named
    {q : UInt32} {runs : UInt32 → Bool}
    (hname : h.lockFile.bind lockPid = some q.toNat) (hruns : runs q = true) :
    lockIsHeld runs h.lockFile = true := by
  unfold lockIsHeld
  rw [hname, Option.map_some, Option.getD_some, UInt32.ofNat_toNat]
  exact hruns

theorem Inv.exclusive
    (hinv : Inv h) :
    Exclusive h := by
  have hactive : ∀ p, (h.phase p).isOwner = true → (h.phase p).isActive = true := by
    intro p hp
    rw [Phase.isActive, hp, Bool.or_true]
  refine ⟨fun p q hp hq => hinv.unique p q (hactive p hp) (hactive q hq), ?_, ?_⟩
  · by_cases hidle : ∀ p, (h.phase p).isActive = false
    · rw [hinv.idle hidle]
      exact List.nodup_nil
    · obtain ⟨p, hp⟩ := not_forall.mp hidle
      exact (hinv.rules p (Bool.not_eq_false _ |>.mp hp)).once
  · intro p guard hphase howner
    have hp : (h.phase p).isActive = true := by
      refine hactive p ?_
      rw [hphase]
      exact howner
    have := hinv.rules p hp
    rwa [hphase] at this

/-- A process that is neither setting up the guard nor owns it goes on to such a phase. -/
theorem Inv.enter_inactive
    {phase : Phase}
    (hinv : Inv h) (hbefore : (h.phase pid).isActive = false) (hafter : phase.isActive = false)
    (hpresent : phase ≠ .absent) :
    Inv (h.enter pid phase) := by
  have hphase : ∀ p, ((h.enter pid phase).phase p).isActive = true →
      p ≠ pid ∧ (h.enter pid phase).phase p = h.phase p := by
    intro p hp
    by_cases heq : p = pid
    · rw [heq, Host.enter_self, hafter] at hp
      cases hp
    · exact ⟨heq, Host.enter_of_ne h phase heq⟩
  refine ⟨?_, ?_, ?_, ?_, ?_⟩
  · intro p q hp hq
    rw [(hphase p hp).2] at hp
    rw [(hphase q hq).2] at hq
    exact hinv.unique p q hp hq
  · intro p hp
    have heq := (hphase p hp).2
    rw [heq] at hp ⊢
    exact hinv.rules p hp
  · intro hidle
    refine hinv.idle fun p => ?_
    by_cases heq : p = pid
    · rw [heq]
      exact hbefore
    · have := hidle p
      rwa [Host.enter_of_ne h phase heq] at this
  · intro p hp
    have hactive : ((h.enter pid phase).phase p).isActive = true := by
      rw [Phase.isActive, hp, Bool.or_true]
    rw [(hphase p hactive).2] at hp
    obtain ⟨q, hname, hq⟩ := hinv.lock p hp
    refine ⟨q, hname, ?_⟩
    by_cases heq : q = pid
    · rw [heq, Host.enter_self]
      exact hpresent
    · rw [Host.enter_of_ne h phase heq]
      exact hq
  · intro p backend hp
    have hactive : ((h.enter pid phase).phase p).isActive = true := by
      rw [hp]
      rfl
    exact hinv.emptied p backend ((hphase p hactive).2 ▸ hp)

/-- The one process that is at its setup goes on, with these rules and this lock file. -/
theorem enter_active
    {phase : Phase} {lockFile : Option Bytes} {rules : List Rule}
    (hothers : ∀ p, p ≠ pid → (h.phase p).isActive = false)
    (hrules : phase.isActive = true → Added phase.ran rules)
    (hidle : phase.isActive = false → rules = [])
    (hlock : phase.isOwner = true → lockFile.bind lockPid = some pid.toNat)
    (hemptied : ∀ backend, phase = .writing backend → lockFile = some [])
    (hpresent : phase ≠ .absent) :
    Inv ({ h with lockFile := lockFile, rules := rules }.enter pid phase) := by
  have hphase : ∀ p, (({ h with lockFile := lockFile, rules := rules }.enter pid phase).phase
      p).isActive = true → p = pid := by
    intro p hp
    by_contra heq
    rw [Host.enter_of_ne _ phase heq] at hp
    exact absurd hp (Bool.eq_false_iff.mp (hothers p heq))
  have hself : ({ h with lockFile := lockFile, rules := rules }.enter pid phase).phase pid =
      phase := Host.enter_self _ _ _
  refine ⟨?_, ?_, ?_, ?_, ?_⟩
  · intro p q hp hq
    rw [hphase p hp, hphase q hq]
  · intro p hp
    obtain rfl := hphase p hp
    rw [hself] at hp ⊢
    exact hrules hp
  · intro hall
    exact hidle (hself ▸ hall pid)
  · intro p hp
    have hactive : (({ h with lockFile := lockFile, rules := rules }.enter pid phase).phase
        p).isActive = true := by
      rw [Phase.isActive, hp, Bool.or_true]
    obtain rfl := hphase p hactive
    rw [hself] at hp
    refine ⟨p, hlock hp, ?_⟩
    rw [hself]
    exact hpresent
  · intro p backend hp
    have hactive : (({ h with lockFile := lockFile, rules := rules }.enter pid phase).phase
        p).isActive = true := by
      rw [hp]
      rfl
    obtain rfl := hphase p hactive
    exact hemptied backend (hself.symm.trans hp)

/-- What the process that is at its setup has to itself. -/
theorem Inv.others
    (hinv : Inv h) (hactive : (h.phase pid).isActive = true) :
    ∀ p, p ≠ pid → (h.phase p).isActive = false :=
  fun p hp => Bool.eq_false_iff.mpr fun h => hp (hinv.unique p pid h hactive)

theorem Added.of_nil
    {rules : List Rule} (h : Added [] rules) :
    rules = [] := by
  refine List.eq_nil_iff_forall_not_mem.mpr fun r hr => ?_
  obtain ⟨c, hc, _⟩ := h.only r hr
  cases hc

theorem mem_addRule
    {rule r : Rule} {backend : Backend} {rules : List Rule} :
    r ∈ addRule rule backend rules ↔ r = rule ∨ r ∈ rules := by
  unfold addRule
  split
  · exact List.mem_cons
  · rw [List.mem_append, List.mem_singleton]
    exact or_comm

/-- A command that succeeds adds its rule, which no command before has added. -/
theorem Added.succ
    {backend : Backend} {done : Nat} {command : Command} {rules : List Rule}
    (h : Added ((applyRules backend).take done) rules)
    (hcommand : (applyRules backend)[done]? = some command) :
    Added ((applyRules backend).take (done + 1)) (addRule command.rule backend rules) := by
  have htake : (applyRules backend).take (done + 1) =
      (applyRules backend).take done ++ [command] := by
    rw [List.take_add_one, hcommand]
    rfl
  have hnodup : ((applyRules backend).map Command.rule).Nodup := by
    cases backend with
    | iptables => decide
    | nftables => decide
    | none => decide
  have hnew : command.rule ∉ rules := by
    intro hmem
    obtain ⟨c, hc, hrule⟩ := h.only _ hmem
    have hsub : List.Sublist (((applyRules backend).take (done + 1)).map Command.rule)
        ((applyRules backend).map Command.rule) :=
      (List.take_sublist _ _).map _
    have := hsub.nodup hnodup
    rw [htake, List.map_append, List.nodup_append] at this
    exact this.2.2 c.rule (List.mem_map_of_mem hc) command.rule (by simp) hrule
  refine ⟨?_, ?_, ?_⟩
  · unfold addRule
    split
    · exact List.nodup_cons.mpr ⟨hnew, h.once⟩
    · refine List.nodup_append.mpr ⟨h.once, by simp, ?_⟩
      intro r hr r' hr' heq
      rw [heq, List.mem_singleton.mp hr'] at hr
      exact hnew hr
  · intro r hr
    rw [htake]
    rcases mem_addRule.mp hr with rfl | hr
    · exact ⟨command, by simp, rfl⟩
    · obtain ⟨c, hc, hrule⟩ := h.only r hr
      exact ⟨c, List.mem_append_left _ hc, hrule⟩
  · intro c hc hrequired
    rw [htake] at hc
    rw [mem_addRule]
    rcases List.mem_append.mp hc with hc | hc
    · exact Or.inr (h.all c hc hrequired)
    · rw [List.mem_singleton.mp hc]
      exact Or.inl rfl

/-- An optional command that fails leaves the rules as they are. -/
theorem Added.skip
    {backend : Backend} {done : Nat} {command : Command} {rules : List Rule}
    (h : Added ((applyRules backend).take done) rules)
    (hcommand : (applyRules backend)[done]? = some command)
    (hoptional : command.required = false) :
    Added ((applyRules backend).take (done + 1)) rules := by
  have htake : (applyRules backend).take (done + 1) =
      (applyRules backend).take done ++ [command] := by
    rw [List.take_add_one, hcommand]
    rfl
  rw [htake]
  refine ⟨h.once, ?_, ?_⟩
  · intro r hr
    obtain ⟨c, hc, hrule⟩ := h.only r hr
    exact ⟨c, List.mem_append_left _ hc, hrule⟩
  · intro c hc hrequired
    rcases List.mem_append.mp hc with hc | hc
    · exact h.all c hc hrequired
    · rw [List.mem_singleton.mp hc, hoptional] at hrequired
      cases hrequired

/-- The one process that is at its setup has run its first commands. -/
theorem enter_applied
    {backend : Backend} {done : Nat} {rules : List Rule}
    (hothers : ∀ p, p ≠ pid → (h.phase p).isActive = false)
    (hran : Added ((applyRules backend).take done) rules) :
    Inv ({ h with rules := rules }.enter pid (Host.applied backend done)) := by
  unfold Host.applied
  split
  · rename_i hle
    rw [List.take_of_length_le hle] at hran
    refine enter_active hothers (fun _ => hran) ?_ ?_ (fun _ h => nomatch h) Phase.noConfusion
    · intro h
      cases h
    · intro h
      cases h
  · refine enter_active hothers (fun _ => hran) ?_ ?_ (fun _ h => nomatch h) Phase.noConfusion
    · intro h
      cases h
    · intro h
      cases h

/-- A process that is at its setup ends it without becoming the owner. -/
theorem Inv.gives_up
    {enabled : Bool}
    (hinv : Inv h) (hactive : (h.phase pid).isActive = true) (hran : (h.phase pid).ran = []) :
    Inv (h.finish pid false .none enabled) := by
  have hrules : h.rules = [] := Added.of_nil (hran ▸ hinv.rules pid hactive)
  refine enter_active (hinv.others hactive) ?_ (fun _ => hrules) ?_ (fun _ h => nomatch h)
    Phase.noConfusion
  · intro h
    cases h
  · intro h
    cases h

/-- A process that finds the lock free is the only one. -/
theorem Inv.takes_lock
    {others : UInt32 → Bool}
    (hinv : Inv h)
    (hfree : lockIsHeld (fun q => h.phase q ≠ .absent || others q) h.lockFile = false)
    (hbusy : ∀ q, (h.phase q).isBusy = false) :
    Inv (h.enter pid .detecting) := by
  have hinactive : ∀ p, (h.phase p).isActive = false := by
    intro p
    rw [Phase.isActive, hbusy p, Bool.false_or, Bool.eq_false_iff]
    -- The lock file of an owner names a process of the host.
    intro howner
    obtain ⟨q, hname, hq⟩ := hinv.lock p howner
    rw [lockIsHeld_of_named hname (by simp [hq])] at hfree
    cases hfree
  have hrules : h.rules = [] := hinv.idle hinactive
  refine enter_active (fun p _ => hinactive p) (fun _ => ?_) (fun h => nomatch h) ?_
    (fun _ h => nomatch h) Phase.noConfusion
  · rw [hrules]
    exact ⟨List.nodup_nil, fun r hr => absurd hr List.not_mem_nil,
      fun c hc => absurd hc List.not_mem_nil⟩
  · intro h
    cases h

/-- A sound command keeps the invariant. -/
theorem inv_runCommand
    {backend : Backend} {done : Nat} {succeeds : Bool}
    (hinv : Inv h) (hphase : h.phase pid = .applying backend done)
    (he : ∀ command, (applyRules backend)[done]? = some command → command.required = true →
      succeeds = true ∨ done = 0) :
    Inv (h.runCommand pid backend done succeeds) := by
  have hactive : (h.phase pid).isActive = true := by
    rw [hphase]
    rfl
  have hran : Added ((applyRules backend).take done) h.rules := by
    have := hinv.rules pid hactive
    rwa [hphase] at this
  unfold Host.runCommand
  split
  · exact hinv
  rename_i command hcommand
  split
  · exact enter_applied (hinv.others hactive) (hran.succ hcommand)
  rename_i hfails
  split
  · rename_i hrequired
    refine hinv.gives_up hactive ?_
    rw [hphase]
    rcases he command hcommand hrequired with h | rfl
    · exact absurd h hfails
    · rfl
  · rename_i hoptional
    exact enter_applied (hinv.others hactive) (hran.skip hcommand (Bool.eq_false_iff.mpr hoptional))

/-- A sound step keeps the invariant. -/
theorem inv_step
    (hinv : Inv h) (he : Sound h e) :
    Inv (h.step e) := by
  cases e with
  | start pid enabled =>
      unfold Host.step
      dsimp only
      split
      · rename_i hphase
        have hbefore : (h.phase pid).isActive = false := by
          rw [hphase]
          rfl
        split
        · exact hinv.enter_inactive hbefore rfl Phase.noConfusion
        · exact hinv.enter_inactive hbefore rfl Phase.noConfusion
      · exact hinv
  | readLock pid others =>
      unfold Host.step
      dsimp only
      split
      · rename_i hphase
        split
        · refine hinv.enter_inactive ?_ rfl Phase.noConfusion
          rw [hphase]
          rfl
        · rename_i hfree
          have hfree := Bool.eq_false_iff.mpr hfree
          exact hinv.takes_lock hfree (he hfree)
      · exact hinv
  | detectBackend pid backend =>
      unfold Host.step
      dsimp only
      split
      · rename_i hphase
        have hactive : (h.phase pid).isActive = true := by
          rw [hphase]
          rfl
        have hran : (h.phase pid).ran = [] := by
          rw [hphase]
          rfl
        split
        · exact hinv.gives_up hactive hran
        · refine enter_applied (hinv.others hactive) ?_
          rw [List.take_zero, ← hran]
          exact hinv.rules pid hactive
      · exact hinv
  | runCmd pid succeeds =>
      unfold Host.step
      dsimp only
      split
      · rename_i backend done hphase
        exact inv_runCommand hinv hphase fun command => he backend done command hphase
      · exact hinv
  | openLock pid succeeds =>
      unfold Host.step
      dsimp only
      split
      · rename_i backend hphase
        have hactive : (h.phase pid).isActive = true := by
          rw [hphase]
          rfl
        have hran := hinv.rules pid hactive
        rw [hphase] at hran
        rw [Sound] at he
        rw [if_pos he]
        refine enter_active (hinv.others hactive) (fun _ => hran) ?_ ?_ (fun _ _ => rfl)
          Phase.noConfusion
        · intro h
          cases h
        · intro h
          cases h
      · exact hinv
  | writeLock pid written =>
      unfold Host.step
      dsimp only
      split
      · rename_i backend hphase
        have hactive : (h.phase pid).isActive = true := by
          rw [hphase]
          rfl
        have hran := hinv.rules pid hactive
        rw [hphase] at hran
        refine enter_active (hinv.others hactive) (fun _ => hran) ?_ ?_ (fun _ h => nomatch h)
          Phase.noConfusion
        · intro h
          cases h
        · intro _
          rw [hinv.emptied pid backend hphase, Option.getD_some, List.drop_nil, List.append_nil,
            List.take_of_length_le he]
          exact lockPid_lockContent pid
      · exact hinv

theorem inv_start
    (lockFile : Option Bytes) :
    Inv ⟨lockFile, [], fun _ => .absent⟩ := by
  refine ⟨?_, ?_, fun _ => rfl, ?_, ?_⟩
  · intro p q hp
    cases hp
  · intro p hp
    cases hp
  · intro p hp
    cases hp
  · intro p backend hp
    cases hp

/--
In a run of sound steps on a host without rules of the guard, whatever its lock file holds,
at most one process is the owner in every state, and the firewall holds its rules once.
-/
theorem run_exclusive
    (lockFile : Option Bytes) (es : List Event)
    (hes : Run.Steps Host.step Sound ⟨lockFile, [], fun _ => .absent⟩ es) :
    ∀ h ∈ Run.states Host.step ⟨lockFile, [], fun _ => .absent⟩ es, Exclusive h := by
  intro h hmem
  exact (Run.invariant (fun _ _ => inv_step) (inv_start lockFile) hes h hmem).exclusive

end Exclusion

section Example

/-- A host on which no process sets up the guard, and whose lock file holds this. -/
def idleHost (lockFile : Option Bytes) : Host :=
  ⟨lockFile, [], fun _ => .absent⟩

/-- The setup of a process up to the point where it has found the lock free. -/
def readFree (pid : UInt32) : List Event :=
  [.start pid true, .readLock pid fun _ => false]

/-- The rest of its setup, with the rules of `nftables`. -/
def setUpRules (pid : UInt32) : List Event :=
  [.detectBackend pid .nftables, .runCmd pid true, .runCmd pid true, .openLock pid true,
    .writeLock pid 64]

/-- A second process that starts after the first one's setup leaves the guard to it. -/
theorem run_exclusive_example :
    Run.Steps Host.step Sound (idleHost (some (ascii "runbound:7")))
        (readFree 41 ++ setUpRules 41 ++ readFree 42) ∧
      ∀ h ∈ Run.states Host.step (idleHost (some (ascii "runbound:7")))
        (readFree 41 ++ setUpRules 41 ++ readFree 42), Exclusive h := by
  have hsound : Run.Steps Host.step Sound (idleHost (some (ascii "runbound:7")))
      (readFree 41 ++ setUpRules 41 ++ readFree 42) := by
    refine ⟨trivial, ?_, trivial, ?_, ?_, rfl, ?_, trivial, ?_, trivial⟩
    · intro _ q
      by_cases hq : q = 41
      · rw [hq]
        rfl
      · exact congrArg Phase.isBusy (Host.enter_of_ne _ .started hq)
    · exact fun _ _ _ _ _ _ => Or.inl rfl
    · exact fun _ _ _ _ _ _ => Or.inl rfl
    · change (lockContent 41).length ≤ 64
      decide
    · intro hfree
      exact absurd hfree (by decide)
  exact ⟨hsound, run_exclusive (some (ascii "runbound:7")) _ hsound⟩

/-- Two processes that both find the lock free both become owners, and add the rules twice. -/
theorem overlapping_setups :
    let h := (readFree 41 ++ readFree 42 ++ setUpRules 41 ++ setUpRules 42).foldl Host.step
      (idleHost none)
    (h.phase 41).isOwner = true ∧ (h.phase 42).isOwner = true ∧
      h.rules.count (.accept .nftables false) = 2 ∧ ¬ Exclusive h := by
  refine ⟨by decide, by decide, by decide, ?_⟩
  intro h
  exact absurd (h.owner 41 42 (by decide) (by decide)) (by decide)

end Example

end IcmpGuard
end RunNginx
