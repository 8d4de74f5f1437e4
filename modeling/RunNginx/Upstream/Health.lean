import RunNginx.Upstream

/-!
# When a peer is marked down

Connects and active probes count what fails at a peer and mark the peer down when enough
has failed.  The count and the mark are two values that each request and the health loop
read and write on their own, so that a step here is one access to one of them.

`run_justified`: in a run in which a probe succeeds only at a peer that is down or has no
failure counted, and in which no failure is counted while a probe brings the peer back,
every mark goes back to as many failures in a row as the group asks for; and a probe that
succeeds at a peer that is down clears its mark.
-/

namespace RunNginx
namespace Upstream
namespace Health

open Upstream.System

/-- What came of a connect or a probe, with the time it had read. -/
inductive Outcome
  | success
  | failure (nowSecs : Nat)
deriving DecidableEq, Repr

/-- Failures in a row at the latest end of a history. -/
def streak : List Outcome → Nat
  | .failure _ :: history => streak history + 1
  | _ => 0

/-- A group, the accesses to its peers that are still to come, and what came of the others. -/
structure State where
  group : UpstreamGroup
  /-- In seconds since the epoch. -/
  clock : Nat
  /-- Connects on their way, by their peer and the time they have read. -/
  connects : List (Nat × Nat)
  /-- Probes on their way. -/
  probes : List (Nat × Nat)
  /-- Failures that have been counted and are to mark their peer down. -/
  marks : List (Nat × Nat)
  /-- Probes that succeeded at a peer that is down and are to clear its mark. -/
  recoveries : List Nat
  /-- Probes that have cleared the mark and are to clear the count. -/
  resets : List Nat
  /-- The latest outcome comes first. -/
  history : Nat → List Outcome

/-- One access to a peer, or time that passes. -/
inductive Event
  | tick (secs : Nat)
  | connect (clientIp : Option IpAddr) (view : View)
  | connected (i nowSecs : Nat)
  /-- The connection is there, but its options cannot be set. -/
  | optionRefused (i nowSecs : Nat)
  | connectFailed (i nowSecs : Nat)
  | mark (i nowSecs : Nat)
  /-- The health loop gets to a peer; it has read the time before its round. -/
  | probe (i nowSecs : Nat)
  | probed (i nowSecs : Nat) (ok : Bool)
  | clearMark (i : Nat)
  | clearFails (i : Nat)

def failsOf (g : UpstreamGroup) (i : Nat) : Nat :=
  (g.peers[i]?.map PeerState.fails).getD 0

def downUntilOf (g : UpstreamGroup) (i : Nat) : Nat :=
  (g.peers[i]?.map PeerState.downUntil).getD 0

namespace State

def start (cfg : UpstreamGroupConfig) (clock : Nat) : State :=
  ⟨.new cfg, clock, [], [], [], [], [], fun _ => []⟩

def record (i : Nat) (outcome : Outcome) (s : State) : State :=
  { s with history := Function.update s.history i (outcome :: s.history i) }

/-- The first half of `mark_fail`: count a failure, and see whether the peer is to be marked. -/
def countFail (i nowSecs : Nat) (s : State) : State :=
  let counted := s.record i (.failure nowSecs)
  { counted with
    group := s.group.modifyPeer i fun p => { p with fails := p.fails + 1 }
    marks :=
      if s.group.maxFails ≤ failsOf s.group i + 1 ∧ 0 < s.group.failTimeoutSecs then
        (i, nowSecs) :: s.marks
      else s.marks }

def step (s : State) : Event → State
  | .tick secs => { s with clock := s.clock + secs }
  | .connect clientIp view =>
      match s.group.pick s.clock clientIp view with
      | some (i, group) => { s with group := group, connects := (i, s.clock) :: s.connects }
      | none => s
  | .connected i nowSecs =>
      if (i, nowSecs) ∈ s.connects then
        let done := s.record i .success
        { done with
          group := s.group.modifyPeer i fun p => { p with fails := 0 }
          connects := s.connects.erase (i, nowSecs) }
      else s
  | .optionRefused i nowSecs => { s with connects := s.connects.erase (i, nowSecs) }
  | .connectFailed i nowSecs =>
      if (i, nowSecs) ∈ s.connects then
        { s.countFail i nowSecs with connects := s.connects.erase (i, nowSecs) }
      else s
  | .mark i nowSecs =>
      if (i, nowSecs) ∈ s.marks then
        { s with
          group := s.group.modifyPeer i fun p =>
            { p with downUntil := nowSecs + s.group.failTimeoutSecs }
          marks := s.marks.erase (i, nowSecs) }
      else s
  | .probe i nowSecs =>
      if i < s.group.peers.length ∧ nowSecs ≤ s.clock then
        { s with probes := (i, nowSecs) :: s.probes }
      else s
  | .probed i nowSecs ok =>
      if (i, nowSecs) ∈ s.probes then
        let rest := { s with probes := s.probes.erase (i, nowSecs) }
        if ok then
          if nowSecs < downUntilOf s.group i then { rest with recoveries := i :: s.recoveries }
          else rest.record i .success
        else rest.countFail i nowSecs
      else s
  | .clearMark i =>
      if i ∈ s.recoveries then
        let cleared := s.record i .success
        { cleared with
          group := s.group.modifyPeer i fun p => { p with downUntil := 0 }
          recoveries := s.recoveries.erase i
          resets := i :: s.resets }
      else s
  | .clearFails i =>
      if i ∈ s.resets then
        { s with
          group := s.group.modifyPeer i fun p => { p with fails := 0 }
          resets := s.resets.erase i }
      else s

/-- The peer is marked down. -/
def IsDown (s : State) (i : Nat) : Prop :=
  s.clock < downUntilOf s.group i

instance (s : State) (i : Nat) : Decidable (s.IsDown i) :=
  inferInstanceAs (Decidable (s.clock < downUntilOf s.group i))

/-- A failure with this reading came after so many in a row that the peer is to be marked. -/
def Crossed (s : State) (i nowSecs : Nat) : Prop :=
  ∃ earlier, .failure nowSecs :: earlier <:+ s.history i ∧
    s.group.maxFails ≤ streak (.failure nowSecs :: earlier)

/-- The mark of the peer was set for such a failure. -/
def Justified (s : State) (i : Nat) : Prop :=
  ∃ nowSecs, s.Crossed i nowSecs ∧
    downUntilOf s.group i = nowSecs + s.group.failTimeoutSecs

/-- A probe that succeeds at a peer that is down goes on to clear the mark. -/
def Restores (s : State) : Event → Prop
  | .probed i nowSecs true =>
      (i, nowSecs) ∈ s.probes → s.IsDown i → i ∈ (s.step (.probed i nowSecs true)).recoveries
  | .clearMark i => i ∈ s.recoveries → ¬ (s.step (.clearMark i)).IsDown i
  | _ => True

/--
The condition on a step: a probe succeeds only at a peer that it finds down or that has no
failure counted, and no failure is counted while a probe brings the peer back.  Where one
failure is enough for a mark there is none.
-/
def Sound (s : State) (e : Event) : Prop :=
  s.group.maxFails ≤ 1 ∨
    match e with
    | .probed i nowSecs true => nowSecs < downUntilOf s.group i ∨ failsOf s.group i = 0
    | .probed i _ false | .connectFailed i _ => i ∉ s.resets
    | _ => True

instance decidableSound
    (s : State) (e : Event) : Decidable (Sound s e) := by
  unfold Sound
  cases e with
  | probed i nowSecs ok => cases ok <;> exact inferInstance
  | _ => exact inferInstance

end State

section Fields

variable {g : UpstreamGroup} {i j : Nat}

theorem failsOf_modifyPeer
    (f : PeerState → PeerState) :
    failsOf (g.modifyPeer i f) j =
      if i = j then (g.peers[j]?.map fun p => (f p).fails).getD 0 else failsOf g j := by
  unfold failsOf UpstreamGroup.modifyPeer
  dsimp only
  rw [List.getElem?_modify]
  by_cases h : i = j
  · simp [h, Function.comp_def]
  · simp [h]

theorem downUntilOf_modifyPeer
    (f : PeerState → PeerState) :
    downUntilOf (g.modifyPeer i f) j =
      if i = j then (g.peers[j]?.map fun p => (f p).downUntil).getD 0 else downUntilOf g j := by
  unfold downUntilOf UpstreamGroup.modifyPeer
  dsimp only
  rw [List.getElem?_modify]
  by_cases h : i = j
  · simp [h, Function.comp_def]
  · simp [h]

theorem failsOf_cleared :
    failsOf (g.modifyPeer i fun p => { p with fails := 0 }) j =
      if i = j then 0 else failsOf g j := by
  rw [failsOf_modifyPeer]
  cases g.peers[j]? with
  | none => rfl
  | some p => rfl

theorem failsOf_counted :
    failsOf (g.modifyPeer i fun p => { p with fails := p.fails + 1 }) j ≤
      failsOf g j + if i = j then 1 else 0 := by
  rw [failsOf_modifyPeer]
  by_cases h : i = j
  · rw [if_pos h, if_pos h]
    unfold failsOf
    cases g.peers[j]? with
    | none => exact Nat.zero_le _
    | some p => exact le_rfl
  · rw [if_neg h, if_neg h]
    exact le_rfl

/-- The mark does not matter to the count. -/
theorem failsOf_marked
    (until_ : Nat) :
    failsOf (g.modifyPeer i fun p => { p with downUntil := until_ }) j = failsOf g j := by
  rw [failsOf_modifyPeer]
  split
  · rfl
  · rfl

/-- Nor the count to the mark. -/
theorem downUntilOf_counted
    (f : Nat → Nat) :
    downUntilOf (g.modifyPeer i fun p => { p with fails := f p.fails }) j = downUntilOf g j := by
  rw [downUntilOf_modifyPeer]
  split
  · rfl
  · rfl

theorem downUntilOf_marked
    (until_ : Nat) :
    downUntilOf (g.modifyPeer i fun p => { p with downUntil := until_ }) j =
      if i = j then (if j < g.peers.length then until_ else 0) else downUntilOf g j := by
  rw [downUntilOf_modifyPeer]
  by_cases h : j < g.peers.length
  · rw [List.getElem?_eq_getElem h, if_pos h]
    rfl
  · rw [List.getElem?_eq_none (Nat.le_of_not_lt h), if_neg h]
    rfl

/-- A connect changes nothing of its group but the counter. -/
theorem pick_group
    {group : UpstreamGroup} {nowSecs : Nat} {clientIp : Option IpAddr} {view : View}
    (h : g.pick nowSecs clientIp view = some (i, group)) :
    ∃ counter, group = { g with rrCounter := counter } := by
  unfold UpstreamGroup.pick at h
  split at h
  · cases h
  dsimp only at h
  split at h
  · cases h
    exact ⟨_, rfl⟩
  · cases h
    exact ⟨g.rrCounter, rfl⟩
  · cases h
    exact ⟨g.rrCounter, rfl⟩
  · cases h
    exact ⟨g.rrCounter, rfl⟩

end Fields

namespace State

variable {s t : State} {e : Event} {i nowSecs : Nat}

/-- What the marks go back to stays where it is: the configuration and the history. -/
structure Extends (s t : State) : Prop where
  maxFails : t.group.maxFails = s.group.maxFails
  failTimeout : t.group.failTimeoutSecs = s.group.failTimeoutSecs
  history : ∀ i, s.history i <:+ t.history i

theorem Crossed.extends
    (h : s.Crossed i nowSecs) (hext : Extends s t) :
    t.Crossed i nowSecs := by
  obtain ⟨earlier, hsuffix, hstreak⟩ := h
  refine ⟨earlier, hsuffix.trans (hext.history i), ?_⟩
  rw [hext.maxFails]
  exact hstreak

theorem Justified.extends
    (h : s.Justified i) (hext : Extends s t)
    (hdown : downUntilOf t.group i = downUntilOf s.group i) :
    t.Justified i := by
  obtain ⟨nowSecs, hcrossed, huntil⟩ := h
  refine ⟨nowSecs, hcrossed.extends hext, ?_⟩
  rw [hdown, huntil, hext.failTimeout]

@[simp] theorem history_record
    (outcome : Outcome) (j : Nat) :
    (s.record i outcome).history j =
      if j = i then outcome :: s.history i else s.history j := by
  unfold record
  exact Function.update_apply ..

theorem suffix_record
    (outcome : Outcome) (j : Nat) :
    s.history j <:+ (s.record i outcome).history j := by
  rw [history_record]
  split
  · rename_i h
    rw [h]
    exact List.suffix_cons ..
  · exact List.suffix_rfl

/-- What holds in every state of a sound run. -/
structure Sane (s : State) : Prop where
  past : ∀ p ∈ s.probes, p.2 ≤ s.clock
  counted : 1 < s.group.maxFails → ∀ i, i ∉ s.resets →
    failsOf s.group i ≤ streak (s.history i)
  crossed : ∀ p ∈ s.marks, s.Crossed p.1 p.2
  marked : ∀ i, downUntilOf s.group i ≠ 0 → s.Justified i

theorem sane_start
    (cfg : UpstreamGroupConfig) (clock : Nat) :
    Sane (start cfg clock) := by
  have hfields : ∀ i, failsOf (UpstreamGroup.new cfg) i = 0 ∧
      downUntilOf (UpstreamGroup.new cfg) i = 0 := by
    intro i
    unfold failsOf downUntilOf UpstreamGroup.new
    dsimp only
    rw [List.getElem?_map]
    cases cfg.peers[i]? with
    | none => exact ⟨rfl, rfl⟩
    | some p => exact ⟨rfl, rfl⟩
  refine ⟨?_, ?_, ?_, ?_⟩
  · intro p hp
    cases hp
  · intro _ i _
    exact (hfields i).1.le.trans (Nat.zero_le _)
  · intro p hp
    cases hp
  · intro i hi
    exact absurd (hfields i).2 hi

/-- Counting a failure keeps a sane state sane, and finds what a mark goes back to. -/
theorem Sane.countFail
    (hs : Sane s) (hreset : s.group.maxFails ≤ 1 ∨ i ∉ s.resets) :
    Sane (s.countFail i nowSecs) := by
  have hext : Extends s (s.countFail i nowSecs) := ⟨rfl, rfl, suffix_record _⟩
  have hdown : ∀ j, downUntilOf (s.countFail i nowSecs).group j = downUntilOf s.group j :=
    fun _ => downUntilOf_counted (· + 1)
  refine ⟨hs.past, ?_, ?_, ?_⟩
  · intro hmax j hj
    have hj := hs.counted hmax j hj
    have hcount : failsOf (s.countFail i nowSecs).group j ≤
        failsOf s.group j + if i = j then 1 else 0 :=
      failsOf_counted
    have hhistory : (s.countFail i nowSecs).history j =
        if j = i then .failure nowSecs :: s.history i else s.history j :=
      history_record _ j
    rw [hhistory]
    by_cases hij : i = j
    · subst hij
      rw [if_pos rfl] at hcount ⊢
      exact hcount.trans (Nat.succ_le_succ hj)
    · rw [if_neg hij] at hcount
      rw [if_neg (Ne.symm hij)]
      exact hcount.trans hj
  · intro p hp
    have hold : p ∈ s.marks → (s.countFail i nowSecs).Crossed p.1 p.2 :=
      fun hp => (hs.crossed p hp).extends hext
    unfold State.countFail at hp
    dsimp only at hp
    split at hp
    · rename_i hcross
      rcases List.mem_cons.mp hp with rfl | hp
      · refine ⟨s.history i, ?_, ?_⟩
        · have hhistory : (s.countFail i nowSecs).history i =
              .failure nowSecs :: s.history i := by
            rw [State.countFail, history_record, if_pos rfl]
          rw [hhistory]
        · have hmax := hcross.1
          show s.group.maxFails ≤ streak (s.history i) + 1
          rcases hreset with hone | hreset
          · omega
          · by_cases hone : s.group.maxFails ≤ 1
            · omega
            · have := hs.counted (by omega) i hreset
              omega
      · exact hold hp
    · exact hold hp
  · intro j hj
    rw [hdown] at hj
    exact (hs.marked j hj).extends hext (hdown j)

/-- What only leaves marks where they are and takes nothing off the rest stays sane. -/
theorem Sane.of_same
    (hs : Sane s) (hext : Extends s t)
    (hpast : ∀ p ∈ t.probes, p.2 ≤ t.clock)
    (hcounted : 1 < s.group.maxFails → ∀ i, i ∉ t.resets →
      failsOf t.group i ≤ streak (t.history i))
    (hmarks : ∀ p ∈ t.marks, p ∈ s.marks)
    (hdown : ∀ i, downUntilOf t.group i = downUntilOf s.group i) :
    Sane t := by
  refine ⟨hpast, ?_, ?_, ?_⟩
  · rw [hext.maxFails]
    exact hcounted
  · exact fun p hp => (hs.crossed p (hmarks p hp)).extends hext
  · intro i hi
    rw [hdown] at hi
    exact (hs.marked i hi).extends hext (hdown i)

/-- Every sound step keeps a state sane. -/
theorem sane_step
    (hs : Sane s) (he : Sound s e) :
    Sane (s.step e) := by
  cases e with
  | tick secs =>
      refine hs.of_same ⟨rfl, rfl, fun _ => List.suffix_rfl⟩ ?_ hs.counted (fun _ h => h)
        fun _ => rfl
      exact fun p hp => (hs.past p hp).trans (Nat.le_add_right ..)
  | connect clientIp view =>
      unfold step
      dsimp only
      split
      · rename_i i group hpick
        obtain ⟨counter, rfl⟩ := pick_group hpick
        exact hs.of_same ⟨rfl, rfl, fun _ => List.suffix_rfl⟩ hs.past hs.counted
          (fun _ h => h) fun _ => rfl
      · exact hs
  | connected i nowSecs =>
      unfold step
      dsimp only
      split
      · refine hs.of_same ⟨rfl, rfl, suffix_record _⟩ hs.past ?_ (fun _ h => h)
          fun _ => downUntilOf_counted fun _ => 0
        intro hmax j hj
        rw [failsOf_cleared]
        split
        · exact Nat.zero_le _
        · rename_i hij
          have := hs.counted hmax j hj
          rwa [history_record, if_neg (Ne.symm hij)]
      · exact hs
  | optionRefused i nowSecs =>
      exact hs.of_same ⟨rfl, rfl, fun _ => List.suffix_rfl⟩ hs.past hs.counted
        (fun _ h => h) fun _ => rfl
  | connectFailed i nowSecs =>
      unfold step
      dsimp only
      split
      · have hcount : Sane (s.countFail i nowSecs) := hs.countFail he
        exact hcount.of_same ⟨rfl, rfl, fun _ => List.suffix_rfl⟩ hcount.past hcount.counted
          (fun _ h => h) fun _ => rfl
      · exact hs
  | mark i nowSecs =>
      unfold step
      dsimp only
      split
      · rename_i hmark
        refine ⟨hs.past, ?_, ?_, ?_⟩
        · intro hmax j hj
          rw [failsOf_marked]
          exact hs.counted hmax j hj
        · exact fun p hp => hs.crossed p (List.mem_of_mem_erase hp)
        · intro j hj
          rw [downUntilOf_marked] at hj
          by_cases hij : i = j
          · subst hij
            refine ⟨nowSecs, hs.crossed _ hmark, ?_⟩
            rw [downUntilOf_marked, if_pos rfl]
            rw [if_pos rfl] at hj
            split
            · rfl
            · rename_i hlen
              exact absurd (if_neg hlen) hj
          · rw [if_neg hij] at hj
            obtain ⟨nowSecs', hcrossed, huntil⟩ := hs.marked j hj
            refine ⟨nowSecs', hcrossed, ?_⟩
            rw [downUntilOf_marked, if_neg hij]
            exact huntil
      · exact hs
  | probe i nowSecs =>
      unfold step
      dsimp only
      split
      · rename_i hguard
        refine hs.of_same ⟨rfl, rfl, fun _ => List.suffix_rfl⟩ ?_ hs.counted (fun _ h => h)
          fun _ => rfl
        exact List.forall_mem_cons.mpr ⟨hguard.2, hs.past⟩
      · exact hs
  | probed i nowSecs ok =>
      unfold step
      dsimp only
      split
      · have hrest : Sane { s with probes := s.probes.erase (i, nowSecs) } :=
          hs.of_same ⟨rfl, rfl, fun _ => List.suffix_rfl⟩
            (fun p hp => hs.past p (List.mem_of_mem_erase hp)) hs.counted (fun _ h => h)
            fun _ => rfl
        cases ok with
        | true =>
            rw [if_pos rfl]
            split
            · exact hrest.of_same ⟨rfl, rfl, fun _ => List.suffix_rfl⟩ hrest.past
                hrest.counted (fun _ h => h) fun _ => rfl
            · rename_i hup
              -- the count is at zero, or it would go on over the success
              have hzero : 1 < s.group.maxFails → failsOf s.group i = 0 := by
                intro hmax
                rcases he with hone | hdown | hzero
                · omega
                · exact absurd hdown hup
                · exact hzero
              refine hrest.of_same ⟨rfl, rfl, suffix_record _⟩ hrest.past ?_ (fun _ h => h)
                fun _ => rfl
              intro hmax j hj
              rw [history_record]
              split
              · rename_i hij
                subst hij
                show failsOf s.group j ≤ 0
                exact (hzero hmax).le
              · exact hs.counted hmax j hj
        | false => exact hrest.countFail he
      · exact hs
  | clearMark i =>
      unfold step
      dsimp only
      split
      · refine ⟨hs.past, ?_, ?_, ?_⟩
        · intro hmax j hj
          obtain ⟨hij, hj⟩ : j ≠ i ∧ j ∉ s.resets := by
            rwa [List.mem_cons, not_or] at hj
          rw [failsOf_marked, history_record, if_neg hij]
          exact hs.counted hmax j hj
        · exact fun p hp => (hs.crossed p hp).extends ⟨rfl, rfl, suffix_record _⟩
        · intro j hj
          rw [downUntilOf_marked] at hj
          by_cases hij : i = j
          · rw [if_pos hij, ite_self] at hj
            exact absurd rfl hj
          · rw [if_neg hij] at hj
            refine (hs.marked j hj).extends ⟨rfl, rfl, suffix_record _⟩ ?_
            rw [downUntilOf_marked, if_neg hij]
      · exact hs
  | clearFails i =>
      unfold step
      dsimp only
      split
      · refine hs.of_same ⟨rfl, rfl, fun _ => List.suffix_rfl⟩ hs.past ?_ (fun _ h => h)
          fun _ => downUntilOf_counted fun _ => 0
        intro hmax j hj
        rw [failsOf_cleared]
        split
        · exact Nat.zero_le _
        · rename_i hij
          refine hs.counted hmax j fun hmem => hj ?_
          exact (List.mem_erase_of_ne (Ne.symm hij)).mpr hmem
      · exact hs

/-- A probe that succeeds at a peer that is down makes it selectable again. -/
theorem restores_step
    (hs : Sane s) :
    Restores s e := by
  unfold Restores
  split
  · rename_i i nowSecs
    intro hprobe hdown
    have hpast := hs.past _ hprobe
    have hfound : nowSecs < downUntilOf s.group i := Nat.lt_of_le_of_lt hpast hdown
    unfold step
    dsimp only
    rw [if_pos hprobe, if_pos rfl, if_pos hfound]
    exact List.mem_cons_self
  · rename_i i
    intro hrecovery hdown
    unfold step at hdown
    dsimp only at hdown
    rw [if_pos hrecovery] at hdown
    unfold IsDown at hdown
    rw [downUntilOf_marked, if_pos rfl, ite_self] at hdown
    exact absurd hdown (Nat.not_lt_zero _)
  · trivial

/--
In a run of sound steps every peer that is down is down for a failure that came after as
many in a row as the group asks for, and every probe that succeeds at a peer that is down
makes it selectable again.
-/
theorem run_justified
    (cfg : UpstreamGroupConfig) (clock : Nat) (es : List Event)
    (hes : Run.Steps step Sound (start cfg clock) es) :
    (∀ s ∈ Run.states step (start cfg clock) es, ∀ i, s.IsDown i → s.Justified i) ∧
      ∀ t ∈ Run.transitions step (start cfg clock) es, Restores t.1 t.2 := by
  have hstep : ∀ s e, Sane s → Sound s e → Sane (s.step e) :=
    fun _ _ => sane_step
  constructor
  · intro s hs i hdown
    exact (Run.invariant hstep (sane_start cfg clock) hes s hs).marked i
      (Nat.ne_of_gt (Nat.lt_of_le_of_lt (Nat.zero_le _) hdown))
  · intro t ht
    exact restores_step (Run.transitions_rule hstep (sane_start cfg clock) hes t ht).1

section Example

/-- One peer, which two failures mark down for 30 seconds. -/
def twoFailsGroup : UpstreamGroupConfig :=
  { groupOf [peerAt 8001] with maxFails := 2 }

/-- A connect that gets no connection. -/
def failedConnect : List Event :=
  [.connect none ⟨fun _ => 0, fun _ => 0⟩, .connectFailed 0 100]

/-- Two connects fail, and a probe brings the peer back. -/
def recovery : List Event :=
  failedConnect ++ failedConnect ++
    [Event.mark 0 100, .tick 5, .probe 0 105, .probed 0 105 true, .clearMark 0, .clearFails 0]

theorem run_justified_example :
    (∀ s ∈ Run.states step (start twoFailsGroup 100) recovery,
        ∀ i, s.IsDown i → s.Justified i) ∧
      ∀ t ∈ Run.transitions step (start twoFailsGroup 100) recovery, Restores t.1 t.2 :=
  run_justified twoFailsGroup 100 recovery (by decide)

/-- A probe fails, the next one succeeds, and the third one fails. -/
def flapping : List Event :=
  [Event.probe 0 100, .probed 0 100 false, .probe 0 100, .probed 0 100 true,
    .probe 0 100, .probed 0 100 false, .mark 0 100]

/-- The peer is marked down for two failures, and a probe succeeded between them. -/
theorem flapping_marked :
    ∃ s ∈ Run.states step (start twoFailsGroup 100) flapping,
      s.IsDown 0 ∧ s.history 0 = [.failure 100, .success, .failure 100] ∧
        ¬ s.Justified 0 := by
  have hhistory : (flapping.foldl step (start twoFailsGroup 100)).history 0 =
      [.failure 100, .success, .failure 100] := by
    decide
  refine ⟨flapping.foldl step (start twoFailsGroup 100), Run.foldl_mem_states _ _,
    by decide, hhistory, ?_⟩
  rintro ⟨nowSecs, ⟨earlier, hsuffix, hstreak⟩, -⟩
  rw [hhistory] at hsuffix
  have hmax : (flapping.foldl step (start twoFailsGroup 100)).group.maxFails = 2 := by decide
  rw [hmax] at hstreak
  simp only [List.suffix_cons_iff, List.suffix_nil, List.cons.injEq, reduceCtorEq] at hsuffix
  rcases hsuffix with ⟨-, rfl⟩ | h | ⟨-, rfl⟩ | h
  · simp [streak] at hstreak
  · exact h.1.elim
  · simp [streak] at hstreak
  · exact h.elim

end Example

end State

end Health
end Upstream
end RunNginx
