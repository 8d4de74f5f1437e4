import RunNginx.Lib.Run

/-!
# Chains of rules

A packet goes along a chain of rules up to the first one that decides on it; the rules may
remember the packets they have seen.  What no rule decides is left to a policy.

`answered_around`: where the rules in front of and behind some others are silent on a kind
of packets, and the others look at no other packets, these others alone make the answers.
-/

namespace RuleChain

variable {ρ π ν : Type} (consider : ρ → π → Option ν × ρ)

/-- The first rule that decides on a packet is the last one that sees it. -/
def pass : List ρ → π → Option ν × List ρ
  | [], _ => (none, [])
  | r :: rs, p =>
      match consider r p with
      | (some v, r') => (some v, r' :: rs)
      | (none, r') => ((pass rs p).1, r' :: (pass rs p).2)

/-- The answer to a packet. -/
def verdict (policy : ν) (rs : List ρ) (p : π) : ν :=
  (pass consider rs p).1.getD policy

/-- The chain behind a packet. -/
def step (rs : List ρ) (p : π) : List ρ :=
  (pass consider rs p).2

/-- A rule behind packets that it has seen. -/
def behind (r : ρ) (ps : List π) : ρ :=
  ps.foldl (fun r p => (consider r p).2) r

/-- The rule never decides on these packets. -/
def Silent (P : π → Bool) (r : ρ) : Prop :=
  ∀ ps p, P p = true → (consider (behind consider r ps) p).1 = none

/-- The rule never looks at other packets. -/
def Only (P : π → Bool) (r : ρ) : Prop :=
  ∀ ps p, P p = false →
    consider (behind consider r ps) p = (none, behind consider r ps)

section Rules

variable {consider : ρ → π → Option ν × ρ} {P : π → Bool} {p : π} {r : ρ} {rs ss : List ρ}

theorem Silent.next
    (h : Silent consider P r) (p : π) :
    Silent consider P (consider r p).2 :=
  fun ps => h (p :: ps)

theorem Only.next
    (h : Only consider P r) (p : π) :
    Only consider P (consider r p).2 :=
  fun ps => h (p :: ps)

theorem pass_cons_some
    {v : ν} (h : (consider r p).1 = some v) (rs : List ρ) :
    pass consider (r :: rs) p = (some v, (consider r p).2 :: rs) := by
  rw [pass]
  split
  · rename_i v' r' heq
    rw [heq] at h
    rw [heq, Option.some.inj h]
  · rename_i r' heq
    rw [heq] at h
    cases h

theorem pass_cons_none
    (h : (consider r p).1 = none) (rs : List ρ) :
    pass consider (r :: rs) p =
      ((pass consider rs p).1, (consider r p).2 :: (pass consider rs p).2) := by
  rw [pass]
  split
  · rename_i v' r' heq
    rw [heq] at h
    cases h
  · rename_i r' heq
    rw [heq]

/-- A property that a rule keeps behind a packet is kept by a chain. -/
theorem forall_mem_pass
    {Q : ρ → Prop} (hQ : ∀ r p, Q r → Q (consider r p).2) (h : ∀ r ∈ rs, Q r) (p : π) :
    ∀ r ∈ (pass consider rs p).2, Q r := by
  induction rs with
  | nil =>
      intro r hr
      cases hr
  | cons r rs ih =>
      obtain ⟨hr, hrs⟩ := List.forall_mem_cons.mp h
      cases hv : (consider r p).1 with
      | some v =>
          rw [pass_cons_some hv]
          exact List.forall_mem_cons.mpr ⟨hQ r p hr, hrs⟩
      | none =>
          rw [pass_cons_none hv]
          exact List.forall_mem_cons.mpr ⟨hQ r p hr, ih hrs⟩

/-- Two chains, one behind the other. -/
theorem pass_append
    (rs ss : List ρ) (p : π) :
    pass consider (rs ++ ss) p =
      match (pass consider rs p).1 with
      | some v => (some v, (pass consider rs p).2 ++ ss)
      | none => ((pass consider ss p).1, (pass consider rs p).2 ++ (pass consider ss p).2) := by
  induction rs with
  | nil => rfl
  | cons r rs ih =>
      rw [List.cons_append]
      cases hv : (consider r p).1 with
      | some v => rw [pass_cons_some hv, pass_cons_some hv, List.cons_append]
      | none =>
          rw [pass_cons_none hv, pass_cons_none hv, ih]
          cases (pass consider rs p).1 <;> rfl

theorem pass_silent
    (h : ∀ r ∈ rs, Silent consider P r) (hp : P p = true) :
    (pass consider rs p).1 = none := by
  induction rs with
  | nil => rfl
  | cons r rs ih =>
      obtain ⟨hr, hrs⟩ := List.forall_mem_cons.mp h
      have hnone : (consider r p).1 = none := hr [] p hp
      rw [pass_cons_none hnone]
      exact ih hrs

theorem pass_only
    (h : ∀ r ∈ rs, Only consider P r) (hp : P p = false) :
    pass consider rs p = (none, rs) := by
  induction rs with
  | nil => rfl
  | cons r rs ih =>
      obtain ⟨hr, hrs⟩ := List.forall_mem_cons.mp h
      have hself : consider r p = (none, r) := hr [] p hp
      rw [pass_cons_none (by rw [hself]), ih hrs, hself]

/-- A chain around another one, silent on the packets that the other one is about. -/
def Around (consider : ρ → π → Option ν × ρ) (P : π → Bool) (rs ss : List ρ) : Prop :=
  ∃ front back, (∀ r ∈ front, Silent consider P r) ∧ (∀ r ∈ back, Silent consider P r) ∧
    (∀ r ∈ ss, Only consider P r) ∧ rs = front ++ (ss ++ back)

theorem Around.pass
    (h : Around consider P rs ss) (hp : P p = true) :
    (RuleChain.pass consider rs p).1 = (RuleChain.pass consider ss p).1 ∧
      Around consider P (step consider rs p) (step consider ss p) := by
  obtain ⟨front, back, hfront, hback, hss, rfl⟩ := h
  have hfront' := forall_mem_pass (fun r p hr => Silent.next hr p) hfront p
  have hback' := forall_mem_pass (fun r p hr => Silent.next hr p) hback p
  have hss' := forall_mem_pass (fun r p hr => Only.next hr p) hss p
  rw [step, step, pass_append, pass_append, pass_silent hfront hp, pass_silent hback hp]
  cases hv : (RuleChain.pass consider ss p).1 with
  | some v => exact ⟨rfl, _, back, hfront', hback, hss', rfl⟩
  | none => exact ⟨rfl, _, _, hfront', hback', hss', rfl⟩

theorem Around.step_other
    (h : Around consider P rs ss) (hp : P p = false) :
    Around consider P (step consider rs p) ss := by
  obtain ⟨front, back, hfront, hback, hss, rfl⟩ := h
  have hfront' := forall_mem_pass (fun r p hr => Silent.next hr p) hfront p
  have hback' := forall_mem_pass (fun r p hr => Silent.next hr p) hback p
  rw [step, pass_append, pass_append, pass_only hss hp]
  cases (RuleChain.pass consider front p).1 with
  | some v => exact ⟨_, back, hfront', hback, hss, rfl⟩
  | none => exact ⟨_, _, hfront', hback', hss, rfl⟩

/-- The answers to these packets are those of the rules that look at them. -/
theorem answered_around
    (policy : ν) (h : Around consider P rs ss) (ps : List π) :
    (Run.answered (verdict consider policy) (step consider) rs ps).filter (fun x => P x.1) =
      Run.answered (verdict consider policy) (step consider) ss (ps.filter P) := by
  refine Run.answered_filter (verdict consider policy) (step consider)
    (R := Around consider P) ?_ ?_ ?_ h ps
  · intro s t p hst hp
    rw [verdict, verdict, (hst.pass hp).1]
  · intro s t p hst hp
    exact (hst.pass hp).2
  · intro s t p hst hp
    exact hst.step_other hp

end Rules

end RuleChain
