/-!
# Runs of a state machine

A run applies a list of inputs one after the other.  `Run.invariant` is the
induction over runs: what holds at the start and is kept by every admissible step
holds in every state of a run of admissible steps.
-/

namespace Run

variable {σ ι : Type}
variable (step : σ → ι → σ)

/-- The states a run goes through, the first one included. -/
def states : σ → List ι → List σ
  | s, [] => [s]
  | s, i :: is => s :: states (step s i) is

/-- The steps of a run, each as the state before it and its input. -/
def transitions : σ → List ι → List (σ × ι)
  | _, [] => []
  | s, i :: is => (s, i) :: transitions (step s i) is

/-- Every step of the run meets a condition on the input and the state before. -/
def Steps (ok : σ → ι → Prop) : σ → List ι → Prop
  | _, [] => True
  | s, i :: is => ok s i ∧ Steps ok (step s i) is

variable {step}

instance decidableSteps
    {ok : σ → ι → Prop} [∀ s i, Decidable (ok s i)] :
    ∀ (s : σ) (is : List ι), Decidable (Steps step ok s is)
  | _, [] => isTrue trivial
  | s, i :: is => @instDecidableAnd _ _ _ (decidableSteps (step s i) is)

/-- A run ends in one of its states. -/
theorem foldl_mem_states
    (s : σ) (is : List ι) :
    is.foldl step s ∈ states step s is := by
  induction is generalizing s with
  | nil => exact List.mem_singleton.mpr rfl
  | cons i is ih => exact List.mem_cons_of_mem s (ih (step s i))

/-- Conditions on the steps of a run are conditions on its two parts. -/
theorem steps_append_iff
    {ok : σ → ι → Prop} {s : σ} {is js : List ι} :
    Steps step ok s (is ++ js) ↔ Steps step ok s is ∧ Steps step ok (is.foldl step s) js := by
  induction is generalizing s with
  | nil => exact iff_and_self.mpr fun _ => trivial
  | cons i is ih =>
      rw [List.cons_append, List.foldl_cons, Steps, Steps, ih, and_assoc]

/-- What every step keeps of a state and the steps so far holds at the end of a run. -/
theorem history_rule
    {P : List (σ × ι) → σ → Prop} {ok : σ → ι → Prop}
    (hstep : ∀ before s i, P before s → ok s i → P (before ++ [(s, i)]) (step s i))
    {before : List (σ × ι)} {s : σ} {is : List ι}
    (hinit : P before s)
    (hsteps : Steps step ok s is) :
    P (before ++ transitions step s is) (is.foldl step s) := by
  induction is generalizing before s with
  | nil =>
      rw [transitions, List.append_nil]
      exact hinit
  | cons i is ih =>
      obtain ⟨hok, hrest⟩ := hsteps
      rw [transitions, List.append_cons]
      exact ih (hstep before s i hinit hok) hrest

/-- Invariants are kept along a run. -/
theorem invariant
    {P : σ → Prop} {ok : σ → ι → Prop}
    (hstep : ∀ s i, P s → ok s i → P (step s i))
    {s : σ} {is : List ι}
    (hinit : P s)
    (hsteps : Steps step ok s is) :
    ∀ t ∈ states step s is, P t := by
  induction is generalizing s with
  | nil =>
      intro t ht
      rw [List.mem_singleton.mp ht]
      exact hinit
  | cons i is ih =>
      obtain ⟨hok, hrest⟩ := hsteps
      intro t ht
      rcases List.mem_cons.mp ht with rfl | ht
      · exact hinit
      · exact ih (hstep s i hinit hok) hrest t ht

/-- An invariant holds before each step, and the step meets its condition. -/
theorem transitions_rule
    {P : σ → Prop} {ok : σ → ι → Prop}
    (hstep : ∀ s i, P s → ok s i → P (step s i))
    {s : σ} {is : List ι}
    (hinit : P s)
    (hsteps : Steps step ok s is) :
    ∀ t ∈ transitions step s is, P t.1 ∧ ok t.1 t.2 := by
  induction is generalizing s with
  | nil =>
      intro t ht
      cases ht
  | cons i is ih =>
      obtain ⟨hok, hrest⟩ := hsteps
      intro t ht
      rcases List.mem_cons.mp ht with rfl | ht
      · exact ⟨hinit, hok⟩
      · exact ih (hstep s i hinit hok) hrest t ht

section Answers

variable {α : Type} (answer : σ → ι → α) (step : σ → ι → σ)

/-- The inputs of a run, each with its answer. -/
def answered : σ → List ι → List (ι × α)
  | _, [] => []
  | s, i :: is => (i, answer s i) :: answered (step s i) is

/-- What related states answer to some of the inputs does not depend on the others. -/
theorem answered_filter
    {R : σ → σ → Prop} {P : ι → Bool}
    (hanswer : ∀ s t i, R s t → P i = true → answer s i = answer t i)
    (hboth : ∀ s t i, R s t → P i = true → R (step s i) (step t i))
    (hone : ∀ s t i, R s t → P i = false → R (step s i) t)
    {s t : σ} (h : R s t) (is : List ι) :
    (answered answer step s is).filter (fun x => P x.1) = answered answer step t (is.filter P) := by
  induction is generalizing s t with
  | nil => rfl
  | cons i is ih =>
      cases hi : P i with
      | true =>
          simp only [answered, List.filter_cons, hi, if_true]
          rw [hanswer s t i h hi, ih (hboth s t i h hi)]
      | false =>
          simp only [answered, List.filter_cons, hi, Bool.false_eq_true, if_false]
          exact ih (hone s t i h hi)

end Answers

end Run
