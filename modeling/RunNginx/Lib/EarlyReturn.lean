/-!
# Early returns

In `Except ε` a step either goes on with a value or ends the computation with a
result of type `ε`.  A sequence of steps ends early exactly where one of them does.
-/

namespace EarlyReturn

variable {ε α β : Type}

/-- A sequence ends early in its first step or in a later one. -/
theorem bind_eq_error_iff
    {x : Except ε α} {f : α → Except ε β} {e : ε} :
    x >>= f = .error e ↔ x = .error e ∨ ∃ a, x = .ok a ∧ f a = .error e := by
  cases x with
  | error e' => simp [bind, Except.bind]
  | ok a => simp [bind, Except.bind]

/-- A sequence goes on exactly if each of its steps does. -/
theorem bind_eq_ok_iff
    {x : Except ε α} {f : α → Except ε β} {b : β} :
    x >>= f = .ok b ↔ ∃ a, x = .ok a ∧ f a = .ok b := by
  cases x with
  | error e' => simp [bind, Except.bind]
  | ok a => simp [bind, Except.bind]

/-- What a computation that ends well returns. -/
theorem toOption_eq_some_iff
    {x : Except ε α} {a : α} :
    x.toOption = some a ↔ x = .ok a := by
  cases x with
  | error e => simp [Except.toOption]
  | ok b => simp [Except.toOption]

/-- A value that a condition decides on comes from one of the two branches. -/
theorem of_ite
    {c : Prop} [Decidable c] {x y z : α} {P : Prop}
    (h : (if c then x else y) = z) (hx : c → x = z → P) (hy : ¬ c → y = z → P) :
    P := by
  split at h
  · rename_i hc
    exact hx hc h
  · rename_i hc
    exact hy hc h

/-- What each step preserves, a sequence of steps preserves, over the steps done so far. -/
theorem foldlM_rule
    {P : List α → β → Prop} {f : β → α → Except ε β}
    (hf : ∀ before a b b', P before b → f b a = .ok b' → P (before ++ [a]) b')
    {l : List α} {b b' : β}
    (hb : P [] b) (h : l.foldlM f b = .ok b') :
    P l b' := by
  have hrun : ∀ before b, P before b → l.foldlM f b = .ok b' → P (before ++ l) b' := by
    clear hb h
    induction l with
    | nil =>
        intro before b hb h
        cases h
        simpa using hb
    | cons a l ih =>
        intro before b hb h
        rw [List.foldlM_cons] at h
        obtain ⟨b₁, hone, hrest⟩ := bind_eq_ok_iff.mp h
        simpa using ih _ b₁ (hf _ _ _ _ hb hone) hrest
  simpa using hrun [] b hb h

end EarlyReturn
