import Mathlib.Data.List.Basic

/-!
# Parsers over token lists

A parser takes a value off the front of a token list.  What it leaves is never longer
than what it was given; the bound is part of the result, so that a loop of parsers
needs no other reason to end.

`block` reads items up to the end of a block; `block_rule` is its invariant rule, over
the items read so far and the state they have led to.
-/

/-- What is left of an input. -/
abbrev Rest {τ : Type} (input : List τ) : Type :=
  { rest : List τ // rest.length ≤ input.length }

/-- A parser gives a value and what is left, or an error. -/
def Parse (τ ε α : Type) : Type :=
  (input : List τ) → Except ε (α × Rest input)

namespace Parse

variable {τ ε α β σ ν : Type}

/-- What is left of what was left. -/
def Rest.weaken {input : List τ} (rest : Rest input) (r : α × Rest rest.1) : α × Rest input :=
  (r.1, ⟨r.2.1, Nat.le_trans r.2.2 rest.2⟩)

instance : Monad (Parse τ ε) where
  pure a := fun input => .ok (a, ⟨input, Nat.le_refl _⟩)
  bind p f := fun input =>
    match p input with
    | .error e => .error e
    | .ok (a, rest) => (f a rest.1).map (Rest.weaken rest)

/-- A computation that reads nothing. -/
def ofExcept (x : Except ε α) : Parse τ ε α :=
  fun input => x.map fun a => (a, ⟨input, Nat.le_refl _⟩)

def fail (e : ε) : Parse τ ε α :=
  fun _ => .error e

/-- The next token, which stays. -/
def peek : Parse τ ε (Option τ) :=
  fun input => .ok (input.head?, ⟨input, Nat.le_refl _⟩)

/-- Pass over one token. -/
def advance : Parse τ ε Unit :=
  fun input => .ok ((), ⟨input.drop 1, by simp⟩)

/-- What a token at the front of an item means for the block. -/
inductive Head (ν ε : Type)
  /-- The block ends in front of the token. -/
  | halt
  /-- The block ends behind the token. -/
  | close
  | skip
  | bad (e : ε)
  | item (name : ν)

section Block

variable (classify : σ → τ → Head ν ε) (step : ν → σ → Parse τ ε σ)

/-- Read items up to the end of the block; the bound is on the tokens that are left. -/
def blockFrom : (bound : Nat) → (input : List τ) → input.length ≤ bound → σ →
    Except ε (σ × Rest input)
  | _, [], _, s => .ok (s, ⟨[], Nat.le_refl _⟩)
  | 0, _ :: _, h, _ => absurd h (by simp)
  | bound + 1, t :: ts, h, s =>
      have hts : ts.length ≤ bound := by simpa using h
      match classify s t with
      | .halt => .ok (s, ⟨t :: ts, Nat.le_refl _⟩)
      | .close => .ok (s, ⟨ts, by simp⟩)
      | .skip =>
          (blockFrom bound ts hts s).map (Rest.weaken ⟨ts, by simp⟩)
      | .bad e => .error e
      | .item name =>
          match step name s ts with
          | .error e => .error e
          | .ok (s', rest) =>
              (blockFrom bound rest.1 (Nat.le_trans rest.2 hts) s').map
                (Rest.weaken ⟨rest.1, Nat.le_trans rest.2 (by simp)⟩)

/-- Read a block from a state. -/
def block (s : σ) : Parse τ ε σ :=
  fun input => blockFrom classify step input.length input (Nat.le_refl _) s

/-- The items of the block, each with the tokens behind its name. -/
def itemsFrom : (bound : Nat) → (input : List τ) → input.length ≤ bound → σ →
    List (ν × List τ)
  | _, [], _, _ => []
  | 0, _ :: _, _, _ => []
  | bound + 1, t :: ts, h, s =>
      have hts : ts.length ≤ bound := by simpa using h
      match classify s t with
      | .halt | .close | .bad _ => []
      | .skip => itemsFrom bound ts hts s
      | .item name =>
          (name, ts) ::
            match step name s ts with
            | .error _ => []
            | .ok (s', rest) => itemsFrom bound rest.1 (Nat.le_trans rest.2 hts) s'

def items (s : σ) (input : List τ) : List (ν × List τ) :=
  itemsFrom classify step input.length input (Nat.le_refl _) s

variable {classify step}

/-- What every item preserves, the block preserves. -/
theorem blockFrom_rule
    {P : List (ν × List τ) → σ → Prop}
    (hstep : ∀ before name s ts s' (rest : Rest ts), P before s →
      step name s ts = .ok (s', rest) → P (before ++ [(name, ts)]) s')
    (bound : Nat) {input : List τ} (hbound : input.length ≤ bound)
    {before : List (ν × List τ)} {s s' : σ} {rest : Rest input}
    (hbefore : P before s)
    (h : blockFrom classify step bound input hbound s = .ok (s', rest)) :
    P (before ++ itemsFrom classify step bound input hbound s) s' := by
  induction bound generalizing input before s with
  | zero =>
      cases input with
      | nil =>
          cases h
          simpa [itemsFrom] using hbefore
      | cons t ts => simp at hbound
  | succ bound ih =>
      cases input with
      | nil =>
          cases h
          simpa [itemsFrom] using hbefore
      | cons t ts =>
          simp only [blockFrom] at h
          simp only [itemsFrom]
          cases hclass : classify s t with
          | halt =>
              simp only [hclass] at h ⊢
              cases h
              simpa using hbefore
          | close =>
              simp only [hclass] at h ⊢
              cases h
              simpa using hbefore
          | bad e =>
              simp only [hclass] at h
              cases h
          | skip =>
              simp only [hclass] at h ⊢
              cases hrest : blockFrom classify step bound ts (by simpa using hbound) s with
              | error e =>
                  rw [hrest] at h
                  cases h
              | ok r =>
                  rw [hrest] at h
                  have hstate : r.1 = s' := congrArg Prod.fst (Except.ok.inj h)
                  subst hstate
                  exact ih _ hbefore hrest
          | item name =>
              simp only [hclass] at h ⊢
              cases hone : step name s ts with
              | error e =>
                  simp only [hone] at h
                  cases h
              | ok r =>
                  simp only [hone] at h ⊢
                  obtain ⟨s₁, rest₁⟩ := r
                  simp only at h ⊢
                  cases hrest : blockFrom classify step bound rest₁.1
                      (Nat.le_trans rest₁.2 (by simpa using hbound)) s₁ with
                  | error e =>
                      rw [hrest] at h
                      cases h
                  | ok r' =>
                      rw [hrest] at h
                      have hstate : r'.1 = s' := congrArg Prod.fst (Except.ok.inj h)
                      subst hstate
                      have hnext := ih _ (hstep before name s ts s₁ rest₁ hbefore hone) hrest
                      simpa using hnext

theorem block_rule
    {P : List (ν × List τ) → σ → Prop}
    (hstep : ∀ before name s ts s' (rest : Rest ts), P before s →
      step name s ts = .ok (s', rest) → P (before ++ [(name, ts)]) s')
    {input : List τ} {s s' : σ} {rest : Rest input}
    (hinit : P [] s)
    (h : block classify step s input = .ok (s', rest)) :
    P (items classify step s input) s' :=
  blockFrom_rule hstep _ (Nat.le_refl _) hinit h

end Block

/-- A sequence of parsers that succeeds has read its parts one after the other. -/
theorem bind_ok
    {p : Parse τ ε α} {f : α → Parse τ ε β} {input : List τ} {b : β} {rest : Rest input}
    (h : (p >>= f) input = .ok (b, rest)) :
    ∃ a rest₁ rest₂, p input = .ok (a, rest₁) ∧ f a rest₁.1 = .ok (b, rest₂) := by
  have hrun : (p >>= f) input =
      match p input with
      | .error e => .error e
      | .ok (a, rest) => (f a rest.1).map (Rest.weaken rest) := rfl
  rw [hrun] at h
  cases ha : p input with
  | error e =>
      rw [ha] at h
      cases h
  | ok r =>
      rw [ha] at h
      cases hb : f r.1 r.2.1 with
      | error e =>
          simp only [hb] at h
          cases h
      | ok r' =>
          simp only [hb] at h
          have hvalue : r'.1 = b := congrArg Prod.fst (Except.ok.inj h)
          subst hvalue
          exact ⟨r.1, r.2, r'.2, rfl, hb⟩

theorem ofExcept_ok
    {x : Except ε α} {input : List τ} {a : α} {rest : Rest input}
    (h : (ofExcept x : Parse τ ε α) input = .ok (a, rest)) :
    x = .ok a := by
  cases x with
  | error e => cases h
  | ok b =>
      cases h
      rfl

section Gives

/-- Whatever the parser reads, the value it gives has the property. -/
def Gives (p : Parse τ ε α) (Q : α → Prop) : Prop :=
  ∀ input a rest, p input = .ok (a, rest) → Q a

variable {Q : α → Prop}

theorem gives_pure
    {a : α}
    (h : Q a) :
    Gives (pure a : Parse τ ε α) Q := by
  intro input b rest heq
  cases heq
  exact h

theorem gives_ofExcept
    {x : Except ε α}
    (h : ∀ a, x = .ok a → Q a) :
    Gives (ofExcept x : Parse τ ε α) Q := by
  intro input a rest heq
  cases x with
  | error e => cases heq
  | ok b =>
      cases heq
      exact h _ rfl

/-- The last parser of a sequence decides what the sequence gives. -/
theorem gives_bind
    {p : Parse τ ε β} {f : β → Parse τ ε α} {R : β → Prop}
    (hp : Gives p R) (hf : ∀ b, R b → Gives (f b) Q) :
    Gives (p >>= f) Q := by
  intro input a rest heq
  obtain ⟨b, rest₁, rest₂, hb, ha⟩ := bind_ok heq
  exact hf b (hp input b rest₁ hb) rest₁.1 a rest₂ ha

theorem gives_bind_any
    {p : Parse τ ε β} {f : β → Parse τ ε α}
    (hf : ∀ b, Gives (f b) Q) :
    Gives (p >>= f) Q :=
  gives_bind (R := fun _ => True) (fun _ _ _ _ => trivial) fun b _ => hf b

end Gives

end Parse
