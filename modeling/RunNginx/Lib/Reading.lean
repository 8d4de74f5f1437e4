import RunNginx.Lib.Parse

/-!
# What a parser reads

`Reads` says that a parser takes a value off an input and leaves a rest.  A sequence reads
what its parts read one after the other, and a block reads its items one after the other:
`BlockReads` has one rule for each way a block goes on or ends, so that a proof about a
block is an induction over what it has read.
-/

namespace Parse

variable {τ ε α β σ ν : Type}

/-- The parser reads a value off the input and leaves a rest. -/
def Reads (p : Parse τ ε α) (input : List τ) (a : α) (rest : List τ) : Prop :=
  ∃ h, p input = .ok (a, ⟨rest, h⟩)

theorem reads_of_ok
    {p : Parse τ ε α} {input : List τ} {a : α} {rest : Rest input}
    (h : p input = .ok (a, rest)) :
    Reads p input a rest.1 :=
  ⟨rest.2, h⟩

/-- A parser reads in one way only. -/
theorem Reads.unique
    {p : Parse τ ε α} {input rest rest' : List τ} {a b : α}
    (h : Reads p input a rest) (h' : Reads p input b rest') :
    a = b ∧ rest = rest' := by
  obtain ⟨hle, h⟩ := h
  obtain ⟨hle', h'⟩ := h'
  have heq := Except.ok.inj (h.symm.trans h')
  exact ⟨congrArg Prod.fst heq, congrArg (fun r => r.2.1) heq⟩

theorem Reads.length_le
    {p : Parse τ ε α} {input rest : List τ} {a : α}
    (h : Reads p input a rest) :
    rest.length ≤ input.length :=
  h.1

/-- The value that the parser reads, whatever it leaves. -/
def value (p : Parse τ ε α) (input : List τ) : Option α :=
  (p input).toOption.map Prod.fst

theorem value_eq_some_iff
    {p : Parse τ ε α} {input : List τ} {a : α} :
    value p input = some a ↔ ∃ rest, Reads p input a rest := by
  unfold value Reads
  cases p input with
  | error e => simp [Except.toOption]
  | ok r =>
      obtain ⟨b, rest⟩ := r
      constructor
      · intro h
        cases h
        exact ⟨rest.1, rest.2, rfl⟩
      · rintro ⟨rest', hle, h⟩
        cases h
        rfl

theorem reads_pure_iff
    {input rest : List τ} {a b : α} :
    Reads (pure a : Parse τ ε α) input b rest ↔ b = a ∧ rest = input := by
  constructor
  · rintro ⟨hle, h⟩
    cases h
    exact ⟨rfl, rfl⟩
  · rintro ⟨rfl, rfl⟩
    exact ⟨Nat.le_refl _, rfl⟩

theorem reads_fail_iff
    {input rest : List τ} {a : α} {e : ε} :
    Reads (fail e : Parse τ ε α) input a rest ↔ False := by
  constructor
  · rintro ⟨hle, h⟩
    cases h
  · exact False.elim

theorem reads_ofExcept_iff
    {x : Except ε α} {input rest : List τ} {a : α} :
    Reads (ofExcept x : Parse τ ε α) input a rest ↔ x = .ok a ∧ rest = input := by
  constructor
  · rintro ⟨hle, h⟩
    cases x with
    | error e => cases h
    | ok b =>
        cases h
        exact ⟨rfl, rfl⟩
  · rintro ⟨rfl, rfl⟩
    exact ⟨Nat.le_refl _, rfl⟩

theorem reads_peek_iff
    {input rest : List τ} {t : Option τ} :
    Reads (peek : Parse τ ε (Option τ)) input t rest ↔ t = input.head? ∧ rest = input := by
  constructor
  · rintro ⟨hle, h⟩
    cases h
    exact ⟨rfl, rfl⟩
  · rintro ⟨rfl, rfl⟩
    exact ⟨Nat.le_refl _, rfl⟩

theorem reads_advance_iff
    {input rest : List τ} {u : Unit} :
    Reads (advance : Parse τ ε Unit) input u rest ↔ rest = input.drop 1 := by
  constructor
  · rintro ⟨hle, h⟩
    cases h
    rfl
  · rintro rfl
    exact ⟨by simp, rfl⟩

theorem bind_apply
    (p : Parse τ ε α) (f : α → Parse τ ε β) (input : List τ) :
    (p >>= f) input =
      match p input with
      | .error e => .error e
      | .ok (a, rest) => (f a rest.1).map (Rest.weaken rest) :=
  rfl

/-- A sequence reads what its parts read. -/
theorem reads_bind_iff
    {p : Parse τ ε α} {f : α → Parse τ ε β} {input rest : List τ} {b : β} :
    Reads (p >>= f) input b rest ↔
      ∃ a mid, Reads p input a mid ∧ Reads (f a) mid b rest := by
  constructor
  · rintro ⟨hle, h⟩
    obtain ⟨a, rest₁, rest₂, hp, hf⟩ := bind_ok h
    have hrun : (p >>= f) input = .ok (b, ⟨rest₂.1, Nat.le_trans rest₂.2 rest₁.2⟩) := by
      rw [bind_apply, hp]
      simp only [hf]
      rfl
    have hrest : rest₂.1 = rest := (Reads.unique ⟨_, hrun⟩ ⟨hle, h⟩).2
    exact ⟨a, rest₁.1, ⟨rest₁.2, hp⟩, hrest ▸ ⟨rest₂.2, hf⟩⟩
  · rintro ⟨a, mid, ⟨hmid, hp⟩, hrest, hf⟩
    refine ⟨Nat.le_trans hrest hmid, ?_⟩
    rw [bind_apply, hp]
    simp only [hf]
    rfl

/-! ### Blocks -/

section Block

variable (classify : σ → τ → Head ν ε) (step : ν → σ → Parse τ ε σ)

/-- A block reads its items off the input, from a state to a state. -/
inductive BlockReads : σ → List τ → σ → List τ → Prop
  | eof (s : σ) : BlockReads s [] s []
  | halt {s : σ} {t : τ} {ts : List τ} :
      classify s t = .halt → BlockReads s (t :: ts) s (t :: ts)
  | close {s : σ} {t : τ} {ts : List τ} :
      classify s t = .close → BlockReads s (t :: ts) s ts
  | skip {s s' : σ} {t : τ} {ts rest : List τ} :
      classify s t = .skip → BlockReads s ts s' rest → BlockReads s (t :: ts) s' rest
  | item {s s₁ s' : σ} {t : τ} {name : ν} {ts mid rest : List τ} :
      classify s t = .item name → Reads (step name s) ts s₁ mid →
      BlockReads s₁ mid s' rest → BlockReads s (t :: ts) s' rest

variable {classify step}

theorem blockReads_of_blockFrom
    (bound : Nat) {input : List τ} (hbound : input.length ≤ bound)
    {s s' : σ} {rest : Rest input}
    (h : blockFrom classify step bound input hbound s = .ok (s', rest)) :
    BlockReads classify step s input s' rest.1 := by
  induction bound generalizing input s with
  | zero =>
      cases input with
      | nil =>
          cases h
          exact .eof _
      | cons t ts => simp at hbound
  | succ bound ih =>
      cases input with
      | nil =>
          cases h
          exact .eof _
      | cons t ts =>
          simp only [blockFrom] at h
          cases hclass : classify s t with
          | halt =>
              simp only [hclass] at h
              cases h
              exact .halt hclass
          | close =>
              simp only [hclass] at h
              cases h
              exact .close hclass
          | bad e =>
              simp only [hclass] at h
              cases h
          | skip =>
              simp only [hclass] at h
              cases hrest : blockFrom classify step bound ts (by simpa using hbound) s with
              | error e =>
                  rw [hrest] at h
                  cases h
              | ok r =>
                  rw [hrest] at h
                  cases h
                  exact .skip hclass (ih _ hrest)
          | item name =>
              simp only [hclass] at h
              cases hone : step name s ts with
              | error e =>
                  simp only [hone] at h
                  cases h
              | ok r =>
                  simp only [hone] at h
                  obtain ⟨s₁, rest₁⟩ := r
                  simp only at h
                  cases hrest : blockFrom classify step bound rest₁.1
                      (Nat.le_trans rest₁.2 (by simpa using hbound)) s₁ with
                  | error e =>
                      rw [hrest] at h
                      cases h
                  | ok r' =>
                      rw [hrest] at h
                      cases h
                      exact .item hclass ⟨rest₁.2, hone⟩ (ih _ hrest)

theorem blockFrom_of_blockReads
    {input rest : List τ} {s s' : σ}
    (h : BlockReads classify step s input s' rest)
    (bound : Nat) (hbound : input.length ≤ bound) :
    ∃ hle, blockFrom classify step bound input hbound s = .ok (s', ⟨rest, hle⟩) := by
  induction h generalizing bound with
  | eof s => cases bound <;> exact ⟨Nat.le_refl _, rfl⟩
  | halt hclass =>
      obtain ⟨bound, rfl⟩ : ∃ k, bound = k + 1 := ⟨bound - 1, by simp at hbound; omega⟩
      refine ⟨Nat.le_refl _, ?_⟩
      simp only [blockFrom, hclass]
  | close hclass =>
      obtain ⟨bound, rfl⟩ : ∃ k, bound = k + 1 := ⟨bound - 1, by simp at hbound; omega⟩
      refine ⟨by simp, ?_⟩
      simp only [blockFrom, hclass]
  | skip hclass _ ih =>
      obtain ⟨bound, rfl⟩ : ∃ k, bound = k + 1 := ⟨bound - 1, by simp at hbound; omega⟩
      obtain ⟨hle, hrest⟩ := ih bound (by simpa using hbound)
      refine ⟨Nat.le_succ_of_le hle, ?_⟩
      simp only [blockFrom, hclass, hrest]
      rfl
  | item hclass hone _ ih =>
      obtain ⟨bound, rfl⟩ : ∃ k, bound = k + 1 := ⟨bound - 1, by simp at hbound; omega⟩
      obtain ⟨hmid, hone⟩ := hone
      obtain ⟨hle, hrest⟩ := ih bound (Nat.le_trans hmid (by simpa using hbound))
      refine ⟨Nat.le_trans hle (Nat.le_succ_of_le hmid), ?_⟩
      simp only [blockFrom, hclass, hone, hrest]
      rfl

theorem reads_block_iff
    {input rest : List τ} {s s' : σ} :
    Reads (block classify step s) input s' rest ↔
      BlockReads classify step s input s' rest := by
  constructor
  · rintro ⟨hle, h⟩
    exact blockReads_of_blockFrom _ (Nat.le_refl _) h
  · intro h
    exact blockFrom_of_blockReads h _ (Nat.le_refl _)

/-- What a block does with the front of its input. -/
theorem blockReads_item_iff
    {s s' : σ} {t : τ} {name : ν} {ts rest : List τ}
    (hclass : classify s t = .item name) :
    BlockReads classify step s (t :: ts) s' rest ↔
      ∃ s₁ mid, Reads (step name s) ts s₁ mid ∧ BlockReads classify step s₁ mid s' rest := by
  constructor
  · intro h
    cases h with
    | halt h => rw [hclass] at h; cases h
    | close h => rw [hclass] at h; cases h
    | skip h => rw [hclass] at h; cases h
    | item h hone hrest =>
        rw [hclass] at h
        cases h
        exact ⟨_, _, hone, hrest⟩
  · rintro ⟨s₁, mid, hone, hrest⟩
    exact .item hclass hone hrest

theorem blockReads_close_iff
    {s s' : σ} {t : τ} {ts rest : List τ}
    (hclass : classify s t = .close) :
    BlockReads classify step s (t :: ts) s' rest ↔ s' = s ∧ rest = ts := by
  constructor
  · intro h
    cases h with
    | halt h => rw [hclass] at h; cases h
    | close h => exact ⟨rfl, rfl⟩
    | skip h => rw [hclass] at h; cases h
    | item h => rw [hclass] at h; cases h
  · rintro ⟨rfl, rfl⟩
    exact .close hclass

/-! ### The items of a block -/

/-- The bound on the tokens does not matter. -/
theorem itemsFrom_bound
    (bound bound' : Nat) {input : List τ}
    (h : input.length ≤ bound) (h' : input.length ≤ bound') (s : σ) :
    itemsFrom classify step bound input h s = itemsFrom classify step bound' input h' s := by
  induction bound generalizing bound' input s with
  | zero =>
      cases input with
      | nil => cases bound' <;> rfl
      | cons t ts => simp at h
  | succ bound ih =>
      cases input with
      | nil => cases bound' <;> rfl
      | cons t ts =>
          obtain ⟨bound', rfl⟩ : ∃ k, bound' = k + 1 := ⟨bound' - 1, by simp at h'; omega⟩
          simp only [itemsFrom]
          cases hclass : classify s t with
          | halt => rfl
          | close => rfl
          | bad e => rfl
          | skip => exact ih _ _ _ _
          | item name =>
              simp only [List.cons.injEq, true_and]
              cases step name s ts with
              | error e => rfl
              | ok r => exact ih _ _ _ _

theorem items_nil (s : σ) : items classify step s [] = [] := rfl

theorem items_skip
    {s : σ} {t : τ} {ts : List τ}
    (hclass : classify s t = .skip) :
    items classify step s (t :: ts) = items classify step s ts := by
  simp only [items, List.length_cons, itemsFrom, hclass]

theorem items_item
    {s s' : σ} {t : τ} {name : ν} {ts mid : List τ}
    (hclass : classify s t = .item name) (hone : Reads (step name s) ts s' mid) :
    items classify step s (t :: ts) = (name, ts) :: items classify step s' mid := by
  obtain ⟨hle, hone⟩ := hone
  simp only [items, List.length_cons, itemsFrom, hclass, hone]
  congr 1
  exact itemsFrom_bound _ _ _ _ _

end Block

end Parse
