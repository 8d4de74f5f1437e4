import RunNginx.Config.Shapes

/-!
# Braces

A block ends at the brace that belongs to it.  `Closes k` are the tokens up to the brace
that ends the outermost of `k` open blocks, and `Stays k k'` are the parsers that take
`k` open blocks to `k'` and depend on nothing behind them.  A directive without a block
keeps the number of open blocks, a block that is read ends one.
-/

namespace RunNginx
namespace ConfigParser

open ByteString Parse

/-- The tokens end the outermost of this many open blocks, and not before their end. -/
def Closes : Nat → List Token → Prop
  | 0, ts => ts = []
  | _ + 1, [] => False
  | k + 1, .openBrace :: ts => Closes (k + 2) ts
  | k + 1, .closeBrace :: ts => Closes k ts
  | k + 1, _ :: ts => Closes (k + 1) ts

@[simp] theorem closes_nil : Closes 0 [] :=
  rfl

theorem closes_zero
    {ts : List Token}
    (h : Closes 0 ts) :
    ts = [] := by
  cases ts with
  | nil => rfl
  | cons t ts => cases h

@[simp] theorem closes_word
    {k : Nat} {w : Bytes} {ts : List Token} :
    Closes (k + 1) (.word w :: ts) ↔ Closes (k + 1) ts :=
  Iff.rfl

@[simp] theorem closes_semicolon
    {k : Nat} {ts : List Token} :
    Closes (k + 1) (.semicolon :: ts) ↔ Closes (k + 1) ts :=
  Iff.rfl

@[simp] theorem closes_openBrace
    {k : Nat} {ts : List Token} :
    Closes (k + 1) (.openBrace :: ts) ↔ Closes (k + 2) ts :=
  Iff.rfl

@[simp] theorem closes_closeBrace
    {k : Nat} {ts : List Token} :
    Closes (k + 1) (.closeBrace :: ts) ↔ Closes k ts :=
  Iff.rfl

@[simp] theorem closes_words_append
    {k : Nat} {args : List Bytes} {ts : List Token} :
    Closes (k + 1) (words args ++ ts) ↔ Closes (k + 1) ts := by
  induction args with
  | nil => exact Iff.rfl
  | cons w args ih => exact ih

/-- The depth behind a row of tokens; behind a closing brace too many there is none. -/
def depthAfter : Nat → List Token → Option Nat
  | depth, [] => some depth
  | depth, .openBrace :: ts => depthAfter (depth + 1) ts
  | 0, .closeBrace :: _ => none
  | depth + 1, .closeBrace :: ts => depthAfter depth ts
  | depth, _ :: ts => depthAfter depth ts

section DepthAfter

variable {depth : Nat} {ts : List Token}

@[simp] theorem depthAfter_nil : depthAfter depth [] = some depth := by
  cases depth <;> rfl

@[simp] theorem depthAfter_word
    {w : Bytes} :
    depthAfter depth (.word w :: ts) = depthAfter depth ts := by
  cases depth <;> rfl

@[simp] theorem depthAfter_semicolon :
    depthAfter depth (.semicolon :: ts) = depthAfter depth ts := by
  cases depth <;> rfl

@[simp] theorem depthAfter_openBrace :
    depthAfter depth (.openBrace :: ts) = depthAfter (depth + 1) ts := by
  cases depth <;> rfl

@[simp] theorem depthAfter_closeBrace :
    depthAfter (depth + 1) (.closeBrace :: ts) = depthAfter depth ts :=
  rfl

/-- A row of tokens can be followed further inside as well. -/
theorem depthAfter_add
    {depth' : Nat} (k : Nat) (h : depthAfter depth ts = some depth') :
    depthAfter (depth + k) ts = some (depth' + k) := by
  induction ts generalizing depth with
  | nil =>
      rw [depthAfter_nil] at h ⊢
      rw [Option.some.inj h]
  | cons t ts ih =>
      cases t with
      | word w =>
          rw [depthAfter_word] at h ⊢
          exact ih h
      | semicolon =>
          rw [depthAfter_semicolon] at h ⊢
          exact ih h
      | openBrace =>
          rw [depthAfter_openBrace] at h ⊢
          rw [Nat.add_right_comm]
          exact ih h
      | closeBrace =>
          cases depth with
          | zero => cases h
          | succ depth =>
              rw [Nat.add_right_comm, depthAfter_closeBrace]
              exact ih h

end DepthAfter

/-- Every brace has its partner. -/
def Balanced (ts : List Token) : Prop :=
  depthAfter 0 ts = some 0

instance (ts : List Token) : Decidable (Balanced ts) :=
  inferInstanceAs (Decidable (_ = _))

/-- A balanced row of tokens can be followed at any depth. -/
theorem depthAfter_of_balanced
    {ts : List Token} (depth : Nat)
    (h : Balanced ts) :
    depthAfter depth ts = some depth := by
  have hdepth := depthAfter_add depth h
  rwa [Nat.zero_add] at hdepth

theorem closes_of_depthAfter
    {depth depth' : Nat} {inner ts : List Token}
    (hinner : depthAfter depth inner = some depth') (h : Closes (depth' + 1) ts) :
    Closes (depth + 1) (inner ++ ts) := by
  induction inner generalizing depth with
  | nil =>
      cases hinner
      exact h
  | cons t inner ih =>
      cases t with
      | word w =>
          rw [depthAfter_word] at hinner
          exact ih hinner
      | semicolon =>
          rw [depthAfter_semicolon] at hinner
          exact ih hinner
      | openBrace =>
          rw [depthAfter_openBrace] at hinner
          exact ih hinner
      | closeBrace =>
          cases depth with
          | zero => cases hinner
          | succ depth => exact ih hinner

theorem closes_of_balanced
    {inner : List Token} {k : Nat} {ts : List Token}
    (h : Balanced inner) (hts : Closes k ts) :
    Closes (k + 1) (inner ++ .closeBrace :: ts) :=
  closes_of_depthAfter (depthAfter_of_balanced k h) hts

/-- What is behind a block is what comes after the tokens that close it. -/
theorem behindBlock_closes
    {k : Nat} {seg ts : List Token}
    (h : Closes k seg) :
    behindBlock k (seg ++ ts) = ts := by
  induction seg generalizing k with
  | nil =>
      cases k with
      | zero => simp [behindBlock]
      | succ k => cases h
  | cons t seg ih =>
      cases k with
      | zero => cases h
      | succ k =>
          cases t with
          | word w => exact ih h
          | semicolon => exact ih h
          | openBrace => exact ih h
          | closeBrace => exact ih h

/-- The parser takes this many open blocks to that many, whatever comes behind them. -/
def Stays {α : Type} (k k' : Nat) (p : Parser α) : Prop :=
  ∀ seg ts a rest, Closes k seg → Reads p (seg ++ ts) a rest →
    ∃ seg', Closes k' seg' ∧ rest = seg' ++ ts ∧ ∀ more, Reads p (seg ++ more) a (seg' ++ more)

section Stays

variable {σ α β : Type} {k k₁ k₂ : Nat}

theorem Stays.bind
    {p : Parser α} {f : α → Parser β}
    (hp : Stays k k₁ p) (hf : ∀ a, Stays k₁ k₂ (f a)) :
    Stays k k₂ (p >>= f) := by
  intro seg ts b rest hseg h
  obtain ⟨a, mid, hread, hrest⟩ := reads_bind_iff.mp h
  obtain ⟨seg₁, hseg₁, rfl, hmore₁⟩ := hp seg ts a mid hseg hread
  obtain ⟨seg₂, hseg₂, rfl, hmore₂⟩ := hf a seg₁ ts b rest hseg₁ hrest
  exact ⟨seg₂, hseg₂, rfl, fun more => reads_bind_iff.mpr ⟨a, _, hmore₁ more, hmore₂ more⟩⟩

theorem stays_of_nothing
    {p : Parser α} {x : Option α}
    (h : ReadsNothing p x) :
    Stays k k p := by
  intro seg ts a rest hseg hread
  obtain ⟨hx, rfl⟩ := (h _ _ _).mp hread
  exact ⟨seg, hseg, rfl, fun more => (h _ _ _).mpr ⟨hx, rfl⟩⟩

/-- A row of tokens without braces lies within the tokens that close a block. -/
theorem closes_words
    (args : List Bytes) {t : Token} {rest seg ts : List Token}
    (ht : t ≠ .closeBrace)
    (hseg : Closes (k + 1) seg) (h : seg ++ ts = words args ++ t :: rest) :
    ∃ seg', seg = words args ++ t :: seg' ∧ rest = seg' ++ ts := by
  induction args generalizing seg with
  | nil =>
      cases seg with
      | nil => cases hseg
      | cons t' seg =>
          simp only [List.cons_append, words_nil, List.nil_append, List.cons.injEq] at h
          obtain ⟨rfl, rfl⟩ := h
          exact ⟨seg, rfl, rfl⟩
  | cons w args ih =>
      cases seg with
      | nil => cases hseg
      | cons t' seg =>
          simp only [List.cons_append, words_cons, List.cons.injEq] at h
          obtain ⟨rfl, h⟩ := h
          obtain ⟨seg', rfl, hrest⟩ := ih (closes_word.mp hseg) h
          exact ⟨seg', rfl, hrest⟩

theorem stays_of_row
    {p : Parser α} {q : List Bytes → Option α}
    (h : ReadsRow p q) :
    Stays (k + 1) (k + 1) p := by
  intro seg ts a rest hseg hread
  obtain ⟨args, hinput, hq⟩ := (h _ _ _).mp hread
  obtain ⟨seg', rfl, rfl⟩ := closes_words args (by simp) hseg hinput
  refine ⟨seg', by simpa using hseg, rfl, fun more => (h _ _ _).mpr ⟨args, ?_, hq⟩⟩
  simp

theorem stays_of_simple
    {d : σ → Parser σ} {f : List Bytes → σ → Option σ}
    (h : IsSimple d f) (st : σ) :
    Stays (k + 1) (k + 1) (d st) :=
  stays_of_row (h st)

theorem stays_collectArgs : Stays (k + 1) (k + 1) collectArgs := by
  intro seg ts args rest hseg hread
  obtain ⟨hinput, hno⟩ := reads_collectArgs_iff.mp hread
  -- the first token behind the words is still one of those that close the block
  induction args generalizing seg with
  | nil =>
      refine ⟨seg, hseg, hinput.symm, fun more => ?_⟩
      cases seg with
      | nil => cases hseg
      | cons t seg =>
          obtain rfl : t :: seg ++ ts = rest := hinput
          exact reads_collectArgs_iff.mpr ⟨rfl, hno⟩
  | cons w args ih =>
      cases seg with
      | nil => cases hseg
      | cons t seg =>
          simp only [List.cons_append, words_cons, List.cons.injEq] at hinput
          obtain ⟨rfl, hinput⟩ := hinput
          obtain ⟨seg', hseg', hrest, hmore⟩ := ih seg (closes_word.mp hseg)
            (reads_collectArgs_iff.mpr ⟨hinput, hno⟩) hinput
          refine ⟨seg', hseg', hrest, fun more => ?_⟩
          obtain ⟨heq, hno'⟩ := reads_collectArgs_iff.mp (hmore more)
          exact reads_collectArgs_iff.mpr ⟨congrArg (Token.word w :: ·) heq, hno'⟩

theorem stays_expectOpen : Stays (k + 1) (k + 2) expectOpen := by
  intro seg ts u rest hseg hread
  have hinput := reads_expectOpen_iff.mp hread
  obtain ⟨seg', rfl, rfl⟩ := closes_words [] (by simp) hseg hinput
  exact ⟨seg', hseg, rfl, fun more => reads_expectOpen_iff.mpr rfl⟩

/-- Skipping a block ends that many of the open blocks. -/
theorem behindBlock_stays
    {j : Nat} {seg : List Token}
    (h : Closes (j + (k + 1)) seg) :
    ∃ seg', Closes (k + 1) seg' ∧ ∀ more, behindBlock j (seg ++ more) = seg' ++ more := by
  induction seg generalizing j with
  | nil => cases h
  | cons t seg ih =>
      cases j with
      | zero =>
          rw [Nat.zero_add] at h
          exact ⟨t :: seg, h, fun more => by simp [behindBlock]⟩
      | succ j =>
          have hj : j + 1 + (k + 1) = j + (k + 1) + 1 := by omega
          rw [hj] at h
          cases t with
          | word w => exact ih (j := j + 1) (by rw [hj]; exact h)
          | semicolon => exact ih (j := j + 1) (by rw [hj]; exact h)
          | openBrace => exact ih (j := j + 2) (by rw [Nat.add_right_comm]; exact h)
          | closeBrace => exact ih (j := j) h

theorem reads_skipBlock_iff
    {ts rest : List Token} {u : Unit} :
    Reads skipBlock ts u rest ↔ rest = behindBlock 1 ts := by
  constructor
  · rintro ⟨hle, h⟩
    cases h
    rfl
  · rintro rfl
    exact ⟨behindBlock_length 1 ts, rfl⟩

theorem stays_skipBlock : Stays (k + 2) (k + 1) skipBlock := by
  intro seg ts u rest hseg hread
  obtain ⟨seg', hseg', hmore⟩ := behindBlock_stays (j := 1) (k := k)
    (by rw [Nat.add_comm 1]; exact hseg)
  have hrest := reads_skipBlock_iff.mp hread
  exact ⟨seg', hseg', hrest.trans (hmore ts), fun more =>
    reads_skipBlock_iff.mpr (hmore more).symm⟩

/-- A block whose directives stay within it ends with it. -/
theorem stays_block
    {ν : Type} {classify : σ → Token → Head ν ConfigError} {step : ν → σ → Parser σ}
    (hstep : ∀ name s, Stays (k + 1) (k + 1) (step name s))
    (hhalt : ∀ s t, classify s t ≠ .halt)
    (hclose : ∀ s t, classify s t = .close → t = .closeBrace)
    (hword : ∀ s t name, classify s t = .item name → ∃ w, t = .word w)
    (hskip : ∀ s t, classify s t = .skip → t = .semicolon)
    (s : σ) :
    Stays (k + 1) k (block classify step s) := by
  intro seg ts s' rest hseg hread
  rw [reads_block_iff] at hread
  generalize hinput : seg ++ ts = input at hread
  have hgoal : ∃ seg', Closes k seg' ∧ rest = seg' ++ ts ∧
      ∀ more, BlockReads classify step s (seg ++ more) s' (seg' ++ more) := by
    -- induction over what the block has read; the front is always one of the closing tokens
    induction hread generalizing seg with
    | eof s =>
        cases seg with
        | nil => cases hseg
        | cons t seg => cases hinput
    | halt h => exact absurd h (hhalt _ _)
    | @close s t input h =>
        cases seg with
        | nil => cases hseg
        | cons t' seg =>
            cases hinput
            obtain rfl := hclose s t h
            exact ⟨seg, hseg, rfl, fun more => .close h⟩
    | @skip s s' t input rest h _ ih =>
        cases seg with
        | nil => cases hseg
        | cons t' seg =>
            cases hinput
            obtain rfl := hskip s t h
            obtain ⟨seg', hseg', hrest, hmore⟩ := ih seg hseg rfl
            exact ⟨seg', hseg', hrest, fun more => .skip h (hmore more)⟩
    | @item s s₁ s' t name input mid rest h hone _ ih =>
        cases seg with
        | nil => cases hseg
        | cons t' seg =>
            cases hinput
            obtain ⟨w, rfl⟩ := hword s t name h
            obtain ⟨seg₁, hseg₁, rfl, hmore₁⟩ := hstep name s seg ts s₁ mid hseg hone
            obtain ⟨seg', hseg', hrest, hmore⟩ := ih seg₁ hseg₁ rfl
            exact ⟨seg', hseg', hrest, fun more => .item h (hmore₁ more) (hmore more)⟩
  obtain ⟨seg', hseg', hrest, hmore⟩ := hgoal
  exact ⟨seg', hseg', hrest, fun more => reads_block_iff.mpr (hmore more)⟩

end Stays

end ConfigParser
end RunNginx
