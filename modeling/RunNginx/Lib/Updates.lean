import Mathlib.Data.List.Perm.Basic

/-!
# Steps in any order

A step changes a state or refuses it.  Steps of which any two commute lead to the same
state in every order; two steps whose order shows in the result, with nothing behind them,
lead to different results in two orders.

A step that touches one field of a record, and is decided by that field alone, commutes
with every step that touches another field.
-/

namespace Updates

variable {σ δ β : Type} (step : δ → σ → Option σ)

/-- One step after the other. -/
def run (ds : List δ) (s : σ) : Option σ :=
  ds.foldlM (fun s d => step d s) s

@[simp] theorem run_nil (s : σ) : run step [] s = some s := rfl

@[simp] theorem run_cons
    (d : δ) (ds : List δ) (s : σ) :
    run step (d :: ds) s = (step d s).bind (run step ds) := by
  simp only [run, List.foldlM_cons]
  rfl

theorem run_pair
    (d e : δ) (ds : List δ) (s : σ) :
    run step (d :: e :: ds) s = ((step d s).bind (step e)).bind (run step ds) := by
  rw [run_cons]
  cases step d s with
  | none => rfl
  | some s => exact run_cons step e ds s

theorem run_append
    (ds es : List δ) (s : σ) :
    run step (ds ++ es) s = (run step ds s).bind (run step es) := by
  simp only [run, List.foldlM_append]
  rfl

/-- The order of the two steps makes no difference. -/
def Commute (d e : δ) : Prop :=
  ∀ s, (step d s).bind (step e) = (step e s).bind (step d)

variable {step}

theorem Commute.symm
    {d e : δ}
    (h : Commute step d e) :
    Commute step e d :=
  fun s => (h s).symm

/-- Commuting steps may be taken in any order. -/
theorem run_perm
    {ds es : List δ}
    (h : ds.Perm es)
    (hcomm : ∀ d ∈ ds, ∀ e ∈ ds, Commute step d e) (s : σ) :
    run step ds s = run step es s := by
  induction h generalizing s with
  | nil => rfl
  | cons d h ih =>
      simp only [run_cons]
      congr 1
      funext s
      exact ih (fun a ha b hb =>
        hcomm a (List.mem_cons_of_mem d ha) b (List.mem_cons_of_mem d hb)) s
  | swap d e ds =>
      rw [run_pair, run_pair, hcomm e (by simp) d (by simp) s]
  | trans h₁ _ ih₁ ih₂ =>
      rw [ih₁ hcomm s]
      exact ih₂ (fun a ha b hb =>
        hcomm a (h₁.mem_iff.mpr ha) b (h₁.mem_iff.mpr hb)) s

/-- A step that every state refuses ends every run it is in. -/
theorem run_eq_none
    {ds : List δ} {d : δ}
    (hd : d ∈ ds) (h : ∀ s, step d s = none) (s : σ) :
    run step ds s = none := by
  induction ds generalizing s with
  | nil => cases hd
  | cons e ds ih =>
      rw [run_cons]
      rcases List.mem_cons.mp hd with rfl | hd
      · rw [h, Option.bind_none]
      · cases step e s with
        | none => rfl
        | some s => exact ih hd s

/-- Steps that keep an invariant which lets them through make a run that goes through. -/
theorem run_isSome_of_kept
    {I : List δ → σ → Prop} {ds : List δ} {s : σ}
    (h : ∀ d ds s, I (d :: ds) s → ∃ s', step d s = some s' ∧ I ds s')
    (hs : I ds s) :
    (run step ds s).isSome = true := by
  induction ds generalizing s with
  | nil => rfl
  | cons d ds ih =>
      obtain ⟨s', hstep, hs'⟩ := h d ds s hs
      rw [run_cons, hstep, Option.bind_some]
      exact ih hs'

/-- Steps that no state refuses make a run that goes through. -/
theorem run_isSome
    {ds : List δ}
    (h : ∀ d ∈ ds, ∀ s, (step d s).isSome = true) (s : σ) :
    (run step ds s).isSome = true := by
  refine run_isSome_of_kept (I := fun es _ => ∀ d ∈ es, ∀ s, (step d s).isSome = true)
    (fun d es s hes => ?_) h
  obtain ⟨s', hs'⟩ := Option.isSome_iff_exists.mp (hes d List.mem_cons_self s)
  exact ⟨s', hs', fun e he => hes e (List.mem_cons_of_mem d he)⟩

/-- Two steps that show their order in the result. -/
def Differ (step : δ → σ → Option σ) (result : σ → β) (d e : δ) : Prop :=
  ∀ s, ∃ s₁ s₂, (step d s).bind (step e) = some s₁ ∧ (step e s).bind (step d) = some s₂ ∧
    result s₁ ≠ result s₂

/-- Where the order of two steps shows, the order of all steps shows. -/
theorem exists_perm_of_differ
    [DecidableEq δ] {result : σ → β} {ds : List δ} {d e : δ} {s : σ}
    (hd : d ∈ ds) (he : e ∈ ds) (hne : d ≠ e)
    (hrun : ∀ es : List δ, es.Sublist ds → (run step es s).isSome)
    (h : Differ step result d e) :
    ∃ es es', es.Perm ds ∧ es'.Perm ds ∧
      (run step es s).map result ≠ (run step es' s).map result := by
  have hmem : e ∈ ds.erase d := (List.mem_erase_of_ne hne.symm).mpr he
  obtain ⟨last, hlast⟩ := Option.isSome_iff_exists.mp
    (hrun ((ds.erase d).erase e) (List.erase_sublist.trans List.erase_sublist))
  obtain ⟨s₁, s₂, h₁, h₂, hresult⟩ := h last
  have hperm : ((ds.erase d).erase e ++ [d, e]).Perm ds := by
    have hpair := ((List.perm_cons_erase hmem).symm.cons d).trans (List.perm_cons_erase hd).symm
    exact List.perm_append_comm.trans hpair
  have hswap : ((ds.erase d).erase e ++ [e, d]).Perm ds :=
    (List.Perm.append_left _ (List.Perm.swap d e [])).trans hperm
  refine ⟨_, _, hperm, hswap, ?_⟩
  rw [run_append, run_append, hlast, Option.bind_some, Option.bind_some, run_pair, run_pair, h₁, h₂]
  simpa using hresult

/-! ### Fields -/

section Fields

variable {ι : Type} {V : ι → Type} (read : σ → (i : ι) → V i)

/-- The step is decided by one field, and changes no other. -/
def Touches (i : ι) (c : σ → Option σ) : Prop :=
  ∃ φ : V i → Option (V i), ∀ s,
    (φ (read s i) = none ∧ c s = none) ∨
      ∃ v s', φ (read s i) = some v ∧ c s = some s' ∧ read s' i = v ∧
        ∀ j, j ≠ i → read s' j = read s j

/-- The step is refused by every state or by none. -/
def Steady (c : σ → Option σ) : Prop :=
  (∀ s, c s = none) ∨ ∀ s, (c s).isSome = true

/-- A step that touches one field, and is refused by every state or by none. -/
structure Edits (i : ι) (c : σ → Option σ) : Prop where
  touches : Touches read i c
  steady : Steady c

variable {read} {i j : ι}

theorem edits_none : Edits read i fun _ => none where
  touches := ⟨fun _ => none, fun _ => .inl ⟨rfl, rfl⟩⟩
  steady := .inl fun _ => rfl

theorem edits_some
    {u : σ → σ} (φ : V i → V i)
    (hi : ∀ s, read (u s) i = φ (read s i)) (hj : ∀ s j, j ≠ i → read (u s) j = read s j) :
    Edits read i fun s => some (u s) where
  touches := ⟨fun v => some (φ v), fun s => .inr ⟨_, u s, rfl, rfl, hi s, hj s⟩⟩
  steady := .inr fun _ => rfl

/-- A step that edits one field leaves the others as they are. -/
theorem Edits.read_other
    {c : σ → Option σ} {s s' : σ}
    (h : Edits read i c) (hij : j ≠ i) (hc : c s = some s') :
    read s' j = read s j := by
  obtain ⟨φ, hφ⟩ := h.touches
  rcases hφ s with ⟨-, hnone⟩ | ⟨v, s₁, -, hsome, -, hother⟩
  · rw [hc] at hnone
    cases hnone
  · rw [hc] at hsome
    cases hsome
    exact hother j hij

/-- Steps that touch different fields commute. -/
theorem commute_of_touches
    {c c' : σ → Option σ}
    (hread : Function.Injective read) (hij : i ≠ j)
    (hc : Touches read i c) (hc' : Touches read j c') (s : σ) :
    (c s).bind c' = (c' s).bind c := by
  obtain ⟨φ, hφ⟩ := hc
  obtain ⟨ψ, hψ⟩ := hc'
  rcases hφ s with ⟨hnone, hcs⟩ | ⟨v, s₁, hv, hcs, hv₁, hother₁⟩
  · rw [hcs, Option.bind_none]
    rcases hψ s with ⟨-, hcs'⟩ | ⟨w, s₂, -, hcs', -, hother₂⟩
    · rw [hcs', Option.bind_none]
    · rw [hcs', Option.bind_some]
      rcases hφ s₂ with ⟨-, h⟩ | ⟨v, s₃, hv, -⟩
      · exact h.symm
      · rw [hother₂ i hij, hnone] at hv
        cases hv
  · rw [hcs, Option.bind_some]
    rcases hψ s with ⟨hnone, hcs'⟩ | ⟨w, s₂, hw, hcs', hw₂, hother₂⟩
    · rw [hcs', Option.bind_none]
      rcases hψ s₁ with ⟨-, h⟩ | ⟨w, s₃, hw, -⟩
      · exact h
      · rw [hother₁ j hij.symm, hnone] at hw
        cases hw
    · rw [hcs', Option.bind_some]
      rcases hψ s₁ with ⟨hnone, -⟩ | ⟨w', s₃, hw', hs₃, hw₃, hother₃⟩
      · rw [hother₁ j hij.symm, hw] at hnone
        cases hnone
      · rcases hφ s₂ with ⟨hnone, -⟩ | ⟨v', s₄, hv', hs₄, hv₄, hother₄⟩
        · rw [hother₂ i hij, hv] at hnone
          cases hnone
        · rw [hother₁ j hij.symm, hw, Option.some.injEq] at hw'
          rw [hother₂ i hij, hv, Option.some.injEq] at hv'
          rw [hs₃, hs₄, Option.some.injEq]
          apply hread
          funext k
          by_cases hki : k = i
          · subst hki
            rw [hother₃ k hij, hv₁, hv₄, hv']
          · by_cases hkj : k = j
            · subst hkj
              rw [hw₃, hother₄ k hki, hw₂, hw']
            · rw [hother₃ k hkj, hother₁ k hki, hother₄ k hki, hother₂ k hkj]

end Fields

end Updates
