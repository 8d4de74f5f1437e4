import Mathlib.Algebra.Ring.Nat
import Mathlib.Data.List.Sort

/-!
# Round robin over repeated slots

Every owner has as many slots as its weight, and a counter goes round the slots.  The
counter is cut off at a bound before it is reduced to a slot, so that a round in which it
starts over may pass slots over and come to others twice.

`perm_round_iff`: the turns of such a round are fair exactly if the bound is a multiple of
the number of slots or one owner has all slots that make the difference.
-/

namespace RoundRobin

variable {α : Type}

section Slots

variable {weight : α → Nat} {owners : List α}

/-- The slots, as many for each owner as its weight. -/
def slots (weight : α → Nat) (owners : List α) : List α :=
  owners.flatMap fun a => List.replicate (weight a) a

@[simp] theorem slots_nil : slots weight [] = [] := rfl

@[simp] theorem slots_cons
    (a : α) :
    slots weight (a :: owners) = List.replicate (weight a) a ++ slots weight owners :=
  List.flatMap_cons ..

@[simp] theorem length_slots :
    (slots weight owners).length = (owners.map weight).sum := by
  induction owners with
  | nil => rfl
  | cons a owners ih => simp [ih]

theorem mem_of_mem_slots
    {a : α}
    (h : a ∈ slots weight owners) :
    a ∈ owners := by
  obtain ⟨b, hb, hab⟩ := List.mem_flatMap.mp h
  rw [List.eq_of_mem_replicate hab]
  exact hb

theorem count_slots
    [DecidableEq α] {a : α}
    (hnodup : owners.Nodup) (ha : a ∈ owners) :
    (slots weight owners).count a = weight a := by
  induction owners with
  | nil => cases ha
  | cons b owners ih =>
      obtain ⟨hb, hnodup⟩ := List.nodup_cons.mp hnodup
      rw [slots_cons, List.count_append, List.count_replicate]
      rcases List.mem_cons.mp ha with rfl | ha
      · have hrest : (slots weight owners).count a = 0 :=
          List.count_eq_zero.mpr fun h => hb (mem_of_mem_slots h)
        simp [hrest]
      · have hne : b ≠ a := fun h => hb (h ▸ ha)
        simp [hne, ih hnodup ha]

/-- Owners in order have their slots in order. -/
theorem pairwise_slots
    [Preorder α]
    (h : owners.Pairwise (· < ·)) :
    (slots weight owners).Pairwise (· ≤ ·) := by
  induction owners with
  | nil => exact List.Pairwise.nil
  | cons a owners ih =>
      obtain ⟨ha, h⟩ := List.pairwise_cons.mp h
      rw [slots_cons]
      refine List.pairwise_append.mpr ⟨?_, ih h, ?_⟩
      · exact List.pairwise_replicate.mpr (Or.inr le_rfl)
      · intro b hb c hc
        rw [List.eq_of_mem_replicate hb]
        exact (ha c (mem_of_mem_slots hc)).le

end Slots

section Turns

variable (owner : Nat → α) (total bound : Nat)

/-- Whose turns come while the counter goes up from `start`; `owner` says whose a slot is. -/
def turns (start n : Nat) : List α :=
  (List.range' start n).map fun v => owner (v % bound % total)

/-- Every slot has its turn once. -/
def fairRound : List α :=
  (List.range total).map owner

variable {owner total bound}

theorem turns_append
    (start m n : Nat) :
    turns owner total bound start (m + n) =
      turns owner total bound start m ++ turns owner total bound (start + m) n := by
  unfold turns
  rw [← List.map_append, List.range'_append_1]

/-- Turns in which the counter is not cut off differently. -/
theorem turns_of_le
    {start n : Nat}
    (h : start % bound + n ≤ bound) :
    turns owner total bound start n =
      (List.range' (start % bound) n).map fun v => owner (v % total) := by
  unfold turns
  rw [List.range'_eq_map_range, List.range'_eq_map_range, List.map_map, List.map_map]
  refine List.map_congr_left fun k hk => ?_
  have hk := List.mem_range.mp hk
  have hlow : (start + k) % bound = start % bound + k := by
    rw [Nat.add_mod, Nat.mod_eq_of_lt (a := k) (by omega), Nat.mod_eq_of_lt (by omega)]
  simp [hlow]

/-- A run of numbers as long as the modulus has every remainder once. -/
theorem perm_range_mod
    (start total : Nat) :
    ((List.range' start total).map (· % total)).Perm (List.range total) := by
  induction start with
  | zero =>
      refine List.Perm.of_eq ?_
      rw [← List.range_eq_range']
      conv_rhs => rw [← List.map_id (List.range total)]
      exact List.map_congr_left fun v hv => Nat.mod_eq_of_lt (List.mem_range.mp hv)
  | succ start ih =>
      cases total with
      | zero => simp
      | succ n =>
          -- the first number leaves and one with the same remainder comes in at the end
          refine List.Perm.trans ?_ ih
          rw [List.range'_concat, List.range'_succ, List.map_append, List.map_cons]
          have hlast : (start + 1 + 1 * n) % (n + 1) = start % (n + 1) := by
            rw [show start + 1 + 1 * n = start + (n + 1) by omega, Nat.add_mod_right]
          simp only [List.map_cons, List.map_nil, hlast]
          exact List.perm_append_singleton ..

/-- The turns of a round in which the counter starts over. -/
theorem turns_over_restart
    {start left : Nat}
    (hleft : start % bound + left = bound) (hn : left ≤ total) (hbound : total ≤ bound) :
    turns owner total bound start total =
      (List.range' (start % bound) left).map (fun v => owner (v % total)) ++
        (List.range (total - left)).map fun v => owner (v % total) := by
  have hrestart : (start + left) % bound = 0 := by
    rw [Nat.add_mod, Nat.add_mod_mod, hleft, Nat.mod_self]
  have hsplit : turns owner total bound start (left + (total - left)) =
      turns owner total bound start left ++
        turns owner total bound (start + left) (total - left) :=
    turns_append start left (total - left)
  rw [Nat.add_sub_cancel' hn] at hsplit
  rw [hsplit, turns_of_le (by omega), turns_of_le (by omega), hrestart, List.range_eq_range']

/-- Such a round is fair if the turns before the restart go to the slots that follow it. -/
theorem perm_over_restart_iff
    {start left : Nat}
    (hleft : start % bound + left = bound) (hn : left ≤ total) (hbound : total ≤ bound) :
    (turns owner total bound start total).Perm (fairRound owner total) ↔
      ((List.range' (start % bound) left).map fun v => owner (v % total)).Perm
        ((List.range' (total - left) left).map owner) := by
  have hrange : List.range total =
      List.range (total - left) ++ List.range' (total - left) left := by
    have h := List.range'_append_1 (s := 0) (m := total - left) (n := left)
    rw [Nat.zero_add, Nat.sub_add_cancel hn] at h
    rw [List.range_eq_range', List.range_eq_range', h]
  have hbehind : (List.range (total - left)).map (fun v => owner (v % total)) =
      (List.range (total - left)).map owner := by
    refine List.map_congr_left fun v hv => ?_
    have hv := List.mem_range.mp hv
    rw [Nat.mod_eq_of_lt (by omega)]
  unfold fairRound
  rw [turns_over_restart hleft hn hbound, hrange, List.map_append, hbehind]
  constructor
  · intro h
    exact (List.perm_append_left_iff _).mp (List.perm_append_comm.trans h)
  · intro h
    exact List.perm_append_comm.trans ((List.perm_append_left_iff _).mpr h)

/-- Numbers between two multiples of the modulus and their remainders. -/
theorem map_range'_mod
    {q r n : Nat}
    (h : r + n ≤ total) :
    (List.range' (q * total + r) n).map (fun v => owner (v % total)) =
      (List.range' r n).map owner := by
  rw [List.range'_eq_map_range, List.range'_eq_map_range, List.map_map, List.map_map]
  refine List.map_congr_left fun k hk => ?_
  have hk := List.mem_range.mp hk
  have hmod : (q * total + r + k) % total = r + k := by
    rw [Nat.add_assoc, Nat.mul_comm, Nat.mul_add_mod, Nat.mod_eq_of_lt (by omega)]
  simp [hmod]

/-- More turns than `w` fall into the first `w` slots while the counter goes round once. -/
theorem lt_countP_of_bound
    {start n w : Nat}
    (hw : 0 < w) (hwb : w < bound) (htotal : 0 < total) (hbound : total < bound)
    (hn : bound ≤ n) :
    w < (List.range' start n).countP fun v => v % bound % total < w := by
  have hround : (List.range' start bound).countP (fun v => v % bound % total < w) =
      (List.range bound).countP fun v => v % total < w := by
    rw [← (perm_range_mod start bound).countP_eq, List.countP_map]
    rfl
  have hpart : (List.range' start bound).countP (fun v => v % bound % total < w) ≤
      (List.range' start n).countP fun v => v % bound % total < w := by
    rw [show n = bound + (n - bound) by omega, ← List.range'_append_1, List.countP_append]
    exact Nat.le_add_right ..
  refine Nat.lt_of_lt_of_le ?_ hpart
  rw [hround]
  by_cases hall : total ≤ w
  · have hevery : (List.range bound).countP (fun v => v % total < w) = bound := by
      have := List.countP_eq_length (p := fun v => decide (v % total < w))
        (l := List.range bound)
      rw [this.mpr, List.length_range]
      intro v _
      exact decide_eq_true (Nat.lt_of_lt_of_le (Nat.mod_lt _ htotal) hall)
    omega
  · -- the slots below `w`, and slot 0 once more when the slots are through
    rw [show bound = w + (bound - w) by omega, List.range_add, List.countP_append]
    have hfirst : (List.range w).countP (fun v => v % total < w) = w := by
      have := List.countP_eq_length (p := fun v => decide (v % total < w)) (l := List.range w)
      rw [this.mpr, List.length_range]
      intro v hv
      have hv := List.mem_range.mp hv
      rw [Nat.mod_eq_of_lt (by omega)]
      exact decide_eq_true hv
    have hagain : 0 < ((List.range (bound - w)).map (w + ·)).countP
        fun v => v % total < w := by
      refine List.countP_pos_iff.mpr ⟨total, ?_, ?_⟩
      · exact List.mem_map.mpr ⟨total - w, List.mem_range.mpr (by omega), by omega⟩
      · rw [Nat.mod_self]
        exact decide_eq_true hw
    omega

theorem perm_round_of_le
    {start : Nat}
    (h : start % bound + total ≤ bound) :
    (turns owner total bound start total).Perm (fairRound owner total) := by
  rw [turns_of_le h]
  have := (perm_range_mod (start % bound) total).map owner
  rwa [List.map_map] at this

/-- The owner of all slots from `a` to `b`. -/
def OneOwner (owner : Nat → α) (a b : Nat) : Prop :=
  ∀ s, a ≤ s → s < b → owner s = owner a

section Order

variable [PartialOrder α]

/-- Slots in order that agree with the slots a distance behind them are all one owner's. -/
theorem oneOwner_of_shift
    {a d n : Nat}
    (hn : 0 < n) (hd : 0 < d)
    (hmono : ∀ s t, s ≤ t → t < a + d + n → owner s ≤ owner t)
    (h : ∀ j < n, owner (a + j) = owner (a + d + j)) :
    OneOwner owner a (a + d + n) := by
  have hfirst : ∀ j, j ≤ n → owner (a + j) = owner a := by
    intro j
    induction j with
    | zero =>
        intro _
        rfl
    | succ j ih =>
        intro hj
        rw [← ih (by omega)]
        apply le_antisymm
        · rw [h j (by omega)]
          exact hmono _ _ (by omega) (by omega)
        · exact hmono _ _ (by omega) (by omega)
  have hlast : owner (a + d + (n - 1)) = owner a := by
    rw [← h (n - 1) (by omega)]
    exact hfirst (n - 1) (by omega)
  intro s has hs
  apply le_antisymm
  · rw [← hlast]
    exact hmono _ _ (by omega) (by omega)
  · exact hmono _ _ has (by omega)

theorem perm_shift_iff
    {a d n : Nat}
    (hn : 0 < n) (hd : 0 < d)
    (hmono : ∀ s t, s ≤ t → t < a + d + n → owner s ≤ owner t) :
    ((List.range' a n).map owner).Perm ((List.range' (a + d) n).map owner) ↔
      OneOwner owner a (a + d + n) := by
  constructor
  · intro h
    have hsorted : ∀ b, b + n ≤ a + d + n →
        ((List.range' b n).map owner).Pairwise (· ≤ ·) := by
      intro b hb
      refine List.pairwise_map.mpr ?_
      refine List.Pairwise.imp_of_mem ?_ (List.pairwise_lt_range' (s := b) (n := n))
      intro s t _ ht hst
      have := (List.mem_range'_1.mp ht).2
      exact hmono s t hst.le (by omega)
    have heq := h.eq_of_pairwise (fun x y _ _ => le_antisymm) (hsorted a (by omega))
      (hsorted (a + d) (by omega))
    refine oneOwner_of_shift hn hd hmono fun j hj => ?_
    have hj' := congrArg (fun l => l[j]?) heq
    simpa [hj] using hj'
  · intro h
    refine List.Perm.of_eq ?_
    rw [List.range'_eq_map_range, List.range'_eq_map_range, List.map_map, List.map_map]
    refine List.map_congr_left fun j hj => ?_
    have hj := List.mem_range.mp hj
    exact (h (a + j) (by omega) (by omega)).trans (h (a + d + j) (by omega) (by omega)).symm

/--
A round of turns from `start` is fair exactly if the bound is a multiple of the number of
slots, the counter does not start over in it, or one owner has the slots between those
that come twice and those that are passed over.
-/
theorem perm_round_iff
    {start : Nat}
    (htotal : 0 < total) (hbound : total ≤ bound)
    (hmono : ∀ s t, s ≤ t → t < total → owner s ≤ owner t) :
    (turns owner total bound start total).Perm (fairRound owner total) ↔
      total ∣ bound ∨ start % bound + total ≤ bound ∨
        OneOwner owner (bound % total - min (bound - start % bound) (bound % total))
          (bound % total + total - max (bound - start % bound) (bound % total)) := by
  by_cases hlow : start % bound + total ≤ bound
  · exact ⟨fun _ => Or.inr (Or.inl hlow), fun _ => perm_round_of_le hlow⟩
  have hlast := Nat.mod_lt start (Nat.lt_of_lt_of_le htotal hbound)
  obtain ⟨left, hleft⟩ : ∃ left, bound - start % bound = left := ⟨_, rfl⟩
  rw [perm_over_restart_iff (show start % bound + left = bound by omega) (by omega) hbound,
    hleft, show start % bound = bound - left by omega]
  have hrest := Nat.mod_lt bound htotal
  have hquot := Nat.div_pos hbound htotal
  have hwhole : bound / total * total + bound % total = bound := Nat.div_add_mod' bound total
  have hdvd : total ∣ bound ↔ bound % total = 0 := Nat.dvd_iff_mod_eq_zero
  rw [hdvd]
  generalize bound % total = rest at hrest hwhole ⊢
  by_cases hmax : left ≤ rest
  · -- the slots that come twice lie in front of the rest of the bound
    have hslots : (List.range' (bound - left) left).map (fun v => owner (v % total)) =
        (List.range' (rest - left) left).map owner := by
      rw [show bound - left = bound / total * total + (rest - left) by omega]
      exact map_range'_mod (by omega)
    have hshift :
        ((List.range' (rest - left) left).map owner).Perm
            ((List.range' (rest - left + (total - rest)) left).map owner) ↔
          OneOwner owner (rest - left) (rest - left + (total - rest) + left) :=
      perm_shift_iff (by omega) (by omega) fun s t hst ht => hmono s t hst (by omega)
    rw [show rest - left + (total - rest) = total - left by omega] at hshift
    rw [hslots, hshift, Nat.min_eq_left hmax, Nat.max_eq_right hmax,
      show total - left + left = rest + total - rest by omega]
    refine ⟨fun h => Or.inr (Or.inr h), ?_⟩
    rintro (h | h | h)
    · omega
    · omega
    · exact h
  · -- the slots that come twice are the last ones and the first ones
    have hslots : (List.range' (bound - left) left).map (fun v => owner (v % total)) =
        (List.range' (total - left + rest) (left - rest)).map owner ++
          (List.range' 0 rest).map owner := by
      have hback : bound - left = (bound / total - 1) * total + (total - left + rest) := by
        have : (bound / total - 1) * total + total = bound / total * total := by
          rw [← Nat.succ_mul, Nat.succ_eq_add_one, Nat.sub_add_cancel hquot]
        omega
      have hfront : bound - left + (left - rest) = bound / total * total + 0 := by
        omega
      conv_lhs => rw [show left = left - rest + rest by omega]
      rw [← List.range'_append_1, List.map_append, Nat.sub_add_cancel (by omega), hfront, hback,
        map_range'_mod (by omega), map_range'_mod (by omega)]
    have htarget : List.range' (total - left) left =
        List.range' (total - left) rest ++ List.range' (total - left + rest) (left - rest) := by
      rw [List.range'_append_1, Nat.add_sub_cancel' (by omega)]
    have hcancel : ((List.range' (bound - left) left).map fun v => owner (v % total)).Perm
          ((List.range' (total - left) left).map owner) ↔
        ((List.range' 0 rest).map owner).Perm ((List.range' (total - left) rest).map owner) := by
      rw [hslots, htarget, List.map_append]
      constructor
      · intro h
        exact (List.perm_append_left_iff _).mp (h.trans List.perm_append_comm)
      · intro h
        exact ((List.perm_append_left_iff _).mpr h).trans List.perm_append_comm
    rw [hcancel, Nat.min_eq_right (by omega), Nat.max_eq_left (by omega), Nat.sub_self]
    cases rest with
    | zero => simp
    | succ rest =>
        have hshift :
            ((List.range' 0 (rest + 1)).map owner).Perm
                ((List.range' (0 + (total - left)) (rest + 1)).map owner) ↔
              OneOwner owner 0 (0 + (total - left) + (rest + 1)) :=
          perm_shift_iff (by omega) (by omega) fun s t hst ht => hmono s t hst (by omega)
        rw [show 0 + (total - left) = total - left by omega] at hshift
        rw [hshift, show total - left + (rest + 1) = rest + 1 + total - left by omega]
        refine ⟨fun h => Or.inr (Or.inr h), ?_⟩
        rintro (h | h | h)
        · cases h
        · omega
        · exact h

end Order

end Turns

end RoundRobin
