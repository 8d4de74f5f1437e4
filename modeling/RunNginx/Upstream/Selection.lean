import RunNginx.Lib.RoundRobin
import RunNginx.Upstream

/-!
# The peer a connect chooses

`attempts_iff`: a connect tries a peer, and one that is up where there is one, exactly if
some peer is up; a group whose peers are all down is not tried at all.

`fair_iff`: when a round-robin group gives out as many connections as its peers weigh
together, each peer gets as many as it weighs exactly if the counter, of which the low 32
bits are used, does not start over at a bad place and the weights do not overflow.
-/

namespace RunNginx
namespace Upstream

open RoundRobin

/-- What a connect finds when it chooses a peer. -/
structure Reading where
  nowSecs : Nat
  clientIp : Option IpAddr
  view : View

/-- The peer is marked down. -/
def Reading.IsDown (r : Reading) (i : Nat) : Prop :=
  r.nowSecs < r.view.downUntil i

instance (r : Reading) (i : Nat) : Decidable (r.IsDown i) :=
  inferInstanceAs (Decidable (r.nowSecs < r.view.downUntil i))

namespace UpstreamGroup

/-- The peers that are up, in the order of the configuration. -/
def available (r : Reading) (g : UpstreamGroup) : List Nat :=
  (List.range g.peers.length).filter fun i => r.view.downUntil i ≤ r.nowSecs

/-- The peer that a connect chooses, and the group after that. -/
def choose (r : Reading) (g : UpstreamGroup) : Option (Nat × UpstreamGroup) :=
  g.pick r.nowSecs r.clientIp r.view

/-- The peers that connects choose one after the other. -/
def selections : UpstreamGroup → List Reading → List Nat
  | _, [] => []
  | g, r :: rs =>
      match g.choose r with
      | some (i, g) => i :: selections g rs
      | none => selections g rs

end UpstreamGroup

variable {g : UpstreamGroup} {r : Reading} {is : List Nat}

theorem mem_available_iff
    {i : Nat} :
    i ∈ g.available r ↔ i < g.peers.length ∧ ¬ r.IsDown i := by
  simp [UpstreamGroup.available, Reading.IsDown]

section Attempts

theorem choose_eq_none
    (h : g.available r = []) :
    g.choose r = none := by
  unfold UpstreamGroup.available at h
  unfold UpstreamGroup.choose UpstreamGroup.pick
  rw [h]

/-- Where a peer is up, a connect chooses one that is. -/
theorem choose_available
    (h : g.available r ≠ []) :
    ∃ i group, g.choose r = some (i, group) ∧ i ∈ g.available r := by
  unfold UpstreamGroup.choose UpstreamGroup.pick
  unfold UpstreamGroup.available at h ⊢
  split
  · rename_i hnone
    exact absurd hnone h
  rename_i first rest havailable
  rw [havailable]
  dsimp only
  split
  · refine ⟨_, _, rfl, ?_⟩
    rcases System.selectSlot_mem (first :: rest) with h | h
    · rw [h]
      exact List.mem_cons_self
    · exact h
  · exact ⟨_, _, rfl, System.leastLoaded_mem _ _⟩
  · exact ⟨_, _, rfl, System.getD_mem List.mem_cons_self⟩
  · exact ⟨_, _, rfl, System.getD_mem List.mem_cons_self⟩

/--
A connect tries a peer of the group, and not one that is down while another is up, exactly
if some peer is up.
-/
theorem attempts_iff
    (g : UpstreamGroup) (r : Reading) :
    (∃ i group, g.choose r = some (i, group) ∧ i < g.peers.length ∧
        (r.IsDown i → ∀ j < g.peers.length, r.IsDown j)) ↔
      ∃ j < g.peers.length, ¬ r.IsDown j := by
  constructor
  · rintro ⟨i, group, hchoose, -⟩
    have hsome : g.available r ≠ [] := by
      intro hnone
      rw [choose_eq_none hnone] at hchoose
      cases hchoose
    obtain ⟨j, hj⟩ := List.exists_mem_of_ne_nil _ hsome
    exact ⟨j, mem_available_iff.mp hj⟩
  · rintro ⟨j, hj⟩
    obtain ⟨i, group, hchoose, hi⟩ :=
      choose_available (List.ne_nil_of_mem (mem_available_iff.mpr hj))
    obtain ⟨hlt, hup⟩ := mem_available_iff.mp hi
    exact ⟨i, group, hchoose, hlt, fun hdown => absurd hdown hup⟩

/-- A reading in which every peer is down for 30 seconds. -/
def outage : Reading :=
  ⟨100, none, ⟨fun _ => 130, fun _ => 0⟩⟩

/-- In an outage of both its peers a group is not tried. -/
theorem outage_not_tried :
    let group := UpstreamGroup.new (System.groupOf [System.peerAt 8001, System.peerAt 8002])
    (∀ j < group.peers.length, outage.IsDown j) ∧ group.choose outage = none ∧
      ¬ ∃ i group', group.choose outage = some (i, group') ∧ i < group.peers.length ∧
        (outage.IsDown i → ∀ j < group.peers.length, outage.IsDown j) := by
  refine ⟨by decide, by decide, ?_⟩
  rintro ⟨i, group', h, -⟩
  cases h

end Attempts

section Slots

variable {weightOf : Nat → UInt32}

/-- The true sum of the weights. -/
def trueTotal (weightOf : Nat → UInt32) (is : List Nat) : Nat :=
  (is.map fun i => (weightOf i).toNat).sum

/-- The repeated slots of the peers. -/
def peerSlots (weightOf : Nat → UInt32) (is : List Nat) : List Nat :=
  slots (fun i => (weightOf i).toNat) is

/-- The peer that has a slot. -/
def ownerOf (weightOf : Nat → UInt32) (is : List Nat) (slot : Nat) : Nat :=
  (peerSlots weightOf is).getD slot 0

@[simp] theorem length_peerSlots :
    (peerSlots weightOf is).length = trueTotal weightOf is :=
  length_slots

theorem toNat_sum
    (is : List Nat) :
    (is.map weightOf).sum.toNat = trueTotal weightOf is % 2 ^ 32 := by
  unfold trueTotal
  induction is with
  | nil => rfl
  | cons i is ih =>
      rw [List.map_cons, List.sum_cons, List.map_cons, List.sum_cons, UInt32.toNat_add, ih,
        Nat.add_mod_mod]

/-- The search for a slot finds the peer that has it, if no sum of weights overflows. -/
theorem selectSlot_eq
    {slot cum : UInt32} {selected : Nat}
    (hfits : cum.toNat + trueTotal weightOf is < 2 ^ 32)
    (hfrom : cum.toNat ≤ slot.toNat) (hto : slot.toNat < cum.toNat + trueTotal weightOf is) :
    (peerSlots weightOf is)[slot.toNat - cum.toNat]? =
      some (UpstreamGroup.selectSlot weightOf slot selected cum is) := by
  induction is generalizing cum with
  | nil =>
      have : trueTotal weightOf [] = 0 := rfl
      omega
  | cons i is ih =>
      have htotal : trueTotal weightOf (i :: is) =
          (weightOf i).toNat + trueTotal weightOf is :=
        List.sum_cons
      have hslots : peerSlots weightOf (i :: is) =
          List.replicate (weightOf i).toNat i ++ peerSlots weightOf is :=
        slots_cons i
      have hcum : (cum + weightOf i).toNat = cum.toNat + (weightOf i).toNat := by
        rw [UInt32.toNat_add]
        exact Nat.mod_eq_of_lt (by omega)
      unfold UpstreamGroup.selectSlot
      rw [hslots]
      by_cases hhere : slot < cum + weightOf i
      · have hlt := UInt32.lt_iff_toNat_lt.mp hhere
        rw [if_pos hhere, List.getElem?_append_left (by simp; omega),
          List.getElem?_replicate_of_lt (by omega)]
      · have hge : ¬ slot.toNat < (cum + weightOf i).toNat :=
          fun h => hhere (UInt32.lt_iff_toNat_lt.mpr h)
        rw [if_neg hhere, List.getElem?_append_right (by simp; omega), List.length_replicate,
          ← ih (by omega) (by omega) (by omega), hcum, Nat.sub_add_eq]

/-- The first peer with a weight has the first slots, whatever the later weights sum up to. -/
theorem selectSlot_first
    {slot : UInt32} {zeros rest : List Nat} {i selected : Nat}
    (hzeros : ∀ j ∈ zeros, weightOf j = 0) (hslot : slot < weightOf i) :
    UpstreamGroup.selectSlot weightOf slot selected 0 (zeros ++ i :: rest) = i := by
  induction zeros with
  | nil =>
      rw [List.nil_append, UpstreamGroup.selectSlot, UInt32.zero_add, if_pos hslot]
  | cons j zeros ih =>
      obtain ⟨hj, hzeros⟩ := List.forall_mem_cons.mp hzeros
      have hnot : ¬ slot < (0 : UInt32) := UInt32.not_lt_zero
      rw [List.cons_append, UpstreamGroup.selectSlot, hj, UInt32.zero_add, if_neg hnot]
      exact ih hzeros

theorem exists_first_weight
    (h : ∃ i ∈ is, weightOf i ≠ 0) :
    ∃ zeros i rest, is = zeros ++ i :: rest ∧ (∀ j ∈ zeros, weightOf j = 0) ∧
      weightOf i ≠ 0 := by
  induction is with
  | nil =>
      obtain ⟨i, hi, _⟩ := h
      cases hi
  | cons i is ih =>
      by_cases hi : weightOf i = 0
      · have hlater : ∃ j ∈ is, weightOf j ≠ 0 := by
          obtain ⟨j, hj, hweight⟩ := h
          rcases List.mem_cons.mp hj with rfl | hj
          · exact absurd hi hweight
          · exact ⟨j, hj, hweight⟩
        obtain ⟨zeros, j, rest, rfl, hzeros, hj⟩ := ih hlater
        refine ⟨i :: zeros, j, rest, rfl, ?_, hj⟩
        exact List.forall_mem_cons.mpr ⟨hi, hzeros⟩
      · exact ⟨[], i, is, rfl, by simp, hi⟩

theorem toNat_pos
    {n : UInt32} (h : n ≠ 0) :
    0 < n.toNat :=
  Nat.pos_of_ne_zero fun hzero => h (UInt32.toNat_inj.mp hzero)

theorem trueTotal_pos
    (h : ∃ i ∈ is, weightOf i ≠ 0) :
    0 < trueTotal weightOf is := by
  obtain ⟨zeros, i, rest, rfl, _, hi⟩ := exists_first_weight h
  have := toNat_pos hi
  unfold trueTotal
  rw [List.map_append, List.sum_append, List.map_cons, List.sum_cons]
  omega

end Slots

section Fairness

/-- The peer that the counter value `v` selects. -/
def peerAtCount (weightOf : Nat → UInt32) (is : List Nat) (v : Nat) : Nat :=
  UpstreamGroup.selectSlot weightOf (UInt32.ofNat v % max (is.map weightOf).sum 1)
    (is.headD 0) 0 is

theorem choose_roundRobin
    (hpolicy : g.policy = .roundRobin) (hup : g.available r = is) (his : is ≠ [])
    {v : Nat} (hv : g.rrCounter.toUInt32 = UInt32.ofNat v) :
    g.choose r =
      some (peerAtCount g.weightOf is v, { g with rrCounter := g.rrCounter + 1 }) := by
  unfold UpstreamGroup.available at hup
  unfold UpstreamGroup.choose UpstreamGroup.pick
  rw [hup]
  cases is with
  | nil => exact absurd rfl his
  | cons first rest =>
      dsimp only
      rw [hpolicy, hv]
      rfl

/-- The peers selected while the counter goes up. -/
theorem selections_eq
    {rs : List Reading} {v : Nat}
    (hpolicy : g.policy = .roundRobin) (hup : ∀ r ∈ rs, g.available r = is) (his : is ≠ [])
    (hv : g.rrCounter.toUInt32 = UInt32.ofNat v) :
    g.selections rs = (List.range' v rs.length).map (peerAtCount g.weightOf is) := by
  induction rs generalizing g v with
  | nil => rfl
  | cons r rs ih =>
      obtain ⟨hr, hup⟩ := List.forall_mem_cons.mp hup
      have hnext : (g.rrCounter + 1).toUInt32 = UInt32.ofNat (v + 1) := by
        rw [UInt64.toUInt32_add, hv, UInt32.ofNat_add]
        rfl
      have hrest := ih (g := { g with rrCounter := g.rrCounter + 1 }) hpolicy hup hnext
      unfold UpstreamGroup.selections
      rw [choose_roundRobin hpolicy hr his hv]
      dsimp only
      rw [hrest, List.length_cons, List.range'_succ, List.map_cons]
      rfl

theorem toNat_max_one
    (n : UInt32) :
    (max n 1).toNat = max n.toNat 1 := by
  have hmax : max n 1 = if n ≤ 1 then 1 else n := rfl
  rw [hmax]
  split
  · rename_i h
    exact (max_eq_right (UInt32.le_iff_toNat_le.mp h)).symm
  · rename_i h
    have hlt : ¬ n.toNat ≤ 1 := fun hn => h (UInt32.le_iff_toNat_le.mpr hn)
    omega

/-- The slot that a counter value is reduced to. -/
theorem toNat_slot
    (v : Nat) (total : UInt32) :
    (UInt32.ofNat v % max total 1).toNat = v % 2 ^ 32 % max total.toNat 1 := by
  rw [UInt32.toNat_mod, UInt32.toNat_ofNat', toNat_max_one]

theorem peerAtCount_eq
    {weightOf : Nat → UInt32}
    (hpos : 0 < trueTotal weightOf is) (hfits : trueTotal weightOf is < 2 ^ 32) (v : Nat) :
    peerAtCount weightOf is v = ownerOf weightOf is (v % 2 ^ 32 % trueTotal weightOf is) := by
  have hslot : (UInt32.ofNat v % max (is.map weightOf).sum 1).toNat =
      v % 2 ^ 32 % trueTotal weightOf is := by
    rw [toNat_slot, toNat_sum, Nat.mod_eq_of_lt hfits, max_eq_left hpos]
  have hlt := Nat.mod_lt (v % 2 ^ 32) hpos
  have hcum : (0 : UInt32).toNat = 0 := rfl
  have hcum : (0 : UInt32).toNat = 0 := rfl
  have h : (peerSlots weightOf is)[
      (UInt32.ofNat v % max (is.map weightOf).sum 1).toNat - (0 : UInt32).toNat]? =
        some (peerAtCount weightOf is v) :=
    selectSlot_eq (by omega) (by omega) (by omega)
  rw [hcum, Nat.sub_zero, hslot] at h
  unfold ownerOf
  rw [List.getD_eq_getElem?_getD, h, Option.getD_some]

theorem ownerOf_eq
    {weightOf : Nat → UInt32} {s : Nat}
    (hs : s < (peerSlots weightOf is).length) :
    ownerOf weightOf is s = (peerSlots weightOf is)[s] := by
  unfold ownerOf
  rw [List.getD_eq_getElem?_getD, List.getElem?_eq_getElem hs, Option.getD_some]

/-- The peers come up in the order of their slots. -/
theorem ownerOf_mono
    {weightOf : Nat → UInt32} {s t : Nat}
    (his : is.Pairwise (· < ·)) (hst : s ≤ t) (ht : t < trueTotal weightOf is) :
    ownerOf weightOf is s ≤ ownerOf weightOf is t := by
  have hsorted : (peerSlots weightOf is).Pairwise (· ≤ ·) := pairwise_slots his
  have hlen : (peerSlots weightOf is).length = trueTotal weightOf is := length_peerSlots
  rw [ownerOf_eq (by omega), ownerOf_eq (by omega)]
  rcases Nat.lt_or_eq_of_le hst with hlt | rfl
  · exact List.pairwise_iff_getElem.mp hsorted s t _ _ hlt
  · exact le_rfl

theorem round_ownerOf
    (weightOf : Nat → UInt32) (is : List Nat) :
    fairRound (ownerOf weightOf is) (trueTotal weightOf is) = peerSlots weightOf is := by
  refine List.ext_getElem (by simp [fairRound]) fun s _ hs => ?_
  simp [fairRound, ownerOf_eq hs]

/--
A round of selections is fair: the weights sum up to less than the counter can tell apart,
and the low half of the counter does not start over in the round, unless this does no
harm: its range is a multiple of the sum, or one peer has the slots between those that
come twice and those that are passed over.
-/
structure FairFrom (counter : UInt64) (weightOf : Nat → UInt32) (is : List Nat) : Prop where
  fits : trueTotal weightOf is < 2 ^ 32
  unbroken : trueTotal weightOf is ∣ 2 ^ 32 ∨
    counter.toNat % 2 ^ 32 + trueTotal weightOf is ≤ 2 ^ 32 ∨
    OneOwner (ownerOf weightOf is)
      (2 ^ 32 % trueTotal weightOf is -
        min (2 ^ 32 - counter.toNat % 2 ^ 32) (2 ^ 32 % trueTotal weightOf is))
      (2 ^ 32 % trueTotal weightOf is + trueTotal weightOf is -
        max (2 ^ 32 - counter.toNat % 2 ^ 32) (2 ^ 32 % trueTotal weightOf is))

theorem count_peerSlots
    {weightOf : Nat → UInt32} {i : Nat}
    (hnodup : is.Nodup) (hi : i ∈ is) :
    (peerSlots weightOf is).count i = (weightOf i).toNat :=
  count_slots hnodup hi

/-- Peers that get as many turns as they have slots, and no other peer, share the slots. -/
theorem count_iff_perm
    {weightOf : Nat → UInt32} {chosen : List Nat}
    (hnodup : is.Nodup) (hchosen : ∀ i ∈ chosen, i ∈ is) :
    (∀ i ∈ is, chosen.count i = (weightOf i).toNat) ↔ chosen.Perm (peerSlots weightOf is) := by
  rw [List.perm_iff_count]
  constructor
  · intro h i
    by_cases hi : i ∈ is
    · rw [h i hi, count_peerSlots hnodup hi]
    · rw [List.count_eq_zero.mpr fun hmem => hi (hchosen i hmem)]
      exact (List.count_eq_zero.mpr fun hmem => hi (mem_of_mem_slots hmem)).symm
  · intro h i hi
    rw [h i, count_peerSlots hnodup hi]

/-- A round of all counters favours the first peer that has a weight. -/
theorem lt_count_of_wrap
    {weightOf : Nat → UInt32} {counter n : Nat}
    (hweights : ∃ i ∈ is, weightOf i ≠ 0) (hn : 2 ^ 32 ≤ n) :
    ∃ i ∈ is,
      (weightOf i).toNat < ((List.range' counter n).map (peerAtCount weightOf is)).count i := by
  obtain ⟨zeros, i, rest, his, hzeros, hi⟩ := exists_first_weight hweights
  refine ⟨i, by rw [his]; simp, ?_⟩
  have hpos := toNat_pos hi
  have hsum : (is.map weightOf).sum.toNat < 2 ^ 32 := UInt32.toNat_lt _
  have hlow : (weightOf i).toNat < (List.range' counter n).countP fun v =>
      v % 2 ^ 32 % max (is.map weightOf).sum.toNat 1 < (weightOf i).toNat :=
    lt_countP_of_bound hpos (UInt32.toNat_lt _) (by omega) (by omega) hn
  refine Nat.lt_of_lt_of_le hlow ?_
  rw [List.count, List.countP_map]
  refine List.countP_mono_left fun v _ hv => ?_
  have hslot : UInt32.ofNat v % max (is.map weightOf).sum 1 < weightOf i := by
    rw [UInt32.lt_iff_toNat_lt, toNat_slot]
    exact of_decide_eq_true hv
  have hfirst : peerAtCount weightOf is v = i := by
    unfold peerAtCount
    generalize UInt32.ofNat v % max (is.map weightOf).sum 1 = slot at hslot
    generalize is.headD 0 = selected
    rw [his]
    exact selectSlot_first hzeros hslot
  exact beq_iff_eq.mpr hfirst

/--
Among as many selections as the peers weigh together, each peer is selected as often as it
weighs exactly if the round is fair from where the counter stands.
-/
theorem fair_iff
    {rs : List Reading}
    (hpolicy : g.policy = .roundRobin) (hup : ∀ r ∈ rs, g.available r = is)
    (hweights : ∃ i ∈ is, g.weightOf i ≠ 0) (hlen : rs.length = trueTotal g.weightOf is) :
    (∀ i ∈ is, (g.selections rs).count i = (g.weightOf i).toNat) ↔
      FairFrom g.rrCounter g.weightOf is := by
  have his : is ≠ [] := by
    obtain ⟨i, hi, _⟩ := hweights
    exact List.ne_nil_of_mem hi
  rw [selections_eq hpolicy hup his (UInt32.ofNat_uInt64ToNat _).symm, hlen]
  by_cases hover : 2 ^ 32 ≤ trueTotal g.weightOf is
  · constructor
    · intro h
      obtain ⟨i, hi, hlt⟩ := lt_count_of_wrap hweights hover
      exact absurd (h i hi) (Nat.ne_of_gt hlt)
    · intro h
      have := h.fits
      omega
  have hpos := trueTotal_pos hweights
  have hordered : is.Pairwise (· < ·) := by
    cases rs with
    | nil => exact absurd hlen hpos.ne
    | cons r rs =>
        rw [← hup r List.mem_cons_self]
        exact List.Pairwise.filter _ List.pairwise_lt_range
  have hmono : ∀ s t, s ≤ t → t < trueTotal g.weightOf is →
      ownerOf g.weightOf is s ≤ ownerOf g.weightOf is t :=
    fun _ _ => ownerOf_mono hordered
  have hturns : (List.range' g.rrCounter.toNat (trueTotal g.weightOf is)).map
      (peerAtCount g.weightOf is) =
        turns (ownerOf g.weightOf is) (trueTotal g.weightOf is) (2 ^ 32) g.rrCounter.toNat
          (trueTotal g.weightOf is) := by
    unfold turns
    exact List.map_congr_left fun v _ => peerAtCount_eq hpos (by omega) v
  have hmem : ∀ i ∈ (List.range' g.rrCounter.toNat (trueTotal g.weightOf is)).map
      (peerAtCount g.weightOf is), i ∈ is := by
    intro i hi
    obtain ⟨v, _, rfl⟩ := List.mem_map.mp hi
    rw [peerAtCount_eq hpos (by omega), ownerOf_eq (by
      rw [length_peerSlots]
      exact Nat.mod_lt _ hpos)]
    exact mem_of_mem_slots (List.getElem_mem _)
  rw [count_iff_perm hordered.nodup hmem, hturns, ← round_ownerOf,
    perm_round_iff hpos (by omega) hmono]
  exact ⟨fun h => ⟨by omega, h⟩, fun h => h.unbroken⟩

/-- A reading in which every peer is up. -/
def allUp : Reading :=
  ⟨100, none, ⟨fun _ => 0, fun _ => 0⟩⟩

theorem fair_iff_example :
    let group := UpstreamGroup.new (System.groupOf [System.peerAt 8001, System.peerAt 8002])
    (∀ i ∈ [0, 1], (group.selections [allUp, allUp]).count i = (group.weightOf i).toNat) ↔
      FairFrom group.rrCounter group.weightOf [0, 1] := by
  refine fair_iff rfl ?_ ⟨0, by decide, by decide⟩ (by decide)
  intro r hr
  obtain rfl : r = allUp := by simpa using hr
  decide

/-- Three peers of one weight, when all but the last value of the counter's low half are used. -/
def beforeRestart : UpstreamGroup :=
  { UpstreamGroup.new
      (System.groupOf [System.peerAt 8001, System.peerAt 8002, System.peerAt 8003]) with
    rrCounter := 2 ^ 32 - 1 }

/-- When the low half of the counter starts over, one of three peers is left out. -/
theorem restart_unfair :
    beforeRestart.policy = .roundRobin ∧
      (∀ r ∈ [allUp, allUp, allUp], beforeRestart.available r = [0, 1, 2]) ∧
      [allUp, allUp, allUp].length = trueTotal beforeRestart.weightOf [0, 1, 2] ∧
      beforeRestart.selections [allUp, allUp, allUp] = [0, 0, 1] ∧
      ¬ ∀ i ∈ [0, 1, 2], (beforeRestart.selections [allUp, allUp, allUp]).count i =
        (beforeRestart.weightOf i).toNat := by
  have hselections : beforeRestart.selections [allUp, allUp, allUp] = [0, 0, 1] := by decide
  refine ⟨rfl, ?_, by decide, hselections, ?_⟩
  · intro r hr
    obtain rfl : r = allUp := by simpa using hr
    decide
  · intro h
    have := h 2 (by decide)
    rw [hselections] at this
    exact absurd this (by decide)

end Fairness

end Upstream
end RunNginx
