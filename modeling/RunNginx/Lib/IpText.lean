import Mathlib.Data.List.TakeWhile
import RunNginx.Lib.IpAddr
import RunNginx.Lib.LfLines

/-!
# The text of an address

An IPv4 address is printed in dotted form, an IPv6 address in groups, with two colons for
the longest run of zeros; a mapped IPv4 address keeps its dotted form there.

`text_inj`: different addresses have different texts.
-/

namespace IpAddr

open ByteString LfLines

def text : IpAddr → Bytes
  | .v4 ip => ip.render
  | .v6 ip =>
      match ip.mappedV4 with
      | some mapped => ascii "::ffff:" ++ mapped.render
      | none => ip.render

section Hexadecimal

/-- The digit of a number below 16. -/
def hexByte (d : Nat) : UInt8 :=
  UInt8.ofNat d.digitChar.toNat

theorem hexByte_inj
    {d e : Nat} (hd : d < 16) (he : e < 16) (h : hexByte d = hexByte e) :
    d = e := by
  have hall : ∀ i j : Fin 16, hexByte i = hexByte j → i = j := by decide
  exact congrArg Fin.val (hall ⟨d, hd⟩ ⟨e, he⟩ h)

theorem renderHex_eq
    (n : Nat) :
    Decimal.renderHex n =
      if n < 16 then [hexByte n] else Decimal.renderHex (n / 16) ++ [hexByte (n % 16)] := by
  unfold Decimal.renderHex
  rw [Nat.toDigits_eq_if (by decide)]
  split
  · rfl
  · rw [List.map_append]
    rfl

theorem renderHex_ne_nil
    (n : Nat) :
    Decimal.renderHex n ≠ [] := by
  rw [renderHex_eq]
  split
  · exact List.cons_ne_nil _ _
  · exact List.append_ne_nil_of_right_ne_nil _ (List.cons_ne_nil _ _)

theorem renderHex_inj
    {n m : Nat} (h : Decimal.renderHex n = Decimal.renderHex m) :
    n = m := by
  induction n using Nat.strong_induction_on generalizing m with
  | _ n ih =>
      have hlonger : ∀ k d e, Decimal.renderHex k ++ [hexByte d] ≠ [hexByte e] := by
        intro k d e heq
        have hlength := congrArg List.length heq
        have hpos := List.length_pos_of_ne_nil (renderHex_ne_nil k)
        rw [List.length_append, List.length_singleton, List.length_singleton] at hlength
        omega
      rw [renderHex_eq n, renderHex_eq m] at h
      split at h
      · rename_i hn
        split at h
        · rename_i hm
          exact hexByte_inj hn hm (List.singleton_inj.mp h)
        · exact absurd h.symm (hlonger _ _ _)
      · rename_i hn
        split at h
        · exact absurd h (hlonger _ _ _)
        · obtain ⟨hdiv, hmod⟩ := List.append_inj' h rfl
          have hhigh := ih (n / 16) (by omega) hdiv
          have hlow := hexByte_inj (Nat.mod_lt n (by decide)) (Nat.mod_lt m (by decide))
            (List.singleton_inj.mp hmod)
          omega

/-- Neither a colon nor a dot, and no blank. -/
theorem of_mem_renderHex
    {n : Nat} {b : UInt8} (h : b ∈ Decimal.renderHex n) :
    48 ≤ b ∧ b ≠ 58 := by
  obtain ⟨c, hc, rfl⟩ := List.mem_map.mp h
  obtain ⟨d, hd, rfl⟩ := Decimal.mem_toDigits (by decide) hc
  have hall : ∀ d : Fin 16, 48 ≤ hexByte d ∧ hexByte d ≠ 58 := by decide
  exact hall ⟨d, hd⟩

end Hexadecimal

section Groups

variable {gs hs : List UInt16}

theorem renderGroups_cons
    (g h : UInt16) (gs : List UInt16) :
    V6.renderGroups (g :: h :: gs) =
      Decimal.renderHex g.toNat ++ 58 :: V6.renderGroups (h :: gs) := by
  unfold V6.renderGroups
  rw [List.map_cons, List.map_cons, List.intercalate_cons_cons, List.append_assoc]
  rfl

theorem renderGroups_singleton
    (g : UInt16) :
    V6.renderGroups [g] = Decimal.renderHex g.toNat := by
  unfold V6.renderGroups
  exact List.intercalate_singleton

/-- The pieces between the colons are the groups. -/
theorem splitByte_renderGroups
    (hne : gs ≠ []) :
    splitByte 58 (V6.renderGroups gs) = gs.map fun g => Decimal.renderHex g.toNat := by
  have hcolon : ∀ n, (58 : UInt8) ∉ Decimal.renderHex n :=
    fun n hmem => (of_mem_renderHex hmem).2 rfl
  induction gs with
  | nil => exact absurd rfl hne
  | cons g gs ih =>
      cases gs with
      | nil => rw [renderGroups_singleton, splitByte_of_not_mem (hcolon _), List.map_singleton]
      | cons h gs =>
          rw [renderGroups_cons, splitByte_append (hcolon _), ih (List.cons_ne_nil _ _)]
          rfl

theorem nil_not_mem_pieces
    (hne : gs ≠ []) :
    [] ∉ splitByte 58 (V6.renderGroups gs) := by
  rw [splitByte_renderGroups hne]
  intro hmem
  obtain ⟨g, -, hnil⟩ := List.mem_map.mp hmem
  exact renderHex_ne_nil _ hnil

theorem renderGroups_ne_nil
    (hne : gs ≠ []) :
    V6.renderGroups gs ≠ [] := by
  intro hnil
  refine nil_not_mem_pieces hne ?_
  rw [hnil]
  exact List.mem_singleton_self []

theorem renderGroups_inj
    (h : V6.renderGroups gs = V6.renderGroups hs) :
    gs = hs := by
  by_cases hgs : gs = []
  · subst hgs
    by_contra hhs
    exact renderGroups_ne_nil (Ne.symm hhs) h.symm
  · have hhs : hs ≠ [] := by
      rintro rfl
      exact renderGroups_ne_nil hgs h
    have hpieces := congrArg (splitByte 58) h
    rw [splitByte_renderGroups hgs, splitByte_renderGroups hhs] at hpieces
    refine List.map_injective_iff.mpr (fun a b hab => ?_) hpieces
    exact UInt16.toNat_inj.mp (renderHex_inj hab)

/-- Nothing is read between two colons, or behind the last one, of groups. -/
theorem renderGroups_ne_append
    {a t : Bytes} (ht : t.head? = none ∨ t.head? = some 58) :
    V6.renderGroups gs ≠ a ++ 58 :: t := by
  intro h
  have hne : gs ≠ [] := by
    rintro rfl
    exact absurd (congrArg List.length h) (by simp [V6.renderGroups])
  refine nil_not_mem_pieces hne ?_
  rw [h, splitByte_append_cons]
  refine List.mem_append_right _ ?_
  cases t with
  | nil => exact List.mem_singleton_self []
  | cons c t =>
      rcases ht with hnone | hcolon
      · cases hnone
      · cases hcolon
        exact List.mem_cons_self

/-- The first two colons in a row stand between the two halves. -/
theorem halves_inj
    {gs' hs' : List UInt16}
    (h : V6.renderGroups gs ++ [58, 58] ++ V6.renderGroups hs =
      V6.renderGroups gs' ++ [58, 58] ++ V6.renderGroups hs') :
    gs = gs' ∧ hs = hs' := by
  have hlonger : ∀ {u v : List UInt16} {t s s' : Bytes}, t ≠ [] →
      V6.renderGroups u = V6.renderGroups v ++ t → 58 :: 58 :: s = t ++ 58 :: 58 :: s' →
        False := by
    intro u v t s s' hne hlong hrest
    obtain ⟨b, t, rfl⟩ := List.exists_cons_of_ne_nil hne
    rw [List.cons_append] at hrest
    obtain ⟨rfl, htail⟩ := List.cons.inj hrest
    refine renderGroups_ne_append ?_ hlong
    cases t with
    | nil => exact Or.inl rfl
    | cons c t =>
        obtain ⟨rfl, -⟩ := List.cons.inj htail
        exact Or.inr rfl
  rw [List.append_assoc, List.append_assoc, List.append_eq_append_iff] at h
  rcases h with ⟨t, hlong, hrest⟩ | ⟨t, hlong, hrest⟩
  · by_cases hne : t = []
    · subst hne
      rw [List.append_nil] at hlong
      exact ⟨(renderGroups_inj hlong).symm,
        renderGroups_inj (List.append_cancel_left hrest)⟩
    · exact (hlonger hne hlong hrest).elim
  · by_cases hne : t = []
    · subst hne
      rw [List.append_nil] at hlong
      exact ⟨renderGroups_inj hlong,
        (renderGroups_inj (List.append_cancel_left hrest)).symm⟩
    · exact (hlonger hne hlong hrest).elim

end Groups

section Zeros

/-- The run that is found is one of zeros. -/
theorem longestZeroRun_spec
    (gs : List UInt16) :
    (V6.longestZeroRun gs).2 ≤
      ((gs.drop (V6.longestZeroRun gs).1).takeWhile (· == 0)).length := by
  have hkept : ∀ (l : List Nat) (best : Nat × Nat),
      best.2 ≤ ((gs.drop best.1).takeWhile (· == 0)).length →
        (l.foldl (fun best i =>
          if best.2 < ((gs.drop i).takeWhile (· == 0)).length then
            (i, ((gs.drop i).takeWhile (· == 0)).length)
          else best) best).2 ≤
          ((gs.drop (l.foldl (fun best i =>
            if best.2 < ((gs.drop i).takeWhile (· == 0)).length then
              (i, ((gs.drop i).takeWhile (· == 0)).length)
            else best) best).1).takeWhile (· == 0)).length := by
    intro l
    induction l with
    | nil =>
        intro best h
        exact h
    | cons i l ih =>
        intro best h
        rw [List.foldl_cons]
        refine ih _ ?_
        split
        · exact Nat.le_refl _
        · exact h
  exact hkept _ _ (Nat.zero_le _)

/-- The groups around the run, and the zeros between them. -/
theorem eq_around_zeros
    {gs : List UInt16} {start len : Nat}
    (h : len ≤ ((gs.drop start).takeWhile (· == 0)).length) :
    gs = gs.take start ++ List.replicate len 0 ++ gs.drop (start + len) := by
  have hzeros : (gs.drop start).take len = List.replicate len 0 := by
    have hinitial : (gs.drop start).take len <+: (gs.drop start).takeWhile (· == 0) :=
      List.prefix_of_prefix_length_le (List.take_prefix _ _) (List.takeWhile_prefix _)
        ((List.length_take_le _ _).trans h)
    refine List.eq_replicate_iff.mpr ⟨?_, fun g hg => ?_⟩
    · have hle := (List.takeWhile_sublist (· == 0) (l := gs.drop start)).length_le
      rw [List.length_take]
      omega
    · have hzero := List.mem_takeWhile_imp (hinitial.subset hg)
      exact beq_iff_eq.mp hzero
  rw [← hzeros, ← List.drop_drop, List.append_assoc, List.take_append_drop,
    List.take_append_drop]

theorem render_eq
    {ip : V6} :
    ∃ start len, ip.groups =
        ip.groups.take start ++ List.replicate len 0 ++ ip.groups.drop (start + len) ∧
      ip.render = if len < 2 then V6.renderGroups ip.groups
        else V6.renderGroups (ip.groups.take start) ++ [58, 58] ++
          V6.renderGroups (ip.groups.drop (start + len)) :=
  ⟨_, _, eq_around_zeros (longestZeroRun_spec ip.groups), rfl⟩

/-- Two colons in a row stand for a run of zeros only. -/
theorem renderGroups_ne_halves
    {gs hs ks : List UInt16} :
    V6.renderGroups gs ≠ V6.renderGroups hs ++ [58, 58] ++ V6.renderGroups ks := by
  intro h
  rw [List.append_assoc] at h
  exact renderGroups_ne_append (Or.inr rfl) h

theorem v6_render_inj
    {ip ip' : V6} (h : ip.render = ip'.render) :
    ip = ip' := by
  obtain ⟨start, len, hgroups, hrender⟩ := @render_eq ip
  obtain ⟨start', len', hgroups', hrender'⟩ := @render_eq ip'
  have hsame : ip.groups = ip'.groups := by
    rw [hrender, hrender'] at h
    split at h
    · split at h
      · exact renderGroups_inj h
      · exact absurd h renderGroups_ne_halves
    · split at h
      · exact absurd h.symm renderGroups_ne_halves
      · obtain ⟨hfront, hback⟩ := halves_inj h
        have hlength := congrArg List.length hgroups
        have hlength' := congrArg List.length hgroups'
        rw [hfront, hback] at hlength
        simp only [List.length_append, List.length_replicate, ip.length_eq, ip'.length_eq]
          at hlength hlength'
        have hlen : len = len' := by omega
        rw [hgroups, hgroups', hfront, hback, hlen]
  cases ip
  cases ip'
  cases hsame
  rfl

end Zeros

section Mapped

theorem mappedV4_inj
    {ip ip' : V6} {mapped : V4} (h : ip.mappedV4 = some mapped) (h' : ip'.mappedV4 = some mapped) :
    ip = ip' := by
  have hof : ∀ {ip : V6}, ip.mappedV4 = some mapped →
      ∃ x y : UInt16, ip.groups = [0, 0, 0, 0, 0, 0xffff, x, y] ∧
        x.toNat = mapped.a.toNat * 256 + mapped.b.toNat ∧
          y.toNat = mapped.c.toNat * 256 + mapped.d.toNat := by
    intro ip h
    unfold V6.mappedV4 at h
    split at h
    · rename_i x y hgroups
      cases h
      refine ⟨x, y, hgroups, ?_, ?_⟩
      · have hlt := x.toNat_lt
        simp [Nat.shiftRight_eq_div_pow]
        omega
      · have hlt := y.toNat_lt
        simp [Nat.shiftRight_eq_div_pow]
        omega
    · cases h
  obtain ⟨x, y, hgroups, hx, hy⟩ := hof h
  obtain ⟨x', y', hgroups', hx', hy'⟩ := hof h'
  have hxx : x = x' := UInt16.toNat_inj.mp (hx.trans hx'.symm)
  have hyy : y = y' := UInt16.toNat_inj.mp (hy.trans hy'.symm)
  cases ip
  cases ip'
  dsimp only at hgroups hgroups'
  subst hgroups hgroups' hxx hyy
  rfl

end Mapped

section Text

theorem v4_render_inj
    {ip ip' : V4} (h : ip.render = ip'.render) :
    ip = ip' := by
  have hparse := parseIpv4_render ip
  rw [h, parseIpv4_render] at hparse
  exact (Option.some.inj hparse).symm

/-- The bytes of a dotted address. -/
theorem of_mem_v4_render
    {ip : V4} {b : UInt8} (h : b ∈ ip.render) :
    46 ≤ b ∧ b ≠ 58 := by
  have hdigit : ∀ {n : Nat}, b ∈ Decimal.render n → 46 ≤ b ∧ b ≠ 58 := by
    intro n hmem
    have hclass := Decimal.isDigit_of_mem_render hmem
    have hall : ∀ b : UInt8, Decimal.isDigit b = true → 46 ≤ b ∧ b ≠ 58 :=
      forall_byte (by decide +kernel)
    exact hall b hclass
  simp only [V4.render, List.mem_append, List.mem_cons] at h
  rcases h with h | rfl | h | rfl | h | rfl | h
  · exact hdigit h
  · decide
  · exact hdigit h
  · decide
  · exact hdigit h
  · decide
  · exact hdigit h

theorem of_mem_renderGroups
    {gs : List UInt16} {b : UInt8} (h : b ∈ V6.renderGroups gs) :
    48 ≤ b := by
  induction gs with
  | nil => cases h
  | cons g gs ih =>
      cases gs with
      | nil =>
          rw [renderGroups_singleton] at h
          exact (of_mem_renderHex h).1
      | cons k gs =>
          rw [renderGroups_cons, List.mem_append, List.mem_cons] at h
          rcases h with h | rfl | h
          · exact (of_mem_renderHex h).1
          · decide
          · exact ih h

theorem of_mem_v6_render
    {ip : V6} {b : UInt8} (h : b ∈ ip.render) :
    48 ≤ b := by
  obtain ⟨start, len, -, hrender⟩ := @render_eq ip
  rw [hrender] at h
  split at h
  · exact of_mem_renderGroups h
  · rw [List.mem_append, List.mem_append] at h
    rcases h with (h | h) | h
    · exact of_mem_renderGroups h
    · rcases List.mem_pair.mp h with rfl | rfl <;> decide
    · exact of_mem_renderGroups h

theorem colon_mem_v6_render
    (ip : V6) :
    (58 : UInt8) ∈ ip.render := by
  obtain ⟨start, len, -, hrender⟩ := @render_eq ip
  rw [hrender]
  split
  · obtain ⟨groups, hlength⟩ := ip
    match groups, hlength with
    | g :: k :: gs, _ =>
        rw [renderGroups_cons]
        exact List.mem_append_right _ List.mem_cons_self
  · simp

theorem of_mem_text
    {ip : IpAddr} {b : UInt8} (h : b ∈ ip.text) :
    46 ≤ b := by
  cases ip with
  | v4 ip => exact (of_mem_v4_render h).1
  | v6 ip =>
      unfold text at h
      dsimp only at h
      split at h
      · rcases List.mem_append.mp h with h | h
        · have hall : (ascii "::ffff:").all (fun b => decide (46 ≤ b)) = true := rfl
          exact of_decide_eq_true (List.all_eq_true.mp hall b h)
        · exact (of_mem_v4_render h).1
      · exact UInt8.le_trans (by decide) (of_mem_v6_render h)

/-- A colon tells the families apart, and a dot the mapped addresses. -/
theorem colon_mem_text_v6
    (ip : V6) :
    (58 : UInt8) ∈ (IpAddr.v6 ip).text := by
  unfold text
  dsimp only
  split
  · exact List.mem_append_left _ (by decide)
  · exact colon_mem_v6_render ip

theorem dot_mem_v4_render
    (ip : V4) :
    (46 : UInt8) ∈ ip.render :=
  List.mem_append_right _ List.mem_cons_self

/-- Different addresses have different texts. -/
theorem text_inj
    {ip ip' : IpAddr} (h : ip.text = ip'.text) :
    ip = ip' := by
  have hfamily : ∀ {a : V4} {b : V6}, (IpAddr.v4 a).text ≠ (IpAddr.v6 b).text := by
    intro a b heq
    have hcolon := colon_mem_text_v6 b
    rw [← heq] at hcolon
    exact (of_mem_v4_render hcolon).2 rfl
  have hdot : ∀ {a : V6} {mapped : V4}, a.render ≠ ascii "::ffff:" ++ mapped.render := by
    intro a mapped heq
    have hmem : (46 : UInt8) ∈ a.render := by
      rw [heq]
      exact List.mem_append_right _ (dot_mem_v4_render mapped)
    exact absurd (of_mem_v6_render hmem) (by decide)
  cases ip with
  | v4 a =>
      cases ip' with
      | v4 b => exact congrArg IpAddr.v4 (v4_render_inj h)
      | v6 b => exact absurd h hfamily
  | v6 a =>
      cases ip' with
      | v4 b => exact absurd h.symm hfamily
      | v6 b =>
          refine congrArg IpAddr.v6 ?_
          unfold text at h
          dsimp only at h
          cases ha : a.mappedV4 with
          | some mapped =>
              cases hb : b.mappedV4 with
              | some mapped' =>
                  rw [ha, hb] at h
                  have hsame := v4_render_inj (List.append_cancel_left h)
                  rw [hsame] at ha
                  exact mappedV4_inj ha hb
              | none =>
                  rw [ha, hb] at h
                  exact absurd h.symm hdot
          | none =>
              cases hb : b.mappedV4 with
              | some mapped' =>
                  rw [ha, hb] at h
                  exact absurd h hdot
              | none =>
                  rw [ha, hb] at h
                  exact v6_render_inj h

end Text

end IpAddr
