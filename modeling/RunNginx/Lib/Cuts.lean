import Mathlib.Data.Nat.Find
import RunNginx.Lib.Stream

/-!
# How a stream is cut into reads

The reads of a stream are pieces of a limited size.  A loop that collects them stops behind
one, so where it stops depends on how the stream is cut: it sees a reason to stop only where
a piece ends, and it may have read beyond the cap before it looks.

`exists_stop`: there is a cut behind which the loop stops at any given place that is not
hidden by an earlier reason, and is no more than one read beyond the cap.
-/

namespace Stream

/-- A text in pieces that are not empty and no longer than a read. -/
structure CutOf (size : Nat) (text : Bytes) (pieces : List Bytes) : Prop where
  sizes : ∀ p ∈ pieces, p ≠ [] ∧ p.length ≤ size
  whole : pieces.flatten = text

/-- More than the cap arrives before the last piece does. -/
def OverCap (cap : Nat) (pieces : List Bytes) : Prop :=
  ∃ front back, pieces = front ++ back ∧ back ≠ [] ∧ cap < front.flatten.length

/-- A text byte by byte, but for one read from `i` to `j`. -/
def cutAt (i j : Nat) (text : Bytes) : List Bytes :=
  (text.take i).map ([·]) ++ ((text.take j).drop i :: (text.drop j).map ([·]))

section Cuts

variable {size cap i j : Nat} {text : Bytes} {pieces : List Bytes}

theorem flatten_bytes
    (s : Bytes) :
    (s.map ([·])).flatten = s := by
  rw [← List.flatMap_def, List.flatMap_singleton']

theorem CutOf.ne_nil
    (h : CutOf size text pieces) :
    ∀ p ∈ pieces, p ≠ [] :=
  fun p hp => (h.sizes p hp).1

/-- A text that is not empty has a last piece. -/
theorem CutOf.last
    (h : CutOf size text pieces) (hne : text ≠ []) :
    ∃ front last, pieces = front ++ [last] ∧ last.length ≤ size ∧
      text = front.flatten ++ last := by
  have hpieces : pieces ≠ [] := by
    rintro rfl
    exact hne h.whole.symm
  obtain ⟨front, last, rfl⟩ := (List.eq_nil_or_concat pieces).resolve_left hpieces
  rw [List.concat_eq_append] at h ⊢
  refine ⟨front, last, rfl, (h.sizes last (by simp)).2, ?_⟩
  rw [← h.whole, List.flatten_append, List.flatten_singleton]

theorem CutOf.overCap
    (h : CutOf size text pieces) (hlong : cap + size < text.length) :
    OverCap cap pieces := by
  obtain ⟨front, last, rfl, hlast, htext⟩ := h.last (List.ne_nil_of_length_pos (by omega))
  have hlength := congrArg List.length htext
  rw [List.length_append] at hlength
  exact ⟨front, [last], rfl, List.cons_ne_nil _ _, by omega⟩

theorem CutOf.front_lt
    {front back : List Bytes} (h : CutOf size text (front ++ back)) (hback : back ≠ []) :
    front.flatten.length < text.length := by
  obtain ⟨p, rest, rfl⟩ := List.exists_cons_of_ne_nil hback
  have hp := List.length_pos_of_ne_nil (h.sizes p (by simp)).1
  have hlength := congrArg List.length h.whole
  rw [List.flatten_append, List.flatten_cons, List.length_append, List.length_append] at hlength
  omega

theorem CutOf.not_overCap
    (h : CutOf size text pieces) (hshort : text.length ≤ cap + 1) :
    ¬ OverCap cap pieces := by
  rintro ⟨front, back, rfl, hback, hcap⟩
  have hlt := h.front_lt hback
  omega

theorem cutAt_cut
    (hij : i < j) (hsize : j ≤ i + size) (hj : j ≤ text.length) :
    CutOf size text (cutAt i j text) where
  sizes := by
    have hbytes : ∀ s : Bytes, ∀ p ∈ s.map ([·]), p ≠ [] ∧ p.length ≤ size := by
      intro s p hp
      obtain ⟨b, -, rfl⟩ := List.mem_map.mp hp
      exact ⟨List.cons_ne_nil _ _, by rw [List.length_singleton]; omega⟩
    intro p hp
    rcases List.mem_append.mp hp with hp | hp
    · exact hbytes _ p hp
    rcases List.mem_cons.mp hp with rfl | hp
    · have hlength : ((text.take j).drop i).length = j - i := by
        rw [List.length_drop, List.length_take, Nat.min_eq_left hj]
      exact ⟨List.ne_nil_of_length_pos (by omega), by omega⟩
    · exact hbytes _ p hp
  whole := by
    have hfront : text.take i = (text.take j).take i := by
      rw [List.take_take, Nat.min_eq_left (Nat.le_of_lt hij)]
    rw [cutAt, List.flatten_append, List.flatten_cons, flatten_bytes, flatten_bytes,
      ← List.append_assoc, hfront, List.take_append_drop, List.take_append_drop]

/-- The last byte of a text that is read byte by byte arrives by itself. -/
theorem overCap_cutAt
    (hij : i < j) (hj : j < text.length) (hlong : cap + 1 < text.length) :
    OverCap cap (cutAt i j text) := by
  have hrest : text.drop j ≠ [] := by
    rw [Ne, List.drop_eq_nil_iff]
    omega
  obtain ⟨u, b, hub⟩ := (List.eq_nil_or_concat (text.drop j)).resolve_left hrest
  rw [List.concat_eq_append] at hub
  have hcut : (cutAt i j text).flatten = text :=
    (@cutAt_cut (j - i) i j text hij (by omega) (Nat.le_of_lt hj)).whole
  have hsplit : cutAt i j text =
      ((text.take i).map ([·]) ++ ((text.take j).drop i :: u.map ([·]))) ++ [[b]] := by
    rw [cutAt, hub, List.map_append, List.map_singleton, List.append_assoc, List.cons_append]
  refine ⟨_, [[b]], hsplit, List.cons_ne_nil _ _, ?_⟩
  rw [hsplit, List.flatten_append] at hcut
  have hlength := congrArg List.length hcut
  rw [List.length_append, List.flatten_singleton, List.length_singleton] at hlength
  omega

/-- What is read at once at the end does not count before it is there. -/
theorem not_overCap_cutAt
    (hcap : i ≤ cap) :
    ¬ OverCap cap (cutAt i text.length text) := by
  rintro ⟨front, back, heq, hback, hlong⟩
  obtain ⟨back, last, rfl⟩ := (List.eq_nil_or_concat back).resolve_left hback
  rw [cutAt, List.drop_length, List.map_nil, List.concat_eq_append, ← List.append_assoc] at heq
  have hfront := congrArg List.length (congrArg List.flatten (List.append_inj' heq rfl).1)
  rw [flatten_bytes, List.length_take, List.flatten_append, List.length_append] at hfront
  omega

end Cuts

section Collect

variable {complete : Bytes → Bool} {size cap i j : Nat} {buf text piece : Bytes}
variable {pieces : List Bytes} {events : List ReadEvent}

/-- One read, and what follows it. -/
theorem collect_piece
    (hpiece : piece ≠ []) (events : List ReadEvent) :
    (Stops complete cap (buf ++ piece) →
        collect complete cap buf (.bytes piece :: events) = .ok (buf ++ piece)) ∧
      (¬ Stops complete cap (buf ++ piece) →
        collect complete cap buf (.bytes piece :: events) =
          collect complete cap (buf ++ piece) events) := by
  obtain ⟨b, data, rfl⟩ := List.exists_cons_of_ne_nil hpiece
  simp only [collect]
  constructor
  · rintro (hc | hcap)
    · rw [if_pos hc]
    · rw [if_pos hcap, ite_self]
  · intro hgo
    obtain ⟨hc, hcap⟩ := not_or.mp hgo
    rw [if_neg hc, if_neg hcap]

/-- The loop stops behind one of the pieces, or goes on behind them. -/
theorem collect_reads
    (hne : ∀ p ∈ pieces, p ≠ []) (buf : Bytes) (events : List ReadEvent) :
    (∃ front back, pieces = front ++ back ∧
        Stops complete cap (buf ++ front.flatten) ∧
        (∀ before after, front = before ++ after → before ≠ [] → after ≠ [] →
          ¬ Stops complete cap (buf ++ before.flatten)) ∧ front ≠ [] ∧
        collect complete cap buf (reads pieces ++ events) = .ok (buf ++ front.flatten)) ∨
      (∀ front back, pieces = front ++ back → front ≠ [] →
          ¬ Stops complete cap (buf ++ front.flatten)) ∧
        collect complete cap buf (reads pieces ++ events) =
          collect complete cap (buf ++ pieces.flatten) events := by
  induction pieces generalizing buf with
  | nil =>
      refine Or.inr ⟨fun front back heq hfront => ?_, by simp [reads]⟩
      exact absurd (List.append_eq_nil_iff.mp heq.symm).1 hfront
  | cons piece pieces ih =>
      obtain ⟨hpiece, hrest⟩ := List.forall_mem_cons.mp hne
      obtain ⟨hstop, hgo⟩ := @collect_piece complete cap buf piece hpiece (reads pieces ++ events)
      by_cases h : Stops complete cap (buf ++ piece)
      · refine Or.inl ⟨[piece], pieces, rfl, by simpa using h, ?_, List.cons_ne_nil _ _, ?_⟩
        rotate_left
        · rw [List.flatten_singleton]
          exact hstop h
        · intro before after heq hbefore hafter
          have hlength := congrArg List.length heq
          have hb := List.length_pos_of_ne_nil hbefore
          have ha := List.length_pos_of_ne_nil hafter
          rw [List.length_singleton, List.length_append] at hlength
          omega
      · have hnext : collect complete cap buf (reads (piece :: pieces) ++ events) =
            collect complete cap (buf ++ piece) (reads pieces ++ events) := hgo h
        rcases ih hrest (buf ++ piece) with
          ⟨front, back, rfl, hstops, hbefore, -, hread⟩ | ⟨hnone, hread⟩
        · refine Or.inl ⟨piece :: front, back, rfl, by simpa using hstops, ?_,
            List.cons_ne_nil _ _, by rw [hnext, hread]; simp⟩
          intro before after heq hne hafter
          obtain ⟨p, before, rfl⟩ := List.exists_cons_of_ne_nil hne
          rw [List.cons_append, List.cons.injEq] at heq
          obtain ⟨rfl, rfl⟩ := heq
          by_cases hnil : before = []
          · subst hnil
            simpa using h
          · simpa using hbefore before after rfl hnil hafter
        · refine Or.inr ⟨fun front back heq hne => ?_, by rw [hnext, hread]; simp⟩
          obtain ⟨p, front, rfl⟩ := List.exists_cons_of_ne_nil hne
          rw [List.cons_append, List.cons.injEq] at heq
          obtain ⟨rfl, rfl⟩ := heq
          by_cases hnil : front = []
          · subst hnil
            simpa using h
          · simpa using hnone front back rfl hnil

/-- Behind its last piece a stream ends, or nothing comes for too long. -/
def IsEnd (events : List ReadEvent) : Prop :=
  events = [] ∨ events = [.timedOut]

/-- What is collected is the beginning of the text, no more than one read beyond the cap. -/
theorem collect_ok
    {got : Bytes} (hcut : CutOf size text pieces) (hend : IsEnd events)
    (h : collect complete cap [] (reads pieces ++ events) = .ok got) :
    got <+: text ∧ got.length ≤ cap + size ∧
      (OverCap cap pieces → got.length < text.length) := by
  rcases @collect_reads complete cap pieces hcut.ne_nil [] events with
    ⟨front, back, rfl, -, hbefore, hne, hread⟩ | ⟨hnone, hread⟩
  · rw [hread, List.nil_append] at h
    obtain rfl := Except.ok.inj h
    refine ⟨⟨back.flatten, by rw [← hcut.whole, List.flatten_append]⟩, ?_, ?_⟩
    · obtain ⟨init, last, hfront⟩ := (List.eq_nil_or_concat front).resolve_left hne
      rw [List.concat_eq_append] at hfront
      have hlast := (hcut.sizes last (by simp [hfront])).2
      have hinit : init.flatten.length ≤ cap := by
        by_cases hnil : init = []
        · rw [hnil]
          exact Nat.zero_le _
        · have hgo := hbefore init [last] hfront hnil (List.cons_ne_nil _ _)
          exact Nat.not_lt.mp fun hcap => hgo (Or.inr hcap)
      rw [hfront, List.flatten_append, List.length_append, List.flatten_singleton]
      omega
    · rintro ⟨front', back', heq, hback', hcap⟩
      rcases List.append_eq_append_iff.mp heq with ⟨x, rfl, -⟩ | ⟨x, rfl, -⟩
      · rw [heq] at hcut
        have hlt := hcut.front_lt hback'
        rw [List.flatten_append, List.length_append] at hlt
        omega
      · by_cases hx : x = []
        · subst hx
          rw [heq] at hcut
          rw [List.append_nil]
          exact hcut.front_lt hback'
        · have hfront' : front' ≠ [] := by
            rintro rfl
            exact Nat.not_lt_zero _ hcap
          exact absurd (Or.inr hcap) (hbefore front' x rfl hfront' hx)
  · have hover : ¬ OverCap cap pieces := by
      rintro ⟨front, back, heq, -, hcap⟩
      have hfront : front ≠ [] := by
        rintro rfl
        exact Nat.not_lt_zero _ hcap
      exact hnone front back heq hfront (Or.inr hcap)
    rcases hend with rfl | rfl
    · rw [hread, collect, List.nil_append, hcut.whole] at h
      obtain rfl := Except.ok.inj h
      refine ⟨List.prefix_rfl, ?_, fun h => absurd h hover⟩
      by_cases hnil : pieces = []
      · rw [← hcut.whole, hnil]
        exact Nat.zero_le _
      · have hgo := hnone pieces [] (List.append_nil _).symm hnil
        rw [List.nil_append, hcut.whole] at hgo
        have hle := Nat.not_lt.mp fun hcap => hgo (Or.inr hcap)
        omega
    · rw [hread] at h
      cases h

/-- A text that is complete at its end only is collected as a whole. -/
theorem collect_whole
    (hcut : CutOf size text pieces) (hover : ¬ OverCap cap pieces)
    (hcomplete : ∀ u, u <+: text → u ≠ text → complete u = false)
    (hend : events = [] ∨ complete text = true ∧ text ≠ []) :
    collect complete cap [] (reads pieces ++ events) = .ok text := by
  rcases @collect_reads complete cap pieces hcut.ne_nil [] events with
    ⟨front, back, rfl, hstops, -, -, hread⟩ | ⟨hnone, hread⟩
  · have hback : back = [] := by
      by_contra hback
      rw [List.nil_append] at hstops
      have hlt := hcut.front_lt hback
      rcases hstops with hdone | hcap
      · have hprefix : front.flatten <+: text :=
          ⟨back.flatten, by rw [← hcut.whole, List.flatten_append]⟩
        rw [hcomplete _ hprefix fun heq => by rw [heq] at hlt; omega] at hdone
        cases hdone
      · exact hover ⟨front, back, rfl, hback, hcap⟩
    subst hback
    rw [List.append_nil] at hcut hread ⊢
    rw [hread, List.nil_append, hcut.whole]
  · rcases hend with rfl | ⟨hdone, hne⟩
    · rw [hread, collect, List.nil_append, hcut.whole]
    · have hpieces : pieces ≠ [] := by
        rintro rfl
        exact hne hcut.whole.symm
      have hgo := hnone pieces [] (List.append_nil _).symm hpieces
      rw [List.nil_append, hcut.whole] at hgo
      exact absurd (Or.inl hdone) hgo

/-- Byte by byte, the loop goes on until it has a reason to stop. -/
theorem collect_bytes
    {s : Bytes} (hgo : ∀ n, 0 < n → n ≤ s.length → ¬ Stops complete cap (buf ++ s.take n))
    (events : List ReadEvent) :
    collect complete cap buf (reads (s.map ([·])) ++ events) =
      collect complete cap (buf ++ s) events := by
  induction s generalizing buf with
  | nil => simp [reads]
  | cons b s ih =>
      have hb := hgo 1 Nat.one_pos (by simp)
      have hnext : collect complete cap buf (reads ((b :: s).map ([·])) ++ events) =
          collect complete cap (buf ++ [b]) (reads (s.map ([·])) ++ events) :=
        (collect_piece (List.cons_ne_nil b []) _).2 (by simpa using hb)
      rw [hnext, ih, List.append_assoc, List.singleton_append]
      intro n hn hle
      have hmore := hgo (n + 1) (Nat.succ_pos n) (Nat.succ_le_succ hle)
      simpa using hmore

/-- The loop stops behind the one read that is longer, if it has a reason there. -/
theorem collect_cutAt
    (hij : i < j) (hj : j ≤ text.length)
    (hgo : ∀ n, 0 < n → n ≤ i → ¬ Stops complete cap (text.take n))
    (hstop : Stops complete cap (text.take j) ∨ j = text.length) :
    collect complete cap [] (reads (cutAt i j text)) = .ok (text.take j) := by
  have hfront : ∀ n, 0 < n → n ≤ (text.take i).length →
      ¬ Stops complete cap ([] ++ (text.take i).take n) := by
    intro n hn hle
    rw [List.length_take] at hle
    rw [List.nil_append, List.take_take, Nat.min_eq_left (by omega)]
    exact hgo n hn (by omega)
  have hreads : reads (cutAt i j text) = reads ((text.take i).map ([·])) ++
      .bytes ((text.take j).drop i) :: reads ((text.drop j).map ([·])) := by
    rw [cutAt, reads, List.map_append, List.map_cons]
    rfl
  have hpiece : (text.take j).drop i ≠ [] := by
    rw [Ne, List.drop_eq_nil_iff, List.length_take]
    omega
  have hjoin : text.take i ++ (text.take j).drop i = text.take j := by
    have hsame : text.take i = (text.take j).take i := by
      rw [List.take_take, Nat.min_eq_left (Nat.le_of_lt hij)]
    rw [hsame, List.take_append_drop]
  obtain ⟨hstops, hgoes⟩ := @collect_piece complete cap (text.take i) _ hpiece
    (reads ((text.drop j).map ([·])))
  rw [hreads, collect_bytes hfront, List.nil_append]
  rw [hjoin] at hstops hgoes
  by_cases h : Stops complete cap (text.take j)
  · exact hstops h
  · obtain rfl := hstop.resolve_left h
    rw [hgoes h, List.drop_length]
    rfl

/--
A loop that does not stop in front of `h` stops at `h` or behind it for some cut: byte by
byte where it stops by itself first, and in one read beyond the cap otherwise.
-/
theorem exists_stop
    {h : Nat} (hpos : 0 < h) (hle : h ≤ text.length) (hreach : h ≤ cap + size)
    (hhead : ∀ n < h, complete (text.take n) = false) (hsize : 0 < size) :
    ∃ i j, i < j ∧ j ≤ i + size ∧ h ≤ j ∧ j ≤ text.length ∧ (j = h ∨ j ≤ cap + 1) ∧
      (j = i + 1 ∨ cap < j) ∧ (∀ n, 0 < n → n ≤ i → ¬ Stops complete cap (text.take n)) ∧
      (Stops complete cap (text.take j) ∨ j = text.length) := by
  classical
  have hsome : ∃ n, 0 < n ∧ (Stops complete cap (text.take n) ∨ n = text.length) :=
    ⟨text.length, by omega, Or.inr rfl⟩
  -- the first place where the loop stops if every byte is a read
  obtain ⟨hfirst, hstop⟩ := Nat.find_spec hsome
  have hbefore := fun n => @Nat.find_min _ _ hsome n
  generalize Nat.find hsome = first at hfirst hstop hbefore
  have hgo : ∀ n, 0 < n → n < first → ¬ Stops complete cap (text.take n) :=
    fun n hn hlt hstops => hbefore n hlt ⟨hn, Or.inl hstops⟩
  have hfirstLe : first ≤ text.length := by
    by_contra hlt
    exact hbefore text.length (by omega) ⟨by omega, Or.inr rfl⟩
  have hcapLe : first ≤ cap + 1 := by
    by_contra hlt
    refine hgo (cap + 1) (by omega) (by omega) (Or.inr ?_)
    rw [List.length_take]
    omega
  by_cases hh : h ≤ first
  · exact ⟨first - 1, first, by omega, by omega, hh, hfirstLe, Or.inr hcapLe, Or.inl (by omega),
      fun n hn hn' => hgo n hn (by omega), hstop⟩
  · have hcap : cap < first := by
      rcases hstop with (hdone | hcap) | hall
      · rw [hhead first (by omega)] at hdone
        cases hdone
      · rw [List.length_take] at hcap
        omega
      · omega
    refine ⟨cap, h, by omega, by omega, Nat.le_refl _, hle, Or.inl rfl, Or.inr (by omega),
      fun n hn hn' => hgo n hn (by omega), Or.inl (Or.inr ?_)⟩
    rw [List.length_take]
    omega

end Collect

end Stream
