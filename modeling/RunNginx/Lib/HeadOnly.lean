import RunNginx.Lib.Persistence

/-!
# Messages that are heads

What follows the first empty line is the body for a recipient that expects one, and the
beginning of the next message for one that does not.  `EndsAtHead` says that nothing follows.

`endsAtHead_message_iff`: a message that is written line by line ends at its head if no line
makes an empty one and nothing is written behind the head.
-/

namespace HttpMessage

open ByteString

/-- The first empty line is the end of the bytes. -/
def EndsAtHead (s : Bytes) : Prop :=
  lines s = headOf s ++ [[]]

instance (s : Bytes) : Decidable (EndsAtHead s) :=
  inferInstanceAs (Decidable (lines s = headOf s ++ [[]]))

/-- No line end within the line makes an empty line. -/
def NoEmptyLine (l : Bytes) : Prop :=
  [] ∉ lines (l ++ crlf)

theorem lines_eq_nil_iff
    (s : Bytes) :
    lines s = [] ↔ s = [] := by
  constructor
  · intro h
    by_contra hne
    exact splitLines_ne_nil hne (List.map_eq_nil_iff.mp h)
  · rintro rfl
    rfl

/-- The lines in front of the first empty one are fewer than all lines. -/
theorem length_takeWhile_lt
    {ls : List Bytes} (h : [] ∈ ls) :
    (ls.takeWhile fun l => !l.isEmpty).length < ls.length := by
  induction ls with
  | nil => cases h
  | cons l ls ih =>
      cases l with
      | nil => exact Nat.zero_lt_succ _
      | cons b l =>
          have hrest : [] ∈ ls := by
            rcases List.mem_cons.mp h with h | h
            · cases h
            · exact h
          rw [List.takeWhile_cons_of_pos rfl, List.length_cons, List.length_cons]
          exact Nat.succ_lt_succ (ih hrest)

/-- The empty line behind the lines `ls` is the first one, and the last line. -/
theorem endsAtHead_iff_of_lines
    {s : Bytes} {ls rest : List Bytes} (h : lines s = ls ++ [] :: rest) :
    EndsAtHead s ↔ [] ∉ ls ∧ rest = [] := by
  unfold EndsAtHead headOf
  rw [h]
  by_cases hblank : [] ∈ ls
  · refine iff_of_false (fun heq => ?_) fun hboth => hboth.1 hblank
    have hlength := congrArg List.length heq
    rw [takeWhile_of_mem hblank, List.length_append, List.length_append, List.length_cons,
      List.length_singleton] at hlength
    have hlt := length_takeWhile_lt hblank
    omega
  · have hfirst : ([] :: rest).takeWhile (fun l : Bytes => !l.isEmpty) = [] := rfl
    rw [takeWhile_of_not_mem hblank, hfirst, List.append_nil, List.append_cancel_left_eq,
      List.cons.injEq]
    exact ⟨fun hrest => ⟨hblank, hrest.2⟩, fun hboth => ⟨rfl, hboth.2⟩⟩

theorem noEmptyLine_of_not_mem
    {l : Bytes} (hne : l ≠ []) (hlf : (10 : UInt8) ∉ l) :
    NoEmptyLine l := by
  have hlines := lines_line hlf []
  rw [List.append_nil] at hlines
  unfold NoEmptyLine
  rw [hlines]
  intro hmem
  exact hne (List.mem_singleton.mp hmem).symm

theorem not_mem_lines_joinLines_iff
    (ls : List Bytes) :
    [] ∉ lines (joinLines ls) ↔ ∀ l ∈ ls, NoEmptyLine l := by
  induction ls with
  | nil =>
      have hnil : lines (joinLines []) = [] := rfl
      rw [hnil]
      exact iff_of_true List.not_mem_nil nofun
  | cons l ls ih =>
      have hone : joinLines [l] = l ++ crlf := by simp
      have hsplit := lines_joinLines_append [l] (joinLines ls)
      rw [hone] at hsplit
      rw [joinLines_cons, hsplit, List.mem_append, not_or, List.forall_mem_cons, ih]
      exact Iff.rfl

/-- A message ends with its head if its lines make no empty line and it has no body. -/
theorem endsAtHead_message_iff
    (ls : List Bytes) (body : Bytes) :
    EndsAtHead (joinLines ls ++ crlf ++ body) ↔ (∀ l ∈ ls, NoEmptyLine l) ∧ body = [] := by
  have hlines : lines (joinLines ls ++ crlf ++ body) = lines (joinLines ls) ++ [] :: lines body := by
    have hblank := lines_line (l := []) List.not_mem_nil body
    rw [List.nil_append] at hblank
    rw [List.append_assoc, lines_joinLines_append, hblank]
  rw [endsAtHead_iff_of_lines hlines, not_mem_lines_joinLines_iff, lines_eq_nil_iff]

/-- Lines without a LF make no other lines. -/
theorem endsAtHead_lines_iff
    {ls : List Bytes} (h : ∀ l ∈ ls, l ≠ [] ∧ 10 ∉ l) (body : Bytes) :
    EndsAtHead (joinLines ls ++ crlf ++ body) ↔ body = [] := by
  rw [endsAtHead_message_iff]
  exact and_iff_right fun l hl => noEmptyLine_of_not_mem (h l hl).1 (h l hl).2

/-- A message whose lines end with LF. -/
theorem endsAtHead_lfMessage_iff
    {ls : List Bytes} (h : ∀ l ∈ ls, l ≠ [] ∧ 10 ∉ l ∧ 13 ∉ l) (body : Bytes) :
    EndsAtHead ((ls ++ [[]]).flatMap (fun l => l ++ [10]) ++ body) ↔ body = [] := by
  have hall : ∀ l ∈ ls ++ [[]], (10 : UInt8) ∉ l ∧ 13 ∉ l :=
    List.forall_mem_append.mpr ⟨fun l hl => (h l hl).2, by decide⟩
  have hlines : lines ((ls ++ [[]]).flatMap (fun l => l ++ [10]) ++ body) =
      ls ++ [] :: lines body := by
    rw [lines_lf hall, List.append_assoc]
    rfl
  rw [endsAtHead_iff_of_lines hlines, lines_eq_nil_iff]
  exact and_iff_right fun hmem => (h [] hmem).1 rfl

end HttpMessage
