import RunNginx.Lib.HttpMessage

/-!
# Connection options as a recipient reads them

The recipient ends a line at LF or CRLF and the head at the first empty line.  A head asks
to keep the connection when one of its Connection options is `keep-alive` and none is
`close`.

`saysKeepAlive_message` reads a head whose last line is such an option, whatever the lines
in front of it hold: `headSays` is what the recipient then understands.
-/

namespace HttpMessage

open ByteString

/-- The lines of the head. -/
def headOf (s : Bytes) : List Bytes :=
  (lines s).takeWhile fun l => !l.isEmpty

/-- The options of the Connection fields. -/
def connectionOptions (ls : List Bytes) : List Bytes :=
  (valuesOf (ascii "connection") ls).flatMap fun v => (splitByte 44 v).map (trimBy isOws)

def hasOption (option : Bytes) (ls : List Bytes) : Bool :=
  (connectionOptions ls).any fun o => eqIgnoreCase o option

/-- The fields ask to keep the connection. -/
def persists (ls : List Bytes) : Bool :=
  hasOption (ascii "keep-alive") ls && !hasOption (ascii "close") ls

/-- The message asks to keep the connection. -/
def saysKeepAlive (s : Bytes) : Bool :=
  persists (headOf s).tail

section Lines

theorem splitLines_ne_nil
    {s : Bytes} (h : s ≠ []) :
    splitLines s ≠ [] := by
  cases s with
  | nil => exact absurd rfl h
  | cons b s =>
      unfold splitLines
      split
      · exact List.cons_ne_nil _ _
      split
      · exact List.cons_ne_nil _ _
      · exact List.cons_ne_nil _ _

/-- What follows a line feed is split on its own. -/
theorem splitLines_append
    (a s : Bytes) :
    splitLines (a ++ 10 :: s) = splitLines (a ++ [10]) ++ splitLines s := by
  induction a with
  | nil => rfl
  | cons b a ih =>
      rw [List.cons_append, List.cons_append, splitLines, splitLines]
      split
      · rw [ih]
        rfl
      · rw [ih]
        cases hfirst : splitLines (a ++ [10]) with
        | nil => exact absurd hfirst (splitLines_ne_nil (by simp))
        | cons line rest => rfl

theorem splitLines_line
    {l : Bytes} (h : 10 ∉ l) :
    splitLines (l ++ [10]) = [l ++ [10]] := by
  induction l with
  | nil => rfl
  | cons b l ih =>
      have hb : b ≠ 10 := fun hb => h (hb ▸ List.mem_cons_self)
      rw [List.cons_append, splitLines, if_neg hb, ih fun hl => h (List.mem_cons_of_mem b hl)]

theorem lines_append
    (a s : Bytes) :
    lines (a ++ 10 :: s) = lines (a ++ [10]) ++ lines s := by
  unfold lines
  rw [splitLines_append, List.map_append]

theorem lines_line
    {l : Bytes} (h : 10 ∉ l) (s : Bytes) :
    lines (l ++ crlf ++ s) = l :: lines s := by
  have hlf : (10 : UInt8) ∉ l ++ [13] := by
    rw [List.mem_append, List.mem_singleton]
    rintro (hl | hl)
    · exact h hl
    · cases hl
  have hsplit : l ++ crlf ++ s = (l ++ [13]) ++ 10 :: s := by
    simp [crlf]
  have hchomp : chomp (l ++ [13] ++ [10]) = l := by
    unfold chomp
    rw [stripSuffix_eq_some_iff.mpr rfl]
    dsimp only
    rw [stripSuffix_eq_some_iff.mpr rfl]
    rfl
  rw [hsplit, lines_append]
  unfold lines
  rw [splitLines_line hlf, List.map_singleton, hchomp]
  rfl

/-- A line that is ended by LF. -/
theorem lines_lf_line
    {l : Bytes} (h : 10 ∉ l ∧ 13 ∉ l) (s : Bytes) :
    lines (l ++ 10 :: s) = l :: lines s := by
  have hchomp : chomp (l ++ [10]) = l := by
    unfold chomp
    rw [stripSuffix_eq_some_iff.mpr rfl]
    dsimp only
    cases hstrip : stripSuffix [13] l with
    | none => rfl
    | some t =>
        rw [stripSuffix_eq_some_iff.mp hstrip] at h
        exact absurd (List.mem_append_right t List.mem_cons_self) h.2
  rw [lines_append]
  unfold lines
  rw [splitLines_line h.1, List.map_singleton, hchomp]
  rfl

/-- A line feed stands at the end of a line only. -/
theorem mem_splitLines
    {line s : Bytes} (h : line ∈ splitLines s) :
    ∃ t, 10 ∉ t ∧ (line = t ∨ line = t ++ [10]) := by
  induction s generalizing line with
  | nil => cases h
  | cons b s ih =>
      unfold splitLines at h
      split at h
      · rcases List.mem_cons.mp h with rfl | h
        · exact ⟨[], List.not_mem_nil, Or.inr rfl⟩
        · exact ih h
      · rename_i hb
        have hcons : ∀ t : Bytes, 10 ∉ t → 10 ∉ b :: t := by
          intro t ht hmem
          rcases List.mem_cons.mp hmem with h | h
          · exact hb h.symm
          · exact ht h
        split at h
        · rw [List.mem_singleton.mp h]
          exact ⟨[b], hcons [] List.not_mem_nil, Or.inl rfl⟩
        · rename_i first rest hsplit
          rcases List.mem_cons.mp h with rfl | h
          · obtain ⟨t, ht, rfl | rfl⟩ := ih (hsplit ▸ List.mem_cons_self)
            · exact ⟨b :: first, hcons first ht, Or.inl rfl⟩
            · exact ⟨b :: t, hcons t ht, Or.inr rfl⟩
          · exact ih (hsplit ▸ List.mem_cons_of_mem _ h)

theorem not_lf_of_mem_lines
    {l s : Bytes} (h : l ∈ lines s) :
    10 ∉ l := by
  obtain ⟨line, hline, rfl⟩ := List.mem_map.mp h
  obtain ⟨t, ht, rfl | rfl⟩ := mem_splitLines hline
  · have hnone : stripSuffix [10] line = none := by
      cases hstrip : stripSuffix [10] line with
      | none => rfl
      | some u =>
          rw [stripSuffix_eq_some_iff.mp hstrip] at ht
          exact absurd (List.mem_append_right u List.mem_cons_self) ht
    unfold chomp
    rw [hnone]
    exact ht
  · unfold chomp
    rw [stripSuffix_eq_some_iff.mpr rfl]
    dsimp only
    cases hstrip : stripSuffix [13] t with
    | none => exact ht
    | some u =>
        rw [stripSuffix_eq_some_iff.mp hstrip] at ht
        exact fun hu => ht (List.mem_append_left _ hu)

theorem lines_joinLines_append
    (ls : List Bytes) (s : Bytes) :
    lines (joinLines ls ++ s) = lines (joinLines ls) ++ lines s := by
  induction ls with
  | nil => rfl
  | cons l ls ih =>
      have hsplit : ∀ t : Bytes, l ++ crlf ++ t = (l ++ [13]) ++ 10 :: t := by
        simp [crlf]
      rw [joinLines_cons, List.append_assoc (l ++ crlf), hsplit, hsplit, lines_append,
        lines_append (l ++ [13]) (joinLines ls), ih]
      exact (List.append_assoc _ _ _).symm

theorem lines_joinLines
    {ls : List Bytes} (h : ∀ l ∈ ls, 10 ∉ l) :
    lines (joinLines ls) = ls := by
  induction ls with
  | nil => rfl
  | cons l ls ih =>
      rw [joinLines_cons, lines_line (h l List.mem_cons_self),
        ih fun l hl => h l (List.mem_cons_of_mem _ hl)]

/-- Lines that are ended by LF. -/
theorem lines_lf
    {ls : List Bytes} (h : ∀ l ∈ ls, 10 ∉ l ∧ 13 ∉ l) (s : Bytes) :
    lines (ls.flatMap (fun l => l ++ [10]) ++ s) = ls ++ lines s := by
  induction ls with
  | nil => rfl
  | cons l ls ih =>
      have hone := lines_lf_line (h l List.mem_cons_self)
        (ls.flatMap (fun l => l ++ [10]) ++ s)
      rw [ih fun l hl => h l (List.mem_cons_of_mem _ hl)] at hone
      rw [List.flatMap_cons, List.append_assoc, List.append_assoc]
      exact hone

end Lines

section Options

theorem connectionOptions_append
    (ls ls' : List Bytes) :
    connectionOptions (ls ++ ls') = connectionOptions ls ++ connectionOptions ls' := by
  unfold connectionOptions valuesOf
  rw [List.filterMap_append, List.flatMap_append]

theorem hasOption_append
    (option : Bytes) (ls ls' : List Bytes) :
    hasOption option (ls ++ ls') = (hasOption option ls || hasOption option ls') := by
  unfold hasOption
  rw [connectionOptions_append, List.any_append]

/-- A line of another field. -/
def OtherField (l : Bytes) : Prop :=
  l ≠ [] ∧ 10 ∉ l ∧ valueOf (ascii "connection") l = none

instance (l : Bytes) : Decidable (OtherField l) := by
  unfold OtherField
  infer_instance

theorem hasOption_other
    {ls : List Bytes} (h : ∀ l ∈ ls, OtherField l) (option : Bytes) :
    hasOption option ls = false := by
  have hnone : valuesOf (ascii "connection") ls = [] :=
    List.filterMap_eq_nil_iff.mpr fun l hl => (h l hl).2.2
  unfold hasOption connectionOptions
  rw [hnone]
  rfl

theorem persists_other
    {ls : List Bytes} (h : ∀ l ∈ ls, OtherField l) (before after : List Bytes) :
    persists (before ++ (ls ++ after)) = persists (before ++ after) := by
  unfold persists
  rw [hasOption_append, hasOption_append, hasOption_append, hasOption_append,
    hasOption_other h, hasOption_other h, hasOption_append, hasOption_append, Bool.false_or,
    Bool.false_or]

end Options

section Heads

/-- The Connection line that keeps or closes the connection. -/
def connectionLine (keepAlive : Bool) : Bytes :=
  if keepAlive then ascii "Connection: keep-alive" else ascii "Connection: close"

/--
What a recipient understands who reads these lines in front of a Connection line.  Lines
that hold line ends may end the head before it.
-/
def headSays (ls : List Bytes) (keepAlive : Bool) : Bool :=
  if [] ∈ lines (joinLines ls) then
    persists ((lines (joinLines ls)).takeWhile fun l => !l.isEmpty)
  else keepAlive && !hasOption (ascii "close") (lines (joinLines ls))

theorem takeWhile_of_mem
    {ls : List Bytes} (h : [] ∈ ls) (more : List Bytes) :
    (ls ++ more).takeWhile (fun l => !l.isEmpty) = ls.takeWhile fun l => !l.isEmpty := by
  induction ls with
  | nil => cases h
  | cons l ls ih =>
      cases l with
      | nil => rfl
      | cons b l =>
          have hrest : [] ∈ ls := by
            rcases List.mem_cons.mp h with h | h
            · cases h
            · exact h
          rw [List.cons_append, List.takeWhile_cons_of_pos rfl, ih hrest,
            List.takeWhile_cons_of_pos rfl]

theorem takeWhile_of_not_mem
    {ls : List Bytes} (h : [] ∉ ls) (more : List Bytes) :
    (ls ++ more).takeWhile (fun l => !l.isEmpty) =
      ls ++ more.takeWhile fun l => !l.isEmpty := by
  refine List.takeWhile_append_of_pos ?_
  intro l hl
  cases l with
  | nil => exact absurd hl h
  | cons b l => rfl

/-- What a message says whose head ends with a Connection line. -/
theorem saysKeepAlive_message
    {startLine : Bytes} (hstart : startLine ≠ [] ∧ 10 ∉ startLine)
    (ls : List Bytes) (keepAlive : Bool) (body : Bytes) :
    saysKeepAlive (joinLines (startLine :: (ls ++ [connectionLine keepAlive])) ++ crlf ++ body) =
      headSays ls keepAlive := by
  have hconnection : (10 : UInt8) ∉ connectionLine keepAlive := by
    cases keepAlive with
    | true => decide
    | false => decide
  have hlines : lines (joinLines (startLine :: (ls ++ [connectionLine keepAlive])) ++ crlf ++
      body) =
      startLine :: (lines (joinLines ls) ++ connectionLine keepAlive :: [] :: lines body) := by
    have hjoin : joinLines (startLine :: (ls ++ [connectionLine keepAlive])) ++ crlf ++ body =
        startLine ++ crlf ++ (joinLines ls ++ (connectionLine keepAlive ++ crlf ++
          ([] ++ crlf ++ body))) := by
      simp [joinLines]
    rw [hjoin, lines_line hstart.2, lines_joinLines_append, lines_line hconnection,
      lines_line List.not_mem_nil]
  unfold saysKeepAlive headOf headSays
  rw [hlines, List.takeWhile_cons_of_pos (by simpa using hstart.1), List.tail_cons]
  split
  · rename_i hblank
    rw [takeWhile_of_mem hblank]
  · rename_i hblank
    have hone : (connectionLine keepAlive :: [] :: lines body).takeWhile (fun l => !l.isEmpty) =
        [connectionLine keepAlive] := by
      cases keepAlive with
      | true => rfl
      | false => rfl
    rw [takeWhile_of_not_mem hblank, hone]
    unfold persists
    rw [hasOption_append, hasOption_append]
    cases keepAlive with
    | true =>
        have hkeep : hasOption (ascii "keep-alive") [connectionLine true] = true := by decide
        have hclose : hasOption (ascii "close") [connectionLine true] = false := by decide
        rw [hkeep, hclose, Bool.or_true, Bool.or_false]
    | false =>
        have hclose : hasOption (ascii "close") [connectionLine false] = true := by decide
        rw [hclose, Bool.or_true, Bool.not_true, Bool.and_false]
        rfl

/-- Lines of other fields change nothing. -/
theorem headSays_other
    {ls : List Bytes} (h : ∀ l ∈ ls, OtherField l) (before after : List Bytes)
    (keepAlive : Bool) :
    headSays (before ++ (ls ++ after)) keepAlive = headSays (before ++ after) keepAlive := by
  have hjoin : ∀ a b : List Bytes, joinLines (a ++ b) = joinLines a ++ joinLines b := by
    intro a b
    simp [joinLines]
  have hblank : [] ∉ ls := fun hmem => (h [] hmem).1 rfl
  unfold headSays
  rw [hjoin, hjoin, hjoin, lines_joinLines_append, lines_joinLines_append,
    lines_joinLines_append, lines_joinLines fun l hl => (h l hl).2.1]
  generalize lines (joinLines before) = xs
  generalize lines (joinLines after) = ys
  by_cases hxs : [] ∈ xs
  · rw [if_pos (List.mem_append_left _ hxs), if_pos (List.mem_append_left _ hxs),
      takeWhile_of_mem hxs, takeWhile_of_mem hxs]
  · rw [takeWhile_of_not_mem hxs, takeWhile_of_not_mem hxs, takeWhile_of_not_mem hblank,
      persists_other h, hasOption_append, hasOption_append, hasOption_other h, Bool.false_or,
      hasOption_append]
    have hmem : [] ∈ xs ++ (ls ++ ys) ↔ [] ∈ xs ++ ys := by
      simp [hxs, hblank]
    simp only [hmem]

/-- A message whose lines are ended by LF. -/
theorem saysKeepAlive_lfMessage
    {startLine : Bytes} (hstart : startLine ≠ [] ∧ 10 ∉ startLine ∧ 13 ∉ startLine)
    (ls : List Bytes) (h : ∀ l ∈ ls, OtherField l ∧ 13 ∉ l) (keepAlive : Bool) (body : Bytes) :
    saysKeepAlive (((startLine :: ls) ++ [connectionLine keepAlive, []]).flatMap
      (fun l => l ++ [10]) ++ body) = keepAlive := by
  have hconnection : (10 : UInt8) ∉ connectionLine keepAlive ∧ 13 ∉ connectionLine keepAlive := by
    cases keepAlive with
    | true => decide
    | false => decide
  have hall : ∀ l ∈ (startLine :: ls) ++ [connectionLine keepAlive, []],
      (10 : UInt8) ∉ l ∧ 13 ∉ l := by
    refine List.forall_mem_append.mpr ⟨List.forall_mem_cons.mpr ⟨hstart.2, ?_⟩, ?_⟩
    · exact fun l hl => ⟨(h l hl).1.2.1, (h l hl).2⟩
    · exact List.forall_mem_cons.mpr ⟨hconnection, by decide⟩
  have hblank : [] ∉ startLine :: ls := by
    rw [List.mem_cons]
    rintro (hmem | hmem)
    · exact hstart.1 hmem.symm
    · exact (h [] hmem).1.1 rfl
  have hone : ((connectionLine keepAlive :: [[]]) ++ lines body).takeWhile (fun l => !l.isEmpty) =
      [connectionLine keepAlive] := by
    cases keepAlive with
    | true => rfl
    | false => rfl
  unfold saysKeepAlive headOf
  rw [lines_lf hall, List.append_assoc, takeWhile_of_not_mem hblank, hone, List.cons_append,
    List.tail_cons]
  have hdrop := persists_other (fun l hl => (h l hl).1) [] [connectionLine keepAlive]
  rw [List.nil_append, List.nil_append] at hdrop
  rw [hdrop]
  cases keepAlive with
  | true => decide
  | false => decide

theorem headSays_of_other
    {ls : List Bytes} (h : ∀ l ∈ ls, OtherField l) (keepAlive : Bool) :
    headSays ls keepAlive = keepAlive := by
  have hdrop := headSays_other h [] [] keepAlive
  rw [List.nil_append, List.append_nil] at hdrop
  rw [hdrop]
  cases keepAlive with
  | true => rfl
  | false => rfl

end Heads

end HttpMessage
