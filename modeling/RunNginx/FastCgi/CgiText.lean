import RunNginx.FastCgi
import RunNginx.Lib.Persistence
import RunNginx.Server.Response

/-!
# CGI output and how it is read back

A script writes a status line and header lines, each with a line end of its own choice, an
empty line and the body.

`cgi_read_back_iff`: the parser gives back what was written, but for LF line ends in front
of a body with an empty CRLF line: that one is taken for the end of the headers.
-/

namespace RunNginx
namespace FastCgi

open ByteString

section Layout

/-- Lines with a line end between them. -/
def joined (eol l : Bytes) (ls : List Bytes) : Bytes :=
  l ++ ls.flatMap fun m => eol ++ m

/-- A line that has text and no line end in it. -/
structure PlainLine (l : Bytes) : Prop where
  ne_nil : l ≠ []
  lf : 10 ∉ l
  cr : 13 ∉ l

variable {eol l body : Bytes} {ls : List Bytes}

theorem joined_cons
    (eol l m : Bytes) (ls : List Bytes) :
    joined eol l (m :: ls) = l ++ (eol ++ joined eol m ls) := by
  rw [joined, List.flatMap_cons, List.append_assoc, joined]

theorem flatMap_eol
    (eol l : Bytes) (ls : List Bytes) :
    (l :: ls).flatMap (fun m => m ++ eol) = joined eol l ls ++ eol := by
  induction ls generalizing l with
  | nil => simp [joined]
  | cons m ls ih =>
      rw [List.flatMap_cons, ih, joined_cons, List.append_assoc, List.append_assoc,
        List.append_assoc]

theorem joined_head
    (eol : Bytes) (h : PlainLine l) (ls : List Bytes) :
    ∃ b t, joined eol l ls = b :: t ∧ b ≠ 10 ∧ b ≠ 13 := by
  obtain ⟨b, t, rfl⟩ := List.exists_cons_of_ne_nil h.ne_nil
  refine ⟨b, t ++ ls.flatMap fun m => eol ++ m, rfl, ?_, ?_⟩
  · exact fun heq => h.lf (heq ▸ List.mem_cons_self)
  · exact fun heq => h.cr (heq ▸ List.mem_cons_self)

/-- A line end in front of text is no empty line. -/
theorem find_blank_skip
    (heol : eol = crlf ∨ eol = [10]) {b : UInt8} (hlf : b ≠ 10) (hcr : b ≠ 13) (t : Bytes) :
    find (eol ++ eol) (eol ++ b :: t) = (find (eol ++ eol) (b :: t)).map (eol.length + ·) := by
  rcases heol with rfl | rfl
  · have hfirst : (crlf ++ crlf).isPrefixOf (13 :: 10 :: b :: t) = false := by
      simp [crlf, List.isPrefixOf, Ne.symm hcr]
    have hsecond : (crlf ++ crlf).isPrefixOf (10 :: b :: t) = false := by
      simp [crlf, List.isPrefixOf]
    have hline : crlf ++ b :: t = 13 :: 10 :: b :: t := rfl
    rw [hline, find, hfirst, find, hsecond]
    simp only [Bool.false_eq_true, if_false, Option.map_map]
    congr 1
    funext i
    exact Nat.add_comm i 2
  · have hfirst : ([10] ++ [10] : Bytes).isPrefixOf (10 :: b :: t) = false := by
      simp [List.isPrefixOf, Ne.symm hlf]
    have hline : [10] ++ b :: t = 10 :: b :: t := rfl
    have hstep : find ([10] ++ [10]) (10 :: b :: t) =
        if ([10] ++ [10] : Bytes).isPrefixOf (10 :: b :: t) then some 0
        else (find ([10] ++ [10]) (b :: t)).map (· + 1) := rfl
    rw [hline, hstep, hfirst]
    simp only [Bool.false_eq_true, if_false]
    congr 1
    funext i
    exact Nat.add_comm i 1

/-- The first empty line is the one behind the lines. -/
theorem find_blank
    (heol : eol = crlf ∨ eol = [10]) (hplain : ∀ m ∈ l :: ls, PlainLine m) (body : Bytes) :
    find (eol ++ eol) (joined eol l ls ++ (eol ++ (eol ++ body))) =
      some (joined eol l ls).length := by
  obtain ⟨c, e, hc, hfree⟩ : ∃ c e, eol ++ eol = c :: e ∧ ∀ m, PlainLine m → c ∉ m := by
    rcases heol with rfl | rfl
    · exact ⟨13, [10, 13, 10], rfl, fun m hm => hm.cr⟩
    · exact ⟨10, [10], rfl, fun m hm => hm.lf⟩
  induction ls generalizing l with
  | nil =>
      have hself := find_self_append (hc ▸ List.cons_ne_nil c e) body
      have hl := hfree l (hplain l List.mem_cons_self)
      rw [joined, List.flatMap_nil, List.append_nil, hc, find_append_of_not_mem hl, ← hc,
        ← List.append_assoc, hself]
      rfl
  | cons m ls ih =>
      obtain ⟨hl, hls⟩ := List.forall_mem_cons.mp hplain
      obtain ⟨hm, -⟩ := List.forall_mem_cons.mp hls
      obtain ⟨b, t, htext, hlf, hcr⟩ := joined_head eol hm ls
      have hskip := find_blank_skip heol hlf hcr (t ++ (eol ++ (eol ++ body)))
      rw [← List.cons_append, ← htext] at hskip
      rw [joined_cons, List.append_assoc, List.append_assoc, hc, find_append_of_not_mem (hfree l hl),
        ← hc, hskip, ih hls]
      simp only [Option.map_some, List.length_append]

theorem lines_last
    (h : PlainLine l) :
    lines l = [l] := by
  have hsplit : ∀ l : Bytes, l ≠ [] → 10 ∉ l → splitLines l = [l] := by
    intro l hne hlf
    induction l with
    | nil => exact absurd rfl hne
    | cons b l ih =>
        rw [splitLines, if_neg (Ne.symm (List.ne_of_not_mem_cons hlf))]
        cases l with
        | nil => rfl
        | cons c l => rw [ih (List.cons_ne_nil c l) (List.not_mem_of_not_mem_cons hlf)]
  have hchomp : chomp l = l := by
    unfold chomp
    cases hstrip : stripSuffix [10] l with
    | none => rfl
    | some t =>
        have hmem : 10 ∈ l := by
          rw [stripSuffix_eq_some_iff.mp hstrip]
          simp
        exact absurd hmem h.lf
  unfold lines
  rw [hsplit l h.ne_nil h.lf, List.map_singleton, hchomp]

/-- The lines are read as they were written. -/
theorem lines_joined
    (heol : eol = crlf ∨ eol = [10]) (hplain : ∀ m ∈ l :: ls, PlainLine m) :
    lines (joined eol l ls) = l :: ls := by
  induction ls generalizing l with
  | nil =>
      rw [joined, List.flatMap_nil, List.append_nil]
      exact lines_last (hplain l List.mem_cons_self)
  | cons m ls ih =>
      obtain ⟨hl, hls⟩ := List.forall_mem_cons.mp hplain
      rw [joined_cons]
      rcases heol with rfl | rfl
      · rw [← List.append_assoc, HttpMessage.lines_line hl.lf, ih hls]
      · rw [List.singleton_append, HttpMessage.lines_lf_line ⟨hl.lf, hl.cr⟩, ih hls]

theorem isUtf8_joined
    (heol : Utf8.isUtf8 eol = true) (hutf8 : ∀ m ∈ l :: ls, Utf8.isUtf8 m = true) :
    Utf8.isUtf8 (joined eol l ls) = true := by
  induction ls generalizing l with
  | nil =>
      rw [joined, List.flatMap_nil, List.append_nil]
      exact hutf8 l List.mem_cons_self
  | cons m ls ih =>
      obtain ⟨hl, hls⟩ := List.forall_mem_cons.mp hutf8
      rw [joined_cons]
      exact Utf8.isUtf8_append hl (Utf8.isUtf8_append heol (ih hls))

end Layout

section Headers

/-- A header as a script can write it. -/
structure Writable (h : Bytes × Bytes) : Prop where
  utf8 : Utf8.isUtf8 h.1 = true ∧ Utf8.isUtf8 h.2 = true
  lf : 10 ∉ h.1 ∧ 10 ∉ h.2
  cr : 13 ∉ h.1 ∧ 13 ∉ h.2
  trimmed : Utf8.trim h.1 = h.1 ∧ Utf8.trim h.2 = h.2
  colon : 58 ∉ h.1
  not_status : h.1 ≠ ascii "Status"
  not_length : h.1 ≠ ascii "Content-Length"

variable {h : Bytes × Bytes} {headers : Headers} {status : Nat} {reason : Bytes}

theorem Writable.plain
    (hw : Writable h) :
    PlainLine (Response.headerLine h) := by
  rw [Response.headerLine_eq]
  refine ⟨?_, ?_, ?_⟩
  · simp
  · simpa using hw.lf
  · simpa using hw.cr

theorem Writable.isUtf8_headerLine
    (hw : Writable h) :
    Utf8.isUtf8 (Response.headerLine h) = true :=
  Utf8.isUtf8_append (Utf8.isUtf8_append hw.utf8.1 (by decide)) hw.utf8.2

/-- A header line is read as its header. -/
theorem Writable.splitHeader_eq
    (hw : Writable h) :
    Proxy.splitHeader (Response.headerLine h) = some h := by
  rw [Proxy.splitHeader, Response.headerLine_eq, find_byte_append hw.colon, Option.map_some,
    List.take_left, ← List.drop_drop, List.drop_left, List.drop_one, List.tail_cons,
    Utf8.trim_space, hw.trimmed.1, hw.trimmed.2]

/-- Only the header of that name is taken for the status line. -/
theorem Writable.not_statusLine
    (hw : Writable h) :
    stripPrefix (ascii "Status:") (Response.headerLine h) = none := by
  rw [Option.eq_none_iff_forall_ne_some]
  intro rest hstrip
  have heq := stripPrefix_eq_some_iff.mp hstrip
  have hsplit : ascii "Status:" ++ rest = ascii "Status" ++ 58 :: rest := by
    have hname : ascii "Status:" = ascii "Status" ++ [58] := by
      decide
    rw [hname, List.append_assoc, List.singleton_append]
  rw [Response.headerLine_eq, hsplit] at heq
  have hfind := find_byte_append (by decide : 58 ∉ ascii "Status") rest
  rw [← heq, find_byte_append hw.colon] at hfind
  exact hw.not_status (List.append_inj_left heq (Option.some.inj hfind))

/-- Header lines are collected in their order. -/
theorem cgiHeaders_map
    (hwritable : ∀ h ∈ headers, Writable h) (status : Nat) (front : Headers) :
    cgiHeaders status front (headers.map Response.headerLine) = (status, front ++ headers) := by
  induction headers generalizing front with
  | nil => rw [List.map_nil, cgiHeaders, List.append_nil]
  | cons h headers ih =>
      obtain ⟨hw, hrest⟩ := List.forall_mem_cons.mp hwritable
      rw [List.map_cons, cgiHeaders, if_neg hw.plain.ne_nil, hw.not_statusLine]
      dsimp only
      rw [hw.splitHeader_eq]
      dsimp only
      rw [ih hrest, List.append_assoc, List.singleton_append]

/-- What may stand behind the number of a status line. -/
structure Reason (reason : Bytes) : Prop where
  apart : reason = [] ∨ ∃ text, reason = 32 :: text
  utf8 : Utf8.isUtf8 reason = true
  lf : 10 ∉ reason
  cr : 13 ∉ reason

def statusLine (status : Nat) (reason : Bytes) : Bytes :=
  ascii "Status: " ++ (Decimal.render status ++ reason)

/-- The number is the first word behind the name of the line. -/
theorem head?_words_status
    (hreason : Reason reason) (n : Nat) :
    (Utf8.splitWhitespace (Utf8.trim (32 :: (Decimal.render n ++ reason)))).head? =
      some (Decimal.render n) := by
  obtain ⟨u, b, hconcat⟩ :=
    (List.eq_nil_or_concat (Decimal.render n)).resolve_left (Decimal.render_ne_nil n)
  rw [List.concat_eq_append] at hconcat
  have hb : Utf8.isVisible b = true :=
    Utf8.visible_of_mem_render (n := n) (by rw [hconcat]; simp)
  obtain ⟨c, t, hcons⟩ := List.exists_cons_of_ne_nil (Decimal.render_ne_nil n)
  have hc : Utf8.isVisible c = true :=
    Utf8.visible_of_mem_render (n := n) (by rw [hcons]; exact List.mem_cons_self)
  have htrim : ∃ rest, rest <+: reason ∧
      Utf8.trim (Decimal.render n ++ reason) = Decimal.render n ++ rest := by
    have hstart : ∀ fuel, Utf8.trimStartLoop fuel (Decimal.render n ++ reason) =
        Decimal.render n ++ reason := by
      intro fuel
      rw [hcons]
      exact Utf8.trimStartLoop_of_visible hc fuel
    obtain ⟨rest, hrest, hend⟩ := Utf8.trimEndLoop_behind_visible hb u
      (Decimal.render n ++ reason).length reason
    refine ⟨rest, hrest, ?_⟩
    unfold Utf8.trim
    simp only [hstart]
    rw [hconcat, List.append_assoc, List.singleton_append, List.append_assoc,
      List.singleton_append, ← hend, hconcat, List.append_assoc, List.singleton_append]
  obtain ⟨rest, hfront, heq⟩ := htrim
  have hapart : rest = [] ∨ ∃ text, rest = 32 :: text := by
    rcases hreason.apart with rfl | ⟨text, rfl⟩
    · exact .inl (List.prefix_nil.mp hfront)
    · rcases List.prefix_cons_iff.mp hfront with rfl | ⟨text', rfl, -⟩
      · exact .inl rfl
      · exact .inr ⟨text', rfl⟩
  rw [Utf8.trim_space, heq]
  exact Utf8.head?_splitWhitespace (Decimal.render_ne_nil n)
    (fun b hb => Utf8.visible_of_mem_render hb) hapart

theorem plain_statusLine
    (hreason : Reason reason) (status : Nat) :
    PlainLine (statusLine status reason) := by
  have hdigit : ∀ b, b = 10 ∨ b = 13 → b ∉ Decimal.render status := by
    intro b hb hmem
    have hvisible := Utf8.visible_of_mem_render hmem
    rcases hb with rfl | rfl <;> exact absurd hvisible (by decide)
  refine ⟨?_, ?_, ?_⟩
  · simp [statusLine, Decimal.render_ne_nil]
  · simp only [statusLine, List.mem_append, not_or]
    exact ⟨by decide, hdigit 10 (.inl rfl), hreason.lf⟩
  · simp only [statusLine, List.mem_append, not_or]
    exact ⟨by decide, hdigit 13 (.inr rfl), hreason.cr⟩

theorem isUtf8_statusLine
    (hreason : Reason reason) (status : Nat) :
    Utf8.isUtf8 (statusLine status reason) = true := by
  refine Utf8.isUtf8_append (by decide) (Utf8.isUtf8_append ?_ hreason.utf8)
  refine Utf8.isUtf8_ascii fun b hb => ?_
  exact of_decide_eq_true (Bool.and_eq_true_iff.mp (Utf8.visible_of_mem_render hb)).2

/-- The lines of the head are read as the status and the headers. -/
theorem cgiHeaders_statusLine
    (hstatus : status < Decimal.u16Bound) (hreason : Reason reason)
    (hwritable : ∀ h ∈ headers, Writable h) :
    cgiHeaders 200 [] (statusLine status reason :: headers.map Response.headerLine) =
      (status, headers) := by
  have hsplit : ascii "Status: " = ascii "Status:" ++ [32] := by
    decide
  have hstrip : stripPrefix (ascii "Status:") (statusLine status reason) =
      some (32 :: (Decimal.render status ++ reason)) := by
    rw [stripPrefix_eq_some_iff, statusLine, hsplit, List.append_assoc, List.singleton_append]
  rw [cgiHeaders, if_neg (plain_statusLine hreason status).ne_nil, hstrip]
  dsimp only
  rw [head?_words_status hreason, Option.bind_some, Decimal.parseUnsigned_render hstatus,
    Option.getD_some, cgiHeaders_map hwritable, List.nil_append]

end Headers

section ReadBack

variable {eol reason : Bytes} {status : Nat} {headers : Headers}

/-- The output of a script. -/
def cgiOutput (eol : Bytes) (status : Nat) (reason : Bytes) (headers : Headers) (body : Bytes) :
    Bytes :=
  (statusLine status reason :: headers.map Response.headerLine).flatMap (fun l => l ++ eol) ++
    eol ++ body

/-- The response that is meant by it. -/
def cgiMeaning (status : Nat) (headers : Headers) (body : Bytes) : StaticFiles.StaticResponse :=
  ⟨status, headers ++ [(ascii "Content-Length", Decimal.render body.length)], body⟩

/-- The text of the head, without the two line ends behind it. -/
def headText (eol : Bytes) (status : Nat) (reason : Bytes) (headers : Headers) : Bytes :=
  joined eol (statusLine status reason) (headers.map Response.headerLine)

theorem cgiOutput_eq
    (eol : Bytes) (status : Nat) (reason : Bytes) (headers : Headers) (body : Bytes) :
    cgiOutput eol status reason headers body =
      headText eol status reason headers ++ (eol ++ (eol ++ body)) := by
  rw [cgiOutput, flatMap_eol, headText, List.append_assoc, List.append_assoc]

theorem plain_lines
    (hreason : Reason reason) (hwritable : ∀ h ∈ headers, Writable h) (status : Nat) :
    ∀ m ∈ statusLine status reason :: headers.map Response.headerLine, PlainLine m := by
  refine List.forall_mem_cons.mpr ⟨plain_statusLine hreason status, fun m hm => ?_⟩
  obtain ⟨h, hh, rfl⟩ := List.mem_map.mp hm
  exact (hwritable h hh).plain

/-- Where the end of the head is found, the output is read as what it means. -/
theorem parseCgiResponse_of_headerEnd
    (heol : eol = crlf ∨ eol = [10]) (hstatus : status < Decimal.u16Bound)
    (hreason : Reason reason) (hwritable : ∀ h ∈ headers, Writable h)
    (body : Bytes)
    (hend : headerEnd (cgiOutput eol status reason headers body) =
      some ((headText eol status reason headers).length,
        (headText eol status reason headers).length + (eol ++ eol).length)) :
    parseCgiResponse (cgiOutput eol status reason headers body) =
      .ok ⟨status,
        if headers.any fun h => eqIgnoreCase h.1 (ascii "content-length") then headers
        else headers ++ [(ascii "Content-Length", Decimal.render body.length)], body⟩ := by
  have hplain := plain_lines hreason hwritable status
  have hutf8 : Utf8.isUtf8 (headText eol status reason headers) = true := by
    refine isUtf8_joined ?_ (List.forall_mem_cons.mpr
      ⟨isUtf8_statusLine hreason status, fun m hm => ?_⟩)
    · rcases heol with rfl | rfl <;> decide
    · obtain ⟨h, hh, rfl⟩ := List.mem_map.mp hm
      exact (hwritable h hh).isUtf8_headerLine
  have hbody : (headText eol status reason headers ++ (eol ++ (eol ++ body))).drop
      ((headText eol status reason headers).length + (eol ++ eol).length) = body := by
    rw [← List.drop_drop, List.drop_left, ← List.append_assoc, List.drop_left]
  unfold parseCgiResponse
  rw [hend]
  dsimp only
  rw [cgiOutput_eq, List.take_left, hutf8, hbody, headText, lines_joined heol hplain,
    cgiHeaders_statusLine hstatus hreason hwritable]
  rfl

theorem headerEnd_crlf
    (hreason : Reason reason) (hwritable : ∀ h ∈ headers, Writable h) (status : Nat)
    (body : Bytes) :
    headerEnd (cgiOutput crlf status reason headers body) =
      some ((headText crlf status reason headers).length,
        (headText crlf status reason headers).length + (crlf ++ crlf).length) := by
  have hfind := find_blank (.inl rfl) (plain_lines hreason hwritable status) body
  unfold headerEnd
  rw [cgiOutput_eq, headText, hfind]
  rfl

/-- Behind LF line ends, an empty CRLF line is one of the body. -/
theorem find_crlf_blank
    (hreason : Reason reason) (hwritable : ∀ h ∈ headers, Writable h) (status : Nat)
    (body : Bytes) :
    find (crlf ++ crlf) (cgiOutput [10] status reason headers body) =
      (find (crlf ++ crlf) body).map ((headText [10] status reason headers).length + 2 + ·) := by
  have hfree : 13 ∉ headText [10] status reason headers ++ [10, 10] := by
    have hplain := plain_lines hreason hwritable status
    obtain ⟨hline, hlines⟩ := List.forall_mem_cons.mp hplain
    simp only [headText, joined, List.mem_append, List.mem_flatMap, not_or, not_exists, not_and]
    exact ⟨⟨hline.cr, fun m hm => ⟨by decide, (hlines m hm).cr⟩⟩, by decide⟩
  have hsplit : cgiOutput [10] status reason headers body =
      (headText [10] status reason headers ++ [10, 10]) ++ body := by
    rw [cgiOutput_eq, List.append_assoc]
    rfl
  have hskip := find_append_of_not_mem hfree [10, 13, 10] body
  rw [hsplit]
  refine hskip.trans ?_
  rw [List.length_append]
  rfl

theorem headerEnd_lf
    (hreason : Reason reason) (hwritable : ∀ h ∈ headers, Writable h) (status : Nat)
    {body : Bytes} (hbody : ¬ crlf ++ crlf <:+: body) :
    headerEnd (cgiOutput [10] status reason headers body) =
      some ((headText [10] status reason headers).length,
        (headText [10] status reason headers).length + ([10] ++ [10] : Bytes).length) := by
  have hfind := find_blank (.inr rfl) (plain_lines hreason hwritable status) body
  have hblank := find_crlf_blank hreason hwritable status body
  have hnone : find (crlf ++ crlf) body = none := by
    rw [← contains_iff_infix (by decide), contains, Option.not_isSome_iff_eq_none] at hbody
    exact hbody
  rw [hnone, Option.map_none] at hblank
  unfold headerEnd
  rw [hblank, cgiOutput_eq, headText]
  rw [List.singleton_append] at hfind
  rw [hfind]
  rfl

/-- What is read behind an empty CRLF line of the body is not the body. -/
theorem parseCgiResponse_lf_ne
    (hreason : Reason reason) (hwritable : ∀ h ∈ headers, Writable h)
    {body : Bytes} (hbody : crlf ++ crlf <:+: body) :
    parseCgiResponse (cgiOutput [10] status reason headers body) ≠
      .ok (cgiMeaning status headers body) := by
  obtain ⟨i, hi⟩ : ∃ i, find (crlf ++ crlf) body = some i := by
    rw [← contains_iff_infix (by decide), contains] at hbody
    exact Option.isSome_iff_exists.mp hbody
  have hblank := find_crlf_blank hreason hwritable status body
  rw [hi, Option.map_some] at hblank
  have hpos : 0 < body.length := by
    have hle := hbody.length_le
    exact Nat.lt_of_lt_of_le (by decide) hle
  intro h
  unfold parseCgiResponse headerEnd at h
  rw [hblank] at h
  dsimp only at h
  split at h
  · cases h
  · have hread := congrArg StaticFiles.StaticResponse.body (Except.ok.inj h)
    have hlength := congrArg List.length hread
    rw [cgiOutput_eq] at hlength
    simp only [cgiMeaning, List.length_drop, List.length_append, List.length_singleton] at hlength
    omega

/--
The output of a script is read as what it means exactly if its lines end in CRLF or its body
has no empty CRLF line, and it does not declare a length under another spelling.
-/
theorem cgi_read_back_iff
    (heol : eol = crlf ∨ eol = [10]) (hstatus : status < Decimal.u16Bound)
    (hreason : Reason reason) (hwritable : ∀ h ∈ headers, Writable h) (body : Bytes) :
    parseCgiResponse (cgiOutput eol status reason headers body) =
        .ok (cgiMeaning status headers body) ↔
      (eol = crlf ∨ ¬ crlf ++ crlf <:+: body) ∧
        ∀ h ∈ headers, eqIgnoreCase h.1 (ascii "content-length") = false := by
  by_cases hfound : eol = crlf ∨ ¬ crlf ++ crlf <:+: body
  · have hend : headerEnd (cgiOutput eol status reason headers body) =
        some ((headText eol status reason headers).length,
          (headText eol status reason headers).length + (eol ++ eol).length) := by
      rcases heol with rfl | rfl
      · exact headerEnd_crlf hreason hwritable status body
      · exact headerEnd_lf hreason hwritable status (hfound.resolve_left (by decide))
    rw [parseCgiResponse_of_headerEnd heol hstatus hreason hwritable body hend,
      and_iff_right hfound, cgiMeaning, Except.ok.injEq]
    cases hany : headers.any fun h => eqIgnoreCase h.1 (ascii "content-length") with
    | false =>
        refine iff_of_true rfl fun h hh => ?_
        rw [List.any_eq_false] at hany
        exact Bool.eq_false_iff.mpr (hany h hh)
    | true =>
        refine iff_of_false (fun heq => ?_) fun hnone => ?_
        · have hheaders := congrArg StaticFiles.StaticResponse.headers heq
          have hlength := congrArg List.length hheaders
          simp at hlength
        · obtain ⟨h, hh, hnamed⟩ := List.any_eq_true.mp hany
          rw [hnone h hh] at hnamed
          cases hnamed
  · rw [not_or, not_not] at hfound
    obtain rfl := heol.resolve_left hfound.1
    refine iff_of_false (parseCgiResponse_lf_ne hreason hwritable hfound.2) fun h => ?_
    rcases h.1 with h | h
    · exact hfound.1 h
    · exact h hfound.2

theorem writable_example :
    ∀ h ∈ [(ascii "X-A", ascii "b c")], Writable h := by
  intro h hh
  obtain rfl := List.mem_singleton.mp hh
  exact ⟨by decide, by decide, by decide, by decide,
    by decide, by decide, by decide⟩

/-- LF line ends in front of a blank line, and CRLF line ends in front of both kinds. -/
theorem cgi_read_back_example :
    parseCgiResponse (ascii "Status: 404 Not Found\nX-A: b c\n\nx\n\ny") =
        .ok (cgiMeaning 404 [(ascii "X-A", ascii "b c")] (ascii "x\n\ny")) ∧
      parseCgiResponse (ascii "Status: 200\r\n\r\nx\n\ny\r\n\r\n") =
        .ok (cgiMeaning 200 [] (ascii "x\n\ny\r\n\r\n")) := by
  have hreason : Reason (ascii " Not Found") :=
    ⟨.inr ⟨ascii "Not Found", by decide⟩, by decide, by decide, by decide⟩
  have hnone : Reason [] :=
    ⟨.inl rfl, rfl, List.not_mem_nil, List.not_mem_nil⟩
  have hlf : parseCgiResponse (cgiOutput [10] 404 (ascii " Not Found")
      [(ascii "X-A", ascii "b c")] (ascii "x\n\ny")) =
        .ok (cgiMeaning 404 [(ascii "X-A", ascii "b c")] (ascii "x\n\ny")) :=
    (cgi_read_back_iff (.inr rfl) (by decide) hreason writable_example _).mpr
      ⟨.inr (by rw [← contains_iff_infix (by decide)]; decide), by decide⟩
  have hcrlf : parseCgiResponse (cgiOutput crlf 200 [] [] (ascii "x\n\ny\r\n\r\n")) =
      .ok (cgiMeaning 200 [] (ascii "x\n\ny\r\n\r\n")) :=
    (cgi_read_back_iff (.inl rfl) (by decide) hnone (List.forall_mem_nil _) _).mpr
      ⟨.inl rfl, List.forall_mem_nil _⟩
  constructor
  · refine Eq.trans (congrArg parseCgiResponse ?_) hlf
    decide
  · refine Eq.trans (congrArg parseCgiResponse ?_) hcrlf
    decide

/-- The first part of a page with LF line ends is taken for headers. -/
theorem page_cut :
    let output := cgiOutput [10] 200 [] [(ascii "X-A", ascii "b c")]
      (ascii "one\r\n\r\ntwo")
    parseCgiResponse output =
        .ok ⟨200, [(ascii "X-A", ascii "b c"), (ascii "Content-Length", ascii "3")],
          ascii "two"⟩ ∧
      parseCgiResponse output ≠
        .ok (cgiMeaning 200 [(ascii "X-A", ascii "b c")] (ascii "one\r\n\r\ntwo")) := by
  intro output
  have hread : parseCgiResponse output =
      .ok ⟨200, [(ascii "X-A", ascii "b c"), (ascii "Content-Length", ascii "3")],
        ascii "two"⟩ := by
    decide
  refine ⟨hread, fun h => ?_⟩
  rw [hread] at h
  have hbody := congrArg StaticFiles.StaticResponse.body (Except.ok.inj h)
  exact absurd hbody (by decide)

end ReadBack

end FastCgi
end RunNginx
