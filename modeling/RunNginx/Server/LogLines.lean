import RunNginx.Lib.IpText
import RunNginx.Server.Dispatch
import RunNginx.Server.LogTime

/-!
# Lines of the access log

A line of the access log holds the request line, the Referer and the User-Agent of a request
in quotes, as the client sent them.

`unforgeable_iff`: a line is a single one and has no second reading exactly if none of the
three texts has a line end, and none of them holds what separates the fields of a line.
-/

namespace RunNginx
namespace AccessLog

open ByteString Decimal Framed Gregorian Handler

/-- `{} - - [{}] "{}" {} {} "{}" "{}"` -/
def formatCombined (now : Bytes) (e : LogEntry) : Bytes :=
  e.remoteAddr.ip.text ++ ascii " - - [" ++ now ++ ascii "] \"" ++ e.requestLine ++
    ascii "\" " ++ render e.status ++ ascii " " ++ render e.bodyBytes ++ ascii " \"" ++
      e.referer ++ ascii "\" \"" ++ e.userAgent ++ ascii "\""

/-- The line of an entry that is written at a time. -/
def logLine (ts : Nat) (e : LogEntry) : Option Bytes :=
  (formatUnixTs ts).map fun now => formatCombined now e

/-- What a line tells about a request. -/
def fieldsOf (ts : Nat) (e : LogEntry) :
    IpAddr × Nat × Bytes × Nat × Nat × Bytes × Bytes :=
  (e.remoteAddr.ip, ts, e.requestLine, e.status, e.bodyBytes, e.referer, e.userAgent)

/-- The numbers of an entry fit their types, and its time has a year of 32 bits. -/
structure Loggable (ts : Nat) (e : LogEntry) : Prop where
  year : daysBeforeYear 1970 + ts / 86400 < daysBeforeYear (2 ^ 32)
  status : e.status < u16Bound
  bytes : e.bodyBytes < usizeBound

/-- A line without line ends inside, which is the line of these fields only. -/
def Unforgeable (ts : Nat) (e : LogEntry) : Prop :=
  ∀ line, logLine ts e = some line →
    (10 ∉ line ∧ 13 ∉ line) ∧
      ∀ ts' e', Loggable ts' e' → logLine ts' e' = some line → fieldsOf ts' e' = fieldsOf ts e

/-- Between the quotes of the request line and the Referer. -/
def countsText (status bytes : Nat) : Bytes :=
  32 :: (render status ++ 32 :: (render bytes ++ [32]))

/-- A status and a number of bytes between quotes. -/
def IsCounts (s : Bytes) : Prop :=
  ∃ n < u16Bound, ∃ m < usizeBound, s = framed 34 (countsText n m)

/-- Between the Referer and the User-Agent. -/
def gap : Bytes :=
  framed 34 [32]

/-- No text of the entry has a line end or holds a separator. -/
structure Separable (e : LogEntry) : Prop where
  one_line : ∀ text ∈ [e.requestLine, e.referer, e.userAgent], 10 ∉ text ∧ 13 ∉ text
  request : ∀ s, IsCounts s → ¬ s <:+: e.requestLine ++ [34]
  counts : ∀ s, IsCounts s → ¬ s <:+: 34 :: e.referer
  referer : ¬ gap <:+: e.referer ++ [34]
  agent : ¬ gap <:+: 34 :: e.userAgent

section Quoted

variable {e e' : LogEntry}

/-- The line from the request line on. -/
def quotedText (e : LogEntry) : Bytes :=
  e.requestLine ++ framed 34 (countsText e.status e.bodyBytes) ++
    (e.referer ++ gap ++ (e.userAgent ++ [34]))

theorem formatCombined_eq
    (now : Bytes) (e : LogEntry) :
    formatCombined now e =
      e.remoteAddr.ip.text ++ 32 :: (ascii "- - [" ++ (now ++ 93 :: (ascii " \"" ++
        quotedText e))) := by
  have hopen : ascii " - - [" = 32 :: ascii "- - [" := rfl
  have hclose : ascii "] \"" = 93 :: ascii " \"" := rfl
  have hstatus : ascii "\" " = [34, 32] := rfl
  have hblank : ascii " " = [32] := rfl
  have hreferer : ascii " \"" = [32, 34] := rfl
  have hagent : ascii "\" \"" = [34, 32, 34] := rfl
  have hend : ascii "\"" = [34] := rfl
  unfold formatCombined quotedText
  rw [hopen, hclose, hstatus, hblank, hreferer, hagent, hend]
  simp only [framed, gap, countsText, List.append_assoc, List.cons_append, List.nil_append]

theorem not_mem_countsText
    (n m : Nat) :
    (34 : UInt8) ∉ countsText n m := by
  have hdigits : ∀ k, (34 : UInt8) ∉ render k :=
    fun k hmem => absurd (isDigit_of_mem_render hmem) (by decide)
  simp [countsText, hdigits]

/-- The numbers can be read from the text between the quotes. -/
theorem countsText_inj
    {n n' m m' : Nat} (h : countsText n m = countsText n' m') :
    n = n' ∧ m = m' := by
  have hdigits : ∀ k, (32 : UInt8) ∉ render k :=
    fun k hmem => absurd (isDigit_of_mem_render hmem) (by decide)
  obtain ⟨hstatus, hrest⟩ := eq_of_quote (hdigits n) (hdigits n') (List.cons.inj h).2
  exact ⟨render_inj hstatus, render_inj (List.append_cancel_right hrest)⟩

/-- Without separators in its texts an entry is read back from its line. -/
theorem quotedText_inj
    (hsep : Separable e) (hstatus : e'.status < u16Bound) (hbytes : e'.bodyBytes < usizeBound)
    (h : quotedText e = quotedText e') :
    e.requestLine = e'.requestLine ∧ e.status = e'.status ∧ e.bodyBytes = e'.bodyBytes ∧
      e.referer = e'.referer ∧ e.userAgent = e'.userAgent := by
  have hcounts : IsCounts (framed 34 (countsText e'.status e'.bodyBytes)) :=
    ⟨_, hstatus, _, hbytes, rfl⟩
  have hblank : (34 : UInt8) ∉ [32] := by decide
  unfold quotedText at h
  rcases framed_cases (not_mem_countsText _ _) (not_mem_countsText _ _) h with
    ⟨hrequest, hnumbers, hrest⟩ | ⟨s, hs⟩ | ⟨s, hs⟩
  · obtain ⟨hsame, hsame'⟩ := countsText_inj hnumbers
    rcases framed_cases hblank hblank hrest with ⟨hreferer, -, hagent⟩ | ⟨s, hs⟩ | ⟨s, hs⟩
    · exact ⟨hrequest, hsame, hsame', hreferer, List.append_cancel_right hagent⟩
    · exact absurd ⟨_, _, hs.symm⟩ hsep.referer
    · -- The closing quote is the last byte of both texts.
      rw [← List.cons_append, ← List.append_assoc] at hs
      exact absurd ⟨_, _, (List.append_cancel_right hs).symm⟩ hsep.agent
  · exact absurd ⟨_, _, hs.symm⟩ (hsep.request _ hcounts)
  · -- The request line of the other entry is longer; compare what follows the separators.
    have hbehind : 34 :: e.referer ++ framed 34 [32] ++ (e.userAgent ++ [34]) =
        (s ++ framed 34 (countsText e'.status e'.bodyBytes) ++ e'.referer) ++ framed 34 [32] ++
          (e'.userAgent ++ [34]) := by
      simpa only [gap, List.append_assoc, List.cons_append] using hs
    rcases framed_cases hblank hblank hbehind with ⟨hreferer, -, -⟩ | ⟨t, ht⟩ | ⟨t, ht⟩
    · exact absurd ⟨_, _, hreferer.symm⟩ (hsep.counts _ hcounts)
    · refine absurd ?_ hsep.referer
      obtain ⟨c, u, hu⟩ := List.exists_cons_of_ne_nil
        (show s ++ framed 34 (countsText e'.status e'.bodyBytes) ++ e'.referer ≠ [] by
          simp [framed])
      rw [hu, List.cons_append, List.cons_append, List.cons_append] at ht
      exact ⟨_, _, (List.cons.inj ht).2.symm⟩
    · rw [← List.cons_append, ← List.append_assoc] at ht
      exact absurd ⟨_, _, (List.append_cancel_right ht).symm⟩ hsep.agent

/-- A status and a number of bytes in the request line begin a Referer. -/
theorem forged_request
    {s : Bytes} (hs : IsCounts s) (h : s <:+: e.requestLine ++ [34]) :
    ∃ e' : LogEntry, e'.remoteAddr = e.remoteAddr ∧ e'.status < u16Bound ∧
      e'.bodyBytes < usizeBound ∧ quotedText e' = quotedText e ∧
        e'.requestLine ≠ e.requestLine := by
  obtain ⟨n, hn, m, hm, rfl⟩ := hs
  obtain ⟨a, b, hab⟩ := h
  refine ⟨{ e with
    requestLine := a, status := n, bodyBytes := m,
    referer := b ++ countsText e.status e.bodyBytes ++ [34] ++ e.referer }, rfl, hn, hm, ?_, ?_⟩
  · have hline : quotedText e = e.requestLine ++ [34] ++ (countsText e.status e.bodyBytes ++
        [34] ++ (e.referer ++ gap ++ (e.userAgent ++ [34]))) := by
      simp only [quotedText, framed, List.append_assoc, List.cons_append, List.nil_append]
    rw [hline, ← hab]
    simp only [quotedText, List.append_assoc]
  · rintro rfl
    have hlength := congrArg List.length hab
    simp only [List.length_append, length_framed, List.length_singleton] at hlength
    omega

/-- One in the Referer ends a longer request line. -/
theorem forged_counts
    {s : Bytes} (hs : IsCounts s) (h : s <:+: 34 :: e.referer) :
    ∃ e' : LogEntry, e'.remoteAddr = e.remoteAddr ∧ e'.status < u16Bound ∧
      e'.bodyBytes < usizeBound ∧ quotedText e' = quotedText e ∧
        e'.requestLine ≠ e.requestLine := by
  obtain ⟨n, hn, m, hm, rfl⟩ := hs
  obtain ⟨a, b, hab⟩ := h
  refine ⟨{ e with
    requestLine := e.requestLine ++ 34 :: countsText e.status e.bodyBytes ++ a,
    status := n, bodyBytes := m, referer := b }, rfl, hn, hm, ?_, ?_⟩
  · have hline : quotedText e = e.requestLine ++ 34 :: countsText e.status e.bodyBytes ++
        ((34 :: e.referer) ++ (gap ++ (e.userAgent ++ [34]))) := by
      simp only [quotedText, framed, List.append_assoc, List.cons_append, List.nil_append]
    rw [hline, ← hab]
    simp only [quotedText, List.append_assoc]
  · intro heq
    have hlength := congrArg List.length heq
    simp only [List.length_append, List.length_cons] at hlength
    omega

/-- The separator of the Referer and the User-Agent, within one of them, moves the border. -/
theorem forged_referer
    (h : gap <:+: e.referer ++ [34]) :
    ∃ referer agent, quotedText { e with referer := referer, userAgent := agent } =
      quotedText e ∧ referer ≠ e.referer := by
  obtain ⟨a, b, hab⟩ := h
  refine ⟨a, b ++ [32, 34] ++ e.userAgent, ?_, ?_⟩
  · have hline : quotedText e =
        e.requestLine ++ framed 34 (countsText e.status e.bodyBytes) ++
          (e.referer ++ [34] ++ ([32, 34] ++ (e.userAgent ++ [34]))) := by
      simp only [quotedText, gap, framed, List.append_assoc, List.cons_append, List.nil_append]
    rw [hline, ← hab]
    simp only [quotedText, List.append_assoc]
  · rintro rfl
    have hlength := congrArg List.length hab
    simp only [gap, List.length_append, length_framed, List.length_singleton] at hlength
    omega

theorem forged_agent
    (h : gap <:+: 34 :: e.userAgent) :
    ∃ referer agent, quotedText { e with referer := referer, userAgent := agent } =
      quotedText e ∧ referer ≠ e.referer := by
  obtain ⟨a, b, hab⟩ := h
  refine ⟨e.referer ++ [34, 32] ++ a, b, ?_, ?_⟩
  · have hline : quotedText e =
        e.requestLine ++ framed 34 (countsText e.status e.bodyBytes) ++
          (e.referer ++ [34, 32] ++ ((34 :: e.userAgent) ++ [34])) := by
      simp only [quotedText, gap, framed, List.append_assoc, List.cons_append, List.nil_append]
    rw [hline, ← hab]
    simp only [quotedText, List.append_assoc]
  · intro heq
    have hlength := congrArg List.length heq
    simp only [List.length_append, List.length_cons, List.length_nil] at hlength
    omega

end Quoted

section Lines

variable {ts ts' : Nat} {e e' : LogEntry}

/-- A control character of a line comes from one of the three texts. -/
theorem mem_formatCombined_iff
    {b : UInt8} {now : Bytes} (hb : b < 32) (hnow : b ∉ now) :
    b ∈ formatCombined now e ↔ b ∈ e.requestLine ∨ b ∈ e.referer ∨ b ∈ e.userAgent := by
  have hlow : ¬ 32 ≤ b := UInt8.not_le.mpr hb
  have hconst : ∀ {s : Bytes}, s.all (fun c => decide (32 ≤ c)) = true → b ∉ s :=
    fun hall hmem => hlow (of_decide_eq_true (List.all_eq_true.mp hall b hmem))
  have hip : b ∉ e.remoteAddr.ip.text :=
    fun hmem => hlow (UInt8.le_trans (by decide) (IpAddr.of_mem_text hmem))
  have hnumber : ∀ n, b ∉ render n := by
    intro n hmem
    have hdigit : ∀ c : UInt8, isDigit c = true → 32 ≤ c := forall_byte (by decide +kernel)
    exact hlow (hdigit b (isDigit_of_mem_render hmem))
  have hone := @hconst (ascii " - - [") rfl
  have htwo := @hconst (ascii "] \"") rfl
  have hthree := @hconst (ascii "\" ") rfl
  have hfour := @hconst (ascii " ") rfl
  have hfive := @hconst (ascii " \"") rfl
  have hsix := @hconst (ascii "\" \"") rfl
  have hseven := @hconst (ascii "\"") rfl
  simp only [formatCombined, List.mem_append, hip, hnow, hnumber, hone, htwo, hthree, hfour,
    hfive, hsix, hseven, false_or, or_false, or_assoc]

theorem logLine_of_quotedText
    (hip : e'.remoteAddr = e.remoteAddr) (h : quotedText e' = quotedText e) :
    logLine ts e' = logLine ts e := by
  unfold logLine
  refine congrArg (fun f => (formatUnixTs ts).map f) (funext fun now => ?_)
  rw [formatCombined_eq, formatCombined_eq, hip, h]

/-- Address, time and the rest can be read from a line. -/
theorem logLine_inj
    {line : Bytes} (hyear : daysBeforeYear 1970 + ts / 86400 < daysBeforeYear (2 ^ 32))
    (hyear' : daysBeforeYear 1970 + ts' / 86400 < daysBeforeYear (2 ^ 32))
    (h : logLine ts e = some line) (h' : logLine ts' e' = some line) :
    e.remoteAddr.ip = e'.remoteAddr.ip ∧ ts = ts' ∧ quotedText e = quotedText e' := by
  obtain ⟨t, -, -, htext⟩ := formatUnixTs_spec hyear
  obtain ⟨t', -, -, htext'⟩ := formatUnixTs_spec hyear'
  have hblank : ∀ ip : IpAddr, (32 : UInt8) ∉ ip.text :=
    fun ip hmem => absurd (IpAddr.of_mem_text hmem) (by decide)
  have hbracket : ∀ t : Instant, (93 : UInt8) ∉ instantText t :=
    fun t hmem => (of_mem_instantText hmem).2 rfl
  have hsame : formatCombined (instantText t) e = formatCombined (instantText t') e' := by
    rw [logLine, htext, Option.map_some] at h
    rw [logLine, htext', Option.map_some] at h'
    exact (Option.some.inj h).trans (Option.some.inj h').symm
  rw [formatCombined_eq, formatCombined_eq] at hsame
  obtain ⟨hip, hrest⟩ := eq_of_quote (hblank _) (hblank _) hsame
  obtain ⟨htime, hrest⟩ := eq_of_quote (hbracket _) (hbracket _) (List.append_cancel_left hrest)
  refine ⟨IpAddr.text_inj hip, formatUnixTs_inj hyear hyear' ?_, List.append_cancel_left hrest⟩
  rw [htext, htext', htime]

/-- An entry whose line is that of another one is not unforgeable. -/
theorem Unforgeable.eq_of_quotedText
    (h : Unforgeable ts e) (hloggable : Loggable ts e') (hip : e'.remoteAddr = e.remoteAddr)
    (hsame : quotedText e' = quotedText e) :
    e'.requestLine = e.requestLine ∧ e'.referer = e.referer := by
  obtain ⟨t, -, -, htext⟩ := formatUnixTs_spec hloggable.year
  have hline : logLine ts e = some (formatCombined (instantText t) e) := by
    rw [logLine, htext, Option.map_some]
  have hfields := (h _ hline).2 ts e' hloggable
    ((logLine_of_quotedText hip hsame).trans hline)
  simp only [fieldsOf, Prod.mk.injEq] at hfields
  exact ⟨hfields.2.2.1, hfields.2.2.2.2.2.1⟩

theorem separable_of_unforgeable
    (hloggable : Loggable ts e) (h : Unforgeable ts e) :
    Separable e := by
  obtain ⟨t, -, -, htext⟩ := formatUnixTs_spec hloggable.year
  have hline : logLine ts e = some (formatCombined (instantText t) e) := by
    rw [logLine, htext, Option.map_some]
  have hmoved : ∀ {referer agent}, quotedText { e with referer := referer, userAgent := agent } =
      quotedText e → referer = e.referer := fun {referer agent} hsame =>
    (@Unforgeable.eq_of_quotedText ts e { e with referer := referer, userAgent := agent } h
      ⟨hloggable.year, hloggable.status, hloggable.bytes⟩ rfl hsame).2
  refine ⟨fun text htext => ?_, fun s hs hin => ?_, fun s hs hin => ?_, fun hin => ?_,
    fun hin => ?_⟩
  · obtain ⟨hlf, hcr⟩ := (h _ hline).1
    have hnow : ∀ {b : UInt8}, b < 32 → b ∉ instantText t :=
      fun hb hmem => UInt8.not_le.mpr hb (of_mem_instantText hmem).1
    rw [mem_formatCombined_iff (by decide) (hnow (by decide)), not_or, not_or] at hlf hcr
    simp only [List.mem_cons, List.not_mem_nil, or_false] at htext
    rcases htext with rfl | rfl | rfl
    · exact ⟨hlf.1, hcr.1⟩
    · exact ⟨hlf.2.1, hcr.2.1⟩
    · exact ⟨hlf.2.2, hcr.2.2⟩
  · obtain ⟨e', hip, hstatus, hbytes, hsame, hne⟩ := forged_request hs hin
    exact hne (h.eq_of_quotedText ⟨hloggable.year, hstatus, hbytes⟩ hip hsame).1
  · obtain ⟨e', hip, hstatus, hbytes, hsame, hne⟩ := forged_counts hs hin
    exact hne (h.eq_of_quotedText ⟨hloggable.year, hstatus, hbytes⟩ hip hsame).1
  · obtain ⟨referer, agent, hsame, hne⟩ := forged_referer hin
    exact hne (hmoved hsame)
  · obtain ⟨referer, agent, hsame, hne⟩ := forged_agent hin
    exact hne (hmoved hsame)

/--
The line of an entry is a single one and has no second reading if and only if the request
line, the Referer and the User-Agent have no line ends and hold no separator.
-/
theorem unforgeable_iff
    (hloggable : Loggable ts e) :
    Unforgeable ts e ↔ Separable e := by
  refine ⟨separable_of_unforgeable hloggable, fun hsep line hline => ⟨?_, ?_⟩⟩
  · obtain ⟨t, -, -, htext⟩ := formatUnixTs_spec hloggable.year
    have hnow : ∀ {b : UInt8}, b < 32 → b ∉ instantText t :=
      fun hb hmem => UInt8.not_le.mpr hb (of_mem_instantText hmem).1
    rw [logLine, htext, Option.map_some] at hline
    cases hline
    rw [mem_formatCombined_iff (by decide) (hnow (by decide)),
      mem_formatCombined_iff (by decide) (hnow (by decide))]
    have hrequest := hsep.one_line e.requestLine (by simp)
    have hreferer := hsep.one_line e.referer (by simp)
    have hagent := hsep.one_line e.userAgent (by simp)
    exact ⟨by simp [hrequest.1, hreferer.1, hagent.1], by simp [hrequest.2, hreferer.2, hagent.2]⟩
  · intro ts' e' hloggable' hline'
    obtain ⟨hip, htime, hquoted⟩ := logLine_inj hloggable.year hloggable'.year hline hline'
    obtain ⟨hrequest, hstatus, hbytes, hreferer, hagent⟩ :=
      quotedText_inj hsep hloggable'.status hloggable'.bytes hquoted
    simp only [fieldsOf, Prod.mk.injEq]
    exact ⟨hip.symm, htime.symm, hrequest.symm, hstatus.symm, hbytes.symm, hreferer.symm,
      hagent.symm⟩

/-- Texts without quotes and line ends hold no separator. -/
theorem separable_of_no_quotes
    (h : ∀ text ∈ [e.requestLine, e.referer, e.userAgent], 34 ∉ text ∧ 10 ∉ text ∧ 13 ∉ text) :
    Separable e := by
  have hframed : ∀ {mid text : Bytes}, text.count 34 ≤ 1 → ¬ framed 34 mid <:+: text := by
    intro mid text hone hin
    have htwo : 2 ≤ (framed (34 : UInt8) mid).count 34 := by
      simp [framed]
    have hle := hin.sublist.count_le 34
    omega
  have hcount : ∀ text ∈ [e.requestLine, e.referer, e.userAgent],
      (text ++ [34]).count 34 ≤ 1 ∧ ((34 : UInt8) :: text).count 34 ≤ 1 := by
    intro text htext
    have hzero := List.count_eq_zero.mpr (h text htext).1
    simp [hzero]
  have hrequest := hcount e.requestLine (by simp)
  have hreferer := hcount e.referer (by simp)
  have hagent := hcount e.userAgent (by simp)
  refine ⟨fun text htext => (h text htext).2, ?_, ?_, hframed hreferer.1, hframed hagent.2⟩
  · rintro s ⟨n, -, m, -, rfl⟩
    exact hframed hrequest.1
  · rintro s ⟨n, -, m, -, rfl⟩
    exact hframed hreferer.2

end Lines

section Example

/-- The entry of a plain request, or of one with this User-Agent. -/
def entryWith (userAgent : Bytes) : LogEntry where
  remoteAddr := ⟨.v4 ⟨203, 0, 113, 9⟩, 40000⟩
  requestLine := ascii "GET /a.txt HTTP/1.1"
  status := 200
  bodyBytes := 5
  referer := ascii "-"
  userAgent := userAgent

theorem loggable_entryWith
    (userAgent : Bytes) :
    Loggable 1709251199 (entryWith userAgent) :=
  ⟨by decide, show 200 < u16Bound by decide, show 5 < usizeBound by decide⟩

theorem unforgeable_iff_example :
    Unforgeable 1709251199 (entryWith (ascii "curl/8.5.0")) :=
  (unforgeable_iff (loggable_entryWith _)).mpr (separable_of_no_quotes (by decide))

/-- The effect is the log entry. -/
def isLogOf (entry : LogEntry) : Effect → Bool
  | .log e => e == entry
  | _ => false

/-- A bare line feed within a User-Agent gets through the parser and ends the line. -/
theorem line_feed_logged :
    ¬ ∀ (ctx : Context) (env : Env) (st : ServerState) (raw : Bytes) (ts : Nat)
      (entry : LogEntry), .log entry ∈ (dispatch ctx env st raw).effects →
        Loggable ts entry → Unforgeable ts entry := by
  intro h
  have hlogged : (dispatch (contextOf (StaticFiles.serverAt (ascii "/srv")))
      (quietEnv StaticFiles.exampleFiles) (stateWithCache 0 0)
      (ascii "GET /a.txt HTTP/1.1\r\nUser-Agent: a\nb\r\n\r\n")).effects.any
        (isLogOf (entryWith (ascii "a\nb"))) = true := by
    decide +kernel
  obtain ⟨effect, hmem, hentry⟩ := List.any_eq_true.mp hlogged
  cases effect with
  | log e =>
      have heq : e = entryWith (ascii "a\nb") := beq_iff_eq.mp hentry
      subst heq
      have hloggable := loggable_entryWith (ascii "a\nb")
      obtain ⟨t, -, -, htext⟩ := formatUnixTs_spec hloggable.year
      have hline : logLine 1709251199 (entryWith (ascii "a\nb")) =
          some (formatCombined (instantText t) (entryWith (ascii "a\nb"))) := by
        rw [logLine, htext, Option.map_some]
      have hlf := (h _ _ _ _ _ _ hmem hloggable _ hline).1.1
      refine hlf ((mem_formatCombined_iff (by decide) fun hnow => ?_).mpr (Or.inr (Or.inr ?_)))
      · exact absurd (of_mem_instantText hnow).1 (by decide)
      · decide
  | _ => cases hentry

end Example

end AccessLog
end RunNginx
