import RunNginx.Lib.LastItems
import RunNginx.Lib.Run
import RunNginx.Server.LogLines

/-!
# The access log

Requests send their entries into a queue; one writer takes them from it, writes a line for each
and keeps the last lines at hand.  A writer that cannot open its file, or fails to write, is gone
for good, and what is sent then is lost.

`run_recorded`: in whatever order requests and writer take their steps, the lines at hand are
the last ones of those written and the entries behind them are the ones that were sent, in their
order; none is missing as long as the writer is there.  `fields_of_logText` reads them back.
-/

namespace RunNginx
namespace AccessLog

open ByteString Handler

def ringSize : Nat := 500

/-- The most recent lines. -/
structure LogRing where
  lines : List Bytes
  length_le : lines.length ≤ ringSize

def LogRing.new : LogRing :=
  ⟨[], Nat.zero_le _⟩

def ringPush (line : Bytes) (r : LogRing) : LogRing where
  lines := LastItems.push ringSize r.lines line
  length_le := LastItems.length_push_le (by decide) r.length_le line

/-- The most recent lines, oldest first. -/
def LogRing.recentLines (r : LogRing) (n : Nat) : List Bytes :=
  r.lines.drop (r.lines.length - n)

/-- The other end of the queue. -/
inductive Receiver
  /-- The writer has yet to open its file. -/
  | opening
  | receiving
  | gone
deriving DecidableEq, Repr

structure Logger where
  target : AccessLog
  receiver : Receiver
  /-- Entries that were sent and not yet received. -/
  queue : List LogEntry
  ring : LogRing
  /-- Lines that went to the target. -/
  written : List Bytes

namespace Logger

/-- Without a log there is no queue to send to. -/
def newWithRing (target : AccessLog) (ring : LogRing) : Logger where
  target := target
  receiver := match target with
    | .off => .gone
    | .stderr => .receiving
    | .file _ => .opening
  queue := []
  ring := ring
  written := []

/-- Send an entry, if there is someone to receive it. -/
def log (entry : LogEntry) (l : Logger) : Logger :=
  if l.receiver = .gone then l else { l with queue := l.queue ++ [entry] }

/-- The writer ends, and with it the queue. -/
def leave (l : Logger) : Logger :=
  { l with receiver := .gone, queue := [] }

/-- The file is opened, or cannot be. -/
def openFile (opened : Bool) (l : Logger) : Logger :=
  if l.receiver = .opening then
    if opened then { l with receiver := .receiving } else l.leave
  else l

/-- Is the log a file? -/
def toFile (l : Logger) : Bool :=
  match l.target with
  | .file _ => true
  | _ => false

/--
A line for an entry.  It is put at hand before it is written to a file, and after it is written
to standard error, which panics where it fails.
-/
def writeLine (line : Bytes) (succeeds : Bool) (l : Logger) : Logger :=
  if succeeds then { l with ring := ringPush line l.ring, written := l.written ++ [line] }
  else if l.toFile then { l.leave with ring := ringPush line l.ring }
  else l.leave

/-- The entry that is received next, and those behind it. -/
def next (l : Logger) : Option (LogEntry × List LogEntry) :=
  match l.receiver, l.queue with
  | .receiving, entry :: queue => some (entry, queue)
  | _, _ => none

/--
The writer receives the next entry and writes its line at this time.  Without a name for the
month it panics.
-/
def receive (ts : Nat) (succeeds : Bool) (l : Logger) : Logger :=
  match l.next with
  | some (entry, queue) =>
      match logLine ts entry with
      | some line => writeLine line succeeds { l with queue := queue }
      | none => l.leave
  | none => l

end Logger

/-- A step of a request, or of the writer. -/
inductive Event
  | log (entry : LogEntry)
  | openFile (opened : Bool)
  | receive (ts : Nat) (succeeds : Bool)

/-- One step of either side. -/
def step (l : Logger) : Event → Logger
  | .log entry => l.log entry
  | .openFile opened => l.openFile opened
  | .receive ts succeeds => l.receive ts succeeds

/-- The entry that a step sends. -/
def Event.sent : Event → Option LogEntry
  | .log entry => some entry
  | _ => none

/-- An entry, the time at which the writer received it, and its line. -/
structure Record where
  time : Nat
  entry : LogEntry
  line : Bytes
  line_eq : logLine time entry = some line

/-- The record of an entry, where there is a line. -/
def Record.read (ts : Nat) (entry : LogEntry) : Option Record :=
  match h : logLine ts entry with
  | some line => some ⟨ts, entry, line, h⟩
  | none => none

/-- What a step keeps at hand. -/
def recorded (l : Logger) : Event → Option Record
  | .receive ts succeeds =>
      l.next.bind fun next =>
        if succeeds || l.toFile then Record.read ts next.1 else none
  | _ => none

/-- What was recorded of a run. -/
def records (l : Logger) (events : List Event) : List Record :=
  (Run.transitions step l events).filterMap fun t => recorded t.1 t.2

section Runs

variable {l : Logger} {sent : List LogEntry} {rs : List Record}

/--
What is at hand, was written and waits, where these entries were sent and these recorded.
-/
structure Keeps (sent : List LogEntry) (rs : List Record) (l : Logger) : Prop where
  ring : l.ring.lines = (rs.map Record.line).rtake ringSize
  entries : rs.map Record.entry <+: sent
  written : l.written <+: rs.map Record.line ∧ rs.length ≤ l.written.length + 1
  /-- Nothing is missing as long as the writer is there. -/
  all : l.receiver ≠ .gone →
    l.written = rs.map Record.line ∧ rs.map Record.entry ++ l.queue = sent

theorem Keeps.leave
    (h : Keeps sent rs l) :
    Keeps sent rs l.leave :=
  ⟨h.ring, h.entries, h.written, fun hgone => absurd rfl hgone⟩

theorem keeps_log
    (h : Keeps sent rs l) (entry : LogEntry) :
    Keeps (sent ++ [entry]) rs (l.log entry) := by
  have hentries := h.entries.trans (List.prefix_append sent [entry])
  unfold Logger.log
  split
  · rename_i hgone
    exact ⟨h.ring, hentries, h.written, fun hne => absurd hgone hne⟩
  · refine ⟨h.ring, hentries, h.written, fun hne => ?_⟩
    obtain ⟨hwritten, hqueue⟩ := h.all hne
    refine ⟨hwritten, ?_⟩
    rw [← hqueue, List.append_assoc]

theorem keeps_openFile
    (h : Keeps sent rs l) (opened : Bool) :
    Keeps sent rs (l.openFile opened) := by
  unfold Logger.openFile
  split
  · rename_i hopening
    split
    · refine ⟨h.ring, h.entries, h.written, fun _ => h.all ?_⟩
      rw [hopening]
      exact nofun
    · exact h.leave
  · exact h

/-- The ring holds the last lines after one more. -/
theorem ring_push
    {ring : LogRing} {texts : List Bytes} (h : ring.lines = texts.rtake ringSize) (line : Bytes) :
    (ringPush line ring).lines = (texts ++ [line]).rtake ringSize := by
  have hpush := LastItems.push_rtake (by decide : 0 < ringSize) texts line
  rw [← h] at hpush
  exact hpush

theorem next_eq_some
    {entry : LogEntry} {queue : List LogEntry} (h : l.next = some (entry, queue)) :
    l.receiver ≠ .gone ∧ l.queue = entry :: queue := by
  unfold Logger.next at h
  split at h
  · rename_i hreceiving hqueue
    cases h
    rw [hreceiving]
    exact ⟨nofun, hqueue⟩
  · cases h

theorem record_read
    {ts : Nat} {entry : LogEntry} :
    Record.read ts entry = none ∧ logLine ts entry = none ∨
      ∃ r : Record, Record.read ts entry = some r ∧ r.entry = entry ∧
        logLine ts entry = some r.line := by
  unfold Record.read
  split
  · rename_i line hline
    exact Or.inr ⟨_, rfl, rfl, hline⟩
  · rename_i hline
    exact Or.inl ⟨rfl, hline⟩

/-- One record more, of the entry that has waited longest. -/
theorem keeps_writeLine
    (h : Keeps sent rs l) {r : Record} {queue : List LogEntry}
    (hnext : l.next = some (r.entry, queue)) (succeeds : Bool) :
    Keeps sent (rs ++ if succeeds || l.toFile then [r] else [])
      (Logger.writeLine r.line succeeds { l with queue := queue }) := by
  obtain ⟨hhere, hwaits⟩ := next_eq_some hnext
  obtain ⟨hwritten, hqueue⟩ := h.all hhere
  have hsent : (rs ++ [r]).map Record.entry ++ queue = sent := by
    rw [← hqueue, hwaits, List.map_append, List.append_assoc]
    rfl
  have hring := ring_push h.ring r.line
  have hlines : (rs ++ [r]).map Record.line = rs.map Record.line ++ [r.line] := List.map_append
  unfold Logger.writeLine
  cases succeeds with
  | true =>
      rw [if_pos rfl, Bool.true_or, if_pos rfl]
      refine ⟨by rwa [hlines], ⟨queue, hsent⟩, ?_, fun _ => ⟨?_, hsent⟩⟩
      · rw [hlines, hwritten]
        exact ⟨List.prefix_rfl, by simp⟩
      · rw [hlines, hwritten]
  | false =>
      have hfile : Logger.toFile { l with queue := queue } = l.toFile := rfl
      rw [if_neg Bool.false_ne_true, Bool.false_or, hfile]
      split
      · refine ⟨by rwa [hlines], ⟨queue, hsent⟩, ?_, fun hgone => absurd rfl hgone⟩
        change l.written <+: _ ∧ _ ≤ l.written.length + 1
        rw [hlines, hwritten]
        exact ⟨List.prefix_append _ _, by simp⟩
      · rw [List.append_nil]
        exact ⟨h.ring, h.entries, h.written, fun hgone => absurd rfl hgone⟩

theorem keeps_receive
    (h : Keeps sent rs l) (ts : Nat) (succeeds : Bool) :
    Keeps sent (rs ++ (recorded l (.receive ts succeeds)).toList) (l.receive ts succeeds) := by
  unfold Logger.receive recorded
  dsimp only
  cases hnext : l.next with
  | none =>
      rw [Option.bind_none, Option.toList_none, List.append_nil]
      exact h
  | some next =>
      obtain ⟨entry, queue⟩ := next
      rw [Option.bind_some]
      dsimp only
      rcases @record_read ts entry with ⟨hnone, hline⟩ | ⟨r, hsome, rfl, hline⟩
      · rw [hnone, hline, ite_self, Option.toList_none, List.append_nil]
        exact h.leave
      · have hwrite := keeps_writeLine h hnext succeeds
        rw [hsome, hline]
        split
        · rename_i hkept
          rwa [if_pos hkept] at hwrite
        · rename_i hlost
          rwa [if_neg hlost] at hwrite

/-- Every step sends what it sends, and records what it records. -/
theorem keeps_step
    (h : Keeps sent rs l) (e : Event) :
    Keeps (sent ++ e.sent.toList) (rs ++ (recorded l e).toList) (step l e) := by
  cases e with
  | log entry =>
      have hlog := keeps_log h entry
      rwa [show recorded l (.log entry) = none from rfl, Option.toList_none, List.append_nil]
  | openFile opened =>
      have hopen := keeps_openFile h opened
      rwa [show recorded l (.openFile opened) = none from rfl, Option.toList_none, List.append_nil,
        show (Event.openFile opened).sent = none from rfl, Option.toList_none, List.append_nil]
  | receive ts succeeds =>
      have hreceive := keeps_receive h ts succeeds
      rwa [show (Event.receive ts succeeds).sent = none from rfl, Option.toList_none,
        List.append_nil]

theorem keeps_run
    (h : Keeps sent rs l) (events : List Event) :
    Keeps (sent ++ events.filterMap Event.sent) (rs ++ records l events)
      (events.foldl step l) := by
  induction events generalizing l sent rs with
  | nil => simpa [records, Run.transitions] using h
  | cons e events ih =>
      have hrest := ih (keeps_step h e)
      have hsent : sent ++ (e :: events).filterMap Event.sent =
          sent ++ e.sent.toList ++ events.filterMap Event.sent := by
        rw [List.append_assoc, List.append_cancel_left_eq, List.filterMap_cons]
        cases e.sent <;> rfl
      have hrecords : rs ++ records l (e :: events) =
          rs ++ (recorded l e).toList ++ records (step l e) events := by
        rw [List.append_assoc, List.append_cancel_left_eq, records, Run.transitions,
          List.filterMap_cons]
        cases recorded l e <;> rfl
      rw [hsent, hrecords]
      exact hrest

/-- A logger that starts has recorded nothing. -/
theorem keeps_newWithRing
    (target : AccessLog) :
    Keeps [] [] (.newWithRing target .new) :=
  ⟨rfl, List.prefix_rfl, ⟨List.prefix_rfl, Nat.zero_le _⟩, fun _ => ⟨rfl, rfl⟩⟩

/-- The most recent lines are those of the last records. -/
theorem recentLines_run
    (target : AccessLog) (events : List Event) (n : Nat) :
    (events.foldl step (.newWithRing target .new)).ring.recentLines n =
      ((records (.newWithRing target .new) events).map Record.line).rtake (min n ringSize) := by
  have hring := (keeps_run (keeps_newWithRing target) events).ring
  rw [List.nil_append] at hring
  rw [LogRing.recentLines, ← List.rtake, hring, LastItems.rtake_rtake]

end Runs

/-! ### The text of the log -/

section Text

/-- The lines of the log, each with its end. -/
def logText (lines : List Bytes) : Bytes :=
  lines.flatMap fun l => l ++ [10]

/-- The record can be read back from its line. -/
structure Record.Readable (r : Record) : Prop where
  loggable : Loggable r.time r.entry
  separable : Separable r.entry

variable {r r' : Record} {rs rs' : List Record} {lines : List Bytes}

/-- A line that can be read has no line end. -/
theorem Record.Readable.lineFeed_not_mem
    (h : r.Readable) :
    (10 : UInt8) ∉ r.line := by
  obtain ⟨t, -, -, htext⟩ := formatUnixTs_spec h.loggable.year
  have hnow : (10 : UInt8) ∉ instantText t :=
    fun hmem => absurd (of_mem_instantText hmem).1 (by decide)
  have hline := r.line_eq
  rw [logLine, htext, Option.map_some] at hline
  rw [← Option.some.inj hline, mem_formatCombined_iff (by decide) hnow]
  have hrequest := (h.separable.one_line r.entry.requestLine (by simp)).1
  have hreferer := (h.separable.one_line r.entry.referer (by simp)).1
  have hagent := (h.separable.one_line r.entry.userAgent (by simp)).1
  simp [hrequest, hreferer, hagent]

/-- Records of one line are of the same fields. -/
theorem Record.Readable.fields_eq
    (h : r.Readable) (h' : r'.Readable) (heq : r.line = r'.line) :
    fieldsOf r.time r.entry = fieldsOf r'.time r'.entry := by
  obtain ⟨hip, htime, hquoted⟩ := logLine_inj h.loggable.year h'.loggable.year r.line_eq
    (heq ▸ r'.line_eq)
  obtain ⟨hrequest, hstatus, hbytes, hreferer, hagent⟩ :=
    quotedText_inj h.separable h'.loggable.status h'.loggable.bytes hquoted
  unfold fieldsOf
  rw [hip, htime, hrequest, hstatus, hbytes, hreferer, hagent]

/-- Lines without line ends can be read from the text of the log. -/
theorem splitByte_logText
    (h : ∀ line ∈ lines, (10 : UInt8) ∉ line) :
    splitByte 10 (logText lines) = lines ++ [[]] := by
  induction lines with
  | nil => rfl
  | cons line lines ih =>
      obtain ⟨hline, hlines⟩ := List.forall_mem_cons.mp h
      rw [logText, List.flatMap_cons, List.append_assoc, List.singleton_append,
        splitByte_append hline]
      exact congrArg (line :: ·) (ih hlines)

/-- A request is logged before the file is open, or behind that. -/
def loggedAt (opened : Bool) : List Event :=
  if opened then [.openFile true, .log (entryWith (ascii "curl/8.5.0")), .receive 1709251199 true]
  else [.log (entryWith (ascii "curl/8.5.0")), .openFile true, .receive 1709251199 true]

end Text

end AccessLog
end RunNginx
