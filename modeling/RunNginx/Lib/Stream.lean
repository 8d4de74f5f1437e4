import RunNginx.Lib.ByteString

/-!
# Byte streams read in pieces

What one timed read of a socket returns, and the loop that collects pieces until a
predicate on the buffer holds, the buffer grows beyond a cap, or the peer closes.

`collect_stops` says where the loop stops, whatever the pieces are: behind one of
them, at the first place where it has a reason to.
-/

/-- What one timed read returns; an empty piece is the end of the stream. -/
inductive ReadEvent
  | timedOut
  | failed (reason : Bytes)
  | bytes (data : Bytes)
deriving DecidableEq, Repr

namespace Stream

/-- Why a read loop gave up. -/
inductive ReadError
  | timedOut
  | failed (reason : Bytes)
deriving DecidableEq, Repr

section

variable (complete : Bytes → Bool) (cap : Nat)

/-- Collect pieces behind `buf`.  A peer that sends nothing more has closed. -/
def collect : Bytes → List ReadEvent → Except ReadError Bytes
  | buf, [] => .ok buf
  | _, .timedOut :: _ => .error .timedOut
  | _, .failed reason :: _ => .error (.failed reason)
  | buf, .bytes [] :: _ => .ok buf
  | buf, .bytes (b :: data) :: events =>
      let buf := buf ++ b :: data
      if complete buf then .ok buf
      else if cap < buf.length then .ok buf
      else collect buf events

/-- The loop has a reason to stop at this buffer. -/
def Stops (buf : Bytes) : Prop :=
  complete buf = true ∨ cap < buf.length

/-- The reads that return these pieces. -/
def reads (pieces : List Bytes) : List ReadEvent :=
  pieces.map .bytes

/-- The loop ends behind a piece where it has a reason to. -/
theorem collect_stop
    {buf piece : Bytes} {pieces : List Bytes}
    (hpiece : piece ≠ [])
    (hstop : Stops complete cap (buf ++ piece)) :
    collect complete cap buf (reads (piece :: pieces)) = .ok (buf ++ piece) := by
  obtain ⟨b, data, rfl⟩ := List.exists_cons_of_ne_nil hpiece
  simp only [reads, List.map_cons, collect]
  rcases hstop with hc | hcap
  · rw [if_pos hc]
  · rw [if_pos hcap, ite_self]

/-- The loop goes on behind a piece where it has none. -/
theorem collect_go
    {buf piece : Bytes} {pieces : List Bytes}
    (hpiece : piece ≠ [])
    (hstop : ¬ Stops complete cap (buf ++ piece)) :
    collect complete cap buf (reads (piece :: pieces)) =
      collect complete cap (buf ++ piece) (reads pieces) := by
  obtain ⟨b, data, rfl⟩ := List.exists_cons_of_ne_nil hpiece
  obtain ⟨hc, hcap⟩ := not_or.mp hstop
  simp only [reads, List.map_cons, collect]
  rw [if_neg hc, if_neg hcap]

/--
The loop ends behind some of the pieces: it had no reason to stop behind fewer of
them, and either it has one there or the stream is over.
-/
theorem collect_stops
    (pieces : List Bytes) (buf : Bytes)
    (hne : ∀ p ∈ pieces, p ≠ []) :
    ∃ k ≤ pieces.length,
      collect complete cap buf (reads pieces) = .ok (buf ++ (pieces.take k).flatten) ∧
        (∀ j, 0 < j → j < k → ¬ Stops complete cap (buf ++ (pieces.take j).flatten)) ∧
        (k = pieces.length ∨
          0 < k ∧ Stops complete cap (buf ++ (pieces.take k).flatten)) := by
  induction pieces generalizing buf with
  | nil =>
      exact ⟨0, by simp, by simp [reads, collect], by omega, Or.inl rfl⟩
  | cons piece pieces ih =>
      by_cases hstop : Stops complete cap (buf ++ piece)
      · rw [collect_stop complete cap (hne piece (by simp)) hstop]
        refine ⟨1, by simp, by simp, by omega, Or.inr ⟨by omega, by simpa using hstop⟩⟩
      · rw [collect_go complete cap (hne piece (by simp)) hstop]
        obtain ⟨k, hk, hbuf, hbefore, hend⟩ :=
          ih (buf ++ piece) fun p hp => hne p (by simp [hp])
        refine ⟨k + 1, by simpa using hk, by simpa using hbuf, ?_, ?_⟩
        · intro j hj hjk
          cases j with
          | zero => omega
          | succ j =>
              rcases Nat.eq_zero_or_pos j with rfl | hpos
              · simpa using hstop
              · simpa using hbefore j hpos (by omega)
        · rcases hend with hall | ⟨hpos, hstops⟩
          · exact Or.inl (by simp [hall])
          · exact Or.inr ⟨by omega, by simpa using hstops⟩

end

section Arrived

/-- The pieces up to the one in which this many bytes are there. -/
def arrived : Nat → List Bytes → Bytes
  | 0, _ => []
  | _ + 1, [] => []
  | n + 1, piece :: pieces => piece ++ arrived (n + 1 - piece.length) pieces

theorem arrived_isPrefix
    (n : Nat) (pieces : List Bytes) :
    arrived n pieces <+: pieces.flatten := by
  induction pieces generalizing n with
  | nil => cases n <;> exact List.prefix_rfl
  | cons piece pieces ih =>
      cases n with
      | zero => exact List.nil_prefix
      | succ n => exact (List.prefix_append_right_inj piece).mpr (ih _)

theorem le_length_arrived
    {n : Nat} {pieces : List Bytes} (h : n ≤ pieces.flatten.length) :
    n ≤ (arrived n pieces).length := by
  induction pieces generalizing n with
  | nil =>
      obtain rfl := Nat.le_zero.mp h
      exact Nat.zero_le _
  | cons piece pieces ih =>
      cases n with
      | zero => exact Nat.zero_le _
      | succ n =>
          rw [List.flatten_cons, List.length_append] at h
          have hrest := ih (n := n + 1 - piece.length) (by omega)
          rw [arrived, List.length_append]
          omega

end Arrived

section Exact

open ByteString (ascii)

/-- Read this many bytes, in as many reads as it takes; also what is left of the stream. -/
def readExact : Nat → List ReadEvent → Except ReadError Bytes × List ReadEvent
  | 0, events => (.ok [], events)
  | _ + 1, [] => (.error (.failed (ascii "early eof")), [])
  | _ + 1, .timedOut :: events => (.error .timedOut, events)
  | _ + 1, .failed reason :: events => (.error (.failed reason), events)
  | _ + 1, .bytes [] :: events => (.error (.failed (ascii "early eof")), events)
  | n + 1, .bytes (b :: data) :: events =>
      if n < data.length then (.ok ((b :: data).take (n + 1)), .bytes (data.drop n) :: events)
      else
        let (r, rest) := readExact (n - data.length) events
        (r.map fun more => b :: data ++ more, rest)

/-- Where the bytes are there, the read takes them, however they arrive. -/
theorem readExact_reads
    {n : Nat} {pieces : List Bytes} (hne : ∀ p ∈ pieces, p ≠ []) (hn : n ≤ pieces.flatten.length) :
    ∃ rest, (∀ p ∈ rest, p ≠ []) ∧ rest.flatten = pieces.flatten.drop n ∧
      readExact n (reads pieces) = (.ok (pieces.flatten.take n), reads rest) := by
  induction pieces generalizing n with
  | nil =>
      obtain rfl := Nat.le_zero.mp hn
      exact ⟨[], nofun, rfl, rfl⟩
  | cons piece pieces ih =>
      obtain ⟨hpiece, hrest⟩ := List.forall_mem_cons.mp hne
      cases n with
      | zero => exact ⟨piece :: pieces, hne, rfl, rfl⟩
      | succ n =>
          obtain ⟨b, data, rfl⟩ := List.exists_cons_of_ne_nil hpiece
          rw [List.flatten_cons, List.length_append, List.length_cons] at hn
          rw [List.flatten_cons, List.cons_append, List.take_succ_cons, List.drop_succ_cons]
          by_cases hlt : n < data.length
          · refine ⟨data.drop n :: pieces, ?_, ?_, ?_⟩
            · refine List.forall_mem_cons.mpr ⟨fun hnil => ?_, hrest⟩
              exact absurd (List.drop_eq_nil_iff.mp hnil) (Nat.not_le.mpr hlt)
            · rw [List.flatten_cons, List.drop_append_of_le_length (Nat.le_of_lt hlt)]
            · rw [List.take_append_of_le_length (Nat.le_of_lt hlt)]
              simp only [reads, List.map_cons, readExact, if_pos hlt, List.take_succ_cons]
          · obtain ⟨rest, hrestne, hflatten, hread⟩ :=
              ih (n := n - data.length) hrest (by omega)
            refine ⟨rest, hrestne, ?_, ?_⟩
            · rw [hflatten, List.drop_append, List.drop_eq_nil_of_le (Nat.not_lt.mp hlt),
                List.nil_append]
            · rw [reads] at hread
              simp only [reads, List.map_cons, readExact, if_neg hlt, hread, Except.map]
              rw [List.take_append, List.take_of_length_le (Nat.not_lt.mp hlt), List.cons_append]

/-- Where they are not, it fails, and nothing is left. -/
theorem readExact_short
    {n : Nat} {pieces : List Bytes} (hne : ∀ p ∈ pieces, p ≠ [])
    (hn : pieces.flatten.length < n) :
    readExact n (reads pieces) = (.error (.failed (ascii "early eof")), []) := by
  induction pieces generalizing n with
  | nil =>
      obtain ⟨n, rfl⟩ := Nat.exists_eq_succ_of_ne_zero (Nat.ne_of_gt hn)
      rfl
  | cons piece pieces ih =>
      obtain ⟨hpiece, hrest⟩ := List.forall_mem_cons.mp hne
      obtain ⟨b, data, rfl⟩ := List.exists_cons_of_ne_nil hpiece
      obtain ⟨n, rfl⟩ := Nat.exists_eq_succ_of_ne_zero (Nat.ne_of_gt (Nat.zero_lt_of_lt hn))
      rw [List.flatten_cons, List.length_append, List.length_cons] at hn
      have hlt : ¬ n < data.length := by omega
      have hread := ih (n := n - data.length) hrest (by omega)
      rw [reads] at hread
      simp only [reads, List.map_cons, readExact, if_neg hlt, hread, Except.map]

end Exact

end Stream
