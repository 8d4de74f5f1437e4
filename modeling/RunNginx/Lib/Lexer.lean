import RunNginx.Lib.ByteString

/-!
# Lexers

A lexer reads a text byte by byte: each byte takes it to a next mode, and may complete some
tokens.  The end of the text completes what is left, or finds it unfinished.

What a lexer makes of a text is put together from the parts of the text (`run_append`), and a
part whose bytes are only collected is collected as a whole (`run_collect`).  A lexer that
loses nothing gives the text back (`Lossless.tokens`).
-/

/-- A lexer with its modes and tokens. -/
structure Lexer (μ τ : Type) where
  start : μ
  step : μ → UInt8 → List τ × μ
  /-- The tokens that the end of the text completes; `none` in the middle of one. -/
  finish : μ → Option (List τ)

namespace Lexer

variable {μ τ : Type} (L : Lexer μ τ)

/-- The tokens completed by a text, and the mode behind it. -/
def run : μ → Bytes → List τ × μ
  | m, [] => ([], m)
  | m, b :: s => ((L.step m b).1 ++ (run (L.step m b).2 s).1, (run (L.step m b).2 s).2)

/-- The tokens of a whole text. -/
def tokens (s : Bytes) : Option (List τ) :=
  (L.finish (L.run L.start s).2).map fun last => (L.run L.start s).1 ++ last

variable {L}

theorem run_cons
    (m : μ) (b : UInt8) (s : Bytes) :
    L.run m (b :: s) = ((L.step m b).1 ++ (L.run (L.step m b).2 s).1, (L.run (L.step m b).2 s).2) :=
  rfl

/-- A text is read part by part. -/
theorem run_append
    (m : μ) (s t : Bytes) :
    L.run m (s ++ t) = ((L.run m s).1 ++ (L.run (L.run m s).2 t).1, (L.run (L.run m s).2 t).2) := by
  induction s generalizing m with
  | nil => rfl
  | cons b s ih => rw [List.cons_append, run_cons, ih, run_cons, List.append_assoc]

theorem run_append_of_eq
    {m m' : μ} {s : Bytes} {ts : List τ} (h : L.run m s = (ts, m')) (t : Bytes) :
    L.run m (s ++ t) = (ts ++ (L.run m' t).1, (L.run m' t).2) := by
  rw [run_append, h]

theorem run_snoc
    (m : μ) (s : Bytes) (b : UInt8) :
    L.run m (s ++ [b]) =
      ((L.run m s).1 ++ (L.step (L.run m s).2 b).1, (L.step (L.run m s).2 b).2) := by
  rw [run_append, run_cons, run, List.append_nil]

/-- Bytes that are only collected. -/
theorem run_collect
    {collect : Bytes → μ} {s : Bytes}
    (h : ∀ b ∈ s, ∀ v, L.step (collect v) b = ([], collect (v ++ [b]))) (v : Bytes) :
    L.run (collect v) s = ([], collect (v ++ s)) := by
  induction s generalizing v with
  | nil => rw [List.append_nil]; rfl
  | cons b s ih =>
      obtain ⟨hb, hs⟩ := List.forall_mem_cons.mp h
      rw [run_cons, hb v, ih hs, List.append_assoc]
      rfl

/-- Bytes that are passed over. -/
theorem run_skip
    {m : μ} {s : Bytes} (h : ∀ b ∈ s, L.step m b = ([], m)) :
    L.run m s = ([], m) := by
  induction s with
  | nil => rfl
  | cons b s ih =>
      obtain ⟨hb, hs⟩ := List.forall_mem_cons.mp h
      rw [run_cons, hb, ih hs]
      rfl

/-- Every byte of a text is in its tokens; `pending` is what a mode has read of the next one. -/
structure Lossless (L : Lexer μ τ) (text : τ → Bytes) (pending : μ → Bytes) : Prop where
  start : pending L.start = []
  step : ∀ m b, (L.step m b).1.flatMap text ++ pending (L.step m b).2 = pending m ++ [b]
  finish : ∀ m ts, L.finish m = some ts → ts.flatMap text = pending m

section Lossless

variable {text : τ → Bytes} {pending : μ → Bytes}

theorem Lossless.run
    (hL : L.Lossless text pending) (m : μ) (s : Bytes) :
    (L.run m s).1.flatMap text ++ pending (L.run m s).2 = pending m ++ s := by
  induction s generalizing m with
  | nil => rw [Lexer.run, List.append_nil]; rfl
  | cons b s ih =>
      rw [run_cons, List.flatMap_append, List.append_assoc, ih, ← List.append_assoc, hL.step,
        List.append_assoc]
      rfl

/-- The tokens of a text, written one behind the other, are the text. -/
theorem Lossless.tokens
    (hL : L.Lossless text pending) {s : Bytes} {ts : List τ} (h : L.tokens s = some ts) :
    ts.flatMap text = s := by
  obtain ⟨last, hlast, rfl⟩ := Option.map_eq_some_iff.mp h
  rw [List.flatMap_append, hL.finish _ _ hlast, hL.run, hL.start, List.nil_append]

end Lossless

end Lexer
