import Mathlib.Data.List.Basic

/-!
# Files whose writes may fail

A file is absent or holds a list of symbols.  A write is done, is refused before it has
touched the file, or stops after some symbols of the new contents; a copy is a write
of what the source holds.
-/

namespace Storage

variable {α ε : Type}

/-- How a write ends. -/
inductive Write (ε : Type)
  | done
  | refused (reason : ε)
  /-- Only this many symbols get to the file. -/
  | cut (length : Nat) (reason : ε)
deriving DecidableEq, Repr

/-- The contents after a write, and whether it is reported as done. -/
def write (contents : List α) (file : Option (List α)) :
    Write ε → Option (List α) × Except ε Unit
  | .done => (some contents, .ok ())
  | .refused reason => (file, .error reason)
  | .cut length reason => (some (contents.take length), .error reason)

/-- Copy a file over another one; a source that is absent is reported for this reason. -/
def copy (source file : Option (List α)) (absent : ε) (w : Write ε) :
    Option (List α) × Except ε Unit :=
  match source with
  | some contents => write contents file w
  | none => (file, .error absent)

variable {contents : List α} {source file : Option (List α)} {absent : ε} {w : Write ε}

/-- A write that is reported as done is done. -/
theorem write_ok
    (h : (write contents file w).2 = .ok ()) :
    w = .done ∧ (write contents file w).1 = some contents := by
  cases w with
  | done => exact ⟨rfl, rfl⟩
  | refused reason => cases h
  | cut length reason => cases h

/-- A copy that is reported as done has a source, and the file holds what it does. -/
theorem copy_ok
    (h : (copy source file absent w).2 = .ok ()) :
    source.isSome = true ∧ (copy source file absent w).1 = source := by
  cases source with
  | none => cases h
  | some contents => exact ⟨rfl, (write_ok h).2⟩

/-- A write that is not cut short leaves the old contents or the new ones. -/
theorem write_error
    (h : ∀ length reason, w ≠ .cut length reason)
    (herror : (write contents file w).2 ≠ .ok ()) :
    (write contents file w).1 = file := by
  cases w with
  | done => exact absurd rfl herror
  | refused reason => rfl
  | cut length reason => exact absurd rfl (h length reason)

theorem copy_error
    (source file : Option (List α)) (absent : ε)
    (h : ∀ length reason, w ≠ .cut length reason)
    (herror : (copy source file absent w).2 ≠ .ok ()) :
    (copy source file absent w).1 = file := by
  cases source with
  | none => rfl
  | some contents => exact write_error h herror

end Storage
