import RunNginx.Lib.ByteString

/-!
# Paths as text

Slash-separated paths: joining, splitting into components, the file name and its
extension.
-/

namespace PathText

open ByteString

def slash : UInt8 := 47

/-- Append a relative path; an absolute one replaces the base. -/
def join (base rel : Bytes) : Bytes :=
  if rel.head? = some slash then rel
  else if base = [] ∨ base.getLast? = some slash then base ++ rel
  else base ++ slash :: rel

/-- The pieces between the slashes. -/
def pieces (path : Bytes) : List Bytes :=
  splitByte slash path

/-- The last component, unless it is `..`. -/
def fileName (path : Bytes) : Option Bytes :=
  match ((pieces path).filter fun c => !c.isEmpty && c != ascii ".").getLast? with
  | none => none
  | some c => if c = ascii ".." then none else some c

/-- The text without slashes at its end. -/
def withoutTrail (path : Bytes) : Bytes :=
  (path.reverse.dropWhile (· == slash)).reverse

def isAbsolute (path : Bytes) : Bool :=
  path.head? == some slash

/-- The directory of a path; the root and the empty path have none. -/
def parent (path : Bytes) : Option Bytes :=
  let s := withoutTrail path
  match rfindByte slash s with
  | some i => some (if withoutTrail (s.take i) = [] then [slash] else withoutTrail (s.take i))
  | none => if s = [] then none else some []

/-- What stands behind the last dot of the file name, unless the dot is its first byte. -/
def extension (path : Bytes) : Option Bytes :=
  match fileName path with
  | none => none
  | some name =>
      match rfindByte 46 name with
      | none => none
      | some 0 => none
      | some i => some (name.drop (i + 1))

end PathText
