/-!
# Places in a text

A place is counted the way an editor shows it: lines and columns start at 1, a
line feed ends a line, and every other character is one column wide.  A span is
a pair of places, the first character and the place behind the last.
-/

namespace PatchScript

/-- A place in a text: its line and its column, both counted from 1. -/
structure Location where
  /-- The line. -/
  line : Nat := 1
  /-- The column. -/
  column : Nat := 1
deriving DecidableEq, Inhabited

namespace Location

/-- The place of the first character of every text. -/
def origin : Location := ⟨1, 1⟩

/-- The place behind a character that stands at `l`. -/
def after (l : Location) (c : Char) : Location :=
  if c = '\n' then ⟨l.line + 1, 1⟩ else ⟨l.line, l.column + 1⟩

/-- The place behind a run of characters that starts at `l`. -/
def afterAll (l : Location) (cs : List Char) : Location := cs.foldl after l

@[simp] theorem afterAll_nil (l : Location) : l.afterAll [] = l := rfl

@[simp] theorem afterAll_cons (l : Location) (c : Char) (cs : List Char) :
    l.afterAll (c :: cs) = (l.after c).afterAll cs := rfl

theorem afterAll_append (l : Location) (cs ds : List Char) :
    l.afterAll (cs ++ ds) = (l.afterAll cs).afterAll ds := List.foldl_append

end Location

/-- A stretch of a text, from the place of its first character to the place
behind its last. -/
structure Span where
  /-- The place of the first character. -/
  start : Location
  /-- The place behind the last character. -/
  stop : Location
deriving DecidableEq, Inhabited

/-- The empty stretch at one place. -/
def Span.point (l : Location) : Span := ⟨l, l⟩

/-- What is told about a failure: a code that programs read, a message that
people read and, where one is known, the place in the source. -/
structure Report where
  /-- The code. -/
  code : String
  /-- The message. -/
  message : String
  /-- The place in the source. -/
  span : Option Span := none
deriving DecidableEq

end PatchScript
