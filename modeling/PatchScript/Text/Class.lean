import PatchScript.Text.Alphabetic
import PatchScript.Text.Numeric
import PatchScript.Text.WordMark
import PatchScript.Text.Hidden
import PatchScript.Text.Extend

/-!
# Classes of characters

The classes of characters that the languages of this library are made of.  Each
answers for ASCII by a comparison and for every other character by a table of
runs of code points.
-/

namespace PatchScript.Text

/-- Is the code point in one of the runs? -/
def inRanges (runs : List (Nat × Nat)) (n : Nat) : Bool :=
  runs.any fun run => run.1 ≤ n && n ≤ run.2

/-- Letters, and what is used like a letter. -/
def isAlphabetic (c : Char) : Bool :=
  if c.toNat < 0x80 then c.isAlpha else inRanges alphabeticRanges c.toNat

/-- Letters and numbers of all scripts. -/
def isAlphanumeric (c : Char) : Bool :=
  if c.toNat < 0x80 then c.isAlphanum
  else inRanges alphabeticRanges c.toNat || inRanges numericRanges c.toNat

/-- The characters of a word: letters, marks, decimal digits, connecting
punctuation such as `_`, and join controls, as far as Unicode 16 has them. -/
def isWord (c : Char) : Bool :=
  if c.toNat < 0x80 then c.isAlphanum || c == '_'
  else (inRanges alphabeticRanges c.toNat || inRanges wordMarkRanges c.toNat)
    && !inRanges lateRanges c.toNat

/-- White space: the 25 characters that separate words. -/
def isBlank (c : Char) : Bool :=
  if c.toNat < 0x80 then c == ' ' || (0x9 ≤ c.toNat && c.toNat ≤ 0xd)
  else c.toNat == 0x85 || c.toNat == 0xa0 || c.toNat == 0x1680
    || (0x2000 ≤ c.toNat && c.toNat ≤ 0x200a) || c.toNat == 0x2028 || c.toNat == 0x2029
    || c.toNat == 0x202f || c.toNat == 0x205f || c.toNat == 0x3000

/-- Does the character leave a mark of its own on paper?  The plain space counts
as one that does. -/
def isVisible (c : Char) : Bool :=
  if c.toNat < 0x80 then 0x20 ≤ c.toNat && c.toNat < 0x7f
  else !(inRanges hiddenRanges c.toNat || inRanges extendRanges c.toNat)

/-- The ten decimal digits of ASCII. -/
def isDigit (c : Char) : Bool := '0' ≤ c && c ≤ '9'

end PatchScript.Text
