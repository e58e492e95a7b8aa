import PatchScript.Text.Class

/-!
# Searching and changing texts

Replacement, trimming and splitting, each defined on the list of characters, so
that a statement about a text is a statement about a list.
-/

namespace PatchScript.Text

/-! ## Replacement -/

/-- Every occurrence of `old` replaced by `new`, read from left to right without
overlap.  `skip` counts the characters that still belong to the occurrence last
replaced, and `done` is the text made so far, last character first. -/
def replaceFrom (old new : List Char) : (skip : Nat) → (done : List Char) → List Char → List Char
  | _, done, [] => done.reverse
  | skip + 1, done, _ :: cs => replaceFrom old new skip done cs
  | 0, done, c :: cs =>
    if old.isPrefixOf (c :: cs) then
      replaceFrom old new (old.length - 1) (new.reverseAux done) cs
    else replaceFrom old new 0 (c :: done) cs

/-- Every occurrence of the text `old`, which is not empty, replaced by `new`. -/
def replaceAll (s old new : String) : String :=
  String.ofList (replaceFrom old.toList new.toList 0 [] s.toList)

/-! ## Searching -/

/-- Does the text begin with `start`? -/
def startsWith (s start : String) : Bool := start.toList.isPrefixOf s.toList

/-- Does `part` occur in the list of characters? -/
def containsList (part : List Char) : List Char → Bool
  | [] => part.isEmpty
  | c :: cs => part.isPrefixOf (c :: cs) || containsList part cs

/-- Does `part` occur in the text? -/
def contains (s part : String) : Bool := containsList part.toList s.toList

/-- What follows the first occurrence of `mark`, if it occurs. -/
def afterFirst? (mark : List Char) : List Char → Option (List Char)
  | [] => if mark.isEmpty then some [] else none
  | c :: cs =>
    if mark.isPrefixOf (c :: cs) then some ((c :: cs).drop mark.length) else afterFirst? mark cs

/-! ## Blanks -/

/-- The characters without the blanks before them. -/
def trimStartList (cs : List Char) : List Char := cs.dropWhile isBlank

/-- The characters without the blanks before and behind them. -/
def trimList (cs : List Char) : List Char :=
  (trimStartList (trimStartList cs).reverse).reverse

/-- The text without the blanks before and behind it. -/
def trim (s : String) : String := String.ofList (trimList s.toList)

/-- The words of a list of characters, split at runs of blanks.  The first
argument is the word under way, last character first. -/
def wordsFrom (word : List Char) : List Char → List (List Char)
  | [] => if word.isEmpty then [] else [word.reverse]
  | c :: cs =>
    if isBlank c then
      if word.isEmpty then wordsFrom [] cs else word.reverse :: wordsFrom [] cs
    else wordsFrom (c :: word) cs

/-- The words of a text, split at runs of blanks. -/
def words (s : String) : List String := (wordsFrom [] s.toList).map String.ofList

/-- What stands behind the last occurrence of `mark`, or the whole list if there
is none. -/
def afterLast (mark : Char) (cs : List Char) : List Char :=
  (cs.reverse.takeWhile (· != mark)).reverse

/-- The pieces of a list of characters between the marks.  There is one more of them
than there are marks. -/
def pieces (mark : Char) : List Char → List (List Char)
  | [] => [[]]
  | c :: cs =>
    match pieces mark cs with
    | [] => [[c]]
    | p :: ps => if c = mark then [] :: p :: ps else (c :: p) :: ps

/-! ## Comparison -/

/-- Are the texts equal but for the case of ASCII letters? -/
def sameLetters (a b : String) : Bool :=
  a.toList.map Char.toLower == b.toList.map Char.toLower

end PatchScript.Text
