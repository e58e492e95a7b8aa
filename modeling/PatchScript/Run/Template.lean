import PatchScript.Text.Edit

/-!
# Templates

Two ways to put texts into a text.  A literal may hold *placeholders*, each a
word between braces, which stand for constants.  A constant may hold *slots*,
each a number between brackets, which stand for the arguments it is called with.

Both are filled one after the other, each wherever it occurs in the text made so
far.
-/

namespace PatchScript.Run

/-! ## Placeholders -/

/-- The words of the placeholders in a text, in order.  `skip` counts the
characters that still belong to the last of them. -/
def placeholdersFrom : (skip : Nat) → List Char → List String
  | _, [] => []
  | skip + 1, _ :: cs => placeholdersFrom skip cs
  | 0, c :: cs =>
    let word := cs.takeWhile Text.isWord
    if c = '\x7b' ∧ word ≠ [] ∧ cs[word.length]? = some '\x7d' then
      String.ofList word :: placeholdersFrom (word.length + 1) cs
    else placeholdersFrom 0 cs

/-- The words of the placeholders in a text, in order. -/
def placeholders (s : String) : List String := placeholdersFrom 0 s.toList

/-- The placeholder of a word. -/
def placeholder (word : String) : String := "\x7b" ++ word ++ "\x7d"

/-- The text with the placeholders of the words replaced, one word after the other.
The error is the first word that stands for nothing. -/
def fillWords (constant? : String → Option String) :
    (words : List String) → String → Except String String
  | [], s => .ok s
  | w :: ws, s =>
    match constant? w with
    | some value => fillWords constant? ws (Text.replaceAll s (placeholder w) value)
    | none => .error w

/-- A text with its placeholders replaced by the constants they stand for. -/
def fillPlaceholders (constant? : String → Option String) (s : String) : Except String String :=
  fillWords constant? (placeholders s) s

/-! ## Slots -/

/-- The slot of a number. -/
def slot (k : Nat) : String := "[" ++ toString k ++ "]"

/-- A text with its slots from the number `k` on replaced by texts, one slot after
the other. -/
def fillSlotsFrom : (k : Nat) → List String → String → String
  | _, [], s => s
  | k, v :: vs, s => fillSlotsFrom (k + 1) vs (Text.replaceAll s (slot k) v)

/-- A text with its slots replaced by texts, of which the first has the number 1. -/
def fillSlots (s : String) (values : List String) : String := fillSlotsFrom 1 values s

end PatchScript.Run
