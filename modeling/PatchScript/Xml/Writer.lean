import PatchScript.Xml.Tree

/-!
# Writing XML

An element without children is written as one tag.  An element with a text among
its children is written on one line, with all that is inside it, so that no
blank is added to a text.  All other elements have each child on a line of its
own, two spaces further in.

Markup characters in texts and values are written as references, and so are
quotes, tabs and line ends in values, which a reader would change.
-/

namespace PatchScript.Xml

/-! ## Texts and values -/

/-- A character of a text. -/
def escapeTextChar (c : Char) : List Char :=
  if c = '&' then ['&', 'a', 'm', 'p', ';']
  else if c = '<' then ['&', 'l', 't', ';']
  else if c = '>' then ['&', 'g', 't', ';']
  else [c]

/-- A character of an attribute's value. -/
def escapeValueChar (c : Char) : List Char :=
  if c = '"' then ['&', 'q', 'u', 'o', 't', ';']
  else if c = '\n' then ['&', '#', 'x', 'A', ';']
  else if c = '\r' then ['&', '#', 'x', 'D', ';']
  else if c = '\t' then ['&', '#', 'x', '9', ';']
  else escapeTextChar c

/-- A text as it is written. -/
def escapeText (s : String) : List Char := s.toList.flatMap escapeTextChar

/-- A value as it is written between its quotes. -/
def escapeValue (s : String) : List Char := s.toList.flatMap escapeValueChar

/-- An attribute as it is written, with the space before it. -/
def writeAttribute (a : String × String) : List Char :=
  ' ' :: a.1.toList ++ '=' :: '"' :: escapeValue a.2 ++ ['"']

/-! ## Trees -/

/-- The blanks before a line at some depth. -/
def indent (depth : Nat) : List Char := List.replicate (2 * depth) ' '

mutual

/-- A tree as it is written at some depth, on a line of its own or inline. -/
def Tree.write (depth : Nat) (inline : Bool) : Tree → List Char
  | .document children => writeInline depth inline children
  | .text content => escapeText content
  | .comment content =>
    (if inline then [] else indent depth)
      ++ '<' :: '!' :: '-' :: '-' :: content.toList ++ ['-', '-', '>']
  | .element name attributes children =>
    let margin := if inline then [] else indent depth
    let start := margin ++ '<' :: name.toList ++ attributes.flatMap writeAttribute
    if children.isEmpty then start ++ [' ', '/', '>']
    else
      let content :=
        if inline || children.any Tree.isText then writeInline 0 true children
        else writeLines (depth + 1) children ++ '\n' :: margin
      start ++ '>' :: content ++ '<' :: '/' :: name.toList ++ ['>']

/-- Trees one behind the other. -/
def writeInline (depth : Nat) (inline : Bool) : List Tree → List Char
  | [] => []
  | t :: ts => t.write depth inline ++ writeInline depth inline ts

/-- Trees on a line each. -/
def writeLines (depth : Nat) : List Tree → List Char
  | [] => []
  | t :: ts => '\n' :: t.write depth false ++ writeLines depth ts

end

/-- Trees at the top, on a line each and with no line end before the first or
behind the last. -/
def writeTop (ts : List Tree) : String :=
  "\n".intercalate (ts.map fun t => String.ofList (t.write 0 false))

end PatchScript.Xml
