import PatchScript.Text.Edit
import PatchScript.Xml.Document

/-!
# The pieces of a marked-up text

The first half of reading XML 1.0: a text is cut into tags, texts, comments and
processing instructions, without a look at how they nest.  There is no document
type declaration, so the only entities are the five that XML predefines.

Every piece takes at least one character, so the number of characters bounds the
number of pieces.
-/

namespace PatchScript.Xml

/-! ## Characters -/

/-- The characters that XML 1.0 lets a document hold, surrogates aside. -/
def isXmlChar (c : Char) : Bool :=
  if c.toNat < 0x20 then c == '\t' || c == '\n' || c == '\r'
  else c.toNat != 0xfffe && c.toNat != 0xffff

/-- White space of XML. -/
def isSpace (c : Char) : Bool := c == ' ' || c == '\t' || c == '\n' || c == '\r'

/-- The characters beyond ASCII that can start a name of XML, as runs. -/
def tagNameStartRanges : List (Nat × Nat) := [
  (0xc0, 0xd6), (0xd8, 0xf6), (0xf8, 0x2ff), (0x370, 0x37d), (0x37f, 0x1fff), (0x200c, 0x200d),
  (0x2070, 0x218f), (0x2c00, 0x2fef), (0x3001, 0xd7ff), (0xf900, 0xfdcf), (0xfdf0, 0xfffd),
  (0x10000, 0xeffff)]

/-- The characters beyond ASCII that can stand further on in a name of XML only, as
runs. -/
def tagNamePartRanges : List (Nat × Nat) := [(0xb7, 0xb7), (0x300, 0x36f), (0x203f, 0x2040)]

/-- Can a name of XML start with the character? -/
def isTagNameStart (c : Char) : Bool :=
  if c.toNat < 0x80 then c.isAlpha || c == ':' || c == '_'
  else Text.inRanges tagNameStartRanges c.toNat

/-- Can the character stand in a name of XML? -/
def isTagNamePart (c : Char) : Bool :=
  if c.toNat < 0x80 then c.isAlphanum || c == ':' || c == '_' || c == '-' || c == '.'
  else Text.inRanges tagNameStartRanges c.toNat || Text.inRanges tagNamePartRanges c.toNat

/-! ## Pieces -/

/-- A name as it stands in a tag: the qualifier before the colon, empty if there
is none, and the rest. -/
structure QName where
  /-- What stands before the colon. -/
  qualifier : String
  /-- What stands behind it. -/
  localName : String
deriving DecidableEq

/-- A tag that opens an element. -/
structure Tag where
  /-- The name. -/
  name : QName
  /-- The attributes, with their values as a reader sees them. -/
  attributes : List (QName × String)
deriving DecidableEq

/-- A piece of a marked-up text. -/
inductive Piece where
  /-- A tag that opens an element and may close it too. -/
  | openTag (tag : Tag) (closed : Bool)
  /-- A tag that closes an element. -/
  | closeTag (name : QName)
  /-- Characters between markup, references as they stand. -/
  | text (raw : List Char)
  /-- A section of characters without markup. -/
  | cdata (raw : List Char)
  /-- A comment. -/
  | comment (content : String)
  /-- A processing instruction, whose content nobody reads. -/
  | instruction

/-! ## References and line ends -/

/-- A character of a text: one that stands there, or one that a reference
stands for. -/
structure Glyph where
  /-- The character. -/
  char : Char
  /-- Does a reference stand for it? -/
  referred : Bool

/-- The value of digits in a base. -/
def digitsValue? (base : Nat) (cs : List Char) : Option Nat :=
  if cs.isEmpty then none
  else cs.foldlM (fun n c =>
    let d := if c.isDigit then c.toNat - '0'.toNat
      else if 'a' ≤ c ∧ c ≤ 'f' then c.toNat - 'a'.toNat + 10
      else if 'A' ≤ c ∧ c ≤ 'F' then c.toNat - 'A'.toNat + 10
      else base
    if d < base then some (base * n + d) else none) 0

/-- The character with a code.  A code of 32 bits that is no character's gives the
replacement character. -/
def charOfCode? (n : Nat) : Option Char :=
  if 4294967296 ≤ n then none
  else
    let c := if n.isValidChar then Char.ofNat n else '\ufffd'
    if isXmlChar c then some c else none

/-- The character that a reference stands for, of which the part between `&` and
`;` is given. -/
def referred? (body : List Char) : Option Char :=
  match body with
  | '#' :: 'x' :: ds => (digitsValue? 16 ds).bind charOfCode?
  | '#' :: ds => (digitsValue? 10 ds).bind charOfCode?
  | _ =>
    match String.ofList body with
    | "quot" => some '"'
    | "amp" => some '&'
    | "apos" => some '\''
    | "lt" => some '<'
    | "gt" => some '>'
    | _ => none

/-- The characters of a text with its references resolved.  `skip` counts the
characters that still belong to the last reference, and `done` are the
characters so far, last one first. -/
def glyphsFrom : (skip : Nat) → (done : List Glyph) → List Char → Except Error (List Glyph)
  | _, done, [] => .ok done.reverse
  | skip + 1, done, _ :: cs => glyphsFrom skip done cs
  | 0, done, c :: cs =>
    if c = '&' then
      let body := cs.takeWhile (· != ';')
      match referred? body with
      | some r =>
        if body.length < cs.length then glyphsFrom (body.length + 1) (⟨r, true⟩ :: done) cs
        else .error (.malformed "a reference is not closed")
      | none => .error (.malformed "a reference is not known")
    else glyphsFrom 0 (⟨c, false⟩ :: done) cs

/-- The characters of a text with its references resolved. -/
def glyphs (cs : List Char) : Except Error (List Glyph) := glyphsFrom 0 [] cs

/-- A text with one more character that stands in it.  A carriage return, alone or
before a line feed, becomes a line feed, which is known when the next character
comes or when there is none. -/
def pushLine (done : List Char) (c : Char) (last : Bool) : List Char :=
  match done with
  | '\r' :: rest =>
    if last && c == '\r' then '\n' :: '\n' :: rest
    else if c == '\n' then '\n' :: rest
    else c :: '\n' :: rest
  | _ => if last && c == '\r' then '\n' :: done else c :: done

/-- The characters of a text with its line ends made line feeds.  A character that
a reference stands for is kept, and so is the one behind it. -/
def joinLines : (keep : Bool) → (done : List Char) → List Glyph → List Char
  | _, done, [] => done.reverse
  | keep, done, g :: gs =>
    if g.referred then joinLines true (g.char :: done) gs
    else if keep then joinLines false (g.char :: done) gs
    else joinLines false (pushLine done g.char gs.isEmpty) gs

/-- A text as a reader sees it. -/
def textOf (raw : List Char) : Except Error String := do
  return String.ofList (joinLines false [] (← glyphs raw))

/-- A section without markup as a reader sees it. -/
def cdataOf (raw : List Char) : String :=
  String.ofList (joinLines false [] (raw.map (⟨·, false⟩)))

/-- The characters of a value with every line end and tab made a space. -/
def spaceLines : List Glyph → List Char
  | [] => []
  | ⟨c, true⟩ :: gs => c :: spaceLines gs
  | ⟨'\r', false⟩ :: ⟨'\n', false⟩ :: gs => ' ' :: spaceLines gs
  | ⟨c, false⟩ :: gs =>
    (if c == '\n' || c == '\r' || c == '\t' then ' ' else c) :: spaceLines gs

/-- An attribute's value as a reader sees it. -/
def valueOf (raw : List Char) : Except Error String := do
  return String.ofList (spaceLines (← glyphs raw))

/-! ## Tags -/

/-- What a reader of a part of the text gives: what it read and what follows. -/
abbrev Reading := Except Error

/-- A name at the front. -/
def qname (cs : List Char) : Reading (QName × List Char) :=
  let run := cs.takeWhile isTagNamePart
  let (qualifier, localName) :=
    if run.contains ':' then (run.takeWhile (· != ':'), (run.dropWhile (· != ':')).drop 1)
    else ([], run)
  if localName.contains ':' then .error (.malformed "a name has two colons")
  else if qualifier.take 1 |>.all isTagNameStart then
    match localName with
    | [] => .error (.malformed "a name is expected")
    | c :: _ =>
      if isTagNameStart c then
        .ok (⟨String.ofList qualifier, String.ofList localName⟩, cs.dropWhile isTagNamePart)
      else .error (.malformed "a name starts with a wrong character")
  else .error (.malformed "a name starts with a wrong character")

/-- An equals sign at the front, with spaces around it or not. -/
def equals (cs : List Char) : Reading (List Char) :=
  match cs.dropWhile isSpace with
  | '=' :: rest => .ok (rest.dropWhile isSpace)
  | _ => .error (.malformed "an equals sign is expected")

/-- A value between quotes, which may hold neither its quote nor a tag. -/
def quoted : List Char → Reading (List Char × List Char)
  | [] => .error (.malformed "a value is expected")
  | q :: cs =>
    if q = '"' ∨ q = '\'' then
      let inside (c : Char) : Bool := c != q && c != '<'
      match cs.dropWhile inside with
      | c :: rest =>
        if c = q then .ok (cs.takeWhile inside, rest)
        else .error (.malformed "a value holds a tag")
      | [] => .error (.malformed "a value is not closed")
    else .error (.malformed "a value has no quotes")

/-- An attribute: a name, an equals sign and a value. -/
def attribute? (cs : List Char) : Reading ((QName × List Char) × List Char) := do
  let (name, cs) ← qname cs
  let cs ← equals cs
  let (raw, cs) ← quoted cs
  return ((name, raw), cs)

/-- The rest of a tag behind its name: the attributes, each behind a space, and
whether the tag closes the element too. -/
def tagFrom : (steps : Nat) → List Char → Reading ((List (QName × String) × Bool) × List Char)
  | 0, _ => .error (.malformed "a tag is not closed")
  | n + 1, cs =>
    match cs.dropWhile isSpace with
    | '/' :: '>' :: rest => .ok (([], true), rest)
    | '>' :: rest => .ok (([], false), rest)
    | inner =>
      if (cs.take 1).all isSpace then do
        let ((name, raw), rest) ← attribute? inner
        let value ← valueOf raw
        let ((attributes, closed), rest) ← tagFrom n rest
        return (((name, value) :: attributes, closed), rest)
      else .error (.malformed "a space is expected in a tag")

/-! ## The other pieces -/

/-- What stands before the first occurrence of `mark`, last character first in
`done`, and what follows it. -/
def upTo (mark : List Char) : (done : List Char) → List Char → Reading (List Char × List Char)
  | _, [] => .error (.malformed "a piece of markup is not closed")
  | done, c :: cs =>
    if mark.isPrefixOf (c :: cs) then .ok (done.reverse, (c :: cs).drop mark.length)
    else upTo mark (c :: done) cs

/-- The rest of a comment behind its opening. -/
def commentFrom (cs : List Char) : Reading (Piece × List Char) := do
  let (content, rest) ← upTo ['-', '-', '>'] [] cs
  if Text.containsList ['-', '-'] content || content.getLast? == some '-' then
    throw (.malformed "a comment holds two hyphens")
  else return (.comment (String.ofList content), rest)

/-- The rest of a processing instruction behind its opening.  The name `xml` is
kept for the declaration of a document. -/
def instructionFrom (cs : List Char) : Reading (Piece × List Char) := do
  if ['x', 'm', 'l', ' '].isPrefixOf cs then
    throw (.malformed "a declaration stands in the wrong place")
  if !(cs.take 1).any isTagNameStart then
    throw (.malformed "an instruction has no name")
  let (_, rest) ← upTo ['?', '>'] [] (cs.dropWhile isTagNamePart)
  return (.instruction, rest)

/-- The piece at the front of a text that starts with `c`. -/
def piece (steps : Nat) (c : Char) (cs : List Char) : Reading (Piece × List Char) :=
  if c = '<' then
    match cs with
    | '!' :: '-' :: '-' :: rest => commentFrom rest
    | '!' :: '[' :: 'C' :: 'D' :: 'A' :: 'T' :: 'A' :: '[' :: rest => do
      let (content, rest) ← upTo [']', ']', '>'] [] rest
      return (.cdata content, rest)
    | '!' :: _ => .error (.malformed "a declaration is not supported")
    | '?' :: rest => instructionFrom rest
    | '/' :: rest => do
      let (name, rest) ← qname rest
      match rest.dropWhile isSpace with
      | '>' :: rest => return (.closeTag name, rest)
      | _ => throw (.malformed "a closing tag is not closed")
    | rest => do
      let (name, rest) ← qname rest
      let ((attributes, closed), rest) ← tagFrom steps rest
      return (.openTag ⟨name, attributes⟩ closed, rest)
  else
    let raw := (c :: cs).takeWhile (· != '<')
    if Text.containsList [']', ']', '>'] raw then
      .error (.malformed "a text holds the end of a section")
    else .ok (.text raw, (c :: cs).dropWhile (· != '<'))

/-- The pieces of a text, at most `steps` of them.  `done` holds those so far, last
one first. -/
def piecesFrom : (steps : Nat) → (done : List Piece) → List Char → Reading (List Piece)
  | _, done, [] => .ok done.reverse
  | 0, _, _ :: _ => .error (.malformed "too many pieces")
  | n + 1, done, c :: cs => do
    let (p, rest) ← piece (n + 1) c cs
    piecesFrom n (p :: done) rest

/-! ## The start of a document -/

/-- Spaces at the front, which may be missing only before the end of the
declaration. -/
def declarationSpace (cs : List Char) : Reading (List Char) :=
  if (cs.take 1).any isSpace then .ok (cs.dropWhile isSpace)
  else if ['?', '>'].isPrefixOf cs || cs.isEmpty then .ok cs
  else .error (.malformed "a space is expected in a declaration")

/-- A part of the declaration that may be left out, and the space behind it. -/
def declarationPart (name : String) (cs : List Char) : Reading (List Char) :=
  if name.toList.isPrefixOf cs then do
    let (_, cs) ← attribute? cs
    declarationSpace cs
  else .ok cs

/-- The rest of a document's declaration behind its opening: the version, and
perhaps the encoding and whether the document stands alone. -/
def declarationFrom (cs : List Char) : Reading (List Char) := do
  let cs := cs.dropWhile isSpace
  if !("version".toList.isPrefixOf cs) then
    throw (.malformed "a declaration has no version")
  let cs ← declarationPart "version" cs
  let cs ← declarationPart "encoding" cs
  let cs ← declarationPart "standalone" cs
  match cs.dropWhile isSpace with
  | '?' :: '>' :: rest => return rest
  | _ => throw (.malformed "a declaration is not closed")

/-- The pieces of a document, behind the mark of byte order and the declaration
that it may start with. -/
def pieces (source : List Char) : Reading (List Piece) := do
  if !source.all isXmlChar then
    throw (.malformed "a character is not allowed")
  let cs := match source with
    | '\ufeff' :: rest => rest
    | _ => source
  let cs ← match cs with
    | '<' :: '?' :: 'x' :: 'm' :: 'l' :: ' ' :: rest => declarationFrom rest
    | _ => pure cs
  piecesFrom source.length [] cs

end PatchScript.Xml
