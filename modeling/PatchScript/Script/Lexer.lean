import PatchScript.Script.Token
import PatchScript.Number.Decimal

/-!
# From characters to tokens

`lex` reads a source from the front.  Blanks are skipped.  At every other
character one *lexeme* is read, the first that fits of this list.

* a comment: `//` to the end of the line, or `/*` to the next `*/`, or to the
  end of the source if there is none;
* a keyword: a run of letters, numbers and underscores that spells one;
* a boolean: a run of the letters of `true` and `false` that is one of the two
  words, even if more letters follow;
* a string: what stands between two single quotes;
* a number: a run of digits and points;
* an operator, always one character;
* an identifier: a run of letters, numbers and underscores.

The loop `lexFrom` goes through the list of characters one by one and counts
down those that belong to the lexeme it has read, so that it recurses on the
list itself.
-/

namespace PatchScript.Script

/-! ## What can go wrong -/

/-- Why no lexeme can be read. -/
inductive LexFault where
  /-- No lexeme starts with this character. -/
  | unexpectedChar (c : Char)
  /-- A quote is opened and not closed; the first characters behind it. -/
  | unclosedQuote (start : String)
  /-- A run of digits and points that denotes no number. -/
  | invalidNumber (word : String)
deriving DecidableEq

/-- A source that cannot be read: the cause, the texts of the last tokens before
it and the place. -/
structure LexError where
  /-- The cause. -/
  fault : LexFault
  /-- The texts of the last tokens read. -/
  context : List String
  /-- The place. -/
  span : Span
deriving DecidableEq

namespace LexError

/-- How many tokens are shown before the offending text. -/
def contextTokens : Nat := 2

/-- How many characters behind an open quote are shown. -/
def previewChars : Nat := 10

/-- The text that offends. -/
def offending : LexFault → String
  | .unexpectedChar c => String.ofList [c]
  | .unclosedQuote start => "'" ++ start
  | .invalidNumber word => word

/-- The offending text behind the tokens before it, empty ones left out. -/
def excerpt (e : LexError) : String :=
  " ".intercalate ((e.context ++ [offending e.fault]).filter (· != ""))

/-- The code of a cause. -/
def code : LexFault → String
  | .unexpectedChar _ => "LEX_UNEXPECTED_CHAR"
  | .unclosedQuote _ => "LEX_UNCLOSED_QUOTE"
  | .invalidNumber _ => "LEX_INVALID_NUMBER"

/-- What is said about the cause. -/
def complaint : LexFault → String
  | .unexpectedChar c => "Unexpected character \"" ++ String.ofList [c] ++ "\""
  | .unclosedQuote _ => "Unclosed quote"
  | .invalidNumber word => "Invalid number \"" ++ word ++ "\""

/-- What is told about a source that cannot be read. -/
def report (e : LexError) : Report :=
  ⟨code e.fault, complaint e.fault ++ " in \"" ++ e.excerpt ++ "\"", some e.span⟩

end LexError

/-! ## Lexemes -/

/-- Letters, numbers and the underscore make words. -/
def isWordPart (c : Char) : Bool := Text.isAlphanumeric c || c == '_'

/-- Digits and points make numbers. -/
def isNumberPart (c : Char) : Bool := Text.isDigit c || c == '.'

/-- The letters of `true` and `false`. -/
def isBooleanPart (c : Char) : Bool := "truefals".toList.contains c

/-- What is read in one go: the characters it is spelled with and, unless it is a
comment, the kind and text of its token. -/
structure Lexeme where
  /-- The characters read. -/
  spelling : List Char
  /-- The kind and the text of the token. -/
  token : Option (TokenKind × String)

/-- The rest of a block comment, with the mark that closes it. -/
def blockComment : List Char → List Char
  | [] => []
  | '*' :: '/' :: _ => ['*', '/']
  | c :: cs => c :: blockComment cs

/-- The comment that stands at the front, if one does. -/
def comment? : List Char → Option (List Char)
  | '/' :: '/' :: cs => some ('/' :: '/' :: cs.takeWhile (· != '\n'))
  | '/' :: '*' :: cs => some ('/' :: '*' :: blockComment cs)
  | _ => none

/-- The keyword that stands at the front, if one does. -/
def keyword? (cs : List Char) : Option Lexeme :=
  let word := cs.takeWhile isWordPart
  (Keyword.ofWord? (String.ofList word)).map fun k => ⟨word, some (.keyword, k.spelling)⟩

/-- The boolean that stands at the front, if one does. -/
def boolean? (cs : List Char) : Option Lexeme :=
  let word := String.ofList (cs.takeWhile isBooleanPart)
  if word = "true" ∨ word = "false" then some ⟨word.toList, some (.boolean, word)⟩ else none

/-- The string whose opening quote has been read. -/
def string (cs : List Char) : Except LexFault Lexeme :=
  let text := cs.takeWhile (· != '\'')
  if text.length < cs.length then
    .ok ⟨'\'' :: text ++ ['\''], some (.string, String.ofList text)⟩
  else .error (.unclosedQuote (String.ofList (text.take LexError.previewChars)))

/-- A run of digits and points, read as a number. -/
def number (word : List Char) : Except LexFault Lexeme :=
  match Decimal.number? word with
  | some x => .ok ⟨word, some (.number, x.render)⟩
  | none => .error (.invalidNumber (String.ofList word))

/-- The lexeme at the front of a source that starts with `c`, which is not
blank. -/
def lexeme (c : Char) (cs : List Char) : Except LexFault Lexeme :=
  match comment? (c :: cs) with
  | some spelling => .ok ⟨spelling, none⟩
  | none =>
    match (keyword? (c :: cs)).or (boolean? (c :: cs)) with
    | some found => .ok found
    | none =>
      if c = '\'' then string cs
      else if isNumberPart c then number ((c :: cs).takeWhile isNumberPart)
      else if (Operator.ofChar? c).isSome then .ok ⟨[c], some (.operator, String.ofList [c])⟩
      else if isWordPart c then
        let word := (c :: cs).takeWhile isWordPart
        .ok ⟨word, some (.identifier, String.ofList word)⟩
      else .error (.unexpectedChar c)

/-! ## The loop -/

/-- The stretch that a cause is reported at, when the front of the source is at
`place`. -/
def LexFault.span (place : Location) (cs : List Char) : LexFault → Span
  | .unexpectedChar _ => .point place
  | .unclosedQuote _ => ⟨place, place.afterAll cs⟩
  | .invalidNumber word => ⟨place, place.afterAll word.toList⟩

/-- Reads the tokens of a source from `place` on.  `skip` counts the characters
that still belong to the lexeme last read, and `done` are the tokens so far,
last one first. -/
def lexFrom : (skip : Nat) → (place : Location) → (done : List Token) → List Char →
    Except LexError (List Token)
  | _, _, done, [] => .ok done.reverse
  | skip + 1, place, done, c :: cs => lexFrom skip (place.after c) done cs
  | 0, place, done, c :: cs =>
    if Text.isBlank c then lexFrom 0 (place.after c) done cs
    else
      match lexeme c cs with
      | .error fault =>
        let context := (done.take LexError.contextTokens).reverse.map Token.text
        .error ⟨fault, context, fault.span place (c :: cs)⟩
      | .ok found =>
        let span : Span := ⟨place, place.afterAll found.spelling⟩
        let done := match found.token with
          | some (kind, text) => ⟨kind, text, span⟩ :: done
          | none => done
        lexFrom (found.spelling.length - 1) (place.after c) done cs

/-- The tokens of a source. -/
def lex (source : String) : Except LexError (List Token) :=
  lexFrom 0 .origin [] source.toList

end PatchScript.Script
