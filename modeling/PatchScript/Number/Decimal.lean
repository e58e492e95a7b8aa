import PatchScript.Number.Binary64
import PatchScript.Text.Class

/-!
# Numbers in decimal

Numbers are read from decimal text exactly: the text denotes a quotient, and the
quotient is rounded once.  They are written with the fewest digits that read
back to the same number, the nearest to it of those; of two that are equally
near the greater one is taken.  Digits are found by trying 1, 2, … 17 places and
comparing integers, so nothing is rounded on the way.
-/

namespace PatchScript

/-! ## Reading -/

namespace Decimal

/-- The value of a digit. -/
def digit (c : Char) : Nat := c.toNat - '0'.toNat

/-- A number of which some digits are read.  The last of them make a block, so that a text of
many digits takes few steps on great numbers. -/
structure Reading where
  /-- The number that the digits before the block make. -/
  before : Nat
  /-- The power of ten that the digits of the block take. -/
  shift : Nat
  /-- The number that the digits of the block make. -/
  block : Nat

namespace Reading

/-- The number that is read. -/
def value (r : Reading) : Nat := r.before * r.shift + r.block

/-- Reads a digit.  A block has at most 18 digits. -/
def next (r : Reading) (c : Char) : Reading :=
  if r.shift < 1000000000000000000 then ⟨r.before, 10 * r.shift, 10 * r.block + digit c⟩
  else ⟨r.value, 10, digit c⟩

theorem value_next (r : Reading) (c : Char) : (r.next c).value = 10 * r.value + digit c := by
  unfold next
  split
  · simp only [value, Nat.mul_add, Nat.mul_left_comm, Nat.add_assoc]
  · simp only [value, Nat.mul_comm]

theorem value_foldl (r : Reading) (cs : List Char) :
    (cs.foldl next r).value = cs.foldl (fun n c => 10 * n + digit c) r.value := by
  induction cs generalizing r with
  | nil => rfl
  | cons c cs ih => rw [List.foldl_cons, ih, value_next, List.foldl_cons]

end Reading

/-- The digits of a number, most significant first, as a number. -/
def ofDigits (cs : List Char) : Nat := (cs.foldl Reading.next ⟨0, 1, 0⟩).value

/-- Blocks do not matter: each digit makes ten times the number before it, and adds its value. -/
theorem ofDigits_eq (cs : List Char) : ofDigits cs = cs.foldl (fun n c => 10 * n + digit c) 0 :=
  Reading.value_foldl ⟨0, 1, 0⟩ cs

/-- The exponent at the end of a decimal text, with the sign it may have; none if
the text does not end with one. -/
def exponent? : List Char → Option Int
  | [] => some 0
  | c :: cs =>
    if c = 'e' ∨ c = 'E' then
      let (negative, digits) := match cs with
        | '-' :: ds => (true, ds)
        | '+' :: ds => (false, ds)
        | ds => (false, ds)
      if digits ≠ [] ∧ digits.all Text.isDigit then
        some (Binary64.signed negative (ofDigits digits))
      else none
    else none

/-- The number `±digits * 10 ^ scale`, where `digits` are decimal digits.  Outside
400 powers of ten from 1 the answer is known without a power. -/
def round (negative : Bool) (digits : List Char) (scale : Int) : Binary64 :=
  let n := ofDigits digits
  let places : Int := (digits.dropWhile (· == '0')).length + scale
  if n = 0 ∨ places < -400 then Binary64.zero negative
  else if 400 < places then .infinite negative
  else Binary64.ofRatio negative (n * Binary64.power 10 scale) (Binary64.power 10 (-scale))

/-- The number that digits with an optional point and an optional exponent
denote. -/
def unsigned? (negative : Bool) (cs : List Char) : Option Binary64 :=
  let whole := cs.takeWhile Text.isDigit
  let rest := cs.dropWhile Text.isDigit
  let (part, rest) := match rest with
    | '.' :: ds => (ds.takeWhile Text.isDigit, ds.dropWhile Text.isDigit)
    | ds => ([], ds)
  if whole = [] ∧ part = [] then none
  else (exponent? rest).map fun e => round negative (whole ++ part) (e - part.length)

/-- The number that a text denotes: a sign, then digits with an optional point
and an optional exponent, or the name of an infinity or of not-a-number. -/
def number? (cs : List Char) : Option Binary64 :=
  let (negative, body) := match cs with
    | '-' :: ds => (true, ds)
    | '+' :: ds => (false, ds)
    | ds => (false, ds)
  let name := String.ofList (body.map Char.toLower)
  if name = "inf" ∨ name = "infinity" then some (.infinite negative)
  else if name = "nan" then some .nan
  else unsigned? negative body

end Decimal

/-- The number that a text denotes, if it denotes one. -/
def Binary64.ofText? (s : String) : Option Binary64 := Decimal.number? s.toList

/-! ## The fewest digits -/

namespace Decimal

open Binary64 (power)

/-- The order of `a * 10 ^ k` and `b * 2 ^ q`. -/
def compareGrid (a : Nat) (k : Int) (b : Nat) (q : Int) : Ordering :=
  compare (a * power 10 k * power 2 (-q)) (b * power 2 q * power 10 (-k))

/-- The numbers that round to `m * 2 ^ e`, as an interval of multiples of
`2 ^ (e - 2)`: half a step down, or a quarter at a power of two, and half a step
up. -/
def roundingInterval (m : Nat) (e : Int) : Nat × Nat :=
  (4 * m - (if m = Binary64.leastSignificand ∧ Binary64.minExponent < e then 1 else 2), 4 * m + 2)

/-- Does `a * 10 ^ k` round to `m * 2 ^ e`?  The ends of the interval do if `m`
is even. -/
def readsBack (m : Nat) (e : Int) (a : Nat) (k : Int) : Bool :=
  let (low, high) := roundingInterval m e
  let atLow := compareGrid a k low (e - 2)
  let atHigh := compareGrid a k high (e - 2)
  if m % 2 = 0 then atLow != .lt && atHigh != .gt else atLow == .gt && atHigh == .lt

/-- The greatest `a` with `a * 10 ^ k ≤ m * 2 ^ e`. -/
def floorGrid (m : Nat) (e k : Int) : Nat :=
  m * power 2 e * power 10 (-k) / (power 10 k * power 2 (-e))

/-- The greatest `p` with `10 ^ p ≤ m * 2 ^ e`, for positive `m` and numbers of
at least `10 ^ -400`. -/
def magnitude (m : Nat) (e : Int) : Int :=
  ((Nat.toDigits 10 (floorGrid m e (-400))).length : Int) - 401

/-- The multiple of `10 ^ k` that reads back as `m * 2 ^ e` and is nearest to it,
if one of the two neighbours does; the upper one on a tie. -/
def onGrid? (m : Nat) (e k : Int) : Option Nat :=
  let down := floorGrid m e k
  let up := down + 1
  match readsBack m e down k, readsBack m e up k with
  | false, false => none
  | true, false => some down
  | false, true => some up
  | true, true => some (if compareGrid (down + up) k m (e + 1) == .gt then down else up)

/-- The first hit of grids that get finer, with the exponent of its grid.  The
finest grid tried stands for the answer if none is hit. -/
def shortestFrom (m : Nat) (e : Int) : Nat → Int → Nat × Int
  | 0, k => (floorGrid m e k, k)
  | tries + 1, k =>
    match onGrid? m e k with
    | some a => (a, k)
    | none => shortestFrom m e tries (k - 1)

/-- Digits without the zeros at their end, which go to the exponent. -/
def stripZeros : List Char → Int → List Char × Int
  | '0' :: ds, k => stripZeros ds (k + 1)
  | ds, k => (ds.reverse, k)

/-- The fewest digits that read back as `m * 2 ^ e`, for positive `m`, and the
power of ten of the last of them. -/
def shortest (m : Nat) (e : Int) : List Char × Int :=
  let (a, k) := shortestFrom m e 17 (magnitude m e)
  stripZeros (Nat.toDigits 10 a).reverse k

/-! ## Layout -/

/-- Digits times a power of ten, without an exponent. -/
def positional (digits : List Char) (k : Int) : List Char :=
  if 0 ≤ k then digits ++ List.replicate k.toNat '0'
  else
    let places := (-k).toNat
    if places < digits.length then
      digits.take (digits.length - places) ++ '.' :: digits.drop (digits.length - places)
    else '0' :: '.' :: List.replicate (places - digits.length) '0' ++ digits

/-- Digits times a power of ten, with one digit before the point and an
exponent. -/
def scientific (digits : List Char) (k : Int) : List Char :=
  let power := k + digits.length - 1
  let exponent := 'e' :: (toString power).toList
  match digits with
  | [] => '0' :: exponent
  | [d] => d :: exponent
  | d :: ds => d :: '.' :: ds ++ exponent

/-- The sign of a number in decimal. -/
def sign (negative : Bool) : List Char := if negative then ['-'] else []

end Decimal

namespace Binary64

/-- The number in decimal: the fewest digits, never an exponent, and the usual
names for what is not finite. -/
def render : Binary64 → String
  | .nan => "NaN"
  | .infinite negative => if negative then "-Infinity" else "Infinity"
  | .finite negative m e =>
    if m = 0 then String.ofList (Decimal.sign negative ++ ['0'])
    else
      let (digits, k) := Decimal.shortest m e
      String.ofList (Decimal.sign negative ++ Decimal.positional digits k)

/-- The number in decimal as one sees at once that it is a number: with a point,
or with an exponent when it is 10^16 or more, or less than 10^-4. -/
def renderPlainly : Binary64 → String
  | .nan => "NaN"
  | .infinite negative => if negative then "-inf" else "inf"
  | .finite negative m e =>
    if m = 0 then String.ofList (Decimal.sign negative ++ ['0', '.', '0'])
    else
      let (digits, k) := Decimal.shortest m e
      let power := k + digits.length - 1
      let body :=
        if power < -4 ∨ 16 ≤ power then Decimal.scientific digits k
        else if 0 ≤ k then Decimal.positional digits k ++ ['.', '0']
        else Decimal.positional digits k
      String.ofList (Decimal.sign negative ++ body)

end Binary64

end PatchScript
