/-!
# Binary64 numbers

The numbers of the format binary64: 53 bits of significand, exponents from
-1074 to 971, two zeros, two infinities and one not-a-number.  A finite number
is `±significand * 2 ^ exponent`.  All arithmetic is done on integers and exact
until the last step, `ofRatio`, which rounds a quotient to the nearest number of
the format and a tie to the even significand.

The pair of significand and exponent is the canonical one in every number that
`ofRatio` makes: a significand of 53 bits, or the least exponent.  Order and
equality do not lean on that, since `compare?` goes by the value.
-/

namespace PatchScript

/-- A number of the format binary64. -/
inductive Binary64 where
  /-- Not a number. -/
  | nan
  /-- One of the two infinities. -/
  | infinite (negative : Bool)
  /-- The number `±significand * 2 ^ exponent`. -/
  | finite (negative : Bool) (significand : Nat) (exponent : Int)
deriving DecidableEq, Inhabited

namespace Binary64

/-! ## Powers -/

/-- The power of a base if the exponent is not negative, and else 1.  A factor
`base ^ k` on one side of a quotient or a comparison is `power base k` on that side
and `power base (-k)` on the other. -/
def power (base : Nat) (k : Int) : Nat := Nat.pow base k.toNat

/-- The least significand of 53 bits, 2 ^ 52. -/
def leastSignificand : Nat := 4503599627370496

/-- The least significand of 54 bits, 2 ^ 53. -/
def significandEnd : Nat := 9007199254740992

/-! ## Rounding -/

/-- The least exponent of the format. -/
def minExponent : Int := -1074

/-- The greatest exponent of the format. -/
def maxExponent : Int := 971

/-- The zero of the given sign. -/
def zero (negative : Bool) : Binary64 := .finite negative 0 minExponent

/-- The quotient `n / d` rounded to the nearest integer, a tie to the even one. -/
def roundQuotient (n d : Nat) : Nat :=
  let q := n / d
  let r := n % d
  if 2 * r < d then q
  else if d < 2 * r then q + 1
  else if q % 2 = 0 then q else q + 1

/-- The greatest `k` with `2 ^ k ≤ n / d`, for positive `n` and `d`. -/
def floorLog2 (n d : Nat) : Int :=
  let k : Int := (Nat.log2 n : Int) - Nat.log2 d
  if d * power 2 k ≤ n * power 2 (-k) then k else k - 1

/-- The exponent at which a positive quotient is written: the one that leaves 53
bits of significand, but not below the least. -/
def exponentFor (n d : Nat) : Int := max (floorLog2 n d - 52) minExponent

/-- The number with the given significand, or an infinity if the exponent is too
great. -/
def pack (negative : Bool) (significand : Nat) (exponent : Int) : Binary64 :=
  if maxExponent < exponent then .infinite negative
  else .finite negative significand exponent

/-- The number nearest to `n / d`, for positive `d`. -/
def ofRatio (negative : Bool) (n d : Nat) : Binary64 :=
  if n = 0 then zero negative
  else
    let e := exponentFor n d
    let m := roundQuotient (n * power 2 (-e)) (d * power 2 e)
    if m = significandEnd then pack negative leastSignificand (e + 1) else pack negative m e

/-- The number nearest to `±n * 2 ^ e`. -/
def ofScaled (negative : Bool) (n : Nat) (e : Int) : Binary64 :=
  ofRatio negative (n * power 2 e) (power 2 (-e))

/-- The number nearest to a natural number. -/
def ofNat (n : Nat) : Binary64 := ofRatio false n 1

/-! ## Order -/

/-- The integer `±m`. -/
def signed (negative : Bool) (m : Nat) : Int := if negative then -(m : Int) else m

/-- The order of `±m * 2 ^ e` and `±n * 2 ^ f`, after a move to one exponent. -/
def compareScaled (x : Int) (e : Int) (y : Int) (f : Int) : Ordering :=
  compare (x * power 2 (e - min e f)) (y * power 2 (f - min e f))

/-- The order of two numbers, which not-a-number has with none. -/
def compare? : Binary64 → Binary64 → Option Ordering
  | .nan, _ => none
  | _, .nan => none
  | .infinite s, .infinite t => some (compare (if s then (-1 : Int) else 1) (if t then -1 else 1))
  | .infinite s, .finite .. => some (if s then .lt else .gt)
  | .finite .., .infinite t => some (if t then .gt else .lt)
  | .finite s m e, .finite t n f => some (compareScaled (signed s m) e (signed t n) f)

/-- Numerical equality: the zeros are equal, and not-a-number equals nothing. -/
def equal (x y : Binary64) : Bool := compare? x y == some .eq

/-- Numerical order. -/
def less (x y : Binary64) : Bool := compare? x y == some .lt

/-- Numerical order or equality. -/
def lessOrEqual (x y : Binary64) : Bool := less x y || equal x y

/-- Is the number one of the zeros? -/
def isZero : Binary64 → Bool
  | .finite _ m _ => m == 0
  | _ => false

/-- Is the number not-a-number? -/
def isNaN : Binary64 → Bool
  | .nan => true
  | _ => false

/-- Is the number neither infinite nor not-a-number? -/
def isFinite : Binary64 → Bool
  | .finite .. => true
  | _ => false

/-! ## Arithmetic -/

/-- The number with the other sign. -/
def negate : Binary64 → Binary64
  | .nan => .nan
  | .infinite s => .infinite (!s)
  | .finite s m e => .finite (!s) m e

/-- The sum.  A sum of nothing is the positive zero, unless both parts are
negative. -/
def add : Binary64 → Binary64 → Binary64
  | .nan, _ => .nan
  | _, .nan => .nan
  | .infinite s, .infinite t => if s = t then .infinite s else .nan
  | .infinite s, .finite .. => .infinite s
  | .finite .., .infinite t => .infinite t
  | .finite s m e, .finite t n f =>
    let g := min e f
    let sum := signed s m * power 2 (e - g) + signed t n * power 2 (f - g)
    if sum = 0 then zero (s && t) else ofScaled (sum < 0) sum.natAbs g

/-- The difference. -/
def subtract (x y : Binary64) : Binary64 := add x (negate y)

/-! ## Whole numbers -/

/-- The least integer of 64 bits. -/
def minInteger : Int := -9223372036854775808

/-- The greatest integer of 64 bits. -/
def maxInteger : Int := 9223372036854775807

/-- The integer part, held within 64 bits; 0 for not-a-number. -/
def toInteger : Binary64 → Int
  | .nan => 0
  | .infinite s => if s then minInteger else maxInteger
  | .finite s m e =>
    max minInteger (min maxInteger (signed s (m * power 2 e / power 2 (-e))))

end Binary64

end PatchScript
