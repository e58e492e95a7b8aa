import PatchScript.Text.Quoted

/-!
# Sentinels

A preset runs only when it is called with a secret text as its last argument.
The text is drawn from a small generator of random numbers, seeded per run, so
that no script can spell it but by accident.
-/

namespace PatchScript.Run

/-- The generator moved on from a state: the next number and the next state. -/
def nextRandom (state : UInt32) : UInt32 × UInt32 :=
  let state := state + 0x6d2b79f5
  let x := (state ^^^ (state >>> 15)) * (state ||| 1)
  let x := x ^^^ (x + (x ^^^ (x >>> 7)) * (x ||| 61))
  (x ^^^ (x >>> 14), state)

/-- The sentinel of a seed: two numbers in base 16, eight digits each. -/
def sentinelOf (seed : UInt32) : String :=
  let (high, state) := nextRandom seed
  let (low, _) := nextRandom state
  String.ofList (Text.hexDigits 8 high.toNat ++ Text.hexDigits 8 low.toNat)

end PatchScript.Run
