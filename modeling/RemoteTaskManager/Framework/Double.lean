import Mathlib.Algebra.Group.Int.Defs
import Mathlib.Algebra.Group.Nat.Defs

/-!
# Binary floating point, exactly

A finite `float` or `double` is `m * 2^e`; the type does not bound `m` and
`e`, and each operation that rounds says so: an integer becomes a `double` by
rounding to 53 bits (`ofInt`), a decimal with two digits after the point by
rounding to hundredths (`hundredths`). Dividing by 1024 is exact.
-/

namespace RTM

/-- The nearest integer to `n / d`, the even one of two. -/
def divRoundEven (n d : Nat) : Nat :=
  let q := n / d
  let r := n % d
  if 2 * r < d then q else if d < 2 * r then q + 1 else if q % 2 = 0 then q else q + 1

/-- A `float` or a `double`: `m * 2^e`, an infinity or not a number. -/
inductive Double where
  | finite (m e : Int)
  | infinite (neg : Bool)
  | nan
deriving DecidableEq, Repr

namespace Double

/-- `static_cast<double>` of an integer: rounded to nearest, to 53 bits. -/
def ofInt (n : Int) : Double :=
  let s := Nat.log2 n.natAbs - 52
  finite (n.sign * divRoundEven n.natAbs (2 ^ s)) s

/-- `val / 1024.0`. -/
def div1024 : Double → Double
  | finite m e => finite m (e - 10)
  | d => d

/-- `|m * 2^e|` as a fraction. -/
def num (m e : Int) : Nat := m.natAbs * 2 ^ e.toNat
def den (e : Int) : Nat := 2 ^ (-e).toNat

/-- `val < 1024.0`. -/
def lt1024 : Double → Bool
  | finite m e => decide (m < 0) || decide (num m e < 1024 * den e)
  | infinite neg => neg
  | nan => false

/-- The integer part of a finite number. -/
def trunc? : Double → Option Int
  | finite m e => some (m.sign * (num m e / den e : Nat))
  | _ => none

/-- The conversion to an unsigned type of `w` bits: the integer part, if the
type has it (the behaviour is undefined if not). -/
def toUnsigned (w : Nat) (d : Double) : Option (BitVec w) :=
  d.trunc?.bind fun n => if 0 ≤ n ∧ n < 2 ^ w then some (BitVec.ofInt w n) else none

/-- `lround`: to nearest, halfway cases away from zero; of a number that is not
negative. -/
def lround : Double → Nat
  | finite m e => (2 * num m e + den e) / (2 * den e)
  | _ => 0

/-- How many hundredths are nearest to a number that is not negative. -/
def hundredths : Double → Nat
  | finite m e => divRoundEven (100 * num m e) (den e)
  | _ => 0

end Double

end RTM
