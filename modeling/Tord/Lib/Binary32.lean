import Mathlib.Algebra.Order.Floor.Ring
import Mathlib.Data.Int.Log
import Mathlib.Data.UInt
import Mathlib.Tactic.NormNum
import Mathlib.Tactic.Positivity
import Tord.Lib.Rounding

/-! Numbers of the format binary32 by their values, which leaves the two zeroes as one. An
operation is carried out exactly, and its result rounded to 24 significant bits. -/
namespace Binary32

open Rounding

inductive Single where
  | nan
  | infinite (negative : Bool)
  | finite (value : ℚ)
  deriving DecidableEq

/-- What the last place of a number of this size is worth. -/
def unit (q : ℚ) : ℚ := 2 ^ max (Int.log 2 |q| - 23) (-149)

def rounded (q : ℚ) : ℚ := roundTiesEven (q / unit q) * unit q

namespace Single

def ofRat (q : ℚ) : Single :=
  if |rounded q| < 2 ^ 128 then .finite (rounded q) else .infinite (decide (q < 0))

def less : Single → Single → Bool
  | .finite a, .finite b => decide (a < b)
  | .infinite true, .finite _ => true
  | .finite _, .infinite false => true
  | .infinite true, .infinite false => true
  | _, _ => false

def clamp (x low high : Single) : Single :=
  let x := if less x low then low else x
  if less high x then high else x

def scale (c : ℚ) : Single → Single
  | .finite a => ofRat (a * c)
  | other => other

def divide (c : ℚ) : Single → Single
  | .finite a => ofRat (a / c)
  | other => other

def ofUInt32 (n : UInt32) : Single := ofRat n.toNat

/-- Towards zero, as far as the type goes. -/
def toUInt32 : Single → UInt32
  | .finite a => .ofNat (min a.floor.toNat (2 ^ 32 - 1))
  | .infinite false => .ofNat (2 ^ 32 - 1)
  | _ => 0

end Single

variable {q : ℚ} {e : ℤ}

end Binary32
