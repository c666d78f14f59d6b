/-!
# Numbers as doubles

A double has 53 significant bits, and its magnitude is below `2 ^ 1024`. A number
becomes one in three roundings: of its leading digits, as many as 64 bits hold, of
the power of ten behind them, and of their product. So the largest numbers that
are finite depend on how many digits they are spelled with.
-/

namespace Typemap.Json.Double

/-- The nearest number of 53 significant bits, of two equally near the one whose
last bit is zero. -/
def round (n : Nat) : Nat :=
  let unit := Nat.pow 2 (n.log2 + 1 - 53)
  let whole := n / unit
  let rest := n % unit
  if 2 * rest < unit ∨ 2 * rest = unit ∧ whole % 2 = 0 then whole * unit else (whole + 1) * unit

/-- The digits that 64 bits hold, with the exponent raised for each one dropped. -/
def shorten (digits : Nat) (exponent : Int) : Nat × Int :=
  if digits < UInt64.size then (digits, exponent) else shorten (digits / 10) (exponent + 1)
termination_by digits
decreasing_by
  rename_i h
  exact Nat.div_lt_self (Nat.lt_of_lt_of_le (by decide) (Nat.le_of_not_lt h)) (by decide)

/-- The number `digits * 10 ^ exponent` does not overflow. A power of ten beyond
`10 ^ 308` does so by itself. -/
def isFinite (digits : Nat) (exponent : Int) : Bool :=
  let (m, e) := shorten digits exponent
  m = 0 || e < 0 || (e ≤ 308 && round (round m * round (Nat.pow 10 e.toNat)) < Nat.pow 2 1024)

end Typemap.Json.Double
