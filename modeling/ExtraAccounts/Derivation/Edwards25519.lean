import ExtraAccounts.Bytes

/-!
# The curve edwards25519

The points `(x, y)` over the field of `2 ^ 255 - 19` elements with `-x² + y² = 1 + d x² y²`. Thirty-two
bytes name a point by its `y`: the lowest 255 bits, little endian, taken modulo the prime. There is
such a point iff `(y² - 1) / (d y² + 1)` is a square, zero included. The divisor is never zero, as
`-1` is a square and `d` is not, so the test multiplies by it in place of dividing.
-/

namespace ExtraAccounts.Edwards25519

/-- The number of elements of the field. -/
def prime : Nat := Nat.pow 2 255 - 19

/-- The constant of the curve, `-121665 / 121666` in the field. -/
def d : Nat := 37095705934669439343138083508754565189542113879843219016388785533085940283555

/-- The power of `base` modulo `modulus`, by repeated squaring. -/
def powMod (modulus base exponent : Nat) : Nat :=
  if exponent = 0 then 1 % modulus
  else
    let root := powMod modulus (base * base % modulus) (exponent / 2)
    if exponent % 2 = 1 then base * root % modulus else root

theorem powMod_eq (modulus base exponent : Nat) :
    powMod modulus base exponent = Nat.pow base exponent % modulus := by
  rw [Nat.pow_eq]
  fun_induction powMod modulus base exponent with
  | case1 => simp
  | case2 base exponent _ root hodd ih =>
    have h : exponent = 2 * (exponent / 2) + 1 := by omega
    have hpow : base ^ exponent = base * (base * base) ^ (exponent / 2) := by
      rw [← Nat.pow_two, ← Nat.pow_mul]
      conv => lhs; rw [h, Nat.pow_succ, Nat.mul_comm]
    rw [show root = _ from ih, hpow]
    simp [Nat.mul_mod, Nat.pow_mod]
  | case3 base exponent _ root heven ih =>
    have h : exponent = 2 * (exponent / 2) := by omega
    have hpow : base ^ exponent = (base * base) ^ (exponent / 2) := by
      rw [← Nat.pow_two, ← Nat.pow_mul, ← h]
    rw [show root = _ from ih, hpow]
    simp [Nat.pow_mod]

/-- Whether `n` is a square in the field, by Euler's criterion. -/
def isSquare (n : Nat) : Bool :=
  n % prime == 0 || powMod prime n ((prime - 1) / 2) == 1

/-- Whether the bytes name a point of the curve. -/
def isPoint (bytes : Block 32) : Bool :=
  let y := Bytes.leNat bytes.toBytes % Nat.pow 2 255 % prime
  let numerator := y * y + prime - 1
  let denominator := d * (y * y) + 1
  isSquare (numerator * denominator % prime)

end ExtraAccounts.Edwards25519
