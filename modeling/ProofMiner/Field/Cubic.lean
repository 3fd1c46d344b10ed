/-
# The cubic extension

The field `F_p[X] / (X^3 - X + 1)`: an element is `c0 + c1 X + c2 X^2`. Products are reduced with
`X^3 = X - 1` and `X^4 = X^2 - X`. An inverse is the first column of the adjugate of the matrix
of multiplication, over its determinant.
-/

import ProofMiner.Field.Goldilocks

namespace ProofMiner

/-- An element of the extension by its three coefficients. -/
structure Cubic where
  c0 : Goldilocks
  c1 : Goldilocks
  c2 : Goldilocks
  deriving DecidableEq, Repr, Inhabited

namespace Cubic

/-- A base field element as a constant. -/
def ofBase (a : Goldilocks) : Cubic := ⟨a, 0, 0⟩

instance : Zero Cubic := ⟨⟨0, 0, 0⟩⟩
instance : One Cubic := ⟨⟨1, 0, 0⟩⟩

/-- The coefficients, from the constant one. -/
def toList (a : Cubic) : List Goldilocks := [a.c0, a.c1, a.c2]

/-- Sums and negatives are taken coefficient by coefficient. -/
def add (a b : Cubic) : Cubic := ⟨a.c0 + b.c0, a.c1 + b.c1, a.c2 + b.c2⟩
def sub (a b : Cubic) : Cubic := ⟨a.c0 - b.c0, a.c1 - b.c1, a.c2 - b.c2⟩
def neg (a : Cubic) : Cubic := ⟨-a.c0, -a.c1, -a.c2⟩

/-- The product of the two polynomials, with the terms of degree 3 and 4 folded back. -/
def mul (a b : Cubic) : Cubic :=
  let d0 := a.c0 * b.c0
  let d1 := a.c0 * b.c1 + a.c1 * b.c0
  let d2 := a.c0 * b.c2 + a.c1 * b.c1 + a.c2 * b.c0
  let d3 := a.c1 * b.c2 + a.c2 * b.c1
  let d4 := a.c2 * b.c2
  ⟨d0 - d3, d1 + d3 - d4, d2 + d4⟩

instance : Add Cubic := ⟨add⟩
instance : Sub Cubic := ⟨sub⟩
instance : Neg Cubic := ⟨neg⟩
instance : Mul Cubic := ⟨mul⟩
instance : Pow Cubic Nat := ⟨power⟩

/-- Every coefficient times a base field element. -/
def scale (a : Cubic) (s : Goldilocks) : Cubic := ⟨a.c0 * s, a.c1 * s, a.c2 * s⟩

/-- The determinant of multiplication by `a`, whose matrix has the columns `a`, `a X`, `a X^2`. -/
def norm (a : Cubic) : Goldilocks :=
  a.c0 * a.c0 * a.c0 - a.c1 * a.c1 * a.c1 + a.c2 * a.c2 * a.c2
    + Goldilocks.ofWord 3 * (a.c0 * a.c1) * a.c2
    + Goldilocks.ofWord 2 * (a.c0 * a.c0) * a.c2
    + a.c0 * a.c2 * a.c2
    + a.c1 * (a.c2 * a.c2)
    - a.c0 * (a.c1 * a.c1)

/-- The first column of the adjugate of that matrix. -/
def adjugate (a : Cubic) : Cubic :=
  let s := a.c0 + a.c2
  ⟨s * s - a.c1 * a.c1 + a.c1 * a.c2,
   -(a.c0 * a.c1 + a.c2 * a.c2),
   a.c1 * a.c1 - a.c0 * a.c2 - a.c2 * a.c2⟩

/-- The inverse of an element other than zero. -/
def inverse (a : Cubic) : Except Fault Cubic := do
  if a = 0 then throw .invertZero
  return a.adjugate.scale (← a.norm.inverse)

/-- The quotient by an element other than zero. -/
def div (a b : Cubic) : Except Fault Cubic := do
  return a * (← b.inverse)

/-- The coefficients in parentheses. -/
def render (a : Cubic) : String :=
  s!"({a.c0.render}, {a.c1.render}, {a.c2.render})"

end Cubic
end ProofMiner
