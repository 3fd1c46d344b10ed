/-
# Polynomials by their coefficients

A polynomial is the array of its coefficients from the constant one; the empty array is zero.
No operation trims zeros at the end: lengths follow the lengths of the operands, so that vectors
over a fixed domain keep their layout.
-/

namespace ProofMiner
namespace Polynomial

variable {α : Type} [Zero α] [Add α] [Sub α] [Neg α] [Mul α] [DecidableEq α]

/-- Every coefficient is zero. -/
def isZero (p : Array α) : Bool := p.all fun c => c = 0

/-- The index of the last coefficient other than zero among the first `n`, or 0. -/
def degreeBelow (p : Array α) : Nat → Nat
  | 0 => 0
  | n + 1 => if p.getD n 0 = 0 then degreeBelow p n else n

/-- The degree; 0 for the zero polynomial. -/
def degree (p : Array α) : Nat := degreeBelow p p.size

/-- The value at `x` by Horner's rule. -/
def eval (p : Array α) (x : α) : α := p.foldr (fun c acc => acc * x + c) 0

/-- Coefficientwise sum, as long as the longer operand. -/
def add (p q : Array α) : Array α :=
  Array.ofFn fun i : Fin (max p.size q.size) => p.getD i 0 + q.getD i 0

/-- Coefficientwise difference, as long as the longer operand. -/
def sub (p q : Array α) : Array α :=
  Array.ofFn fun i : Fin (max p.size q.size) => p.getD i 0 - q.getD i 0

/-- The negative of each coefficient. -/
def neg (p : Array α) : Array α := p.map fun c => -c

/-- Every coefficient times `s`. -/
def scale (p : Array α) (s : α) : Array α := p.map fun c => c * s

/-- The schoolbook product: `p i * q j` is added at index `i + j`. The product with a zero
polynomial is the zero polynomial of length 1. -/
def mul (p q : Array α) : Array α :=
  if isZero p || isZero q then #[0]
  else
    p.size.fold (fun i _ acc =>
      q.size.fold (fun j _ acc => acc.modify (i + j) (· + p.getD i 0 * q.getD j 0)) acc)
      (Array.replicate (p.size + q.size - 1) 0)

end Polynomial
end ProofMiner
