/-
# Products of vectors and polynomials

The pointwise product, and the product of two polynomials through the transform: pad both to a
power of two that holds the result, transform, multiply pointwise, transform back and cut.
-/

import ProofMiner.Polynomial
import ProofMiner.Transform.Ntt

namespace ProofMiner

/-- The pointwise product of two vectors of one length. -/
def hadamard (t : Tuning) (a b : Array Goldilocks) : Except Fault (Array Goldilocks) :=
  if a.size ≠ b.size then .error (.hadamardLengths a.size b.size)
  else
    .ok (t.loop (t.splits a.size t.hadamard) a.size
      (fun i out => out.setIfInBounds i (a.getD i 0 * b.getD i 0)) (Array.replicate a.size 0))

/-- The first `n` entries, with zeros appended if there are fewer. -/
def resized (a : Array Goldilocks) (n : Nat) : Array Goldilocks :=
  Array.ofFn fun i : Fin n => a.getD i 0

/-- The product through the transform. A zero operand gives the zero polynomial of length 1. -/
def multiplyFft (t : Tuning) (a b : Array Goldilocks) : Except Fault (Array Goldilocks) := do
  if Polynomial.isZero a || Polynomial.isZero b then return #[0]
  let length := a.size + b.size - 1
  let n := nextPowerOfTwo length
  let each := if t.splits n t.concurrent then t.halved else t
  let fa ← forward each (resized a n)
  let fb ← forward each (resized b n)
  let values ← hadamard t fa fb
  return resized (← inverse t values) length

/-- The product: schoolbook for short results, through the transform for long ones. -/
def multiply (t : Tuning) (a b : Array Goldilocks) : Except Fault (Array Goldilocks) :=
  if Polynomial.isZero a || Polynomial.isZero b then .ok #[0]
  else if a.size + b.size - 1 < t.fftMultiply then .ok (Polynomial.mul a b)
  else multiplyFft t a b

end ProofMiner
