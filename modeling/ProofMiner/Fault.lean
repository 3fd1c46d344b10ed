/-
# Causes of failure in field, transform and domain work

One constructor per cause. `Fault.kind` groups the causes into the families a caller can react
to; `Fault.message` is the only place where a wording is written down.
-/

namespace ProofMiner

/-- The families of causes. -/
inductive FaultKind where
  | lengthMismatch
  | notPowerOfTwo
  | noSuchRoot
  | malformedArguments
  | invalidArgument
  | divisionByZero
  deriving DecidableEq, Repr, Inhabited

/-- What an operation on field elements, vectors, domains or packed arguments can fail with. -/
inductive Fault where
  /-- The input of a transform has a length that is no power of two. -/
  | transformLength (length : Nat)
  /-- A twiddle table does not have half as many entries as the transform has points. -/
  | twiddleLength (entries size : Nat)
  /-- The operands of a pointwise product differ in length. -/
  | hadamardLengths (left right : Nat)
  /-- An evaluation domain was asked for with a size that is no power of two. -/
  | domainSize (size : Nat)
  /-- Domains above the largest power-of-two subgroup cannot be prepared. -/
  | warmUpRange
  /-- The target domain of a coset evaluation has a size that is no power of two. -/
  | cosewordOrder (order : Nat)
  /-- A polynomial is longer than the coset it is evaluated on. -/
  | cosewordLength (length order : Nat)
  /-- The domain of a coset interpolation has a size that is no power of two. -/
  | intercosateOrder (order : Nat)
  /-- A coset interpolation needs one value per point. -/
  | intercosateLength (order length : Nat)
  /-- No coset has offset zero. -/
  | zeroOffset
  /-- The order of a subgroup has to be a power of two. -/
  | noSubgroup (order : Nat)
  /-- A power of two above the largest one that divides the order of the group. -/
  | orderTooLarge (order : Nat)
  /-- The binary logarithm of an order above the two-adicity of the group. -/
  | log2TooLarge (log2 : Nat)
  /-- Zero has no inverse. -/
  | invertZero
  /-- A list with a zero cannot be inverted element by element. -/
  | invertBatchWithZero
  /-- Fewer positional arguments of one sort than the operation reads. -/
  | missingPositional (needed : Nat) (sort : String)
  /-- A named argument that the operation reads is absent. -/
  | missingNamed (name : String)
  deriving DecidableEq, Repr, Inhabited

namespace Fault

/-- The family of a cause. -/
def kind : Fault → FaultKind
  | transformLength _ | domainSize _ | cosewordOrder _ | intercosateOrder _ => .notPowerOfTwo
  | twiddleLength _ _ | hadamardLengths _ _ | cosewordLength _ _ | intercosateLength _ _ =>
    .lengthMismatch
  | warmUpRange | noSubgroup _ | orderTooLarge _ | log2TooLarge _ => .noSuchRoot
  | zeroOffset => .invalidArgument
  | invertZero | invertBatchWithZero => .divisionByZero
  | missingPositional _ _ | missingNamed _ => .malformedArguments

/-- The wording of a cause. -/
def message : Fault → String
  | transformLength n => s!"NTT size must be a power of 2, got {n}"
  | twiddleLength entries size =>
    s!"twiddle table has {entries} entries, transform of size {size} needs {size / 2}"
  | hadamardLengths a b => s!"hadamard operands differ in length: {a} vs {b}"
  | domainSize n => s!"domain size must be a power of 2, got {n}"
  | warmUpRange => "cannot precompute domains above 2^32"
  | cosewordOrder n => s!"coseword order must be a power of 2, got {n}"
  | cosewordLength n order =>
    s!"polynomial of length {n} does not fit a domain of size {order}"
  | intercosateOrder n => s!"intercosate order must be a power of 2, got {n}"
  | intercosateLength order n => s!"intercosate expects {order} values, got {n}"
  | zeroOffset => "intercosate offset must be non-zero"
  | noSubgroup n =>
    s!"no subgroup of order {n} (order must be a power of two dividing p - 1)"
  | orderTooLarge n => s!"order {n} does not divide p - 1"
  | log2TooLarge k => s!"log2_order must be <= 32, got {k}"
  | invertZero => "Cannot invert zero"
  | invertBatchWithZero => "batch_inversion encountered zero element"
  | missingPositional needed sort => s!"expected at least {needed} {sort}"
  | missingNamed name => s!"missing {name}"

end Fault
end ProofMiner
