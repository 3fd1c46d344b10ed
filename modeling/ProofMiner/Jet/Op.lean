/-
# Accelerated operations

The closed table of operations that a proving program can call, by index and by name.

* names with `b`: base field scalars; with `bp`: base field polynomials;
* names with `f`: extension field scalars; with `fp`: extension field polynomials.
-/

namespace ProofMiner
namespace Jet

/-- The operations, in the order of their indices. -/
inductive Op where
  | bAdd
  | bSub
  | bNeg
  | bMul
  | bInv
  | bPow
  | orderedRoot
  | bpAdd
  | bpSub
  | bpNeg
  | bpScal
  | bpEval
  | bpMul
  | bpHadamard
  | bpNtt
  | bpFft
  | bpIfft
  | bpShift
  | bpCoseword
  | bpIntercosate
  | fAdd
  | fSub
  | fNeg
  | fMul
  | fInv
  | fDiv
  | fPow
  | fpAdd
  | fpSub
  | fpNeg
  | fpScal
  | fpMul
  | fpEval
  deriving DecidableEq, Repr, Inhabited

namespace Op

/-- The operations with their names, in the order of their indices. -/
def table : List (Op × String) := [
  (bAdd, "badd"), (bSub, "bsub"), (bNeg, "bneg"), (bMul, "bmul"), (bInv, "binv"),
  (bPow, "bpow"), (orderedRoot, "ordered-root"),
  (bpAdd, "bpadd"), (bpSub, "bpsub"), (bpNeg, "bpneg"), (bpScal, "bpscal"),
  (bpEval, "bpeval"), (bpMul, "bpmul"), (bpHadamard, "bp-hadamard"), (bpNtt, "bp-ntt"),
  (bpFft, "bp-fft"), (bpIfft, "bp-ifft"), (bpShift, "bp-shift"),
  (bpCoseword, "bp-coseword"), (bpIntercosate, "bp-intercosate"),
  (fAdd, "fadd"), (fSub, "fsub"), (fNeg, "fneg"), (fMul, "fmul"), (fInv, "finv"),
  (fDiv, "fdiv"), (fPow, "fpow"),
  (fpAdd, "fp-add"), (fpSub, "fp-sub"), (fpNeg, "fp-neg"), (fpScal, "fp-scal"),
  (fpMul, "fp-mul"), (fpEval, "fp-eval")]

/-- The operations in the order of their indices. -/
def all : List Op := table.map (·.1)

/-- The place of an operation in the table. -/
def index (op : Op) : Nat := op.ctorIdx

/-- The name that requests use. -/
def name (op : Op) : String := (table.lookup op).getD ""

/-- The operation at a place, if there is one. -/
def ofIndex? (i : Nat) : Option Op := all[i]?

/-- The operation of a name, if there is one. -/
def ofName? (name : String) : Option Op :=
  (table.find? fun entry => entry.2 == name).map (·.1)

/-- The table is in the order of the constructors. -/
theorem ofIndex?_index (op : Op) : ofIndex? op.index = some op := by
  cases op <;> rfl

end Op
end Jet
end ProofMiner
