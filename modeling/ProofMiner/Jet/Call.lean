/-
# Calls of accelerated operations

The packed arguments of a call, its result, and what each operation computes from its arguments.
An operation reads the fields it needs; the others may hold anything.
-/

import ProofMiner.Domain.Coset
import ProofMiner.Field.Cubic
import ProofMiner.Jet.Op
import ProofMiner.Transform.Product

namespace ProofMiner
namespace Jet

/-- The packed arguments of a call. -/
structure Args where
  order : Option UInt64 := none
  offset : Option Goldilocks := none
  root : Option Goldilocks := none
  exponent : Option UInt64 := none
  belts : List Goldilocks := []
  felts : List Cubic := []
  bpolys : List (Array Goldilocks) := []
  fpolys : List (Array Cubic) := []
  deriving DecidableEq, Repr, Inhabited

/-- A computed value: a scalar or a polynomial over one of the two fields. -/
inductive Value where
  | belt (value : Goldilocks)
  | felt (value : Cubic)
  | bpoly (value : Array Goldilocks)
  | fpoly (value : Array Cubic)
  deriving DecidableEq, Repr, Inhabited

namespace Args

/-- Item `i` of a positional list, where `i + 1` items are needed. -/
def item {α : Type} (items : List α) (i : Nat) (sort : String) : Except Fault α :=
  match items[i]? with
  | some x => .ok x
  | none => .error (.missingPositional (i + 1) sort)

/-- A scalar of the base field, by its place. -/
def belt (a : Args) (i : Nat) : Except Fault Goldilocks := item a.belts i "base field scalars"
/-- A scalar of the extension field, by its place. -/
def felt (a : Args) (i : Nat) : Except Fault Cubic := item a.felts i "extension field scalars"

/-- A polynomial over the base field, by its place. -/
def bpoly (a : Args) (i : Nat) : Except Fault (Array Goldilocks) :=
  item a.bpolys i "base field polynomials"

/-- A polynomial over the extension field, by its place. -/
def fpoly (a : Args) (i : Nat) : Except Fault (Array Cubic) :=
  item a.fpolys i "extension field polynomials"

/-- A named argument that has to be there. -/
def named {α : Type} (value : Option α) (name : String) : Except Fault α :=
  match value with
  | some x => .ok x
  | none => .error (.missingNamed name)

/-- The two operands of a binary operation; if they are missing the second one is reported. -/
def twoBelts (a : Args) : Except Fault (Goldilocks × Goldilocks) := do
  let y ← a.belt 1
  return (← a.belt 0, y)

/-- The first two scalars. Of two that are missing the second one is reported. -/
def twoFelts (a : Args) : Except Fault (Cubic × Cubic) := do
  let y ← a.felt 1
  return (← a.felt 0, y)

/-- The first two polynomials over the base field, the second one looked at first. -/
def twoBpolys (a : Args) : Except Fault (Array Goldilocks × Array Goldilocks) := do
  let q ← a.bpoly 1
  return (← a.bpoly 0, q)

/-- The first two polynomials over the extension field, the second one looked at first. -/
def twoFpolys (a : Args) : Except Fault (Array Cubic × Array Cubic) := do
  let q ← a.fpoly 1
  return (← a.fpoly 0, q)

/-- The arguments of a shift: a polynomial and an offset. -/
def shift (a : Args) : Except Fault (Array Goldilocks × Goldilocks) := do
  let offset ← named a.offset "offset"
  return (← a.bpoly 0, offset)

/-- The arguments of a coset operation: a polynomial, an offset and the order of the domain. -/
def coset (a : Args) : Except Fault (Array Goldilocks × Goldilocks × Nat) := do
  let order ← named a.order "order"
  let (p, offset) ← a.shift
  return (p, offset, order.toNat)

end Args

/-- What an operation computes from its arguments, with no help from a cache. -/
def evaluate (t : Tuning) (op : Op) (a : Args) : Except Fault Value :=
  match op with
  | .bAdd => do let (x, y) ← a.twoBelts; return .belt (x + y)
  | .bSub => do let (x, y) ← a.twoBelts; return .belt (x - y)
  | .bNeg => do return .belt (-(← a.belt 0))
  | .bMul => do let (x, y) ← a.twoBelts; return .belt (x * y)
  | .bInv => do return .belt (← (← a.belt 0).inverse)
  | .bPow => do
    let x ← a.belt 0
    let e ← Args.named a.exponent "exponent"
    return .belt (x ^ e.toNat)
  | .orderedRoot => do
    let order ← Args.named a.order "order"
    return .belt (← Goldilocks.orderedRoot order.toNat)
  | .bpAdd => do let (p, q) ← a.twoBpolys; return .bpoly (Polynomial.add p q)
  | .bpSub => do let (p, q) ← a.twoBpolys; return .bpoly (Polynomial.sub p q)
  | .bpNeg => do return .bpoly (Polynomial.neg (← a.bpoly 0))
  | .bpScal => do
    let s ← a.belt 0
    return .bpoly (Polynomial.scale (← a.bpoly 0) s)
  | .bpEval => do
    let p ← a.bpoly 0
    return .belt (Polynomial.eval p (← a.belt 0))
  | .bpMul => do let (p, q) ← a.twoBpolys; return .bpoly (← multiply t p q)
  | .bpHadamard => do let (p, q) ← a.twoBpolys; return .bpoly (← hadamard t p q)
  | .bpNtt => do
    let p ← a.bpoly 0
    let root ← match a.root with
      | some root => pure root
      | none => Goldilocks.orderedRoot p.size
    return .bpoly (← transform t p root)
  | .bpFft => do return .bpoly (← forward t (← a.bpoly 0))
  | .bpIfft => do return .bpoly (← inverse t (← a.bpoly 0))
  | .fAdd => do let (x, y) ← a.twoFelts; return .felt (x + y)
  | .fSub => do let (x, y) ← a.twoFelts; return .felt (x - y)
  | .fNeg => do return .felt (-(← a.felt 0))
  | .fMul => do let (x, y) ← a.twoFelts; return .felt (x * y)
  | .fInv => do return .felt (← (← a.felt 0).inverse)
  | .fDiv => do let (x, y) ← a.twoFelts; return .felt (← x.div y)
  | .fPow => do
    let x ← a.felt 0
    let e ← Args.named a.exponent "exponent"
    return .felt (x ^ e.toNat)
  | .fpAdd => do let (p, q) ← a.twoFpolys; return .fpoly (Polynomial.add p q)
  | .fpSub => do let (p, q) ← a.twoFpolys; return .fpoly (Polynomial.sub p q)
  | .fpNeg => do return .fpoly (Polynomial.neg (← a.fpoly 0))
  | .fpScal => do
    let s ← a.felt 0
    return .fpoly (Polynomial.scale (← a.fpoly 0) s)
  | .fpMul => do let (p, q) ← a.twoFpolys; return .fpoly (Polynomial.mul p q)
  | .fpEval => do
    let p ← a.fpoly 0
    return .felt (Polynomial.eval p (← a.felt 0))
  | .bpShift => do
    let (p, offset) ← a.shift
    return .bpoly (← (shift .lookupOnly p offset {}).1)
  | .bpCoseword => do
    let (p, offset, order) ← a.coset
    return .bpoly (← (coseword t .lookupOnly p offset order {}).1)
  | .bpIntercosate => do
    let (p, offset, order) ← a.coset
    return .bpoly (← (intercosate t .lookupOnly p offset order {}).1)

/-- Runs an operation on a cache, which only the coset operations make use of. -/
def run (t : Tuning) (mode : CacheMode) (op : Op) (a : Args) (c : Cache) :
    Except Fault Value × Cache :=
  match op with
  | .bpShift =>
    match a.shift with
    | .error e => (.error e, c)
    | .ok (p, offset) =>
      let (out, c) := shift mode p offset c
      (out.map .bpoly, c)
  | .bpCoseword =>
    match a.coset with
    | .error e => (.error e, c)
    | .ok (p, offset, order) =>
      let (out, c) := coseword t mode p offset order c
      (out.map .bpoly, c)
  | .bpIntercosate =>
    match a.coset with
    | .error e => (.error e, c)
    | .ok (p, offset, order) =>
      let (out, c) := intercosate t mode p offset order c
      (out.map .bpoly, c)
  | op => (evaluate t op a, c)

end Jet
end ProofMiner
