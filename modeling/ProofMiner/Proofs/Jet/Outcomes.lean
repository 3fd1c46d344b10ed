/-
# The outcome of an operation is decided by its arguments

An operation reads its operands one after the other (`Op.reads`); if one is missing the call is
malformed, whatever else is wrong with it. With all operands there, it declines these arguments with
one status (`Declined`), or it gives a value of its sort (`Op.sort`).

`Outcome` says which of the three it is. Reading an operand carries it from the rest of an operation
to the whole (`Outcome.read`), so each operation comes down to its operands and to the computation on
them. Most operations have one check there at most (`Outcome.checked`); the coset operations have
several, and their order shows. Among the computations the inverses in the extension rest on the norm,
which vanishes at zero only.
-/

import ProofMiner.Jet.Registry
import ProofMiner.Proofs.Domain.Interpolation
import ProofMiner.Proofs.Field.Extension

namespace ProofMiner

open Goldilocks

namespace Jet

/-! ### Operands, sorts and reasons -/

/-- A field of the packed arguments. -/
inductive Operand where
  | belt (i : ℕ)
  | felt (i : ℕ)
  | bpoly (i : ℕ)
  | fpoly (i : ℕ)
  | order
  | offset
  | exponent

/-- The field is there. -/
def Operand.Present (a : Args) : Operand → Prop
  | belt i => i < a.belts.length
  | felt i => i < a.felts.length
  | bpoly i => i < a.bpolys.length
  | fpoly i => i < a.fpolys.length
  | order => a.order.isSome
  | offset => a.offset.isSome
  | exponent => a.exponent.isSome

/-- The fields that an operation needs, in the order in which it reads them. The root of a transform
is not one of them: without it the transform takes the root of the length. -/
def Op.reads : Op → List Operand
  | .bAdd | .bSub | .bMul => [.belt 1, .belt 0]
  | .bNeg | .bInv => [.belt 0]
  | .bPow => [.belt 0, .exponent]
  | .orderedRoot => [.order]
  | .bpAdd | .bpSub | .bpMul | .bpHadamard => [.bpoly 1, .bpoly 0]
  | .bpNeg | .bpNtt | .bpFft | .bpIfft => [.bpoly 0]
  | .bpScal => [.belt 0, .bpoly 0]
  | .bpEval => [.bpoly 0, .belt 0]
  | .bpShift => [.offset, .bpoly 0]
  | .bpCoseword | .bpIntercosate => [.order, .offset, .bpoly 0]
  | .fAdd | .fSub | .fMul | .fDiv => [.felt 1, .felt 0]
  | .fNeg | .fInv => [.felt 0]
  | .fPow => [.felt 0, .exponent]
  | .fpAdd | .fpSub | .fpMul => [.fpoly 1, .fpoly 0]
  | .fpNeg => [.fpoly 0]
  | .fpScal => [.felt 0, .fpoly 0]
  | .fpEval => [.fpoly 0, .felt 0]

/-- The sorts of values. -/
inductive ValueSort where
  | belt
  | felt
  | bpoly
  | fpoly
  deriving DecidableEq

/-- The sort that a value is of. -/
def Value.sort : Value → ValueSort
  | belt _ => .belt
  | felt _ => .felt
  | bpoly _ => .bpoly
  | fpoly _ => .fpoly

/-- The sort of the values of an operation. -/
def Op.sort : Op → ValueSort
  | .bAdd | .bSub | .bNeg | .bMul | .bInv | .bPow | .orderedRoot | .bpEval => .belt
  | .bpAdd | .bpSub | .bpNeg | .bpScal | .bpMul | .bpHadamard | .bpNtt | .bpFft | .bpIfft
  | .bpShift | .bpCoseword | .bpIntercosate => .bpoly
  | .fAdd | .fSub | .fNeg | .fMul | .fInv | .fDiv | .fPow | .fpEval => .felt
  | .fpAdd | .fpSub | .fpNeg | .fpScal | .fpMul => .fpoly

/-- The operation declines the arguments, which are all there, with this status. The transform without
a root declines as the root of the length does, which it looks for first. -/
def Declined (a : Args) (op : Op) (s : Status) : Prop :=
  match op with
  | .bInv => a.belts[0]? = some 0 ∧ s = .divisionByZero
  | .fInv => a.felts[0]? = some 0 ∧ s = .divisionByZero
  | .fDiv => a.felts[1]? = some 0 ∧ s = .divisionByZero
  | .orderedRoot => (∃ n, a.order = some n ∧ ¬ n.toNat.isPowerOfTwo) ∧ s = .noSuchRoot
  | .bpHadamard =>
    (∃ p q, a.bpolys[0]? = some p ∧ a.bpolys[1]? = some q ∧ p.size ≠ q.size) ∧ s = .lengthMismatch
  | .bpFft | .bpIfft => (∃ p, a.bpolys[0]? = some p ∧ ¬ p.size.isPowerOfTwo) ∧ s = .notPowerOfTwo
  | .bpNtt => (∃ p, a.bpolys[0]? = some p ∧ ¬ p.size.isPowerOfTwo) ∧
    s = if a.root.isSome then .notPowerOfTwo else .noSuchRoot
  | .bpCoseword => ∃ n p, a.order = some n ∧ a.bpolys[0]? = some p ∧
    ((¬ n.toNat.isPowerOfTwo ∧ s = .notPowerOfTwo) ∨
      (n.toNat.isPowerOfTwo ∧ n.toNat < p.size ∧ s = .lengthMismatch))
  | .bpIntercosate => ∃ n p x, a.order = some n ∧ a.bpolys[0]? = some p ∧ a.offset = some x ∧
    ((¬ n.toNat.isPowerOfTwo ∧ s = .notPowerOfTwo) ∨
      (n.toNat.isPowerOfTwo ∧ p.size ≠ n.toNat ∧ s = .lengthMismatch) ∨
      (n.toNat.isPowerOfTwo ∧ p.size = n.toNat ∧ x = 0 ∧ s = .invalidArgument))
  | _ => False

namespace Declined

variable {a : Args} {op : Op} {s s' : Status}

/-- Arguments are declined with these statuses only. -/
theorem status_mem (h : Declined a op s) :
    s ∈ [.divisionByZero, .noSuchRoot, .lengthMismatch, .notPowerOfTwo, .invalidArgument] := by
  cases op with
  | bInv | fInv | fDiv | orderedRoot | bpHadamard | bpFft | bpIfft =>
    rw [h.2]
    decide
  | bpNtt =>
    rw [h.2]
    split <;> decide
  | bpCoseword =>
    obtain ⟨n, p, -, -, ⟨-, rfl⟩ | ⟨-, -, rfl⟩⟩ := h <;> decide
  | bpIntercosate =>
    obtain ⟨n, p, x, -, -, -, ⟨-, rfl⟩ | ⟨-, -, rfl⟩ | ⟨-, -, -, rfl⟩⟩ := h <;> decide
  | _ => exact h.elim

theorem ne_malformedArguments (h : Declined a op s) : s ≠ .malformedArguments := by
  rintro rfl
  simpa using h.status_mem

theorem ne_internalError (h : Declined a op s) : s ≠ .internalError := by
  rintro rfl
  simpa using h.status_mem

section Read

attribute [local simp] Declined

variable {n : UInt64} {offset : Goldilocks} {p q : Array Goldilocks}

/-- Only zero has no inverse. What follows is when the other operations decline their arguments. -/
theorem bInv_iff {x : Goldilocks} (hx : a.belts[0]? = some x) :
    Declined a .bInv s ↔ x = 0 ∧ s = .divisionByZero := by
  simp [hx]

theorem fInv_iff {x : Cubic} (hx : a.felts[0]? = some x) :
    Declined a .fInv s ↔ x = 0 ∧ s = .divisionByZero := by
  simp [hx]

/-- Nothing is divided by zero. -/
theorem fDiv_iff {y : Cubic} (hy : a.felts[1]? = some y) :
    Declined a .fDiv s ↔ y = 0 ∧ s = .divisionByZero := by
  simp [hy]

/-- There are roots for powers of two only. -/
theorem orderedRoot_iff (hn : a.order = some n) :
    Declined a .orderedRoot s ↔ ¬ n.toNat.isPowerOfTwo ∧ s = .noSuchRoot := by
  simp [hn]

/-- Vectors are multiplied entry by entry if there are as many of them. -/
theorem bpHadamard_iff (hp : a.bpolys[0]? = some p) (hq : a.bpolys[1]? = some q) :
    Declined a .bpHadamard s ↔ p.size ≠ q.size ∧ s = .lengthMismatch := by
  simp [hp, hq]

/-- A transform takes lengths that are powers of two. -/
theorem bpFft_iff (hp : a.bpolys[0]? = some p) :
    Declined a .bpFft s ↔ ¬ p.size.isPowerOfTwo ∧ s = .notPowerOfTwo := by
  simp [hp]

theorem bpIfft_iff (hp : a.bpolys[0]? = some p) :
    Declined a .bpIfft s ↔ ¬ p.size.isPowerOfTwo ∧ s = .notPowerOfTwo := bpFft_iff hp

/-- With a root of its own it is the length that is refused, without one the root. -/
theorem bpNtt_iff (hp : a.bpolys[0]? = some p) : Declined a .bpNtt s ↔
    ¬ p.size.isPowerOfTwo ∧ s = if a.root.isSome then .notPowerOfTwo else .noSuchRoot := by
  simp [hp]

/-- The order is looked at before the length. -/
theorem bpCoseword_iff (hn : a.order = some n) (hp : a.bpolys[0]? = some p) :
    Declined a .bpCoseword s ↔ (¬ n.toNat.isPowerOfTwo ∧ s = .notPowerOfTwo) ∨
      (n.toNat.isPowerOfTwo ∧ n.toNat < p.size ∧ s = .lengthMismatch) := by
  simp [hn, hp]

/-- The order is looked at before the length, and that before the offset. -/
theorem bpIntercosate_iff (hn : a.order = some n) (hp : a.bpolys[0]? = some p)
    (hoffset : a.offset = some offset) :
    Declined a .bpIntercosate s ↔ (¬ n.toNat.isPowerOfTwo ∧ s = .notPowerOfTwo) ∨
      (n.toNat.isPowerOfTwo ∧ p.size ≠ n.toNat ∧ s = .lengthMismatch) ∨
      (n.toNat.isPowerOfTwo ∧ p.size = n.toNat ∧ offset = 0 ∧ s = .invalidArgument) := by
  simp [hn, hp, hoffset]

end Read

/-- **An operation declines with one status at most.** -/
theorem unique (h : Declined a op s) (h' : Declined a op s') : s = s' := by
  cases op with
  | bInv | fInv | fDiv | orderedRoot | bpHadamard | bpFft | bpIfft | bpNtt =>
    exact h.2.trans h'.2.symm
  | bpCoseword =>
    obtain ⟨n, p, hn, hp, h⟩ := h
    rw [bpCoseword_iff hn hp] at h'
    obtain ⟨horder, rfl⟩ | ⟨horder, -, rfl⟩ := h <;>
    obtain ⟨horder', rfl⟩ | ⟨horder', -, rfl⟩ := h' <;>
    first | rfl | contradiction
  | bpIntercosate =>
    obtain ⟨n, p, x, hn, hp, hx, h⟩ := h
    rw [bpIntercosate_iff hn hp hx] at h'
    obtain ⟨horder, rfl⟩ | ⟨horder, hsize, rfl⟩ | ⟨horder, hsize, -, rfl⟩ := h <;>
    obtain ⟨horder', rfl⟩ | ⟨horder', hsize', rfl⟩ | ⟨horder', hsize', -, rfl⟩ := h' <;>
    first | rfl | contradiction
  | _ => exact h.elim

end Declined

/-! ### What can come out of an operation -/

/-- What an operation comes to that has still to read the given operands: a value of its sort, a
malformed call, or one that is declined. -/
inductive Outcome (a : Args) (op : Op) (operands : List Operand) : Except Fault Value → Prop where
  | value {v : Value} (hpresent : ∀ x ∈ operands, x.Present a) (hsort : v.sort = op.sort)
    (h : ∀ s, ¬ Declined a op s) : Outcome a op operands (.ok v)
  | missing {x : Operand} {e : Fault} (hx : x ∈ operands) (h : ¬ x.Present a)
    (hkind : e.kind = .malformedArguments) : Outcome a op operands (.error e)
  | declined {e : Fault} (hpresent : ∀ x ∈ operands, x.Present a)
    (h : Declined a op (.ofKind e.kind)) : Outcome a op operands (.error e)

/-- An operand is read: it has the given properties if it is there. -/
inductive Reading {α : Type} (a : Args) (x : Operand) (P : α → Prop) : Except Fault α → Prop where
  | found {y : α} (h : x.Present a) (hy : P y) : Reading a x P (.ok y)
  | missing {e : Fault} (h : ¬ x.Present a) (hkind : e.kind = .malformedArguments) :
    Reading a x P (.error e)

namespace Outcome

variable {a : Args} {op : Op} {operands : List Operand} {out : Except Fault Value}

/-- **Reading an operand** before the rest. -/
theorem read {α : Type} {x : Operand} {P : α → Prop} {r : Except Fault α}
    {k : α → Except Fault Value} (hr : Reading a x P r)
    (hk : ∀ y, P y → Outcome a op operands (k y)) : Outcome a op (x :: operands) (r >>= k) := by
  cases hr with
  | missing hx hkind => exact .missing (List.mem_cons_self ..) hx hkind
  | @found y hx hy =>
    have hrest := hk y hy
    change Outcome a op (x :: operands) (k y)
    generalize k y = out at hrest ⊢
    cases hrest with
    | value hpresent hsort h => exact .value (List.forall_mem_cons.2 ⟨hx, hpresent⟩) hsort h
    | missing hmem h hkind => exact .missing (List.mem_cons_of_mem _ hmem) h hkind
    | declined hpresent h => exact .declined (List.forall_mem_cons.2 ⟨hx, hpresent⟩) h

/-- The operands are read and the value is there. -/
theorem done {v : Value} (hsort : v.sort = op.sort) (h : ∀ s, ¬ Declined a op s) :
    Outcome a op [] (.ok v) := .value (List.forall_mem_nil _) hsort h

/-- The operands are read and there is a reason to decline. -/
theorem refused {e : Fault} (h : Declined a op (.ofKind e.kind)) : Outcome a op [] (.error e) :=
  .declined (List.forall_mem_nil _) h

/-- **One check** after the operands are read, which fails with the one status that the operation can
be declined with. -/
theorem checked {α : Type} {bad : Prop} {s : Status} {r : Except Fault α} {f : α → Value}
    (hreason : ∀ s', Declined a op s' ↔ bad ∧ s' = s)
    (hbad : bad → ∃ e, r = .error e ∧ Status.ofKind e.kind = s) (hgood : ¬ bad → ∃ y, r = .ok y)
    (hsort : ∀ y, (f y).sort = op.sort) : Outcome a op [] (r >>= fun y => pure (f y)) := by
  by_cases h : bad
  · obtain ⟨e, rfl, hs⟩ := hbad h
    exact refused ((hreason _).2 ⟨h, hs⟩)
  · obtain ⟨y, rfl⟩ := hgood h
    exact done (hsort y) fun s' hs' => h ((hreason s').1 hs').1

/-- A call is malformed if and only if one of its operands is missing. -/
theorem malformed_iff (h : Outcome a op operands out) :
    (Result.ofExcept out).status = .malformedArguments ↔ ∃ x ∈ operands, ¬ x.Present a := by
  cases h with
  | value hpresent => exact iff_of_false nofun fun ⟨x, hx, hno⟩ => hno (hpresent x hx)
  | missing hx h hkind => exact iff_of_true (congrArg Status.ofKind hkind) ⟨_, hx, h⟩
  | declined hpresent h =>
    exact iff_of_false h.ne_malformedArguments fun ⟨x, hx, hno⟩ => hno (hpresent x hx)

/-- With all operands it is declined as the arguments are. -/
theorem declined_iff (h : Outcome a op operands out) (hpresent : ∀ x ∈ operands, x.Present a)
    {s : Status} (hs : s ≠ .ok) : (Result.ofExcept out).status = s ↔ Declined a op s := by
  cases h with
  | value _ _ h => exact iff_of_false hs.symm (h s)
  | missing hx h => exact absurd (hpresent _ hx) h
  | declined _ h => exact ⟨fun heq => heq ▸ h, h.unique⟩

/-- No outcome is an internal error. -/
theorem status_ne_internalError (h : Outcome a op operands out) :
    (Result.ofExcept out).status ≠ .internalError := by
  cases h with
  | value => exact nofun
  | missing hx h hkind =>
    rw [show (Result.ofExcept (.error _)).status = .malformedArguments from
      congrArg Status.ofKind hkind]
    decide
  | declined _ h => exact h.ne_internalError

/-- With all operands, and nothing to decline, there is a value of the right sort. -/
theorem value_of_not_declined (h : Outcome a op operands out)
    (hpresent : ∀ x ∈ operands, x.Present a) (hno : ∀ s, ¬ Declined a op s) :
    ∃ v, Result.ofExcept out = .ok v ∧ v.sort = op.sort := by
  cases h with
  | value _ hsort => exact ⟨_, rfl, hsort⟩
  | missing hx h => exact absurd (hpresent _ hx) h
  | declined _ h => exact absurd h (hno _)

end Outcome

/-! ### Reading operands -/

section Reading

variable (a : Args)

/-- An item is there if the list is long enough. -/
theorem reading_item {α : Type} {x : Operand} {items : List α} {i : ℕ}
    (hx : x.Present a ↔ i < items.length) (sort : String) :
    Reading a x (fun y => items[i]? = some y) (Args.item items i sort) := by
  unfold Args.item
  cases h : items[i]? with
  | none => exact .missing (by rw [hx, not_lt]; exact List.getElem?_eq_none_iff.1 h) rfl
  | some y => exact .found (hx.2 (List.getElem?_eq_some_iff.1 h).1) rfl

/-- An argument with a name is there or not. -/
theorem reading_named {α : Type} {x : Operand} {value : Option α}
    (hx : x.Present a ↔ value.isSome) (name : String) :
    Reading a x (fun y => value = some y) (Args.named value name) := by
  cases value with
  | none => exact .missing (by rw [hx]; exact Bool.false_ne_true) rfl
  | some y => exact .found (hx.2 rfl) rfl

theorem reading_belt (i : ℕ) : Reading a (.belt i) (fun x => a.belts[i]? = some x) (a.belt i) :=
  reading_item a Iff.rfl _

theorem reading_felt (i : ℕ) : Reading a (.felt i) (fun x => a.felts[i]? = some x) (a.felt i) :=
  reading_item a Iff.rfl _

theorem reading_bpoly (i : ℕ) :
    Reading a (.bpoly i) (fun p => a.bpolys[i]? = some p) (a.bpoly i) := reading_item a Iff.rfl _

theorem reading_fpoly (i : ℕ) :
    Reading a (.fpoly i) (fun p => a.fpolys[i]? = some p) (a.fpoly i) := reading_item a Iff.rfl _

theorem reading_order :
    Reading a .order (fun n => a.order = some n) (Args.named a.order "order") :=
  reading_named a Iff.rfl _

theorem reading_offset :
    Reading a .offset (fun x => a.offset = some x) (Args.named a.offset "offset") :=
  reading_named a Iff.rfl _

theorem reading_exponent :
    Reading a .exponent (fun e => a.exponent = some e) (Args.named a.exponent "exponent") :=
  reading_named a Iff.rfl _

end Reading

/-! ### The operations -/

/-- The orders and lengths of a call are at most `2 ^ 32`: its order, the lengths of its base field
polynomials and, if they are multiplied, the length of the product, for which there is no root beyond. -/
structure InRange (op : Op) (a : Args) : Prop where
  order_le : ∀ n, a.order = some n → n.toNat ≤ 2 ^ 32
  size_le : ∀ p ∈ a.bpolys, p.size ≤ 2 ^ 32
  product_le : op = .bpMul → ∀ p q, a.bpolys[0]? = some p → a.bpolys[1]? = some q →
    p.size + q.size - 1 ≤ 2 ^ 32

namespace InRange

variable {op : Op} {a : Args} (h : InRange op a)
include h

/-- An order that is a power of two has a root. -/
theorem exists_order_eq {n : UInt64} (hn : a.order = some n) (hpow : n.toNat.isPowerOfTwo) :
    ∃ k ≤ 32, n.toNat = 2 ^ k := exists_exponent_le hpow (h.order_le n hn)

/-- A length that is a power of two has a root. -/
theorem exists_size_eq {p : Array Goldilocks} (hp : a.bpolys[0]? = some p)
    (hpow : p.size.isPowerOfTwo) : ∃ k ≤ 32, p.size = 2 ^ k :=
  exists_exponent_le hpow (h.size_le p (List.mem_of_getElem? hp))

end InRange

/-! ### The outcome of each operation -/

section Evaluate

variable {a : Args}

/-- The operations, each with its operands read. Those that fail do so as declined. -/
theorem outcome_bInv {x : Goldilocks} (hx : a.belts[0]? = some x) :
    Outcome a .bInv [] (x.inverse >>= fun y => pure (.belt y)) :=
  .checked (fun _ => Declined.bInv_iff hx) (fun h => ⟨_, if_pos h, rfl⟩)
    (fun h => ⟨_, Goldilocks.inverse_of_ne_zero h⟩) fun _ => rfl

/-- An extension element other than zero has an inverse. -/
theorem outcome_fInv {x : Cubic} (hx : a.felts[0]? = some x) :
    Outcome a .fInv [] (x.inverse >>= fun y => pure (.felt y)) :=
  .checked (fun _ => Declined.fInv_iff hx) (fun h => ⟨_, h ▸ Cubic.inverse_zero, rfl⟩)
    (fun h => ⟨_, Cubic.inverse_of_ne_zero h⟩) fun _ => rfl

theorem outcome_fDiv {x y : Cubic} (hy : a.felts[1]? = some y) :
    Outcome a .fDiv [] (x.div y >>= fun z => pure (.felt z)) :=
  .checked (fun _ => Declined.fDiv_iff hy) (fun h => ⟨_, h ▸ x.div_zero, rfl⟩)
    (fun h => ⟨_, x.div_of_ne_zero h⟩) fun _ => rfl

/-- In range, every power of two has a root. -/
theorem outcome_orderedRoot (h : InRange .orderedRoot a) {n : UInt64} (hn : a.order = some n) :
    Outcome a .orderedRoot [] (Goldilocks.orderedRoot n.toNat >>= fun y => pure (.belt y)) := by
  refine .checked (fun _ => Declined.orderedRoot_iff hn)
    (fun hbad => ⟨_, orderedRoot_of_not_isPowerOfTwo hbad, rfl⟩) (fun hgood => ?_) fun _ => rfl
  obtain ⟨k, hle, hk⟩ := h.exists_order_eq hn (not_not.1 hgood)
  exact ⟨_, hk ▸ orderedRoot_two_pow hle⟩

theorem outcome_bpHadamard (t : Tuning) {p q : Array Goldilocks} (hp : a.bpolys[0]? = some p)
    (hq : a.bpolys[1]? = some q) :
    Outcome a .bpHadamard [] (hadamard t p q >>= fun r => pure (.bpoly r)) :=
  .checked (fun _ => Declined.bpHadamard_iff hp hq) (fun h => ⟨_, if_pos h, rfl⟩)
    (fun h => ⟨_, hadamard_eq t (not_not.1 h)⟩) fun _ => rfl

/-- In range, a product has a transform that is long enough. -/
theorem outcome_bpMul (t : Tuning) (h : InRange .bpMul a) {p q : Array Goldilocks}
    (hp : a.bpolys[0]? = some p) (hq : a.bpolys[1]? = some q) :
    Outcome a .bpMul [] (multiply t p q >>= fun r => pure (.bpoly r)) := by
  rw [multiply_eq t (nextPowerOfTwo_le (h.product_le rfl p q hp hq))]
  exact .done rfl nofun

section Transforms

variable (t : Tuning) {p : Array Goldilocks} (hp : a.bpolys[0]? = some p)
include hp

theorem outcome_bpFft (h : InRange .bpFft a) :
    Outcome a .bpFft [] (forward t p >>= fun r => pure (.bpoly r)) := by
  refine .checked (fun _ => Declined.bpFft_iff hp)
    (fun hbad => ⟨_, forward_of_not_isPowerOfTwo t hbad, rfl⟩) (fun hgood => ?_) fun _ => rfl
  obtain ⟨k, hle, hk⟩ := h.exists_size_eq hp (not_not.1 hgood)
  exact ⟨_, forward_eq t hle hk⟩

theorem outcome_bpIfft (h : InRange .bpIfft a) :
    Outcome a .bpIfft [] (inverse t p >>= fun r => pure (.bpoly r)) := by
  refine .checked (fun _ => Declined.bpIfft_iff hp)
    (fun hbad => ⟨_, inverse_of_not_isPowerOfTwo t hbad, rfl⟩) (fun hgood => ?_) fun _ => rfl
  obtain ⟨k, hle, hk⟩ := h.exists_size_eq hp (not_not.1 hgood)
  exact ⟨_, inverse_eq t hle hk⟩

/-- The transform at a given root works for any root, the one without needs a root of the length. -/
theorem outcome_bpNtt (h : InRange .bpNtt a) : Outcome a .bpNtt [] (do
    let root ← match a.root with
      | some root => pure root
      | none => Goldilocks.orderedRoot p.size
    return .bpoly (← transform t p root)) := by
  have hreason := fun s => Declined.bpNtt_iff (s := s) hp
  cases hroot : a.root with
  | some root =>
    rw [hroot] at hreason
    refine .checked hreason
      (fun hbad => ⟨_, transform_of_not_isPowerOfTwo t hbad root, rfl⟩) (fun hgood => ?_) fun _ => rfl
    obtain ⟨k, hle, hk⟩ := h.exists_size_eq hp (not_not.1 hgood)
    exact exists_transform_eq t (by omega) hk root
  | none =>
    rw [hroot] at hreason
    simp only [← bind_assoc]
    refine .checked hreason (fun hbad => ?_) (fun hgood => ?_) fun _ => rfl
    · rw [orderedRoot_of_not_isPowerOfTwo hbad]
      exact ⟨_, rfl, rfl⟩
    · obtain ⟨k, hle, hk⟩ := h.exists_size_eq hp (not_not.1 hgood)
      rw [hk, orderedRoot_two_pow hle]
      exact exists_transform_eq t (by omega) hk (towerRoot k)

theorem outcome_bpShift (h : InRange .bpShift a) (offset : Goldilocks) :
    Outcome a .bpShift [] ((shift .lookupOnly p offset {}).1 >>= fun r => pure (.bpoly r)) := by
  rw [shift_eq Cache.sound_empty .lookupOnly offset fun _ => h.size_le p (List.mem_of_getElem? hp)]
  exact .done rfl nofun

theorem outcome_bpCoseword (h : InRange .bpCoseword a) {n : UInt64} (hn : a.order = some n)
    (offset : Goldilocks) : Outcome a .bpCoseword []
      ((coseword t .lookupOnly p offset n.toNat {}).1 >>= fun r => pure (.bpoly r)) := by
  have hdeclined (s : Status) := Declined.bpCoseword_iff (s := s) hn hp
  rw [coseword_eq Cache.sound_empty t .lookupOnly p offset n.toNat_lt]
  by_cases hpow : n.toNat.isPowerOfTwo
  · by_cases hlong : n.toNat < p.size
    · rw [cosetValues_of_size_gt hpow hlong]
      exact .refused ((hdeclined _).2 (.inr ⟨hpow, hlong, rfl⟩))
    · obtain ⟨k, hle, hk⟩ := h.exists_order_eq hn hpow
      have hno (s : Status) : ¬ Declined a .bpCoseword s := by
        rw [hdeclined]
        tauto
      rw [hk, cosetValues_two_pow hle (hk ▸ not_lt.1 hlong)]
      exact .done rfl hno
  · rw [cosetValues_of_not_isPowerOfTwo hpow]
    exact .refused ((hdeclined _).2 (.inl ⟨hpow, rfl⟩))

theorem outcome_bpIntercosate (h : InRange .bpIntercosate a) {n : UInt64} (hn : a.order = some n)
    {offset : Goldilocks} (hoffset : a.offset = some offset) : Outcome a .bpIntercosate []
      ((intercosate t .lookupOnly p offset n.toNat {}).1 >>= fun r => pure (.bpoly r)) := by
  have hdeclined (s : Status) := Declined.bpIntercosate_iff (s := s) hn hp hoffset
  rw [intercosate_eq Cache.sound_empty t .lookupOnly p offset n.toNat_lt]
  by_cases hpow : n.toNat.isPowerOfTwo
  · by_cases hsize : p.size = n.toNat
    · by_cases h0 : offset = 0
      · rw [h0, cosetCoefficients_zero hpow hsize]
        exact .refused ((hdeclined _).2 (.inr (.inr ⟨hpow, hsize, h0, rfl⟩)))
      · obtain ⟨k, hle, hk⟩ := h.exists_order_eq hn hpow
        have hno (s : Status) : ¬ Declined a .bpIntercosate s := by
          rw [hdeclined]
          tauto
        rw [hk, cosetCoefficients_two_pow hle (hsize.trans hk) h0]
        exact .done rfl hno
    · rw [cosetCoefficients_of_size_ne hpow hsize]
      exact .refused ((hdeclined _).2 (.inr (.inl ⟨hpow, hsize, rfl⟩)))
  · rw [cosetCoefficients_of_not_isPowerOfTwo hpow]
    exact .refused ((hdeclined _).2 (.inl ⟨hpow, rfl⟩))

end Transforms

/-- **What an operation computes from its arguments** has the outcome that the arguments decide. -/
theorem outcome_evaluate (t : Tuning) {op : Op} (h : InRange op a) :
    Outcome a op op.reads (evaluate t op a) := by
  cases op with
  | bAdd | bSub | bMul =>
    simp only [evaluate, Args.twoBelts, bind_assoc, pure_bind]
    exact .read (reading_belt a 1) fun y hy => .read (reading_belt a 0) fun x hx => .done rfl nofun
  | bNeg => exact .read (reading_belt a 0) fun x hx => .done rfl nofun
  | bInv => exact .read (reading_belt a 0) fun x hx => outcome_bInv hx
  | bPow =>
    exact .read (reading_belt a 0) fun x hx => .read (reading_exponent a) fun e he =>
      .done rfl nofun
  | orderedRoot => exact .read (reading_order a) fun n hn => outcome_orderedRoot h hn
  | bpAdd | bpSub =>
    simp only [evaluate, Args.twoBpolys, bind_assoc, pure_bind]
    exact .read (reading_bpoly a 1) fun q hq => .read (reading_bpoly a 0) fun p hp =>
      .done rfl nofun
  | bpNeg => exact .read (reading_bpoly a 0) fun p hp => .done rfl nofun
  | bpScal =>
    exact .read (reading_belt a 0) fun x hx => .read (reading_bpoly a 0) fun p hp =>
      .done rfl nofun
  | bpEval =>
    exact .read (reading_bpoly a 0) fun p hp => .read (reading_belt a 0) fun x hx =>
      .done rfl nofun
  | bpMul =>
    simp only [evaluate, Args.twoBpolys, bind_assoc, pure_bind]
    exact .read (reading_bpoly a 1) fun q hq => .read (reading_bpoly a 0) fun p hp =>
      outcome_bpMul t h hp hq
  | bpHadamard =>
    simp only [evaluate, Args.twoBpolys, bind_assoc, pure_bind]
    exact .read (reading_bpoly a 1) fun q hq => .read (reading_bpoly a 0) fun p hp =>
      outcome_bpHadamard t hp hq
  | bpNtt => exact .read (reading_bpoly a 0) fun p hp => outcome_bpNtt t hp h
  | bpFft => exact .read (reading_bpoly a 0) fun p hp => outcome_bpFft t hp h
  | bpIfft => exact .read (reading_bpoly a 0) fun p hp => outcome_bpIfft t hp h
  | bpShift =>
    simp only [evaluate, Args.shift, bind_assoc, pure_bind]
    exact .read (reading_offset a) fun offset ho => .read (reading_bpoly a 0) fun p hp =>
      outcome_bpShift hp h offset
  | bpCoseword =>
    simp only [evaluate, Args.coset, Args.shift, bind_assoc, pure_bind]
    exact .read (reading_order a) fun n hn => .read (reading_offset a) fun offset ho =>
      .read (reading_bpoly a 0) fun p hp => outcome_bpCoseword t hp h hn offset
  | bpIntercosate =>
    simp only [evaluate, Args.coset, Args.shift, bind_assoc, pure_bind]
    exact .read (reading_order a) fun n hn => .read (reading_offset a) fun offset ho =>
      .read (reading_bpoly a 0) fun p hp => outcome_bpIntercosate t hp h hn ho
  | fAdd | fSub | fMul =>
    simp only [evaluate, Args.twoFelts, bind_assoc, pure_bind]
    exact .read (reading_felt a 1) fun y hy => .read (reading_felt a 0) fun x hx => .done rfl nofun
  | fNeg => exact .read (reading_felt a 0) fun x hx => .done rfl nofun
  | fInv => exact .read (reading_felt a 0) fun x hx => outcome_fInv hx
  | fDiv =>
    simp only [evaluate, Args.twoFelts, bind_assoc, pure_bind]
    exact .read (reading_felt a 1) fun y hy => .read (reading_felt a 0) fun x hx => outcome_fDiv hy
  | fPow =>
    exact .read (reading_felt a 0) fun x hx => .read (reading_exponent a) fun e he =>
      .done rfl nofun
  | fpAdd | fpSub | fpMul =>
    simp only [evaluate, Args.twoFpolys, bind_assoc, pure_bind]
    exact .read (reading_fpoly a 1) fun q hq => .read (reading_fpoly a 0) fun p hp =>
      .done rfl nofun
  | fpNeg => exact .read (reading_fpoly a 0) fun p hp => .done rfl nofun
  | fpScal =>
    exact .read (reading_felt a 0) fun x hx => .read (reading_fpoly a 0) fun p hp =>
      .done rfl nofun
  | fpEval =>
    exact .read (reading_fpoly a 0) fun p hp => .read (reading_felt a 0) fun x hx =>
      .done rfl nofun

end Evaluate

end Jet
end ProofMiner
