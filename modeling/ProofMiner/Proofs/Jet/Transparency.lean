/-
# The engine behind a call does not show in its result

A call runs on a cache and with a tuning, and leaves another cache. On a sound cache its result is
what the operation computes from the arguments alone with no threads and no tables (`run_fst`): the
coset operations are functions of their arguments there, and neither transforms nor products depend
on the tuning. Calls and requests keep a cache reachable, hence sound
(`Registry.reachable_ofHistory`), so two registries give the same results whatever they were asked
before (`results_independent_of_history`).

The one thing to be asked for is that the lengths have roots of unity: the length of a polynomial
that is shifted, if it is a power of two and so the order of a domain, and the padded length of a
product (`Fits`). An order among the arguments may be too large: then every path fails with the same
words.
-/

import ProofMiner.Jet.Registry
import ProofMiner.Proofs.Domain.Interpolation

namespace ProofMiner
namespace Jet

open Goldilocks

/-- The lengths that a call works with are at most `2 ^ 32`. -/
def Fits (op : Op) (a : Args) : Prop :=
  match op with
  | .bpShift => ∀ p offset, a.shift = .ok (p, offset) → isPowerOfTwo p.size = true →
      p.size ≤ 2 ^ 32
  | .bpMul => ∀ p q, a.twoBpolys = .ok (p, q) → nextPowerOfTwo (p.size + q.size - 1) ≤ 2 ^ 32
  | _ => True

/-! ### One call -/

/-- An order among the arguments is a word. -/
theorem Args.order_lt_of_coset {a : Args} {p : Array Goldilocks} {offset : Goldilocks} {order : ℕ}
    (h : a.coset = .ok (p, offset, order)) : order < 2 ^ 64 := by
  unfold coset at h
  cases horder : a.order with
  | none =>
    rw [horder] at h
    cases h
  | some n =>
    rw [horder] at h
    cases hshift : a.shift with
    | error e =>
      rw [hshift] at h
      cases h
    | ok args =>
      rw [hshift] at h
      cases h
      exact n.toNat_lt

/-- **A call gives what its operation computes** from the arguments alone, with any sound cache. -/
theorem run_fst {c : Cache} (hc : c.Sound) (t : Tuning) (mode : CacheMode) {op : Op} {a : Args}
    (h : Fits op a) : (run t mode op a c).1 = evaluate .sequential op a := by
  cases op with
  | bpShift =>
    rw [run, evaluate]
    cases hargs : a.shift with
    | error e => rfl
    | ok args =>
      obtain ⟨p, offset⟩ := args
      have hp := h p offset hargs
      change (shift mode p offset c).1.map Value.bpoly =
        (shift .lookupOnly p offset {}).1.bind fun p => .ok (.bpoly p)
      rw [shift_eq hc mode offset hp, shift_eq Cache.sound_empty .lookupOnly offset hp]
      rfl
  | bpCoseword =>
    rw [run, evaluate]
    cases hargs : a.coset with
    | error e => rfl
    | ok args =>
      obtain ⟨p, offset, order⟩ := args
      have horder := Args.order_lt_of_coset hargs
      change (coseword t mode p offset order c).1.map Value.bpoly =
        (coseword .sequential .lookupOnly p offset order {}).1.bind fun p => .ok (.bpoly p)
      rw [coseword_eq hc t mode p offset horder,
        coseword_eq Cache.sound_empty .sequential .lookupOnly p offset horder]
      rfl
  | bpIntercosate =>
    rw [run, evaluate]
    cases hargs : a.coset with
    | error e => rfl
    | ok args =>
      obtain ⟨p, offset, order⟩ := args
      have horder := Args.order_lt_of_coset hargs
      change (intercosate t mode p offset order c).1.map Value.bpoly =
        (intercosate .sequential .lookupOnly p offset order {}).1.bind fun p => .ok (.bpoly p)
      rw [intercosate_eq hc t mode p offset horder,
        intercosate_eq Cache.sound_empty .sequential .lookupOnly p offset horder]
      rfl
  | bpMul =>
    change evaluate t .bpMul a = _
    rw [evaluate, evaluate]
    cases hargs : a.twoBpolys with
    | error e =>
      -- `rfl` at once would compare the products that are not reached
      change Except.error e = .error e
      rfl
    | ok args =>
      obtain ⟨p, q⟩ := args
      have hn := h p q hargs
      change (multiply t p q).bind (fun p => .ok (Value.bpoly p)) =
        (multiply .sequential p q).bind fun p => .ok (Value.bpoly p)
      rw [multiply_eq t hn, multiply_eq .sequential hn]
  | bpHadamard => simp only [run, evaluate, hadamard_tuning t .sequential]
  | bpNtt => simp only [run, evaluate, transform_tuning t .sequential]
  | bpFft => simp only [run, evaluate, forward_tuning t .sequential]
  | bpIfft => simp only [run, evaluate, inverse_tuning t .sequential]
  | _ => rfl

/-- Whatever the arguments, a call makes of a cache one that requests could have made. -/
theorem reachable_run {c : Cache} (hc : c.Reachable) (t : Tuning) (mode : CacheMode) (op : Op)
    (a : Args) : (run t mode op a c).2.Reachable := by
  cases op with
  | bpShift =>
    rw [run]
    cases a.shift with
    | error e => exact hc
    | ok args => exact hc.after (.shift mode args.1 args.2)
  | bpCoseword =>
    rw [run]
    cases a.coset with
    | error e => exact hc
    | ok args => exact hc.after (.coseword t mode args.1 args.2.1 args.2.2)
  | bpIntercosate =>
    rw [run]
    cases a.coset with
    | error e => exact hc
    | ok args => exact hc.after (.intercosate t mode args.1 args.2.1 args.2.2)
  | _ => exact hc

/-! ### Histories -/

/-- What happens to a registry: calls of operations, and requests to its cache, also such as another
registry with the same cache makes. -/
inductive Event where
  | invoke (op : Op) (a : Args)
  | invokeIndex (index : ℕ) (a : Args)
  | invokeName (name : String) (a : Args)
  | request (r : Cache.Request)

namespace Registry

/-- The registry after an event. -/
def after (r : Registry) : Event → Registry
  | .invoke op a => (r.invoke op a).2
  | .invokeIndex index a => (r.invokeIndex index a).2
  | .invokeName name a => (r.invokeName name a).2
  | .request q => { r with cache := r.cache.after q }

/-- The registry with the given settings after the given events, which begin with an empty cache. -/
def ofHistory (t : Tuning) (mode : CacheMode) (events : List Event) : Registry :=
  events.foldl after { tuning := t, mode := mode }

/-- A call leaves a cache that accesses can lead to. -/
theorem reachable_invoke {r : Registry} (h : r.cache.Reachable) (op : Op) (a : Args) :
    (r.invoke op a).2.cache.Reachable := reachable_run h r.tuning r.mode op a

/-- Every event leaves a cache that accesses can lead to. -/
theorem reachable_after {r : Registry} (h : r.cache.Reachable) (e : Event) :
    (r.after e).cache.Reachable := by
  cases e with
  | invoke op a => exact reachable_invoke h op a
  | invokeIndex index a =>
    rw [after, invokeIndex]
    cases Op.ofIndex? index with
    | none => exact h
    | some op => exact reachable_invoke h op a
  | invokeName name a =>
    rw [after, invokeName]
    cases Op.ofName? name with
    | none => exact h
    | some op => exact reachable_invoke h op a
  | request q => exact h.after q

/-- **No history spoils the cache.** By induction on the events. -/
theorem reachable_ofHistory (t : Tuning) (mode : CacheMode) (events : List Event) :
    (ofHistory t mode events).cache.Reachable := by
  have hrun : ∀ r : Registry, r.cache.Reachable → (events.foldl after r).cache.Reachable := by
    induction events with
    | nil => exact fun _ h => h
    | cons e events ih => exact fun r h => ih (r.after e) (reachable_after h e)
  exact hrun _ .empty

/-- The result of a call on a registry with a reachable cache. -/
theorem invoke_fst {r : Registry} (hr : r.cache.Reachable) {op : Op} {a : Args} (h : Fits op a) :
    (r.invoke op a).1 = .ofExcept (evaluate .sequential op a) :=
  congrArg Result.ofExcept (run_fst hr.sound r.tuning r.mode h)

end Registry

/-- **Nothing but the call shows in its result.** Two registries, with any settings and after any
two histories, give the same result for a call by index or by name: the same value, or the same
status with the same message. -/
theorem results_independent_of_history (t t' : Tuning) (mode mode' : CacheMode)
    (events events' : List Event) (a : Args) :
    (∀ index, (∀ op, Op.ofIndex? index = some op → Fits op a) →
      ((Registry.ofHistory t mode events).invokeIndex index a).1 =
        ((Registry.ofHistory t' mode' events').invokeIndex index a).1) ∧
    (∀ name, (∀ op, Op.ofName? name = some op → Fits op a) →
      ((Registry.ofHistory t mode events).invokeName name a).1 =
        ((Registry.ofHistory t' mode' events').invokeName name a).1) := by
  have hinvoke : ∀ op, Fits op a → ((Registry.ofHistory t mode events).invoke op a).1 =
      ((Registry.ofHistory t' mode' events').invoke op a).1 := by
    intro op hop
    rw [Registry.invoke_fst (Registry.reachable_ofHistory t mode events) hop,
      Registry.invoke_fst (Registry.reachable_ofHistory t' mode' events') hop]
  constructor
  · intro index h
    rw [Registry.invokeIndex, Registry.invokeIndex]
    cases hop : Op.ofIndex? index with
    | none => rfl
    | some op => exact hinvoke op (h op hop)
  · intro name h
    rw [Registry.invokeName, Registry.invokeName]
    cases hop : Op.ofName? name with
    | none => rfl
    | some op => exact hinvoke op (h op hop)

/-- The hypotheses are satisfiable: a shift by index and a product by name, on a registry that was
warmed up and on a new one with other settings. -/
theorem results_independent_of_history_shift_mul :
    Fits .bpShift { bpolys := [#[1, 2], #[3]], offset := some 7 } ∧
    Fits .bpMul { bpolys := [#[1, 2], #[3]], offset := some 7 } ∧
    ((Registry.ofHistory {} .populate [.request (.warmUp 0 3 7)]).invokeIndex 17
        { bpolys := [#[1, 2], #[3]], offset := some 7 }).1 =
      ((Registry.ofHistory .sequential .lookupOnly []).invokeIndex 17
        { bpolys := [#[1, 2], #[3]], offset := some 7 }).1 ∧
    ((Registry.ofHistory {} .populate [.request (.warmUp 0 3 7)]).invokeName "bpmul"
        { bpolys := [#[1, 2], #[3]], offset := some 7 }).1 =
      ((Registry.ofHistory .sequential .lookupOnly []).invokeName "bpmul"
        { bpolys := [#[1, 2], #[3]], offset := some 7 }).1 := by
  have hshift : Fits .bpShift { bpolys := [#[1, 2], #[3]], offset := some 7 } := by
    rintro p offset h -
    cases h
    decide
  have hmul : Fits .bpMul { bpolys := [#[1, 2], #[3]], offset := some 7 } := by
    rintro p q h
    cases h
    decide
  obtain ⟨hindex, hname⟩ := results_independent_of_history {} .sequential .populate .lookupOnly
    [.request (.warmUp 0 3 7)] [] { bpolys := [#[1, 2], #[3]], offset := some 7 }
  refine ⟨hshift, hmul, hindex 17 fun op hop => ?_, hname "bpmul" fun op hop => ?_⟩
  · obtain rfl : Op.bpShift = op := Option.some.inj hop
    exact hshift
  · obtain rfl : Op.bpMul = op := Option.some.inj (by rw [← hop]; decide)
    exact hmul

end Jet
end ProofMiner
