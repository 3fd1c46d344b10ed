/-
# The domain cache

Domains are computed once and kept; nothing is ever removed. The key of an entry is its size and
its offset, so offsets that name one field element name one entry.

Besides the entries the cache counts the look-ups that found one, those that did not, and the
coset operations that consulted it.
-/

import ProofMiner.Decimal.Binary
import ProofMiner.Domain.Tables

namespace ProofMiner

/-- The domains computed so far, newest first, and the counters. -/
structure Cache where
  entries : List Domain := []
  hits : Nat := 0
  misses : Nat := 0
  shiftCalls : Nat := 0
  intercosateCalls : Nat := 0
  cosewordCalls : Nat := 0
  deriving DecidableEq, Repr, Inhabited

namespace Cache

/-- The entry for a size and an offset. -/
def find? (c : Cache) (size : Nat) (offset : Goldilocks) : Option Domain :=
  c.entries.find? fun d => d.size == size && d.offset == offset

/-- Whether tables for this size and offset are held. -/
def contains (c : Cache) (size : Nat) (offset : Goldilocks) : Bool :=
  (c.find? size offset).isSome

/-- The entry if there is one, which counts as a hit or a miss. -/
def lookup (c : Cache) (size : Nat) (offset : Goldilocks) : Option Domain × Cache :=
  match c.find? size offset with
  | some d => (some d, { c with hits := c.hits + 1 })
  | none => (none, { c with misses := c.misses + 1 })

/-- The entry, computed and stored when it is not there yet. -/
def getOrCompute (c : Cache) (size : Nat) (offset : Goldilocks) : Except Fault Domain × Cache :=
  if !isPowerOfTwo size then (.error (.domainSize size), c)
  else match c.find? size offset with
    | some d => (.ok d, { c with hits := c.hits + 1 })
    | none =>
      match Domain.compute size offset with
      | .ok d => (.ok d, { c with entries := d :: c.entries, misses := c.misses + 1 })
      | .error e => (.error e, { c with misses := c.misses + 1 })

/-- Adds the domains of sizes `2 ^ k` for the listed `k` that are missing, and counts them. The
hits and misses stay. -/
def warmUpSizes (offset : Goldilocks) : List Nat → Nat → Cache → Except Fault Nat × Cache
  | [], added, c => (.ok added, c)
  | k :: ks, added, c =>
    if c.contains (1 <<< k) offset then warmUpSizes offset ks added c
    else match Domain.compute (1 <<< k) offset with
      | .ok d => warmUpSizes offset ks (added + 1) { c with entries := d :: c.entries }
      | .error e => (.error e, c)

/-- The log line after a warm-up. -/
def warmUpLine (added low high : Nat) (offset : UInt64) : String :=
  s!"[domain-cache] precomputed {added} domains (2^{low}..2^{high}, offset {offset.toNat})"

/-- Prepares the sizes `2 ^ low` to `2 ^ high` for one offset, and says so in a line unless the
range is empty. -/
def warmUp (c : Cache) (low high : Nat) (offset : UInt64) : Except Fault (List String) × Cache :=
  if high < low then (.ok [], c)
  else if Goldilocks.twoAdicity < high then (.error .warmUpRange, c)
  else
    let exponents := (List.range (high + 1)).filter (low ≤ ·)
    match warmUpSizes (Goldilocks.ofWord offset) exponents 0 c with
    | (.ok added, c) => (.ok [warmUpLine added low high offset], c)
    | (.error e, c) => (.error e, c)

/-- The counters in the order in which they are shown, with the number of entries last. -/
def counters (c : Cache) : List Nat :=
  [c.hits, c.misses, c.shiftCalls, c.intercosateCalls, c.cosewordCalls, c.entries.length]

/-- The share of look-ups that found their entry, in percent. -/
def hitPercent (c : Cache) : Float :=
  let total := c.hits + c.misses
  if total = 0 then 0.0 else (c.hits.toFloat / total.toFloat) * 100.0

/-- The statistics as a log line. -/
def statsLine (c : Cache) : String :=
  s!"[domain-cache] entries={c.entries.length} hits={c.hits} misses={c.misses}" ++
    s!" hit_rate={Decimal.renderTenths c.hitPercent}% bp_shift={c.shiftCalls}" ++
    s!" bp_intercosate={c.intercosateCalls} bp_coseword={c.cosewordCalls}"

end Cache
end ProofMiner
