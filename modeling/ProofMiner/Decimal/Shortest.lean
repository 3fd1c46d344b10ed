/-
# The shortest decimal that reads back

The text of a double has as few digits as possible such that reading it gives the same double,
and of the decimals with that many digits the one nearest to it.

On each decimal grid only the two neighbours of the value have to be tested: if any point of the
grid lies in the interval of reals that round to the double, one of these two does.
-/

import ProofMiner.Decimal.Binary

namespace ProofMiner
namespace Decimal

/-- A positive rational. -/
structure Ratio where
  num : Nat
  den : Nat

/-- `n * 2 ^ e`. -/
def Ratio.dyadic (n : Nat) (e : Int) : Ratio :=
  if 0 ≤ e then ⟨n <<< e.toNat, 1⟩ else ⟨n, 1 <<< (-e).toNat⟩

/-- `n * 10 ^ e`. -/
def Ratio.decimal (n : Nat) (e : Int) : Ratio :=
  if 0 ≤ e then ⟨n * Nat.pow 10 e.toNat, 1⟩ else ⟨n, Nat.pow 10 (-e).toNat⟩

/-- Comparison by cross-multiplication. -/
def Ratio.lt (a b : Ratio) : Bool := a.num * b.den < b.num * a.den

/-- The distance of two rationals. -/
def Ratio.distance (a b : Ratio) : Ratio :=
  let x := a.num * b.den
  let y := b.num * a.den
  ⟨max x y - min x y, a.den * b.den⟩

/-- The `e` with `10 ^ e ≤ r < 10 ^ (e + 1)`, for a ratio within the range of doubles. -/
def Ratio.exponent (r : Ratio) : Int :=
  if r.den ≤ r.num then (toString (r.num / r.den)).length - 1
  else match (List.range 400).find? fun j => r.den ≤ r.num * Nat.pow 10 j with
    | some j => -(j : Int)
    | none => 0

/-- The reals that round to a positive double: the ends halfway to its neighbours belong to it
when its mantissa is even. -/
structure Interval where
  lo : Ratio
  hi : Ratio
  closed : Bool

/-- The numbers that are nearer to this double than to its neighbours. Below the lowest of a binade they are
half as far away. -/
def Interval.ofBinary (b : Binary) : Interval where
  lo := Ratio.dyadic (4 * b.mantissa - if b.lowestOfBinade then 1 else 2) (b.exponent - 2)
  hi := Ratio.dyadic (4 * b.mantissa + 2) (b.exponent - 2)
  closed := b.mantissa % 2 == 0

/-- The ends belong to it if it is closed. -/
def Interval.contains (i : Interval) (r : Ratio) : Bool :=
  if i.closed then !r.lt i.lo && !i.hi.lt r else i.lo.lt r && r.lt i.hi

/-- A decimal `digits * 10 ^ exponent`. -/
structure Scientific where
  digits : Nat
  exponent : Int
  deriving DecidableEq, Repr

namespace Scientific

/-- The same number without zeros at the end of its digits. -/
def trim (s : Scientific) : Scientific :=
  if 0 < s.digits ∧ s.digits % 10 = 0 then trim ⟨s.digits / 10, s.exponent + 1⟩ else s
termination_by s.digits
decreasing_by omega

end Scientific

/-- The better of the two neighbours of `value` among the multiples of `10 ^ exponent`, if one
lies in the interval. Of two at one distance the even one is taken. -/
def bestOnGrid (value : Ratio) (interval : Interval) (exponent : Int) : Option Scientific :=
  let grid := Ratio.decimal 1 exponent
  let below := value.num * grid.den / (value.den * grid.num)
  let candidate (n : Nat) : Option Scientific :=
    if interval.contains (Ratio.decimal n exponent) then some ⟨n, exponent⟩ else none
  match candidate below, candidate (below + 1) with
  | some a, some b =>
    let da := value.distance (Ratio.decimal below exponent)
    let db := value.distance (Ratio.decimal (below + 1) exponent)
    if da.lt db then some a else if db.lt da then some b
    else if below % 2 == 0 then some a else some b
  | some a, none => some a
  | none, other => other

/-- The decimal that equals `n * 2 ^ e`. -/
def Scientific.dyadic (n : Nat) (e : Int) : Scientific :=
  if 0 ≤ e then ⟨n <<< e.toNat, 0⟩ else ⟨n * Nat.pow 5 (-e).toNat, e⟩

/-- The shortest decimal of a positive finite double; 17 digits are always enough. Just below a
power of ten the neighbour above has a zero at its end, which is no digit of the shortest form. -/
def shortest (b : Binary) : Scientific :=
  let value := Ratio.dyadic b.mantissa b.exponent
  let top := value.exponent
  let interval := Interval.ofBinary b
  let grids := (List.range 17).map fun (n : Nat) => top - (n : Int)
  let found := grids.findSome? (bestOnGrid value interval)
  (found.getD (Scientific.dyadic b.mantissa b.exponent)).trim

/-- How a double is laid out around its digits. -/
structure Layout where
  /-- The least exponent that is written without an exponent mark. -/
  plainFrom : Int
  /-- The greatest one. -/
  plainTo : Int
  /-- The least number of digits of an exponent. -/
  exponentDigits : Nat

/-- The text of `digits * 10 ^ exponent`. A plain number always has a digit after the point. -/
def Layout.render (layout : Layout) (s : Scientific) : String :=
  let text := toString s.digits
  let count : Int := text.length
  let top := s.exponent + count - 1
  let zeros (n : Int) : String := String.ofList (List.replicate n.toNat '0')
  if layout.plainFrom ≤ top && top ≤ layout.plainTo then
    if 0 ≤ s.exponent then text ++ zeros s.exponent ++ ".0"
    else if top < 0 then "0." ++ zeros (-top - 1) ++ text
    else
      let cut := (top + 1).toNat
      String.ofList (text.toList.take cut) ++ "." ++ String.ofList (text.toList.drop cut)
  else
    let mantissa := match text.toList with
      | [] => ""
      | [d] => String.ofList [d]
      | d :: rest => String.ofList (d :: '.' :: rest)
    let size := toString top.natAbs
    let padding := zeros (layout.exponentDigits - (size.length : Int))
    mantissa ++ "e" ++ (if top < 0 then "-" else "+") ++ padding ++ size

/-- The text of a finite double with the fewest digits that read back. -/
def Layout.renderFloat (layout : Layout) (x : Float) : String :=
  let b := Binary.ofFloat x
  let sign := if b.negative then "-" else ""
  if b.mantissa = 0 then sign ++ "0.0" else sign ++ layout.render (shortest b)

end Decimal
end ProofMiner
