import LintGate.Number.Double

/-!
# Shortest decimals

The decimal of a double with the fewest digits that reads back as the same double; of several,
the one nearest to it. `Double.write` then sets it out: positionally when the decimal exponent
lies from -4 to 15, and in scientific form otherwise.
-/

namespace LintGate.Number

/-- A double's value and the reals that round to it, over one denominator: the value, the two
ends, and whether the ends round to it as well. -/
structure RoundingInterval where
  value : Nat
  low : Nat
  high : Nat
  den : Nat
  closed : Bool

/-- The rounding interval of a positive finite double. Below a power of two the doubles lie
twice as close. -/
def RoundingInterval.ofDouble (significand : Nat) (exponent : Int) : RoundingInterval :=
  let up := Nat.pow 2 exponent.toNat
  let den := 4 * Nat.pow 2 (-exponent).toNat
  let v := 4 * significand * up
  let gap := if significand = Nat.pow 2 52 && Double.leastExponent < exponent then up else 2 * up
  ⟨v, v - gap, v + 2 * up, den, significand % 2 == 0⟩

def RoundingInterval.contains (i : RoundingInterval) (n : Nat) (e : Int) : Bool :=
  let x := n * Nat.pow 10 e.toNat * i.den
  let scale := Nat.pow 10 (-e).toNat
  if i.closed then i.low * scale ≤ x && x ≤ i.high * scale
  else i.low * scale < x && x < i.high * scale

/-- The greatest `k` with `10 ^ k ≤ num / den`, searched downwards from `k + tries`. -/
def floorLog10 (num den : Nat) : Nat → Int → Int
  | 0, k => k
  | tries + 1, k =>
    let top := k + (tries + 1 : Nat)
    if den * Nat.pow 10 top.toNat ≤ num * Nat.pow 10 (-top).toNat then top
    else floorLog10 num den tries k

/-- The multiple of `10 ^ e` next to the value that rounds to the double, the nearer of two. -/
def RoundingInterval.onGrid? (i : RoundingInterval) (e : Int) : Option Nat :=
  let num := i.value * Nat.pow 10 (-e).toNat
  let den := i.den * Nat.pow 10 e.toNat
  let below := num / den
  let near := roundDiv num den
  let far := if near = below then below + 1 else below
  if i.contains near e then some near else if i.contains far e then some far else none

/-- The first grid, from coarse to fine, that holds a decimal of the double. -/
def RoundingInterval.search (i : RoundingInterval) : Nat → Int → Nat × Int
  | 0, e => ((i.onGrid? e).getD (i.value / i.den), e)
  | finer + 1, e =>
    match i.onGrid? e with
    | some n => (n, e)
    | none => i.search finer (e - 1)

def shortest (significand : Nat) (exponent : Int) : Nat × Int :=
  let i := RoundingInterval.ofDouble significand exponent
  let guess : Int := (((significand.log2 : Int) + exponent) * 30103).fdiv 100000
  i.search 20 (floorLog10 i.value i.den 4 (guess - 2))

def layOut (digits : Nat) (exponent : Int) : String :=
  let ds := (Nat.toDigits 10 digits).reverse.dropWhile (· == '0') |>.reverse
  let point : Int := exponent + (Nat.toDigits 10 digits).length
  let text : List Char :=
    if point ≤ -4 || 16 < point then
      let fraction := match ds.tail with
        | [] => []
        | more => '.' :: more
      let order := (point - 1).natAbs
      ds.take 1 ++ fraction ++ ['e', if point ≤ 0 then '-' else '+'] ++
        (if order < 10 then ['0'] else []) ++ Nat.toDigits 10 order
    else if point ≤ 0 then
      '0' :: '.' :: List.replicate (-point).toNat '0' ++ ds
    else
      let whole := ds.take point.toNat
      let fraction := ds.drop point.toNat
      whole ++ List.replicate (point.toNat - whole.length) '0' ++ ['.'] ++
        (if fraction.isEmpty then ['0'] else fraction)
  String.ofList text

def Double.write : Double → String
  | .nan => "nan"
  | .infinite negative => if negative then "-inf" else "inf"
  | .finite negative m e =>
    let sign := if negative then "-" else ""
    if m = 0 then sign ++ "0.0" else
      let (digits, exponent) := shortest m e
      sign ++ layOut digits exponent

end LintGate.Number
