/-!
# Shortest decimal text of a double

A finite double is written with the fewest significant digits that read back as the same
double; of two such decimals, the nearer one. The digits stand positionally, with at least one
digit after the point, while the value lies below `10 ^ 16` and the first digit is at most five
places after the point (`100.0`, `0.001234`); otherwise they stand in scientific form, the
exponent without a plus sign or padding (`1e30`, `1.5e-7`). Zero is `0.0`, with its sign.

The search is exact: the double is the fraction `num / den`, and for each count of digits the
two neighbours of that fraction on the grid of the last digit are read back.

Main statement: `exponentOf_spec`, the decimal exponent of a fraction at least one is one less
than the number of digits of its whole part.
-/

namespace Febc

namespace Shortest

/-- The exact magnitude of a finite double as a fraction `num / den`. -/
def fraction (x : Float) : Nat × Nat :=
  let bits := x.toBits.toNat
  let field : Nat := bits / Nat.pow 2 52 % Nat.pow 2 11
  let mantissa : Nat := bits % Nat.pow 2 52
  let (m, e) : Nat × Int :=
    if field == 0 then (mantissa, -1074) else (mantissa + Nat.pow 2 52, (field : Int) - 1075)
  if e ≥ 0 then (m * Nat.pow 2 e.toNat, 1) else (m, Nat.pow 2 (-e).toNat)

/-- The number of decimal digits of a number. -/
def digitCount (n : Nat) : Nat := (Nat.toDigits 10 n).length

/-- The decimal exponent of a positive fraction: the `k` with
`10 ^ k ≤ num / den < 10 ^ (k + 1)`. -/
def exponentOf (num den : Nat) : Int :=
  if num / den > 0 then (digitCount (num / den) : Int) - 1
  else
    let j := digitCount (den / num) - 1
    if num * Nat.pow 10 j ≥ den then -(j : Int) else -((j : Int) + 1)

/-- The double nearest to `d * 10 ^ s`. -/
def readBack (d : Nat) (s : Int) : Float :=
  if s ≥ 0 then Float.ofScientific d false s.toNat else Float.ofScientific d true (-s).toNat

/-- The digits on the grid of `10 ^ s` that read back as the double of magnitude `num / den`:
of the two neighbours of the fraction on the grid, the one that reads back, or the nearer if
both do. -/
def onGrid (x : Float) (num den : Nat) (s : Int) : Option Nat :=
  let (n, d) := if s ≥ 0 then (num, den * Nat.pow 10 s.toNat) else (num * Nat.pow 10 (-s).toNat, den)
  let below := n / d
  let rest := n % d
  if rest == 0 then some below
  else
    let belowReads := below > 0 && (readBack below s).toBits == x.toBits
    let aboveReads := (readBack (below + 1) s).toBits == x.toBits
    match belowReads, aboveReads with
    | true, true =>
      if 2 * rest < d then some below
      else if 2 * rest > d then some (below + 1)
      else if below % 2 == 0 then some below else some (below + 1)
    | true, false => some below
    | false, true => some (below + 1)
    | false, false => none

/-- Drop the trailing zeros of digits, raising the exponent of the last digit. -/
def dropZeros : Nat → Nat → Int → Nat × Int
  | 0, d, s => (d, s)
  | fuel + 1, d, s =>
    if d > 0 && d % 10 == 0 then dropZeros fuel (d / 10) (s + 1) else (d, s)

/-- The shortest digits of a positive finite double, and the exponent of their last digit. -/
def digits (x : Float) : Nat × Int :=
  let (num, den) := fraction x
  let k := exponentOf num den
  let found := (List.range 17).findSome? fun (i : Nat) =>
    (onGrid x num den (k - (i : Int))).map (·, k - (i : Int))
  let (d, s) := found.getD (num * Nat.pow 10 17 / den, -17)
  dropZeros 20 d s

/-- A run of zeros. -/
def zeros (n : Nat) : String := String.ofList (List.replicate n '0')

/-- The text of a finite double. -/
def render (x : Float) : String :=
  let sign := if x.toBits.toNat ≥ Nat.pow 2 63 then "-" else ""
  if x.toBits.toNat % Nat.pow 2 63 == 0 then sign ++ "0.0"
  else
    let (d, k) := digits x.abs
    let ds := toString d
    let length : Int := ds.length
    let kk := length + k
    let body :=
      if 0 ≤ k && kk ≤ 16 then ds ++ zeros k.toNat ++ ".0"
      else if 0 < kk && kk ≤ 16 then
        String.ofList (ds.toList.take kk.toNat) ++ "." ++ String.ofList (ds.toList.drop kk.toNat)
      else if -5 < kk && kk ≤ 0 then "0." ++ zeros (-kk).toNat ++ ds
      else if length == 1 then ds ++ "e" ++ toString (kk - 1)
      else
        String.ofList (ds.toList.take 1) ++ "." ++ String.ofList (ds.toList.drop 1) ++ "e" ++
          toString (kk - 1)
    sign ++ body

theorem exponentOf_spec (num den : Nat) (h : num / den > 0) :
    exponentOf num den = (digitCount (num / den) : Int) - 1 := by
  simp [exponentOf, h]

end Shortest

end Febc
