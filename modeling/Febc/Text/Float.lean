import Febc.Text.Hex

/-!
# Floating-point values from text

A floating-point literal is given as text in one of three forms: a decimal (an optional sign,
digits with an optional fraction, and an optional exponent: `1e40`, `-0`, `.5`, `2.`), a
special value (`inf`, `infinity` or `nan` in any case, after an optional sign), or the bit
pattern itself in hexadecimal after `0x`: an optional plus sign, then at least one digit of
either case, for a number that fits the width of the format. A decimal is rounded once, to the
nearest value of the format it is read into. Not-a-number is the quiet one without payload, with
the sign given.

Exponents far outside the range of the formats are brought near it first: a decimal above
`10 ^ 400` is infinite and one below `10 ^ -400` is zero in both formats, so this changes no
value and keeps the arithmetic small.

Main statement: `read?_bits`, text starting with `0x` is read as a bit pattern.
-/

namespace Febc

/-- A decimal number: its sign, its digits as a number, and the power of ten they are scaled
by. -/
structure Decimal where
  negative : Bool
  digits : Nat
  exponent : Int
  deriving DecidableEq, Repr, Inhabited

namespace Decimal

/-- The exponent, brought into a range where it changes no rounded value. -/
def clampedExponent (d : Decimal) : Int :=
  let width : Int := (toString d.digits).length
  max (-(width + 400)) (min 400 d.exponent)

/-- The nearest double. -/
def toDouble (d : Decimal) : Float :=
  let e := d.clampedExponent
  let v := if e ≥ 0 then Float.ofScientific d.digits false e.toNat
    else Float.ofScientific d.digits true (-e).toNat
  if d.negative then -v else v

/-- The nearest single. -/
def toSingle (d : Decimal) : Float32 :=
  let e := d.clampedExponent
  let v := if e ≥ 0 then Float32.ofScientific d.digits false e.toNat
    else Float32.ofScientific d.digits true (-e).toNat
  if d.negative then -v else v

end Decimal

/-- Split off an optional sign. -/
def splitSign : List Char → Bool × List Char
  | '-' :: rest => (true, rest)
  | '+' :: rest => (false, rest)
  | rest => (false, rest)

/-- The number a list of decimal digits spells. -/
def digitsValue (cs : List Char) : Nat := cs.foldl (fun n c => n * 10 + (c.toNat - 48)) 0

/-- An optionally signed integer, of at least one digit. -/
def readInt? (cs : List Char) : Option Int :=
  let (negative, body) := splitSign cs
  if body.isEmpty || !body.all Char.isDigit then none
  else
    let n : Int := digitsValue body
    some (if negative then -n else n)

/-- A decimal: digits with an optional fraction (at least one digit in all), then an optional
exponent. -/
def readDecimal? (cs : List Char) : Option Decimal :=
  let (negative, cs) := splitSign cs
  let whole := cs.takeWhile Char.isDigit
  let cs := cs.dropWhile Char.isDigit
  let (fraction, cs) := match cs with
    | '.' :: rest => (rest.takeWhile Char.isDigit, rest.dropWhile Char.isDigit)
    | rest => ([], rest)
  if whole.isEmpty && fraction.isEmpty then none
  else
    let exponent : Option Int := match cs with
      | [] => some 0
      | c :: rest => if c == 'e' || c == 'E' then readInt? rest else none
    exponent.map fun e => ⟨negative, digitsValue (whole ++ fraction), e - fraction.length⟩

/-- The forms of a floating-point literal's text. -/
inductive FloatText where
  | decimal (d : Decimal)
  | infinity (negative : Bool)
  | notANumber (negative : Bool)
  /-- The bits of the value, given directly. -/
  | bits (pattern : Nat)
  deriving DecidableEq, Repr, Inhabited

namespace FloatText

/-- Why a literal's text gives no value. -/
inductive Fault where
  /-- The text after `0x` is no hexadecimal number, or one too wide for the format. -/
  | bits
  /-- The text is no number. -/
  | text
  deriving DecidableEq, Repr, Inhabited

/-- The value of hexadecimal digits, at least one, after an optional plus sign. -/
def hexValue? (cs : List Char) : Option Nat :=
  let digits := match cs with
    | '+' :: rest => rest
    | rest => rest
  if digits.isEmpty then none
  else digits.foldlM (fun n c => (Hex.value? c).map (n * 16 + ·)) 0

/-- Read a literal's text. -/
def read? (s : String) : Except Fault FloatText :=
  match s.toList with
  | '0' :: 'x' :: digits =>
    match hexValue? digits with
    | some n => .ok (.bits n)
    | none => .error .bits
  | cs =>
    let (negative, body) := splitSign cs
    match String.ofList (body.map Char.toLower) with
    | "inf" | "infinity" => .ok (.infinity negative)
    | "nan" => .ok (.notANumber negative)
    | _ => match readDecimal? cs with
      | some d => .ok (.decimal d)
      | none => .error .text

/-- The bits of the literal as a double; a bit pattern must fit in 64 bits. -/
def toBits64 : FloatText → Except Fault UInt64
  | .decimal d => .ok d.toDouble.toBits
  | .infinity negative => .ok (if negative then 0xfff0000000000000 else 0x7ff0000000000000)
  | .notANumber negative => .ok (if negative then 0xfff8000000000000 else 0x7ff8000000000000)
  | .bits n => if n < Nat.pow 2 64 then .ok n.toUInt64 else .error .bits

/-- The bits of the literal as a single; a bit pattern must fit in 32 bits. -/
def toBits32 : FloatText → Except Fault UInt32
  | .decimal d => .ok d.toSingle.toBits
  | .infinity negative => .ok (if negative then 0xff800000 else 0x7f800000)
  | .notANumber negative => .ok (if negative then 0xffc00000 else 0x7fc00000)
  | .bits n => if n < Nat.pow 2 32 then .ok n.toUInt32 else .error .bits

theorem read?_bits (digits : List Char) :
    read? (String.ofList ('0' :: 'x' :: digits)) =
      match hexValue? digits with
      | some n => .ok (.bits n)
      | none => .error .bits := by
  simp [read?]

theorem toBits64_bits (n : Nat) (h : n < Nat.pow 2 64) : toBits64 (.bits n) = .ok n.toUInt64 := by
  rw [toBits64, if_pos h]

end FloatText

end Febc
