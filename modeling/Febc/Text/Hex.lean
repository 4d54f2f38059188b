/-!
# Bytes as hexadecimal text

Bytes are written as two lowercase hexadecimal digits each, with no separator. Reading takes
the text two characters at a time: digits of either case, or a plus sign and one digit. It
refuses any other character, and an odd number of characters.

Main statement: `decode?_encode`, reading the text of bytes gives the bytes back.
-/

namespace Febc

namespace Hex

/-- The lowercase digit of a value below sixteen. -/
def digit (n : Nat) : Char := Char.ofNat (if n < 10 then 48 + n else 87 + n)

/-- The value of a hexadecimal digit of either case. -/
def value? (c : Char) : Option Nat :=
  if '0' ≤ c ∧ c ≤ '9' then some (c.toNat - 48)
  else if 'a' ≤ c ∧ c ≤ 'f' then some (c.toNat - 87)
  else if 'A' ≤ c ∧ c ≤ 'F' then some (c.toNat - 55)
  else none

/-- The two digits of a byte. -/
def byteDigits (b : UInt8) : List Char := [digit (b.toNat / 16), digit (b.toNat % 16)]

/-- The text of bytes. -/
def encode (bs : List UInt8) : String := String.ofList (bs.flatMap byteDigits)

/-- The value of a pair of digits. A plus sign may open the pair, before its one digit. -/
def pairValue? (a b : Char) : Option Nat :=
  if a = '+' then value? b
  else do
    let hi ← value? a
    let lo ← value? b
    pure (hi * 16 + lo)

/-- Read bytes from pairs of digits. -/
def decodeChars : List Char → Option (List UInt8)
  | [] => some []
  | a :: b :: rest => do
    let v ← pairValue? a b
    let more ← decodeChars rest
    pure (v.toUInt8 :: more)
  | [_] => none

/-- Read bytes from their text. -/
def decode? (s : String) : Option (List UInt8) := decodeChars s.toList

theorem value?_digit : ∀ n : Nat, n < 16 → value? (digit n) = some n
  | 0, _ | 1, _ | 2, _ | 3, _ | 4, _ | 5, _ | 6, _ | 7, _ | 8, _ | 9, _ | 10, _ | 11, _ | 12, _
  | 13, _ | 14, _ | 15, _ => by decide
  | _ + 16, h => absurd h (by omega)

theorem digit_ne_plus (n : Nat) (h : n < 16) : digit n ≠ '+' := by
  intro he
  have hv := value?_digit n h
  rw [he, show value? '+' = none by decide] at hv
  cases hv

theorem decodeChars_byteDigits (b : UInt8) (rest : List Char) :
    decodeChars (byteDigits b ++ rest) = (decodeChars rest).map (b :: ·) := by
  have hb : b.toNat < 256 := UInt8.toNat_lt_size b
  simp only [byteDigits, List.cons_append, List.nil_append, decodeChars, pairValue?,
    digit_ne_plus _ (show b.toNat / 16 < 16 by omega), if_false,
    value?_digit _ (show b.toNat / 16 < 16 by omega),
    value?_digit _ (show b.toNat % 16 < 16 by omega)]
  have h : (b.toNat / 16 * 16 + b.toNat % 16).toUInt8 = b := by
    rw [show b.toNat / 16 * 16 + b.toNat % 16 = b.toNat by omega]
    simp
  cases decodeChars rest with
  | none => rfl
  | some v =>
    show some ((b.toNat / 16 * 16 + b.toNat % 16).toUInt8 :: v) = some (b :: v)
    rw [h]

theorem decode?_encode (bs : List UInt8) : decode? (encode bs) = some bs := by
  unfold decode? encode
  rw [String.toList_ofList]
  induction bs with
  | nil => rfl
  | cons b rest ih => rw [List.flatMap_cons, decodeChars_byteDigits, ih]; rfl

end Hex

end Febc
