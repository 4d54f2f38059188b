import Febc.Error

/-!
# Private local slots

Lowering needs slots of its own (an iterator, a caught exception, a lock, a resource) beyond the
slots the function's scope declares. They are taken above a base, last taken first released,
and the highest mark is the function's local count. A slot past the last one a one-byte operand
can address is refused.

Main statement: `count_ge_base`, the local count never falls below the base.
-/

namespace Febc

/-- The next private slot and the highest mark reached. -/
structure LocalsLayout where
  next : Nat
  high : Nat
  deriving DecidableEq, Repr, Inhabited

namespace LocalsLayout

/-- Slots below the base belong to the function's own variables. -/
def ofBase (base : Nat) : LocalsLayout := ⟨base, base⟩

/-- Take the next slot; a slot past 255 fails and takes nothing. -/
def pushPrivate (l : LocalsLayout) : Except Error (Nat × LocalsLayout) :=
  if l.next > 255 then .error (.localsOverflow l.next)
  else .ok (l.next, ⟨l.next + 1, max l.high (l.next + 1)⟩)

/-- Release the last slot taken; none if no slot is left to release. -/
def popPrivate (l : LocalsLayout) : Option LocalsLayout :=
  if l.next = 0 then none else some { l with next := l.next - 1 }

/-- The number of local slots the function needs. -/
def count (l : LocalsLayout) : Nat := l.high

theorem count_ge_base (base : Nat) (l : LocalsLayout) (r : Nat × LocalsLayout)
    (hl : base ≤ l.high) (h : l.pushPrivate = .ok r) : base ≤ r.2.count := by
  unfold pushPrivate at h
  split at h
  · cases h
  · cases h; simp only [count]; omega

end LocalsLayout

end Febc
