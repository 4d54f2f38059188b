import Febc.Name

/-!
# The layout of the class being compiled

What every function of a class needs to know about it: its name, the superclass its initializer
chains to, the scope its field initializers resolve in, and its function table. The table gives
each distinct pair of a function name and a parameter count a slot, numbered in the order the
pairs are first declared and modulo 65536; a pair declared again keeps its first slot.

Main statements:
* `tableIndex?_assign_self`: after assigning a pair, the pair has a slot;
* `assign_size_le`: assigning adds at most one slot.
-/

namespace Febc

/-- The class being compiled, as its functions see it. -/
structure ClassLayout where
  name : BinaryName
  /-- The class whose initializer the class's initializers call first. -/
  superclass : BinaryName
  /-- The scope field initializers are resolved in. -/
  scope : Nat
  /-- Slot `i` of the function table belongs to the `i`-th pair of name and arity. -/
  table : List (String × Nat) := []
  deriving Inhabited

namespace ClassLayout

/-- The slot of a function, by name and parameter count: the position of its pair, kept in the
two bytes a slot is written in, so the 65537th pair takes slot 0 again. -/
def tableIndex? (l : ClassLayout) (name : String) (arity : Nat) : Option Nat :=
  (l.table.idxOf? (name, arity)).map (· % 65536)

/-- Give a function a slot, unless it already has one. -/
def assign (l : ClassLayout) (name : String) (arity : Nat) : ClassLayout :=
  if l.table.contains (name, arity) then l else { l with table := l.table ++ [(name, arity)] }

theorem tableIndex?_assign_self (l : ClassLayout) (name : String) (arity : Nat) :
    ((l.assign name arity).tableIndex? name arity).isSome := by
  unfold assign tableIndex?
  split
  · next h => simpa [List.isSome_idxOf?] using h
  · simp [List.isSome_idxOf?]

theorem assign_size_le (l : ClassLayout) (name : String) (arity : Nat) :
    (l.assign name arity).table.length ≤ l.table.length + 1 := by
  unfold assign
  split <;> simp

end ClassLayout

end Febc
