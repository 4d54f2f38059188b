import Mathlib
import Febc.Entity.Attribute

/-!
# The constant pool read as a list of entries

A pool means the list of its entries, the first at index one; its hash index only speeds up the
search. Read so, interning a constant answers the position of the constant in the list, counted
from one, or appends it when it is new and the list can still grow (`ConstantPool.internList`).

`ConstantPool.Refines p M` says that the pool `p` holds the list `M`: its entries are `M`, and its
index maps each listed constant to its position and knows no other constant. Every request of the
pool (a text, a string, a class, a field, a function, a number, the name of an attribute) and a
reset keep that relation, answering as the list does; the lists reached this way never repeat a
constant and only grow between resets.

Main statement: `pool_refines_entry_list`, over every sequence of requests and resets from an
empty pool.
-/

namespace Febc

namespace ConstantPool

/-- Interning on the list of entries alone: a listed constant answers its position, counted from
one; a new one is appended, unless the list already holds as many entries as an index can
count, which fails with the index the constant would have taken. -/
def internList (c : Constant) (M : List Constant) : Except Error Nat × List Constant :=
  if c ∈ M then (.ok (M.idxOf c + 1), M)
  else if maxIndex ≤ M.length then (.error (.poolOverflow c (M.length + 1)), M)
  else (.ok (M.length + 1), M ++ [c])

/-- The pool holds the list `M`: its entries are `M` in order, and its index answers the
position of every listed constant, counted from one, and of no other. -/
structure Refines (p : ConstantPool) (M : List Constant) : Prop where
  entries : p.entries.toList = M
  index : ∀ c, p.index[c]? = if c ∈ M then some (M.idxOf c + 1) else none

theorem refines_empty : ({} : ConstantPool).Refines [] :=
  ⟨rfl, fun c => by simp⟩

theorem refines_reset (p : ConstantPool) : p.reset.Refines [] := refines_empty

section Refines

variable {p : ConstantPool} {M : List Constant}

theorem Refines.size (refines : p.Refines M) : p.size = M.length := by
  rw [ConstantPool.size, ← Array.length_toList, refines.entries]

/-- The entry at an index is the list's, one place earlier; index zero names nothing. -/
theorem Refines.get? (refines : p.Refines M) (i : Nat) :
    p.get? i = if i = 0 then none else M[i - 1]? := by
  rw [ConstantPool.get?, ← Array.getElem?_toList, refines.entries]

/-- Appending a new constant at the end of both the entries and the index keeps the pool
holding the list. -/
theorem Refines.push {entries : Array Constant} {index : Std.HashMap Constant Nat}
    (refines : Refines ⟨entries, index⟩ M) {c : Constant} (fresh : c ∉ M) :
    Refines ⟨entries.push c, index.insert c (entries.size + 1)⟩ (M ++ [c]) := by
  have sized : entries.size = M.length := refines.size
  have listed : entries.toList = M := refines.entries
  refine ⟨by simp [listed], fun d => ?_⟩
  rw [Std.HashMap.getElem?_insert]
  by_cases same : c = d
  · subst same
    simp [List.idxOf_append_of_notMem fresh, sized]
  · rw [beq_false_of_ne same, if_neg (by simp), refines.index d]
    by_cases mem : d ∈ M
    · simp [mem, List.idxOf_append_of_mem mem]
    · simp [mem, Ne.symm same]

/-- Interning answers what the list answers, and the pool goes on holding the list. -/
theorem Refines.intern (refines : p.Refines M) (c : Constant) :
    (runStep (intern c) p).1 = (internList c M).1 ∧ (runStep (intern c) p).2.Refines (internList c M).2 := by
  obtain ⟨entries, index⟩ := p
  have sized : entries.size = M.length := refines.size
  have found := refines.index c
  simp only [runStep, ConstantPool.intern, ExceptT.run, ExceptT.mk, StateT.run]
  by_cases listed : c ∈ M
  · simp only [listed, if_true] at found
    simp [found, internList, listed, refines]
  · simp only [listed, if_false] at found
    simp only [found, internList, listed, if_false, sized]
    by_cases full : maxIndex ≤ M.length
    · rw [if_pos (by omega), if_pos full]
      exact ⟨rfl, refines⟩
    · rw [if_neg (by omega), if_neg full]
      exact ⟨rfl, sized ▸ refines.push listed⟩

end Refines

/-- Interning on the list never repeats a constant. -/
theorem nodup_internList {M : List Constant} (distinct : M.Nodup) (c : Constant) : (internList c M).2.Nodup := by
  unfold internList
  split
  · exact distinct
  · split
    · exact distinct
    · rename_i fresh _
      exact List.nodup_append.mpr ⟨distinct, List.nodup_cons.mpr ⟨List.not_mem_nil, List.nodup_nil⟩,
        fun a listed b same equal => fresh (by rw [List.mem_singleton] at same; subst same equal; exact listed)⟩

/-- Interning on the list only appends: every entry keeps its position. -/
theorem prefix_internList (M : List Constant) (c : Constant) : M <+: (internList c M).2 := by
  unfold internList
  split
  · exact List.prefix_refl M
  · split
    · exact List.prefix_refl M
    · exact List.prefix_append M [c]

end ConstantPool

/-- A request that interns one constant, one for each kind of entry. -/
inductive PoolRequest where
  | utf8 (text : String)
  | string (utf8 : Nat)
  | classRef (name : Nat)
  | field (owner descriptor name : Nat)
  | function (owner descriptor name tableIndex : Nat)
  | integer (v : Int32)
  | long (v : Int64)
  | float (bits : UInt32)
  | double (bits : UInt64)

namespace PoolRequest

open ConstantPool

/-- The constant a request interns. -/
def constant : PoolRequest → Constant
  | utf8 text => .utf8 text
  | string text => .string text
  | classRef name => .classRef name
  | field owner descriptor name => .field owner descriptor name
  | function owner descriptor name tableIndex => .function owner descriptor name tableIndex
  | integer v => .integer v
  | long v => .long v
  | float bits => .float bits
  | double bits => .double bits

/-- The error a request fails with before the pool is searched: a text too long to count. -/
def refused : PoolRequest → Option Error
  | utf8 text => if text.utf8ByteSize > maxTextBytes then some (.utf8TooLong text.utf8ByteSize) else none
  | _ => none

/-- What the pool does for a request. -/
def run : PoolRequest → PoolM Nat
  | utf8 text => internUtf8 text
  | string text => internString text
  | classRef name => internClass name
  | field owner descriptor name => internField owner descriptor name
  | function owner descriptor name tableIndex => internFunction owner descriptor name tableIndex
  | integer v => internInteger v
  | long v => internLong v
  | float bits => internFloat bits
  | double bits => internDouble bits

/-- The same request answered on the list of entries. -/
def onList (r : PoolRequest) (M : List Constant) : Except Error Nat × List Constant :=
  match r.refused with
  | some e => (.error e, M)
  | none => internList r.constant M

/-- Every request is a check of its text, then interning its constant. -/
theorem runStep_run (r : PoolRequest) (p : ConstantPool) :
    runStep r.run p = match r.refused with
      | some e => (.error e, p)
      | none => runStep (intern r.constant) p := by
  cases r with
  | utf8 text =>
    simp only [run, refused, internUtf8, constant]
    split <;> rfl
  | _ => rfl

/-- A request that fails leaves the pool exactly as it was. -/
theorem run_of_error (r : PoolRequest) (p : ConstantPool) {e : Error} (failed : (runStep r.run p).1 = .error e) :
    (runStep r.run p).2 = p := by
  rw [runStep_run] at failed ⊢
  split at failed
  · rfl
  · obtain ⟨entries, index⟩ := p
    simp only [runStep, intern, ExceptT.run, ExceptT.mk, StateT.run] at failed ⊢
    split at failed
    · cases failed
    · by_cases full : entries.size + 1 > maxIndex
      · simp only [full, if_true]
      · simp only [full, if_false] at failed
        cases failed

theorem nodup_onList {M : List Constant} (distinct : M.Nodup) (r : PoolRequest) : (r.onList M).2.Nodup := by
  unfold onList
  split
  · exact distinct
  · exact nodup_internList distinct r.constant

theorem prefix_onList (M : List Constant) (r : PoolRequest) : M <+: (r.onList M).2 := by
  unfold onList
  split
  · exact List.prefix_refl M
  · exact prefix_internList M r.constant

end PoolRequest

/-- An operation on a pool: a request, attaching code (which interns the attribute's name), or a
reset, which starts the pool of the next class. -/
inductive PoolOp where
  | request (r : PoolRequest)
  | attach (a : InstructionAttribute)
  | reset

namespace PoolOp

/-- The pool after an operation. -/
def apply : PoolOp → ConstantPool → ConstantPool
  | request r, p => (runStep r.run p).2
  | attach a, p => (runStep a.intern p).2
  | reset, p => p.reset

/-- The list after an operation. -/
def onList : PoolOp → List Constant → List Constant
  | request r, M => (r.onList M).2
  | attach _, M => ((PoolRequest.utf8 InstructionAttribute.name).onList M).2
  | reset, _ => []

theorem nodup_onList {M : List Constant} (distinct : M.Nodup) : ∀ op : PoolOp, (op.onList M).Nodup
  | request r => PoolRequest.nodup_onList distinct r
  | attach _ => PoolRequest.nodup_onList distinct _
  | reset => List.nodup_nil

theorem nodup_foldl {M : List Constant} (distinct : M.Nodup) (ops : List PoolOp) :
    (ops.foldl (fun M op => op.onList M) M).Nodup := by
  induction ops generalizing M with
  | nil => exact distinct
  | cons op ops ih => exact ih (nodup_onList distinct op)

end PoolOp

namespace ConstantPool.Refines

variable {p : ConstantPool} {M : List Constant}

/-- A request answers what the list answers, and the pool goes on holding the list. -/
theorem request (refines : p.Refines M) (r : PoolRequest) :
    (runStep r.run p).1 = (r.onList M).1 ∧ (runStep r.run p).2.Refines (r.onList M).2 := by
  rw [PoolRequest.runStep_run, PoolRequest.onList]
  split
  · exact ⟨rfl, refines⟩
  · exact refines.intern r.constant

/-- Attaching code answers the index its name has in the list, with the code's bytes. -/
theorem attach (refines : p.Refines M) (a : InstructionAttribute) :
    (runStep a.intern p).1 = ((PoolRequest.utf8 InstructionAttribute.name).onList M).1.map (⟨·, a.serialize⟩) ∧
      (runStep a.intern p).2.Refines ((PoolRequest.utf8 InstructionAttribute.name).onList M).2 := by
  have named : (runStep (internUtf8 InstructionAttribute.name) p).1 = _ ∧
      (runStep (internUtf8 InstructionAttribute.name) p).2.Refines _ :=
    refines.request (.utf8 InstructionAttribute.name)
  unfold InstructionAttribute.intern
  rw [runStep_bind]
  revert named
  generalize runStep (internUtf8 InstructionAttribute.name) p = q
  obtain ⟨_ | i, p'⟩ := q
  · rintro ⟨answer, refines'⟩
    exact ⟨by simp [← answer, Except.map], refines'⟩
  · rintro ⟨answer, refines'⟩
    exact ⟨by simp [← answer, runStep_pure, Except.map], refines'⟩

/-- One operation: the pool goes on holding the list. -/
theorem apply (refines : p.Refines M) : ∀ op : PoolOp, (op.apply p).Refines (op.onList M)
  | .request r => (refines.request r).2
  | .attach a => (refines.attach a).2
  | .reset => refines_reset p

/-- A run of operations: the pool goes on holding the list. -/
theorem foldl (refines : p.Refines M) (ops : List PoolOp) :
    (ops.foldl (fun p op => op.apply p) p).Refines (ops.foldl (fun M op => op.onList M) M) := by
  induction ops generalizing p M with
  | nil => exact refines
  | cons op ops ih => exact ih (refines.apply op)

end ConstantPool.Refines

open PoolOp in
/-- The pool is the list of its entries. After any sequence of requests, attachments and resets
from an empty pool, the pool holds the list the same sequence builds (its entries, its size,
the entry at each index, with nothing at index zero or past the end, and an index that agrees
with the entries), that list never repeats a constant, and the next request answers what the
list answers: the position of a listed constant, counted from one; for a new one, an overflow
that names it and the index it would take, or its appended position; a text too long to count
fails first. A request that fails leaves the pool as it was, and one that succeeds keeps every
entry where it was. -/
theorem pool_refines_entry_list (ops : List PoolOp) :
    let p := ops.foldl (fun p op => op.apply p) {}
    let M := ops.foldl (fun M op => op.onList M) []
    p.entries.toList = M ∧ p.size = M.length ∧
      (∀ i, p.get? i = if i = 0 then none else M[i - 1]?) ∧
      (∀ c : Constant, p.index[c]? = if c ∈ M then some (M.idxOf c + 1) else none) ∧ M.Nodup ∧
      (∀ r : PoolRequest, (runStep r.run p).1 = (r.onList M).1 ∧
        (∀ e, (runStep r.run p).1 = .error e → (runStep r.run p).2 = p) ∧
        p.entries.toList <+: (runStep r.run p).2.entries.toList) ∧
      ∀ a : InstructionAttribute, (runStep a.intern p).1 =
        ((PoolRequest.utf8 InstructionAttribute.name).onList M).1.map (⟨·, a.serialize⟩) := by
  intro p M
  have refines : p.Refines M := ConstantPool.refines_empty.foldl ops
  refine ⟨refines.entries, refines.size, refines.get?, refines.index, nodup_foldl List.nodup_nil ops,
    fun r => ⟨(refines.request r).1, fun e => PoolRequest.run_of_error r p, ?_⟩, fun a => (refines.attach a).1⟩
  rw [refines.entries, (refines.request r).2.entries]
  exact PoolRequest.prefix_onList M r

end Febc
