import Febc.Proofs.PoolList
import Febc.Entity.Reference

/-!
# Interning tells references apart

A descriptor is written as text: a base type is one letter, an object type is `@`, the class
name and `;`, and a function is its parameters between parentheses followed by its result or
`v`. Class names hold no `;` once they pass the name check, so a type's text ends at its first
`;` or after its one letter, and no type's text starts with `)` or `v`: the texts form a
prefix-free code, and a descriptor can be read back from its text.

A reference is interned through the texts of its parts, so the pool tells two references apart
only through those texts and the indices they get. Read back from the entries of a pool, the
entry at the index a reference gets names the reference's class, descriptor text, name and
slot; in a pool that never repeats a constant, no two indices read back the same way.

Main statements:
* `FunctionDescriptor.render_inj`, `FieldType.render_inj`: valid descriptors with the same text
  are the same;
* `references_intern_injectively`: in every pool a sequence of requests can build, interning two
  references, with any other requests but no reset in between, answers the same index exactly
  when the references are the same.
-/

namespace Febc

/-! ## Class names -/

/-- A character that is not a slash lies in one of the segments the slashes cut a list into. -/
theorem exists_segment_of_mem {c : Char} (other : c ≠ '/') :
    ∀ {l : List Char}, c ∈ l → ∃ seg ∈ l.splitOnP (· == '/'), c ∈ seg
  | [], mem => absurd mem List.not_mem_nil
  | x :: xs, mem => by
    rw [List.splitOnP_cons_eq_if_modifyHead]
    obtain ⟨first, rest, split⟩ := List.exists_cons_of_ne_nil (List.splitOnP_ne_nil (· == '/') xs)
    rcases List.mem_cons.mp mem with rfl | later
    · rw [if_neg (by simpa using other), split, List.modifyHead_cons]
      exact ⟨c :: first, List.mem_cons_self, List.mem_cons_self⟩
    · obtain ⟨seg, found, inside⟩ := exists_segment_of_mem other later
      rw [split] at found
      split
      · exact ⟨seg, List.mem_cons_of_mem _ (split ▸ found), inside⟩
      · rw [split, List.modifyHead_cons]
        rcases List.mem_cons.mp found with rfl | beyond
        · exact ⟨x :: seg, List.mem_cons_self, List.mem_cons_of_mem _ inside⟩
        · exact ⟨seg, List.mem_cons_of_mem _ beyond, inside⟩

/-- A binary name holds no punctuation but its slashes. -/
theorem punctuation_of_checkBinary {text : String} (valid : checkBinary text = .ok ()) {c : Char}
    (mem : c ∈ text.toList) (other : c ≠ '/') : isNamePunctuation c = false := by
  obtain ⟨-, segments⟩ := (checkBinary_eq_ok_iff text).mp valid
  obtain ⟨seg, found, inside⟩ := exists_segment_of_mem other mem
  have checked := segments (String.ofList seg) (by
    rw [slashSegments, String.splitToList_of_valid]
    exact List.mem_map_of_mem found)
  exact ((checkUnqualified_eq_ok_iff _).mp checked).1 c (by rwa [String.toList_ofList])

/-! ## Descriptor texts -/

/-- A list cut at the first occurrence of a separator absent from both fronts. -/
theorem append_cons_cancel {α : Type} {a : α} :
    ∀ {xs ys r₁ r₂ : List α}, a ∉ xs → a ∉ ys → xs ++ a :: r₁ = ys ++ a :: r₂ → xs = ys ∧ r₁ = r₂
  | [], [], _, _, _, _, same => ⟨rfl, by simpa using same⟩
  | [], y :: ys, _, _, _, absent, same => by
    simp only [List.nil_append, List.cons_append, List.cons.injEq] at same
    exact absurd (same.1 ▸ List.mem_cons_self) absent
  | x :: xs, [], _, _, absent, _, same => by
    simp only [List.nil_append, List.cons_append, List.cons.injEq] at same
    exact absurd (same.1 ▸ List.mem_cons_self) absent
  | x :: xs, y :: ys, _, _, absentX, absentY, same => by
    simp only [List.cons_append, List.cons.injEq] at same
    obtain ⟨rfl, rest⟩ := same
    obtain ⟨rfl, tails⟩ := append_cons_cancel (fun mem => absentX (List.mem_cons_of_mem _ mem))
      (fun mem => absentY (List.mem_cons_of_mem _ mem)) rest
    exact ⟨rfl, tails⟩

namespace BaseType

theorem letter_injective : Function.Injective letter := by
  intro a b
  cases a <;> cases b <;> decide

/-- No base type is written with a character that opens or closes anything else. -/
theorem letter_ne (b : BaseType) : b.letter ≠ '@' ∧ b.letter ≠ ')' ∧ b.letter ≠ 'v' := by
  cases b <;> decide

end BaseType

namespace FieldType

/-- The class of an object type, if any, is a valid binary name. -/
def Valid : FieldType → Prop
  | .base _ => True
  | .object cls => checkBinary cls.text = .ok ()

@[simp] theorem toList_render_base (b : BaseType) : (FieldType.base b).render.toList = [b.letter] := by
  simp [render]

@[simp] theorem toList_render_object (cls : BinaryName) :
    (FieldType.object cls).render.toList = '@' :: (cls.text.toList ++ [';']) := by
  simp [render]

/-- The text of a type starts with its letter or with `@`, never with `)` or `v`. -/
theorem render_head (t : FieldType) :
    ∃ c rest, t.render.toList = c :: rest ∧ c ≠ ')' ∧ c ≠ 'v' := by
  cases t with
  | base b => exact ⟨b.letter, [], toList_render_base b, (b.letter_ne).2.1, (b.letter_ne).2.2⟩
  | object cls => exact ⟨'@', _, toList_render_object cls, by decide, by decide⟩

/-- Types are a prefix-free code: the text of a valid type is never a proper prefix of the text of
another, so a text that starts with one determines it and what follows it. -/
theorem render_append_inj {t₁ t₂ : FieldType} (valid₁ : t₁.Valid) (valid₂ : t₂.Valid) {r₁ r₂ : List Char}
    (same : t₁.render.toList ++ r₁ = t₂.render.toList ++ r₂) : t₁ = t₂ ∧ r₁ = r₂ := by
  cases t₁ with
  | base b₁ =>
    cases t₂ with
    | base b₂ =>
      simp only [toList_render_base, List.singleton_append, List.cons.injEq] at same
      exact ⟨congrArg base (BaseType.letter_injective same.1), same.2⟩
    | object cls₂ =>
      simp only [toList_render_base, toList_render_object, List.cons_append, List.cons.injEq] at same
      exact absurd same.1 (b₁.letter_ne).1
  | object cls₁ =>
    cases t₂ with
    | base b₂ =>
      simp only [toList_render_base, toList_render_object, List.cons_append, List.cons.injEq] at same
      exact absurd same.1.symm (b₂.letter_ne).1
    | object cls₂ =>
      -- a valid class name holds no `;`, so the first `;` ends both names
      have absent : ∀ {cls : BinaryName}, checkBinary cls.text = .ok () → ';' ∉ cls.text.toList :=
        fun valid mem => absurd (punctuation_of_checkBinary valid mem (by decide)) (by decide)
      simp only [toList_render_object, List.cons_append, List.append_assoc, List.cons.injEq, true_and] at same
      obtain ⟨names, rests⟩ := append_cons_cancel (absent valid₁) (absent valid₂) same
      have sameName : cls₁ = cls₂ := by
        obtain ⟨text₁⟩ := cls₁
        obtain ⟨text₂⟩ := cls₂
        simpa [String.toList_inj] using names
      exact ⟨congrArg object sameName, rests⟩

theorem render_inj {t₁ t₂ : FieldType} (valid₁ : t₁.Valid) (valid₂ : t₂.Valid) :
    t₁.render = t₂.render ↔ t₁ = t₂ := by
  refine ⟨fun same => ?_, congrArg render⟩
  have lists : t₁.render.toList ++ [] = t₂.render.toList ++ [] := by rw [same]
  exact (render_append_inj valid₁ valid₂ lists).1

end FieldType

namespace FunctionDescriptor

/-- Every parameter and the result, if any, are valid types. -/
def Valid (d : FunctionDescriptor) : Prop :=
  (∀ t ∈ d.params, t.Valid) ∧ ∀ t ∈ d.ret, t.Valid

/-- The text of the result: `v` for none. -/
def retText : Option FieldType → List Char
  | none => ['v']
  | some t => t.render.toList

theorem toList_render (d : FunctionDescriptor) :
    d.render.toList = '(' :: ((d.params.map fun t => t.render.toList).flatten ++ ')' :: retText d.ret) := by
  obtain ⟨params, ret⟩ := d
  cases ret <;> simp [render, retText, String.toList_join, List.flatMap, Function.comp_def]

/-- Parameter lists followed by `)` are read back one type at a time. -/
theorem params_append_inj :
    ∀ {ps₁ ps₂ : List FieldType}, (∀ t ∈ ps₁, t.Valid) → (∀ t ∈ ps₂, t.Valid) → ∀ {r₁ r₂ : List Char},
      (ps₁.map fun t => t.render.toList).flatten ++ ')' :: r₁ =
        (ps₂.map fun t => t.render.toList).flatten ++ ')' :: r₂ → ps₁ = ps₂ ∧ r₁ = r₂
  | [], [], _, _, _, _, same => ⟨rfl, by simpa using same⟩
  | [], t :: ps, _, _, _, _, same => by
    obtain ⟨c, rest, written, notClose, -⟩ := t.render_head
    simp only [List.map_nil, List.flatten_nil, List.nil_append, List.map_cons, List.flatten_cons,
      written, List.cons_append, List.append_assoc, List.cons.injEq] at same
    exact absurd same.1.symm notClose
  | t :: ps, [], _, _, _, _, same => by
    obtain ⟨c, rest, written, notClose, -⟩ := t.render_head
    simp only [List.map_nil, List.flatten_nil, List.nil_append, List.map_cons, List.flatten_cons,
      written, List.cons_append, List.append_assoc, List.cons.injEq] at same
    exact absurd same.1 notClose
  | t₁ :: ps₁, t₂ :: ps₂, valid₁, valid₂, _, _, same => by
    simp only [List.map_cons, List.flatten_cons, List.append_assoc] at same
    obtain ⟨rfl, rests⟩ := FieldType.render_append_inj (valid₁ t₁ List.mem_cons_self)
      (valid₂ t₂ List.mem_cons_self) same
    obtain ⟨rfl, tails⟩ := params_append_inj (fun t mem => valid₁ t (List.mem_cons_of_mem _ mem))
      (fun t mem => valid₂ t (List.mem_cons_of_mem _ mem)) rests
    exact ⟨rfl, tails⟩

theorem retText_inj {r₁ r₂ : Option FieldType} (valid₁ : ∀ t ∈ r₁, t.Valid) (valid₂ : ∀ t ∈ r₂, t.Valid)
    (same : retText r₁ = retText r₂) : r₁ = r₂ := by
  cases r₁ with
  | none =>
    cases r₂ with
    | none => rfl
    | some t =>
      obtain ⟨c, rest, written, -, notV⟩ := t.render_head
      simp only [retText, written, List.cons.injEq] at same
      exact absurd same.1.symm notV
  | some t₁ =>
    cases r₂ with
    | none =>
      obtain ⟨c, rest, written, -, notV⟩ := t₁.render_head
      simp only [retText, written, List.cons.injEq] at same
      exact absurd same.1 notV
    | some t₂ =>
      rw [FieldType.render_inj (valid₁ t₁ rfl) (valid₂ t₂ rfl) |>.mp (String.toList_inj.mp same)]

/-- Valid descriptors with the same text are the same descriptor. -/
theorem render_inj {d₁ d₂ : FunctionDescriptor} (valid₁ : d₁.Valid) (valid₂ : d₂.Valid) :
    d₁.render = d₂.render ↔ d₁ = d₂ := by
  refine ⟨fun same => ?_, congrArg render⟩
  have lists := congrArg String.toList same
  rw [toList_render, toList_render, List.cons.injEq] at lists
  obtain ⟨params, rets⟩ := params_append_inj valid₁.1 valid₂.1 lists.2
  have ret := retText_inj valid₁.2 valid₂.2 rets
  obtain ⟨_, _⟩ := d₁
  obtain ⟨_, _⟩ := d₂
  simp_all

end FunctionDescriptor

/-! ## Reading entries back -/

/-- The entry a literal interns to, given the index `u` of its text if it is a string: a string
entry over the text, or the number with its bits. -/
def ConstantData.entry (u : Nat) : ConstantData → Constant
  | .string _ => .string u
  | .integer v => .integer v
  | .long v => .long v
  | .float bits => .float bits
  | .double bits => .double bits

/-- Two literals with the same entry are the same number, or strings over the same text entry. -/
theorem ConstantData.entry_inj {u u' : Nat} {v v' : ConstantData} (same : v.entry u = v'.entry u') :
    (∃ s s', v = .string s ∧ v' = .string s' ∧ u = u') ∨ v = v' := by
  cases v <;> cases v' <;> simp_all [ConstantData.entry]

namespace ConstantPool

/-- The entry a one-based index names in a list of entries; index zero names nothing. -/
def entryAt (M : List Constant) (i : Nat) : Option Constant :=
  if i = 0 then none else M[i - 1]?

/-- The entry at `i` is the text `s`, which a two-byte length can count. -/
def TextAt (M : List Constant) (i : Nat) (s : String) : Prop :=
  entryAt M i = some (.utf8 s) ∧ s.utf8ByteSize ≤ maxTextBytes

/-- The entry at `i` is the class named by the text `name`. -/
def ClassAt (M : List Constant) (i : Nat) (name : String) : Prop :=
  ∃ u, entryAt M i = some (.classRef u) ∧ TextAt M u name

/-- The entries at `o`, `d` and `n` are the parts of a member reference: the class named `owner`,
and the texts `descriptor` and `name`. -/
def PartsAt (M : List Constant) (o d n : Nat) (owner descriptor name : String) : Prop :=
  ClassAt M o owner ∧ TextAt M d descriptor ∧ TextAt M n name

/-- The entry at `i` is the field reference `r`: its class, the text of its type and its name. -/
def FieldAt (M : List Constant) (i : Nat) (r : FieldRef) : Prop :=
  ∃ o d n, entryAt M i = some (.field o d n) ∧ PartsAt M o d n r.owner.text r.descriptor.render r.name

/-- The entry at `i` is the function reference `r`: its class, the text of its descriptor, its
name and its slot. -/
def FunctionAt (M : List Constant) (i : Nat) (r : FunctionRef) : Prop :=
  ∃ o d n, entryAt M i = some (.function o d n r.tableIndex) ∧
    PartsAt M o d n r.owner.text r.descriptor.render r.name

/-- The entry at `i` is the literal `v`: a string over the text at `u`, or a number with its bits. -/
def LiteralAt (M : List Constant) (i : Nat) (v : ConstantData) : Prop :=
  ∃ u, entryAt M i = some (v.entry u) ∧ ∀ s, v = .string s → TextAt M u s

section Reading

variable {M M' : List Constant} {i o d n u : Nat} {c : Constant}

theorem entryAt_of_grown (grown : M <+: M') (found : entryAt M i = some c) : entryAt M' i = some c := by
  unfold entryAt at found ⊢
  split at found
  · cases found
  · rename_i nonzero
    rw [if_neg nonzero]
    obtain ⟨below, rfl⟩ := List.getElem?_eq_some_iff.mp found
    exact List.prefix_iff_getElem?.mp grown _ below

/-- What interning on the list answers is the index of the constant in the list it leaves. -/
theorem entryAt_internList (answered : (internList c M).1 = .ok u) : entryAt (internList c M).2 u = some c := by
  unfold internList at answered ⊢
  by_cases mem : c ∈ M
  · simp only [mem, if_true, Except.ok.injEq] at answered ⊢
    subst answered
    simp only [entryAt, Nat.add_one_ne_zero, if_false, Nat.add_sub_cancel]
    exact List.getElem?_eq_some_iff.mpr ⟨List.idxOf_lt_length_iff.mpr mem, List.getElem_idxOf _⟩
  · simp only [mem, if_false] at answered ⊢
    by_cases full : maxIndex ≤ M.length
    · simp only [full, if_true] at answered
      cases answered
    · simp only [full, if_false, Except.ok.injEq] at answered ⊢
      subst answered
      simp [entryAt]

/-- In a list without repeats, interning a constant found at an index answers that index. -/
theorem internList_of_entryAt (distinct : M.Nodup) (found : entryAt M u = some c) :
    internList c M = (.ok u, M) := by
  unfold entryAt at found
  split at found
  · cases found
  · rename_i nonzero
    obtain ⟨below, listed⟩ := List.getElem?_eq_some_iff.mp found
    have mem : c ∈ M := listed ▸ List.getElem_mem below
    have position : M.idxOf c = u - 1 := listed ▸ distinct.idxOf_getElem (u - 1) below
    simp only [internList, mem, if_true, position]
    congr
    omega

theorem TextAt.mono {s : String} (text : TextAt M i s) (grown : M <+: M') : TextAt M' i s :=
  ⟨entryAt_of_grown grown text.1, text.2⟩

theorem ClassAt.mono {name : String} (cls : ClassAt M i name) (grown : M <+: M') : ClassAt M' i name := by
  obtain ⟨u, entry, text⟩ := cls
  exact ⟨u, entryAt_of_grown grown entry, text.mono grown⟩

theorem PartsAt.mono {a b e : String} (parts : PartsAt M o d n a b e) (grown : M <+: M') :
    PartsAt M' o d n a b e :=
  ⟨parts.1.mono grown, parts.2.1.mono grown, parts.2.2.mono grown⟩

theorem FieldAt.mono {r : FieldRef} (field : FieldAt M i r) (grown : M <+: M') : FieldAt M' i r := by
  obtain ⟨o, d, n, entry, parts⟩ := field
  exact ⟨o, d, n, entryAt_of_grown grown entry, parts.mono grown⟩

theorem FunctionAt.mono {r : FunctionRef} (function : FunctionAt M i r) (grown : M <+: M') :
    FunctionAt M' i r := by
  obtain ⟨o, d, n, entry, parts⟩ := function
  exact ⟨o, d, n, entryAt_of_grown grown entry, parts.mono grown⟩

theorem LiteralAt.mono {v : ConstantData} (literal : LiteralAt M i v) (grown : M <+: M') : LiteralAt M' i v := by
  obtain ⟨u, entry, text⟩ := literal
  exact ⟨u, entryAt_of_grown grown entry, fun s named => (text s named).mono grown⟩

/-! An index reads back one way only. -/

theorem TextAt.unique {s s' : String} (text : TextAt M i s) (text' : TextAt M i s') : s = s' := by
  have same := text.1.symm.trans text'.1
  simpa using same

theorem ClassAt.unique {a a' : String} (cls : ClassAt M i a) (cls' : ClassAt M i a') : a = a' := by
  obtain ⟨u, entry, text⟩ := cls
  obtain ⟨u', entry', text'⟩ := cls'
  have same : u = u' := by simpa using entry.symm.trans entry'
  exact text.unique (same ▸ text')

theorem PartsAt.unique {a b e a' b' e' : String} (parts : PartsAt M o d n a b e)
    (parts' : PartsAt M o d n a' b' e') : a = a' ∧ b = b' ∧ e = e' :=
  ⟨parts.1.unique parts'.1, parts.2.1.unique parts'.2.1, parts.2.2.unique parts'.2.2⟩

theorem FieldAt.unique {r r' : FieldRef} (field : FieldAt M i r) (field' : FieldAt M i r') :
    r.owner = r'.owner ∧ r.descriptor.render = r'.descriptor.render ∧ r.name = r'.name := by
  obtain ⟨o, d, n, entry, parts⟩ := field
  obtain ⟨o', d', n', entry', parts'⟩ := field'
  have same := entry.symm.trans entry'
  simp only [Option.some.injEq, Constant.field.injEq] at same
  obtain ⟨rfl, rfl, rfl⟩ := same
  obtain ⟨owners, texts, names⟩ := parts.unique parts'
  exact ⟨by cases h : r.owner; cases h' : r'.owner; simp_all, texts, names⟩

theorem FunctionAt.unique {r r' : FunctionRef} (function : FunctionAt M i r) (function' : FunctionAt M i r') :
    r.owner = r'.owner ∧ r.descriptor.render = r'.descriptor.render ∧ r.name = r'.name ∧
      r.tableIndex = r'.tableIndex := by
  obtain ⟨o, d, n, entry, parts⟩ := function
  obtain ⟨o', d', n', entry', parts'⟩ := function'
  have same := entry.symm.trans entry'
  simp only [Option.some.injEq, Constant.function.injEq] at same
  obtain ⟨rfl, rfl, rfl, slots⟩ := same
  obtain ⟨owners, texts, names⟩ := parts.unique parts'
  exact ⟨by cases h : r.owner; cases h' : r'.owner; simp_all, texts, names, slots⟩

theorem LiteralAt.unique {v v' : ConstantData} (literal : LiteralAt M i v) (literal' : LiteralAt M i v') :
    v = v' := by
  obtain ⟨u, entry, text⟩ := literal
  obtain ⟨u', entry', text'⟩ := literal'
  have same : v.entry u = v'.entry u' := by simpa using entry.symm.trans entry'
  rcases ConstantData.entry_inj same with ⟨s, s', rfl, rfl, rfl⟩ | equal
  · rw [(text s rfl).unique (text' s' rfl)]
  · exact equal

end Reading

/-! ## Pools that never repeat a constant -/

/-- The pool holds the list `M` of its entries, which never repeats a constant. -/
structure Holds (p : ConstantPool) (M : List Constant) : Prop where
  refines : p.Refines M
  distinct : M.Nodup

theorem mem_of_entryAt {M : List Constant} {u : Nat} {c : Constant} (found : entryAt M u = some c) : c ∈ M := by
  unfold entryAt at found
  split at found
  · cases found
  · exact List.mem_of_getElem? found

theorem refused_utf8 (s : String) : (PoolRequest.utf8 s).refused = none ↔ s.utf8ByteSize ≤ maxTextBytes := by
  simp [PoolRequest.refused]

section Holds

variable {p p' : ConstantPool} {M : List Constant}

/-- Interning a constant that answers an index leaves a pool holding a longer list, with the
constant at that index. -/
theorem Holds.internConstant (holds : p.Holds M) (c : Constant) {u : Nat}
    (ran : runStep (intern c) p = (.ok u, p')) : ∃ M', p'.Holds M' ∧ M <+: M' ∧ entryAt M' u = some c := by
  obtain ⟨answer, refines⟩ := holds.refines.intern c
  rw [ran] at answer refines
  exact ⟨_, ⟨refines, nodup_internList holds.distinct c⟩, prefix_internList M c, entryAt_internList answer.symm⟩

/-- Interning a constant the list already holds answers its index and changes nothing. -/
theorem Holds.constantFound (holds : p.Holds M) {c : Constant} {u : Nat} (present : entryAt M u = some c) :
    runStep (intern c) p = (.ok u, p) := by
  have mem := mem_of_entryAt present
  have listed := internList_of_entryAt holds.distinct present
  simp only [internList, mem, if_true, Prod.mk.injEq, Except.ok.injEq, and_true] at listed
  apply intern_of_index
  rw [holds.refines.index, if_pos mem, listed]

/-- A request that answers an index was not refused, and interned its constant there. -/
theorem Holds.request (holds : p.Holds M) (r : PoolRequest) {u : Nat} (ran : runStep r.run p = (.ok u, p')) :
    ∃ M', p'.Holds M' ∧ M <+: M' ∧ entryAt M' u = some r.constant ∧ r.refused = none := by
  rw [PoolRequest.runStep_run] at ran
  cases refusal : r.refused with
  | some e => simp [refusal] at ran
  | none =>
    simp only [refusal] at ran
    obtain ⟨M', holds', grown, entry⟩ := holds.internConstant r.constant ran
    exact ⟨M', holds', grown, entry, rfl⟩

theorem Holds.found (holds : p.Holds M) (r : PoolRequest) (accepted : r.refused = none) {u : Nat}
    (present : entryAt M u = some r.constant) : runStep r.run p = (.ok u, p) := by
  rw [PoolRequest.runStep_run, accepted]
  exact holds.constantFound present

theorem Holds.internClass (holds : p.Holds M) {name : BinaryName} {o : Nat}
    (ran : runStep name.intern p = (.ok o, p')) : ∃ M', p'.Holds M' ∧ M <+: M' ∧ ClassAt M' o name.text := by
  obtain ⟨u, p₁, ran₁, ran₂⟩ := runStep_bind_eq_ok ran
  obtain ⟨M₁, holds₁, grown₁, text, short⟩ := holds.request (.utf8 name.text) ran₁
  obtain ⟨M₂, holds₂, grown₂, entry, -⟩ := holds₁.request (.classRef u) ran₂
  exact ⟨M₂, holds₂, grown₁.trans grown₂, u, entry,
    entryAt_of_grown grown₂ text, (refused_utf8 _).mp short⟩

theorem Holds.classFound (holds : p.Holds M) {name : BinaryName} {o : Nat} (cls : ClassAt M o name.text) :
    runStep name.intern p = (.ok o, p) := by
  obtain ⟨u, entry, text, short⟩ := cls
  have named : runStep (internUtf8 name.text) p = (.ok u, p) :=
    holds.found (.utf8 name.text) ((refused_utf8 _).mpr short) text
  unfold BinaryName.intern
  rw [runStep_bind_of_ok named]
  exact holds.found (.classRef u) rfl entry

/-- A text interned on the way to a reference, kept as the list grows. -/
theorem Holds.internText (holds : p.Holds M) {s : String} {u : Nat}
    (ran : runStep (internUtf8 s) p = (.ok u, p')) : ∃ M', p'.Holds M' ∧ M <+: M' ∧ TextAt M' u s := by
  obtain ⟨M', holds', grown, entry, short⟩ := holds.request (.utf8 s) ran
  exact ⟨M', holds', grown, entry, (refused_utf8 _).mp short⟩

theorem Holds.textFound (holds : p.Holds M) {s : String} {u : Nat} (text : TextAt M u s) :
    runStep (internUtf8 s) p = (.ok u, p) :=
  holds.found (.utf8 s) ((refused_utf8 _).mpr text.2) text.1

/-- The class and the two texts of a member reference, interned in turn. -/
theorem Holds.internParts (holds : p.Holds M) {owner : BinaryName} {descriptor name : String}
    {k : Nat → Nat → Nat → PoolM Nat} {i : Nat}
    (ran : runStep (do
      let o ← owner.intern
      let d ← internUtf8 descriptor
      let n ← internUtf8 name
      k o d n) p = (.ok i, p')) :
    ∃ o d n M₃ p₃, p₃.Holds M₃ ∧ M <+: M₃ ∧ PartsAt M₃ o d n owner.text descriptor name ∧
      runStep (k o d n) p₃ = (.ok i, p') := by
  obtain ⟨o, p₁, ran₁, rest₁⟩ := runStep_bind_eq_ok ran
  obtain ⟨d, p₂, ran₂, rest₂⟩ := runStep_bind_eq_ok rest₁
  obtain ⟨n, p₃, ran₃, ran₄⟩ := runStep_bind_eq_ok rest₂
  obtain ⟨M₁, holds₁, grown₁, cls⟩ := holds.internClass ran₁
  obtain ⟨M₂, holds₂, grown₂, text₂⟩ := holds₁.internText ran₂
  obtain ⟨M₃, holds₃, grown₃, text₃⟩ := holds₂.internText ran₃
  exact ⟨o, d, n, M₃, p₃, holds₃, grown₁.trans (grown₂.trans grown₃),
    ⟨cls.mono (grown₂.trans grown₃), text₂.mono grown₃, text₃⟩, ran₄⟩

theorem Holds.partsFound (holds : p.Holds M) {owner : BinaryName} {descriptor name : String}
    {o d n : Nat} (parts : PartsAt M o d n owner.text descriptor name) (k : Nat → Nat → Nat → PoolM Nat) :
    runStep (do
      let o ← owner.intern
      let d ← internUtf8 descriptor
      let n ← internUtf8 name
      k o d n) p = runStep (k o d n) p := by
  rw [runStep_bind_of_ok (holds.classFound parts.1), runStep_bind_of_ok (holds.textFound parts.2.1),
    runStep_bind_of_ok (holds.textFound parts.2.2)]

theorem Holds.internFunction (holds : p.Holds M) {r : FunctionRef} {i : Nat}
    (ran : runStep r.intern p = (.ok i, p')) : ∃ M', p'.Holds M' ∧ M <+: M' ∧ FunctionAt M' i r := by
  obtain ⟨o, d, n, M₃, p₃, holds₃, grown₃, parts, ran₄⟩ := holds.internParts ran
  obtain ⟨M₄, holds₄, grown₄, entry, -⟩ := holds₃.request (.function o d n r.tableIndex) ran₄
  exact ⟨M₄, holds₄, grown₃.trans grown₄, o, d, n, entry, parts.mono grown₄⟩

theorem Holds.functionFound (holds : p.Holds M) {r : FunctionRef} {i : Nat} (function : FunctionAt M i r) :
    runStep r.intern p = (.ok i, p) := by
  obtain ⟨o, d, n, entry, parts⟩ := function
  rw [FunctionRef.intern, holds.partsFound parts]
  exact holds.found (.function o d n r.tableIndex) rfl entry

theorem Holds.internField (holds : p.Holds M) {r : FieldRef} {i : Nat}
    (ran : runStep r.intern p = (.ok i, p')) : ∃ M', p'.Holds M' ∧ M <+: M' ∧ FieldAt M' i r := by
  obtain ⟨o, d, n, M₃, p₃, holds₃, grown₃, parts, ran₄⟩ := holds.internParts ran
  obtain ⟨M₄, holds₄, grown₄, entry, -⟩ := holds₃.request (.field o d n) ran₄
  exact ⟨M₄, holds₄, grown₃.trans grown₄, o, d, n, entry, parts.mono grown₄⟩

theorem Holds.fieldFound (holds : p.Holds M) {r : FieldRef} {i : Nat} (field : FieldAt M i r) :
    runStep r.intern p = (.ok i, p) := by
  obtain ⟨o, d, n, entry, parts⟩ := field
  rw [FieldRef.intern, holds.partsFound parts]
  exact holds.found (.field o d n) rfl entry

/-- A number interns its own entry, whatever text index it is read with. -/
theorem ConstantData.intern_number {v : ConstantData} (number : ∀ s, v ≠ .string s) (u : Nat) :
    v.intern = ConstantPool.intern (v.entry u) := by
  cases v with
  | string s => exact absurd rfl (number s)
  | integer | long | float | double => rfl

theorem Holds.internLiteral (holds : p.Holds M) {v : ConstantData} {i : Nat}
    (ran : runStep v.intern p = (.ok i, p')) : ∃ M', p'.Holds M' ∧ M <+: M' ∧ LiteralAt M' i v := by
  by_cases text : ∃ s, v = .string s
  · obtain ⟨s, rfl⟩ := text
    obtain ⟨u, p₁, ran₁, ran₂⟩ := runStep_bind_eq_ok ran
    obtain ⟨M₁, holds₁, grown₁, text⟩ := holds.internText ran₁
    obtain ⟨M₂, holds₂, grown₂, entry, -⟩ := holds₁.request (.string u) ran₂
    exact ⟨M₂, holds₂, grown₁.trans grown₂, u, entry, fun s' same => by cases same; exact text.mono grown₂⟩
  · have number : ∀ s, v ≠ .string s := fun s same => text ⟨s, same⟩
    rw [ConstantData.intern_number number 0] at ran
    obtain ⟨M', holds', grown, entry⟩ := holds.internConstant _ ran
    exact ⟨M', holds', grown, 0, entry, fun s same => absurd same (number s)⟩

theorem Holds.literalFound (holds : p.Holds M) {v : ConstantData} {i : Nat} (literal : LiteralAt M i v) :
    runStep v.intern p = (.ok i, p) := by
  obtain ⟨u, entry, text⟩ := literal
  by_cases str : ∃ s, v = .string s
  · obtain ⟨s, rfl⟩ := str
    rw [ConstantData.intern, runStep_bind_of_ok (holds.textFound (text s rfl))]
    exact holds.found (.string u) rfl entry
  · rw [ConstantData.intern_number (fun s same => str ⟨s, same⟩) u]
    exact holds.constantFound entry

/-- An operation other than a reset keeps the pool holding a list without repeats, and only
lengthens the list. -/
theorem Holds.apply (holds : p.Holds M) {op : PoolOp} (kept : op ≠ .reset) :
    (op.apply p).Holds (op.onList M) ∧ M <+: op.onList M := by
  refine ⟨⟨holds.refines.apply op, PoolOp.nodup_onList holds.distinct op⟩, ?_⟩
  cases op with
  | request r => exact PoolRequest.prefix_onList M r
  | attach a => exact PoolRequest.prefix_onList M _
  | reset => exact absurd rfl kept

end Holds

end ConstantPool

namespace PoolOp

/-- The pool after a sequence of operations. -/
def runAll (ops : List PoolOp) (p : ConstantPool) : ConstantPool :=
  ops.foldl (fun p op => op.apply p) p

/-- The list of entries after a sequence of operations. -/
def listAll (ops : List PoolOp) (M : List Constant) : List Constant :=
  ops.foldl (fun M op => op.onList M) M

end PoolOp

namespace ConstantPool

open PoolOp

/-- Every pool that a sequence of operations builds from an empty pool holds the list the same
operations build, which never repeats a constant. -/
theorem holds_reached (ops : List PoolOp) : (runAll ops {}).Holds (listAll ops []) :=
  ⟨refines_empty.foldl ops, nodup_foldl List.nodup_nil ops⟩

section Twice

variable {p : ConstantPool} {M : List Constant}

/-- Operations without a reset keep the pool holding a list without repeats, and only lengthen
the list. -/
theorem Holds.runAll (holds : p.Holds M) {ops : List PoolOp} (kept : ∀ op ∈ ops, op ≠ .reset) :
    (runAll ops p).Holds (listAll ops M) ∧ M <+: listAll ops M := by
  induction ops generalizing p M with
  | nil => exact ⟨holds, List.prefix_refl M⟩
  | cons op rest ih =>
    obtain ⟨holds₁, grown₁⟩ := holds.apply (kept op List.mem_cons_self)
    obtain ⟨holds₂, grown₂⟩ := ih holds₁ (fun op' mem => kept op' (List.mem_cons_of_mem _ mem))
    exact ⟨holds₂, grown₁.trans grown₂⟩

/-- Two references of one kind interned into one pool, with any operations but a reset between
them. The kind is given by how it interns and how its entries read back: a request that answers
an index reads back there, a reference that reads back is answered at once, and reading back
survives growth. Then both answers read back in one final list, and equal references get equal
indices. -/
theorem Holds.intern_twice {α : Type} (intern : α → PoolM Nat) (At : List Constant → Nat → α → Prop)
    (interns : ∀ {p p' : ConstantPool} {M : List Constant} {i : Nat} {a : α}, p.Holds M →
      runStep (intern a) p = (.ok i, p') → ∃ M', p'.Holds M' ∧ M <+: M' ∧ At M' i a)
    (found : ∀ {p : ConstantPool} {M : List Constant} {i : Nat} {a : α}, p.Holds M → At M i a →
      runStep (intern a) p = (.ok i, p))
    (mono : ∀ {M M' : List Constant} {i : Nat} {a : α}, At M i a → M <+: M' → At M' i a)
    (holds : p.Holds M) {between : List PoolOp} (kept : ∀ op ∈ between, op ≠ .reset) {a₁ a₂ : α}
    {i₁ i₂ : Nat} (first : (runStep (intern a₁) p).1 = .ok i₁)
    (second : (runStep (intern a₂) (PoolOp.runAll between (runStep (intern a₁) p).2)).1 = .ok i₂) :
    (∃ M', At M' i₁ a₁ ∧ At M' i₂ a₂) ∧ (a₁ = a₂ → i₁ = i₂) := by
  obtain ⟨M₁, holds₁, -, at₁⟩ := interns holds (Prod.ext first rfl)
  obtain ⟨holdsBetween, grownBetween⟩ := holds₁.runAll kept
  obtain ⟨M₂, -, grown₂, at₂⟩ := interns holdsBetween (Prod.ext second rfl)
  refine ⟨⟨M₂, mono at₁ (grownBetween.trans grown₂), at₂⟩, ?_⟩
  rintro rfl
  rw [found holdsBetween (mono at₁ grownBetween)] at second
  exact Except.ok.inj second

end Twice

end ConstantPool

open ConstantPool PoolOp in
/-- Interning tells references apart. Valid function descriptors with the same text are the same,
and so are valid types. In every pool that a sequence of operations builds from an empty pool,
interning one reference and then another, with any operations but a reset in between, answers
one index for both exactly when they are the same: function references with valid descriptors
(class, name, descriptor and slot alike), field references with valid types, and literals (the
same kind with the same text or the same bits, so that `0.0` and `-0.0` differ and a NaN is its
own). -/
theorem references_intern_injectively (ops between : List PoolOp) (kept : ∀ op ∈ between, op ≠ .reset) :
    (∀ d₁ d₂ : FunctionDescriptor, d₁.Valid → d₂.Valid → (d₁.render = d₂.render ↔ d₁ = d₂)) ∧
    (∀ t₁ t₂ : FieldType, t₁.Valid → t₂.Valid → (t₁.render = t₂.render ↔ t₁ = t₂)) ∧
    (∀ r₁ r₂ : FunctionRef, r₁.descriptor.Valid → r₂.descriptor.Valid → ∀ i₁ i₂,
      (runStep r₁.intern (runAll ops {})).1 = .ok i₁ →
      (runStep r₂.intern (runAll between (runStep r₁.intern (runAll ops {})).2)).1 = .ok i₂ →
      (i₁ = i₂ ↔ r₁ = r₂)) ∧
    (∀ r₁ r₂ : FieldRef, r₁.descriptor.Valid → r₂.descriptor.Valid → ∀ i₁ i₂,
      (runStep r₁.intern (runAll ops {})).1 = .ok i₁ →
      (runStep r₂.intern (runAll between (runStep r₁.intern (runAll ops {})).2)).1 = .ok i₂ →
      (i₁ = i₂ ↔ r₁ = r₂)) ∧
    ∀ v₁ v₂ : ConstantData, ∀ i₁ i₂,
      (runStep v₁.intern (runAll ops {})).1 = .ok i₁ →
      (runStep v₂.intern (runAll between (runStep v₁.intern (runAll ops {})).2)).1 = .ok i₂ →
      (i₁ = i₂ ↔ v₁ = v₂) := by
  have holds := holds_reached ops
  refine ⟨fun d₁ d₂ => FunctionDescriptor.render_inj, fun t₁ t₂ => FieldType.render_inj,
    fun r₁ r₂ valid₁ valid₂ i₁ i₂ first second => ?_, fun r₁ r₂ valid₁ valid₂ i₁ i₂ first second => ?_,
    fun v₁ v₂ i₁ i₂ first second => ?_⟩
  · obtain ⟨⟨M', at₁, at₂⟩, same⟩ := holds.intern_twice FunctionRef.intern FunctionAt
      (fun h ran => h.internFunction ran)
      (fun h found => h.functionFound found) (fun found grown => found.mono grown) kept first second
    refine ⟨?_, same⟩
    rintro rfl
    obtain ⟨owners, texts, names, slots⟩ := at₁.unique at₂
    have descriptors := (FunctionDescriptor.render_inj valid₁ valid₂).mp texts
    cases r₁
    cases r₂
    simp_all
  · obtain ⟨⟨M', at₁, at₂⟩, same⟩ := holds.intern_twice FieldRef.intern FieldAt
      (fun h ran => h.internField ran)
      (fun h found => h.fieldFound found) (fun found grown => found.mono grown) kept first second
    refine ⟨?_, same⟩
    rintro rfl
    obtain ⟨owners, texts, names⟩ := at₁.unique at₂
    have descriptors := (FieldType.render_inj valid₁ valid₂).mp texts
    cases r₁
    cases r₂
    simp_all
  · obtain ⟨⟨M', at₁, at₂⟩, same⟩ := holds.intern_twice ConstantData.intern LiteralAt
      (fun h ran => h.internLiteral ran)
      (fun h found => h.literalFound found) (fun found grown => found.mono grown) kept first second
    refine ⟨?_, same⟩
    rintro rfl
    exact at₁.unique at₂

namespace PoolOp

/-- Requests building a pool that holds the class `A`, the descriptor `()v`, the name `f` and the
function `A.f()v` in slot 0. -/
def oneFunction : List PoolOp :=
  [.request (.utf8 "A"), .request (.classRef 1), .request (.utf8 "()v"), .request (.utf8 "f"),
    .request (.function 2 3 4 0)]

end PoolOp

open ConstantPool PoolOp in
/-- In that pool `A.f()v` in slot 0 is found at index 5 and the same function in slot 1 is new,
interned at index 6: two references that differ only in their slot get two indices. -/
theorem function_slots_intern_apart :
    let zero : FunctionRef := ⟨⟨"A"⟩, "f", ⟨[], none⟩, 0⟩
    let one : FunctionRef := ⟨⟨"A"⟩, "f", ⟨[], none⟩, 1⟩
    zero.descriptor.Valid ∧ (runStep zero.intern (runAll oneFunction {})).1 = .ok 5 ∧
      (runStep one.intern (runAll [] (runStep zero.intern (runAll oneFunction {})).2)).1 = .ok 6 ∧
      zero ≠ one := by
  intro zero one
  have valid : zero.descriptor.Valid := by simp [zero, FunctionDescriptor.Valid]
  have holds := holds_reached oneFunction
  have listed : listAll oneFunction [] =
      [.utf8 "A", .classRef 1, .utf8 "()v", .utf8 "f", .function 2 3 4 0] := by decide
  have parts : PartsAt (listAll oneFunction []) 2 3 4 "A" zero.descriptor.render "f" := by
    rw [listed]
    exact ⟨⟨1, rfl, rfl, by decide⟩, ⟨by decide, by decide⟩, ⟨rfl, by decide⟩⟩
  have found : runStep zero.intern (runAll oneFunction {}) = (.ok 5, runAll oneFunction {}) :=
    holds.functionFound ⟨2, 3, 4, by rw [listed]; rfl, parts⟩
  have first : (runStep zero.intern (runAll oneFunction {})).1 = .ok 5 := by rw [found]
  have second : (runStep one.intern (runAll [] (runStep zero.intern (runAll oneFunction {})).2)).1 = .ok 6 := by
    rw [found, runAll, List.foldl_nil, FunctionRef.intern, holds.partsFound parts, internFunction,
      (holds.refines.intern _).1, listed]
    rfl
  refine ⟨valid, first, second, fun same => ?_⟩
  have apart := ((references_intern_injectively oneFunction [] (fun _ mem => by cases mem)).2.2.1
    zero one valid valid 5 6 first second).mpr same
  omega

end Febc
