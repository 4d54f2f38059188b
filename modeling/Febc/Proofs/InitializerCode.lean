import Febc.Proofs.Body

/-!
# The code that initializes fields

An initializer stores the initial values of fields: the static initializer those of the static
fields, an instance initializer, after calling the superclass's initializer on `this`, those of
the instance fields. Both visit the field declarations in order and skip the declarators that
have no initial value (`fieldInits`). A static field's value is followed by a store into the
field; an instance field's value is preceded by a load of `this` and followed by a store into the
field of `this`. The field stored into is the class's own: its pool entry names the class and the
declarator (`FieldEntry`).

The layout is stated offset by offset, as `InitsLaid` says, with the code of each value left to
what lowering the value emits (`Emits`).

Main statements: `runs_initializeFieldsAt`, `runs_initializeInstanceAt`.
-/

namespace Febc

namespace Lowering

open CodeBuilder

/-! ## Which fields are initialized -/

/-- The declarators that have an initial value, in order. -/
def declInits : List (Ident × Option Expr) → List (Ident × Expr)
  | [] => []
  | (_, none) :: rest => declInits rest
  | (name, some init) :: rest => (name, init) :: declInits rest

/-- The declarators with an initial value of the static fields, or of the instance fields, in
declaration order. -/
def fieldInits (fields : List FieldDecl) (isStatic : Bool) : List (Ident × Expr) :=
  (fields.filter (isStaticField · == isStatic)).flatMap fun decl => declInits decl.decls

theorem fieldInits_cons (decl : FieldDecl) (fields : List FieldDecl) (isStatic : Bool) :
    fieldInits (decl :: fields) isStatic =
      (if isStaticField decl == isStatic then declInits decl.decls else []) ++ fieldInits fields isStatic := by
  unfold fieldInits
  split <;> simp_all

/-! ## Field entries -/

/-- The pool entry at `i` is the field `name` of the class `owner`. -/
def FieldEntry (entries : Array Constant) (i : Nat) (owner : BinaryName) (name : String) : Prop :=
  1 ≤ i ∧ ∃ cls descriptor text, entries[i - 1]? = some (.field cls descriptor text) ∧
    ClassEntry entries cls owner ∧ 1 ≤ text ∧ entries[text - 1]? = some (.utf8 name)

theorem FieldEntry.mono {entries entries' : Array Constant} {i : Nat} {owner : BinaryName} {name : String}
    (entry : FieldEntry entries i owner name) (grown : entries.toList <+: entries'.toList) :
    FieldEntry entries' i owner name := by
  obtain ⟨one, cls, descriptor, text, field, owned, named, utf8⟩ := entry
  exact ⟨one, cls, descriptor, text, ConstantPool.entry_of_prefix grown field, owned.mono grown, named,
    ConstantPool.entry_of_prefix grown utf8⟩

/-- Interning a field reference answers its field entry. -/
theorem interns_fieldEntry (r : FieldRef) :
    ConstantPool.Interns r.intern fun i p => FieldEntry p.entries i r.owner r.name ∧ Names p.entries i Constant.isField := by
  intro p consistent
  apply returns_bind
  apply (interns_classEntry r.owner p consistent).mono
  rintro owner p₁ ⟨grown₁, owners⟩
  apply returns_bind
  apply (ConstantPool.interns_utf8 r.descriptor.render p₁ grown₁.1).mono
  rintro descriptor p₂ ⟨grown₂, text⟩
  apply returns_bind
  apply (ConstantPool.interns_utf8 r.name p₂ grown₂.1).mono
  rintro name p₃ ⟨grown₃, named⟩
  apply (ConstantPool.returns_intern grown₃.1 (.field owner descriptor name)
    (ConstantPool.parts_pointBelow owners.names grown₂ (grown₂.texts text) grown₃ (grown₃.texts named))).mono
  rintro i p₄ ⟨grown₄, entry⟩
  have later := grown₂.after (grown₃.after grown₄)
  exact ⟨grown₁.after later, ⟨grown₄.2.2.1, owner, descriptor, name, entry, owners.mono later.2.1,
    (grown₃.texts named).1, ConstantPool.entry_of_prefix grown₄.2.1 named⟩, grown₄.2.2.1, _, entry, rfl⟩

/-! ## The layout -/

/-- One initializer from `start`, its store at `stored`: for a static field the value's code,
then the store into the field; for an instance field a load of `this`, the value's code from
`start + 2`, then the store into the field of `this`. The field is `name` of the class of
`env`. -/
def InitLaid (env : FunctionEnv) (next : Nat) (entries : Array Constant) (code : Instruction → Prop) :
    Bool → Nat → Ident × Expr → Nat → Prop
  | true, start, (name, init), stored => ∃ field rows, FieldEntry entries field env.layout.name name.text ∧
    Emits env (lowerExpr init) next start stored rows ∧ code ⟨stored, .storeStaticField, [field]⟩
  | false, start, (name, init), stored => ∃ field rows, FieldEntry entries field env.layout.name name.text ∧
    code ⟨start, .loadA, [0]⟩ ∧ Emits env (lowerExpr init) next (start + 2) stored rows ∧
      code ⟨stored, .storeInstanceField, [field]⟩

/-- The initializers `inits`, laid out one after another from `start` up to `finish`. -/
def InitsLaid (env : FunctionEnv) (next : Nat) (entries : Array Constant) (code : Instruction → Prop)
    (isStatic : Bool) : Nat → List (Ident × Expr) → Nat → Prop
  | start, [], finish => finish = start
  | start, init :: rest, finish => ∃ stored, InitLaid env next entries code isStatic start init stored ∧
    InitsLaid env next entries code isStatic (stored + 3) rest finish

section Laid

variable {env : FunctionEnv} {next : Nat} {entries entries' : Array Constant} {code code' : Instruction → Prop}

theorem InitLaid.mono (more : ∀ i, code i → code' i) (grown : entries.toList <+: entries'.toList) :
    ∀ {isStatic : Bool} {start : Nat} {init : Ident × Expr} {stored : Nat},
      InitLaid env next entries code isStatic start init stored → InitLaid env next entries' code' isStatic start init stored
  | true, _, (_, _), _, ⟨field, rows, entry, value, store⟩ => ⟨field, rows, entry.mono grown, value, more _ store⟩
  | false, _, (_, _), _, ⟨field, rows, entry, load, value, store⟩ =>
    ⟨field, rows, entry.mono grown, more _ load, value, more _ store⟩

theorem InitsLaid.mono (more : ∀ i, code i → code' i) (grown : entries.toList <+: entries'.toList) {isStatic : Bool} :
    ∀ {start : Nat} {inits : List (Ident × Expr)} {finish : Nat},
      InitsLaid env next entries code isStatic start inits finish →
        InitsLaid env next entries' code' isStatic start inits finish
  | _, [], _, laid => laid
  | _, _ :: _, _, ⟨stored, one, rest⟩ => ⟨stored, one.mono more grown, InitsLaid.mono more grown rest⟩

/-- Initializers laid out one after the other are laid out together. -/
theorem InitsLaid.append {isStatic : Bool} :
    ∀ {start : Nat} {inits : List (Ident × Expr)} {middle finish : Nat} {more : List (Ident × Expr)},
      InitsLaid env next entries code isStatic start inits middle →
        InitsLaid env next entries code isStatic middle more finish →
          InitsLaid env next entries code isStatic start (inits ++ more) finish
  | _, [], _, _, _, rfl, second => second
  | _, _ :: _, _, _, _, ⟨stored, one, rest⟩, second => ⟨stored, one, InitsLaid.append rest second⟩

end Laid

/-! ## Lowering the initializers -/

section Lowering

variable {env : FunctionEnv} {s : Lowering} {h : Nat → Nat}

theorem runs_fieldEntryAt (owner : BinaryName) (name : Ident) :
    Runs env s h (fieldEntry owner name) fun f s' _ =>
      Still s s' ∧ FieldEntry s'.pool.entries f owner name.text ∧ Names s'.pool.entries f Constant.isField := by
  apply Runs.bind (runs_memberName name)
  rintro text s₁ h₁ - - ⟨rfl, rfl, rfl⟩
  apply (runs_onPool (interns_fieldEntry _)).mono
  rintro _ _ _ _ _ ⟨still, -, -, -, -, entry, names⟩
  exact ⟨still, entry, names⟩

/-- An instruction that takes a pool entry of the kind its opcode asks for and falls through,
emitted where the code ends: it is the last instruction, three bytes long. -/
theorem runs_poolOpAt {o : Opcode} {kind : Constant → Bool} (plain : o.isJump = false ∧ o.isInvoke = false)
    (asks : o.entryKind = some kind) (falls : o.isUnconditional = false) {k after : Nat} {e : Int}
    (effect : o.stackEffect = some e) (room : o.pops ≤ k) (result : (after : Int) = k + e) {f : Nat}
    (names : Names s.pool.entries f kind) (holds : s.Holds k) :
    Runs env s h (op o [f]) fun _ s' _ =>
      Contained [] s s' ∧ s'.code.instructions = s.code.instructions ++ [⟨s.code.code.size, o, [f]⟩] ∧
        s'.code.code.size = s.code.code.size + 3 ∧ s'.code.depth = some after := by
  apply Runs.of_sound
  intro sound
  have operands := Opcode.operands_of_entryKind asks
  have small : f ≤ 65535 := by
    have := names.le_size
    have := sound.pool.bounded
    simp only [ConstantPool.maxIndex] at this
    omega
  have returns : (o = .ret → env.isInitializer = true) ∧ (o = .retA → env.isInitializer = false) :=
    ⟨fun ret => absurd falls (by rw [ret]; decide), fun ret => absurd falls (by rw [ret]; decide)⟩
  apply (runs_op plain (by rw [operands]; rfl) (fun _ x mem => by simpa [List.mem_singleton.mp mem] using small)
    holds effect room result returns (Instruction.refers_of_names asks rfl names)).mono
  rintro _ s' h' sound' - ⟨contained, appended, depth⟩
  rw [falls] at depth
  refine ⟨contained, appended, ?_, depth⟩
  rw [size_of_append sound sound' appended, Opcode.length_eq_sum, operands]
  rfl

/-- The initial values of declarators, each stored into its field as `InitLaid` says. -/
theorem runs_initializeDeclaratorsAt (isStatic : Bool) (decls : List (Ident × Option Expr))
    (reached : s.code.depth = some 0) :
    Runs env s h (initializeDeclarators isStatic decls) fun _ s' _ =>
      s'.code.depth = some 0 ∧ Contained [] s s' ∧
        InitsLaid env s.locals.next s'.pool.entries (Fixed s') isStatic s.code.code.size (declInits decls)
          s'.code.code.size := by
  induction decls generalizing s h with
  | nil => exact runs_pure () ⟨reached, .refl [] s, rfl⟩
  | cons decl rest ih =>
    obtain ⟨name, _ | init⟩ := decl
    · rw [initializeDeclarators]
      exact ih reached
    rw [initializeDeclarators]
    apply Runs.read_bind
    apply Runs.bind (runs_fieldEntryAt _ name)
    rintro field s₁ h₁ - - ⟨still, entry, names⟩
    have continues : ∀ (stored : Nat) (t : Lowering) (g : Nat → Nat), Sound env.isInitializer t g →
        Contained [] s t → t.code.depth = some 0 → t.code.code.size = stored + 3 →
        InitLaid env s.locals.next t.pool.entries (Fixed t) isStatic s.code.code.size (name, init) stored →
        Runs env t g (initializeDeclarators isStatic rest) fun _ s' _ =>
          s'.code.depth = some 0 ∧ Contained [] s s' ∧
            InitsLaid env s.locals.next s'.pool.entries (Fixed s') isStatic s.code.code.size
              (declInits ((name, some init) :: rest)) s'.code.code.size := by
      intro stored t g soundT containedT holdsT sizeT laidT
      apply (ih holdsT).mono
      rintro _ s' g' - grown ⟨holds', contained', laid'⟩
      refine ⟨holds', containedT.trans contained', ?_⟩
      rw [declInits, InitsLaid]
      rw [sizeT, containedT.slots] at laid'
      exact ⟨stored, laidT.mono (fun _ fixed => grown.fixed soundT fixed) grown.pool, laid'⟩
    cases isStatic
    · apply Runs.bind (runs_loadAAt 0 (still.holds (.inl reached)))
      rintro _ s₂ h₂ sound₂ grown₂ ⟨contained₂, loaded₂, size₂, depth₂, -⟩
      apply Runs.bind (leaves_lowerExpr init env 1 s₂ h₂ (Or.inl depth₂)).ends
      rintro _ s₃ h₃ sound₃ grown₃ ⟨⟨holds₃, contained₃⟩, ran₃⟩
      apply Runs.bind (runs_poolOpAt (o := .storeInstanceField) ⟨rfl, rfl⟩ rfl rfl rfl (Nat.le_refl 2)
        (by decide : ((0 : Nat) : Int) = ((1 + 1 : Nat) : Int) + -2) (names.mono (grown₂.trans grown₃).pool) holds₃)
      rintro _ s₄ h₄ sound₄ grown₄ ⟨contained₄, stored₄, size₄, depth₄⟩
      obtain ⟨rows, -, emits⟩ := Emits.of_contained ran₃ contained₃ sound₃
      have loaded : Fixed s₄ ⟨s.code.code.size, .loadA, [0]⟩ := by
        rw [← still.code]
        exact (grown₃.trans grown₄).fixed sound₂ (sound₂.fixed (mem_of_appended loaded₂) rfl)
      refine continues s₃.code.code.size s₄ h₄ sound₄
        ((still.contained []).trans contained₂ |>.trans contained₃ |>.trans contained₄) depth₄ size₄ ?_
      rw [size₂, contained₂.slots, still.code, still.locals] at emits
      rw [InitLaid]
      exact ⟨field, rows, entry.mono (grown₂.trans grown₃ |>.trans grown₄).pool, loaded, emits,
        sound₄.fixed (mem_of_appended stored₄) rfl⟩
    · apply Runs.bind (leaves_lowerExpr init env 0 s₁ h₁ (still.holds (.inl reached))).ends
      rintro _ s₂ h₂ sound₂ grown₂ ⟨⟨holds₂, contained₂⟩, ran₂⟩
      apply Runs.bind (runs_poolOpAt (o := .storeStaticField) ⟨rfl, rfl⟩ rfl rfl rfl (Nat.le_refl 1)
        (by decide : ((0 : Nat) : Int) = ((0 + 1 : Nat) : Int) + -1) (names.mono grown₂.pool) holds₂)
      rintro _ s₃ h₃ sound₃ grown₃ ⟨contained₃, stored₃, size₃, depth₃⟩
      obtain ⟨rows, -, emits⟩ := Emits.of_contained ran₂ contained₂ sound₂
      refine continues s₂.code.code.size s₃ h₃ sound₃ ((still.contained []).trans contained₂ |>.trans contained₃)
        depth₃ size₃ ?_
      rw [still.code, still.locals] at emits
      rw [InitLaid]
      exact ⟨field, rows, entry.mono (grown₂.trans grown₃).pool, emits, sound₃.fixed (mem_of_appended stored₃) rfl⟩

theorem runs_initializeFieldsGoAt (isStatic : Bool) (fields : List FieldDecl) (reached : s.code.depth = some 0) :
    Runs env s h (initializeFields.go isStatic fields) fun _ s' _ =>
      s'.code.depth = some 0 ∧ Contained [] s s' ∧
        InitsLaid env s.locals.next s'.pool.entries (Fixed s') isStatic s.code.code.size (fieldInits fields isStatic)
          s'.code.code.size := by
  induction fields generalizing s h with
  | nil => exact runs_pure () ⟨reached, .refl [] s, rfl⟩
  | cons decl rest ih =>
    rw [initializeFields.go, fieldInits_cons]
    split
    · apply Runs.bind (runs_initializeDeclaratorsAt isStatic decl.decls reached)
      rintro _ s₁ h₁ sound₁ - ⟨holds₁, contained₁, laid₁⟩
      apply (ih holds₁).mono
      rintro _ s₂ h₂ - grown₂ ⟨holds₂, contained₂, laid₂⟩
      rw [contained₁.slots] at laid₂
      exact ⟨holds₂, contained₁.trans contained₂,
        (laid₁.mono (fun _ fixed => grown₂.fixed sound₁ fixed) grown₂.pool).append laid₂⟩
    · exact ih reached

/-- The initial values of the static fields, or of the instance fields, each stored into its
field as `InitLaid` says; the values are lowered in the class scope. -/
theorem runs_initializeFieldsAt (fields : List FieldDecl) (isStatic : Bool) (reached : s.code.depth = some 0) :
    Runs env s h (initializeFields fields isStatic) fun _ s' _ =>
      s'.code.depth = some 0 ∧ Contained [] s s' ∧
        InitsLaid { env with scope := env.layout.scope } s.locals.next s'.pool.entries (Fixed s') isStatic
          s.code.code.size (fieldInits fields isStatic) s'.code.code.size :=
  Runs.read_bind (Runs.withScope (runs_initializeFieldsGoAt isStatic fields reached))

/-- An instance initializer first loads `this` and calls the initializer of the superclass on it,
then stores the initial values of the instance fields. -/
theorem runs_initializeInstanceAt (fields : List FieldDecl) (reached : s.code.depth = some 0) :
    Runs env s h (initializeInstance fields) fun _ s' _ =>
      s'.code.depth = some 0 ∧ Contained [] s s' ∧ Fixed s' ⟨s.code.code.size, .loadA, [0]⟩ ∧
        ∃ index, FunctionEntry s'.pool.entries index ⟨env.layout.superclass, initializeName, .initializer 0, 0⟩ ∧
          Fixed s' ⟨s.code.code.size + 2, .invokeSpecial, [index]⟩ ∧
          InitsLaid { env with scope := env.layout.scope } s.locals.next s'.pool.entries (Fixed s') false
            (s.code.code.size + 5) (fieldInits fields false) s'.code.code.size := by
  unfold initializeInstance
  apply Runs.read_bind
  apply Runs.bind (runs_onPool (interns_functionEntry _))
  rintro index s₁ h₁ - - ⟨still, -, -, -, small, entry⟩
  apply Runs.bind (runs_loadAAt 0 (still.holds (.inl reached)))
  rintro _ s₂ h₂ sound₂ grown₂ ⟨contained₂, loaded₂, size₂, depth₂, -⟩
  apply Runs.bind (runs_pushInvoke rfl (entry.describes.mono grown₂.pool) small (Or.inl depth₂) (Nat.le_refl _)
    (show ((0 : Nat) : Int) = ((0 + 1 : Nat) : Int) + (FunctionDescriptor.initializer 0).stackEffect - 1 by
      simp [FunctionDescriptor.stackEffect_initializer]))
  rintro _ s₃ h₃ sound₃ grown₃ ⟨contained₃, called₃, depth₃⟩
  apply (runs_initializeFieldsAt fields false depth₃).mono
  rintro _ s₄ h₄ - grown₄ ⟨holds₄, contained₄, laid₄⟩
  have size₃ : s₃.code.code.size = s₂.code.code.size + 3 := by
    rw [size_of_append sound₂ sound₃ called₃, Opcode.length_eq_sum, operands_of_invoke rfl]
    rfl
  have loaded : Fixed s₄ ⟨s.code.code.size, .loadA, [0]⟩ := by
    rw [← still.code]
    exact (grown₃.trans grown₄).fixed sound₂ (sound₂.fixed (mem_of_appended loaded₂) rfl)
  have called : Fixed s₄ ⟨s.code.code.size + 2, .invokeSpecial, [index]⟩ := by
    rw [← still.code, ← size₂]
    exact grown₄.fixed sound₃ (sound₃.fixed (mem_of_appended called₃) rfl)
  rw [size₃, size₂, still.code, (contained₂.trans contained₃).slots, still.locals] at laid₄
  exact ⟨holds₄, (still.contained []).trans contained₂ |>.trans contained₃ |>.trans contained₄, loaded, index,
    entry.mono (grown₂.trans grown₃ |>.trans grown₄).pool, called, laid₄⟩

end Lowering

end Lowering

end Febc
