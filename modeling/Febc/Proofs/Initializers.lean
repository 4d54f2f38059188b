import Febc.Proofs.InitializerCode
import Febc.Proofs.Classes
import Febc.Proofs.Tables

/-!
# The initializers a class is given

The entity of a class lists its functions in member order, then the two it may be given. The
default initializer, public, named `<initialize>` with the descriptor `()v`, is given to a class
none of whose members is an initializer. The static initializer, static, named
`<staticInitializer>` with the descriptor `()v`, is given to a class one of whose static field
declarations has a declarator with an initial value.

Every instance initializer that has code, the default one and the declared ones alike, begins the
same way (`InstanceInitLaid`): `this` is loaded and the initializer `()v` of the superclass is
called on it, the superclass being the first of the class's superclasses that resolves to a class,
or the default superclass when none does; then, in declaration order, each declarator of an
instance field that has an initial value loads `this`, evaluates the value and stores it into the
class's own field. A declared initializer's block follows (`InitializerLaid`); the default
initializer returns. The static initializer evaluates the initial values of the static fields in
the same order, stores each into the class's own field, and returns. Initial values are lowered
in the class scope.

All of this is read in the entity: in its pool, and in the instructions its code attributes
decode to.

Main statement: `class_initializers_synthesized`.
-/

namespace Febc

theorem Returns.and {ε σ α : Type} {allowed allowed' : ε → Prop} {r : Except ε α × σ}
    {post post' : α → σ → Prop} (first : Returns allowed r post) (second : Returns allowed' r post') :
    Returns allowed r fun a s => post a s ∧ post' a s := by
  obtain ⟨_ | a, s⟩ := r
  · exact first
  · exact ⟨first, second⟩

/-- Giving slots changes the table only. -/
theorem ClassLayout.assignAll_keeps (l : ClassLayout) (keys : List (String × Nat)) :
    (l.assignAll keys).name = l.name ∧ (l.assignAll keys).superclass = l.superclass ∧
      (l.assignAll keys).scope = l.scope := by
  induction keys generalizing l with
  | nil => exact ⟨rfl, rfl, rfl⟩
  | cons key keys ih =>
    obtain ⟨sameName, sameSuperclass, sameScope⟩ := ih (l.assign key.1 key.2)
    rw [ClassLayout.assignAll_cons, sameName, sameSuperclass, sameScope]
    unfold ClassLayout.assign
    split <;> exact ⟨rfl, rfl, rfl⟩

namespace Lowering

/-! ## The code of initializers -/

/-- How the code of every instance initializer begins, up to `stop`: `this` is loaded at 0 and the
initializer `()v` of the superclass called on it at 2, then the instance fields are initialized
from 5 as `InitsLaid` says. -/
def InstanceInitLaid (env : FunctionEnv) (next : Nat) (entries : Array Constant) (code : Instruction → Prop)
    (fields : List FieldDecl) (stop : Nat) : Prop :=
  code ⟨0, .loadA, [0]⟩ ∧
    (∃ index, FunctionEntry entries index ⟨env.layout.superclass, initializeName, .initializer 0, 0⟩ ∧
      code ⟨2, .invokeSpecial, [index]⟩) ∧
    InitsLaid env next entries code false 5 (fieldInits fields false) stop

/-- The code of a declared initializer up to `stop`: the instance initialization, lowered in the
class scope, up to `mid`, then the initializer's block. -/
def InitializerLaid (env : FunctionEnv) (next : Nat) (fields : List FieldDecl) (body : Block)
    (entries : Array Constant) (code : Instruction → Prop) (stop : Nat) : Prop :=
  ∃ mid, InstanceInitLaid { env with scope := env.layout.scope } next entries code fields mid ∧
    ∃ rows, Emits env (lowerBlock body) next mid stop rows

section Laid

variable {env : FunctionEnv} {next : Nat} {entries entries' : Array Constant} {code code' : Instruction → Prop}
  {fields : List FieldDecl} {stop : Nat}

theorem InstanceInitLaid.mono (more : ∀ i, code i → code' i) (grown : entries.toList <+: entries'.toList)
    (laid : InstanceInitLaid env next entries code fields stop) : InstanceInitLaid env next entries' code' fields stop := by
  obtain ⟨loaded, ⟨index, entry, called⟩, inits⟩ := laid
  exact ⟨more _ loaded, ⟨index, entry.mono grown, more _ called⟩, inits.mono more grown⟩

theorem InitializerLaid.mono {body : Block} (more : ∀ i, code i → code' i) (grown : entries.toList <+: entries'.toList)
    (laid : InitializerLaid env next fields body entries code stop) : InitializerLaid env next fields body entries' code' stop := by
  obtain ⟨mid, begun, block⟩ := laid
  exact ⟨mid, begun.mono more grown, block⟩

end Laid

section Bodies

variable {env : FunctionEnv} {s : Lowering} {h : Nat → Nat}

/-- The instance initialization, run on empty code, is how the code begins. -/
theorem runs_instanceInit (fields : List FieldDecl) (start : s.code.code.size = 0) (reached : s.code.depth = some 0) :
    Runs env s h (initializeInstance fields) fun _ s' _ =>
      s'.code.depth = some 0 ∧ Contained [] s s' ∧
        InstanceInitLaid { env with scope := env.layout.scope } s.locals.next s'.pool.entries (Fixed s') fields
          s'.code.code.size := by
  apply (runs_initializeInstanceAt fields reached).mono
  rintro _ s' _ - - ⟨depth, contained, loaded, index, entry, called, inits⟩
  rw [start] at loaded
  rw [start, Nat.zero_add] at called inits
  exact ⟨depth, contained, loaded, ⟨index, entry, called⟩, inits⟩

/-- A declared initializer's code: the instance initialization, then its block. -/
theorem runs_initializerBody (fields : List FieldDecl) (body : Block) (start : s.code.code.size = 0)
    (reached : s.code.depth = some 0) :
    Runs env s h (do initializeInstance fields; lowerBlock body) fun _ s' _ =>
      s'.Holds 0 ∧ Contained [] s s' ∧
        InitializerLaid env s.locals.next fields body s'.pool.entries (Fixed s') s'.code.code.size := by
  apply Runs.bind (runs_instanceInit fields start reached)
  rintro _ s₁ h₁ sound₁ - ⟨depth₁, contained₁, begun₁⟩
  apply (leaves_lowerBlock body env s₁ h₁ (.inl depth₁)).ends.mono
  rintro _ s₂ h₂ sound₂ grown₂ ⟨⟨holds₂, contained₂⟩, ran₂⟩
  obtain ⟨rows, -, block⟩ := Emits.of_contained ran₂ contained₂ sound₂
  rw [contained₁.slots] at block
  exact ⟨holds₂, contained₁.trans contained₂, s₁.code.code.size,
    begun₁.mono (fun _ fixed => grown₂.fixed sound₁ fixed) grown₂.pool, rows, block⟩

/-- The static initialization, run on empty code, is the whole code up to the return. -/
theorem runs_staticInit (fields : List FieldDecl) (start : s.code.code.size = 0) (reached : s.code.depth = some 0) :
    Runs env s h (initializeFields fields true) fun _ s' _ =>
      s'.code.depth = some 0 ∧ Contained [] s s' ∧
        InitsLaid { env with scope := env.layout.scope } s.locals.next s'.pool.entries (Fixed s') true 0
          (fieldInits fields true) s'.code.code.size := by
  apply (runs_initializeFieldsAt fields true reached).mono
  rintro _ s' _ - - ⟨depth, contained, inits⟩
  rw [start] at inits
  exact ⟨depth, contained, inits⟩

end Bodies

end Lowering

/-! ## Function entries -/

/-- A function entry's flags, and the texts its name and its descriptor name in `entries`. -/
def Member.Heads (entries : Array Constant) (m : Member) (flags : Nat) (name : String) (d : FunctionDescriptor) :
    Prop :=
  m.flags = flags ∧ entries[m.nameIndex - 1]? = some (.utf8 name) ∧
    entries[m.descriptorIndex - 1]? = some (.utf8 d.render)

/-- The entry's one attribute holds code that decodes to instructions laid out up to `stop` as
`Laid` says; where `returns`, a return at `stop` ends the code. -/
def Member.CodeLaid (m : Member) (Laid : (Instruction → Prop) → Nat → Prop) (returns : Bool) : Prop :=
  ∃ (attr : Attribute) (a : InstructionAttribute) (is : List Instruction) (stop : Nat), m.attributes = [attr] ∧
    attr.info = a.serialize ∧ decode a.code = .ok is ∧ Laid (· ∈ is) stop ∧
    (returns = true → ⟨stop, .ret, []⟩ ∈ is ∧ a.code.length = stop + 1)

section Entries

variable {m : Member} {entries entries' : Array Constant}

theorem Member.Heads.mono {flags : Nat} {name : String} {d : FunctionDescriptor} (heads : m.Heads entries flags name d)
    (grown : entries.toList <+: entries'.toList) : m.Heads entries' flags name d :=
  ⟨heads.1, ConstantPool.entry_of_prefix grown heads.2.1, ConstantPool.entry_of_prefix grown heads.2.2⟩

theorem Member.CodeLaid.mono {Laid Laid' : (Instruction → Prop) → Nat → Prop} {returns : Bool}
    (more : ∀ code stop, Laid code stop → Laid' code stop) (laid : m.CodeLaid Laid returns) : m.CodeLaid Laid' returns := by
  obtain ⟨attr, a, is, stop, attrs, info, decodes, inside, ends⟩ := laid
  exact ⟨attr, a, is, stop, attrs, info, decodes, more _ _ inside, ends⟩

end Entries

namespace Session

open Lowering

/-! ## What a class is compiled with -/

/-- The class a superclass name resolves to in `scope`, if it names one. -/
def resolvedIn (c : Compiler) (scope : Nat) (super : Ident) : Option BinaryName :=
  match c.symbols.resolve scope super.text with
  | some (.type name) => some name
  | _ => none

/-- The class whose initializer `()v` a class's instance initializers call: the first of the
superclasses it names that resolves to a class in the scope around it, or the default
superclass. -/
def superclassOf (c : Compiler) (cls : ClassDecl) : BinaryName :=
  (cls.supers.filterMap (resolvedIn c ((c.symbols.parent cls.scope).getD cls.scope))).headD
    c.settings.defaultSuperclass

/-- The layout a class is compiled with: named as its scope says, with the superclass
`superclassOf`, and with the class scope to lower field initializers in. -/
structure LayoutOf (c : Compiler) (cls : ClassDecl) (layout : ClassLayout) : Prop where
  named : c.symbols.kind cls.scope = .type layout.name
  superclass : layout.superclass = superclassOf c cls
  scope : layout.scope = cls.scope

/-- The entry of a declared function `f`: its flags, its name (fixed for an initializer) and its
descriptor; no code without a body; and an initializer's code begins with the instance
initialization, followed by its block. -/
def DeclaredEntry (c : Compiler) (layout : ClassLayout) (fields : List FieldDecl) (entries : Array Constant)
    (f : FunctionDecl) (m : Member) : Prop :=
  m.Heads entries f.mods f.slotKey.1
      (if f.isInitializer then .initializer f.params.length else .dynamic f.params.length) ∧
    (f.body = none → m.attributes = []) ∧
    ∀ body, f.body = some body → f.isInitializer = true →
      ∃ isStatic base, c.symbols.kind f.scope = .function isStatic base ∧
        m.CodeLaid (InitializerLaid ⟨c.symbols, layout, isStatic, true, f.scope⟩ base fields body entries) false

/-- The default initializer's entry: public, `<initialize>` with the descriptor `()v`, its code
the instance initialization and a return. -/
def DefaultEntry (c : Compiler) (layout : ClassLayout) (fields : List FieldDecl) (entries : Array Constant)
    (m : Member) : Prop :=
  m.Heads entries AccessFlag.publicBit initializeName (.initializer 0) ∧
    m.CodeLaid (InstanceInitLaid ⟨c.symbols, layout, false, true, layout.scope⟩ 1 entries · fields ·) true

/-- The static initializer's entry: static, `<staticInitializer>` with the descriptor `()v`, its
code the initial values of the static fields, each stored into its field, and a return. -/
def StaticEntry (c : Compiler) (layout : ClassLayout) (fields : List FieldDecl) (entries : Array Constant)
    (m : Member) : Prop :=
  m.Heads entries AccessFlag.staticBit staticInitializerName (.initializer 0) ∧
    m.CodeLaid (fun code stop => InitsLaid ⟨c.symbols, layout, true, true, layout.scope⟩ 0 entries code true 0
      (fieldInits fields true) stop) true

/-- The function entries of a class, read in the pool `entries`: those of the declared functions,
in member order; the default initializer, given when no member is an initializer; and the
static initializer, given when a declarator of a static field has an initial value. -/
structure FunctionsSynthesized (c : Compiler) (cls : ClassDecl) (layout : ClassLayout) (entries : Array Constant)
    (declared : List Member) (dflt stat : Option Member) : Prop where
  declaredEntries : List.Forall₂ (DeclaredEntry c layout (fieldDecls cls.members) entries)
    (functionDecls cls.members) declared
  defaultGiven : dflt.isSome ↔ ∀ f ∈ functionDecls cls.members, f.isInitializer = false
  defaultEntry : ∀ m ∈ dflt, DefaultEntry c layout (fieldDecls cls.members) entries m
  staticGiven : stat.isSome ↔
    ∃ decl ∈ fieldDecls cls.members, isStaticField decl = true ∧ ∃ d ∈ decl.decls, d.2.isSome = true
  staticEntry : ∀ m ∈ stat, StaticEntry c layout (fieldDecls cls.members) entries m

section Mono

variable {c : Compiler} {layout : ClassLayout} {fields : List FieldDecl} {entries entries' : Array Constant}
  {m : Member}

theorem DeclaredEntry.mono {f : FunctionDecl} (entry : DeclaredEntry c layout fields entries f m)
    (grown : entries.toList <+: entries'.toList) : DeclaredEntry c layout fields entries' f m := by
  obtain ⟨heads, bare, coded⟩ := entry
  refine ⟨heads.mono grown, bare, fun body present init => ?_⟩
  obtain ⟨isStatic, base, kind, laid⟩ := coded body present init
  exact ⟨isStatic, base, kind, laid.mono fun _ _ inside => inside.mono (fun _ mem => mem) grown⟩

theorem DefaultEntry.mono (entry : DefaultEntry c layout fields entries m) (grown : entries.toList <+: entries'.toList) :
    DefaultEntry c layout fields entries' m :=
  ⟨entry.1.mono grown, entry.2.mono fun _ _ inside => inside.mono (fun _ mem => mem) grown⟩

end Mono

/-! ## Compiling the entries -/

section Steps

variable {c : Compiler} {s : Session}

/-- The superclasses that resolve, in order. -/
theorem resolveClasses_resolved (scope : Nat) (supers : List Ident) :
    Returns (fun _ => True) (runStep ((resolveClasses scope supers).run c) s) fun names _ =>
      names = supers.filterMap (resolvedIn c scope) := by
  induction supers generalizing s with
  | nil => rfl
  | cons super rest ih =>
    unfold resolveClasses
    apply returns_compile_read_bind
    split
    next name resolved =>
      have head : resolvedIn c scope super = some name := by simp [resolvedIn, resolved]
      apply returns_compile_bind
      apply ih.mono
      intro more _ found
      exact returns_pure _ (by rw [List.filterMap_cons, head, found])
    next unresolved =>
      have head : resolvedIn c scope super = none := by
        unfold resolvedIn
        split <;> simp_all
      refine returns_bind_of_forall fun _ _ => ?_
      exact ih.mono fun names _ found => by rw [List.filterMap_cons, head, found]

theorem superclass_resolveSuperclasses (cls : ClassDecl) :
    Returns (fun _ => True) (runStep ((resolveSuperclasses cls).run c) s) fun names _ =>
      names.headD c.settings.defaultSuperclass = superclassOf c cls := by
  unfold resolveSuperclasses
  apply returns_compile_read_bind
  apply returns_compile_bind
  apply (resolveClasses_resolved _ _).mono
  intro found _ resolved
  refine returns_pure _ ?_
  rw [superclassOf, ← resolved]
  cases found <;> rfl

/-- The last steps of every function entry: its name and its descriptor are interned. -/
theorem returns_functionEntry_heads (flags table : Nat) (name : String) (d : FunctionDescriptor)
    (attrs : List Attribute) (consistent : s.pool.Consistent) :
    Returns (fun _ => True) (runStep ((do
      let nameIndex ← onPool (ConstantPool.internUtf8 name)
      let descriptorIndex ← onPool (ConstantPool.internUtf8 d.render)
      pure (⟨flags, nameIndex, descriptorIndex, table, attrs⟩ : Member)).run c) s) fun m s' =>
        Grows s s' ∧ m.Heads s'.pool.entries flags name d ∧ m.attributes = attrs := by
  apply returns_compile_bind
  apply (returns_onPool (fun _ _ => trivial) (ConstantPool.interns_utf8 name) consistent).mono
  rintro _ s₁ ⟨-, grown₁, named₁⟩
  apply returns_compile_bind
  apply (returns_onPool (fun _ _ => trivial) (ConstantPool.interns_utf8 d.render) grown₁.pool).mono
  rintro _ s₂ ⟨-, grown₂, described₂⟩
  exact ⟨grown₁.trans grown₂, ⟨rfl, ConstantPool.entry_of_prefix grown₂.entries named₁, described₂⟩, rfl⟩

/-- The entry of an implicit initializer, named `name` with the descriptor `()v`: its code is
what its body lays out from empty code, as `Laid` says from the body's first free private slot,
ending reachable; the return follows. -/
theorem returns_initializerEntry (layout : ClassLayout) (shape : FunctionShape) (channel : Option Nat)
    {body : LowerM Unit} (flags table : Nat) (name : String)
    (Laid : Nat → Array Constant → (Instruction → Prop) → Nat → Prop)
    (mono : ∀ {next : Nat} {entries entries' : Array Constant} {code code' : Instruction → Prop} {stop : Nat},
      entries.toList <+: entries'.toList → (∀ i, code i → code' i) → Laid next entries code stop →
        Laid next entries' code' stop)
    (initializer : shape.isInitializer = true)
    (bodies : ∀ t h, t.code.code.size = 0 → t.code.depth = some 0 →
      Runs ⟨c.symbols, layout, shape.isStatic, shape.isInitializer, shape.scope⟩ t h body fun _ t' _ =>
        t'.code.depth = some 0 ∧ Contained [] t t' ∧ Laid t.locals.next t'.pool.entries (Fixed t') t'.code.code.size)
    (ready : s.channels.Ready channel) (consistent : s.pool.Consistent) :
    Returns (fun _ => True) (runStep ((do
      let code ← lowerBody layout shape channel body
      let nameIndex ← onPool (ConstantPool.internUtf8 name)
      let descriptorIndex ← onPool (ConstantPool.internUtf8 (FunctionDescriptor.initializer 0).render)
      pure (⟨flags, nameIndex, descriptorIndex, table, [code]⟩ : Member)).run c) s) fun m s' =>
        m.Heads s'.pool.entries flags name (.initializer 0) ∧ m.CodeLaid (Laid shape.localsBase s'.pool.entries) true := by
  -- the body's end is reachable, so finishing returns
  have laidOut : ∀ t h, Sound shape.isInitializer t h → t.code.code.size = 0 → t.code.depth = some 0 →
      t.locals.next = shape.localsBase →
      Runs ⟨c.symbols, layout, shape.isStatic, shape.isInitializer, shape.scope⟩ t h body fun _ t' _ =>
        t'.Holds 0 ∧ Contained [] t t' ∧
          (Laid shape.localsBase t'.pool.entries (Fixed t') t'.code.code.size ∧ t'.code.depth = some 0) := by
    intro t h _ start reached next
    apply (bodies t h start reached).mono
    rintro _ t' _ - - ⟨depth, contained, laid⟩
    rw [next] at laid
    exact ⟨.inl depth, contained, laid, depth⟩
  apply returns_compile_bind
  apply ((returns_lowerBody_code layout shape channel c s
    (fun entries code stop depth => Laid shape.localsBase entries code stop ∧ depth = some 0)
    (fun grown more laid => ⟨mono grown more laid.1, laid.2⟩) laidOut ready consistent).weaken fun _ _ => trivial).mono
  rintro code s₁ ⟨⟨a, is, info, compiled, stop, depth, ⟨laid, reached⟩, ended⟩, -, closes⟩
  apply (returns_functionEntry_heads _ _ _ (FunctionDescriptor.initializer 0) [code] closes.pool).mono
  rintro m s₂ ⟨grown₂, heads, attrs⟩
  exact ⟨heads, code, a, is, stop, attrs, info, compiled.decodes, mono grown₂.entries (fun _ mem => mem) laid,
    fun _ => ended reached initializer⟩

/-- The default initializer's code is the instance initialization and a return. -/
theorem returns_defaultInitializer_entry (layout : ClassLayout) (fields : List FieldDecl) {p : Nat}
    (primary : s.channels.Primary p) (consistent : s.pool.Consistent) :
    Returns (fun _ => True) (runStep ((defaultInitializer layout fields).run c) s) fun m s' =>
      DefaultEntry c layout fields s'.pool.entries m := by
  unfold defaultInitializer
  exact returns_initializerEntry layout ⟨layout.scope, false, true, 1⟩ none _ _ _
    (fun next entries code stop => InstanceInitLaid ⟨c.symbols, layout, false, true, layout.scope⟩ next entries code
      fields stop)
    (fun grown more laid => laid.mono more grown) rfl (fun _ _ start reached => runs_instanceInit fields start reached)
    (primary.ready none fun _ absent => by cases absent) consistent

/-- The static initializer's code is the static fields' initialization and a return. -/
theorem returns_staticInitializer_entry (layout : ClassLayout) (fields : List FieldDecl) {p : Nat}
    (primary : s.channels.Primary p) (consistent : s.pool.Consistent) :
    Returns (fun _ => True) (runStep ((staticInitializer layout fields p).run c) s) fun m s' =>
      StaticEntry c layout fields s'.pool.entries m := by
  unfold staticInitializer
  exact returns_initializerEntry layout ⟨layout.scope, true, true, 0⟩ (some p) _ _ _
    (fun next entries code stop => InitsLaid ⟨c.symbols, layout, true, true, layout.scope⟩ next entries code true 0
      (fieldInits fields true) stop)
    (fun grown more laid => laid.mono more grown) rfl (fun _ _ start reached => runs_staticInit fields start reached)
    (primary.ready (some p) fun _ same => (Option.some.inj same).symm) consistent

/-- A declared function's entry; an initializer's code begins with the instance initialization. -/
theorem returns_functionMember_entry (layout : ClassLayout) (fields : List FieldDecl) (f : FunctionDecl) {p : Nat}
    (primary : s.channels.Primary p) (consistent : s.pool.Consistent) :
    Returns (fun _ => True) (runStep ((functionMember layout fields f).run c) s) fun m s' =>
      DeclaredEntry c layout fields s'.pool.entries f m := by
  unfold functionMember
  apply returns_compile_read_bind
  dsimp only
  split
  next isStatic base kind =>
    simp only [pure_bind]
    apply returns_compile_bind
    apply ((returns_functionName (fun _ _ => trivial) f).and (slotKey_functionName f)).mono
    rintro _ _ ⟨rfl, rfl⟩
    split
    next absent =>
      apply (returns_functionEntry_heads _ _ _ _ [] consistent).mono
      rintro m s' ⟨-, heads, attrs⟩
      exact ⟨heads, fun _ => attrs, fun _ present _ => absurd (absent.symm.trans present) (by simp)⟩
    next body present =>
      have bodies : ∀ t h, Sound f.isInitializer t h → t.code.code.size = 0 → t.code.depth = some 0 →
          t.locals.next = base →
          Runs ⟨c.symbols, layout, isStatic, f.isInitializer, f.scope⟩ t h
            (if f.isInitializer then do initializeInstance fields; lowerBlock body else lowerBlock body)
            fun _ t' _ => t'.Holds 0 ∧ Contained [] t t' ∧ (f.isInitializer = true →
              InitializerLaid ⟨c.symbols, layout, isStatic, true, f.scope⟩ base fields body t'.pool.entries
                (Fixed t') t'.code.code.size) := by
        intro t h _ start reached next
        cases initializer : f.isInitializer
        · apply (leaves_lowerBlock body _ t h (.inl reached)).mono
          rintro _ t' _ - - ⟨holds, contained⟩
          exact ⟨holds, contained, fun never => absurd never Bool.false_ne_true⟩
        · apply (runs_initializerBody fields body start reached).mono
          rintro _ t' _ - - ⟨holds, contained, laid⟩
          rw [next] at laid
          exact ⟨holds, contained, fun _ => laid⟩
      apply returns_compile_bind
      apply ((returns_lowerBody_code layout ⟨f.scope, isStatic, f.isInitializer, base⟩ none c _
        (fun entries code stop _ => f.isInitializer = true →
          InitializerLaid ⟨c.symbols, layout, isStatic, true, f.scope⟩ base fields body entries code stop)
        (fun grown more laid initializer => (laid initializer).mono more grown) bodies
        (primary.ready none fun _ absent => by cases absent) consistent).weaken fun _ _ => trivial).mono
      rintro code s₁ ⟨⟨a, is, info, compiled, stop, -, laid, -⟩, -, closes⟩
      apply (returns_functionEntry_heads _ _ _ _ [code] closes.pool).mono
      rintro m s₂ ⟨grown₂, heads, attrs⟩
      refine ⟨heads, fun absent => absurd (present.symm.trans absent) (by simp), ?_⟩
      intro body' present' initializer
      obtain rfl : body = body' := Option.some.inj (present.symm.trans present')
      exact ⟨isStatic, base, kind, code, a, is, stop, attrs, info, compiled.decodes,
        (laid initializer).mono (fun _ mem => mem) grown₂.entries, fun never => absurd never Bool.false_ne_true⟩
  next => trivial

/-- The declared functions' entries, one for each, in order. -/
theorem returns_functionMembers_entries (layout : ClassLayout) (fields : List FieldDecl)
    (functions : List FunctionDecl) {p : Nat} (primary : s.channels.Primary p) (consistent : s.pool.Consistent) :
    Returns (fun _ => True) (runStep ((functionMembers layout fields functions).run c) s) fun ms s' =>
      List.Forall₂ (DeclaredEntry c layout fields s'.pool.entries) functions ms := by
  induction functions generalizing s with
  | nil => exact List.Forall₂.nil
  | cons f rest ih =>
    unfold functionMembers
    apply returns_compile_bind
    apply ((returns_functionMember (fun _ _ => trivial) layout fields f (.inr fun _ _ => trivial) primary
      consistent).and (returns_functionMember_entry layout fields f primary consistent)).mono
    rintro m s₁ ⟨⟨primary₁, grown₁, -⟩, entry₁⟩
    apply returns_compile_bind
    apply ((returns_functionMembers (fun _ _ => trivial) layout fields rest (.inr fun _ _ => trivial) primary₁
      grown₁.pool).and (ih primary₁ grown₁.pool)).mono
    rintro ms s₂ ⟨⟨-, grown₂, -⟩, entries₂⟩
    exact List.Forall₂.cons (entry₁.mono grown₂.entries) entries₂

/-- The implicit initializers: the default one when it is needed, then the static one when it
is needed. -/
theorem returns_implicitMembers_entries (layout : ClassLayout) (fields : List FieldDecl) {p : Nat}
    (needsDefault needsStatic : Bool) (primary : s.channels.Primary p) (consistent : s.pool.Consistent) :
    Returns (fun _ => True) (runStep ((implicitMembers layout fields p needsDefault needsStatic).run c) s)
      fun ms s' => ∃ dflt stat : Option Member, ms = dflt.toList ++ stat.toList ∧ dflt.isSome = needsDefault ∧
        stat.isSome = needsStatic ∧ (∀ m ∈ dflt, DefaultEntry c layout fields s'.pool.entries m) ∧
        ∀ m ∈ stat, StaticEntry c layout fields s'.pool.entries m := by
  unfold implicitMembers
  dsimp only
  have rest : ∀ (dflt : Option Member) (s₁ : Session), s₁.channels.Primary p → s₁.pool.Consistent →
      dflt.isSome = needsDefault → (∀ m ∈ dflt, DefaultEntry c layout fields s₁.pool.entries m) →
      Returns (fun _ => True) (runStep ((if needsStatic then do
          let init ← staticInitializer layout fields p
          pure (dflt.toList ++ [init])
        else do
          let _ ← onChannels (ChannelSet.remove p)
          pure dflt.toList).run c) s₁) fun ms s' =>
        ∃ dflt stat : Option Member, ms = dflt.toList ++ stat.toList ∧ dflt.isSome = needsDefault ∧
          stat.isSome = needsStatic ∧ (∀ m ∈ dflt, DefaultEntry c layout fields s'.pool.entries m) ∧
          ∀ m ∈ stat, StaticEntry c layout fields s'.pool.entries m := by
    intro dflt s₁ primary₁ consistent₁ given defaults
    split
    next needed =>
      apply returns_compile_bind
      apply ((returns_staticInitializer (fun _ _ => trivial) layout fields primary₁ consistent₁).and
        (returns_staticInitializer_entry layout fields primary₁ consistent₁)).mono
      rintro m s₂ ⟨⟨-, -, grown₂, -⟩, static₂⟩
      refine ⟨dflt, some m, rfl, given, by simp [needed], fun m' mem => (defaults m' mem).mono grown₂.entries, ?_⟩
      intro m' mem
      rw [Option.mem_some_iff] at mem
      exact mem ▸ static₂
    next unneeded =>
      apply returns_compile_bind
      apply (returns_onChannels (show Returns (fun _ => True) (runStep (ChannelSet.remove p) s₁.channels)
        fun _ _ => True from Returns.of_forall fun _ _ => trivial)).mono
      rintro _ s₂ ⟨pool₂, -, -⟩
      refine ⟨dflt, none, by simp, given, by simpa using unneeded, fun m mem => ?_, by simp⟩
      rw [pool₂]
      exact defaults m mem
  split
  · rw [map_eq_pure_bind]
    apply returns_compile_bind
    apply returns_compile_bind
    apply ((returns_defaultInitializer (fun _ _ => trivial) layout fields primary consistent).and
      (returns_defaultInitializer_entry layout fields primary consistent)).mono
    rintro m s₁ ⟨⟨primary₁, grown₁, -⟩, default₁⟩
    exact rest (some m) s₁ primary₁ grown₁.pool (by simp [*]) fun m' mem => by
      rw [Option.mem_some_iff] at mem
      exact mem ▸ default₁
  · exact rest none s primary consistent (by simp [*]) fun _ absent => by cases absent

/-- A class's function entries, read in its entity's pool: the declared ones in member order,
then the implicit initializers it needs. -/
theorem returns_assembleClass_functions (cls : ClassDecl) (idle : s.channels.Idle) :
    Returns (fun _ => True) (runStep ((assembleClass cls).run c) s) fun e _ =>
      ∃ layout declared dflt stat, LayoutOf c cls layout ∧ e.name = layout.name ∧
        e.entity.functions = declared ++ dflt.toList ++ stat.toList ∧
        FunctionsSynthesized c cls layout e.entity.constants declared dflt stat := by
  unfold assembleClass
  apply returns_compile_bind
  apply returns_errorsSoFar.mono
  rintro _ s₀ ⟨-, rfl⟩
  apply returns_compile_bind
  apply returns_modify.mono
  rintro _ s₁ rfl
  apply returns_compile_read_bind
  dsimp only
  split
  next name kind =>
    apply returns_compile_pure_bind
    apply returns_compile_bind
    apply ((returns_resolveSuperclasses cls ConstantPool.consistent_empty).and
      (superclass_resolveSuperclasses cls)).mono
    rintro superNames s₂ ⟨kept₂, superclass₂⟩
    apply returns_compile_bind
    apply (returns_onPool (fun _ _ => trivial) (ConstantPool.interns_binaryName name) kept₂.2.pool).mono
    rintro self s₃ ⟨channels₃, grown₃, -⟩
    apply returns_compile_bind
    apply (returns_internNames (fun _ _ => trivial) superNames grown₃.pool).mono
    rintro supers s₄ ⟨kept₄, -⟩
    have idle₄ : s₄.channels.Idle := by
      rw [kept₄.1, channels₃, kept₂.1]
      exact idle
    apply returns_compile_bind
    apply ((returns_assignTable (fun _ _ => trivial) _ _ _ _).and (assignTable_assignAll _ _ _ _)).mono
    rintro layout s₅ ⟨rfl, built⟩
    apply returns_compile_bind
    apply (returns_onChannels (show Returns (fun _ => True) (runStep ChannelSet.add s₅.channels) fun n cs =>
      n = s₅.channels.slots.size ∧ cs = ⟨s₅.channels.slots.push (some #[]), s₅.channels.active⟩ from ⟨rfl, rfl⟩)).mono
    rintro primary s₆ ⟨pool₆, -, rfl, channels₆⟩
    apply returns_compile_bind
    have opened := idle₄.setActive
    apply (returns_onChannels (show Returns (fun _ => True) (runStep (ChannelSet.setActive s₅.channels.slots.size)
      s₆.channels) fun _ cs => cs.Primary s₅.channels.slots.size by rw [channels₆, opened.1]; exact opened.2)).mono
    rintro _ s₇ ⟨pool₇, -, primary₇⟩
    have consistent₇ : s₇.pool.Consistent := by
      rw [pool₇, pool₆]
      exact kept₄.2.pool
    apply returns_compile_bind
    apply (returns_fieldMembers (fun _ _ => trivial) _ consistent₇).mono
    rintro fieldEntries s₈ ⟨kept₈, -⟩
    apply returns_compile_bind
    apply ((returns_functionMembers (fun _ _ => trivial) layout _ _ (.inr fun _ _ => trivial) (kept₈.1 ▸ primary₇)
      kept₈.2.pool).and (returns_functionMembers_entries layout _ _ (kept₈.1 ▸ primary₇) kept₈.2.pool)).mono
    rintro declared s₉ ⟨⟨primary₉, grown₉, -⟩, declared₉⟩
    apply returns_compile_bind
    apply ((returns_implicitMembers (fun _ _ => trivial) layout _ _ _ primary₉ grown₉.pool).and
      (returns_implicitMembers_entries layout _ _ _ primary₉ grown₉.pool)).mono
    rintro _ s₁₀ ⟨⟨idle₁₀, -, grown₁₀, -⟩, dflt, stat, rfl, defaultGiven, staticGiven, defaults, statics⟩
    apply returns_compile_get_bind
    rw [if_neg fun opened => opened (ChannelSet.openCount_eq_zero idle₁₀)]
    obtain ⟨sameName, sameSuperclass, sameScope⟩ := ClassLayout.assignAll_keeps
      ⟨name, superNames.headD c.settings.defaultSuperclass, cls.scope, []⟩ cls.slotKeys
    have fromPairs : layout = ClassLayout.assignAll ⟨_, _, cls.scope, []⟩ cls.slotKeys := built
    rw [← fromPairs] at sameName sameSuperclass sameScope
    refine ⟨layout, declared, dflt, stat, ⟨sameName ▸ kind, sameSuperclass.trans superclass₂, sameScope⟩,
      sameName.symm, (List.append_assoc _ _ _).symm, ⟨declared₉.imp fun _ _ entry => entry.mono grown₁₀.entries,
        ?_, defaults, ?_, statics⟩⟩
    · rw [defaultGiven]
      simp [List.all_eq_true]
    · rw [staticGiven]
      simp [List.any_eq_true]
  next => trivial

end Steps

/-- The functions of every class's entity: the declared ones in member order, then a default
initializer exactly when no member is an initializer, then a static initializer exactly when a
declarator of a static field has an initial value. An instance initializer's code, the default
one's and a declared one's, begins by calling the initializer `()v` of the class's first resolved
superclass, or of the default superclass, on `this`, then stores the initial value of each
instance field declarator that has one, in declaration order, into the class's own field; the
default initializer then returns. The static initializer stores those of the static fields in the
same way, then returns. -/
theorem class_initializers_synthesized (c : Compiler) (cls : ClassDecl) (s : Session) (idle : s.channels.Idle) :
    Returns (fun _ => True) (runStep ((compileClass cls).run c) s) fun e _ =>
      ∃ layout declared dflt stat, LayoutOf c cls layout ∧ e.name = layout.name ∧
        e.entity.functions = declared ++ dflt.toList ++ stat.toList ∧
        FunctionsSynthesized c cls layout e.entity.constants declared dflt stat :=
  returns_compileClass_of_assembleClass (returns_assembleClass_functions cls idle)

theorem static_field_initializer_synthesized_in_new_session :
    ({} : Session).channels.Idle ∧
    Returns (fun _ => True) (runStep ((compileClass ⟨⟨"Main", ⟨1, 7⟩⟩, 0, [],
        [.field ⟨8, false, [(⟨"count", ⟨2, 10⟩⟩, some (.literal (.boolean true) ⟨2, 18⟩))]⟩], 0⟩).run
        ⟨{}, ⟨#[⟨.type ⟨"demo/Main"⟩, none, []⟩]⟩⟩) {})
      fun e _ => ∃ layout declared dflt stat,
        LayoutOf ⟨{}, ⟨#[⟨.type ⟨"demo/Main"⟩, none, []⟩]⟩⟩ ⟨⟨"Main", ⟨1, 7⟩⟩, 0, [],
          [.field ⟨8, false, [(⟨"count", ⟨2, 10⟩⟩, some (.literal (.boolean true) ⟨2, 18⟩))]⟩], 0⟩ layout ∧
        e.name = layout.name ∧ e.entity.functions = declared ++ dflt.toList ++ stat.toList ∧
        FunctionsSynthesized ⟨{}, ⟨#[⟨.type ⟨"demo/Main"⟩, none, []⟩]⟩⟩ ⟨⟨"Main", ⟨1, 7⟩⟩, 0, [],
          [.field ⟨8, false, [(⟨"count", ⟨2, 10⟩⟩, some (.literal (.boolean true) ⟨2, 18⟩))]⟩], 0⟩ layout
          e.entity.constants declared dflt stat :=
  ⟨ChannelSet.idle_empty, class_initializers_synthesized _ _ {} ChannelSet.idle_empty⟩

end Session

end Febc
