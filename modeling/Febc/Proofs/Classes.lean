import Febc.Proofs.Body

/-!
# Compiling classes and units

A class is compiled between two states of the channels in which none is open
(`ChannelSet.Idle`): it opens its primary channel and makes it active (`ChannelSet.Primary`),
lowers each function on a channel of its own, which it closes again, and closes the primary
channel with the static initializer, or unused. The pool starts empty for every class and only
grows while the class is compiled, so what is known of a function's code, read in the pool when
the code was finished, holds in the pool the entity is written with.

The steps are stated for any predicate `ok` on stops that admits the limits of the format. With
`Halt.Allowed`, and scopes of the kinds compiling expects (`ClassDecl.Scoped`), they say that no
promise of the layers below is broken; with `fun _ => True` they say what every entity answered
holds, whatever the scopes.

Main statements:
* `Session.returns_functionMember`: a declared function's code is compiled as its descriptor says;
* `Session.returns_assembleClass`: a class leaves no channel open, its functions are compiled
  in its entity's pool, every index the entity holds outside its code names an entry of that pool
  of the kind it asks for (`EntityFile.Named`), and its error count is that of the errors reported
  while it was compiled;
* `Session.returns_compileUnit`: the same for every class of a unit.
-/

namespace Febc

theorem Returns.weaken {ε σ α : Type} {allowed allowed' : ε → Prop} {r : Except ε α × σ} {post : α → σ → Prop}
    (returns : Returns allowed r post) (weaker : ∀ e, allowed e → allowed' e) : Returns allowed' r post := by
  match r, returns with
  | (.ok _, _), returns => exact returns
  | (.error e, _), returns => exact weaker e returns

namespace ChannelSet

/-- No channel is open: the channels between two classes. -/
def Idle (cs : ChannelSet) : Prop := ∀ (c : Nat) (bytes : Array UInt8), cs.slots[c]? ≠ some (some bytes)

/-- The channels while a class is compiled: its primary channel `p` is open, empty and active, and
no other channel is open. -/
def Primary (cs : ChannelSet) (p : Nat) : Prop :=
  cs.active = some p ∧ cs.slots[p]? = some (some #[]) ∧
    ∀ c ≠ p, ∀ bytes : Array UInt8, cs.slots[c]? ≠ some (some bytes)

theorem idle_empty : ({} : ChannelSet).Idle := fun _ _ => by simp

theorem openCount_eq_zero {cs : ChannelSet} (idle : cs.Idle) : cs.openCount = 0 := by
  unfold openCount
  rw [List.countP_eq_zero]
  intro slot mem
  obtain ⟨i, below, found⟩ := List.getElem_of_mem mem
  cases slot with
  | none => simp
  | some bytes =>
    exact absurd (Array.getElem?_eq_some_iff.mpr ⟨by simpa using below, by simpa using found⟩) (idle i bytes)

theorem Primary.ready {cs : ChannelSet} {p : Nat} (primary : cs.Primary p) (channel : Option Nat)
    (given : ∀ ch, channel = some ch → ch = p) : cs.Ready channel :=
  ⟨fun q active => ⟨#[], by rw [primary.1] at active; cases active; exact primary.2.1⟩,
    fun ch same => given ch same ▸ primary.2.1⟩

/-- Closing the primary channel leaves no channel open. -/
theorem Primary.remove {cs : ChannelSet} {p : Nat} (primary : cs.Primary p) :
    ∃ cs', runStep (remove p) cs = (.ok #[], cs') ∧ cs'.Idle ∧ cs'.active = none := by
  obtain ⟨slots, active⟩ := cs
  obtain ⟨isActive, slot, others⟩ := primary
  dsimp only at isActive slot others
  have below : p < slots.size := (Array.getElem?_eq_some_iff.mp slot).1
  refine ⟨⟨slots.set! p none, if active = some p then none else active⟩,
    by simp only [ChannelSet.remove, runStep_mk, slot], fun c bytes => ?_, by simp [isActive]⟩
  by_cases same : c = p
  · simp [same, Array.set!_eq_setIfInBounds, below]
  · simpa [Array.set!_eq_setIfInBounds, Array.getElem?_setIfInBounds, Ne.symm same] using others c same bytes

/-- Opening a channel when none is open, and making it active: it becomes the primary channel. -/
theorem Idle.setActive {cs : ChannelSet} (idle : cs.Idle) :
    runStep (setActive cs.slots.size) ⟨cs.slots.push (some #[]), cs.active⟩ =
      (.ok (), ⟨cs.slots.push (some #[]), some cs.slots.size⟩) ∧
    Primary ⟨cs.slots.push (some #[]), some cs.slots.size⟩ cs.slots.size := by
  refine ⟨by simp [ChannelSet.setActive, runStep_mk], rfl, by simp, fun c other bytes => ?_⟩
  simpa [Array.getElem?_push, other] using idle c bytes

end ChannelSet

/-- Is the scope a class body? -/
def ScopeKind.isClass : ScopeKind → Bool
  | .type _ => true
  | _ => false

/-- Is the scope a function's? -/
def ScopeKind.isFunction : ScopeKind → Bool
  | .function .. => true
  | _ => false

theorem ScopeKind.exists_of_isClass {k : ScopeKind} (isClass : k.isClass) : ∃ name, k = .type name := by
  cases k <;> simp_all [ScopeKind.isClass]

theorem ScopeKind.exists_of_isFunction {k : ScopeKind} (isFunction : k.isFunction) :
    ∃ isStatic count, k = .function isStatic count := by
  cases k <;> simp_all [ScopeKind.isFunction]

/-- The scopes a class is compiled in have the kinds its compilation expects: the class's own
scope is a class body, and each function's scope is a function. -/
def ClassDecl.Scoped (symbols : SymbolTable) (cls : ClassDecl) : Prop :=
  (symbols.kind cls.scope).isClass ∧ ∀ f ∈ Session.functionDecls cls.members, (symbols.kind f.scope).isFunction

instance (symbols : SymbolTable) (cls : ClassDecl) : Decidable (cls.Scoped symbols) :=
  inferInstanceAs (Decidable (_ ∧ _))

/-- A step of compiling a class that leaves the channels alone and only grows the session. -/
def Session.Keeps (s s' : Session) : Prop := s'.channels = s.channels ∧ Session.Grows s s'

theorem Session.Grows.trans {s₁ s₂ s₃ : Session} (first : Session.Grows s₁ s₂) (second : Session.Grows s₂ s₃) :
    Session.Grows s₁ s₃ :=
  ⟨second.pool, first.entries.trans second.entries, first.diagnostics.trans second.diagnostics⟩

theorem Session.Grows.refl {s : Session} (consistent : s.pool.Consistent) : Session.Grows s s :=
  ⟨consistent, List.prefix_refl _, List.prefix_refl _⟩

theorem Session.Keeps.refl {s : Session} (consistent : s.pool.Consistent) : Session.Keeps s s :=
  ⟨rfl, .refl consistent⟩

theorem Session.Keeps.trans {s₁ s₂ s₃ : Session} (first : Session.Keeps s₁ s₂) (second : Session.Keeps s₂ s₃) :
    Session.Keeps s₁ s₃ :=
  ⟨second.1.trans first.1, first.2.trans second.2⟩

/-- The names a member is written with are texts of the pool: its own name, its descriptor, and
the name of each of its attributes. -/
structure Member.Named (entries : Array Constant) (m : Member) : Prop where
  name : Names entries m.nameIndex Constant.isUtf8
  descriptor : Names entries m.descriptorIndex Constant.isUtf8
  attributes : ∀ attr ∈ m.attributes, Names entries attr.nameIndex Constant.isUtf8

theorem Member.Named.mono {entries entries' : Array Constant} {m : Member} (named : m.Named entries)
    (grown : entries.toList <+: entries'.toList) : m.Named entries' :=
  ⟨named.name.mono grown, named.descriptor.mono grown, fun attr mem => (named.attributes attr mem).mono grown⟩

namespace Session

open Lowering

section Steps

variable {α β : Type} {c : Compiler} {ok : Halt → Prop} {s : Session}

theorem returns_compile_bind {m : CompileM α} {f : α → CompileM β} {post : β → Session → Prop}
    (first : Returns ok (runStep (m.run c) s) fun a s' => Returns ok (runStep ((f a).run c) s') post) :
    Returns ok (runStep ((m >>= f).run c) s) post :=
  Febc.returns_bind first

/-- Interning in a session: the channels are left alone and the session only grows. -/
theorem returns_onPool {m : PoolM Nat} {post : Nat → ConstantPool → Prop}
    (limits : ∀ e : Error, e.Allowed → ok (.error e)) (interns : ConstantPool.Interns m post)
    (consistent : s.pool.Consistent) :
    Returns ok (runStep ((onPool m).run c) s) fun i s' =>
      s'.channels = s.channels ∧ Session.Grows s s' ∧ post i s'.pool := by
  obtain ⟨pool, channels, diagnostics⟩ := s
  have interned := interns pool consistent
  simp only [onPool, ReaderT.run, runStep_mk]
  revert interned
  generalize runStep m pool = r
  obtain ⟨_ | i, pool'⟩ := r
  · exact limits _
  · rintro ⟨grown, holds⟩
    exact ⟨rfl, ⟨grown.1, grown.2.1, List.prefix_refl _⟩, holds⟩

/-- A declared name is used as a member name as it is, or stops the class as malformed. -/
theorem returns_memberName (limits : ∀ e : Error, e.Allowed → ok (.error e)) (name : Ident) :
    Returns ok (runStep ((memberName name).run c) s) fun text s' => s' = s ∧ text = name.text := by
  unfold memberName
  split
  · exact ⟨rfl, rfl⟩
  · exact limits _ trivial

theorem returns_functionName (limits : ∀ e : Error, e.Allowed → ok (.error e)) (f : FunctionDecl) :
    Returns ok (runStep ((functionName f).run c) s) fun _ s' => s' = s := by
  unfold functionName
  split
  · exact rfl
  · exact (returns_memberName limits f.name).mono fun _ _ facts => facts.1

theorem returns_compile_read_bind {f : Compiler → CompileM α} {post : α → Session → Prop}
    (returns : Returns ok (runStep ((f c).run c) s) post) : Returns ok (runStep ((read >>= f).run c) s) post :=
  returns

theorem returns_compile_get_bind {f : Session → CompileM α} {post : α → Session → Prop}
    (returns : Returns ok (runStep ((f s).run c) s) post) : Returns ok (runStep ((get >>= f).run c) s) post :=
  returns

/-- Reporting a problem only adds a diagnostic. -/
theorem returns_report (kind : DiagnosticKind) (pos : Position) (message : String) (consistent : s.pool.Consistent) :
    Returns ok (runStep ((report kind pos message).run c) s) fun _ s' => s.Keeps s' :=
  ⟨rfl, consistent, List.prefix_refl _, by simp⟩

/-- The superclasses named by a class are resolved one by one; a name that is no class is
reported. -/
theorem returns_resolveClasses (scope : Nat) (supers : List Ident) (consistent : s.pool.Consistent) :
    Returns ok (runStep ((resolveClasses scope supers).run c) s) fun _ s' => s.Keeps s' := by
  induction supers generalizing s with
  | nil => exact Session.Keeps.refl consistent
  | cons super rest ih =>
    unfold resolveClasses
    apply returns_compile_read_bind
    split
    · apply returns_compile_bind
      exact (ih consistent).mono fun _ s' kept => kept
    · apply returns_compile_bind
      apply (returns_report _ _ _ consistent).mono
      intro _ s₁ kept₁
      exact (ih kept₁.2.pool).mono fun _ s₂ kept₂ => kept₁.trans kept₂

theorem returns_resolveSuperclasses (cls : ClassDecl) (consistent : s.pool.Consistent) :
    Returns ok (runStep ((resolveSuperclasses cls).run c) s) fun _ s' => s.Keeps s' := by
  unfold resolveSuperclasses
  apply returns_compile_read_bind
  apply returns_compile_bind
  exact (returns_resolveClasses _ _ consistent).mono fun _ _ kept => kept

theorem returns_modify {f : Session → Session} :
    Returns ok (runStep ((modify f : CompileM PUnit).run c) s) fun _ s' => s' = f s :=
  rfl

theorem returns_compile_pure_bind {a : α} {f : α → CompileM β} {post : β → Session → Prop}
    (returns : Returns ok (runStep ((f a).run c) s) post) : Returns ok (runStep ((pure a >>= f).run c) s) post :=
  returns

theorem runStep_tryCatch (m : CompileM α) (f : Halt → CompileM α) :
    runStep ((tryCatch m f).run c) s = match runStep (m.run c) s with
      | (.ok a, s') => (.ok a, s')
      | (.error e, s') => runStep ((f e).run c) s' := by
  unfold runStep
  change (ExceptT.tryCatch (m c) (fun e => f e c)).run.run s = _
  simp only [ExceptT.tryCatch, ExceptT.run, ExceptT.mk, ReaderT.run, StateT.run_bind]
  generalize StateT.run (m c) s = r
  rcases r with ⟨_ | a, s'⟩ <;> rfl

theorem returns_errorsSoFar :
    Returns ok (runStep (errorsSoFar.run c) s) fun e s' => e = errorCount s.diagnostics.toList ∧ s' = s :=
  ⟨rfl, rfl⟩

/-- Running a step of the channels changes nothing else. -/
theorem returns_onChannels {m : ChannelM α} {post : α → ChannelSet → Prop}
    (returns : Returns ok (runStep m s.channels) post) :
    Returns ok (runStep ((onChannels m).run c) s) fun a s' =>
      s'.pool = s.pool ∧ s'.diagnostics = s.diagnostics ∧ post a s'.channels := by
  obtain ⟨pool, channels, diagnostics⟩ := s
  simp only [onChannels, ReaderT.run, runStep_mk]
  revert returns
  generalize runStep m channels = r
  obtain ⟨_ | a, cs⟩ := r
  · exact id
  · exact fun holds => ⟨rfl, rfl, holds⟩

variable (limits : ∀ e : Error, e.Allowed → ok (.error e))
include limits

theorem returns_assignFunctions (layout : ClassLayout) (functions : List FunctionDecl) :
    Returns ok (runStep ((assignFunctions layout functions).run c) s) fun _ s' => s' = s := by
  induction functions generalizing layout with
  | nil => exact rfl
  | cons f rest ih =>
    unfold assignFunctions
    apply returns_compile_bind
    apply (returns_functionName limits f).mono
    rintro _ _ rfl
    exact ih _

theorem returns_assignTable (layout : ClassLayout) (functions : List FunctionDecl) (needsDefault needsStatic : Bool) :
    Returns ok (runStep ((assignTable layout functions needsDefault needsStatic).run c) s) fun _ s' => s' = s := by
  unfold assignTable
  apply returns_compile_bind
  exact (returns_assignFunctions limits layout functions).mono fun _ _ same => same

/-- The field entries of declarators: each name is checked and interned, and is a text of the
pool, as the descriptor they share is. -/
theorem returns_declaratorMembers (flags descriptor next : Nat) (decls : List (Ident × Option Expr))
    (consistent : s.pool.Consistent) (descriptors : Names s.pool.entries descriptor Constant.isUtf8) :
    Returns ok (runStep ((declaratorMembers flags descriptor next decls).run c) s) fun ms s' =>
      s.Keeps s' ∧ ∀ m ∈ ms, m.Named s'.pool.entries := by
  induction decls generalizing s next with
  | nil => exact ⟨Session.Keeps.refl consistent, by simp⟩
  | cons decl rest ih =>
    obtain ⟨name, init⟩ := decl
    unfold declaratorMembers
    apply returns_compile_bind
    apply (returns_memberName limits name).mono
    rintro _ _ ⟨rfl, -⟩
    apply returns_compile_bind
    apply (returns_onPool limits (ConstantPool.interns_text _) consistent).mono
    rintro _ s₁ ⟨channels₁, grown₁, named₁, -⟩
    apply returns_compile_bind
    apply (ih (next + 1) grown₁.pool (descriptors.mono grown₁.entries)).mono
    rintro _ s₂ ⟨kept₂, named₂⟩
    refine ⟨Session.Keeps.trans ⟨channels₁, grown₁⟩ kept₂, ?_⟩
    rintro m (_ | ⟨_, mem⟩)
    · exact ⟨named₁.mono kept₂.2.entries, descriptors.mono (grown₁.entries.trans kept₂.2.entries), by simp⟩
    · exact named₂ m mem

theorem returns_declMembers (descriptor next : Nat) (fields : List FieldDecl) (consistent : s.pool.Consistent)
    (descriptors : Names s.pool.entries descriptor Constant.isUtf8) :
    Returns ok (runStep ((declMembers descriptor next fields).run c) s) fun ms s' =>
      s.Keeps s' ∧ ∀ m ∈ ms, m.Named s'.pool.entries := by
  induction fields generalizing s next with
  | nil => exact ⟨Session.Keeps.refl consistent, by simp⟩
  | cons decl rest ih =>
    unfold declMembers
    apply returns_compile_bind
    apply (returns_declaratorMembers limits _ _ _ _ consistent descriptors).mono
    rintro _ s₁ ⟨kept₁, named₁⟩
    apply returns_compile_bind
    apply (ih _ kept₁.2.pool (descriptors.mono kept₁.2.entries)).mono
    rintro _ s₂ ⟨kept₂, named₂⟩
    refine ⟨kept₁.trans kept₂, fun m mem => ?_⟩
    rcases List.mem_append.mp mem with here | more
    · exact (named₁ m here).mono kept₂.2.entries
    · exact named₂ m more

/-- The field entries of a class, all named by texts of the pool. -/
theorem returns_fieldMembers (fields : List FieldDecl) (consistent : s.pool.Consistent) :
    Returns ok (runStep ((fieldMembers fields).run c) s) fun ms s' =>
      s.Keeps s' ∧ ∀ m ∈ ms, m.Named s'.pool.entries := by
  unfold fieldMembers
  apply returns_compile_bind
  apply (returns_onPool limits (ConstantPool.interns_text _) consistent).mono
  rintro _ s₁ ⟨channels₁, grown₁, descriptors, -⟩
  exact (returns_declMembers limits _ _ fields grown₁.pool descriptors).mono
    fun _ s₂ ⟨kept₂, named₂⟩ => ⟨Session.Keeps.trans ⟨channels₁, grown₁⟩ kept₂, named₂⟩

end Steps

end Session

/-- A function entry whose code, if it has any, is compiled: its descriptor is a text of the
pool, and each of its attributes holds code whose returns match that descriptor. -/
def Member.Compiled (entries : Array Constant) (m : Member) : Prop :=
  ∃ d : FunctionDescriptor, entries[m.descriptorIndex - 1]? = some (.utf8 d.render) ∧
    ∀ attr ∈ m.attributes, ∃ (a : InstructionAttribute) (is : List Instruction),
      attr.info = a.serialize ∧ a.Compiled d.ret.isNone entries is

theorem Member.Compiled.mono {m : Member} {entries entries' : Array Constant} (compiled : m.Compiled entries)
    (grown : entries.toList <+: entries'.toList) : m.Compiled entries' := by
  obtain ⟨d, named, attrs⟩ := compiled
  refine ⟨d, ConstantPool.entry_of_prefix grown named, fun attr mem => ?_⟩
  obtain ⟨a, is, info, code⟩ := attrs attr mem
  exact ⟨a, is, info, code.mono grown⟩

/-- The functions of an entity are compiled in its own pool. -/
def EntityFile.Compiled (e : EntityFile) : Prop := ∀ m ∈ e.functions, m.Compiled e.constants

/-- Every index an entity holds outside its code names an entry of its own pool, of the kind the
format asks for: each entry of the pool refers only to entries before it, the entity and its
superclasses are classes, and every attribute and member is named by texts. -/
structure EntityFile.Named (e : EntityFile) : Prop where
  pool : ∀ (j : Nat) (k : Constant), e.constants[j]? = some k → k.PointsBelow e.constants (j + 1)
  self : Names e.constants e.self Constant.isClassRef
  supers : ∀ i ∈ e.supers, Names e.constants i Constant.isClassRef
  attributes : ∀ attr ∈ e.attributes, Names e.constants attr.nameIndex Constant.isUtf8
  fields : ∀ m ∈ e.fields, m.Named e.constants
  functions : ∀ m ∈ e.functions, m.Named e.constants

namespace Lowering

/-- The code of a declared function: an initializer first initializes the instance. -/
theorem leaves_functionBody (env : FunctionEnv) (isInitializer : Bool) (fields : List FieldDecl) (body : Block) :
    Leaves env (if isInitializer then do initializeInstance fields; lowerBlock body else lowerBlock body) 0 0 := by
  cases isInitializer
  · exact leaves_lowerBlock body env
  · exact (leaves_initializeInstance fields).seq fun _ => leaves_lowerBlock body env

end Lowering

namespace Session

/-- A body lowered on a new channel leaves the primary channel as it was. -/
theorem Closes.primary {p : Nat} {s s' : Session} (primary : s.channels.Primary p)
    (closes : Closes s.channels.slots.size s s') : s'.channels.Primary p := by
  have below : p < s.channels.slots.size := (Array.getElem?_eq_some_iff.mp primary.2.1).1
  refine ⟨?_, closes.others p (by omega) ▸ primary.2.1, fun c other bytes => ?_⟩
  · simp [closes.active, primary.1, Nat.ne_of_lt below]
  · by_cases fresh : c = s.channels.slots.size
    · simp [fresh, closes.closed]
    · rw [closes.others c fresh]
      exact primary.2.2 c other bytes

/-- A body lowered on the primary channel closes the last open channel. -/
theorem Closes.idle {p : Nat} {s s' : Session} (primary : s.channels.Primary p) (closes : Closes p s s') :
    s'.channels.Idle := by
  intro c bytes
  by_cases same : c = p
  · simp [same, closes.closed]
  · rw [closes.others c same]
    exact primary.2.2 c same bytes

/-- A body lowered on the primary channel leaves no channel active: the channel active before it
was its own. -/
theorem Closes.inactive {p : Nat} {s s' : Session} (primary : s.channels.Primary p) (closes : Closes p s s') :
    s'.channels.active = none := by
  rw [closes.active, primary.1]
  simp

section Members

variable {c : Compiler} {ok : Halt → Prop} {s : Session} (limits : ∀ e : Error, e.Allowed → ok (.error e))
include limits

theorem ok_of_allowed : ∀ h : Halt, h.Allowed → ok h
  | .error e, allowed => limits e allowed
  | .violation _, allowed => allowed.elim

/-- The last steps of every function entry: its name and its descriptor are interned, and with
the names of its attributes they are texts of the pool. -/
theorem returns_functionEntry (flags table : Nat) (name : String) (d : FunctionDescriptor) (attrs : List Attribute)
    (consistent : s.pool.Consistent)
    (code : ∀ attr ∈ attrs, ∃ (a : InstructionAttribute) (is : List Instruction),
      attr.info = a.serialize ∧ a.Compiled d.ret.isNone s.pool.entries is)
    (attrNames : ∀ attr ∈ attrs, Names s.pool.entries attr.nameIndex Constant.isUtf8) :
    Returns ok (runStep ((do
      let nameIndex ← onPool (ConstantPool.internUtf8 name)
      let descriptorIndex ← onPool (ConstantPool.internUtf8 d.render)
      pure (⟨flags, nameIndex, descriptorIndex, table, attrs⟩ : Member)).run c) s) fun m s' =>
        s'.channels = s.channels ∧ Grows s s' ∧ m.Compiled s'.pool.entries ∧ m.Named s'.pool.entries := by
  apply returns_compile_bind
  apply (returns_onPool limits (ConstantPool.interns_text name) consistent).mono
  rintro _ s₁ ⟨channels₁, grown₁, named₁, -⟩
  apply returns_compile_bind
  apply (returns_onPool limits (ConstantPool.interns_text d.render) grown₁.pool).mono
  rintro j s₂ ⟨channels₂, grown₂, described, text⟩
  have grown := grown₁.trans grown₂
  refine ⟨channels₂.trans channels₁, grown, ⟨d, text, fun attr mem => ?_⟩,
    ⟨named₁.mono grown₂.entries, described, fun attr mem => (attrNames attr mem).mono grown.entries⟩⟩
  obtain ⟨a, is, info, compiled⟩ := code attr mem
  exact ⟨a, is, info, compiled.mono grown.entries⟩

/-- A declared function's entry: its code, if it has a body, is lowered on a new channel, which
leaves the primary channel as it was; the descriptor it names matches its code's returns. -/
theorem returns_functionMember (layout : ClassLayout) (fields : List FieldDecl) (f : FunctionDecl) {p : Nat}
    (kinds : (∃ isStatic count, c.symbols.kind f.scope = .function isStatic count) ∨
      ∀ name kind, ok (.violation (.functionScope name kind)))
    (primary : s.channels.Primary p) (consistent : s.pool.Consistent) :
    Returns ok (runStep ((functionMember layout fields f).run c) s) fun m s' =>
      s'.channels.Primary p ∧ Grows s s' ∧ m.Compiled s'.pool.entries ∧ m.Named s'.pool.entries := by
  have returns : (if f.isInitializer then FunctionDescriptor.initializer f.params.length
      else .dynamic f.params.length).ret.isNone = f.isInitializer := by
    cases f.isInitializer <;> rfl
  unfold functionMember
  apply returns_compile_read_bind
  dsimp only
  split
  next isStatic base kind =>
    simp only [pure_bind]
    apply returns_compile_bind
    apply (returns_functionName limits f).mono
    rintro _ _ rfl
    split
    · apply (returns_functionEntry limits _ _ _ _ [] consistent (by simp) (by simp)).mono
      rintro m s' ⟨channels, grown, written⟩
      exact ⟨channels ▸ primary, grown, written⟩
    · apply returns_compile_bind
      apply ((returns_lowerBody layout _ none _ _ (Lowering.leaves_functionBody _ _ _ _) (primary.ready none nofun)
        consistent).weaken (ok_of_allowed limits)).mono
      rintro code s₁ ⟨⟨a, is, info, compiled⟩, named, closes⟩
      have attributes : ∀ attr ∈ [code], ∃ (a : InstructionAttribute) (is : List Instruction),
          attr.info = a.serialize ∧ a.Compiled f.isInitializer s₁.pool.entries is := by
        rintro attr (_ | ⟨_, ⟨⟩⟩)
        exact ⟨a, is, info, compiled⟩
      apply (returns_functionEntry limits _ _ _ _ [code] closes.pool (by rw [returns]; exact attributes)
        (by rintro attr (_ | ⟨_, ⟨⟩⟩); exact named)).mono
      rintro m s₂ ⟨channels, grown, written⟩
      exact ⟨channels ▸ closes.primary primary, closes.trans grown, written⟩
  next other notFunction =>
    rcases kinds with ⟨isStatic, count, kind⟩ | violations
    · exact absurd kind (notFunction isStatic count)
    · exact violations _ _

/-- The entries of the declared functions, each compiled, with the primary channel kept. -/
theorem returns_functionMembers (layout : ClassLayout) (fields : List FieldDecl) (functions : List FunctionDecl)
    {p : Nat}
    (kinds : (∀ f ∈ functions, ∃ isStatic count, c.symbols.kind f.scope = .function isStatic count) ∨
      ∀ name kind, ok (.violation (.functionScope name kind)))
    (primary : s.channels.Primary p) (consistent : s.pool.Consistent) :
    Returns ok (runStep ((functionMembers layout fields functions).run c) s) fun ms s' =>
      s'.channels.Primary p ∧ Grows s s' ∧ ∀ m ∈ ms, m.Compiled s'.pool.entries ∧ m.Named s'.pool.entries := by
  induction functions generalizing s with
  | nil => exact ⟨primary, .refl consistent, by simp⟩
  | cons f rest ih =>
    unfold functionMembers
    apply returns_compile_bind
    apply (returns_functionMember limits layout fields f (kinds.imp (fun all => all f (by simp)) id) primary
      consistent).mono
    rintro m s₁ ⟨primary₁, grown₁, compiled₁, named₁⟩
    apply returns_compile_bind
    apply (ih (kinds.imp (fun all g mem => all g (by simp [mem])) id) primary₁ grown₁.pool).mono
    rintro ms s₂ ⟨primary₂, grown₂, written₂⟩
    refine ⟨primary₂, grown₁.trans grown₂, ?_⟩
    rintro m' (_ | ⟨_, mem⟩)
    · exact ⟨compiled₁.mono grown₂.entries, named₁.mono grown₂.entries⟩
    · exact written₂ m' mem

/-- The default initializer is lowered on a new channel, which leaves the primary channel as it
was. -/
theorem returns_defaultInitializer (layout : ClassLayout) (fields : List FieldDecl) {p : Nat}
    (primary : s.channels.Primary p) (consistent : s.pool.Consistent) :
    Returns ok (runStep ((defaultInitializer layout fields).run c) s) fun m s' =>
      s'.channels.Primary p ∧ Grows s s' ∧ m.Compiled s'.pool.entries ∧ m.Named s'.pool.entries := by
  unfold defaultInitializer
  apply returns_compile_bind
  apply ((returns_lowerBody layout _ none _ _ (Lowering.leaves_initializeInstance fields) (primary.ready none nofun)
    consistent).weaken (ok_of_allowed limits)).mono
  rintro code s₁ ⟨⟨a, is, info, compiled⟩, named, closes⟩
  apply (returns_functionEntry limits _ _ _ (FunctionDescriptor.initializer 0) [code] closes.pool ?_ ?_).mono
  · rintro m s₂ ⟨channels, grown, written⟩
    exact ⟨channels ▸ closes.primary primary, closes.trans grown, written⟩
  · rintro attr (_ | ⟨_, ⟨⟩⟩)
    exact ⟨a, is, info, compiled⟩
  · rintro attr (_ | ⟨_, ⟨⟩⟩)
    exact named

/-- The static initializer is lowered on the primary channel, which closes the last open
channel. -/
theorem returns_staticInitializer (layout : ClassLayout) (fields : List FieldDecl) {p : Nat}
    (primary : s.channels.Primary p) (consistent : s.pool.Consistent) :
    Returns ok (runStep ((staticInitializer layout fields p).run c) s) fun m s' =>
      s'.channels.Idle ∧ s'.channels.active = none ∧ Grows s s' ∧ m.Compiled s'.pool.entries ∧
        m.Named s'.pool.entries := by
  unfold staticInitializer
  apply returns_compile_bind
  apply ((returns_lowerBody layout _ (some p) _ _ (Lowering.leaves_initializeFields fields true)
    (primary.ready (some p) fun _ same => (Option.some.inj same).symm) consistent).weaken (ok_of_allowed limits)).mono
  rintro code s₁ ⟨⟨a, is, info, compiled⟩, named, closes⟩
  apply (returns_functionEntry limits _ _ _ (FunctionDescriptor.initializer 0) [code] closes.pool ?_ ?_).mono
  · rintro m s₂ ⟨channels, grown, written⟩
    exact ⟨channels ▸ closes.idle primary, channels ▸ closes.inactive primary, closes.trans grown, written⟩
  · rintro attr (_ | ⟨_, ⟨⟩⟩)
    exact ⟨a, is, info, compiled⟩
  · rintro attr (_ | ⟨_, ⟨⟩⟩)
    exact named

/-- The implicit initializers: the default initializer keeps the primary channel, and the static
initializer, or closing the primary channel unused, leaves no channel open. -/
theorem returns_implicitMembers (layout : ClassLayout) (fields : List FieldDecl) {p : Nat}
    (needsDefault needsStatic : Bool) (primary : s.channels.Primary p) (consistent : s.pool.Consistent) :
    Returns ok (runStep ((implicitMembers layout fields p needsDefault needsStatic).run c) s) fun ms s' =>
      s'.channels.Idle ∧ s'.channels.active = none ∧ Grows s s' ∧
        ∀ m ∈ ms, m.Compiled s'.pool.entries ∧ m.Named s'.pool.entries := by
  unfold implicitMembers
  dsimp only
  have rest : ∀ (ms : List Member) (s₁ : Session), s₁.channels.Primary p → Grows s s₁ →
      (∀ m ∈ ms, m.Compiled s₁.pool.entries ∧ m.Named s₁.pool.entries) →
      Returns ok (runStep ((if needsStatic then do
          let init ← staticInitializer layout fields p
          pure (ms ++ [init])
        else do
          let _ ← onChannels (ChannelSet.remove p)
          pure ms).run c) s₁) fun ms s' =>
        s'.channels.Idle ∧ s'.channels.active = none ∧ Grows s s' ∧
          ∀ m ∈ ms, m.Compiled s'.pool.entries ∧ m.Named s'.pool.entries := by
    intro ms s₁ primary₁ grown₁ written₁
    split
    · apply returns_compile_bind
      apply (returns_staticInitializer limits layout fields primary₁ grown₁.pool).mono
      rintro m s₂ ⟨idle₂, inactive₂, grown₂, written₂⟩
      refine ⟨idle₂, inactive₂, grown₁.trans grown₂, ?_⟩
      simp only [List.mem_append, List.mem_singleton]
      rintro m' (mem | rfl)
      · exact ⟨(written₁ m' mem).1.mono grown₂.entries, (written₁ m' mem).2.mono grown₂.entries⟩
      · exact written₂
    · obtain ⟨cs', removed, idle, inactive⟩ := primary₁.remove
      have closing : Returns ok (runStep (ChannelSet.remove p) s₁.channels) fun _ cs => cs.Idle ∧ cs.active = none := by
        rw [removed]
        exact ⟨idle, inactive⟩
      apply returns_compile_bind
      apply (returns_onChannels closing).mono
      rintro _ s₂ ⟨pool₂, diagnostics₂, idle₂, inactive₂⟩
      refine ⟨idle₂, inactive₂, ⟨pool₂ ▸ grown₁.pool, pool₂ ▸ grown₁.entries, diagnostics₂ ▸ grown₁.diagnostics⟩, ?_⟩
      simpa [pool₂] using written₁
  split
  · rw [map_eq_pure_bind]
    apply returns_compile_bind
    apply returns_compile_bind
    apply (returns_defaultInitializer limits layout fields primary consistent).mono
    rintro m s₁ ⟨primary₁, grown₁, written₁⟩
    exact rest [m] s₁ primary₁ grown₁ (by simpa using written₁)
  · exact rest [] s primary (.refl consistent) (by simp)

/-- Class names interned in turn each name a class of the pool. -/
theorem returns_internNames (names : List BinaryName) (consistent : s.pool.Consistent) :
    Returns ok (runStep ((names.mapM fun n => onPool n.intern).run c) s) fun is s' =>
      s.Keeps s' ∧ ∀ i ∈ is, Names s'.pool.entries i Constant.isClassRef := by
  induction names generalizing s with
  | nil =>
    rw [List.mapM_nil]
    exact ⟨Session.Keeps.refl consistent, by simp⟩
  | cons n rest ih =>
    rw [List.mapM_cons]
    apply returns_compile_bind
    apply (returns_onPool limits (ConstantPool.interns_binaryName n) consistent).mono
    rintro _ s₁ ⟨channels₁, grown₁, class₁⟩
    apply returns_compile_bind
    apply (ih grown₁.pool).mono
    rintro _ s₂ ⟨kept₂, classes₂⟩
    refine ⟨Session.Keeps.trans ⟨channels₁, grown₁⟩ kept₂, ?_⟩
    rintro i (_ | ⟨_, mem⟩)
    · exact class₁.mono kept₂.2.entries
    · exact classes₂ i mem

theorem returns_assembleClass (cls : ClassDecl)
    (kinds : cls.Scoped c.symbols ∨
      ∀ name kind, ok (.violation (.classScope name kind)) ∧ ok (.violation (.functionScope name kind)))
    (idle : s.channels.Idle) :
    Returns ok (runStep ((assembleClass cls).run c) s) fun e s' =>
      s'.channels.Idle ∧ s'.channels.active = none ∧ (e.entity.Compiled ∧ e.entity.Named) ∧
        e.errorCount = errorCount s'.diagnostics.toList - errorCount s.diagnostics.toList := by
  unfold assembleClass
  apply returns_compile_bind
  apply returns_errorsSoFar.mono
  rintro errorsBefore s₀ ⟨rfl, rfl⟩
  apply returns_compile_bind
  apply returns_modify.mono
  rintro _ s₁ rfl
  apply returns_compile_read_bind
  dsimp only
  split
  next name kind =>
    apply returns_compile_pure_bind
    apply returns_compile_bind
    apply (returns_resolveSuperclasses cls ConstantPool.consistent_empty).mono
    rintro superNames s₂ kept₂
    apply returns_compile_bind
    apply (returns_onPool limits (ConstantPool.interns_binaryName name) kept₂.2.pool).mono
    rintro self s₃ ⟨channels₃, grown₃, selfClass⟩
    apply returns_compile_bind
    apply (returns_internNames limits superNames grown₃.pool).mono
    rintro supers s₄ ⟨kept₄, superClasses⟩
    have idle₄ : s₄.channels.Idle := by
      rw [kept₄.1, channels₃, kept₂.1]
      exact idle
    apply returns_compile_bind
    apply (returns_assignTable limits _ _ _ _).mono
    rintro layout s₅ rfl
    apply returns_compile_bind
    apply (returns_onChannels (show Returns ok (runStep ChannelSet.add s₅.channels) fun n cs =>
      n = s₅.channels.slots.size ∧ cs = ⟨s₅.channels.slots.push (some #[]), s₅.channels.active⟩ from ⟨rfl, rfl⟩)).mono
    rintro primary s₆ ⟨pool₆, diagnostics₆, rfl, channels₆⟩
    apply returns_compile_bind
    have opened := idle₄.setActive
    apply (returns_onChannels (show Returns ok (runStep (ChannelSet.setActive s₅.channels.slots.size) s₆.channels)
      fun _ cs => cs.Primary s₅.channels.slots.size by rw [channels₆, opened.1]; exact opened.2)).mono
    rintro _ s₇ ⟨pool₇, -, primary₇⟩
    have consistent₇ : s₇.pool.Consistent := by
      rw [pool₇, pool₆]
      exact kept₄.2.pool
    apply returns_compile_bind
    apply (returns_fieldMembers limits _ consistent₇).mono
    rintro fieldEntries s₈ ⟨kept₈, fieldsNamed⟩
    apply returns_compile_bind
    apply (returns_functionMembers limits layout _ _ (kinds.imp (fun known f mem => ScopeKind.exists_of_isFunction
      (known.2 f mem)) fun faults name kind => (faults name kind).2) (kept₈.1 ▸ primary₇) kept₈.2.pool).mono
    rintro declared s₉ ⟨primary₉, grown₉, declaredWritten⟩
    apply returns_compile_bind
    apply (returns_implicitMembers limits layout _ _ _ primary₉ grown₉.pool).mono
    rintro implicit s₁₀ ⟨idle₁₀, inactive₁₀, grown₁₀, implicitWritten⟩
    apply returns_compile_get_bind
    rw [if_neg fun opened => opened (ChannelSet.openCount_eq_zero idle₁₀)]
    -- the entity is written with the pool as it is now, which only grew since the class's own
    -- entries were interned
    have later : s₅.pool.entries.toList <+: s₁₀.pool.entries.toList := by
      have grown := kept₈.2.entries.trans (grown₉.entries.trans grown₁₀.entries)
      rwa [pool₇, pool₆] at grown
    have written : ∀ m ∈ declared ++ implicit, m.Compiled s₁₀.pool.entries ∧ m.Named s₁₀.pool.entries := by
      intro m mem
      rcases List.mem_append.mp mem with declaredMem | implicitMem
      · exact ⟨(declaredWritten m declaredMem).1.mono grown₁₀.entries,
          (declaredWritten m declaredMem).2.mono grown₁₀.entries⟩
      · exact implicitWritten m implicitMem
    refine ⟨idle₁₀, inactive₁₀, ⟨fun m mem => (written m mem).1, ?_⟩, rfl⟩
    exact ⟨grown₁₀.pool.refers, (selfClass.mono kept₄.2.entries).mono later,
      fun i mem => (superClasses i mem).mono later, by simp,
      fun m mem => (fieldsNamed m mem).mono (grown₉.entries.trans grown₁₀.entries), fun m mem => (written m mem).2⟩
  next other notClass =>
    rcases kinds with ⟨isClass, -⟩ | violations
    · obtain ⟨name, kind⟩ := ScopeKind.exists_of_isClass isClass
      exact absurd kind (notClass name)
    · exact (violations _ _).1

/-- A class that fails stops the unit with the same stop; one that succeeds leaves no channel
open. -/
theorem returns_compileClass (cls : ClassDecl)
    (kinds : cls.Scoped c.symbols ∨
      ∀ name kind, ok (.violation (.classScope name kind)) ∧ ok (.violation (.functionScope name kind)))
    (idle : s.channels.Idle) :
    Returns ok (runStep ((compileClass cls).run c) s) fun e s' =>
      s'.channels.Idle ∧ s'.channels.active = none ∧ (e.entity.Compiled ∧ e.entity.Named) ∧
        e.errorCount = errorCount s'.diagnostics.toList - errorCount s.diagnostics.toList := by
  unfold compileClass
  rw [runStep_tryCatch]
  have assembled := returns_assembleClass limits cls kinds idle
  revert assembled
  generalize runStep ((assembleClass cls).run c) s = r
  obtain ⟨_ | e, s'⟩ := r
  · intro stopped
    dsimp only
    split <;> exact stopped
  · exact id

/-- Compiling a unit from idle channels: every entity it answers has its functions compiled in its
own pool, and it stops only as `ok` allows. -/
theorem returns_compileUnit (unit : CompilationUnit)
    (kinds : (∀ cls ∈ unit.classes, cls.Scoped c.symbols) ∨
      ∀ name kind, ok (.violation (.classScope name kind)) ∧ ok (.violation (.functionScope name kind)))
    (idle : s.channels.Idle) :
    Returns ok (runStep ((compileUnit unit).run c) s) fun es s' =>
      s'.channels.Idle ∧ ∀ e ∈ es, e.entity.Compiled ∧ e.entity.Named := by
  unfold compileUnit
  generalize unit.classes = classes at kinds
  induction classes generalizing s with
  | nil =>
    rw [List.mapM_nil]
    exact ⟨idle, by simp⟩
  | cons cls rest ih =>
    rw [List.mapM_cons]
    apply returns_compile_bind
    apply (returns_compileClass limits cls (kinds.imp (fun known => known cls (by simp)) id) idle).mono
    rintro e s₁ ⟨idle₁, -, compiled₁, -⟩
    apply returns_compile_bind
    apply (ih idle₁ (kinds.imp (fun known other mem => known other (List.mem_cons_of_mem cls mem)) id)).mono
    rintro es s₂ ⟨idle₂, compiled₂⟩
    refine ⟨idle₂, ?_⟩
    rintro e' (_ | ⟨_, mem⟩)
    · exact compiled₁
    · exact compiled₂ e' mem

end Members

end Session

end Febc
