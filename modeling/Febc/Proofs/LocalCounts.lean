import Febc.Proofs.PrivateSlots
import Febc.Proofs.Initializers

/-!
# Private slots of generated functions

A function's code records how many local slots it uses: its base (`this`, the parameters and the
locals the resolver numbered) and the private slots lowering took above them. Handing the code
over reads that count from the private slots' highest mark, which a body raises by its peak
(`takes_lowerStmt`). So the count a declared function records is its scope's base plus the peak
of its body, and the two synthesized initializers, which take no private slot, record their base:
1 for the default initializer (`this`), 0 for the static one.

Main statements:
* `Session.returns_lowerBody_localCount`: a body that holds at most `need` slots is recorded with
  its base plus `need` locals;
* `private_slots_never_alias`: the private slots of statements and of whole functions.
-/

namespace Febc

/-- A step whose stops are all allowed, followed by another: only the second decides what is
answered. -/
theorem Returns.bind_any {ε σ α β : Type} {m : ExceptT ε (StateM σ) α} {k : α → ExceptT ε (StateM σ) β}
    {s : σ} {post : β → σ → Prop} (rest : ∀ a s', Returns (fun _ => True) (runStep (k a) s') post) :
    Returns (fun _ => True) (runStep (m >>= k) s) post :=
  returns_bind (Returns.of_forall rest)

namespace CodeBuilder

/-- Handing over the code records the local count the builder holds, whichever check stops it
otherwise. -/
theorem returns_result_localCount (b : CodeBuilder) :
    Returns (fun _ => True) (runStep result b) fun a _ => a.localCount = b.localCount := by
  unfold result
  rw [runStep_bind, runStep_onChannels]
  rcases (runStep (ChannelSet.remove b.channel) b.channels).1 with _ | code
  · trivial
  apply returns_bind
  simp only [runStep_get, returns_ok]
  -- every way through the checks ends in the same answer, or stops
  repeat' split
  all_goals repeat' first | exact rfl | trivial | refine Returns.bind_any fun _ _ => ?_

end CodeBuilder

namespace InstructionAttribute

theorem returns_intern_info (a : InstructionAttribute) (p : ConstantPool) :
    Returns (fun _ => True) (runStep a.intern p) fun attr _ => attr.info = a.serialize :=
  Returns.bind_any fun _ _ => rfl

end InstructionAttribute

namespace Lowering

section Finish

variable {α β : Type} {env : FunctionEnv} {s : Lowering} {allowed : Halt → Prop}

theorem returns_of_get_bind {f : Lowering → LowerM α} {post : α → Lowering → Prop}
    (returns : Returns allowed (runStep ((f s).run env) s) post) :
    Returns allowed (runStep ((get >>= f).run env) s) post := returns

theorem returns_of_read_bind {f : FunctionEnv → LowerM α} {post : α → Lowering → Prop}
    (returns : Returns allowed (runStep ((f env).run env) s) post) :
    Returns allowed (runStep ((read >>= f).run env) s) post := returns

/-- A step that keeps the private slots, then one whose answer holds from any state with them. -/
theorem returns_steady_bind {l : LocalsLayout} {m : LowerM α} {k : α → LowerM β} {Q : α → Prop}
    {post : β → Lowering → Prop} (steady : Steady (fun _ => True) m Q) (same : s.locals = l)
    (rest : ∀ a t, t.locals = l → Returns (fun _ => True) (runStep ((k a).run env) t) post) :
    Returns (fun _ => True) (runStep ((m >>= k).run env) s) post := by
  have walked := steady env (fun _ _ _ => trivial) l s same
  show Returns _ (runStep (m.run env >>= fun a => (k a).run env) s) post
  exact returns_bind (walked.mono fun a t ⟨⟨_, kept⟩, _⟩ => rest a t kept)

/-- Finishing a body records the highest mark of its private slots as its local count. -/
theorem returns_finish_localCount (env : FunctionEnv) (s : Lowering) :
    Returns (fun _ => True) (runStep (finish.run env) s) fun a _ => a.localCount = s.locals.high := by
  have handsOver : ∀ t : Lowering, t.locals = s.locals → Returns (fun _ => True) (runStep ((do
      if (← get).loops.pending ≠ 0 then refuse .breaksOutlived
      let count := (← get).locals.count
      onCode (CodeBuilder.setLocalCount count)
      onCode CodeBuilder.result : LowerM InstructionAttribute).run env) t) fun a _ =>
        a.localCount = s.locals.high := by
    intro t same
    apply returns_of_get_bind
    split
    · trivial
    apply returns_of_get_bind
    rw [show ∀ (m : CodeM Unit) (k : Unit → LowerM InstructionAttribute), (onCode m >>= k).run env =
      (onCode m).run env >>= fun u => (k u).run env from fun _ _ => rfl, runStep_bind, runStep_onCode,
      CodeBuilder.runStep_setLocalCount]
    dsimp only
    rw [runStep_onCode]
    have handed := CodeBuilder.returns_result_localCount { t.code with localCount := t.locals.count }
    revert handed
    generalize runStep CodeBuilder.result _ = r
    obtain ⟨_ | a, b⟩ := r
    · exact id
    · intro counted
      exact counted.trans (congrArg LocalsLayout.high same)
  unfold finish
  apply returns_of_get_bind
  extract_lets tail
  split
  · apply returns_of_read_bind
    split
    · exact returns_steady_bind (steady_op _ (by decide)) rfl fun _ t same => handsOver t same
    · exact returns_steady_bind (steady_op (o := .pushNull) _ (by decide)) rfl fun _ t same =>
        returns_steady_bind (steady_op (o := .retA) _ (by decide)) same fun _ t' same' => handsOver t' same'
  · exact handsOver s rfl

end Finish

/-! ## Initializing fields -/

section Fields

theorem steady_withScope_any {α : Type} {m : LowerM α} {Q : α → Prop} (scope : Option Nat)
    (steady : Steady (fun _ => True) m Q) : Steady (fun _ => True) (withScope scope m) Q := by
  cases scope with
  | none => exact steady
  | some sc => exact fun env _ l => walks_withScope (steady _ (fun _ _ _ => trivial) l)

theorem steady_initializeDeclarators (isStatic : Bool) :
    ∀ decls, Steady (fun _ => True) (initializeDeclarators isStatic decls) fun _ => True
  | [] => steady_pure () trivial
  | (_, none) :: rest => by
    rw [initializeDeclarators]
    exact steady_initializeDeclarators isStatic rest
  | (name, some init) :: rest => by
    rw [initializeDeclarators]
    refine steady_read_bind fun env => (steady_fieldEntry _ name).bind fun field _ => ?_
    have more := steady_initializeDeclarators isStatic rest
    exact steady_ite ((steady_lowerExpr init).bind fun _ _ => (steady_op _ (by decide)).bind fun _ _ => more)
      ((steady_op _ (by decide)).bind fun _ _ => (steady_lowerExpr init).bind fun _ _ =>
        (steady_op _ (by decide)).bind fun _ _ => more)

theorem steady_initializeFields_go (isStatic : Bool) :
    ∀ fields, Steady (fun _ => True) (initializeFields.go isStatic fields) fun _ => True
  | [] => steady_pure () trivial
  | decl :: rest => by
    rw [initializeFields.go]
    have more := steady_initializeFields_go isStatic rest
    exact steady_ite ((steady_initializeDeclarators isStatic _).bind fun _ _ => more) more

theorem steady_initializeFields (fields : List FieldDecl) (isStatic : Bool) :
    Steady (fun _ => True) (initializeFields fields isStatic) fun _ => True :=
  steady_read_bind fun _ => steady_withScope_any _ (steady_initializeFields_go isStatic fields)

theorem steady_initializeInstance (fields : List FieldDecl) :
    Steady (fun _ => True) (initializeInstance fields) fun _ => True :=
  steady_read_bind fun _ => (steady_onPool _).bind fun index _ => (steady_op _ (by decide)).bind fun _ _ =>
    (steady_onCode (.pushInvoke .invokeSpecial index _) (fun _ _ _ ran => ran) fun _ ⟨_, same⟩ => by
      cases same).bind fun _ _ => steady_initializeFields fields false

end Fields

end Lowering

/-! ## Local counts -/

namespace Session

open Lowering

/-- A body that holds at most `need` private slots is recorded with its base plus `need` local
slots, unless lowering stops. -/
theorem returns_lowerBody_localCount (layout : ClassLayout) (shape : FunctionShape) (channel : Option Nat)
    {body : LowerM Unit} {need : Nat} (c : Compiler) (session : Session) (takes : Takes c.symbols (fun _ => True) need body) :
    Returns (fun _ => True) (runStep ((lowerBody layout shape channel body).run c) session) fun attr _ =>
      ∃ a : InstructionAttribute, attr.info = a.serialize ∧ a.localCount = shape.localsBase + need := by
  obtain ⟨pool, channels, diagnostics⟩ := session
  simp only [lowerBody, ReaderT.run, runStep_mk]
  split
  · trivial
  next code started =>
  -- the body raises the mark from the base by its peak, and finishing records the mark
  have returned : Returns (fun _ => True) (runStep ((do body; finish).run
      ⟨c.symbols, layout, shape.isStatic, shape.isInitializer, shape.scope⟩)
      ⟨code, pool, diagnostics, .ofBase shape.localsBase, {}⟩) fun a _ => a.localCount = shape.localsBase + need := by
    show Returns _ (runStep (body.run _ >>= fun _ => finish.run _) _) _
    apply returns_bind
    refine (takes _ rfl (fun _ _ _ => trivial) (.ofBase shape.localsBase) (Nat.le_refl _) _ rfl).mono ?_
    rintro _ t ⟨⟨-, high, -⟩, -⟩
    refine (returns_finish_localCount _ t).mono fun a _ counted => counted.trans ?_
    rw [high]
    exact max_eq_right (Nat.le_add_right _ _)
  simp only [ReaderT.run] at returned
  revert returned
  generalize runStep _ _ = r
  obtain ⟨_ | a, ⟨code', pool', diagnostics', locals', loops'⟩⟩ := r
  · exact id
  intro counted
  dsimp only
  have interned := a.returns_intern_info pool'
  revert interned
  generalize runStep a.intern pool' = q
  obtain ⟨_ | attr, pool''⟩ := q
  · exact id
  · exact fun info => ⟨a, info, counted⟩

/-- A declared function's body, run after the instance is set up if it is an initializer. -/
theorem takes_functionBody (symbols : SymbolTable) (fields : List FieldDecl) (f : FunctionDecl) (body : Block) :
    Takes symbols (fun _ => True) body.privateSlots
      (if f.isInitializer then do initializeInstance fields; lowerBlock body else lowerBlock body) :=
  have runs := takes_lowerBlock body fun _ _ _ _ _ => trivial
  takes_ite (Takes.steady_bind (steady_initializeInstance fields) fun _ _ => runs) runs

variable {c : Compiler} {s : Session}

/-- A declared function's code records its scope's base plus the peak of its body. -/
theorem localCount_functionMember (layout : ClassLayout) (fields : List FieldDecl) (f : FunctionDecl) :
    Returns (fun _ => True) (runStep ((functionMember layout fields f).run c) s) fun m _ =>
      ∀ attr ∈ m.attributes, ∃ a : InstructionAttribute, attr.info = a.serialize ∧
        ∃ isStatic base body, c.symbols.kind f.scope = .function isStatic base ∧ f.body = some body ∧
          a.localCount = base + body.privateSlots := by
  unfold functionMember
  apply returns_compile_read_bind
  dsimp only
  split
  next isStatic base kind =>
    simp only [pure_bind]
    refine returns_bind_of_forall fun _ _ => ?_
    split
    · refine returns_bind_of_forall fun _ _ => returns_bind_of_forall fun _ _ => returns_pure _ ?_
      exact fun _ absent => absurd absent List.not_mem_nil
    · next body found =>
      apply returns_compile_bind
      refine (returns_lowerBody_localCount layout _ none c _ (takes_functionBody c.symbols fields f body)).mono ?_
      rintro code _ ⟨a, info, counted⟩
      refine returns_bind_of_forall fun _ _ => returns_bind_of_forall fun _ _ => returns_pure _ ?_
      rintro attr (_ | ⟨_, ⟨⟩⟩)
      exact ⟨a, info, isStatic, base, body, kind, found, counted⟩
  · trivial

/-- The default initializer records one local: `this`. -/
theorem localCount_defaultInitializer (layout : ClassLayout) (fields : List FieldDecl) :
    Returns (fun _ => True) (runStep ((defaultInitializer layout fields).run c) s) fun m _ =>
      ∀ attr ∈ m.attributes, ∃ a : InstructionAttribute, attr.info = a.serialize ∧ a.localCount = 1 := by
  unfold defaultInitializer
  apply returns_compile_bind
  refine (returns_lowerBody_localCount layout _ none c s (steady_initializeInstance fields).takes).mono ?_
  rintro code _ ⟨a, info, counted⟩
  refine returns_bind_of_forall fun _ _ => returns_bind_of_forall fun _ _ => returns_pure _ ?_
  rintro attr (_ | ⟨_, ⟨⟩⟩)
  exact ⟨a, info, counted⟩

/-- The static initializer records no local. -/
theorem localCount_staticInitializer (layout : ClassLayout) (fields : List FieldDecl) (primary : Nat) :
    Returns (fun _ => True) (runStep ((staticInitializer layout fields primary).run c) s) fun m _ =>
      ∀ attr ∈ m.attributes, ∃ a : InstructionAttribute, attr.info = a.serialize ∧ a.localCount = 0 := by
  unfold staticInitializer
  apply returns_compile_bind
  refine (returns_lowerBody_localCount layout _ (some primary) c s (steady_initializeFields fields true).takes).mono ?_
  rintro code _ ⟨a, info, counted⟩
  refine returns_bind_of_forall fun _ _ => returns_bind_of_forall fun _ _ => returns_pure _ ?_
  rintro attr (_ | ⟨_, ⟨⟩⟩)
  exact ⟨a, info, counted⟩

end Session

/-! ## Private slots never alias -/

/-- Compiler-private slots never alias. Lowering a statement from a sound state with an empty
stack, in scopes whose locals the resolver numbered below `b`, either stops on a limit of the
format (such as a private slot past 255) or goes through with no violated promise, so that no
slot is given back that was not taken; it then gives back every private slot it took, and raises
the highest mark by `privateSlots`, the most it held at once. Every load and store it emits
addresses a slot below 256, and every store goes into one of the resolver's slots below `b` or
into one of the statement's own slots from the first free one on: never into a slot that an
enclosing construct still holds. The code of a declared function records its scope's base plus
the peak of its body as its local count; the default initializer records 1, the static one 0. -/
theorem private_slots_never_alias :
    (∀ (env : FunctionEnv) (b : Nat) (st : Stmt), (∀ sc ∈ env.scope :: st.scopes, env.symbols.LocalsIn (· < b) sc) →
      ∀ (s : Lowering) (h : Nat → Nat), Lowering.Sound env.isInitializer s h → s.Holds 0 → s.locals.next ≤ s.locals.high →
        Returns Halt.Allowed (runStep ((Lowering.lowerStmt st).run env) s) fun _ s' =>
          s'.locals.next = s.locals.next ∧ s'.locals.high = max s.locals.high (s.locals.next + st.privateSlots) ∧
          (st.privateSlots = 0 ∨ s.locals.next + st.privateSlots ≤ 256) ∧
          ∃ ops, Lowering.Builds s.code ops s'.code ∧ ∀ o ∈ ops, ∀ k, (o.Addresses k → k ≤ 255) ∧
            (o.Stores k → k < b ∨ s.locals.next ≤ k ∧ k < s.locals.next + st.privateSlots)) ∧
    (∀ (c : Compiler) (s : Session) (layout : ClassLayout) (fields : List FieldDecl) (f : FunctionDecl),
      Returns (fun _ => True) (runStep ((Session.functionMember layout fields f).run c) s) fun m _ =>
        ∀ attr ∈ m.attributes, ∃ a : InstructionAttribute, attr.info = a.serialize ∧
          ∃ isStatic base body, c.symbols.kind f.scope = .function isStatic base ∧ f.body = some body ∧
            a.localCount = base + body.privateSlots) ∧
    (∀ (c : Compiler) (s : Session) (layout : ClassLayout) (fields : List FieldDecl),
      Returns (fun _ => True) (runStep ((Session.defaultInitializer layout fields).run c) s) fun m _ =>
        ∀ attr ∈ m.attributes, ∃ a : InstructionAttribute, attr.info = a.serialize ∧ a.localCount = 1) ∧
    (∀ (c : Compiler) (s : Session) (layout : ClassLayout) (fields : List FieldDecl) (primary : Nat),
      Returns (fun _ => True) (runStep ((Session.staticInitializer layout fields primary).run c) s) fun m _ =>
        ∀ attr ∈ m.attributes, ∃ a : InstructionAttribute, attr.info = a.serialize ∧ a.localCount = 0) := by
  refine ⟨fun env b st named s h sound empty marked => ?_, fun _ _ layout fields f =>
    Session.localCount_functionMember layout fields f, fun _ _ layout fields =>
    Session.localCount_defaultInitializer layout fields, fun _ _ layout fields primary =>
    Session.localCount_staticInitializer layout fields primary⟩
  have balanced := Lowering.leaves_lowerStmt st env s h empty sound
  have walked := Lowering.takes_lowerStmt st (fun sc mem => named sc (List.mem_cons_of_mem _ mem)) env rfl
    (named env.scope List.mem_cons_self) s.locals marked s rfl
  refine (Returns.and balanced walked).mono ?_
  rintro _ s' ⟨-, ⟨next, high, fits⟩, ops, built, stores⟩
  exact ⟨next, high, fits, ops, built, fun o mem k => ⟨built.addressable o mem k, stores o mem k⟩⟩

/-- A `for` loop around a synchronized block, lowered at the start of a body with no locals: it
holds three slots at once (the iterator, the lock and the lock's exception) and gives them all
back. -/
theorem private_slots_of_a_loop_around_a_lock :
    Lowering.Sound false ⟨{ channels := ⟨#[some #[]], some 0⟩, channel := 0, previousActive := none }, {}, #[],
      .ofBase 0, {}⟩ (fun _ => 0) ∧
    Returns Halt.Allowed (runStep ((Lowering.lowerStmt (.forEach none ⟨"x", default⟩ (.literal .null default)
        (.mk [.synchronized (.literal .null default) (.mk [] none)] none))).run default)
      ⟨{ channels := ⟨#[some #[]], some 0⟩, channel := 0, previousActive := none }, {}, #[], .ofBase 0, {}⟩)
      fun _ s' => s'.locals.next = 0 ∧ s'.locals.high = 3 := by
  have sound : Lowering.Sound false ⟨{ channels := ⟨#[some #[]], some 0⟩, channel := 0, previousActive := none }, {}, #[],
      .ofBase 0, {}⟩ (fun _ => 0) :=
    Lowering.sound_entry false
  have named : ∀ sc, (default : SymbolTable).LocalsIn (· < 0) sc := by
    intro sc name i found
    simp [SymbolTable.resolve, SymbolTable.ancestors, SymbolTable.parent, SymbolTable.lookup, SymbolTable.scope?,
      show (default : SymbolTable).scopes = #[] from rfl] at found
  refine ⟨sound, (private_slots_never_alias.1 default 0 _ (fun sc _ => named sc) _ _ sound (.inl rfl)
    (Nat.le_refl 0)).mono ?_⟩
  rintro _ s' ⟨next, high, -⟩
  exact ⟨next, high.trans (by decide)⟩

end Febc
