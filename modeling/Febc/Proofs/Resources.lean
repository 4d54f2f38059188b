import Febc.Proofs.Guarded

/-!
# Resource blocks

A resource block takes two private slots for the exceptions its handlers keep, then opens each
resource in turn: the resource is evaluated, bound to its name if it has one, and kept in a slot
of its own; its protected range starts right after that store. The block's body follows. The
resources are then closed, the last opened first, each by 32 bytes of code of fixed shape: a
normal close that jumps past two handlers, the close handler, which keeps the escaping exception,
closes the resource and throws the exception again, and the handler over that close, which
attaches the close's exception to the escaping one (`closeCode`, `ClosedAt`). The first handler
guards the resource's range, which holds everything opened and closed after it; the second
guards the first's close (`closeRows`).

The steps here are specified exactly, by the instructions each appends, so that the layout can be
stated offset by offset; only a jump's operand, which a later label may still retarget, is left
open.

Main statements:
* `runs_openResourcesAt`: where each resource is evaluated and kept (`ResourceCode.Opened`, `Opens`);
* `runs_closeResourcesAt`: where each resource is closed (`Closes`), and the rows it adds;
* `runs_withAt`: the whole block, laid out as `ResourcesLaid` says.
-/

namespace Febc

namespace Lowering

open CodeBuilder

/-! ## Function entries -/

/-- The pool entry at `i` is the function reference `r`: a function entry of `r`'s table index
whose class entry is `r`'s class and whose texts are `r`'s descriptor and name. -/
def FunctionEntry (entries : Array Constant) (i : Nat) (r : FunctionRef) : Prop :=
  1 ≤ i ∧ ∃ owner descriptor name, entries[i - 1]? = some (.function owner descriptor name r.tableIndex) ∧
    ClassEntry entries owner r.owner ∧ 1 ≤ descriptor ∧ entries[descriptor - 1]? = some (.utf8 r.descriptor.render) ∧
    entries[name - 1]? = some (.utf8 r.name)

theorem FunctionEntry.mono {entries entries' : Array Constant} {i : Nat} {r : FunctionRef}
    (entry : FunctionEntry entries i r) (grown : entries.toList <+: entries'.toList) : FunctionEntry entries' i r := by
  obtain ⟨one, owner, descriptor, name, function, cls, described, text, named⟩ := entry
  exact ⟨one, owner, descriptor, name, ConstantPool.entry_of_prefix grown function, cls.mono grown, described,
    ConstantPool.entry_of_prefix grown text, ConstantPool.entry_of_prefix grown named⟩

theorem FunctionEntry.describes {entries : Array Constant} {i : Nat} {r : FunctionRef}
    (entry : FunctionEntry entries i r) : Describes entries i r.descriptor := by
  obtain ⟨one, owner, descriptor, name, function, -, described, text, -⟩ := entry
  exact ⟨one, owner, descriptor, name, r.tableIndex, function, described, text⟩

/-- Interning a function reference answers its function entry. -/
theorem interns_functionEntry (r : FunctionRef) :
    ConstantPool.Interns r.intern fun i p => FunctionEntry p.entries i r := by
  intro p consistent
  apply returns_bind
  apply (interns_classEntry r.owner p consistent).mono
  rintro owner p₁ ⟨grown₁, owners⟩
  apply returns_bind
  apply (ConstantPool.interns_utf8 r.descriptor.render p₁ grown₁.1).mono
  rintro descriptor p₂ ⟨grown₂, text⟩
  apply returns_bind
  apply (ConstantPool.interns_utf8 r.name p₂ grown₂.1).mono
  rintro name p₃ ⟨grown₃, named⟩
  apply (ConstantPool.returns_intern grown₃.1 (.function owner descriptor name r.tableIndex)
    (ConstantPool.parts_pointBelow owners.names grown₂ (grown₂.texts text) grown₃ (grown₃.texts named))).mono
  rintro i p₄ ⟨grown₄, entry⟩
  have later := grown₂.after (grown₃.after grown₄)
  exact ⟨grown₁.after later, grown₄.2.2.1, owner, descriptor, name, entry, owners.mono later.2.1,
    grown₂.2.2.1, ConstantPool.entry_of_prefix (grown₃.after grown₄).2.1 text,
    ConstantPool.entry_of_prefix grown₄.2.1 named⟩

/-! ## Calls of intrinsics -/

section Exact

variable {env : FunctionEnv} {s : Lowering} {h : Nat → Nat}

/-- What an intrinsic does to the stack, as an invocation of its reference. -/
theorem callIntrinsic_effect (f : Intrinsic) (k : Nat) :
    ((k + f.gives : Nat) : Int) = ((k + f.takes : Nat) : Int) + f.reference.descriptor.stackEffect -
      f.invocation.receivers := by
  simp only [Intrinsic.takes, Intrinsic.gives, FunctionDescriptor.stackEffect]
  split <;> push_cast <;> omega

/-- Calling an intrinsic emits one invocation of its function entry, three bytes long. -/
theorem runs_callIntrinsicAt (f : Intrinsic) {k : Nat} (holds : s.Holds (k + f.takes)) :
    Runs env s h (callIntrinsic f) fun _ s' _ =>
      Contained [] s s' ∧ s'.code.depth = some (k + f.gives) ∧ ∃ c, FunctionEntry s'.pool.entries c f.reference ∧
        s'.code.instructions = s.code.instructions ++ [⟨s.code.code.size, f.invocation, [c]⟩] ∧
        s'.code.code.size = s.code.code.size + 3 ∧ s'.code.handlers = s.code.handlers := by
  unfold callIntrinsic invokeEntry
  apply Runs.bind (runs_onPool (interns_functionEntry f.reference))
  rintro c s₁ h₁ sound₁ - ⟨still, -, rfl, -, small, entry⟩
  apply ((runs_pushInvoke f.invocation_isInvoke entry.describes small (still.holds holds) (Nat.le_add_left _ _)
    (callIntrinsic_effect f k)).keepsRows (keepsRows_onCode (keeps_pushInvoke _ _ _))).mono
  rintro _ s' h' sound' grown' ⟨⟨contained, appended, depth⟩, rows⟩
  have size := size_of_append sound₁ sound' appended
  rw [still.code] at appended size rows
  refine ⟨(still.contained []).trans contained, depth, c, entry.mono grown'.pool, appended, ?_, rows⟩
  rw [size, Opcode.length_eq_sum, operands_of_invoke f.invocation_isInvoke]
  rfl

/-- Closing the resource on the stack: an invocation of `close`, then a `pop` of what it answers. -/
theorem runs_closeResourceAt {k : Nat} (holds : s.Holds (k + 1)) :
    Runs env s h closeResource fun _ s' _ =>
      Contained [] s s' ∧ s'.code.depth = some k ∧ ∃ c, FunctionEntry s'.pool.entries c Intrinsic.close.reference ∧
        s'.code.instructions = s.code.instructions ++
          [⟨s.code.code.size, .invokeDynamic, [c]⟩, ⟨s.code.code.size + 3, .pop, []⟩] ∧
        s'.code.code.size = s.code.code.size + 4 ∧ s'.code.handlers = s.code.handlers := by
  unfold closeResource
  apply Runs.bind (runs_callIntrinsicAt .close holds)
  rintro _ s₁ h₁ - - ⟨contained₁, depth₁, c, entry₁, called₁, size₁, rows₁⟩
  apply (runs_popAt (Or.inl depth₁)).mono
  rintro _ s' h' - grown' ⟨contained', popped', size', depth', rows'⟩
  refine ⟨contained₁.trans contained', depth', c, entry₁.mono grown'.pool, ?_, by rw [size', size₁], by rw [rows', rows₁]⟩
  rw [popped', called₁, size₁, List.append_assoc]
  rfl

end Exact

/-! ## Opening resources -/

/-- What opening a resource does once its value is pushed: a named resource is also stored into
its name, from a copy. -/
def bindResource (scope : Nat) : Option Ident → LowerM Unit
  | some name => do
    op .duplicate []
    storeDeclared scope name
  | none => pure ()

theorem openResources_cons (scope : Nat) (binding : Option Ident) (e : Expr) (rest : List (Option Ident × Expr)) :
    openResources scope ((binding, e) :: rest) = (do
      lowerExpr e
      bindResource scope binding
      let slot ← takeSlot
      op .storeA [slot]
      let start ← offset
      let more ← openResources scope rest
      pure ((slot, start) :: more)) := by
  cases binding <;> simp [openResources, bindResource]

theorem keepsRows_bindResource (scope : Nat) (binding : Option Ident) : KeepsRows (bindResource scope binding) := by
  cases binding with
  | none => exact keepsRows_pure ()
  | some name => exact (keepsRows_op _ _).bind fun _ => keepsRows_storeDeclared scope name

theorem leaves_bindResource (scope : Nat) (binding : Option Ident) : Leaves env (bindResource scope binding) 1 1 := by
  cases binding with
  | none => exact fun s h holds => runs_pure () ⟨holds, .refl [] s⟩
  | some name => exact (leaves_duplicate 0).seq fun _ => leaves_storeDeclared scope name 1

/-- Where one resource of a resource block was opened: its value's code is `[evaluated, valueStop)`
and adds `valueRows`; the code that binds it to its name, if it has one, ends at `stored`, where
the value is stored into `slot`. -/
structure ResourceCode where
  evaluated : Nat
  valueStop : Nat
  valueRows : List HandlerSite
  stored : Nat
  slot : Nat

/-- Where the resource's protected range starts: right after the store that keeps it. -/
def ResourceCode.start (r : ResourceCode) : Nat := r.stored + 2

/-- The resource `(binding, e)` was opened as `r` says, in a block whose names are declared in
`scope`: `e` is evaluated once, with the first free slot `r.slot`, the value bound to its name,
and stored into `r.slot`. -/
def ResourceCode.Opened (env : FunctionEnv) (scope : Nat) (instructions : List Instruction)
    (resource : Option Ident × Expr) (r : ResourceCode) : Prop :=
  Emits env (lowerExpr resource.2) r.slot r.evaluated r.valueStop r.valueRows ∧
    Emits env (bindResource scope resource.1) r.slot r.valueStop r.stored [] ∧
    (⟨r.stored, .storeA, [r.slot]⟩ : Instruction) ∈ instructions

/-- Resources opened one after another from `first`, in consecutive slots from `slot`: each is
evaluated where the previous one's range starts. -/
def Opens : Nat → Nat → List ResourceCode → Prop
  | _, _, [] => True
  | first, slot, r :: rest => r.evaluated = first ∧ r.slot = slot ∧ Opens r.start (slot + 1) rest

/-- Where the code of resources opened from `first` ends: where the last one's range starts. -/
def opensEnd (first : Nat) (opened : List ResourceCode) : Nat :=
  (opened.map ResourceCode.start).getLastD first

@[simp] theorem opensEnd_cons (first : Nat) (r : ResourceCode) (rest : List ResourceCode) :
    opensEnd first (r :: rest) = opensEnd r.start rest := by
  simp [opensEnd, List.getLastD_eq_getLast?, List.getLast?_cons]

section Open

variable {env : FunctionEnv} {s : Lowering} {h : Nat → Nat}

/-- Opening resources evaluates each once, binds it and keeps it in the next free slot. The
offsets returned with the slots are where the resources' ranges start: marks, in increasing order,
where later rows may start. -/
theorem runs_openResourcesAt (scope : Nat) (resources : List (Option Ident × Expr)) (empty : s.Holds 0) :
    Runs env s h (openResources scope resources) fun marks s' _ =>
      s'.Holds 0 ∧ Spans [] s s' ∧ s'.locals.next = s.locals.next + resources.length ∧ RowsSince s s' ∧
        ∃ opened : List ResourceCode, marks = opened.map (fun r => (r.slot, r.start)) ∧
          s'.Marks s.code.code.size (opened.map ResourceCode.start) ∧
          (opened.map ResourceCode.start).Pairwise (· ≤ ·) ∧
          List.Forall₂ (ResourceCode.Opened env scope s'.code.instructions) resources opened ∧
          Opens s.code.code.size s.locals.next opened ∧
          s'.code.code.size = opensEnd s.code.code.size opened ∧
          s'.code.handlers.toList = s.code.handlers.toList ++ (opened.map ResourceCode.valueRows).flatten := by
  induction resources generalizing s h with
  | nil => exact runs_pure [] ⟨empty, .refl [] s, rfl, .refl s, [], rfl, nofun, .nil, .nil, trivial, rfl, by simp⟩
  | cons resource rest ih =>
    obtain ⟨binding, e⟩ := resource
    rw [openResources_cons]
    apply Runs.bind (Runs.ends (leaves_lowerExpr e env 0 s h empty))
    rintro _ s₁ h₁ sound₁ - ⟨⟨holds₁, contained₁⟩, ran₁⟩
    obtain ⟨valueRows, rows₁, value⟩ := Emits.of_contained ran₁ contained₁ sound₁
    apply Runs.bind (Runs.ends ((leaves_bindResource scope binding s₁ h₁ holds₁).keepsRows
      (keepsRows_bindResource scope binding)))
    rintro _ s₂ h₂ - - ⟨⟨⟨holds₂, contained₂⟩, rows₂⟩, ran₂⟩
    have bound : Emits env (bindResource scope binding) s.locals.next s₁.code.code.size s₂.code.code.size [] :=
      ⟨s₁, s₂, ran₂, contained₁.slots, rfl, rfl, contained₂.grown, by rw [rows₂, List.append_nil], nofun⟩
    have through := contained₁.trans contained₂
    apply Runs.bind runs_takeSlot
    rintro _ s₃ h₃ - - ⟨rfl, -, slots₃, code₃, loops₃, same₃⟩
    subst h₃
    apply Runs.bind (runs_storeAAt s₂.locals.next (k := 0) (by unfold Holds; rw [code₃]; exact holds₂))
    rintro _ s₄ h₄ sound₄ - ⟨contained₄, stored₄, size₄, depth₄, rows₄⟩
    apply Runs.bind runs_offset
    rintro _ t g - - ⟨rfl, -, same, same'⟩
    subst t g
    apply Runs.bind (ih (s := s₄) (h := h₄) (Or.inl depth₄))
    rintro marks s₅ h₅ - grown₅
      ⟨holds₅, spans₅, slots₅, since₅, opened, rfl, marks₅, ordered₅, lowered₅, opens₅, size₅, rows₅⟩
    -- the resource is kept in the slot that was free when it was evaluated
    have slot : s₂.locals.next = s.locals.next := through.slots
    have kept : s₄.locals.next = s.locals.next + 1 := by rw [contained₄.slots, slots₃, slot]
    have start : s₄.code.code.size = s₂.code.code.size + 2 := by rw [size₄, code₃]
    have sized₂ : s₂.code.code.size = s₃.code.code.size := by rw [code₃]
    have below : s.code.code.size ≤ s₄.code.code.size :=
      Nat.le_trans through.grown (Nat.le_trans (Nat.le_of_eq sized₂) contained₄.grown)
    refine runs_pure _ ⟨holds₅, ?_, by rw [slots₅, kept, List.length_cons]; omega, ?_,
      ⟨s.code.code.size, s₁.code.code.size, valueRows, s₂.code.code.size, s.locals.next⟩ :: opened, ?_, ?_, ?_,
      .cons ⟨value, bound, ?_⟩ lowered₅, ⟨rfl, rfl, ?_⟩, ?_, ?_⟩
    · exact through.toSpans.trans (Spans.of_kept (by rw [code₃]) loops₃ : Spans [] s₂ s₃)
        |>.trans contained₄.toSpans |>.trans spans₅
    · exact ((through.rows.trans (.of_code code₃) through.grown).trans contained₄.rows
        (Nat.le_trans through.grown (Nat.le_of_eq sized₂))).trans since₅ below
    · rw [slot, start]
      rfl
    · have here : s.code.code.size ≤ s₄.code.code.size ∧ s₄.code.code.size ≤ s₅.code.code.size ∧
          s₅.code.Boundary s₄.code.code.size ∧ s₅.Clear s₄.code.code.size :=
        ⟨below, grown₅.size, grown₅.boundary (Or.inr rfl), sound₄.clear.keep since₅ (Nat.le_refl _)⟩
      rw [List.map_cons, ResourceCode.start, ← start]
      refine List.forall_mem_cons.mpr ⟨here, fun o mem => ?_⟩
      obtain ⟨above, rest⟩ := marks₅ o mem
      exact ⟨Nat.le_trans below above, rest⟩
    · refine List.pairwise_cons.mpr ⟨fun o mem => ?_, ordered₅⟩
      rw [ResourceCode.start, ← start]
      exact (marks₅ o mem).1
    · exact grown₅.keeps sound₄ (mem_of_appended (by rw [stored₄, code₃, slot])) rfl
    · rw [ResourceCode.start, ← start, ← kept]
      exact opens₅
    · rw [size₅, opensEnd_cons, ResourceCode.start, start]
    · rw [rows₅, rows₄, code₃, rows₂, rows₁]
      simp

end Open

/-! ## Closing resources -/

/-- The code of the two handlers of a resource's close from `stop`, calling the pool entries
`closer` of `close` and `suppressor` of `suppress`: the close handler at `stop + 9` keeps the
escaping exception in `primary`, closes the resource kept in `slot`, then loads the exception and
throws it again; the handler at `stop + 20`, over that close, keeps the close's exception in
`secondary`, attaches it to the escaping one and throws that. -/
def handlerCode (primary secondary slot stop closer suppressor : Nat) : List Instruction :=
  [⟨stop + 9, .storeA, [primary]⟩, ⟨stop + 11, .loadA, [slot]⟩, ⟨stop + 13, .invokeDynamic, [closer]⟩,
    ⟨stop + 16, .pop, []⟩, ⟨stop + 17, .loadA, [primary]⟩, ⟨stop + 19, .throw, []⟩,
    ⟨stop + 20, .storeA, [secondary]⟩, ⟨stop + 22, .loadA, [primary]⟩, ⟨stop + 24, .loadA, [secondary]⟩,
    ⟨stop + 26, .invokeVirtual, [suppressor]⟩, ⟨stop + 29, .loadA, [primary]⟩, ⟨stop + 31, .throw, []⟩]

/-- The code of a resource's close from `stop` but its jump: the normal close loads the resource,
calls `close` and drops what that answers; the handlers follow from `stop + 9`. -/
def closeCode (primary secondary slot stop closer closer' suppressor : Nat) : List Instruction :=
  ⟨stop, .loadA, [slot]⟩ :: ⟨stop + 2, .invokeDynamic, [closer]⟩ :: ⟨stop + 5, .pop, []⟩ ::
    handlerCode primary secondary slot stop closer' suppressor

theorem handlerCode_plain (primary secondary slot stop closer suppressor : Nat) :
    ∀ i ∈ handlerCode primary secondary slot stop closer suppressor, i.opcode.isJump = false := by
  simp [handlerCode, Opcode.isJump]

theorem closeCode_plain (primary secondary slot stop closer closer' suppressor : Nat) :
    ∀ i ∈ closeCode primary secondary slot stop closer closer' suppressor, i.opcode.isJump = false := by
  simp only [closeCode, List.forall_mem_cons]
  exact ⟨rfl, rfl, rfl, handlerCode_plain primary secondary slot stop closer' suppressor⟩

/-- The resource kept in `slot` is closed from `stop`, by 32 bytes of code in `instructions`: the
code `closeCode` says, calling the function entries of `close` (twice) and `suppress`, and the
normal close's jump past the handlers at `stop + 6`, and nothing else. -/
def ClosedAt (entries : Array Constant) (instructions : List Instruction) (primary secondary slot stop : Nat) : Prop :=
  ∃ closer closer' suppressor, FunctionEntry entries closer Intrinsic.close.reference ∧
    FunctionEntry entries closer' Intrinsic.close.reference ∧
    FunctionEntry entries suppressor Intrinsic.suppress.reference ∧
    closeCode primary secondary slot stop closer closer' suppressor ⊆ instructions ∧
    ∃ jump ∈ instructions, jump.offset = stop + 6 ∧ jump.opcode = .jump ∧
      ∀ i ∈ instructions, stop ≤ i.offset → i.offset < stop + 32 →
        i ∈ closeCode primary secondary slot stop closer closer' suppressor ∨ i = jump

/-- The close code and its jump, in their order, are laid one after another over 32 bytes. -/
theorem closeBlock_laid (primary secondary slot stop closer closer' suppressor : Nat) {jump : Instruction}
    (at_ : jump.offset = stop + 6) (jumps : jump.opcode = .jump) :
    Laid stop (⟨stop, .loadA, [slot]⟩ :: ⟨stop + 2, .invokeDynamic, [closer]⟩ :: ⟨stop + 5, .pop, []⟩ :: jump ::
        handlerCode primary secondary slot stop closer' suppressor) ∧
      ((⟨stop, .loadA, [slot]⟩ :: ⟨stop + 2, .invokeDynamic, [closer]⟩ :: ⟨stop + 5, .pop, []⟩ :: jump ::
        handlerCode primary secondary slot stop closer' suppressor).map fun i => i.opcode.length).sum = 32 := by
  simp [Laid, handlerCode, at_, jumps, Opcode.length_eq_sum, Opcode.operands, OperandWidth.bytes]

/-- In laid out code, a close's code and its jump are all the close has: nothing else starts in
its 32 bytes. -/
theorem ClosedAt.of_laid {entries : Array Constant} {instructions : List Instruction}
    {primary secondary slot stop closer closer' suppressor : Nat} {jump : Instruction} (laid : Laid 0 instructions)
    (entry : FunctionEntry entries closer Intrinsic.close.reference)
    (entry' : FunctionEntry entries closer' Intrinsic.close.reference)
    (suppressing : FunctionEntry entries suppressor Intrinsic.suppress.reference)
    (code : closeCode primary secondary slot stop closer closer' suppressor ⊆ instructions) (mem : jump ∈ instructions)
    (at_ : jump.offset = stop + 6) (jumps : jump.opcode = .jump) :
    ClosedAt entries instructions primary secondary slot stop := by
  refine ⟨closer, closer', suppressor, entry, entry', suppressing, code, jump, mem, at_, jumps, fun i memI low high => ?_⟩
  obtain ⟨block, length⟩ := closeBlock_laid primary secondary slot stop closer closer' suppressor at_ jumps
  have sub := code
  simp only [closeCode, List.cons_subset] at sub
  obtain ⟨first, second, third, handlers⟩ := sub
  have inside := laid.mem_of_block block
    (List.cons_subset.mpr ⟨first, List.cons_subset.mpr ⟨second, List.cons_subset.mpr ⟨third,
      List.cons_subset.mpr ⟨mem, handlers⟩⟩⟩⟩) i memI low (by rw [length]; exact high)
  simp only [closeCode, List.mem_cons] at inside ⊢
  rcases inside with same | same | same | same | same <;> simp [same]

theorem ClosedAt.grow {init : Bool} {s s' : Lowering} {h h' : Nat → Nat} {primary secondary slot stop : Nat}
    (closed : ClosedAt s.pool.entries s.code.instructions primary secondary slot stop) (sound : Sound init s h)
    (sound' : Sound init s' h') (grown : Grows s h s' h') :
    ClosedAt s'.pool.entries s'.code.instructions primary secondary slot stop := by
  obtain ⟨closer, closer', suppressor, entry, entry', suppressing, code, jump, mem, at_, jumps, -⟩ := closed
  obtain ⟨jump', mem', at', jumps'⟩ := grown.persists jump mem
  exact ClosedAt.of_laid sound'.encoded.2.1 (entry.mono grown.pool) (entry'.mono grown.pool)
    (suppressing.mono grown.pool) (fun i memI => grown.keeps sound (code memI) (closeCode_plain _ _ _ _ _ _ _ i memI))
    mem' (at'.trans at_) (jumps'.trans jumps)

/-- Resources closed one after another from `stop`, in this order, 32 bytes each. -/
def Closes (entries : Array Constant) (instructions : List Instruction) (primary secondary : Nat) :
    Nat → List ResourceCode → Prop
  | _, [] => True
  | stop, r :: rest => ClosedAt entries instructions primary secondary r.slot stop ∧
    Closes entries instructions primary secondary (stop + 32) rest

/-- The rows of a resource's close from `stop`: the close handler's over the resource's range
`[start, stop)`, unless that is empty, then the one over the close handler's close. -/
def closeRows (start stop : Nat) : List HandlerSite :=
  (if start < stop then [⟨start, stop, stop + 9, none⟩] else []) ++ [⟨stop + 9, stop + 17, stop + 20, none⟩]

/-- The rows of resources closed one after another from `stop`, in this order. -/
def closeTable : Nat → List ResourceCode → List HandlerSite
  | _, [] => []
  | stop, r :: rest => closeRows r.start stop ++ closeTable (stop + 32) rest

theorem closeRows_from {low start stop : Nat} (early : low ≤ start) (late : low ≤ stop) :
    ∀ row ∈ closeRows start stop, low ≤ row.start ∧ stop + 9 ≤ row.handler := by
  intro row mem
  simp only [closeRows, List.mem_append, List.mem_ite_nil_right, List.mem_singleton] at mem
  rcases mem with ⟨-, rfl⟩ | rfl <;> simp <;> omega

/-- The rows of closes start after `low` when the ranges and the first close do, and their
handlers lie in the close code. -/
theorem closeTable_from {low : Nat} : ∀ {stop : Nat} {closing : List ResourceCode},
    (∀ r ∈ closing, low ≤ r.start) → low ≤ stop → ∀ row ∈ closeTable stop closing, low ≤ row.start ∧ stop ≤ row.handler
  | _, [], _, _ => nofun
  | stop, r :: rest, starts, late => by
    intro row mem
    rcases List.mem_append.mp mem with here | later
    · have := closeRows_from (starts r (List.mem_cons_self ..)) late row here
      omega
    · have := closeTable_from (fun r' mem' => starts r' (List.mem_cons_of_mem r mem')) (by omega : low ≤ stop + 32)
        row later
      omega

theorem Closes.grow {init : Bool} {s s' : Lowering} {h h' : Nat → Nat} {primary secondary : Nat}
    (sound : Sound init s h) (sound' : Sound init s' h') (grown : Grows s h s' h') :
    ∀ {stop : Nat} {closing : List ResourceCode},
    Closes s.pool.entries s.code.instructions primary secondary stop closing →
      Closes s'.pool.entries s'.code.instructions primary secondary stop closing
  | _, [], _ => trivial
  | _, _ :: _, ⟨closed, rest⟩ => ⟨closed.grow sound sound' grown, Closes.grow sound sound' grown rest⟩

section Close

variable {env : FunctionEnv} {s : Lowering} {h : Nat → Nat}

/-- Entering a handler where the code ends unreachable and storing the caught exception in a
slot: the handler starts there, with the store, and leaves the stack empty. -/
theorem runs_enterStoreAt {β : Type} {slot : Nat} {k : Nat → LowerM β} {post : β → Lowering → (Nat → Nat) → Prop}
    (unreached : s.code.depth = none)
    (rest : ∀ s' h', Sound env.isInitializer s' h' → Grows s h s' h' → Contained [] s s' → s'.code.depth = some 0 →
      HandlerAt s' h' s.code.code.size →
      s'.code.instructions = s.code.instructions ++ [⟨s.code.code.size, .storeA, [slot]⟩] →
      s'.code.code.size = s.code.code.size + 2 → s'.code.handlers = s.code.handlers →
      Runs env s' h' (k s.code.code.size) post) :
    Runs env s h (do
      let handler ← offset
      enterHandler
      op .storeA [slot]
      k handler) post := by
  apply Runs.bind runs_offset
  rintro _ t g - - ⟨rfl, -, same, same'⟩
  subst t g
  apply Runs.bind (runs_enterHandler unreached)
  rintro _ s₁ h₁ sound₁ grown₁ ⟨contained₁, depth₁, instructions₁, size₁, rows₁⟩
  apply Runs.bind (runs_storeAAt slot (k := 0) (Or.inl depth₁))
  rintro _ s₂ h₂ sound₂ grown₂ ⟨contained₂, stored₂, size₂, depth₂, rows₂⟩
  have at₂ := HandlerAt.of_store sound₁ sound₂ grown₂ depth₁ rfl stored₂
  rw [instructions₁, size₁] at stored₂
  rw [size₁] at size₂ at₂
  exact rest s₂ h₂ sound₂ (grown₁.trans grown₂) (contained₁.trans contained₂) depth₂ at₂ stored₂ size₂
    (rows₂.trans rows₁)

/-- Loading the exception kept in a slot and throwing it again leaves the code unreachable. -/
theorem runs_rethrowAt {β : Type} {slot : Nat} {k : LowerM β} {post : β → Lowering → (Nat → Nat) → Prop}
    (empty : s.Holds 0)
    (rest : ∀ s' h', Sound env.isInitializer s' h' → Grows s h s' h' → Contained [] s s' → s'.code.depth = none →
      s'.code.instructions = s.code.instructions ++
        [⟨s.code.code.size, .loadA, [slot]⟩, ⟨s.code.code.size + 2, .throw, []⟩] →
      s'.code.code.size = s.code.code.size + 3 → s'.code.handlers = s.code.handlers → Runs env s' h' k post) :
    Runs env s h (do
      op .loadA [slot]
      op .throw []
      k) post := by
  apply Runs.bind (runs_loadAAt slot empty)
  rintro _ s₁ h₁ - grown₁ ⟨contained₁, loaded₁, size₁, depth₁, rows₁⟩
  apply Runs.bind (runs_throwAt (k := 0) (Or.inl depth₁))
  rintro _ s₂ h₂ sound₂ grown₂ ⟨contained₂, thrown₂, size₂, depth₂, rows₂⟩
  refine rest s₂ h₂ sound₂ (grown₁.trans grown₂) (contained₁.trans contained₂) depth₂ ?_ (by rw [size₂, size₁])
    (rows₂.trans rows₁)
  rw [thrown₂, loaded₁, size₁, List.append_assoc]
  rfl

/-- The two handlers of a resource's close, lowered where the normal close from `stop` has jumped
to `after`: their code is `handlerCode`, their rows are `closeRows`, and `after` is placed where
the 32 bytes of the close end. -/
theorem runs_closeHandlersAt {β : Type} {primary secondary slot start stop after : Nat} {fixups : Array Nat}
    {k : LowerM β} {post : β → Lowering → (Nat → Nat) → Prop}
    (unreached : s.code.depth = none) (waiting : s.code.labels[after]? = some (.unplaced fixups (some 0)))
    (covers : start < stop → s.code.Covers start stop) (first : s.Clear start) (second : s.Clear stop)
    (low : start ≤ stop) (entered : s.code.code.size = stop + 9)
    (rest : ∀ s' h', Sound env.isInitializer s' h' → Grows s h s' h' → s'.Holds 0 → Spans [after] s s' →
      s'.locals.next = s.locals.next → s'.code.labels[after]? = some (.placed (stop + 32)) →
      (∃ closer suppressor, FunctionEntry s'.pool.entries closer Intrinsic.close.reference ∧
        FunctionEntry s'.pool.entries suppressor Intrinsic.suppress.reference ∧
        handlerCode primary secondary slot stop closer suppressor ⊆ s'.code.instructions) →
      s'.code.code.size = stop + 32 → s'.code.handlers.toList = s.code.handlers.toList ++ closeRows start stop →
      Runs env s' h' k post) :
    Runs env s h (do
      let closeHandler ← offset
      enterHandler
      op .storeA [primary]
      op .loadA [slot]
      closeResource
      let closeStop ← offset
      op .loadA [primary]
      op .throw []
      let suppressHandler ← offset
      enterHandler
      op .storeA [secondary]
      op .loadA [primary]
      op .loadA [secondary]
      callIntrinsic .suppress
      op .loadA [primary]
      op .throw []
      if start < stop then addHandler start stop closeHandler none
      addHandler closeHandler closeStop suppressHandler none
      place after
      k) post := by
  apply Runs.of_sound
  intro sound
  apply runs_enterStoreAt unreached
  rintro s₁ h₁ - grown₁ contained₁ depth₁ at₁ stored₁ size₁ rows₁
  apply Runs.bind (runs_loadAAt slot (Or.inl depth₁))
  rintro _ s₂ h₂ - grown₂ ⟨contained₂, loaded₂, size₂, depth₂, rows₂⟩
  apply Runs.bind (runs_closeResourceAt (k := 0) (Or.inl depth₂))
  rintro _ s₃ h₃ sound₃ grown₃ ⟨contained₃, depth₃, closer, entry₃, closed₃, size₃, rows₃⟩
  apply Runs.bind runs_offset
  rintro _ t g - - ⟨rfl, -, same, same'⟩
  subst t g
  apply runs_rethrowAt (Or.inl depth₃)
  rintro s₄ h₄ - grown₄ contained₄ depth₄ thrown₄ size₄ rows₄
  apply runs_enterStoreAt depth₄
  rintro s₅ h₅ - grown₅ contained₅ depth₅ at₅ stored₅ size₅ rows₅
  apply Runs.bind (runs_loadAAt primary (Or.inl depth₅))
  rintro _ s₆ h₆ - grown₆ ⟨contained₆, loaded₆, size₆, depth₆, rows₆⟩
  apply Runs.bind (runs_loadAAt secondary (Or.inl depth₆))
  rintro _ s₇ h₇ - grown₇ ⟨contained₇, loaded₇, size₇, depth₇, rows₇⟩
  apply Runs.bind (runs_callIntrinsicAt .suppress (k := 0) (Or.inl depth₇))
  rintro _ s₈ h₈ - grown₈ ⟨contained₈, depth₈, suppressor, entry₈, called₈, size₈, rows₈⟩
  apply runs_rethrowAt (Or.inl depth₈)
  rintro s₉ h₉ sound₉ grown₉ contained₉ depth₉ thrown₉ size₉ rows₉
  have code : s₉.code.instructions = s.code.instructions ++ handlerCode primary secondary slot stop closer suppressor := by
    rw [thrown₉, called₈, loaded₇, loaded₆, stored₅, thrown₄, closed₃, loaded₂, stored₁]
    simp [handlerCode, size₈, size₇, size₆, size₅, size₄, size₃, size₂, size₁, entered, Intrinsic.invocation]
  have rows : s₉.code.handlers = s.code.handlers := by
    rw [rows₉, rows₈, rows₇, rows₆, rows₅, rows₄, rows₃, rows₂, rows₁]
  have high : stop ≤ s.code.code.size := by omega
  have later₅ : Grows s₅ h₅ s₉ h₉ := grown₆.trans grown₇ |>.trans grown₈ |>.trans grown₉
  have later : Grows s₁ h₁ s₉ h₉ := grown₂.trans grown₃ |>.trans grown₄ |>.trans grown₅ |>.trans later₅
  have closing := contained₄.trans contained₅ |>.trans contained₆ |>.trans contained₇ |>.trans contained₈
    |>.trans contained₉
  have handled := contained₁.trans contained₂ |>.trans contained₃ |>.trans closing
  dsimp only
  apply Runs.bind_ite (runs_addHandlerIf none (fun nonempty => (grown₁.trans later).covers (covers nonempty))
    (first.keep handled.rows (Nat.le_trans low high)) (second.keep handled.rows high) (at₁.grow later) (by simp))
  rintro _ s₁₀ h₁₀ - grown₁₀ ⟨spans₁₀, locals₁₀, depth₁₀, size₁₀, same₁₀, handlers₁₀⟩
  subst h₁₀
  have closeStart : s.code.code.size < s₃.code.code.size := by omega
  apply Runs.bind (runs_addHandler none
    (covers_of_grows (grown₁.trans grown₂ |>.trans grown₃) (grown₄.trans grown₅ |>.trans later₅ |>.trans grown₁₀)
      closeStart)
    (within_of_clear ((sound.clear.keep handled.rows (Nat.le_refl _)).append_before handlers₁₀ high)
      ((sound₃.clear.keep closing.rows (Nat.le_refl _)).append_before handlers₁₀
        (Nat.le_trans high (Nat.le_of_lt closeStart))))
    (at₅.grow (later₅.trans grown₁₀)).1 (at₅.grow (later₅.trans grown₁₀)).2.1 (by simp))
  rintro _ s₁₁ h₁₁ - grown₁₁ ⟨spans₁₁, locals₁₁, handlers₁₁, depth₁₁, size₁₁, same₁₁⟩
  subst h₁₁
  -- the exit is reached only by the normal close's jump, which left the stack empty
  have unreached₁₁ : s₁₁.code.depth = none := by rw [depth₁₁, depth₁₀, depth₉]
  apply Runs.bind ((runs_place (spans₁₁.keeps (spans₁₀.keeps (handled.keeps waiting (by simp)) List.not_mem_nil)
    List.not_mem_nil) (fun _ _ reached _ => by simp [unreached₁₁] at reached)).keepsRows (keepsRows_place after))
  rintro _ s₁₂ h₁₂ sound₁₂ grown₁₂ ⟨⟨contained₁₂, placed₁₂, depth₁₂, size₁₂, -, -⟩, rows₁₂⟩
  have size : s₁₁.code.code.size = stop + 32 := by
    rw [size₁₁, size₁₀, size₉, size₈, size₇, size₆, size₅, size₄, size₃, size₂, size₁, entered]
  have placed : s₁₂.code.labels[after]? = some (.placed (stop + 32)) := by rw [placed₁₂, size]
  have grownAll : Grows s h s₁₁ h₉ := grown₁.trans later |>.trans grown₁₀ |>.trans grown₁₁
  have toExit : Grows s₉ h₉ s₁₂ h₁₂ := grown₁₀.trans grown₁₁ |>.trans grown₁₂
  refine rest s₁₂ h₁₂ sound₁₂ (grownAll.trans grown₁₂) (Or.inl (by rw [depth₁₂, unreached₁₁]; rfl)) ?_ ?_ placed
    ⟨closer, suppressor, entry₃.mono (grown₄.trans grown₅ |>.trans later₅ |>.trans toExit).pool, entry₈.mono (grown₉.trans toExit).pool,
      fun i mem => toExit.keeps sound₉ (by rw [code]; exact List.mem_append_right _ mem)
        (handlerCode_plain primary secondary slot stop closer suppressor i mem)⟩
    (by rw [size₁₂, size]) ?_
  · exact (handled.toSpans.trans spans₁₀ |>.trans spans₁₁ |>.trans contained₁₂.toSpans).widen (by simp)
  · rw [contained₁₂.slots, locals₁₁, locals₁₀, handled.slots]
  · rw [rows₁₂, handlers₁₁, Array.toList_push, handlers₁₀, rows, closeRows, List.append_assoc]
    simp [size₄, size₃, size₂, size₁, entered]

/-- Closing the open resources, in the order given: each is closed from where the previous close
ended, by 32 bytes of code, and adds the rows `closeRows` says; its slot is released. The ranges
start at marks, each before the one of the resource closed before it. -/
theorem runs_closeResourcesAt (primary secondary : Nat) (closing : List ResourceCode) {low : Nat}
    (empty : s.Holds 0) (taken : closing.length ≤ s.locals.next) (marks : s.Marks low (closing.map ResourceCode.start))
    (ordered : (closing.map ResourceCode.start).Pairwise (· ≥ ·)) :
    Runs env s h (closeResources primary secondary (closing.map fun r => (r.slot, r.start))) fun _ s' _ =>
      s'.Holds 0 ∧ Spans [] s s' ∧ s'.locals.next = s.locals.next - closing.length ∧
        Closes s'.pool.entries s'.code.instructions primary secondary s.code.code.size closing ∧
        s'.code.code.size = s.code.code.size + 32 * closing.length ∧
        s'.code.handlers.toList = s.code.handlers.toList ++ closeTable s.code.code.size closing := by
  induction closing generalizing s h with
  | nil => exact runs_pure () ⟨empty, .refl [] s, rfl, trivial, rfl, by simp [closeTable]⟩
  | cons r rest ih =>
    rw [List.map_cons, closeResources]
    apply Runs.bind runs_offset
    rintro _ t g sound - ⟨rfl, -, same, same'⟩
    subst t g
    apply Runs.bind (runs_freshLabel.keepsRows keepsRows_freshLabel)
    rintro after s₁ h₁ - grown₁ ⟨⟨rfl, fresh₁, contained₁, depth₁, size₁, -⟩, rows₁⟩
    apply Runs.bind (runs_loadAAt r.slot (by unfold Holds; rw [depth₁]; exact empty))
    rintro _ s₂ h₂ sound₂ grown₂ ⟨contained₂, loaded₂, size₂, depth₂, rows₂⟩
    apply Runs.bind (runs_closeResourceAt (k := 0) (Or.inl depth₂))
    rintro _ s₃ h₃ sound₃ grown₃ ⟨contained₃, depth₃, closer, entry₃, closed₃, size₃, rows₃⟩
    apply Runs.bind ((runs_jump_unplaced (o := .jump) rfl
      (contained₃.keeps (contained₂.keeps fresh₁ List.not_mem_nil) List.not_mem_nil) (Or.inl depth₃) (Nat.zero_le _)
      (show ((0 : Nat) : Int) = ((0 : Nat) : Int) + _ by simp [Opcode.stackEffect]) nofun).keepsRows
      (keepsRows_jump .jump _))
    rintro _ s₄ h₄ sound₄ grown₄ ⟨⟨contained₄, waiting₄, jumped₄, depth₄⟩, rows₄⟩
    have normal := contained₁.trans contained₂ |>.trans contained₃ |>.trans contained₄
    have grown₀₄ : Grows s h s₄ h₄ := grown₁.trans grown₂ |>.trans grown₃ |>.trans grown₄
    have entered : s₄.code.code.size = s.code.code.size + 9 := by
      rw [size_of_append sound₃ sound₄ jumped₄, size₃, size₂, size₁]
      rfl
    obtain ⟨above, inside, boundary, clear⟩ := marks r.start (List.mem_cons_self ..)
    apply runs_closeHandlersAt (by rw [depth₄]; rfl) waiting₄ (fun nonempty => grown₀₄.covers_upto boundary nonempty)
      (clear.keep normal.rows inside) (sound.clear.keep normal.rows (Nat.le_refl _)) inside entered
    rintro s₅ h₅ sound₅ grown₅ holds₅ spans₅ slots₅ placed₅
      ⟨closer', suppressor, entry₅, suppressing₅, handlers₅⟩ size₅ rows₅
    apply Runs.bind (runs_releaseSlot (by rw [slots₅, normal.slots]; simp at taken; omega))
    rintro _ s₆ h₆ - grown₆ ⟨slots₆, code₆, loops₆, same₆⟩
    subst h₆
    have earlier : ∀ o ∈ rest.map ResourceCode.start, o ≤ r.start := (List.pairwise_cons.mp ordered).1
    have marksRest : s.Marks low (rest.map ResourceCode.start) := fun o mem => marks o (List.mem_cons_of_mem _ mem)
    have rowsFrom₅ : RowsFrom r.start s₄ s₅ := ⟨_, rows₅, fun row mem => by
      have := closeRows_from (Nat.le_refl r.start) inside row mem
      omega⟩
    have marks₆ : s₆.Marks low (rest.map ResourceCode.start) :=
      ((marksRest.grow grown₀₄ normal.rows).keep grown₅ rowsFrom₅ earlier).grow grown₆ (.of_code code₆)
    apply (ih (s := s₆) (h := h₅) (by unfold Holds; rw [code₆]; exact holds₅)
      (by rw [slots₆, slots₅, normal.slots]; simp at taken; omega) marks₆ (List.pairwise_cons.mp ordered).2).mono
    rintro _ s₇ h₇ sound₇ grown₇ ⟨holds₇, spans₇, slots₇, closes₇, size₇, rows₇⟩
    have closed : ClosedAt s₅.pool.entries s₅.code.instructions primary secondary r.slot s.code.code.size := by
      have kept : ∀ i ∈ s₃.code.instructions, i.opcode.isJump = false → i ∈ s₅.code.instructions :=
        fun i mem plain => (grown₄.trans grown₅).keeps sound₃ mem plain
      obtain ⟨j, memJ, atJ, jumpJ⟩ := grown₅.persists _ (mem_of_appended jumped₄)
      refine ClosedAt.of_laid sound₅.encoded.2.1 (entry₃.mono (grown₄.trans grown₅).pool) entry₅ suppressing₅ ?_ memJ
        (by rw [atJ, size₃, size₂, size₁]) jumpJ
      simp only [closeCode, List.cons_subset]
      refine ⟨kept _ ?_ rfl, kept _ ?_ rfl, kept _ ?_ rfl, handlers₅⟩ <;> rw [closed₃] <;> simp [loaded₂, size₂, size₁]
    have size₆ : s₆.code.code.size = s.code.code.size + 32 := by rw [code₆, size₅]
    refine ⟨holds₇, ?_, by rw [slots₇, slots₆, slots₅, normal.slots]; simp; omega,
      ⟨closed.grow sound₅ sound₇ (grown₆.trans grown₇), size₆ ▸ closes₇⟩, by rw [size₇, size₆, List.length_cons]; omega, ?_⟩
    · have whole := normal.toSpans.trans spans₅ |>.trans (Spans.of_kept (by rw [code₆]) loops₆ : Spans [] s₅ s₆)
        |>.trans spans₇
      refine whole.close (fun l mine => ?_) (fun l mine => ?_) <;>
        obtain rfl : l = s.code.labels.size := by simpa using mine
      · exact Nat.le_refl _
      · exact ⟨_, spans₇.keeps (by rw [code₆]; exact placed₅) List.not_mem_nil⟩
    · rw [rows₇, size₆, code₆, rows₅, rows₄, rows₃, rows₂, rows₁, closeTable, List.append_assoc]

end Close

/-! ## Resource blocks -/

/-- How a resource block over `resources` with body `body`, whose names are declared in `scope`,
was laid out from `s` to `s'`. Its two exception slots are the first free ones. Each resource is
opened in a slot of its own after them (`Opens`), the body follows where the last resource's
range starts, and the resources are closed from where the body ends, the last opened first
(`Closes`). The rows added are the resources' values', then the body's, then the closes'
(`closeTable`), in this order. -/
def ResourcesLaid (env : FunctionEnv) (scope : Nat) (resources : List (Option Ident × Expr)) (body : LowerM Unit)
    (s s' : Lowering) : Prop :=
  ∃ (opened : List ResourceCode) (bodyStop : Nat) (bodyRows : List HandlerSite),
    List.Forall₂ (ResourceCode.Opened env scope s'.code.instructions) resources opened ∧
    Opens s.code.code.size (s.locals.next + 2) opened ∧
    Emits env body (s.locals.next + 2 + resources.length) (opensEnd s.code.code.size opened) bodyStop bodyRows ∧
    Closes s'.pool.entries s'.code.instructions s.locals.next (s.locals.next + 1) bodyStop opened.reverse ∧
    s'.code.code.size = bodyStop + 32 * resources.length ∧
    s'.code.handlers.toList = s.code.handlers.toList ++ (opened.map ResourceCode.valueRows).flatten ++ bodyRows ++
      closeTable bodyStop opened.reverse

theorem ResourceCode.Opened.grow {env : FunctionEnv} {init : Bool} {s s' : Lowering} {h h' : Nat → Nat} {scope : Nat}
    {resource : Option Ident × Expr} {r : ResourceCode} (opened : r.Opened env scope s.code.instructions resource)
    (sound : Sound init s h) (grown : Grows s h s' h') : r.Opened env scope s'.code.instructions resource :=
  ⟨opened.1, opened.2.1, grown.keeps sound opened.2.2 rfl⟩

section With

variable {env : FunctionEnv} {s : Lowering} {h : Nat → Nat}

/-- A block over resources whose body leaves the stack as it found it is laid out as
`ResourcesLaid` says, and leaves the stack, the slots and everything outside its code as it found
them. -/
theorem runs_withAt (resources : List (Option Ident × Expr)) (scope : Option Nat) {body : LowerM Unit}
    (bodies : Leaves env body 0 0) (empty : s.Holds 0) :
    Runs env s h (lowerWith resources scope body) fun _ s' _ =>
      s'.Holds 0 ∧ Contained [] s s' ∧ ResourcesLaid env (scope.getD env.scope) resources body s s' := by
  unfold lowerWith
  apply Runs.bind runs_takeSlot
  rintro _ s₁ h₁ - - ⟨rfl, -, slots₁, code₁, loops₁, same₁⟩
  subst h₁
  apply Runs.bind runs_takeSlot
  rintro _ s₂ h₂ - - ⟨rfl, -, slots₂, code₂, loops₂, same₂⟩
  subst h₂
  apply Runs.bind (runs_blockScope scope)
  rintro bodyScope t g - - ⟨rfl, same, same'⟩
  subst t g
  apply Runs.bind (runs_openResourcesAt (scope.getD env.scope) resources
    (by unfold Holds; rw [code₂, code₁]; exact empty))
  rintro _ s₃ h₃ sound₃ grown₃
    ⟨holds₃, spans₃, slots₃, rows₃, opened, rfl, marks₃, ordered₃, lowered₃, opens₃, size₃, handlers₃⟩
  apply Runs.bind (Runs.ends (bodies s₃ h₃ holds₃))
  rintro _ s₄ h₄ sound₄ grown₄ ⟨⟨holds₄, contained₄⟩, ran₄⟩
  obtain ⟨bodyRows, handlers₄, emits⟩ := Emits.of_contained ran₄ contained₄ sound₄
  -- the body's rows start after every mark, and the resources are closed the last opened first
  have count : opened.length = resources.length := lowered₃.length_eq.symm
  rw [← List.map_reverse]
  apply Runs.bind (runs_closeResourcesAt _ _ opened.reverse holds₄
    (by rw [List.length_reverse, count, contained₄.slots, slots₃]; omega)
    (fun o mem => marks₃.grow grown₄ contained₄.rows o (by simpa using mem))
    (by rw [List.map_reverse, List.pairwise_reverse]; exact ordered₃))
  rintro _ s₅ h₅ sound₅ grown₅ ⟨holds₅, spans₅, slots₅, closes₅, closedSize, handlers₅⟩
  have back₅ : s₅.locals.next = s.locals.next + 2 := by
    rw [slots₅, List.length_reverse, count, contained₄.slots, slots₃, slots₂, slots₁]
    omega
  apply Runs.bind (runs_releaseSlot (by rw [back₅]; omega))
  rintro _ s₆ h₆ - grown₆ ⟨slots₆, code₆, loops₆, same₆⟩
  subst h₆
  apply (runs_releaseSlot (by rw [slots₆, back₅]; omega)).mono
  rintro _ s₇ h₇ sound₇ grown₇ ⟨slots₇, code₇, loops₇, -⟩
  have whole := (Spans.of_kept (by rw [code₂, code₁]) (by rw [loops₂, loops₁]) : Spans [] s s₂).trans spans₃
    |>.trans contained₄.toSpans |>.trans spans₅
    |>.trans (Spans.of_kept (by rw [code₇, code₆]) (by rw [loops₇, loops₆]) : Spans [] s₅ s₇)
  have start : s.code.code.size = s₂.code.code.size := by rw [code₂, code₁]
  have size₄ : s.code.code.size ≤ s₄.code.code.size := Nat.le_trans (Nat.le_of_eq start) (grown₃.trans grown₄).size
  have size₅ : s.code.code.size ≤ s₅.code.code.size := Nat.le_trans size₄ grown₅.size
  have rows₄ : RowsSince s s₄ := ((RowsSince.of_code (by rw [code₂, code₁]) : RowsSince s s₂).trans rows₃
    (Nat.le_of_eq start)).trans contained₄.rows (Nat.le_trans (Nat.le_of_eq start) grown₃.size)
  have rows₅ : RowsFrom s₂.code.code.size s₄ s₅ := ⟨_, handlers₅, closeTable_from
    (fun r mem => (marks₃ r.start (List.mem_map_of_mem (List.mem_reverse.mp mem))).1) (grown₃.trans grown₄).size⟩
  have final : s₇.code = s₅.code := by rw [code₇, code₆]
  have taken : s₂.locals.next = s.locals.next + 2 := by rw [slots₂, slots₁]
  refine ⟨by unfold Holds; rw [final]; exact holds₅,
    { whole with slots := by rw [slots₇, slots₆, back₅]; omega, grown := by rw [final]; exact size₅, rows := ?_ },
    opened, s₄.code.code.size, bodyRows,
    lowered₃.imp fun _ _ kept => kept.grow sound₃ (grown₄.trans grown₅ |>.trans grown₆ |>.trans grown₇), ?_, ?_,
    ?_, by rw [final, closedSize, List.length_reverse, count], ?_⟩
  · exact RowsFrom.trans (RowsFrom.trans rows₄ rows₅ (Nat.le_of_eq start) size₄)
      (RowsSince.of_code final) size₅ size₅
  · rw [start, ← taken]
    exact opens₃
  · rw [start, ← taken, ← size₃, ← slots₃]
    exact emits
  · rw [← slots₁]
    exact closes₅.grow sound₅ sound₇ (grown₆.trans grown₇)
  · rw [final, handlers₅, handlers₄, handlers₃, code₂, code₁]

/-- A block over resources leaves the stack as it found it. -/
theorem leaves_with (resources : List (Option Ident × Expr)) (scope : Option Nat) {body : LowerM Unit}
    (bodies : Leaves env body 0 0) : Leaves env (lowerWith resources scope body) 0 0 := fun _ _ empty =>
  (runs_withAt resources scope bodies empty).mono fun _ _ _ _ _ ⟨holds, contained, _⟩ => ⟨holds, contained⟩

end With

end Lowering

end Febc
