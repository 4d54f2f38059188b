import Mathlib
import Febc.Proofs.Handlers

/-!
# Guarded blocks

A guarded block runs its body; each catch clause is a handler of the body's range, entered where
the code before it cannot fall through, and each clause but the last jumps past the handlers. A
`finally` block is lowered twice: on the normal path, and as a handler of the body and of every
clause that keeps the exception in a private slot and throws it again.

The rows a guarded block adds are, in order, those of its body's code, then for each clause the
rows of the clause's code and one row over the body's range per class the clause catches
(`clauseTable`), then those of the two copies of the `finally` block and its catch-all rows over
the body's range and over every clause. Every row is added over whole instructions that no earlier
row straddles.

Main statements:
* `runs_lowerCatches`: the clauses, laid out one after another, their rows and the classes they
  catch (`Caught`);
* `runs_finally`: the two copies of a `finally` block and the handler around the second
  (`Finished`);
* `runs_lowerTry`: the whole block, laid out as `TryLayout` and `FinallyLayout` say;
* `runs_guarded`: a guarded block leaves the stack as it found it, and over the body's range its
  body's rows come first, then its clauses' rows, then its `finally` row.
-/

namespace Febc

/-- The classes a catch clause names. -/
def Catch.filters : Catch → List Ident
  | .mk filters _ _ => filters

namespace Lowering

open CodeBuilder

/-- A label not placed yet, whose jumps all leave the stack empty. -/
def Waits (s : Lowering) (l : Nat) : Prop :=
  ∃ fixups r, s.code.labels[l]? = some (.unplaced fixups r) ∧ ∀ d, r = some d → d = 0

/-- A label not placed yet, waited for by jumps whose operands lie at `ops`, all of which leave the
stack empty. -/
def WaitsFor (s : Lowering) (l : Nat) (ops : List Nat) : Prop :=
  ∃ fixups r, s.code.labels[l]? = some (.unplaced fixups r) ∧ fixups.toList = ops ∧ ∀ d, r = some d → d = 0

/-- The rows of `s'` are those of `s` followed by rows over `[start, stop)` or over code emitted
after `s`, each with its handler in that code. -/
def RowsOver (start stop : Nat) (s s' : Lowering) : Prop :=
  ∃ added : List HandlerSite, s'.code.handlers.toList = s.code.handlers.toList ++ added ∧
    ∀ row ∈ added, (row.start = start ∧ row.stop = stop ∨ s.code.code.size ≤ row.start) ∧
      s.code.code.size ≤ row.handler

/-- The rows of the clauses of a guarded block over its body's range `[start, stop)`: for each
clause, one row per class it catches, to the clause's handler. -/
def clauseRows (start stop : Nat) : List (Nat × Nat) → List (List (Option Nat)) → List HandlerSite
  | range :: ranges, classes :: rest =>
    (if start < stop then classes.map (⟨start, stop, range.1, ·⟩) else []) ++ clauseRows start stop ranges rest
  | _, _ => []

/-- The rows `added` lie over code in `[start, stop)`, and their handlers start there. -/
def RowsIn (start stop : Nat) (added : List HandlerSite) : Prop :=
  ∀ row ∈ added, start ≤ row.start ∧ row.stop ≤ stop ∧ start ≤ row.handler ∧ row.handler < stop

/-- A step run from a state whose code ends at `start` and whose first free private slot is
`next`: it returns, having emitted the code `[start, stop)` and added the rows `added`, all over
that code. -/
def Emits (env : FunctionEnv) (m : LowerM Unit) (next start stop : Nat) (added : List HandlerSite) : Prop :=
  ∃ t t' : Lowering, runStep (m.run env) t = (.ok (), t') ∧ t.locals.next = next ∧ t.code.code.size = start ∧
    t'.code.code.size = stop ∧ start ≤ stop ∧ t'.code.handlers.toList = t.code.handlers.toList ++ added ∧
    RowsIn start stop added

/-- The code of a catch clause's handler: the caught exception is stored into the clause's
parameter, then the clause's block runs. -/
def catchHandler : Catch → LowerM Unit
  | .mk _ param body => do
    storeDeclared (← blockScope body.scope) param
    lowerBlock body

/-- What lowering one catch clause gave: the range `[handler, stop)` of its handler's code, the
classes it catches, and the rows that code added. -/
structure ClauseCode where
  handler : Nat
  stop : Nat
  classes : List (Option Nat)
  inner : List HandlerSite

/-- The range of a clause's handler code. -/
def ClauseCode.range (k : ClauseCode) : Nat × Nat := (k.handler, k.stop)

/-- A catch clause lowered into `k`, in the environment of its guarded block and with `next` the
first free private slot: its filters gave `k.classes`, the classes it catches by their entries of
the pool, reporting one problem for each filter that names no class; and its handler's code,
which stores the exception into its parameter and runs its block, is `[k.handler, k.stop)`, with
the rows `k.inner`. -/
def Catch.Lowered (env : FunctionEnv) (entries : Array Constant) (next : Nat) (c : Catch) (k : ClauseCode) :
    Prop :=
  Catches env entries c.filters k.classes ∧
    (∃ t t' : Lowering, runStep ((catchFilters c.filters).run env) t = (.ok k.classes, t') ∧
      t'.diagnostics.toList = t.diagnostics.toList ++ filterProblems env c.filters) ∧
    Emits env (catchHandler c) next k.handler k.stop k.inner

/-- The rows the catch clauses of a guarded block add, in order: for each clause, the rows of its
handler's code, then one row over the body's range `[start, stop)` to its handler per class it
catches, unless that range is empty. -/
def clauseTable (start stop : Nat) : List ClauseCode → List HandlerSite
  | [] => []
  | k :: rest =>
    k.inner ++ (if start < stop then k.classes.map (⟨start, stop, k.handler, ·⟩) else []) ++
      clauseTable start stop rest

/-- Clauses laid out one after another from `first`: each starts where the one before it ends,
past the three bytes of the jump that ends it. -/
def Chained : Nat → List ClauseCode → Prop
  | _, [] => True
  | first, k :: rest => k.handler = first ∧ Chained (k.stop + 3) rest

/-- Where the body of a guarded block and each of its clauses but the last end with a jump past
the handlers. -/
def jumpSites (tryStop : Nat) (clauses : List ClauseCode) : List Nat :=
  (tryStop :: clauses.map (·.stop)).dropLast

/-- Where the body of a guarded block and its clauses end: the end of the last clause, or of the
body if there is none. -/
def clausesEnd (tryStop : Nat) (clauses : List ClauseCode) : Nat :=
  (clauses.map (·.stop)).getLastD tryStop

section Labels

variable {env : FunctionEnv} {s s' : Lowering} {h : Nat → Nat} {l : Nat} {ops : List Nat}

theorem Waits.fresh (fresh : s.code.labels[l]? = some (.unplaced #[] none)) : s.Waits l :=
  ⟨#[], none, fresh, nofun⟩

theorem Waits.keep {own : List Nat} (waits : s.Waits l) (spans : Spans own s s') (other : l ∉ own) :
    s'.Waits l := by
  obtain ⟨fixups, r, unplaced, agrees⟩ := waits
  exact ⟨fixups, r, spans.keeps unplaced other, agrees⟩

theorem WaitsFor.waits (waits : s.WaitsFor l ops) : s.Waits l := by
  obtain ⟨fixups, r, unplaced, -, agrees⟩ := waits
  exact ⟨fixups, r, unplaced, agrees⟩

theorem WaitsFor.fresh (fresh : s.code.labels[l]? = some (.unplaced #[] none)) : s.WaitsFor l [] :=
  ⟨#[], none, fresh, rfl, nofun⟩

theorem WaitsFor.keep {own : List Nat} (waits : s.WaitsFor l ops) (spans : Spans own s s') (other : l ∉ own) :
    s'.WaitsFor l ops := by
  obtain ⟨fixups, r, unplaced, same, agrees⟩ := waits
  exact ⟨fixups, r, spans.keeps unplaced other, same, agrees⟩

/-- An instruction just emitted is among the instructions. -/
theorem mem_of_appended {is is' : List Instruction} {i : Instruction} (appended : is' = is ++ [i]) : i ∈ is' := by
  rw [appended]
  exact List.mem_append_right _ (List.mem_singleton_self _)

/-- A jump to a waiting label from where the stack is empty: the label waits at the jump's operand
too, and the code after the jump is unreachable. -/
theorem runs_jumpWaitsFor (waits : s.WaitsFor l ops) (empty : s.Holds 0) :
    Runs env s h (jump .jump l) fun _ s' _ =>
      Contained [l] s s' ∧ s'.WaitsFor l (ops ++ [s.code.code.size + 1]) ∧ s'.code.depth = none ∧
        s'.code.instructions = s.code.instructions ++ [⟨s.code.code.size, .jump, [0]⟩] ∧
        s'.code.code.size = s.code.code.size + 3 ∧ s'.code.handlers = s.code.handlers := by
  obtain ⟨fixups, r, unplaced, same, agrees⟩ := waits
  apply Runs.of_sound
  intro sound
  apply ((runs_jump_unplaced (o := .jump) rfl unplaced empty (Nat.zero_le _)
    (show ((0 : Nat) : Int) = ((0 : Nat) : Int) + _ by simp [Opcode.stackEffect]) agrees).keepsRows
    (keepsRows_jump _ _)).mono
  rintro _ s' h' sound' - ⟨⟨contained, waiting, appended, depth⟩, rows⟩
  refine ⟨contained, ⟨_, _, waiting, by rw [Array.toList_push, same], fun d same => (Option.some.inj same).symm⟩,
    depth, appended, ?_, rows⟩
  rw [size_of_append sound sound' appended]
  rfl

/-- A jump to a waiting label, taken only under a condition: if it is taken, the label waits at
its operand too and the jump ends the code. -/
theorem runs_jumpIfFor (c : Prop) [Decidable c] (waits : s.WaitsFor l ops) (empty : s.Holds 0) :
    Runs env s h (if c then jump .jump l else pure ()) fun _ s' _ =>
      s'.Holds 0 ∧ Contained [l] s s' ∧ s'.WaitsFor l (ops ++ if c then [s.code.code.size + 1] else []) ∧
        (c → s'.code.depth = none) ∧ s'.code.code.size = s.code.code.size + (if c then 3 else 0) ∧
        (c → ∃ i ∈ s'.code.instructions, i.offset = s.code.code.size ∧ i.opcode = .jump) ∧
        s'.code.handlers = s.code.handlers := by
  split
  · rename_i yes
    apply (runs_jumpWaitsFor waits empty).mono
    rintro _ s' h' - - ⟨contained, waits', unreached, appended, size, rows⟩
    exact ⟨Or.inr ⟨unreached, rfl⟩, contained, waits', fun _ => unreached, size,
      fun _ => ⟨_, mem_of_appended appended, rfl, rfl⟩, rows⟩
  · rename_i no
    exact runs_pure () ⟨empty, .refl [l] s, by simpa using waits, fun yes => absurd yes no, rfl,
      fun yes => absurd yes no, rfl⟩

/-- A jump to a waiting label, taken only under a condition. -/
theorem runs_jumpIf (c : Prop) [Decidable c] (waits : s.Waits l) (empty : s.Holds 0) :
    Runs env s h (if c then jump .jump l else pure ()) fun _ s' _ =>
      s'.Holds 0 ∧ Contained [l] s s' ∧ s'.Waits l ∧ (c → s'.code.depth = none) := by
  obtain ⟨fixups, r, unplaced, agrees⟩ := waits
  exact (runs_jumpIfFor c ⟨fixups, r, unplaced, rfl, agrees⟩ empty).mono
    fun _ _ _ _ _ ⟨holds, contained, waits', unreached, _⟩ => ⟨holds, contained, waits'.waits, unreached⟩

/-- Placing a waiting label where the stack is empty or the code unreachable: the stack is empty
there, and exactly the jumps that waited for it now go there. -/
theorem runs_placeWaitsFor (waits : s.WaitsFor l ops) (empty : s.Holds 0) :
    Runs env s h (place l) fun _ s' _ =>
      s'.Holds 0 ∧ Contained [l] s s' ∧ s'.code.labels[l]? = some (.placed s.code.code.size) ∧
        s'.code.code.size = s.code.code.size ∧
        s'.code.instructions = s.code.instructions.map (Instruction.patch ops s.code.code.size) ∧
        s'.code.handlers = s.code.handlers := by
  obtain ⟨fixups, r, unplaced, same, agrees⟩ := waits
  have depthAgrees : ∀ c d, s.code.depth = some c → r = some d → c = d := by
    intro c d reached waited
    rw [agrees d waited]
    rcases empty with here | ⟨unreached, -⟩
    · exact Option.some.inj (reached.symm.trans here)
    · rw [unreached] at reached
      cases reached
  apply ((runs_place unplaced depthAgrees).keepsRows (keepsRows_place _)).mono
  rintro _ s' h' - - ⟨⟨contained, placed, depth, size, patched, -⟩, rows⟩
  refine ⟨Or.inl ?_, contained, placed, size, by rw [patched, same], rows⟩
  rw [depth]
  rcases empty with here | ⟨unreached, -⟩
  · simp [here]
  · cases r with
    | none => simp [unreached]
    | some d => simp [unreached, agrees d rfl]

/-- Placing a waiting label where the stack is empty or the code unreachable: the stack is empty
there. -/
theorem runs_placeWaiting (waits : s.Waits l) (empty : s.Holds 0) :
    Runs env s h (place l) fun _ s' _ =>
      s'.Holds 0 ∧ Contained [l] s s' ∧ s'.code.labels[l]? = some (.placed s.code.code.size) := by
  obtain ⟨fixups, r, unplaced, agrees⟩ := waits
  exact (runs_placeWaitsFor ⟨fixups, r, unplaced, rfl, agrees⟩ empty).mono
    fun _ _ _ _ _ ⟨holds, contained, placed, _⟩ => ⟨holds, contained, placed⟩

/-- A jump whose operand waits at one of the offsets a label is placed with goes where the label
is placed. -/
theorem mem_patch_of_waits {is : List Instruction} {offsets : List Nat} {v o : Nat} {op : Opcode}
    (jump : ∃ i ∈ is, i.offset = o ∧ i.opcode = op) (waits : o + 1 ∈ offsets) :
    (⟨o, op, [v]⟩ : Instruction) ∈ is.map (Instruction.patch offsets v) := by
  obtain ⟨i, mem, rfl, opcode⟩ := jump
  have retargeted := List.mem_map_of_mem (f := Instruction.patch offsets v) mem
  rw [Instruction.patch_of_mem waits] at retargeted
  obtain ⟨io, iop, ixs⟩ := i
  simp only at opcode
  subst opcode
  exact retargeted

end Labels

section Over

variable {start stop : Nat} {s s' s₁ s₂ s₃ : Lowering}

theorem RowsOver.of_since (rows : RowsSince s s') : RowsOver start stop s s' := by
  obtain ⟨added, handlers, bound⟩ := rows
  exact ⟨added, handlers, fun row mem => ⟨Or.inr (bound row mem).1, (bound row mem).2⟩⟩

theorem RowsOver.trans (first : RowsOver start stop s₁ s₂) (second : RowsOver start stop s₂ s₃)
    (grown : s₁.code.code.size ≤ s₂.code.code.size) : RowsOver start stop s₁ s₃ := by
  obtain ⟨added₁, handlers₁, bound₁⟩ := first
  obtain ⟨added₂, handlers₂, bound₂⟩ := second
  refine ⟨added₁ ++ added₂, by rw [handlers₂, handlers₁, List.append_assoc], fun row mem => ?_⟩
  rcases List.mem_append.mp mem with old | new
  · exact bound₁ row old
  · obtain ⟨range, handler⟩ := bound₂ row new
    exact ⟨range.imp_right (Nat.le_trans grown), Nat.le_trans grown handler⟩

/-- Rows over the range itself, with their handler in code emitted after `s`. -/
theorem RowsOver.append {more : List HandlerSite} (rows : RowsOver start stop s s₁)
    (handlers : s₂.code.handlers.toList = s₁.code.handlers.toList ++ more)
    (bound : ∀ row ∈ more, row.start = start ∧ row.stop = stop ∧ s.code.code.size ≤ row.handler) :
    RowsOver start stop s s₂ := by
  obtain ⟨added, handlers₁, bound₁⟩ := rows
  refine ⟨added ++ more, by rw [handlers, handlers₁, List.append_assoc], fun row mem => ?_⟩
  rcases List.mem_append.mp mem with old | new
  · exact bound₁ row old
  · obtain ⟨first, last, handler⟩ := bound row new
    exact ⟨Or.inl ⟨first, last⟩, handler⟩

/-- The rows over the range, or after `s`, start at the range or later. -/
theorem RowsOver.rowsFrom (rows : RowsOver start stop s s') (below : start ≤ s.code.code.size) :
    RowsFrom start s s' := by
  obtain ⟨added, handlers, bound⟩ := rows
  refine ⟨added, handlers, fun row mem => ⟨?_, (bound row mem).2⟩⟩
  rcases (bound row mem).1 with ⟨first, -⟩ | after
  · exact Nat.le_of_eq first.symm
  · exact Nat.le_trans below after

/-- An offset of `s` outside the range stays unstraddled. -/
theorem Clear.keep_over {o : Nat} (clear : s.Clear o) (rows : RowsOver start stop s s')
    (apart : o ≤ start ∨ stop ≤ o) (before : o ≤ s.code.code.size) : s'.Clear o := by
  obtain ⟨added, handlers, bound⟩ := rows
  intro row mem
  rw [handlers, List.mem_append] at mem
  rcases mem with old | new
  · exact clear row old
  · rcases (bound row new).1 with ⟨first, last⟩ | after
    · rcases apart with low | high
      · exact Or.inr (first ▸ low)
      · exact Or.inl (last ▸ high)
    · exact Or.inr (Nat.le_trans before after)

/-- The rows added since `s` lie, in a sound state, over code emitted since `s`. -/
theorem RowsSince.within {init : Bool} {h' : Nat → Nat} (rows : RowsSince s s') (sound : Sound init s' h') :
    ∃ added, s'.code.handlers.toList = s.code.handlers.toList ++ added ∧
      RowsIn s.code.code.size s'.code.code.size added := by
  obtain ⟨added, handlers, bound⟩ := rows
  refine ⟨added, handlers, fun row mem => ?_⟩
  have inTable : row ∈ s'.code.handlers.toList := by
    rw [handlers]
    exact List.mem_append_right _ mem
  obtain ⟨-, stop, -, -⟩ := sound.ranges row inTable
  obtain ⟨⟨i, memI, at_⟩, -⟩ := sound.handlers row inTable
  exact ⟨(bound row mem).1, stop, (bound row mem).2, at_ ▸ offset_lt sound memI⟩

/-- A run contained in the code it emits emits that code. -/
theorem Emits.of_contained {env : FunctionEnv} {init : Bool} {h' : Nat → Nat} {own : List Nat} {m : LowerM Unit}
    (ran : runStep (m.run env) s = (.ok (), s')) (contained : Contained own s s') (sound : Sound init s' h') :
    ∃ added, s'.code.handlers.toList = s.code.handlers.toList ++ added ∧
      Emits env m s.locals.next s.code.code.size s'.code.code.size added := by
  obtain ⟨added, handlers, inside⟩ := contained.rows.within sound
  exact ⟨added, handlers, s, s', ran, rfl, rfl, rfl, contained.grown, handlers, inside⟩

/-- The clauses' rows over the body's range come, in their order, among the clauses' rows. -/
theorem clauseRows_sublist (start stop : Nat) : ∀ clauses : List ClauseCode,
    (clauseRows start stop (clauses.map ClauseCode.range) (clauses.map (·.classes))).Sublist
      (clauseTable start stop clauses)
  | [] => by simp [clauseRows, clauseTable]
  | k :: rest => by
    simp only [List.map_cons, clauseRows, clauseTable, ClauseCode.range, List.append_assoc]
    exact (((List.Sublist.refl _).append (clauseRows_sublist start stop rest))).trans
      (List.sublist_append_right _ _)

/-- The clauses' rows over the body's range come, in their order, after the rows before a guarded
block and the body's rows, among the rows the clauses add. -/
theorem clauseRows_sublist_table (start stop : Nat) (before bodyRows : List HandlerSite) (clauses : List ClauseCode) :
    (before ++ bodyRows ++ clauseRows start stop (clauses.map ClauseCode.range) (clauses.map (·.classes))).Sublist
      (before ++ bodyRows ++ clauseTable start stop clauses) :=
  (clauseRows_sublist start stop clauses).append_left (before ++ bodyRows)

end Over

section Clauses

variable {env : FunctionEnv} {s : Lowering} {h : Nat → Nat}

/-- A handler entered where the code ended starts there once code is emitted after it. -/
theorem HandlerAt.of_entered {init : Bool} {s' : Lowering} {h' : Nat → Nat} (sound : Sound init s h)
    (entered : s.code.depth = some 1) (grown : Grows s h s' h') (grew : s.code.code.size < s'.code.code.size) :
    HandlerAt s' h' s.code.code.size := by
  refine ⟨grown.appended grew, ?_, grew⟩
  rw [grown.heights _ (Or.inr ⟨rfl, by simp [entered]⟩)]
  exact sound.current 1 entered

/-- Storing into a declared local emits one instruction, whether or not the name is a local. -/
theorem runs_storeDeclared (scope : Nat) (name : Ident) {k : Nat} (holds : s.Holds (k + 1)) :
    Runs env s h (storeDeclared scope name) fun _ s' _ =>
      s'.Holds k ∧ Contained [] s s' ∧ s.code.code.size < s'.code.code.size := by
  have pops : ∀ (o : Opcode) (xs : List Nat) (t : Lowering) (g : Nat → Nat),
      o.isJump = false ∧ o.isInvoke = false ∧ o.entryKind = none →
      xs.length = o.operands.length → (o.operands = [.u16] → ∀ x ∈ xs, x ≤ 65535) → o.isUnconditional = false →
      o.stackEffect = some (-1) →
      o.pops ≤ k + 1 → t.Holds (k + 1) → Runs env t g (op o xs) fun _ t' _ =>
        t'.Holds k ∧ Contained [] t t' ∧ t.code.code.size < t'.code.code.size := by
    intro o xs t g plain count wide falls effect room held
    apply (runs_opAt plain count wide effect room
      (show ((k : Nat) : Int) = ((k + 1 : Nat) : Int) + -1 by push_cast; omega)
      ⟨fun ret => absurd falls (by rw [ret]; decide), fun ret => absurd falls (by rw [ret]; decide)⟩ held).mono
    rintro _ t' g' - - ⟨contained, -, size, depth, -⟩
    rw [falls] at depth
    refine ⟨Or.inl depth, contained, ?_⟩
    rw [size]
    exact Nat.lt_add_of_pos_right (length_pos _)
  unfold storeDeclared
  apply Runs.read_bind
  split
  · exact pops .storeA _ s h ⟨rfl, rfl, rfl⟩ rfl (by simp [Opcode.operands]) rfl rfl (Nat.le_add_left 1 k) holds
  · exact pops .storeA _ s h ⟨rfl, rfl, rfl⟩ rfl (by simp [Opcode.operands]) rfl rfl (Nat.le_add_left 1 k) holds
  · apply Runs.bind (runs_report _ _ _)
    rintro _ s₁ h₁ - - ⟨still, -, same⟩
    subst h₁
    apply (pops .pop [] s₁ h ⟨rfl, rfl, rfl⟩ rfl (by simp [Opcode.operands]) rfl rfl (Nat.le_add_left 1 k)
      (still.holds holds)).mono
    rintro _ s' h' - - ⟨holds', contained, grew⟩
    exact ⟨holds', (still.contained []).trans contained, by rw [still.code] at grew; exact grew⟩

/-- A row guarding a range for one of some classes lies over that range. -/
theorem mem_guards {start stop handler : Nat} {classes : List (Option Nat)} {row : HandlerSite}
    (mem : row ∈ (if start < stop then classes.map (⟨start, stop, handler, ·⟩) else [])) :
    row.start = start ∧ row.stop = stop ∧ row.handler = handler := by
  split at mem
  · obtain ⟨c, -, rfl⟩ := List.mem_map.mp mem
    exact ⟨rfl, rfl, rfl⟩
  · cases mem

/-- Rows over a range of whole instructions for some classes, if the range is not empty. -/
theorem runs_guardRangeIf {start stop handler : Nat} (classes : List (Option Nat))
    (covers : start < stop → s.code.Covers start stop) (first : s.Clear start) (second : s.Clear stop)
    (at_ : HandlerAt s h handler) (named : ClassEntries s.pool.entries classes) :
    Runs env s h (if start < stop then guardRange start stop handler classes else pure ()) fun _ s' h' =>
      Spans [] s s' ∧ s'.locals = s.locals ∧ s'.code.depth = s.code.depth ∧
        s'.code.code.size = s.code.code.size ∧ h' = h ∧
        s'.code.handlers.toList = s.code.handlers.toList ++
          (if start < stop then classes.map (⟨start, stop, handler, ·⟩) else []) := by
  split
  · rename_i nonempty
    apply (runs_guardRange classes (covers nonempty) first second at_ named).mono
    rintro _ s' h' - - ⟨spans, locals, depth, size, same, handlers⟩
    exact ⟨spans, locals, depth, size, same, handlers⟩
  · rename_i empty
    exact runs_pure () ⟨.refl [] s, rfl, rfl, rfl, rfl, by rw [List.append_nil]⟩

/-- A catch clause's handler, entered with the exception alone on the stack: it stores the
exception into the parameter, emitting code, and runs the block, leaving the stack empty. -/
theorem runs_catchHandler (filters : List Ident) (param : Ident) (body : Block)
    (block : Leaves env (lowerBlock body) 0 0) (entered : s.code.depth = some 1) :
    Runs env s h (catchHandler (.mk filters param body)) fun _ s' _ =>
      s'.Holds 0 ∧ Contained [] s s' ∧ s.code.code.size < s'.code.code.size := by
  rw [catchHandler]
  apply Runs.bind (runs_blockScope _)
  rintro scope t g - - ⟨-, rfl, rfl⟩
  apply Runs.bind (runs_storeDeclared scope param (Or.inl entered))
  rintro _ s₁ h₁ - - ⟨holds₁, contained₁, grew₁⟩
  apply (block s₁ h₁ holds₁).mono
  rintro _ s' h' - grown' ⟨holds', contained'⟩
  exact ⟨holds', contained₁.trans contained', Nat.lt_of_lt_of_le grew₁ grown'.size⟩

theorem lowerCatches_cons (tryStart tryStop after : Nat) (c : Catch) (rest : List Catch) :
    lowerCatches tryStart tryStop after (c :: rest) = (do
      let classes ← catchFilters c.filters
      let handler ← offset
      enterHandler
      catchHandler c
      let handlerStop ← offset
      if !rest.isEmpty then jump .jump after
      if tryStart < tryStop then guardRange tryStart tryStop handler classes
      let ranges ← lowerCatches tryStart tryStop after rest
      pure ((handler, handlerStop) :: ranges)) := by
  cases c
  simp only [lowerCatches, catchHandler, Catch.filters, bind_assoc]

theorem dropLast_stops_cons (k : ClauseCode) (rest : List ClauseCode) :
    ((k :: rest).map (·.stop)).dropLast = (if rest.isEmpty then [] else [k.stop]) ++ (rest.map (·.stop)).dropLast := by
  cases rest <;> rfl

theorem clausesEnd_cons (first : Nat) (k : ClauseCode) (rest : List ClauseCode) :
    clausesEnd first (k :: rest) = clausesEnd k.stop rest := by
  rw [clausesEnd, clausesEnd, List.map_cons, List.getLastD_cons]

/-- Clauses laid out one after another, after `tryStop`, all end where the last of them ends. -/
theorem Chained.le_clausesEnd : ∀ {first tryStop : Nat} {clauses : List ClauseCode}, Chained first clauses →
    tryStop ≤ first → (∀ k ∈ clauses, k.handler ≤ k.stop) →
    tryStop ≤ clausesEnd tryStop clauses ∧ ∀ k ∈ clauses, k.stop ≤ clausesEnd tryStop clauses
  | _, _, [], _, _, _ => ⟨Nat.le_refl _, nofun⟩
  | _, _, k :: rest, ⟨start, chained⟩, before, ordered => by
    obtain ⟨last, later⟩ := Chained.le_clausesEnd chained (Nat.le_add_right k.stop _)
      fun k' mem => ordered k' (List.mem_cons_of_mem _ mem)
    have inside := ordered k List.mem_cons_self
    rw [clausesEnd_cons]
    refine ⟨by omega, fun k' mem => ?_⟩
    rcases List.mem_cons.mp mem with rfl | other
    · exact last
    · exact later k' other

/-- What the catch clauses of a guarded block leave, lowered from `s` to `s'` over the body's range
`[tryStart, tryStop)`, with `after` the label they jump to and `ops` the operands that waited for
it before them: each clause was lowered into its `ClauseCode` as `Catch.Lowered` says, one after
another from where the code ended; the rows added are the clauses' table; each clause but the
last ends with a jump to `after`; and the labels and slots around them are as they were. -/
structure Caught (env : FunctionEnv) (catches : List Catch) (tryStart tryStop after : Nat) (ops : List Nat)
    (clauses : List ClauseCode) (s s' : Lowering) : Prop where
  holds : s'.Holds 0
  spans : Spans [after] s s'
  slots : s'.locals.next = s.locals.next
  waits : s'.WaitsFor after (ops ++ ((clauses.map (·.stop)).dropLast.map (· + 1)))
  jumps : ∀ o ∈ (clauses.map (·.stop)).dropLast, ∃ i ∈ s'.code.instructions, i.offset = o ∧ i.opcode = .jump
  lowered : List.Forall₂ (Catch.Lowered env s'.pool.entries s.locals.next) catches clauses
  chained : Chained s.code.code.size clauses
  size : s'.code.code.size = clausesEnd s.code.code.size clauses
  table : s'.code.handlers.toList = s.code.handlers.toList ++ clauseTable tryStart tryStop clauses
  rowsOver : RowsOver tryStart tryStop s s'
  ranges : ∀ k ∈ clauses, s.code.code.size ≤ k.handler ∧ s'.code.Covers k.handler k.stop ∧ s'.Clear k.handler ∧
    s'.Clear k.stop
  ordered : clauses.Pairwise fun k k' => k.stop ≤ k'.handler

/-- The catch clauses of a guarded block whose body took `[tryStart, tryStop)`, lowered where the
code cannot fall through: each is a handler of the body's range for the classes it catches, and
each but the last jumps to `after`. They are laid out and add rows as `Caught` says, and answer
the ranges of their handlers' code. -/
theorem runs_lowerCatches (tryStart tryStop after : Nat) (catches : List Catch)
    (blocks : ∀ filters param body, Catch.mk filters param body ∈ catches → Leaves env (lowerBlock body) 0 0)
    (empty : s.Holds 0) (unreached : catches ≠ [] → s.code.depth = none) {ops : List Nat}
    (waits : s.WaitsFor after ops) (covers : tryStart < tryStop → s.code.Covers tryStart tryStop)
    (first : s.Clear tryStart) (second : s.Clear tryStop) (low : tryStart ≤ tryStop)
    (high : tryStop ≤ s.code.code.size) :
    Runs env s h (lowerCatches tryStart tryStop after catches) fun ranges s' _ =>
      ∃ clauses, ranges = clauses.map ClauseCode.range ∧ Caught env catches tryStart tryStop after ops clauses s s' := by
  induction catches generalizing s h ops with
  | nil =>
    refine runs_pure [] ⟨[], rfl, ?_⟩
    exact {
      holds := empty
      spans := .refl [after] s
      slots := rfl
      waits := by simpa using waits
      jumps := nofun
      lowered := .nil
      chained := trivial
      size := rfl
      table := by simp [clauseTable]
      rowsOver := .of_since (.refl s)
      ranges := nofun
      ordered := .nil }
  | cons c rest ih =>
    obtain ⟨filters, param, body⟩ := c
    rw [lowerCatches_cons]
    -- the clause's handler starts where the code before it cannot fall through
    apply Runs.bind (runs_catchFilters filters).ends
    rintro classes s₁ h₁ - grown₁ ⟨⟨still₁, same₁, named₁, caught₁, problems₁⟩, filtered⟩
    subst h₁
    apply Runs.bind runs_offset
    rintro _ t g - - ⟨rfl, -, same, same'⟩
    subst t g
    apply Runs.bind (runs_enterHandler (by rw [still₁.code]; exact unreached (List.cons_ne_nil _ _)))
    rintro _ s₂ h₂ sound₂ grown₂ ⟨contained₂, depth₂, -, size₂, rows₂⟩
    apply Runs.bind (runs_catchHandler filters param body (blocks filters param body (List.mem_cons_self ..))
      depth₂).ends
    rintro _ s₄ h₄ sound₄ grown₄ ⟨⟨holds₄, contained₄, grew₄⟩, ran₄⟩
    have at₄ : HandlerAt s₄ h₄ s₁.code.code.size := size₂ ▸ HandlerAt.of_entered sound₂ depth₂ grown₄ grew₄
    obtain ⟨inner, rows₄, emits₄⟩ := Emits.of_contained ran₄ contained₄ sound₄
    apply Runs.bind runs_offset
    rintro _ t g - - ⟨rfl, -, same, same'⟩
    subst t g
    have clause := contained₂.trans contained₄
    have sized₁ : s₁.code.code.size = s.code.code.size := by rw [still₁.code]
    apply Runs.bind_ite (runs_jumpIfFor _ (waits.keep ((still₁.contained []).trans clause).toSpans
      List.not_mem_nil) holds₄)
    rintro _ s₅ h₅ - grown₅ ⟨holds₅, contained₅, waits₅, jumped₅, size₅, jump₅, rows₅⟩
    have since₅ : RowsSince s s₅ := (((still₁.contained []).trans clause).trans contained₅).rows
    have grown₀₅ : Grows s h s₅ h₅ := grown₁.trans grown₂ |>.trans grown₄ |>.trans grown₅
    have below : tryStart ≤ s.code.code.size := Nat.le_trans low high
    apply Runs.bind_ite (runs_guardRangeIf classes (fun nonempty => grown₀₅.covers (covers nonempty))
      (first.keep since₅ below) (second.keep since₅ high) (at₄.grow grown₅)
      (named₁.mono (grown₂.trans grown₄ |>.trans grown₅).pool))
    rintro _ s₆ h₆ - grown₆ ⟨spans₆, locals₆, depth₆, size₆, same₆, handlers₆⟩
    subst h₆
    have over₆ : RowsOver tryStart tryStop s s₆ := (RowsOver.of_since since₅).append handlers₆ fun row mem => by
      obtain ⟨start, stop, handler⟩ := mem_guards mem
      exact ⟨start, stop, Nat.le_of_eq (by rw [handler, sized₁])⟩
    have guarded : ∀ {o : Nat}, s₅.Clear o → tryStop ≤ o → s₆.Clear o := fun clear after =>
      clear.append handlers₆ fun row mem => Or.inl (by rw [(mem_guards mem).2.1]; exact after)
    have size₀₆ : s.code.code.size ≤ s₆.code.code.size := by rw [size₆]; exact grown₀₅.size
    apply Runs.bind (ih (s := s₆) (h := h₅) (fun f p b mem => blocks f p b (List.mem_cons_of_mem _ mem))
      (by unfold Holds; rw [depth₆]; exact holds₅)
      (fun nonempty => by rw [depth₆]; exact jumped₅ (by cases rest <;> simp_all))
      (waits₅.keep spans₆ List.not_mem_nil) (fun nonempty => (grown₀₅.trans grown₆).covers (covers nonempty))
      (first.keep_over over₆ (Or.inl (Nat.le_refl _)) below) (second.keep_over over₆ (Or.inr (Nat.le_refl _)) high)
      (Nat.le_trans high size₀₆))
    rintro ranges s₇ h₇ - grown₇ ⟨clauses, rfl, caught⟩
    -- the clause's code lies after the body and before the later clauses; no row straddles its ends
    have handlerStart : s₁.code.code.size < s₄.code.code.size := by rw [← size₂]; exact grew₄
    have tryBefore : tryStop ≤ s₁.code.code.size := by rw [sized₁]; exact high
    have stop₆ : s₄.code.code.size ≤ s₆.code.code.size := by rw [size₆]; exact grown₅.size
    have clearStart : s₇.Clear s₁.code.code.size := by
      have entered := sound₂.clear.keep (contained₄.trans contained₅).rows (Nat.le_refl _)
      rw [size₂] at entered
      exact (guarded entered tryBefore).keep_over caught.rowsOver (Or.inr tryBefore)
        (Nat.le_trans (Nat.le_of_lt handlerStart) stop₆)
    have clearStop : s₇.Clear s₄.code.code.size :=
      (guarded (sound₄.clear.keep contained₅.rows (Nat.le_refl _))
        (Nat.le_trans tryBefore (Nat.le_of_lt handlerStart))).keep_over caught.rowsOver
        (Or.inr (Nat.le_trans tryBefore (Nat.le_of_lt handlerStart))) stop₆
    -- whether this clause jumps is whether later clauses follow
    have last : rest = [] ↔ clauses = [] := by
      cases caught.lowered <;> simp
    have next : s₆.locals.next = s.locals.next := by
      rw [locals₆, contained₅.slots, clause.slots, still₁.locals]
    let k : ClauseCode := ⟨s₁.code.code.size, s₄.code.code.size, classes, inner⟩
    refine runs_pure _ ⟨k :: clauses, rfl, ⟨caught.holds, ?_, ?_, ?_, ?_, ?_, ?_, ?_, ?_, ?_, ?_, ?_⟩⟩
    · exact ((((still₁.contained []).trans clause).trans contained₅).toSpans.trans spans₆ |>.trans caught.spans).widen
        (by simp)
    · rw [caught.slots, next]
    · have sites := caught.waits
      rw [dropLast_stops_cons, List.map_append, ← List.append_assoc]
      cases clauses with
      | nil => simpa [k, last] using sites
      | cons k' more => simpa [k, last] using sites
    · intro o mem
      rw [dropLast_stops_cons, List.mem_append] at mem
      rcases mem with here | later
      · cases clauses with
        | nil => simp at here
        | cons k' more =>
          obtain ⟨i, memI, at_, opcode⟩ := jump₅ (by simp [last])
          obtain ⟨j, memJ, offsetJ, opcodeJ⟩ := (grown₆.trans grown₇).persists i memI
          simp only [List.isEmpty_cons, Bool.false_eq_true, if_false, List.mem_singleton] at here
          exact ⟨j, memJ, by rw [offsetJ, at_, here], by rw [opcodeJ, opcode]⟩
      · exact caught.jumps o later
    · have lowered := caught.lowered
      rw [next] at lowered
      refine .cons ⟨caught₁.mono (grown₂.trans grown₄ |>.trans grown₅ |>.trans grown₆ |>.trans grown₇).pool,
        ⟨s, s₁, filtered, problems₁⟩, ?_⟩ lowered
      rw [contained₂.slots, still₁.locals, size₂] at emits₄
      exact emits₄
    · refine ⟨sized₁, ?_⟩
      have chained := caught.chained
      rw [size₆, size₅] at chained
      cases clauses with
      | nil => trivial
      | cons k' more => simpa [last] using chained
    · rw [clausesEnd_cons, caught.size, size₆, size₅]
      cases clauses with
      | nil => simp [clausesEnd, last, k]
      | cons k' more => simp [clausesEnd_cons]
    · rw [caught.table, handlers₆, rows₅, rows₄, rows₂, still₁.code]
      simp [clauseTable, k, sized₁]
    · exact over₆.trans caught.rowsOver size₀₆
    · intro k' mem
      rcases List.mem_cons.mp mem with rfl | later
      · refine ⟨Nat.le_of_eq sized₁.symm, ?_, clearStart, clearStop⟩
        have covered := covers_of_grows grown₄ (grown₅.trans grown₆ |>.trans grown₇) (by rw [size₂]; exact handlerStart)
        rw [size₂] at covered
        exact covered
      · obtain ⟨above, rest⟩ := caught.ranges k' later
        exact ⟨Nat.le_trans size₀₆ above, rest⟩
    · exact List.pairwise_cons.mpr ⟨fun k' mem => Nat.le_trans stop₆ (caught.ranges k' mem).1, caught.ordered⟩

/-- What the `finally` block of a guarded block leaves, lowered from `s`, where the body and the
clauses end, to `s'`. The label `normal` is placed at the end of `s`, in `u`, and the jumps at
`sites` that waited for it go there; the normal copy of the block runs from `u` to `u'`, adding
`finalRows`, and jumps to `exit`. Three bytes later the handler stores the exception into the first
free private slot and runs the second copy up to `reload` with that slot taken, adding
`cleanupRows`; then it loads the exception and throws it again. The catch-all rows over the body's
range and over every clause come last. -/
structure Finished (env : FunctionEnv) (fin : LowerM Unit) (normal exit tryStart tryStop : Nat)
    (ranges : List (Nat × Nat)) (sites : List Nat) (u u' : Lowering) (finalRows cleanupRows : List HandlerSite)
    (reload : Nat) (s s' : Lowering) : Prop where
  depth : s'.code.depth = none
  spans : Spans [normal, exit] s s'
  slots : s'.locals.next = s.locals.next
  placed : s'.code.labels[normal]? = some (.placed s.code.code.size)
  waits : s'.WaitsFor exit [u'.code.code.size + 1]
  exitJump : ∃ i ∈ s'.code.instructions, i.offset = u'.code.code.size ∧ i.opcode = .jump
  start : u.code.code.size = s.code.code.size
  next : u.locals.next = s.locals.next
  grown : u.code.code.size ≤ u'.code.code.size
  joined : u.code.handlers = s.code.handlers
  retargeted : ∀ o ∈ sites, (⟨o, .jump, [s.code.code.size]⟩ : Instruction) ∈ u.code.instructions
  normalRun : runStep (fin.run env) u = (.ok (), u')
  normalRows : u'.code.handlers.toList = u.code.handlers.toList ++ finalRows
  normalInside : RowsIn u.code.code.size u'.code.code.size finalRows
  store : (⟨u'.code.code.size + 3, .storeA, [s.locals.next]⟩ : Instruction) ∈ s'.code.instructions
  cleanup : Emits env fin (s.locals.next + 1) (u'.code.code.size + 5) reload cleanupRows
  load : (⟨reload, .loadA, [s.locals.next]⟩ : Instruction) ∈ s'.code.instructions
  rethrow : (⟨reload + 2, .throw, []⟩ : Instruction) ∈ s'.code.instructions
  size : s'.code.code.size = reload + 3
  table : s'.code.handlers.toList = s.code.handlers.toList ++ finalRows ++ cleanupRows ++
    (if tryStart < tryStop then [⟨tryStart, tryStop, u'.code.code.size + 3, none⟩] else []) ++
    ranges.map fun r => ⟨r.1, r.2, u'.code.code.size + 3, none⟩
  rows : RowsFrom tryStart s s'

/-- The `finally` block of a guarded block, lowered after its clauses: on the normal path, from the
label `normal` where the body and the clauses end up, and then as a handler that keeps the
exception in a fresh slot and throws it again. Its catch-all rows cover the body's range, after
the clauses' rows, and the code of every clause. It is laid out as `Finished` says. -/
theorem runs_finally {β : Type} {fin : LowerM Unit} {k : LowerM β} {post : β → Lowering → (Nat → Nat) → Prop}
    (finals : Leaves env fin 0 0) {normal exit tryStart tryStop : Nat} {ranges : List (Nat × Nat)}
    {sites : List Nat} (empty : s.Holds 0) (waitsNormal : s.WaitsFor normal (sites.map (· + 1)))
    (waitsExit : s.WaitsFor exit [])
    (jumps : ∀ o ∈ sites, ∃ i ∈ s.code.instructions, i.offset = o ∧ i.opcode = .jump)
    (apart : exit ≠ normal) (covers : tryStart < tryStop → s.code.Covers tryStart tryStop)
    (first : s.Clear tryStart) (second : s.Clear tryStop) (low : tryStart ≤ tryStop)
    (high : tryStop ≤ s.code.code.size)
    (clauses : ∀ r ∈ ranges, tryStop ≤ r.1 ∧ s.code.Covers r.1 r.2 ∧ s.Clear r.1 ∧ s.Clear r.2)
    (ordered : ranges.Pairwise fun r r' => r.2 ≤ r'.1)
    (rest : ∀ s' h' u u' finalRows cleanupRows reload, Sound env.isInitializer s' h' → Grows s h s' h' →
      Finished env fin normal exit tryStart tryStop ranges sites u u' finalRows cleanupRows reload s s' →
      Runs env s' h' k post) :
    Runs env s h (do
      place normal
      fin
      jump .jump exit
      let handler ← offset
      enterHandler
      let exception ← takeSlot
      op .storeA [exception]
      fin
      op .loadA [exception]
      op .throw []
      releaseSlot
      if tryStart < tryStop then do
        addHandler tryStart tryStop handler none
        guardAll handler ranges
        k
      else do
        guardAll handler ranges
        k) post := by
  apply Runs.bind (runs_placeWaitsFor waitsNormal empty)
  rintro _ s₁ h₁ sound₁ grown₁ ⟨holds₁, contained₁, placed₁, size₁, patched₁, rows₁⟩
  apply Runs.bind (finals s₁ h₁ holds₁).ends
  rintro _ s₂ h₂ sound₂ grown₂ ⟨⟨holds₂, contained₂⟩, ran₂⟩
  obtain ⟨finalRows, rows₂, inside₂⟩ := contained₂.rows.within sound₂
  have exitOther : exit ∉ [normal] ++ [] := by simpa using apart
  apply Runs.bind (runs_jumpWaitsFor (waitsExit.keep (contained₁.trans contained₂).toSpans exitOther) holds₂)
  rintro _ s₃ h₃ sound₃ grown₃ ⟨contained₃, waits₃, depth₃, jumped₃, size₃, rows₃⟩
  apply Runs.bind runs_offset
  rintro _ t g - - ⟨rfl, -, same, same'⟩
  subst t g
  apply Runs.bind (runs_enterHandler depth₃)
  rintro _ s₄ h₄ - grown₄ ⟨contained₄, depth₄, -, size₄, rows₄⟩
  apply Runs.bind runs_takeSlot
  rintro _ s₅ h₅ sound₅ grown₅ ⟨rfl, -, slots₅, code₅, loops₅, same₅⟩
  subst h₅
  have entered : s₅.code.depth = some 1 := by rw [code₅]; exact depth₄
  apply Runs.bind (runs_storeAAt _ (k := 0) (Or.inl entered))
  rintro _ s₆ h₆ sound₆ grown₆ ⟨contained₆, stored₆, size₆, depth₆, rows₆⟩
  have at₆ : HandlerAt s₆ h₆ s₃.code.code.size := by
    rw [← size₄, ← code₅]
    exact HandlerAt.of_store sound₅ sound₆ grown₆ entered rfl stored₆
  apply Runs.bind (finals s₆ h₆ (Or.inl depth₆)).ends
  rintro _ s₇ h₇ sound₇ grown₇ ⟨⟨holds₇, contained₇⟩, ran₇⟩
  obtain ⟨cleanupRows, rows₇, emits₇⟩ := Emits.of_contained ran₇ contained₇ sound₇
  apply Runs.bind (runs_loadAAt _ holds₇)
  rintro _ s₈ h₈ sound₈ grown₈ ⟨contained₈, loaded₈, size₈, depth₈, rows₈⟩
  apply Runs.bind (runs_throwAt (k := 0) (Or.inl depth₈))
  rintro _ s₉ h₉ sound₉ grown₉ ⟨contained₉, thrown₉, size₉, depth₉, rows₉⟩
  have handled := contained₆.trans contained₇ |>.trans contained₈ |>.trans contained₉
  apply Runs.bind (runs_releaseSlot (by rw [handled.slots, slots₅]; exact Nat.succ_ne_zero _))
  rintro _ s₁₀ h₁₀ - grown₁₀ ⟨slots₁₀, code₁₀, loops₁₀, same₁₀⟩
  subst h₁₀
  have normalPath := contained₁.trans contained₂ |>.trans contained₃ |>.trans contained₄
  have since₁₀ : RowsSince s s₁₀ :=
    (normalPath.rows.trans ((RowsSince.of_code code₅).trans handled.rows (Nat.le_of_eq (by rw [code₅])))
      normalPath.grown).trans (.of_code code₁₀) (Nat.le_trans normalPath.grown (by rw [← code₅]; exact handled.grown))
  have grown₀₁₀ : Grows s h s₁₀ h₉ := grown₁.trans grown₂ |>.trans grown₃ |>.trans grown₄ |>.trans grown₅
    |>.trans grown₆ |>.trans grown₇ |>.trans grown₈ |>.trans grown₉ |>.trans grown₁₀
  have below : tryStart ≤ s.code.code.size := Nat.le_trans low high
  have later : Grows s₆ h₆ s₁₀ h₉ := grown₇.trans grown₈ |>.trans grown₉ |>.trans grown₁₀
  apply Runs.bind_ite (runs_addHandlerIf none (fun nonempty => grown₀₁₀.covers (covers nonempty))
    (first.keep since₁₀ below) (second.keep since₁₀ high) (at₆.grow later) nofun)
  rintro _ s₁₁ h₁₁ - grown₁₁ ⟨spans₁₁, locals₁₁, depth₁₁, size₁₁, same₁₁, handlers₁₁⟩
  subst h₁₁
  have clauses₁₁ : ∀ r ∈ ranges, s₁₁.Clear r.1 ∧ s₁₁.Clear r.2 := by
    intro r mem
    obtain ⟨after, covered, clear₁, clear₂⟩ := clauses r mem
    exact ⟨(clear₁.keep since₁₀ (Nat.le_trans (Nat.le_of_lt covered.1) covered.2.1)).append_before handlers₁₁ after,
      (clear₂.keep since₁₀ covered.2.1).append_before handlers₁₁ (Nat.le_trans after (Nat.le_of_lt covered.1))⟩
  apply Runs.bind (runs_guardAll ranges (fun r mem => (grown₀₁₀.trans grown₁₁).covers (clauses r mem).2.1)
    clauses₁₁ (ordered.imp Or.inl) (at₆.grow (later.trans grown₁₁)))
  rintro _ s' h' sound' grown' ⟨spans', locals', depth', size', -, handlers'⟩
  have handlerOn : Grows s₆ h₆ s' h' := later.trans grown₁₁ |>.trans grown'
  have size₀₃ : s.code.code.size ≤ s₃.code.code.size := (grown₁.trans grown₂ |>.trans grown₃).size
  have size₅ : s₅.code.code.size = s₂.code.code.size + 3 := by rw [code₅, size₄, size₃]
  have next₆ : s₆.locals.next = s.locals.next + 1 := by rw [contained₆.slots, slots₅, normalPath.slots]
  refine rest s' h' s₁ s₂ finalRows cleanupRows s₇.code.code.size sound' (grown₀₁₀.trans grown₁₁ |>.trans grown')
    ⟨by rw [depth', depth₁₁, code₁₀, depth₉], ?_, ?_, ?_, ?_, ?_, size₁, contained₁.slots, contained₂.grown, rows₁, ?_, ran₂,
      rows₂, inside₂, ?_, ?_, ?_, ?_, ?_, ?_, ?_⟩
  · have whole := normalPath.toSpans.trans (Spans.of_kept (by rw [code₅]) loops₅ : Spans [] s₄ s₅) |>.trans
      handled.toSpans |>.trans (Spans.of_kept (by rw [code₁₀]) loops₁₀ : Spans [] s₉ s₁₀) |>.trans spans₁₁
      |>.trans spans'
    exact whole.widen (by simp)
  · rw [locals', locals₁₁, slots₁₀, handled.slots, slots₅, Nat.add_sub_cancel, normalPath.slots]
  · refine spans'.keeps (spans₁₁.keeps ?_ List.not_mem_nil) List.not_mem_nil
    rw [code₁₀]
    refine handled.keeps ?_ List.not_mem_nil
    rw [code₅]
    exact (contained₂.trans contained₃ |>.trans contained₄).keeps placed₁ (by simpa [eq_comm] using apart)
  · have waits := waits₃.keep (contained₄.toSpans.trans (Spans.of_kept (by rw [code₅]) loops₅ : Spans [] s₄ s₅)
      |>.trans handled.toSpans |>.trans (Spans.of_kept (by rw [code₁₀]) loops₁₀ : Spans [] s₉ s₁₀)
      |>.trans spans₁₁ |>.trans spans') List.not_mem_nil
    simpa using waits
  · obtain ⟨j, mem, offset, opcode⟩ := (grown₄.trans grown₅ |>.trans grown₆ |>.trans handlerOn).persists _
      (mem_of_appended jumped₃)
    exact ⟨j, mem, offset, opcode⟩
  · intro o mem
    rw [patched₁]
    exact mem_patch_of_waits (jumps o mem) (List.mem_map_of_mem mem)
  · have kept := handlerOn.keeps sound₆ (mem_of_appended stored₆) rfl
    rwa [size₅, normalPath.slots] at kept
  · rw [next₆, size₆, size₅] at emits₇
    exact emits₇
  · have kept := (grown₉.trans grown₁₀ |>.trans grown₁₁ |>.trans grown').keeps sound₈ (mem_of_appended loaded₈) rfl
    rwa [normalPath.slots] at kept
  · have kept := (grown₁₀.trans grown₁₁ |>.trans grown').keeps sound₉ (mem_of_appended thrown₉) rfl
    rwa [size₈] at kept
  · rw [size', size₁₁, code₁₀, size₉, size₈]
  · rw [handlers', handlers₁₁, code₁₀, rows₉, rows₈, rows₇, rows₆, code₅, rows₄, rows₃, rows₂, rows₁, size₃]
  · have guards : s'.code.handlers.toList = s₁₁.code.handlers.toList ++
        ranges.map fun r => ⟨r.1, r.2, s₃.code.code.size, none⟩ := handlers'
    exact ((since₁₀.mono below).append handlers₁₁ (by split <;> simp [size₀₃])).append guards
      (fun row mem => by
        obtain ⟨r, inRanges, rfl⟩ := List.mem_map.mp mem
        exact ⟨Nat.le_trans low (clauses r inRanges).1, size₀₃⟩)

/-- What the body of a guarded block and its clauses leave, lowered from `s` to `s'` with `after`
the label their jumps wait for: the body emitted the code from the end of `s` to `tryStop`, adding
`bodyRows`; the clauses were laid out after it, past the jump that ends the body if there are any,
as `Caught` says; and the labels and slots around them are as they were. -/
structure Tried (env : FunctionEnv) (body : LowerM Unit) (catches : List Catch) (after tryStop : Nat)
    (bodyRows : List HandlerSite) (clauses : List ClauseCode) (s s' : Lowering) : Prop where
  holds : s'.Holds 0
  spans : Spans [after] s s'
  slots : s'.locals.next = s.locals.next
  body : Emits env body s.locals.next s.code.code.size tryStop bodyRows
  waits : s'.WaitsFor after ((jumpSites tryStop clauses).map (· + 1))
  jumps : ∀ o ∈ jumpSites tryStop clauses, ∃ i ∈ s'.code.instructions, i.offset = o ∧ i.opcode = .jump
  lowered : List.Forall₂ (Catch.Lowered env s'.pool.entries s.locals.next) catches clauses
  chained : Chained (tryStop + 3) clauses
  size : s'.code.code.size = clausesEnd tryStop clauses
  table : s'.code.handlers.toList = s.code.handlers.toList ++ bodyRows ++
    clauseTable s.code.code.size tryStop clauses
  rows : RowsSince s s'
  covers : s.code.code.size < tryStop → s'.code.Covers s.code.code.size tryStop
  first : s'.Clear s.code.code.size
  second : s'.Clear tryStop
  low : s.code.code.size ≤ tryStop
  high : tryStop ≤ s'.code.code.size
  ranges : ∀ k ∈ clauses, tryStop ≤ k.handler ∧ s'.code.Covers k.handler k.stop ∧ s'.Clear k.handler ∧
    s'.Clear k.stop
  ordered : clauses.Pairwise fun k k' => k.stop ≤ k'.handler

/-- The body of a guarded block and its clauses, lowered where the stack is empty; the body, if
clauses follow it, and every clause but the last jump to `after`. They are laid out as `Tried`
says. -/
theorem runs_tryBody {β : Type} {body : LowerM Unit} {catches : List Catch} {after : Nat}
    {k : Nat → Nat → List (Nat × Nat) → LowerM β} {post : β → Lowering → (Nat → Nat) → Prop}
    (bodies : Leaves env body 0 0)
    (blocks : ∀ filters param b, Catch.mk filters param b ∈ catches → Leaves env (lowerBlock b) 0 0)
    (empty : s.Holds 0) (waits : s.WaitsFor after [])
    (rest : ∀ tryStop bodyRows clauses s' h', Sound env.isInitializer s' h' → Grows s h s' h' →
      Tried env body catches after tryStop bodyRows clauses s s' →
      Runs env s' h' (k s.code.code.size tryStop (clauses.map ClauseCode.range)) post) :
    Runs env s h (do
      let tryStart ← offset
      body
      let tryStop ← offset
      if !catches.isEmpty then jump .jump after
      let ranges ← lowerCatches tryStart tryStop after catches
      k tryStart tryStop ranges) post := by
  apply Runs.bind runs_offset
  rintro _ t g sound - ⟨rfl, -, same, same'⟩
  subst t g
  apply Runs.bind (bodies s h empty).ends
  rintro _ s₁ h₁ sound₁ grown₁ ⟨⟨holds₁, contained₁⟩, ran₁⟩
  obtain ⟨bodyRows, rows₁, body₁⟩ := Emits.of_contained ran₁ contained₁ sound₁
  apply Runs.bind runs_offset
  rintro _ t g - - ⟨rfl, -, same, same'⟩
  subst t g
  apply Runs.bind_ite (runs_jumpIfFor _ (waits.keep contained₁.toSpans List.not_mem_nil) holds₁)
  rintro _ s₂ h₂ - grown₂ ⟨holds₂, contained₂, waits₂, jumped₂, size₂, jump₂, rows₂⟩
  have sofar := contained₁.trans contained₂
  apply Runs.bind (runs_lowerCatches _ _ after catches blocks holds₂
    (fun nonempty => jumped₂ (by cases catches <;> simp_all)) waits₂
    (fun nonempty => covers_of_grows grown₁ grown₂ nonempty) (sound.clear.keep sofar.rows (Nat.le_refl _))
    (sound₁.clear.keep contained₂.rows (Nat.le_refl _)) contained₁.grown contained₂.grown)
  rintro _ s₃ h₃ sound₃ grown₃ ⟨clauses, rfl, caught⟩
  have jumps : (!catches.isEmpty) = true ↔ clauses ≠ [] := by
    have same := caught.lowered.length_eq
    cases catches <;> cases clauses <;> simp_all
  simp only [jumps] at size₂ jump₂ caught
  refine rest s₁.code.code.size bodyRows clauses s₃ h₃ sound₃ (grown₁.trans grown₂ |>.trans grown₃)
    ⟨caught.holds, (sofar.toSpans.trans caught.spans).widen (by simp), by rw [caught.slots, sofar.slots], body₁,
      ?_, ?_, ?_, ?_, ?_, by rw [caught.table, rows₂, rows₁],
      RowsFrom.trans sofar.rows (caught.rowsOver.rowsFrom sofar.grown) (Nat.le_refl _) sofar.grown,
      fun nonempty => covers_of_grows grown₁ (grown₂.trans grown₃) nonempty,
      (sound.clear.keep sofar.rows (Nat.le_refl _)).keep_over caught.rowsOver (Or.inl (Nat.le_refl _)) sofar.grown,
      (sound₁.clear.keep contained₂.rows (Nat.le_refl _)).keep_over caught.rowsOver (Or.inr (Nat.le_refl _))
        contained₂.grown,
      contained₁.grown, Nat.le_trans contained₂.grown grown₃.size,
      fun k mem => ⟨Nat.le_trans contained₂.grown (caught.ranges k mem).1, (caught.ranges k mem).2⟩,
      caught.ordered⟩
  · have sites := caught.waits
    cases clauses with
    | nil => simpa [jumpSites] using sites
    | cons k more => simpa [jumpSites] using sites
  · intro o mem
    cases clauses with
    | nil => simp [jumpSites] at mem
    | cons k more =>
      simp only [jumpSites, List.map_cons, List.dropLast_cons_cons, List.mem_cons] at mem
      rcases mem with rfl | later
      · obtain ⟨i, memI, at_, opcode⟩ := jump₂ (List.cons_ne_nil _ _)
        obtain ⟨j, memJ, offsetJ, opcodeJ⟩ := grown₃.persists i memI
        exact ⟨j, memJ, by rw [offsetJ, at_], by rw [opcodeJ, opcode]⟩
      · exact caught.jumps o later
  · have lowered := caught.lowered
    rw [sofar.slots] at lowered
    exact lowered
  · have chained := caught.chained
    cases clauses with
    | nil => trivial
    | cons k more =>
      rw [size₂, if_pos (List.cons_ne_nil _ _)] at chained
      exact chained
  · rw [caught.size]
    cases clauses with
    | nil => simp [clausesEnd, size₂]
    | cons k more => rw [clausesEnd_cons, clausesEnd_cons]

/-- A guarded block laid out from `s`, with `entries` the pool's entries once it is lowered: its
body emitted the code from the end of `s` to `tryStop`, adding `bodyRows`, and its clauses were
lowered as `Catch.Lowered` says, one after another past the jump that ends the body. -/
structure TryLayout (env : FunctionEnv) (body : LowerM Unit) (catches : List Catch) (entries : Array Constant)
    (s : Lowering) (tryStop : Nat) (bodyRows : List HandlerSite) (clauses : List ClauseCode) : Prop where
  body : Emits env body s.locals.next s.code.code.size tryStop bodyRows
  lowered : List.Forall₂ (Catch.Lowered env entries s.locals.next) catches clauses
  chained : Chained (tryStop + 3) clauses

/-- The two copies of a `finally` block laid out from `u`, where the body and the clauses join, to
`s'`, with `slot` the first free private slot. The normal copy runs from `u` to `u'`, adding
`finalRows` over its own code, and jumps past the handler to the end. Three bytes later the
handler stores the exception into `slot`, runs the second copy up to `reload` with the slot taken,
adding `cleanupRows`, then loads the exception and throws it again, which ends the block. -/
structure FinallyLayout (env : FunctionEnv) (fin : LowerM Unit) (slot : Nat) (u u' : Lowering)
    (finalRows cleanupRows : List HandlerSite) (reload : Nat) (s' : Lowering) : Prop where
  normal : runStep (fin.run env) u = (.ok (), u')
  next : u.locals.next = slot
  grown : u.code.code.size ≤ u'.code.code.size
  rows : u'.code.handlers.toList = u.code.handlers.toList ++ finalRows
  inside : RowsIn u.code.code.size u'.code.code.size finalRows
  exit : (⟨u'.code.code.size, .jump, [s'.code.code.size]⟩ : Instruction) ∈ s'.code.instructions
  store : (⟨u'.code.code.size + 3, .storeA, [slot]⟩ : Instruction) ∈ s'.code.instructions
  cleanup : Emits env fin (slot + 1) (u'.code.code.size + 5) reload cleanupRows
  load : (⟨reload, .loadA, [slot]⟩ : Instruction) ∈ s'.code.instructions
  rethrow : (⟨reload + 2, .throw, []⟩ : Instruction) ∈ s'.code.instructions
  size : s'.code.code.size = reload + 3

theorem Catch.Lowered.mono {entries entries' : Array Constant} {next : Nat} {c : Catch} {k : ClauseCode}
    (lowered : Catch.Lowered env entries next c k) (grown : entries.toList <+: entries'.toList) :
    Catch.Lowered env entries' next c k :=
  ⟨lowered.1.mono grown, lowered.2⟩

theorem Catch.Lowered.le {entries : Array Constant} {next : Nat} {c : Catch} {k : ClauseCode}
    (lowered : Catch.Lowered env entries next c k) : k.handler ≤ k.stop := by
  obtain ⟨-, -, t, t', -, -, -, -, le, -⟩ := lowered
  exact le

/-- The code of each clause's handler runs forward. -/
theorem handler_le_stop_of_lowered {entries : Array Constant} {next : Nat} :
    ∀ {catches : List Catch} {clauses : List ClauseCode},
      List.Forall₂ (Catch.Lowered env entries next) catches clauses → ∀ k ∈ clauses, k.handler ≤ k.stop
  | _, _, .nil => nofun
  | _, _, .cons lowered rest => fun k mem => by
    rcases List.mem_cons.mp mem with rfl | later
    · exact lowered.le
    · exact handler_le_stop_of_lowered rest k later

/-- The body and the clauses of a guarded block end where the last of them ends. -/
theorem TryLayout.le_clausesEnd {body : LowerM Unit} {catches : List Catch} {entries : Array Constant}
    {tryStop : Nat} {bodyRows : List HandlerSite} {clauses : List ClauseCode}
    (layout : TryLayout env body catches entries s tryStop bodyRows clauses) :
    tryStop ≤ clausesEnd tryStop clauses ∧ ∀ k ∈ clauses, k.stop ≤ clausesEnd tryStop clauses :=
  layout.chained.le_clausesEnd (Nat.le_add_right _ _) (handler_le_stop_of_lowered layout.lowered)

theorem TryLayout.mono {body : LowerM Unit} {catches : List Catch} {entries entries' : Array Constant}
    {tryStop : Nat} {bodyRows : List HandlerSite} {clauses : List ClauseCode}
    (layout : TryLayout env body catches entries s tryStop bodyRows clauses)
    (grown : entries.toList <+: entries'.toList) : TryLayout env body catches entries' s tryStop bodyRows clauses :=
  ⟨layout.body, layout.lowered.imp fun _ _ lowered => lowered.mono grown, layout.chained⟩

/-- A guarded block without a `finally` block, lowered from `s` to `s'`: the body and the clauses
are laid out as `TryLayout` says and end the block, where the body, if clauses follow it, and
every clause but the last jump. The rows it adds are the body's, then the clauses'
(`clauseTable`). -/
def CatchesLaid (env : FunctionEnv) (body : LowerM Unit) (catches : List Catch) (s s' : Lowering) : Prop :=
  ∃ tryStop bodyRows clauses, TryLayout env body catches s'.pool.entries s tryStop bodyRows clauses ∧
    s'.code.code.size = clausesEnd tryStop clauses ∧
    (∀ o ∈ jumpSites tryStop clauses, (⟨o, .jump, [s'.code.code.size]⟩ : Instruction) ∈ s'.code.instructions) ∧
    s'.code.handlers.toList = s.code.handlers.toList ++ bodyRows ++ clauseTable s.code.code.size tryStop clauses

/-- A guarded block with the `finally` block `fin`, lowered from `s` to `s'`: the body and the
clauses are laid out as `TryLayout` says and join in `u`, where the last of them ends and where
the body, if clauses follow it, and every clause but the last jump. Both copies of the `finally`
block come after them all, laid out as `FinallyLayout` says with the first free private slot of
`s`. The rows it adds are the body's, the clauses' (`clauseTable`), those of the two copies, then
the handler's catch-all rows over the body's range, unless it is empty, and over the code of every
clause. -/
def FinallyLaid (env : FunctionEnv) (body fin : LowerM Unit) (catches : List Catch) (s s' : Lowering) : Prop :=
  ∃ tryStop bodyRows clauses u u' finalRows cleanupRows reload,
    TryLayout env body catches s'.pool.entries s tryStop bodyRows clauses ∧
    u.code.code.size = clausesEnd tryStop clauses ∧
    (tryStop ≤ u.code.code.size ∧ ∀ k ∈ clauses, k.stop ≤ u.code.code.size) ∧
    (∀ o ∈ jumpSites tryStop clauses, (⟨o, .jump, [u.code.code.size]⟩ : Instruction) ∈ u.code.instructions) ∧
    FinallyLayout env fin s.locals.next u u' finalRows cleanupRows reload s' ∧
    s'.code.handlers.toList = s.code.handlers.toList ++ bodyRows ++
      clauseTable s.code.code.size tryStop clauses ++ finalRows ++ cleanupRows ++
      (if s.code.code.size < tryStop then [⟨s.code.code.size, tryStop, u'.code.code.size + 3, none⟩] else []) ++
      clauses.map fun k => ⟨k.handler, k.stop, u'.code.code.size + 3, none⟩

/-- A guarded block without a `finally` block, lowered where the stack is empty, leaves it empty
and is laid out as `CatchesLaid` says. -/
theorem runs_tryCatch {body : LowerM Unit} {catches : List Catch} (bodies : Leaves env body 0 0)
    (blocks : ∀ filters param b, Catch.mk filters param b ∈ catches → Leaves env (lowerBlock b) 0 0)
    (empty : s.Holds 0) :
    Runs env s h (lowerTry body (fun tryStart tryStop after => lowerCatches tryStart tryStop after catches)
      (!catches.isEmpty) none) fun _ s' _ => s'.Holds 0 ∧ Contained [] s s' ∧ CatchesLaid env body catches s s' := by
  unfold lowerTry
  apply Runs.bind (runs_freshLabel.keepsRows keepsRows_freshLabel)
  rintro exit s₁ h₁ - grown₁ ⟨⟨rfl, fresh₁, contained₁, depth₁, size₁, -⟩, rows₁⟩
  have empty₁ : s₁.Holds 0 := by unfold Holds; rw [depth₁]; exact empty
  simp only [pure_bind, Option.getD_none]
  apply runs_tryBody bodies blocks empty₁ (.fresh fresh₁)
  rintro tryStop bodyRows clauses s₂ h₂ - grown₂ tried
  apply (runs_placeWaitsFor tried.waits tried.holds).mono
  rintro _ s₃ h₃ - grown₃ ⟨holds₃, contained₃, placed₃, size₃, patched₃, rows₃⟩
  have whole := contained₁.toSpans.trans tried.spans |>.trans contained₃.toSpans
  have emits := tried.body
  have lowered := tried.lowered
  rw [contained₁.slots, size₁] at emits
  rw [contained₁.slots] at lowered
  refine ⟨holds₃, { whole.close (fun l mine => ?_) (fun l mine => ?_) with
    slots := by rw [contained₃.slots, tried.slots, contained₁.slots]
    grown := (grown₁.trans grown₂ |>.trans grown₃).size
    rows := (contained₁.rows.trans tried.rows contained₁.grown).trans contained₃.rows
      (grown₁.trans grown₂).size }, tryStop, bodyRows, clauses,
    ⟨emits, lowered.imp fun _ _ clause => clause.mono grown₃.pool, tried.chained⟩,
    by rw [size₃, tried.size], fun o mem => ?_, by rw [rows₃, tried.table, rows₁, size₁]⟩
  · obtain rfl : l = s.code.labels.size := by simpa using mine
    exact Nat.le_refl _
  · obtain rfl : l = s.code.labels.size := by simpa using mine
    exact ⟨_, placed₃⟩
  · rw [patched₃, size₃]
    exact mem_patch_of_waits (tried.jumps o mem) (List.mem_map_of_mem mem)

/-- A guarded block with a `finally` block, lowered where the stack is empty, leaves it empty and
is laid out as `FinallyLaid` says. -/
theorem runs_tryFinally {body fin : LowerM Unit} {catches : List Catch} (bodies : Leaves env body 0 0)
    (blocks : ∀ filters param b, Catch.mk filters param b ∈ catches → Leaves env (lowerBlock b) 0 0)
    (finals : Leaves env fin 0 0) (empty : s.Holds 0) :
    Runs env s h (lowerTry body (fun tryStart tryStop after => lowerCatches tryStart tryStop after catches)
      (!catches.isEmpty) (some fin)) fun _ s' _ =>
      s'.Holds 0 ∧ Contained [] s s' ∧ FinallyLaid env body fin catches s s' := by
  unfold lowerTry
  apply Runs.bind (runs_freshLabel.keepsRows keepsRows_freshLabel)
  rintro exit s₁ h₁ - grown₁ ⟨⟨rfl, fresh₁, contained₁, depth₁, size₁, -⟩, rows₁⟩
  have empty₁ : s₁.Holds 0 := by unfold Holds; rw [depth₁]; exact empty
  have named : Runs env s₁ h₁ (some <$> freshLabel) fun n s' h' => ∃ l, n = some l ∧ l = s₁.code.labels.size ∧
      s'.code.labels[l]? = some (.unplaced #[] none) ∧ Contained [l] s₁ s' ∧ s'.code.depth = s₁.code.depth ∧
      s'.code.code.size = s₁.code.code.size ∧ s'.code.handlers = s₁.code.handlers :=
    Runs.map ((runs_freshLabel.keepsRows keepsRows_freshLabel).mono
      fun l _ _ _ _ ⟨⟨named, fresh, contained, depth, size, _⟩, rows⟩ =>
        ⟨l, rfl, named, fresh, contained, depth, size, rows⟩)
  apply Runs.bind named
  rintro _ s₂ h₂ - grown₂ ⟨normal, rfl, rfl, fresh₂, contained₂, depth₂, size₂, rows₂⟩
  simp only [Option.getD_some]
  apply runs_tryBody bodies blocks (by unfold Holds; rw [depth₂]; exact empty₁) (.fresh fresh₂)
  rintro tryStop bodyRows clauses s₃ h₃ sound₃ grown₃ tried
  have apart : s.code.labels.size ≠ s₁.code.labels.size :=
    Nat.ne_of_lt (Array.getElem?_eq_some_iff.mp fresh₁).1
  have waitsExit : s₃.WaitsFor s.code.labels.size [] :=
    (WaitsFor.fresh fresh₁).keep (contained₂.toSpans.trans tried.spans) (by simpa using apart)
  have start : s₂.code.code.size = s.code.code.size := by rw [size₂, size₁]
  apply runs_finally finals tried.holds tried.waits waitsExit tried.jumps apart tried.covers tried.first
    tried.second tried.low tried.high (fun r mem => by
      obtain ⟨k, inClauses, rfl⟩ := List.mem_map.mp mem
      exact tried.ranges k inClauses)
    (List.pairwise_map.mpr tried.ordered)
  rintro s₄ h₄ u u' finalRows cleanupRows reload sound₄ grown₄ finished
  apply (runs_placeWaitsFor finished.waits (Or.inr ⟨finished.depth, rfl⟩)).mono
  rintro _ s₅ h₅ - grown₅ ⟨holds₅, contained₅, placed₅, size₅, patched₅, rows₅⟩
  have whole : Spans [s.code.labels.size, s₁.code.labels.size] s s₅ :=
    (contained₁.toSpans.trans contained₂.toSpans |>.trans tried.spans |>.trans finished.spans
      |>.trans contained₅.toSpans).widen fun l mem => by simp at mem ⊢; omega
  have rows₃ : RowsSince s s₃ := (contained₁.rows.trans contained₂.rows contained₁.grown).trans tried.rows
    (contained₁.trans contained₂).grown
  have size₃ : s.code.code.size ≤ s₃.code.code.size := (grown₁.trans grown₂ |>.trans grown₃).size
  have next : s₂.locals.next = s.locals.next := by rw [contained₂.slots, contained₁.slots]
  have emits := tried.body
  have lowered := tried.lowered
  rw [next, start] at emits
  rw [next] at lowered
  have layout : TryLayout env body catches s₅.pool.entries s tryStop bodyRows clauses :=
    ⟨emits, lowered.imp fun _ _ clause => clause.mono (grown₄.trans grown₅).pool, tried.chained⟩
  have kept : ∀ {i : Instruction}, i ∈ s₄.code.instructions → i.opcode.isJump = false → i ∈ s₅.code.instructions :=
    fun mem plain => grown₅.keeps sound₄ mem plain
  refine ⟨holds₅, { whole.close (fun l mine => ?_) (fun l mine => ?_) with
    slots := by rw [contained₅.slots, finished.slots, tried.slots, contained₂.slots, contained₁.slots]
    grown := (grown₁.trans grown₂ |>.trans grown₃ |>.trans grown₄ |>.trans grown₅).size
    rows := (RowsFrom.trans rows₃ (finished.rows.mono (Nat.le_of_eq start.symm)) (Nat.le_refl _) size₃).trans
      contained₅.rows (Nat.le_trans size₃ grown₄.size) (Nat.le_trans size₃ grown₄.size) },
    tryStop, bodyRows, clauses, u, u', finalRows, cleanupRows, reload,
    layout, by rw [finished.start, tried.size], by rw [finished.start, tried.size]; exact layout.le_clausesEnd, ?_,
    ⟨finished.normalRun, by rw [finished.next, tried.slots, next], finished.grown, finished.normalRows, finished.normalInside, ?_, ?_, ?_, ?_, ?_, by rw [size₅, finished.size]⟩, ?_⟩
  · obtain rfl | rfl : l = s.code.labels.size ∨ l = s₁.code.labels.size := by simpa using mine
    · exact Nat.le_refl _
    · exact contained₁.size
  · obtain rfl | rfl : l = s.code.labels.size ∨ l = s₁.code.labels.size := by simpa using mine
    · exact ⟨_, placed₅⟩
    · exact ⟨_, contained₅.keeps finished.placed (by simpa [eq_comm] using apart)⟩
  · intro o mem
    rw [finished.start]
    exact finished.retargeted o mem
  · rw [patched₅, size₅]
    exact mem_patch_of_waits finished.exitJump (List.mem_singleton_self _)
  · rw [← next, ← tried.slots]
    exact kept finished.store rfl
  · rw [← next, ← tried.slots]
    exact finished.cleanup
  · rw [← next, ← tried.slots]
    exact kept finished.load rfl
  · exact kept finished.rethrow rfl
  · rw [rows₅, finished.table, tried.table, rows₂, rows₁, start, List.map_map]
    rfl

/-- A guarded block leaves the stack as it found it. Over the body's range, its clauses' rows come
in clause order, each clause's in the order of the classes it catches, and the `finally` block's
catch-all row comes after them all. -/
theorem runs_guarded {body : LowerM Unit} {catches : List Catch} {always : Option (LowerM Unit)}
    (bodies : Leaves env body 0 0)
    (blocks : ∀ filters param b, Catch.mk filters param b ∈ catches → Leaves env (lowerBlock b) 0 0)
    (finals : ∀ fin ∈ always, Leaves env fin 0 0) (empty : s.Holds 0) :
    Runs env s h (lowerTry body (fun tryStart tryStop after => lowerCatches tryStart tryStop after catches)
      (!catches.isEmpty) always) fun _ s' _ =>
      s'.Holds 0 ∧ Contained [] s s' ∧
        ∃ (tryStop handler : Nat) (bodyRows : List HandlerSite) (ranges : List (Nat × Nat))
          (classes : List (List (Option Nat))),
          Emits env body s.locals.next s.code.code.size tryStop bodyRows ∧
          ranges.length = catches.length ∧ classes.length = catches.length ∧
          (∀ p ∈ catches.zip classes, ∃ t t', runStep ((catchFilters p.1.filters).run env) t = (.ok p.2, t')) ∧
          (s.code.handlers.toList ++ bodyRows ++ clauseRows s.code.code.size tryStop ranges classes ++
            (if always.isSome ∧ s.code.code.size < tryStop then
              [(⟨s.code.code.size, tryStop, handler, none⟩ : HandlerSite)] else [])).Sublist
            s'.code.handlers.toList := by
  have laid : ∀ {entries : Array Constant} {next : Nat} {clauses : List ClauseCode},
      List.Forall₂ (Catch.Lowered env entries next) catches clauses →
      (clauses.map ClauseCode.range).length = catches.length ∧ (clauses.map (·.classes)).length = catches.length ∧
      ∀ p ∈ catches.zip (clauses.map (·.classes)),
        ∃ t t', runStep ((catchFilters p.1.filters).run env) t = (.ok p.2, t') := by
    intro entries next clauses lowered
    refine ⟨by rw [List.length_map, lowered.length_eq], by rw [List.length_map, lowered.length_eq], ?_⟩
    intro p mem
    rw [List.zip_map_right, List.mem_map] at mem
    obtain ⟨⟨c, k⟩, pair, rfl⟩ := mem
    obtain ⟨t, t', ran, -⟩ := ((List.forall₂_iff_zip.mp lowered).2 pair).2.1
    exact ⟨t, t', ran⟩
  cases always with
  | none =>
    apply (runs_tryCatch bodies blocks empty).mono
    rintro _ s' h' - - ⟨holds, contained, tryStop, bodyRows, clauses, layout, -, -, table⟩
    obtain ⟨ranges, classes, filters⟩ := laid layout.lowered
    refine ⟨holds, contained, tryStop, 0, bodyRows, _, _, layout.body, ranges, classes, filters, ?_⟩
    simp only [Option.isSome_none, Bool.false_eq_true, false_and, if_false, List.append_nil, table]
    exact clauseRows_sublist_table _ _ _ _ clauses
  | some fin =>
    apply (runs_tryFinally bodies blocks (finals fin rfl) empty).mono
    rintro _ s' h' - - ⟨holds, contained, tryStop, bodyRows, clauses, u, u', finalRows, cleanupRows, reload,
      layout, -, -, -, table⟩
    obtain ⟨ranges, classes, filters⟩ := laid layout.lowered
    refine ⟨holds, contained, tryStop, u'.code.code.size + 3, bodyRows, _, _, layout.body, ranges, classes, filters, ?_⟩
    simp only [Option.isSome_some, true_and, table]
    have early := (clauseRows_sublist_table s.code.code.size tryStop s.code.handlers.toList bodyRows clauses).trans
      ((List.sublist_append_left _ finalRows).trans (List.sublist_append_left _ cleanupRows))
    exact (early.append_right _).trans (List.sublist_append_left _ _)

end Clauses

end Lowering

end Febc
