import Febc.Proofs.Expr

/-!
# Reading and assigning reach the same place

The same syntax is read and assigned to. Reading a name, `this`, a member or a subscript reaches
its place and loads through it; assigning to it reaches the place and stores through it.
`lowerAccess e forWrite` is that one step for both: lowering an expression is `lowerAccess e false`
followed by a load (`lowerExpr_eq_load`), and an assignment's target is reached by
`lowerAccess e true` (`lowerTarget_eq_lowerAccess`).

A member, a subscript, and a name that resolves to nothing or to a variable are places
(`assignable`): reaching one to assign to it does exactly what reaching it to read it does.
Anything else can only be read, and reaching it to assign to it emits nothing, interns nothing,
reports one problem (`assignProblem`) and answers an invalid place. An assignment reaches its
target once, and what follows takes exactly the address the target pushed and leaves the value.

Main statement: `assignment_reaches_the_read_place`.
-/

namespace Febc

namespace Lowering

/-! ## One step for reading and assigning -/

/-- Reach the place an expression denotes, to read it or to assign to it. An expression that is
no place is its value when read, and is reported when assigned to. -/
def lowerAccess (e : Expr) (forWrite : Bool) : LowerM Access :=
  match e with
  | .ident name => accessName name forWrite
  | .self pos => accessSelf pos forWrite
  | .member obj name => lowerMember obj name
  | .index obj key => do
    lowerExpr obj
    lowerExpr key
    pure .subscript
  | e =>
    if forWrite then do
      reportInvalidTarget e.pos
      pure .invalid
    else do
      lowerExpr e
      pure .value

/-- What an assignment does once its target is reached: compute the value (for `op=`, from the
target loaded through a copy of its address), then store it. -/
def assignTo (place : Access) (o : Option BinaryOp) (value : Expr) : LowerM Unit := do
  match o with
  | none => lowerExpr value
  | some o => do
    place.duplicateAddress
    place.load
    lowerExpr value
    evaluateBinary o
  place.store

theorem lowerTarget_eq_lowerAccess (e : Expr) : lowerTarget e = lowerAccess e true := by
  cases e <;> simp [lowerTarget, lowerAccess]

theorem lowerExpr_assign (target : Expr) (o : Option BinaryOp) (value : Expr) :
    lowerExpr (.assign target o value) = (do assignTo (← lowerAccess target true) o value) := by
  rw [lowerExpr, lowerTarget_eq_lowerAccess]
  rfl

/-! ## Places and values -/

/-- Is an expression a place that reading and assigning reach alike: a member, a subscript, or a
name that resolves to nothing or to a variable? -/
def assignable (env : FunctionEnv) : Expr → Bool
  | .member _ _ | .index _ _ => true
  | .ident name =>
    match env.symbols.resolve env.scope name.text with
    | none | some (.var _) => true
    | some _ => false
  | _ => false

/-- The problem assigning to an expression that is no place reports: a constant is named as such,
anything else is an invalid target. -/
def assignProblem (env : FunctionEnv) (e : Expr) : Diagnostic :=
  match e with
  | .ident name =>
    match env.symbols.resolve env.scope name.text with
    | some (.const _) =>
      ⟨.assignmentToConstant, name.pos, "cannot assign to constant '" ++ name.text ++ "'"⟩
    | _ => ⟨.invalidAssignmentTarget, name.pos, "expression cannot be assigned to"⟩
  | e => ⟨.invalidAssignmentTarget, e.pos, "expression cannot be assigned to"⟩

theorem run_read_bind {α : Type} (f : FunctionEnv → LowerM α) (env : FunctionEnv) :
    (read >>= f).run env = (f env).run env := rfl

/-- A place is reached alike for reading and for assigning. -/
theorem lowerAccess_write_of_assignable {env : FunctionEnv} {e : Expr}
    (place : assignable env e = true) : (lowerAccess e true).run env = (lowerAccess e false).run env := by
  cases e with
  | ident name =>
    rw [lowerAccess, lowerAccess, accessName, accessName, resolve_bind, resolve_bind, run_read_bind,
      run_read_bind]
    -- only an unknown name and a variable are places, and those two are reached alike
    simp only [assignable] at place
    split at place
    · rename_i unknown
      simp only [unknown]
    · rename_i variable_
      simp only [variable_]
    · cases place
  | member obj name => rfl
  | index obj key => rfl
  | _ => simp [assignable] at place

/-- Assigning to what is no place only reports it. -/
theorem lowerAccess_write_of_not_assignable {env : FunctionEnv} {e : Expr}
    (value : assignable env e = false) (s : Lowering) :
    runStep ((lowerAccess e true).run env) s =
      (.ok .invalid, { s with diagnostics := s.diagnostics.push (assignProblem env e) }) := by
  cases e with
  | ident name =>
    rw [lowerAccess, accessName, resolve_bind, run_read_bind, assignProblem]
    simp only [assignable] at value
    split at value
    · cases value
    · cases value
    · rename_i symbol other found
      cases symbol with
      | var storage => exact absurd rfl (other storage)
      | const storage =>
        simp only [found]
        rfl
      | function owner isStatic arities =>
        simp only [found]
        rfl
      | type cls =>
        simp only [found]
        rfl
  | member obj name => simp [assignable] at value
  | index obj key => simp [assignable] at value
  | _ => rfl

/-! ## The stack of an assignment -/

theorem Access.held_of_storable {place : Access} (storable : place ≠ .value) :
    place.held = place.addressSize := by
  cases place <;> first | rfl | exact absurd rfl storable

/-- What follows the target of an assignment takes what the target holds and leaves the value. -/
theorem leaves_assignTo {env : FunctionEnv} (place : Access) {entries : Array Constant}
    (refers : place.Refers entries) (storable : place ≠ .value) (o : Option BinaryOp) (value : Expr)
    (k : Nat) : LeavesAbove entries env (assignTo place o value) (k + place.held) (k + 1) := by
  unfold assignTo
  cases o with
  | none =>
    exact ((leaves_lowerExpr value env (k + place.held)).above entries).seq fun _ =>
      leaves_store place refers storable k
  | some o =>
    dsimp only
    exact ((leaves_duplicateAddress place storable k).above entries).seq fun _ =>
      (leaves_load place refers (k + place.held)).seq fun _ =>
      ((leaves_lowerExpr value env (k + place.held + 1)).above entries).seq fun _ =>
      ((leaves_evaluateBinary o (k + place.held)).above entries).seq fun _ =>
        leaves_store place refers storable k

/-- Reaching the target of an assignment pushes its address, at most two values, and what follows
takes exactly that address and leaves the assigned value. -/
theorem runs_assignment_target (target : Expr) (env : FunctionEnv) {s : Lowering} {h : Nat → Nat}
    {k : Nat} (holds : s.Holds k) :
    Runs env s h (lowerAccess target true) fun place s' _ =>
      s'.Holds (k + place.addressSize) ∧ place.addressSize ≤ 2 ∧
        ∀ o value, LeavesAbove s'.pool.entries env (assignTo place o value) (k + place.addressSize) (k + 1) := by
  rw [← lowerTarget_eq_lowerAccess]
  apply (runs_lowerTarget target env holds).mono
  rintro place s' _ - - ⟨⟨holds', -, refers⟩, storable⟩
  rw [← Access.held_of_storable storable]
  exact ⟨holds', Access.held_of_storable storable ▸ place.addressSize_load_le,
    fun o value => leaves_assignTo place refers storable o value k⟩

/-! ## The two modes -/

/-- Reading and assigning agree on every place. A member, a subscript, and a name that resolves
to nothing or to a variable are reached for an assignment exactly as for reading them: the same
code, the same constants, the same problems and the same place. Any other expression reached for
an assignment emits nothing, interns nothing, reports that it is a constant or no place, and is
an invalid place. An assignment reaches its target once, pushing an address of at most two
values, and the rest of it, the value and the store, takes exactly that address and leaves the
value. -/
theorem assignment_reaches_the_read_place (env : FunctionEnv) (e : Expr) :
    (assignable env e = true → (lowerAccess e true).run env = (lowerAccess e false).run env) ∧
    (assignable env e = false → ∀ s, runStep ((lowerAccess e true).run env) s =
      (.ok .invalid, { s with diagnostics := s.diagnostics.push (assignProblem env e) })) ∧
    (∀ o value, lowerExpr (.assign e o value) = (do assignTo (← lowerAccess e true) o value)) ∧
    (∀ s h k, s.Holds k → Runs env s h (lowerAccess e true) fun place s' _ =>
      s'.Holds (k + place.addressSize) ∧ place.addressSize ≤ 2 ∧
        ∀ o value, LeavesAbove s'.pool.entries env (assignTo place o value) (k + place.addressSize) (k + 1)) :=
  ⟨lowerAccess_write_of_assignable, lowerAccess_write_of_not_assignable,
    lowerExpr_assign e, fun _ _ _ holds => runs_assignment_target e env holds⟩

theorem assignment_reaches_the_read_place_of_subscript :
    assignable default (.index (.self default) (.self default)) = true ∧
    (lowerAccess (.index (.self default) (.self default)) true).run default =
      (lowerAccess (.index (.self default) (.self default)) false).run default ∧
    assignable default (.self default) = false ∧
    (∀ s, runStep ((lowerAccess (.self default) true).run default) s =
      (.ok .invalid, { s with diagnostics := s.diagnostics.push (assignProblem default (.self default)) })) ∧
    Sound (default : FunctionEnv).isInitializer entry (fun _ => 0) ∧ entry.Holds 0 ∧
    Runs default entry (fun _ => 0) (lowerAccess (.index (.self default) (.self default)) true)
      fun place s' _ => s'.Holds (0 + place.addressSize) ∧ place.addressSize ≤ 2 ∧
        ∀ o value, LeavesAbove s'.pool.entries default (assignTo place o value) (0 + place.addressSize) (0 + 1) :=
  ⟨rfl, (assignment_reaches_the_read_place default _).1 rfl, rfl,
    (assignment_reaches_the_read_place default (.self default)).2.1 rfl, sound_entry _, holds_entry,
    (assignment_reaches_the_read_place default _).2.2.2 entry (fun _ => 0) 0 holds_entry⟩

end Lowering

end Febc
