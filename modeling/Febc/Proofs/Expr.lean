import Febc.Proofs.Access

/-!
# Every expression pushes exactly one value

The lowering of an expression, run from any sound state, ends sound with one value more on the
stack than it found, reached, and with every label it handed out placed. The branching
constructs are stated over abstract sub-steps (`leaves_cond`, `leaves_logical`), so the induction
over expressions only fills them in; the induction itself follows the mutual recursion of the
lowering, over expressions, argument lists, list items and map entries, with places reached
through `Reaches`.

Main statements:
* `leaves_lowerExpr`: an expression goes from `k` values to `k + 1`;
* `leaves_lowerArgs`: the arguments of a call push one value each;
* `runs_lowerCondition`: a condition leaves the stack as it found it and waits at its label.
-/

namespace Febc

namespace Lowering

section Constructs

variable {env : FunctionEnv}

/-- Reaching a place from `k` values, then a step from what the place holds. -/
theorem Leaves.after_reach {m : LowerM Access} {good : Access → Prop} {f : Access → LowerM Unit} {k k' : Nat}
    (reaches : ∀ s h, s.Holds k → Runs env s h m fun a s' _ => Reaches s k a s' ∧ good a)
    (second : ∀ a entries, a.Refers entries → good a → LeavesAbove entries env (f a) (k + a.held) k') :
    Leaves env (m >>= f) k k' := by
  intro s h holds
  apply Runs.bind (reaches s h holds)
  rintro a s₁ h₁ - - ⟨⟨holds₁, contained₁, refers⟩, isGood⟩
  apply (second a s₁.pool.entries refers isGood s₁ h₁ holds₁ (List.prefix_refl _)).mono
  rintro _ s₂ h₂ - - ⟨holds₂, contained₂⟩
  exact ⟨holds₂, contained₁.trans contained₂⟩

/-- A conditional expression: the test jumps to the second branch when it is false, the first
branch jumps over the second, and both leave their value at the label after them. -/
theorem leaves_cond {test first second : LowerM Unit} (tests : ∀ k, Leaves env test k (k + 1))
    (firsts : ∀ k, Leaves env first k (k + 1)) (seconds : ∀ k, Leaves env second k (k + 1)) (k : Nat) :
    Leaves env (do
      let otherwise ← freshLabel
      let done ← freshLabel
      test
      jumpUnlessTrue otherwise
      first
      jump .jump done
      place otherwise
      second
      place done) k (k + 1) := by
  intro s h holds
  apply Runs.bind runs_freshLabel
  rintro otherwise s₁ h₁ - - ⟨rfl, fresh₁, contained₁, depth₁, -, -⟩
  apply Runs.bind runs_freshLabel
  rintro done s₂ h₂ - - ⟨rfl, fresh₂, contained₂, depth₂, -, -⟩
  -- the two labels are told apart by their indices, the first handed out below the second
  have apart : s.code.labels.size ∉ [s₁.code.labels.size] := by
    simpa using Nat.ne_of_lt (Array.getElem?_eq_some_iff.mp fresh₁).1
  have apart' : s₁.code.labels.size ∉ [s.code.labels.size] := by
    simpa [eq_comm] using apart
  apply Runs.bind (tests k s₂ h₂ (by unfold Holds; rw [depth₂, depth₁]; exact holds))
  rintro _ s₃ h₃ - - ⟨holds₃, contained₃⟩
  apply Runs.bind (runs_jumpUnlessTrue (contained₃.keeps (contained₂.keeps fresh₁ apart) List.not_mem_nil)
    holds₃ nofun)
  rintro _ s₄ h₄ - - ⟨contained₄, depth₄, _, -, waiting₄, -⟩
  apply Runs.bind (firsts k s₄ h₄ (Or.inl depth₄))
  rintro _ s₅ h₅ - - ⟨holds₅, contained₅⟩
  apply Runs.bind (runs_jump_unplaced (o := .jump) rfl
    (contained₅.keeps (contained₄.keeps (contained₃.keeps fresh₂ List.not_mem_nil) apart') List.not_mem_nil)
    holds₅ (Nat.zero_le _) (show ((k + 1 : Nat) : Int) = _ by simp [Opcode.stackEffect]) nofun)
  rintro _ s₆ h₆ - - ⟨contained₆, waiting₆, -, depth₆⟩
  apply Runs.bind (runs_place (contained₆.keeps (contained₅.keeps waiting₄ List.not_mem_nil) apart)
    (fun _ _ reached _ => by simp [depth₆, Opcode.isUnconditional] at reached))
  rintro _ s₇ h₇ - - ⟨contained₇, placed₇, depth₇, -, -⟩
  apply Runs.bind (seconds k s₇ h₇ (Or.inl (by rw [depth₇, depth₆]; rfl)))
  rintro _ s₈ h₈ - - ⟨holds₈, contained₈⟩
  apply (runs_place (contained₈.keeps (contained₇.keeps waiting₆ apart') List.not_mem_nil)
    (fun c d reached recorded => by
      rw [holds₈.reached, Option.some.injEq] at reached
      rw [Option.some.injEq] at recorded
      omega)).mono
  rintro _ s₉ h₉ - - ⟨contained₉, placed₉, depth₉, -, -⟩
  refine ⟨Or.inl (by rw [depth₉, holds₈.reached]; rfl), ?_⟩
  have whole := contained₁.trans contained₂ |>.trans contained₃ |>.trans contained₄ |>.trans contained₅
    |>.trans contained₆ |>.trans contained₇ |>.trans contained₈ |>.trans contained₉
  have grows := contained₁.size
  refine whole.close (fun l mine => ?_) (fun l mine => ?_) <;>
    obtain rfl | rfl : l = s.code.labels.size ∨ l = s₁.code.labels.size := by simp at mine; omega
  · exact Nat.le_refl _
  · exact grows
  · exact ⟨_, contained₉.keeps (contained₈.keeps placed₇ List.not_mem_nil) apart⟩
  · exact ⟨_, placed₉⟩

/-- A short-circuit operator: the left operand stays when the branch decides the result, and is
otherwise replaced by the right operand, so both ways leave one value at the label after them. -/
theorem leaves_logical {branch : Opcode} (conditional : branch = .jumpEq0I ∨ branch = .jumpNe0I)
    {left right : LowerM Unit} (lefts : ∀ k, Leaves env left k (k + 1)) (rights : ∀ k, Leaves env right k (k + 1))
    (k : Nat) :
    Leaves env (do
      let done ← freshLabel
      left
      op .duplicate []
      testTruth
      jump branch done
      op .pop []
      right
      place done) k (k + 1) := by
  intro s h holds
  apply Runs.bind runs_freshLabel
  rintro done s₁ h₁ - - ⟨rfl, fresh₁, contained₁, depth₁, -, -⟩
  apply Runs.bind (lefts k s₁ h₁ (by unfold Holds; rw [depth₁]; exact holds))
  rintro _ s₂ h₂ - - ⟨holds₂, contained₂⟩
  apply Runs.bind (leaves_duplicate k s₂ h₂ holds₂)
  rintro _ s₃ h₃ - - ⟨holds₃, contained₃⟩
  apply Runs.bind (leaves_callIntrinsic .isTrue (k + 1) s₃ h₃ holds₃)
  rintro _ s₄ h₄ - - ⟨holds₄, contained₄⟩
  have unplaced₄ := contained₄.keeps (contained₃.keeps (contained₂.keeps fresh₁ List.not_mem_nil)
    List.not_mem_nil) List.not_mem_nil
  apply Runs.bind (runs_branch (k := k + 1) conditional unplaced₄ holds₄ nofun)
  rintro _ s₅ h₅ - - ⟨contained₅, depth₅, waiting₅, -⟩
  apply Runs.bind (leaves_pop k s₅ h₅ (Or.inl depth₅))
  rintro _ s₆ h₆ - - ⟨holds₆, contained₆⟩
  apply Runs.bind (rights k s₆ h₆ holds₆)
  rintro _ s₇ h₇ - - ⟨holds₇, contained₇⟩
  apply (runs_place (contained₇.keeps (contained₆.keeps waiting₅ List.not_mem_nil) List.not_mem_nil)
    (fun c d reached recorded => by
      rw [holds₇.reached, Option.some.injEq] at reached
      rw [Option.some.injEq] at recorded
      omega)).mono
  rintro _ s₈ h₈ - - ⟨contained₈, placed₈, depth₈, -, -⟩
  refine ⟨Or.inl (by rw [depth₈, holds₇.reached]; rfl), ?_⟩
  have whole := contained₁.trans contained₂ |>.trans contained₃ |>.trans contained₄ |>.trans contained₅
    |>.trans contained₆ |>.trans contained₇ |>.trans contained₈
  refine whole.close (fun l mine => ?_) (fun l mine => ?_) <;>
    obtain rfl : l = s.code.labels.size := by simpa using mine
  · exact Nat.le_refl _
  · exact ⟨_, placed₈⟩

end Constructs

/-! ## The induction over expressions -/

-- The lemmas for a member's object and for an assignment's target go back to the same
-- expression, so the recursion is on the size of the expression, then on the lemma.
mutual

/-- Every expression pushes exactly one value. -/
theorem leaves_lowerExpr (e : Expr) (env : FunctionEnv) (k : Nat) : Leaves env (lowerExpr e) k (k + 1) := by
  cases e with
  | literal lit pos =>
    rw [lowerExpr]
    exact leaves_lowerLiteral lit k
  | ident name =>
    rw [lowerExpr]
    exact Leaves.after_reach (fun _ _ holds => runs_accessName name false holds) fun a _ refers _ =>
      leaves_load a refers k
  | self pos =>
    rw [lowerExpr]
    exact Leaves.after_reach (fun _ _ holds => runs_accessSelf pos false holds) fun a _ refers _ =>
      leaves_load a refers k
  | member obj name =>
    rw [lowerExpr]
    exact Leaves.after_reach (fun _ _ holds => runs_lowerMember obj name env holds) fun a _ refers _ =>
      leaves_load a refers k
  | index obj key =>
    rw [lowerExpr]
    exact (leaves_lowerExpr obj env k).seq fun _ => (leaves_lowerExpr key env (k + 1)).seq fun _ =>
      (leaves_load .subscript (show Access.Refers #[] .subscript from trivial) k).leaves
  | list items pos =>
    rw [lowerExpr]
    exact (leaves_construct .list ⟨rfl, rfl⟩ k).seq fun _ => leaves_lowerItems items env k
  | map entries pos =>
    rw [lowerExpr]
    exact (leaves_construct .map ⟨rfl, rfl⟩ k).seq fun _ => leaves_lowerEntries entries env k
  | assign target o value =>
    rw [lowerExpr]
    refine Leaves.after_reach (fun _ _ holds => runs_lowerTarget target env holds)
      fun a entries refers storable => ?_
    cases o with
    | none =>
      exact ((leaves_lowerExpr value env (k + a.held)).above entries).seq fun _ => leaves_store a refers storable k
    | some o =>
      exact ((leaves_duplicateAddress a storable k).above entries).seq fun _ =>
        (leaves_load a refers (k + a.held)).seq fun _ =>
        ((leaves_lowerExpr value env (k + a.held + 1)).above entries).seq fun _ =>
          ((leaves_evaluateBinary o (k + a.held)).above entries).seq fun _ => leaves_store a refers storable k
  | cond test thenValue elseValue =>
    rw [lowerExpr]
    exact leaves_cond (leaves_lowerExpr test env) (leaves_lowerExpr thenValue env)
      (leaves_lowerExpr elseValue env) k
  | logical o left right =>
    -- the equations of the lowering split on the operator, which only picks the branch
    cases o <;> rw [lowerExpr] <;>
      exact leaves_logical (by simp) (leaves_lowerExpr left env) (leaves_lowerExpr right env) k
  | binary o left right =>
    rw [lowerExpr]
    exact (leaves_lowerExpr left env k).seq fun _ => (leaves_lowerExpr right env (k + 1)).seq fun _ =>
      leaves_evaluateBinary o k
  | unary o operand pos =>
    rw [lowerExpr]
    exact (leaves_lowerExpr operand env k).seq fun _ => leaves_evaluateUnary o k
  | call callee args =>
    cases callee with
    | ident name =>
      rw [lowerExpr, resolve_bind]
      apply Leaves.read_bind
      split
      · exact leaves_callFunction _ _ _ name args.length (leaves_lowerArgs args env) k
      · exact leaves_unresolvedFunction name k
      · exact Leaves.after_reach (fun _ _ holds => runs_accessName name false holds) fun a entries refers _ =>
          (leaves_load a refers k).seq fun _ => ((leaves_lowerArgs args env (k + 1)).above entries).seq fun _ =>
            ((leaves_callIntrinsic (.invoke args.length) k).cast (by simp; omega) (by simp)).above entries
    | member obj name =>
      rw [lowerExpr]
      intro s h holds
      apply Runs.bind (runs_bindMemberCall obj name args.length)
      rintro c _ _ - - ⟨rfl, rfl, dynamic⟩
      split
      · exact leaves_invoke (o := .invokeStatic) rfl (dynamic _ rfl) (leaves_lowerArgs args env) k _ _ holds
      · exact leaves_callFunction _ false _ name args.length (leaves_lowerArgs args env) k _ _ holds
      · refine ((leaves_lowerExpr obj env k).seq fun _ => Leaves.after_still
          (fun _ _ => (runs_memberName name).mono fun _ _ _ _ _ named =>
            ⟨by rw [named.2.1]; exact Still.refl _, trivial⟩) fun _ _ => ?_) _ _ holds
        exact leaves_invoke (o := .invokeDynamic) rfl rfl (leaves_lowerArgs args env) k
    | _ =>
      rw [lowerExpr.eq_16 _ _ (fun _ => Expr.noConfusion) (fun _ _ => Expr.noConfusion)]
      exact (leaves_lowerExpr _ env k).seq fun _ => (leaves_lowerArgs args env (k + 1)).seq fun _ =>
        (leaves_callIntrinsic (.invoke args.length) k).cast (by simp; omega) (by simp)
  | new cls args =>
    rw [lowerExpr, resolve_bind]
    apply Leaves.read_bind
    split
    · exact Leaves.after_pool (ConstantPool.interns_binaryName _) fun _ p names =>
        (leaves_poolOp (o := .new) ⟨rfl, rfl⟩ rfl rfl rfl (Nat.zero_le k) (by push_cast; rfl) names).seq fun _ =>
          ((leaves_duplicate k).seq fun _ => leaves_initialize rfl (leaves_lowerArgs args env) (k + 1)).above p.entries
    · exact leaves_unresolvedClass cls k
termination_by (sizeOf e, 1)
decreasing_by all_goals (apply Prod.Lex.left; simp only [Expr.ident.sizeOf_spec, Expr.member.sizeOf_spec, Expr.index.sizeOf_spec, Expr.list.sizeOf_spec,
    Expr.map.sizeOf_spec, Expr.assign.sizeOf_spec, Expr.cond.sizeOf_spec, Expr.logical.sizeOf_spec,
    Expr.binary.sizeOf_spec, Expr.unary.sizeOf_spec, Expr.call.sizeOf_spec, Expr.new.sizeOf_spec]; omega)

/-- The arguments of a call push one value each. -/
theorem leaves_lowerArgs (args : List Expr) (env : FunctionEnv) (j : Nat) :
    Leaves env (lowerArgs args) j (j + args.length) := by
  cases args with
  | nil =>
    rw [lowerArgs]
    exact leaves_pure j
  | cons e rest =>
    rw [lowerArgs]
    exact ((leaves_lowerExpr e env j).seq fun _ => leaves_lowerArgs rest env (j + 1)).cast rfl
      (by simp; omega)
termination_by (sizeOf args, 0)
decreasing_by all_goals (apply Prod.Lex.left; simp only [List.cons.sizeOf_spec]; omega)

/-- Adding the items keeps the list on the stack and nothing else. -/
theorem leaves_lowerItems (items : List Expr) (env : FunctionEnv) (k : Nat) :
    Leaves env (lowerItems items) (k + 1) (k + 1) := by
  cases items with
  | nil =>
    rw [lowerItems]
    exact leaves_pure (k + 1)
  | cons e rest =>
    rw [lowerItems]
    exact (leaves_duplicate k).seq fun _ => (leaves_lowerExpr e env (k + 2)).seq fun _ =>
      (leaves_callIntrinsic .listAdd (k + 1)).seq fun _ => leaves_lowerItems rest env k
termination_by (sizeOf items, 0)
decreasing_by all_goals (apply Prod.Lex.left; simp only [List.cons.sizeOf_spec]; omega)

/-- Putting the entries keeps the map on the stack and nothing else. -/
theorem leaves_lowerEntries (entries : List (Expr × Expr)) (env : FunctionEnv) (k : Nat) :
    Leaves env (lowerEntries entries) (k + 1) (k + 1) := by
  cases entries with
  | nil =>
    rw [lowerEntries]
    exact leaves_pure (k + 1)
  | cons entry rest =>
    obtain ⟨key, value⟩ := entry
    rw [lowerEntries]
    exact (leaves_duplicate k).seq fun _ => (leaves_lowerExpr key env (k + 2)).seq fun _ =>
      (leaves_lowerExpr value env (k + 3)).seq fun _ =>
        (leaves_callIntrinsic .mapPut (k + 1)).seq fun _ => leaves_lowerEntries rest env k
termination_by (sizeOf entries, 0)
decreasing_by all_goals (apply Prod.Lex.left; simp only [List.cons.sizeOf_spec, Prod.mk.sizeOf_spec]; omega)

/-- A member is reached statically, or through the kernel by the object and the member's name. -/
theorem runs_lowerMember (obj : Expr) (name : Ident) (env : FunctionEnv) {s : Lowering} {h : Nat → Nat}
    {k : Nat} (holds : s.Holds k) :
    Runs env s h (lowerMember obj name) fun a s' _ => Reaches s k a s' ∧ a ≠ .value := by
  rw [lowerMember]
  apply Runs.bind (runs_staticMember obj name holds)
  rintro r s₁ h₁ - - ⟨unknown, known⟩
  split
  · exact runs_pure _ (known _ rfl)
  · obtain ⟨rfl, rfl⟩ := unknown rfl
    apply Runs.bind (leaves_lowerExpr obj env k s₁ h₁ holds)
    rintro _ s₂ h₂ - - ⟨holds₂, contained₂⟩
    apply Runs.bind (leaves_loadString name.text (k + 1) s₂ h₂ holds₂)
    rintro _ s₃ h₃ - - ⟨holds₃, contained₃⟩
    exact runs_pure _ ⟨⟨holds₃, contained₂.trans contained₃, trivial⟩, nofun⟩
termination_by (sizeOf obj, 2)
decreasing_by all_goals (apply Prod.Lex.right; decide)

/-- An assignment reaches a place it can store into; what is not a place is reported. -/
theorem runs_lowerTarget (target : Expr) (env : FunctionEnv) {s : Lowering} {h : Nat → Nat} {k : Nat}
    (holds : s.Holds k) :
    Runs env s h (lowerTarget target) fun a s' _ => Reaches s k a s' ∧ a ≠ .value := by
  cases target with
  | ident name =>
    rw [lowerTarget]
    exact (runs_accessName name true holds).mono fun _ _ _ _ _ ⟨reaches, storable⟩ => ⟨reaches, storable rfl⟩
  | self pos =>
    rw [lowerTarget]
    exact (runs_accessSelf pos true holds).mono fun _ _ _ _ _ ⟨reaches, storable⟩ => ⟨reaches, storable rfl⟩
  | member obj name =>
    rw [lowerTarget]
    exact runs_lowerMember obj name env holds
  | index obj key =>
    rw [lowerTarget]
    apply Runs.bind (leaves_lowerExpr obj env k s h holds)
    rintro _ s₁ h₁ - - ⟨holds₁, contained₁⟩
    apply Runs.bind (leaves_lowerExpr key env (k + 1) s₁ h₁ holds₁)
    rintro _ s₂ h₂ - - ⟨holds₂, contained₂⟩
    exact runs_pure _ ⟨⟨holds₂, contained₁.trans contained₂, trivial⟩, nofun⟩
  | _ =>
    rw [lowerTarget.eq_5 _ (fun _ => Expr.noConfusion) (fun _ => Expr.noConfusion) (fun _ _ => Expr.noConfusion)
      (fun _ _ => Expr.noConfusion)]
    exact runs_reportInvalid _ _ _ holds
termination_by (sizeOf target, 3)
decreasing_by all_goals (apply Prod.Lex.left; simp only [Expr.member.sizeOf_spec, Expr.index.sizeOf_spec]; omega)

end

/-- A condition leaves the stack as it found it, and is recorded at the label it jumps to when it
is false. -/
theorem runs_lowerCondition (test : Expr) {env : FunctionEnv} {s : Lowering} {h : Nat → Nat} {l k : Nat}
    {fixups : Array Nat} {r : Option Nat} (unplaced : s.code.labels[l]? = some (.unplaced fixups r))
    (holds : s.Holds k) (agrees : ∀ d, r = some d → d = k) :
    Runs env s h (lowerCondition test l) fun _ s' _ =>
      Contained [l] s s' ∧ s'.code.depth = some k ∧ ∃ o : Nat, s.code.code.size ≤ o ∧
        s'.code.labels[l]? = some (.unplaced (fixups.push (o + 1)) (some k)) ∧
        (⟨o, .jumpEq0I, [0]⟩ : Instruction) ∈ s'.code.instructions ∧ s'.code.code.size = o + 3 := by
  apply Runs.bind (leaves_lowerExpr test env k s h holds)
  rintro _ s₁ h₁ - grown₁ ⟨holds₁, contained₁⟩
  apply (runs_jumpUnlessTrue (contained₁.keeps unplaced List.not_mem_nil) holds₁ agrees).mono
  rintro _ s₂ h₂ - - ⟨contained₂, depth₂, o, above, facts⟩
  exact ⟨contained₁.trans contained₂, depth₂, o, Nat.le_trans grown₁.size above, facts⟩

end Lowering

end Febc
