import Febc.Proofs.Stmt

/-!
# How `if` chains are laid out

An `if` chain with the clauses `(c₁, b₁) … (c_N, b_N)` and an optional `else` block `E` is laid
out clause after clause. A clause is its test's code, a static call of `isTrue`, a skip taken
when the test is false, its block's code, and a jump to the end of the chain, unless it is the
last clause and no `else` block follows. Its skip goes to where the code after it starts: the
next clause's test, the `else` block, or the end of the chain. The `else` block comes last.

A clause's skip is patched as soon as the clause ends, long before the chain does, so its target
has to survive the clauses after it. It does because an instruction whose operand waits for
nothing is never rewritten again (`Fixed`, `Grows.fixed`).

Main statements:
* `Grows.fixed`: a fixed instruction stays fixed;
* `runs_clausesLaid`: the clauses of a chain, laid out as `ClausesLaid` says;
* `if_chain_layout`: the whole chain, laid out as `ChainLaid` says.
-/

namespace Febc

namespace Lowering

open CodeBuilder

/-! ## Instructions that no later step rewrites -/

/-- The instruction is in the code, and its operand waits for no label and no loop. -/
def Fixed (s : Lowering) (i : Instruction) : Prop :=
  i ∈ s.code.instructions ∧ i.offset + 1 ∉ s.pending

section Fixed

variable {init : Bool} {s s' : Lowering} {h h' : Nat → Nat}

/-- An operand that waits is the operand of a jump of the code, so it lies inside the code. -/
theorem Sound.pending_lt (sound : Sound init s h) {p : Nat} (waits : p ∈ s.pending) :
    p < s.code.code.size := by
  rcases mem_pending.mp waits with ⟨l, fixups, r, found, fixup⟩ | ⟨r, memR, at_⟩
  · obtain ⟨j, memJ, jump, rfl, -⟩ := (sound.fixups l fixups r found).2 p fixup
    have := end_le sound j memJ
    rw [length_of_jump jump] at this
    omega
  · obtain ⟨-, k, memK, opK, atK, -⟩ := sound.breaks r memR
    have := end_le sound k memK
    rw [length_of_jump (by rw [opK]; rfl)] at this
    omega

/-- An instruction that is no jump is fixed as soon as it is emitted. -/
theorem Sound.fixed (sound : Sound init s h) {i : Instruction} (mem : i ∈ s.code.instructions)
    (plain : i.opcode.isJump = false) : Fixed s i :=
  ⟨mem, sound.not_pending mem plain⟩

/-- A fixed instruction stays fixed: it is kept, and only operands of code appended later start
to wait. -/
theorem Grows.fixed (grown : Grows s h s' h') (sound : Sound init s h) {i : Instruction}
    (fixed : Fixed s i) : Fixed s' i := by
  obtain ⟨mem, settled⟩ := fixed
  have below := offset_lt sound mem
  refine ⟨grown.kept i mem below settled, fun waits => ?_⟩
  rcases grown.fresh _ waits with old | late
  · exact settled old
  · omega

/-- An operand waits after a run only if it waited before, waits for a label the run owns, or is
a `break`'s. -/
theorem Spans.pending {own : List Nat} (spans : Spans own s s') {p : Nat} (waits : p ∈ s'.pending) :
    p ∈ s.pending ∨
      (∃ l ∈ own, ∃ fixups r, s'.code.labels[l]? = some (.unplaced fixups r) ∧ p ∈ fixups.toList) ∨
      ∃ r ∈ s'.loops.breaks, r.operand = p := by
  rcases mem_pending.mp waits with ⟨l, fixups, r, found, fixup⟩ | isBreak
  · by_cases mine : l ∈ own
    · exact .inr (.inl ⟨l, mine, fixups, r, found, fixup⟩)
    · by_cases old : l < s.code.labels.size
      · rw [spans.labels l old mine] at found
        exact .inl (mem_pending.mpr (.inl ⟨l, fixups, r, found, fixup⟩))
      · obtain ⟨q, placed⟩ :=
          spans.placed l (Nat.le_of_not_lt old) (Array.getElem?_eq_some_iff.mp found).1 mine
        rw [placed] at found
        cases found
  · exact .inr (.inr isBreak)

/-- A conditional jump emitted after `s₀` whose operand is among the fixups of no label a run
owns is fixed once it is in the code: nothing before it waited there, and it is no `break`. -/
theorem Spans.fixed {own : List Nat} {s₀ : Lowering} {h₀ : Nat → Nat} (spans : Spans own s₀ s')
    (sound₀ : Sound init s₀ h₀) (sound' : Sound init s' h') {i : Instruction}
    (mem : i ∈ s'.code.instructions) (fresh : s₀.code.code.size ≤ i.offset) (conditional : i.opcode ≠ .jump)
    (owned : ∀ l ∈ own, ∀ fixups r, s'.code.labels[l]? = some (.unplaced fixups r) →
      i.offset + 1 ∉ fixups.toList) : Fixed s' i := by
  refine ⟨mem, fun waits => ?_⟩
  rcases spans.pending waits with old | ⟨l, mine, fixups, r, found, fixup⟩ | ⟨r, memR, at_⟩
  · have := sound₀.pending_lt old
    omega
  · exact owned l mine fixups r found fixup
  · obtain ⟨-, k, memK, opK, atK, -⟩ := sound'.breaks r memR
    rw [jump_at sound' mem memK (atK.trans at_)] at opK
    exact conditional opK

end Fixed

/-! ## The layout -/

/-- Where the code after a clause of an `if` chain starts: right after its block if it is the
last thing of the chain, else past the three bytes of its jump to the end. -/
def clauseEnd (last : Bool) (stop : Nat) : Nat := if last then stop else stop + 3

/-- The clauses of an `if` chain laid out from `start` to `finish`, in code whose instructions
satisfy `code` and whose pool holds `entries`, with `next` the first free private slot. A clause
is its test's code, from where it starts to `tested`; a static call of `isTrue` at `tested`; at
`tested + 3` the skip, taken when the test is false, to where the code after the clause starts;
its block's code from `tested + 6` to `stop`; and at `stop`, unless it is the last clause and no
`else` block follows, a jump to the end of the chain, listed in `sites`. -/
def ClausesLaid (env : FunctionEnv) (next : Nat) (entries : Array Constant) (code : Instruction → Prop)
    (hasElse : Bool) : Nat → List (Expr × Block) → Nat → List Nat → Prop
  | start, [], finish, sites => finish = start ∧ sites = []
  | start, (test, body) :: rest, finish, sites =>
    ∃ tested stop truth testRows bodyRows later,
      Emits env (lowerExpr test) next start tested testRows ∧
      FunctionEntry entries truth Intrinsic.isTrue.reference ∧ code ⟨tested, .invokeStatic, [truth]⟩ ∧
      code ⟨tested + 3, .jumpEq0I, [clauseEnd (rest.isEmpty && !hasElse) stop]⟩ ∧
      Emits env (lowerBlock body) next (tested + 6) stop bodyRows ∧
      sites = (if rest.isEmpty && !hasElse then later else stop :: later) ∧
      ClausesLaid env next entries code hasElse (clauseEnd (rest.isEmpty && !hasElse) stop) rest finish later

/-- An `if` chain lowered from `s` to `s'`: its clauses laid out as `ClausesLaid` says from where
`s` ends, with one jump for each clause but the last when no `else` block follows, each going to
where `s'` ends; then the `else` block's code if there is one, up to that end. -/
def ChainLaid (env : FunctionEnv) (clauses : List (Expr × Block)) (otherwise : Option Block)
    (s s' : Lowering) : Prop :=
  ∃ finish sites,
    ClausesLaid env s.locals.next s'.pool.entries (· ∈ s'.code.instructions) otherwise.isSome
      s.code.code.size clauses finish sites ∧
    sites.length = (if otherwise.isSome then clauses.length else clauses.length - 1) ∧
    (∀ o ∈ sites, (⟨o, .jump, [s'.code.code.size]⟩ : Instruction) ∈ s'.code.instructions) ∧
    match otherwise with
    | some e => ∃ rows, Emits env (lowerBlock e) s.locals.next finish s'.code.code.size rows
    | none => finish = s'.code.code.size

theorem ClausesLaid.mono {env : FunctionEnv} {next : Nat} {entries entries' : Array Constant}
    {code code' : Instruction → Prop} {hasElse : Bool} (more : ∀ i, code i → code' i)
    (grown : entries.toList <+: entries'.toList) :
    ∀ {start : Nat} {clauses : List (Expr × Block)} {finish : Nat} {sites : List Nat},
      ClausesLaid env next entries code hasElse start clauses finish sites →
        ClausesLaid env next entries' code' hasElse start clauses finish sites
  | _, [], _, _, laid => laid
  | _, (_, _) :: _, _, _, ⟨tested, stop, truth, testRows, bodyRows, later, test, entry, call, skip, body, sites, rest⟩ =>
    ⟨tested, stop, truth, testRows, bodyRows, later, test, entry.mono grown, more _ call, more _ skip, body, sites,
      ClausesLaid.mono more grown rest⟩

/-- Every clause jumps to the end of the chain but the last one when no `else` block follows. -/
theorem ClausesLaid.length_sites {env : FunctionEnv} {next : Nat} {entries : Array Constant}
    {code : Instruction → Prop} {hasElse : Bool} :
    ∀ {start : Nat} {clauses : List (Expr × Block)} {finish : Nat} {sites : List Nat},
      ClausesLaid env next entries code hasElse start clauses finish sites →
        sites.length = if hasElse then clauses.length else clauses.length - 1
  | _, [], _, _, ⟨_, rfl⟩ => by simp
  | _, (_, _) :: rest, _, _, ⟨_, _, _, _, _, later, _, _, _, _, _, rfl, laid⟩ => by
    have counted := ClausesLaid.length_sites laid
    cases rest <;> cases hasElse <;> simp_all

/-! ## Lowering the chain -/

section Chain

variable {env : FunctionEnv} {s : Lowering} {h : Nat → Nat}

/-- The clauses of an `if` chain, lowered where the stack is empty while the chain's end `after`
waits at `ops`, are laid out as `ClausesLaid` says, with every call and skip fixed; the end then
also waits at every listed jump, all of which are in the code. -/
theorem runs_clausesLaid (after : Nat) (hasElse : Bool) (clauses : List (Expr × Block))
    (blocks : ∀ test b, (test, b) ∈ clauses → Leaves env (lowerBlock b) 0 0)
    (empty : s.Holds 0) {ops : List Nat} (waits : s.WaitsFor after ops) :
    Runs env s h (lowerClauses after hasElse clauses) fun _ s' _ =>
      s'.Holds 0 ∧ Contained [after] s s' ∧ ∃ sites, s'.WaitsFor after (ops ++ sites.map (· + 1)) ∧
        (∀ o ∈ sites, ∃ i ∈ s'.code.instructions, i.offset = o ∧ i.opcode = .jump) ∧
        ClausesLaid env s.locals.next s'.pool.entries (Fixed s') hasElse s.code.code.size clauses
          s'.code.code.size sites := by
  induction clauses generalizing s h ops with
  | nil => exact runs_pure () ⟨empty, .refl [after] s, [], by simpa using waits, by simp, rfl, rfl⟩
  | cons clause rest ih =>
    obtain ⟨test, body⟩ := clause
    apply Runs.of_sound
    intro sound
    rw [lowerClauses]
    simp only [lowerCondition, jumpUnlessTrue, testTruth, bind_assoc]
    generalize hlast : (rest.isEmpty && !hasElse) = last
    apply Runs.bind runs_freshLabel
    rintro next s₁ h₁ - - ⟨rfl, fresh₁, contained₁, depth₁, size₁, -⟩
    have apart : after ≠ s.code.labels.size := by
      obtain ⟨fixups, r, unplaced, -⟩ := waits
      exact Nat.ne_of_lt (Array.getElem?_eq_some_iff.mp unplaced).1
    apply Runs.bind (leaves_lowerExpr test env 0 s₁ h₁ (by unfold Holds; rw [depth₁]; exact empty)).ends
    rintro _ s₂ h₂ sound₂ - ⟨⟨holds₂, contained₂⟩, ran₂⟩
    apply Runs.bind (runs_callIntrinsicAt .isTrue (k := 0) (by simpa [Intrinsic.takes, Intrinsic.reference,
      Intrinsic.invocation, Opcode.receivers] using holds₂))
    rintro _ s₃ h₃ sound₃ grown₃ ⟨contained₃, depth₃, truth, entry₃, called₃, size₃, -⟩
    have unplaced₃ : s₃.code.labels[s.code.labels.size]? = some (.unplaced #[] none) :=
      contained₃.keeps (contained₂.keeps fresh₁ List.not_mem_nil) List.not_mem_nil
    apply Runs.bind (runs_branch (Or.inl rfl) unplaced₃ (Or.inl (by rw [depth₃]; rfl)) (by simp))
    rintro _ s₄ h₄ sound₄ grown₄ ⟨contained₄, depth₄, label₄, skipped₄⟩
    have size₄ : s₄.code.code.size = s₃.code.code.size + 3 := size_of_append sound₃ sound₄ skipped₄
    apply Runs.bind (blocks test body List.mem_cons_self s₄ h₄ (Or.inl depth₄)).ends
    rintro _ s₅ h₅ sound₅ grown₅ ⟨⟨holds₅, contained₅⟩, ran₅⟩
    have before₅ := contained₁.trans contained₂ |>.trans contained₃ |>.trans contained₄ |>.trans contained₅
    apply Runs.bind_ite (runs_jumpIfFor _ (waits.keep before₅.toSpans (by simpa using apart)) holds₅)
    rintro _ s₆ h₆ sound₆ grown₆ ⟨holds₆, contained₆, waits₆, -, size₆, jumped₆, -⟩
    have skipWaits : s₆.WaitsFor s.code.labels.size [s₃.code.code.size + 1] :=
      ⟨_, _, (contained₅.trans contained₆).keeps label₄ (by simpa [eq_comm] using apart), by simp,
        fun d same => (Option.some.inj same).symm⟩
    apply Runs.bind (runs_placeWaitsFor skipWaits holds₆)
    rintro _ s₇ h₇ sound₇ grown₇ ⟨holds₇, contained₇, placed₇, size₇, patched₇, -⟩
    have waits₇ := waits₆.keep contained₇.toSpans (by simpa using apart)
    apply (ih (fun t b mem => blocks t b (List.mem_cons_of_mem _ mem)) holds₇ waits₇).mono
    rintro _ s₈ h₈ - grown₈ ⟨holds₈, contained₈, later, waits₈, jumps₈, laid₈⟩
    -- the call is fixed once emitted, and the skip once its clause's label is placed
    have call : Fixed s₈ ⟨s₂.code.code.size, .invokeStatic, [truth]⟩ :=
      (grown₄.trans grown₅ |>.trans grown₆ |>.trans grown₇ |>.trans grown₈).fixed sound₃
        (sound₃.fixed (mem_of_appended called₃) rfl)
    have skipIn : (⟨s₃.code.code.size, .jumpEq0I, [s₆.code.code.size]⟩ : Instruction) ∈ s₇.code.instructions := by
      rw [patched₇]
      exact mem_patch_of_waits ((grown₅.trans grown₆).persists _ (mem_of_appended skipped₄)) (by simp)
    have early : ∀ p ∈ ops, p < s₃.code.code.size := by
      intro p mem
      obtain ⟨fixups, r, unplaced, same, -⟩ := waits
      have := sound.pending_lt (mem_pending.mpr (.inl ⟨after, fixups, r, unplaced, same ▸ mem⟩))
      have := (contained₁.trans contained₂).grown
      omega
    have skip : Fixed s₈ ⟨s₃.code.code.size, .jumpEq0I, [s₆.code.code.size]⟩ := by
      refine grown₈.fixed sound₇ ((contained₄.trans contained₅ |>.trans contained₆ |>.trans contained₇).toSpans.fixed
        sound₃ sound₇ skipIn (Nat.le_refl _) (by simp) fun l mine fixups r found => ?_)
      simp only [List.mem_append, List.mem_singleton, List.not_mem_nil, or_false] at mine
      rcases mine with (rfl | rfl) | rfl
      · rw [placed₇] at found
        cases found
      · obtain ⟨fixups', r', unplaced', same', -⟩ := waits₇
        rw [unplaced', Option.some.injEq, LabelState.unplaced.injEq] at found
        obtain ⟨rfl, -⟩ := found
        rw [same']
        intro hit
        simp only [List.mem_append] at hit
        rcases hit with old | new
        · have := early _ old
          omega
        · cases last <;> simp only [Bool.not_false, Bool.not_true, Bool.false_eq_true, if_true, if_false,
            List.mem_singleton, List.not_mem_nil] at new
          have := contained₅.grown
          omega
      · rw [placed₇] at found
        cases found
    obtain ⟨testRows, -, testEmits⟩ := Emits.of_contained ran₂ contained₂ sound₂
    obtain ⟨bodyRows, -, bodyEmits⟩ := Emits.of_contained ran₅ contained₅ sound₅
    have slots₁ : s₁.locals.next = s.locals.next := contained₁.slots
    have slots₄ : s₄.locals.next = s.locals.next := (contained₁.trans contained₂ |>.trans contained₃
      |>.trans contained₄).slots
    have slots₇ : s₇.locals.next = s.locals.next := (before₅.trans contained₆ |>.trans contained₇).slots
    have ends : s₇.code.code.size = clauseEnd last s₅.code.code.size := by
      rw [size₇, size₆, clauseEnd]
      cases last <;> rfl
    have start₄ : s₄.code.code.size = s₂.code.code.size + 6 := by rw [size₄, size₃]
    refine ⟨holds₈, ?_, if last then later else s₅.code.code.size :: later, ?_, ?_, ?_⟩
    · refine (before₅.trans contained₆ |>.trans contained₇ |>.trans contained₈).shrink fun l mine => ?_
      have which : l = s.code.labels.size ∨ l = after := by
        simp only [List.mem_append, List.mem_cons, List.not_mem_nil, or_false] at mine
        omega
      rcases which with rfl | rfl
      · exact Or.inr ⟨Nat.le_refl _, _, contained₈.keeps placed₇ (by simpa [eq_comm] using apart)⟩
      · exact Or.inl (List.mem_singleton_self _)
    · cases last <;> simpa using waits₈
    · intro o mem
      cases last <;> simp only [Bool.false_eq_true, if_false, if_true] at mem
      · rcases List.mem_cons.mp mem with rfl | later
        · obtain ⟨i, memI, at_, op⟩ := jumped₆ rfl
          obtain ⟨j, memJ, atJ, opJ⟩ := (grown₇.trans grown₈).persists i memI
          exact ⟨j, memJ, atJ.trans at_, opJ.trans op⟩
        · exact jumps₈ o later
      · exact jumps₈ o mem
    · rw [ClausesLaid, hlast]
      refine ⟨s₂.code.code.size, s₅.code.code.size, truth, testRows, bodyRows, later, ?_, entry₃.mono
        (grown₄.trans grown₅ |>.trans grown₆ |>.trans grown₇ |>.trans grown₈).pool, call, ?_, ?_, rfl, ?_⟩
      · rw [← slots₁, ← size₁]
        exact testEmits
      · rw [← ends, size₇, ← size₃]
        exact skip
      · rw [← slots₄, ← start₄]
        exact bodyEmits
      · rw [← ends, ← slots₇]
        exact laid₈

/-- The code of an `if` chain, lowered where the stack is empty: the clauses one after another, each
its test's code, a static call of `isTrue`, a skip to where the code after the clause starts, its
block's code, and a jump to the end unless it is the last clause and no `else` block follows; then
the `else` block's code. The chain leaves the stack empty, and every label as it found it. -/
theorem if_chain_layout (env : FunctionEnv) (s : Lowering) (h : Nat → Nat) (clauses : List (Expr × Block))
    (otherwise : Option Block) (empty : s.Holds 0) :
    Runs env s h (lowerStmt (.ifChain clauses otherwise)) fun _ s' _ =>
      s'.Holds 0 ∧ Contained [] s s' ∧ ChainLaid env clauses otherwise s s' := by
  rw [lowerStmt]
  apply Runs.bind runs_freshLabel
  rintro after s₁ h₁ sound₁ - ⟨rfl, fresh₁, contained₁, depth₁, size₁, -⟩
  apply Runs.bind (runs_clausesLaid _ otherwise.isSome clauses (leaves_clauseBlocks clauses env)
    (by unfold Holds; rw [depth₁]; exact empty) (.fresh fresh₁))
  rintro _ s₂ h₂ sound₂ - ⟨holds₂, contained₂, sites, waits₂, jumps₂, laid₂⟩
  have ending : ∀ t g, Sound env.isInitializer t g → Grows s₂ h₂ t g → t.Holds 0 → Contained [] s₂ t →
      (match otherwise with
        | some e => ∃ rows, Emits env (lowerBlock e) s.locals.next s₂.code.code.size t.code.code.size rows
        | none => s₂.code.code.size = t.code.code.size) →
      Runs env t g (place s.code.labels.size) fun _ s' _ =>
        s'.Holds 0 ∧ Contained [] s s' ∧ ChainLaid env clauses otherwise s s' := by
    intro t g soundT grownT holds contained elseCode
    apply (runs_placeWaitsFor (waits₂.keep contained.toSpans List.not_mem_nil) holds).mono
    rintro _ s' h' - grown' ⟨holds', contained', placed', size', patched', -⟩
    refine ⟨holds', (contained₁.trans contained₂ |>.trans contained |>.trans contained').close
      (fun l mine => ?_) (fun l mine => ?_), ?_⟩
    rotate_left 2
    · refine ⟨s₂.code.code.size, sites, ?_, laid₂.length_sites, fun o mem => ?_, ?_⟩
      · rw [← size₁, ← contained₁.slots]
        exact laid₂.mono (fun i fixed => (grownT.trans grown').fixed sound₂ fixed |>.1)
          (grownT.trans grown').pool
      · obtain ⟨i, memI, at_, op⟩ := jumps₂ o mem
        obtain ⟨j, memJ, atJ, opJ⟩ := grownT.persists i memI
        rw [patched', size']
        exact mem_patch_of_waits ⟨j, memJ, atJ.trans at_, opJ.trans op⟩ (by simp [mem])
      · cases otherwise with
        | none => simpa [size'] using elseCode
        | some e => simpa [size'] using elseCode
    all_goals obtain rfl : l = s.code.labels.size := by simpa using mine
    · exact Nat.le_refl _
    · exact ⟨_, placed'⟩
  cases otherwise with
  | none => exact ending s₂ h₂ sound₂ (.refl s₂ h₂) holds₂ (.refl [] s₂) rfl
  | some b =>
    apply Runs.bind (leaves_lowerBlock b env s₂ h₂ holds₂).ends
    rintro _ s₃ h₃ sound₃ grown₃ ⟨⟨holds₃, contained₃⟩, ran₃⟩
    obtain ⟨rows, -, emits⟩ := Emits.of_contained ran₃ contained₃ sound₃
    refine ending s₃ h₃ sound₃ grown₃ holds₃ contained₃ ⟨rows, ?_⟩
    rw [← (contained₁.trans contained₂).slots]
    exact emits

theorem if_chain_layout_with_else :
    Sound (default : FunctionEnv).isInitializer entry (fun _ => 0) ∧ entry.Holds 0 ∧
    Runs default entry (fun _ => 0)
      (lowerStmt (.ifChain [(.self ⟨2, 5⟩, ⟨[.eval (.literal (.boolean true) ⟨2, 12⟩)], none⟩),
        (.literal (.boolean false) ⟨3, 10⟩, ⟨[], none⟩)] (some ⟨[.eval (.self ⟨4, 8⟩)], none⟩))) fun _ s' _ =>
        s'.Holds 0 ∧ Contained [] entry s' ∧
          ChainLaid default [(.self ⟨2, 5⟩, ⟨[.eval (.literal (.boolean true) ⟨2, 12⟩)], none⟩),
            (.literal (.boolean false) ⟨3, 10⟩, ⟨[], none⟩)] (some ⟨[.eval (.self ⟨4, 8⟩)], none⟩) entry s' :=
  ⟨sound_entry _, holds_entry, if_chain_layout default entry (fun _ => 0) _ _ holds_entry⟩

end Chain

end Lowering

end Febc
