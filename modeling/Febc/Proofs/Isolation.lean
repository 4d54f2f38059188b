import Febc.Proofs.Classes

/-!
# Classes are compiled in isolation

A session compiles class after class on one set of channels. Between two classes no channel is
open and none is active: a class that returns closes every channel it opened, its functions'
channels through their code builders and its primary channel through the static initializer or
unused, and a class that fails with an error closes them all at once. The check for channels
left open at the end of a class therefore never fails.

Main statement: `compileClass_closes_every_channel`.
-/

namespace Febc

open Session

variable {c : Compiler} {s : Session}

/-- A class that stops with an error leaves no channel, open or active. -/
theorem compileClass_of_error {cls : ClassDecl} {e : Error} {s₁ : Session}
    (stopped : runStep ((assembleClass cls).run c) s = (.error (.error e), s₁)) :
    runStep ((compileClass cls).run c) s = (.error (.error e), { s₁ with channels := {} }) := by
  unfold compileClass
  rw [runStep_tryCatch, stopped]
  rfl

/-- A class that stops with a violated promise is stopped as it was. -/
theorem compileClass_of_violation {cls : ClassDecl} {v : Violation} {s₁ : Session}
    (stopped : runStep ((assembleClass cls).run c) s = (.error (.violation v), s₁)) :
    runStep ((compileClass cls).run c) s = (.error (.violation v), s₁) := by
  unfold compileClass
  rw [runStep_tryCatch, stopped]
  rfl

/-- A class that is assembled is compiled as it was assembled. -/
theorem compileClass_of_ok {cls : ClassDecl} {e : CompiledEntity} {s₁ : Session}
    (assembled : runStep ((assembleClass cls).run c) s = (.ok e, s₁)) :
    runStep ((compileClass cls).run c) s = (.ok e, s₁) := by
  unfold compileClass
  rw [runStep_tryCatch, assembled]

/-- What every answer of assembling a class satisfies, every answer of compiling it satisfies:
an answer is passed on as it is, and a stop has nothing to show. -/
theorem returns_compileClass_of_assembleClass {cls : ClassDecl} {post : CompiledEntity → Session → Prop}
    (assembled : Returns (fun _ => True) (runStep ((assembleClass cls).run c) s) post) :
    Returns (fun _ => True) (runStep ((compileClass cls).run c) s) post := by
  generalize ran : runStep ((assembleClass cls).run c) s = r at assembled
  obtain ⟨halt | e, s₁⟩ := r
  · cases halt with
    | error e =>
      rw [compileClass_of_error ran]
      trivial
    | violation v =>
      rw [compileClass_of_violation ran]
      trivial
  · rw [compileClass_of_ok ran]
    exact assembled

/-- From channels none of which is open, assembling a class never finds channels left open, and
when it returns, no channel is open and none is active. -/
theorem assembleClass_closes (cls : ClassDecl) (idle : s.channels.Idle) :
    Returns (fun h => ∀ name, h ≠ .violation (.channelsLeftOpen name)) (runStep ((assembleClass cls).run c) s)
      (fun _ s' => s'.channels.Idle ∧ s'.channels.active = none) :=
  (@returns_assembleClass c (fun h => ∀ name, h ≠ .violation (.channelsLeftOpen name)) s
    (fun _ _ _ => nofun) cls (.inr fun _ _ => ⟨nofun, nofun⟩) idle).mono fun _ _ closed => ⟨closed.1, closed.2.1⟩

/-- From channels none of which is open, compiling a class that breaks no promise leaves no channel
open and none active, whether it returns or stops with an error. -/
theorem compileClass_idle (cls : ClassDecl) (idle : s.channels.Idle) {r : Except Halt CompiledEntity}
    {s' : Session} (ran : runStep ((compileClass cls).run c) s = (r, s')) (proper : ∀ v, r ≠ .error (.violation v)) :
    s'.channels.Idle ∧ s'.channels.active = none := by
  have assembled := assembleClass_closes (c := c) cls idle
  generalize stopped : runStep ((assembleClass cls).run c) s = q at assembled
  obtain ⟨halt | entity, s₁⟩ := q
  · cases halt with
    | error e =>
      rw [compileClass_of_error stopped] at ran
      cases ran
      exact ⟨ChannelSet.idle_empty, rfl⟩
    | violation v =>
      rw [compileClass_of_violation stopped] at ran
      cases ran
      exact absurd rfl (proper v)
  · rw [compileClass_of_ok stopped] at ran
    cases ran
    exact assembled

/-- No channel outlives its class. From channels none of which is open, assembling a class
never finds channels left open, and when it returns, no channel is open and none is active;
compiling the class, which closes every channel when it stops with an error, leaves the same
whenever it returns or stops with an error. That is again the state the next class starts
from. -/
theorem compileClass_closes_every_channel (cls : ClassDecl) (idle : s.channels.Idle) :
    Returns (fun h => ∀ name, h ≠ .violation (.channelsLeftOpen name)) (runStep ((assembleClass cls).run c) s)
      (fun _ s' => s'.channels.Idle ∧ s'.channels.active = none) ∧
    ∀ r s', runStep ((compileClass cls).run c) s = (r, s') → (∀ v, r ≠ .error (.violation v)) →
      s'.channels.Idle ∧ s'.channels.active = none :=
  ⟨assembleClass_closes cls idle, fun _ _ ran proper => compileClass_idle cls idle ran proper⟩

/-- The scopes of a unit that declares the class `demo/Main` in scope 1, with a static function
in scope 2. -/
def mainCompiler : Compiler :=
  ⟨{}, ⟨#[⟨.unit, none, []⟩, ⟨.type ⟨"demo/Main"⟩, some 0, []⟩, ⟨.function true 0, some 1, []⟩]⟩⟩

/-- `class Main { static f() { return; } }`, which also gets a default initializer. -/
def returningClass : ClassDecl :=
  ⟨⟨"Main", ⟨1, 7⟩⟩, 0, [],
    [.function ⟨⟨"f", ⟨2, 10⟩⟩, false, 8, [], some (.mk [.returnValue none ⟨2, 16⟩] none), 2⟩], 1⟩

theorem compileClass_closes_every_channel_of_new_session :
    ({} : Session).channels.Idle ∧
    Returns (fun h => ∀ name, h ≠ .violation (.channelsLeftOpen name))
      (runStep ((assembleClass returningClass).run mainCompiler) {})
      (fun _ s' => s'.channels.Idle ∧ s'.channels.active = none) ∧
    ∀ r s', runStep ((compileClass returningClass).run mainCompiler) {} = (r, s') →
      (∀ v, r ≠ .error (.violation v)) → s'.channels.Idle ∧ s'.channels.active = none :=
  ⟨ChannelSet.idle_empty, compileClass_closes_every_channel returningClass ChannelSet.idle_empty⟩

end Febc
