import Mathlib.Logic.Relation

/-!
# Programs over a shared state

A task that shares its state with others works in atomic actions: each one takes a lock, reads the
state, changes it and lets go. `Shared σ α` is such a program as a tree of actions. Between any two
actions the environment may move the state (`Step`).

What a program does is stated against a `Discipline`: an invariant that everybody keeps, and an
order in which everybody only moves the state forward. `Meets D post p s` says that the program `p`,
started at `s` or later, keeps the discipline with each of its actions and ends as `post` says. It
is a statement about the actions one by one, with a rule for composition (`Meets.bind`), and
`Meets.run` turns it into one about **every interleaved run**.

A program is a well-founded tree, so it always ends (`exists_run`).
-/

/-- A program of atomic actions over a state `σ`. -/
inductive Shared (σ α : Type) where
  | done (a : α)
  | panic
  | act (change : σ → σ) (next : σ → Shared σ α)

namespace Shared

variable {σ α β : Type}

/-- Sequential composition. -/
protected def bind : Shared σ α → (α → Shared σ β) → Shared σ β
  | done a, f => f a
  | panic, _ => panic
  | act change next, f => act change fun s ↦ (next s).bind f

instance : Monad (Shared σ) where
  pure := done
  bind := Shared.bind

/-- One action with a result. -/
def atomic (f : σ → α × σ) : Shared σ α :=
  act (fun s ↦ (f s).2) fun s ↦ done (f s).1

/-- One read. -/
def get (f : σ → α) : Shared σ α :=
  atomic fun s ↦ (f s, s)

/-- One change. -/
def modify (f : σ → σ) : Shared σ Unit :=
  atomic fun s ↦ ((), f s)

/-! ### Runs -/

/-- One step of a program and its state: of the environment, or of the program. -/
inductive Step (env : σ → σ → Prop) : Shared σ α × σ → Shared σ α × σ → Prop
  | env {p : Shared σ α} {s s' : σ} (h : env s s') : Step env (p, s) (p, s')
  | act {change : σ → σ} {next : σ → Shared σ α} {s : σ} :
    Step env (act change next, s) (next s, change s)

/-- The runs of a program and its state. -/
def Runs (env : σ → σ → Prop) (p : Shared σ α) (s : σ) (p' : Shared σ α) (s' : σ) : Prop :=
  Relation.ReflTransGen (Step env) (p, s) (p', s')

/-- **Every program can be run to its end.** -/
theorem exists_run (env : σ → σ → Prop) (p : Shared σ α) (s : σ) :
    ∃ s', Runs env p s panic s' ∨ ∃ a, Runs env p s (done a) s' := by
  induction p generalizing s with
  | done a => exact ⟨s, Or.inr ⟨a, .refl⟩⟩
  | panic => exact ⟨s, Or.inl .refl⟩
  | act change next ih =>
    obtain ⟨s', hrun⟩ := ih s (change s)
    refine ⟨s', ?_⟩
    rcases hrun with hrun | ⟨a, hrun⟩
    · exact Or.inl (.head .act hrun)
    · exact Or.inr ⟨a, .head .act hrun⟩

/-- A program returns a value: it can be run to its end, and no run panics or returns another
value. -/
structure Yields (env : σ → σ → Prop) (p : Shared σ α) (s : σ) (a : α) : Prop where
  ends : ∃ s', Runs env p s (done a) s'
  no_panic : ∀ s', ¬ Runs env p s panic s'
  unique : ∀ b s', Runs env p s (done b) s' → b = a

/-! ### Specifications -/

/-- What everybody who shares the state keeps: an invariant, and an order that the state only moves
up in. -/
structure Discipline (σ : Type) where
  inv : σ → Prop
  later : σ → σ → Prop
  refl : ∀ s, later s s
  trans : ∀ {s t u}, later s t → later t u → later s u

/-- The environment keeps a discipline. -/
def Discipline.KeptBy (D : Discipline σ) (env : σ → σ → Prop) : Prop :=
  ∀ s s', env s s' → D.inv s → D.inv s' ∧ D.later s s'

/-- The program, started at a state or later, keeps the discipline and ends as stated. The end is
`none` for a panic. -/
def Meets (D : Discipline σ) (post : Option α → σ → Prop) : Shared σ α → σ → Prop
  | done a, s => post (some a) s
  | panic, s => post none s
  | act change next, s₀ =>
    ∀ s, D.later s₀ s → D.inv s →
      D.inv (change s) ∧ D.later s (change s) ∧ Meets D post (next s) (change s)

variable {D : Discipline σ} {post : Option α → σ → Prop} {post' : Option β → σ → Prop} {s : σ}

theorem Meets.pure {a : α} (h : post (some a) s) : Meets D post (Pure.pure a) s :=
  h

/-- An action that keeps the discipline. -/
theorem Meets.atomic {f : σ → α × σ}
    (h : ∀ t, D.later s t → D.inv t →
      D.inv (f t).2 ∧ D.later t (f t).2 ∧ post (some (f t).1) (f t).2) :
    Meets D post (Shared.atomic f) s :=
  h

/-- A read. -/
theorem Meets.get {f : σ → α} (h : ∀ t, D.later s t → D.inv t → post (some (f t)) t) :
    Meets D post (Shared.get f) s :=
  fun t hlater hinv ↦ ⟨hinv, D.refl t, h t hlater hinv⟩

/-- **Composition.** The second program starts later than the first one. -/
theorem Meets.bind {p : Shared σ α} {f : α → Shared σ β} (hp : Meets D post p s)
    (hpanic : ∀ t, post none t → post' none t)
    (hf : ∀ a t, D.later s t → post (some a) t → Meets D post' (f a) t) :
    Meets D post' (p >>= f) s := by
  induction p generalizing s with
  | done a => exact hf a s (D.refl s) hp
  | panic => exact hpanic s hp
  | act change next ih =>
    intro t hlater hinv
    obtain ⟨hinv', hstep, hnext⟩ := hp t hlater hinv
    refine ⟨hinv', hstep, ih t hnext fun a u hlater' hpost ↦ ?_⟩
    exact hf a u (D.trans hlater (D.trans hstep hlater')) hpost

/-- The end of a program that does not panic. -/
def Returns (P : α → σ → Prop) : Option α → σ → Prop
  | none, _ => False
  | some a, s => P a s

/-- Composition after a program that does not panic. -/
theorem Meets.bind_of_returns {P : α → σ → Prop} {p : Shared σ α} {f : α → Shared σ β}
    (hp : Meets D (Returns P) p s)
    (hf : ∀ a t, D.later s t → P a t → Meets D post' (f a) t) : Meets D post' (p >>= f) s :=
  hp.bind (fun _ h ↦ h.elim) hf

/-- A weaker end. -/
theorem Meets.imp {p : Shared σ α} {post' : Option α → σ → Prop} (hp : Meets D post p s)
    (h : ∀ r t, D.later s t → post r t → post' r t) : Meets D post' p s := by
  induction p generalizing s with
  | done a => exact h _ s (D.refl s) hp
  | panic => exact h _ s (D.refl s) hp
  | act change next ih =>
    intro t hlater hinv
    obtain ⟨hinv', hstep, hnext⟩ := hp t hlater hinv
    refine ⟨hinv', hstep, ih t hnext fun r u hlater' hpost ↦ ?_⟩
    exact h r u (D.trans hlater (D.trans hstep hlater')) hpost

/-- **Every step keeps the discipline**, and what is left of the program still meets its
specification. -/
theorem Meets.step {env : σ → σ → Prop} (henv : D.KeptBy env) {c c' : Shared σ α × σ}
    (hc : ∃ t, D.later t c.2 ∧ Meets D post c.1 t) (hinv : D.inv c.2) (hstep : Step env c c') :
    D.inv c'.2 ∧ D.later c.2 c'.2 ∧ ∃ t, D.later t c'.2 ∧ Meets D post c'.1 t := by
  obtain ⟨t, ht, hmeets⟩ := hc
  cases hstep with
  | env h =>
    obtain ⟨hinv', hmove⟩ := henv _ _ h hinv
    exact ⟨hinv', hmove, t, D.trans ht hmove, hmeets⟩
  | act =>
    obtain ⟨hinv', hmove, hnext⟩ := hmeets _ ht hinv
    exact ⟨hinv', hmove, _, D.refl _, hnext⟩

/-- So does every interleaved run. -/
theorem Meets.run {env : σ → σ → Prop} (henv : D.KeptBy env) {p p' : Shared σ α} {s' : σ}
    (hp : Meets D post p s) (hinv : D.inv s) (hrun : Runs env p s p' s') :
    D.inv s' ∧ D.later s s' ∧ ∃ t, D.later t s' ∧ Meets D post p' t := by
  suffices h : ∀ c : Shared σ α × σ, Relation.ReflTransGen (Step env) (p, s) c →
      D.inv c.2 ∧ D.later s c.2 ∧ ∃ t, D.later t c.2 ∧ Meets D post c.1 t from h _ hrun
  intro c hrun
  induction hrun with
  | refl => exact ⟨hinv, D.refl s, s, D.refl s, hp⟩
  | tail _ hstep ih =>
    obtain ⟨hinv, hlater, hmeets⟩ := ih
    obtain ⟨hinv', hmove, hmeets'⟩ := Meets.step henv hmeets hinv hstep
    exact ⟨hinv', D.trans hlater hmove, hmeets'⟩

/-- A program that meets an end reaches no other. -/
theorem Meets.of_runs {env : σ → σ → Prop} (henv : D.KeptBy env) {p : Shared σ α} {s' : σ}
    {P : Option α → Prop} (hp : Meets D (fun r _ ↦ P r) p s) (hinv : D.inv s) :
    (Runs env p s panic s' → P none) ∧ ∀ a, Runs env p s (done a) s' → P (some a) := by
  refine ⟨fun hrun ↦ ?_, fun a hrun ↦ ?_⟩
  · obtain ⟨-, -, t, -, hend⟩ := hp.run henv hinv hrun
    exact hend
  · obtain ⟨-, -, t, -, hend⟩ := hp.run henv hinv hrun
    exact hend

/-- **A program that can only end with a value returns it.** -/
theorem Meets.yields {env : σ → σ → Prop} (henv : D.KeptBy env) {p : Shared σ α} {a : α}
    (hp : Meets D (fun r _ ↦ r = some a) p s) (hinv : D.inv s) : Yields env p s a := by
  have hpanic : ∀ s', ¬ Runs env p s panic s' := by
    intro s' hrun
    cases (hp.of_runs henv hinv).1 hrun
  have hunique : ∀ b s', Runs env p s (done b) s' → b = a := fun b s' hrun ↦
    Option.some.inj ((hp.of_runs henv hinv).2 b hrun)
  refine ⟨?_, hpanic, hunique⟩
  obtain ⟨s', hrun | ⟨b, hrun⟩⟩ := exists_run env p s
  · exact absurd hrun (hpanic s')
  · exact ⟨s', hunique b s' hrun ▸ hrun⟩

end Shared
