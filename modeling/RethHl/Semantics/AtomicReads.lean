import Mathlib.Logic.Relation

/-!
# Programs of atomic reads

A request handler computes its answer from several reads of a state that other parties change in
the meantime. `Reads σ ε α` is such a computation: it reads the state `σ` a number of times, each
read being atomic, and ends with a value or with a fault.

Two semantics are given.

* `runAt s` is the quiescent one: every read sees the same state `s`.
* `Interleaves step` is the concurrent one: before each read the environment takes any number of
  `step`s. The relation records the states that the reads saw, in order.

The answer depends on what was seen and on nothing else: `feed` replays a program on a list of
seen states, and `Interleaves.feed_eq` says that an interleaved run is such a replay.
-/

/-- A computation with atomic reads of a state `σ` and faults in `ε`. -/
inductive Reads (σ ε α : Type) where
  | done (a : α)
  | fault (e : ε)
  | read (k : σ → Reads σ ε α)

namespace Reads

variable {σ ε α β : Type}

/-- Sequential composition. -/
protected def bind : Reads σ ε α → (α → Reads σ ε β) → Reads σ ε β
  | done a, f => f a
  | fault e, _ => fault e
  | read k, f => read fun s ↦ (k s).bind f

instance : Monad (Reads σ ε) where
  pure := done
  bind := Reads.bind

/-- One read, and a function of the state seen. -/
def ask (f : σ → α) : Reads σ ε α :=
  read fun s ↦ done (f s)

/-- A computation without reads. -/
def ofExcept : Except ε α → Reads σ ε α
  | .ok a => done a
  | .error e => fault e

/-! ### All reads at one state -/

/-- The result when every read sees the state `s`. -/
def runAt (s : σ) : Reads σ ε α → Except ε α
  | done a => .ok a
  | fault e => .error e
  | read k => (k s).runAt s

@[simp] theorem runAt_pure (s : σ) (a : α) : (pure a : Reads σ ε α).runAt s = .ok a := rfl

@[simp] theorem runAt_fault (s : σ) (e : ε) : (fault e : Reads σ ε α).runAt s = .error e := rfl

@[simp] theorem runAt_ask (s : σ) (f : σ → α) : (ask f : Reads σ ε α).runAt s = .ok (f s) := rfl

@[simp] theorem runAt_ofExcept (s : σ) (x : Except ε α) :
    (ofExcept x : Reads σ ε α).runAt s = x := by
  cases x <;> rfl

@[simp] theorem runAt_bind (s : σ) (p : Reads σ ε α) (f : α → Reads σ ε β) :
    (p >>= f).runAt s = p.runAt s >>= fun a ↦ (f a).runAt s := by
  induction p with
  | done a => rfl
  | fault e => rfl
  | read k ih => exact ih s

/-! ### Reads at different states -/

/-- Replay a program on the states its reads see; `none` when the list has the wrong length. -/
def feed : Reads σ ε α → List σ → Option (Except ε α)
  | done a, [] => some (.ok a)
  | fault e, [] => some (.error e)
  | read k, s :: seen => (k s).feed seen
  | _, _ => none

/-- Runs of a program from a state, in an environment that moves by `step`: the states its reads
saw and its result. -/
inductive Interleaves (step : σ → σ → Prop) : Reads σ ε α → σ → List σ → Except ε α → Prop
  | done (a : α) (s : σ) : Interleaves step (.done a) s [] (.ok a)
  | fault (e : ε) (s : σ) : Interleaves step (.fault e) s [] (.error e)
  | read {k : σ → Reads σ ε α} {s s' : σ} {seen : List σ} {r : Except ε α}
      (moves : Relation.ReflTransGen step s s') (rest : Interleaves step (k s') s' seen r) :
      Interleaves step (.read k) s (s' :: seen) r

/-- **An interleaved run is a replay** of the program on what its reads saw. -/
theorem Interleaves.feed_eq {step : σ → σ → Prop} {p : Reads σ ε α} {s : σ} {seen : List σ}
    {r : Except ε α} (h : Interleaves step p s seen r) : p.feed seen = some r := by
  induction h with
  | done a s => rfl
  | fault e s => rfl
  | read moves rest ih => exact ih

end Reads
