import Mathlib.Logic.Relation
import Mathlib.Algebra.Ring.Nat

/-!
# Ordered buffering

A list of inputs is worked off concurrently: at most a given number of computations is under way at
a time, they are started in the order of the inputs and **finish in any order**, and their results
are handed out in the order of the inputs. A result that is ready early waits for those before it.

`Step` is one move of such a buffer. Whatever the order of the moves, the results handed out so far,
those under way and the inputs that wait make up the results of all inputs (`Tracks`), so a buffer
that has run empty has handed out the results of the inputs in order (`Completes.eq_map`). With room
for at least one computation no buffer is stuck and every move uses up some of the work, so every
run can be completed (`exists_run`).
-/

/-- A buffer: the inputs that wait, the computations under way with the results that are ready, and
the results that were handed out. -/
structure Buffered (α β : Type) where
  waiting : List α
  flying : List (α × Option β)
  emitted : List β

namespace Buffered

variable {α β : Type}

/-- A buffer before its first move. -/
def init (inputs : List α) : Buffered α β where
  waiting := inputs
  flying := []
  emitted := []

section Runs

variable (limit : ℕ) (f : α → β)

/-- One move. -/
inductive Step : Buffered α β → Buffered α β → Prop
  /-- The next input is started while there is room. -/
  | start {x : α} {waiting : List α} {flying : List (α × Option β)} {emitted : List β}
    (h : flying.length < limit) :
    Step ⟨x :: waiting, flying, emitted⟩ ⟨waiting, flying ++ [(x, none)], emitted⟩
  /-- Some computation finishes. -/
  | finish {x : α} {waiting : List α} {front back : List (α × Option β)} {emitted : List β} :
    Step ⟨waiting, front ++ (x, none) :: back, emitted⟩
      ⟨waiting, front ++ (x, some (f x)) :: back, emitted⟩
  /-- The first result is handed out. -/
  | emit {x : α} {b : β} {waiting : List α} {flying : List (α × Option β)} {emitted : List β} :
    Step ⟨waiting, (x, some b) :: flying, emitted⟩ ⟨waiting, flying, emitted ++ [b]⟩

/-- A run. -/
def Runs : Buffered α β → Buffered α β → Prop :=
  Relation.ReflTransGen (Step limit f)

/-- The inputs are worked off with the given results. -/
def Completes (inputs : List α) (results : List β) : Prop :=
  Runs limit f (init inputs) ⟨[], [], results⟩

variable {limit f}

/-! ### Results come in order -/

variable (f) in
/-- What is handed out, under way and waiting makes up the results of all inputs. -/
structure Tracks (inputs : List α) (s : Buffered α β) : Prop where
  results : s.emitted ++ (s.flying.map fun p ↦ f p.1) ++ s.waiting.map f = inputs.map f
  ready : ∀ x b, (x, some b) ∈ s.flying → b = f x

theorem tracks_init (inputs : List α) : Tracks f inputs (init inputs) where
  results := rfl
  ready := fun _ _ h ↦ absurd h (List.not_mem_nil)

/-- One move keeps track. -/
theorem Tracks.step {inputs : List α} {s s' : Buffered α β} (h : Tracks f inputs s)
    (hstep : Step limit f s s') : Tracks f inputs s' := by
  cases hstep with
  | start hroom =>
    refine ⟨?_, fun x b hmem ↦ ?_⟩
    · simpa using h.results
    · rcases List.mem_append.1 hmem with hmem | hmem
      · exact h.ready x b hmem
      · simp at hmem
  | finish =>
    refine ⟨?_, fun x b hmem ↦ ?_⟩
    · simpa using h.results
    · rcases List.mem_append.1 hmem with hfront | hrest
      · exact h.ready x b (List.mem_append_left _ hfront)
      · rcases List.mem_cons.1 hrest with heq | hback
        · obtain ⟨rfl, hb⟩ := Prod.mk.inj heq
          exact Option.some.inj hb
        · exact h.ready x b (List.mem_append_right _ (List.mem_cons_of_mem _ hback))
  | emit =>
    refine ⟨?_, fun x b hmem ↦ h.ready x b (List.mem_cons_of_mem _ hmem)⟩
    have hfirst := h.ready _ _ List.mem_cons_self
    simpa [hfirst] using h.results

/-- So does a run. -/
theorem Tracks.run {inputs : List α} {s s' : Buffered α β} (h : Tracks f inputs s)
    (hrun : Runs limit f s s') : Tracks f inputs s' := by
  induction hrun with
  | refl => exact h
  | tail _ hstep ih => exact ih.step hstep

/-- **The results are those of the inputs, in order**, however the computations finish. -/
theorem Completes.eq_map {inputs : List α} {results : List β}
    (h : Completes limit f inputs results) : results = inputs.map f := by
  simpa using ((tracks_init inputs).run h).results

/-! ### Runs can be completed -/

/-- The moves that are left: three for an input that waits, two for a computation under way, one for
a result that is ready. -/
def work (s : Buffered α β) : ℕ :=
  3 * s.waiting.length + (s.flying.map fun p ↦ if p.2.isSome then 1 else 2).sum

theorem Step.work_lt {s s' : Buffered α β} (h : Step limit f s s') : s'.work < s.work := by
  cases h with
  | start hroom => simp [work]; omega
  | finish => simp [work]
  | emit => simp [work]

/-- A buffer that has not run empty can move. -/
theorem exists_step (hlimit : 0 < limit) {s : Buffered α β}
    (h : s.waiting ≠ [] ∨ s.flying ≠ []) : ∃ s', Step limit f s s' := by
  obtain ⟨waiting, flying, emitted⟩ := s
  rcases flying with - | ⟨⟨x, - | b⟩, flying⟩
  · rcases waiting with - | ⟨x, waiting⟩
    · simp at h
    · exact ⟨_, .start hlimit⟩
  · exact ⟨_, @Step.finish α β limit f x waiting [] flying emitted⟩
  · exact ⟨_, .emit⟩

/-- **From every state a run can be completed.** -/
theorem exists_run (hlimit : 0 < limit) (s : Buffered α β) :
    ∃ results, Runs limit f s ⟨[], [], results⟩ := by
  induction hwork : s.work using Nat.strongRecOn generalizing s with
  | _ n ih =>
    by_cases h : s.waiting = [] ∧ s.flying = []
    · obtain ⟨waiting, flying, emitted⟩ := s
      obtain ⟨rfl, rfl⟩ := h
      exact ⟨emitted, .refl⟩
    · rw [not_and_or] at h
      obtain ⟨s', hstep⟩ := exists_step (f := f) hlimit h
      obtain ⟨results, hrun⟩ := ih s'.work (hwork ▸ hstep.work_lt) s' rfl
      exact ⟨results, .head hstep hrun⟩

theorem completes_map (hlimit : 0 < limit) (inputs : List α) :
    Completes limit f inputs (inputs.map f) := by
  obtain ⟨results, hrun⟩ := exists_run (f := f) hlimit (init inputs)
  have h : Completes limit f inputs results := hrun
  rwa [← h.eq_map]

end Runs

end Buffered
