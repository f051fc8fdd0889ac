import Mathlib.Logic.Function.Basic
import RethHl.Data.LruMap
import RethHl.Node.Types
import RethHl.Semantics.Machine

/-!
# The cached source

The source that the pseudo peer and the poller share keeps the blocks it has seen in memory. A call
looks the height up, and only when it is not there asks the source below; it then stores the answer
and returns it. The lock is taken for the lookup and for the store and not held in between, so the
steps of many calls interleave, and two calls for one height may both ask the source below.

`World` is the memory with all calls that there are, each in its `Phase`. Two fields record what has
happened: the answers of the source below, and the uses of the memory. The code does not have them.
The errors of the source below are of any type `ε`.

Whatever the interleaving, the cache is **transparent**: what a call returns, a block or an error,
is what the source below has answered for the same height. And it is a cache: the heights in memory
are exactly those that were used recently, with fewer than a hundred thousand others since
(`cached_transparent`).
-/

namespace RethHl.PseudoPeer.Cached

/-- `CACHE_LIMIT` -/
def cacheLimit : ℕ := 100000

/-- How far a call is. -/
inductive Phase (ε : Type) where
  | created
  /-- It waits for the source below. -/
  | asking
  | fetched (block : BlockAndReceipts)
  /-- It has returned. -/
  | ended (answer : Except ε BlockAndReceipts)

/-- A call of `collect_block`. -/
structure Call (ε : Type) where
  height : ℕ
  phase : Phase ε

/-- The memory and the calls. -/
structure World (ε : Type) where
  cache : LruMap ℕ BlockAndReceipts
  calls : ℕ → Option (Call ε)
  replies : List (ℕ × Except ε BlockAndReceipts)
  uses : List (ℕ × BlockAndReceipts)

/-- What can happen next. -/
inductive Action (ε : Type) where
  | create (id height : ℕ)
  | lookUp (id : ℕ)
  /-- The source below answers. -/
  | reply (id : ℕ) (answer : Except ε BlockAndReceipts)
  | store (id : ℕ)

variable {ε : Type}

/-- `CachedBlockSource::new` -/
def World.new : World ε where
  cache := .empty cacheLimit
  calls := fun _ ↦ none
  replies := []
  uses := []

/-- A call in its next phase. -/
def World.setCall (w : World ε) (id height : ℕ) (phase : Phase ε) : World ε :=
  { w with calls := Function.update w.calls id (some ⟨height, phase⟩) }

/-- The memory after a use of a height. -/
def World.use (w : World ε) (cache : LruMap ℕ BlockAndReceipts) (height : ℕ)
    (block : BlockAndReceipts) : World ε :=
  { w with cache := cache, uses := w.uses ++ [(height, block)] }

/-- One action of `CachedBlockSource::collect_block`, or of the source below. -/
def step (w : World ε) : Action ε → Option (World ε)
  | .create id height => if (w.calls id).isNone then some (w.setCall id height .created) else none
  | .lookUp id =>
    match w.calls id with
    | some ⟨height, .created⟩ =>
      match w.cache.getMut height with
      | (some block, cache) =>
        some ((w.use cache height block).setCall id height (.ended (.ok block)))
      | (none, _) => some (w.setCall id height .asking)
    | _ => none
  | .reply id answer =>
    match w.calls id with
    | some ⟨height, .asking⟩ =>
      let w := { w with replies := w.replies ++ [(height, answer)] }
      match answer with
      | .ok block => some (w.setCall id height (.fetched block))
      | .error e => some (w.setCall id height (.ended (.error e)))
    | _ => none
  | .store id =>
    match w.calls id with
    | some ⟨height, .fetched block⟩ =>
      some ((w.use (w.cache.insert height block) height block).setCall id height
        (.ended (.ok block)))
    | _ => none

/-! ### What a step does -/

/-- What a step changes, and when. -/
inductive Moves (w : World ε) : World ε → Prop
  | create {id : ℕ} (height : ℕ) (hcall : w.calls id = none) :
    Moves w (w.setCall id height .created)
  | hit {id height : ℕ} {block : BlockAndReceipts} (hcall : w.calls id = some ⟨height, .created⟩)
    (hget : w.cache.get height = some block) :
    Moves w ((w.use (w.cache.insert height block) height block).setCall id height
      (.ended (.ok block)))
  | miss {id height : ℕ} (hcall : w.calls id = some ⟨height, .created⟩)
    (hget : w.cache.get height = none) : Moves w (w.setCall id height .asking)
  | answered {id height : ℕ} (block : BlockAndReceipts)
    (hcall : w.calls id = some ⟨height, .asking⟩) :
    Moves w (World.setCall { w with replies := w.replies ++ [(height, .ok block)] } id height
      (.fetched block))
  | failed {id height : ℕ} (e : ε) (hcall : w.calls id = some ⟨height, .asking⟩) :
    Moves w (World.setCall { w with replies := w.replies ++ [(height, .error e)] } id height
      (.ended (.error e)))
  | store {id height : ℕ} {block : BlockAndReceipts}
    (hcall : w.calls id = some ⟨height, .fetched block⟩) :
    Moves w ((w.use (w.cache.insert height block) height block).setCall id height
      (.ended (.ok block)))

theorem step_lookUp_of_get {w : World ε} {id height : ℕ} {block : BlockAndReceipts}
    (hcall : w.calls id = some ⟨height, .created⟩) (hget : w.cache.get height = some block) :
    step w (.lookUp id) = some ((w.use (w.cache.insert height block) height block).setCall id
      height (.ended (.ok block))) := by
  simp only [step, hcall, LruMap.getMut, hget]

theorem step_lookUp_of_get_none {w : World ε} {id height : ℕ}
    (hcall : w.calls id = some ⟨height, .created⟩) (hget : w.cache.get height = none) :
    step w (.lookUp id) = some (w.setCall id height .asking) := by
  simp only [step, hcall, LruMap.getMut, hget]

theorem of_step_create {w w' : World ε} {id height : ℕ}
    (h : step w (.create id height) = some w') :
    w.calls id = none ∧ w' = w.setCall id height .created := by
  rw [step] at h
  split_ifs at h with hnone
  exact ⟨Option.isNone_iff_eq_none.1 hnone, (Option.some.inj h).symm⟩

/-- A call finds its height in memory, or asks. -/
theorem of_step_lookUp {w w' : World ε} {id : ℕ} (h : step w (.lookUp id) = some w') :
    ∃ height, w.calls id = some ⟨height, .created⟩ ∧
      ((∃ block, w.cache.get height = some block ∧
        w' = (w.use (w.cache.insert height block) height block).setCall id height
          (.ended (.ok block))) ∨
      w.cache.get height = none ∧ w' = w.setCall id height .asking) := by
  cases hcall : w.calls id with
  | none =>
    rw [step, hcall] at h
    cases h
  | some call =>
    obtain ⟨height, phase⟩ := call
    cases phase with
    | created =>
      refine ⟨height, rfl, ?_⟩
      cases hget : w.cache.get height with
      | some block =>
        rw [step_lookUp_of_get hcall hget] at h
        exact Or.inl ⟨block, rfl, (Option.some.inj h).symm⟩
      | none =>
        rw [step_lookUp_of_get_none hcall hget] at h
        exact Or.inr ⟨rfl, (Option.some.inj h).symm⟩
    | _ =>
      rw [step, hcall] at h
      cases h

/-- How a call goes on with what it is told: it stores a block, and returns an error. -/
def Phase.told : Except ε BlockAndReceipts → Phase ε
  | .ok block => .fetched block
  | .error e => .ended (.error e)

theorem of_step_reply {w w' : World ε} {id : ℕ} {answer : Except ε BlockAndReceipts}
    (h : step w (.reply id answer) = some w') :
    ∃ height, w.calls id = some ⟨height, .asking⟩ ∧
      w' = World.setCall { w with replies := w.replies ++ [(height, answer)] } id height
        (.told answer) := by
  rw [step] at h
  split at h
  · next height hcall =>
    refine ⟨height, hcall, ?_⟩
    cases answer with
    | ok block => exact (Option.some.inj h).symm
    | error e => exact (Option.some.inj h).symm
  · cases h

theorem of_step_store {w w' : World ε} {id : ℕ} (h : step w (.store id) = some w') :
    ∃ height block, w.calls id = some ⟨height, .fetched block⟩ ∧
      w' = (w.use (w.cache.insert height block) height block).setCall id height
        (.ended (.ok block)) := by
  rw [step] at h
  split at h
  · next height block hcall => exact ⟨height, block, hcall, (Option.some.inj h).symm⟩
  · cases h

theorem moves_of_step {w w' : World ε} {action : Action ε} (h : step w action = some w') :
    Moves w w' := by
  cases action with
  | create id height =>
    obtain ⟨hcall, rfl⟩ := of_step_create h
    exact .create height hcall
  | lookUp id =>
    obtain ⟨height, hcall, ⟨block, hget, rfl⟩ | ⟨hget, rfl⟩⟩ := of_step_lookUp h
    · exact .hit hcall hget
    · exact .miss hcall hget
  | reply id answer =>
    obtain ⟨height, hcall, rfl⟩ := of_step_reply h
    cases answer with
    | ok block => exact .answered block hcall
    | error e => exact .failed e hcall
  | store id =>
    obtain ⟨height, block, hcall, rfl⟩ := of_step_store h
    exact .store hcall

/-! ### The invariant -/

/-- What a call has is an answer of the source below. -/
def Call.Answered (replies : List (ℕ × Except ε BlockAndReceipts)) (call : Call ε) : Prop :=
  match call.phase with
  | .fetched block => (call.height, .ok block) ∈ replies
  | .ended answer => (call.height, answer) ∈ replies
  | _ => True

/-- The invariant of the cached source. -/
structure Inv (w : World ε) : Prop where
  cache_eq : w.cache = (LruMap.empty cacheLimit).insertAll w.uses
  uses : ∀ use ∈ w.uses, (use.1, .ok use.2) ∈ w.replies
  calls : ∀ id call, w.calls id = some call → call.Answered w.replies

theorem inv_new : Inv (.new : World ε) where
  cache_eq := rfl
  uses := fun _ h ↦ absurd h List.not_mem_nil
  calls := fun _ _ h ↦ by cases h

/-- Later answers do not matter. -/
theorem Call.Answered.mono {replies replies' : List (ℕ × Except ε BlockAndReceipts)}
    {call : Call ε} (h : call.Answered replies) (hsub : replies ⊆ replies') :
    call.Answered replies' := by
  obtain ⟨height, phase⟩ := call
  cases phase with
  | fetched block => exact hsub h
  | ended answer => exact hsub h
  | _ => trivial

/-- The calls after the step of one of them. -/
theorem answered_update {calls : ℕ → Option (Call ε)}
    {replies replies' : List (ℕ × Except ε BlockAndReceipts)}
    (hcalls : ∀ id call, calls id = some call → call.Answered replies)
    (hsub : replies ⊆ replies') {id : ℕ} {call : Call ε} (hcall : call.Answered replies') :
    ∀ id' call', Function.update calls id (some call) id' = some call' →
      call'.Answered replies' := by
  intro id' call' hcall'
  by_cases hid : id' = id
  · rw [hid, Function.update_self] at hcall'
    exact Option.some.inj hcall' ▸ hcall
  · rw [Function.update_of_ne hid] at hcall'
    exact (hcalls id' call' hcall').mono hsub

variable {w w' : World ε}

/-- A use moves the height to the front of the memory. -/
theorem Inv.use (hinv : Inv w) {id height : ℕ} {block : BlockAndReceipts}
    (hblock : (height, .ok block) ∈ w.replies) :
    Inv ((w.use (w.cache.insert height block) height block).setCall id height
      (.ended (.ok block))) where
  cache_eq := by
    show w.cache.insert height block = (LruMap.empty cacheLimit).insertAll (w.uses ++ [_])
    rw [LruMap.insertAll_append, ← hinv.cache_eq]
    rfl
  uses := by
    intro use huse
    rcases List.mem_append.1 huse with huse | huse
    · exact hinv.uses use huse
    · obtain rfl := List.mem_singleton.1 huse
      exact hblock
  calls := answered_update hinv.calls (List.Subset.refl _) hblock

/-- A call moves on, and the source below may have answered. -/
theorem Inv.setCall (hinv : Inv w) {replies : List (ℕ × Except ε BlockAndReceipts)}
    (hsub : w.replies ⊆ replies) {id height : ℕ} {phase : Phase ε}
    (hcall : Call.Answered replies ⟨height, phase⟩) :
    Inv (World.setCall { w with replies := replies } id height phase) where
  cache_eq := hinv.cache_eq
  uses := fun use huse ↦ hsub (hinv.uses use huse)
  calls := answered_update hinv.calls hsub hcall

/-- What the memory holds is an answer of the source below. -/
theorem Inv.of_get (hinv : Inv w) {height : ℕ} {block : BlockAndReceipts}
    (hget : w.cache.get height = some block) : (height, .ok block) ∈ w.replies := by
  have hmem := LruMap.mem_entries_of_get hget
  rw [hinv.cache_eq] at hmem
  rcases LruMap.mem_entries_insertAll hmem with huse | hempty
  · exact hinv.uses _ huse
  · cases hempty

theorem Inv.moves (hinv : Inv w) (h : Moves w w') : Inv w' := by
  cases h with
  | create height hcall => exact hinv.setCall (List.Subset.refl _) trivial
  | hit hcall hget => exact hinv.use (hinv.of_get hget)
  | miss hcall hget => exact hinv.setCall (List.Subset.refl _) trivial
  | answered block hcall =>
    exact hinv.setCall (List.subset_append_left _ _)
      (List.mem_append_right _ (List.mem_singleton_self _))
  | failed e hcall =>
    exact hinv.setCall (List.subset_append_left _ _)
      (List.mem_append_right _ (List.mem_singleton_self _))
  | store hcall => exact hinv.use (hinv.calls _ _ hcall)

theorem inv_of_run {actions : List (Action ε)} (h : Machine.run step .new actions = some w) :
    Inv w :=
  Machine.run_stable (fun _ _ _ hinv hstep ↦ hinv.moves (moves_of_step hstep)) inv_new h

/-! ### Transparency -/

/-- What the callers see, and what the source below sees. -/
structure Transparent (w : World ε) : Prop where
  /-- A call returns what the source below has answered for the same height. -/
  answer : ∀ id height answer, w.calls id = some ⟨height, .ended answer⟩ →
    (height, answer) ∈ w.replies
  /-- An error is not kept. -/
  cached : ∀ height block, w.cache.get height = some block → (height, .ok block) ∈ w.replies
  /-- The memory holds the heights that were used recently. -/
  recent : ∀ height, (w.cache.get height).isSome ↔ LruMap.Recent cacheLimit w.uses height
  /-- A height that was used recently is answered without the source below. -/
  hit : ∀ id height, w.calls id = some ⟨height, .created⟩ →
    LruMap.Recent cacheLimit w.uses height → ∃ block w', step w (.lookUp id) = some w' ∧
      w'.calls id = some ⟨height, .ended (.ok block)⟩ ∧ w'.replies = w.replies
  /-- The source below is asked for any other. -/
  miss : ∀ id height, w.calls id = some ⟨height, .created⟩ →
    ¬ LruMap.Recent cacheLimit w.uses height → ∃ w', step w (.lookUp id) = some w' ∧
      w'.calls id = some ⟨height, .asking⟩

/-- **The cached source is transparent**, whatever the interleaving of its calls. -/
theorem cached_transparent {actions : List (Action ε)}
    (h : Machine.run step .new actions = some w) : Transparent w := by
  have hinv := inv_of_run h
  have hrecent : ∀ height, (w.cache.get height).isSome ↔
      LruMap.Recent cacheLimit w.uses height := by
    intro height
    rw [hinv.cache_eq]
    exact LruMap.isSome_get_insertAll_empty_iff (by decide)
  refine ⟨fun id height answer hcall ↦ hinv.calls id _ hcall, fun height block ↦ hinv.of_get,
    hrecent, fun id height hcall hused ↦ ?_, fun id height hcall hused ↦ ?_⟩
  · obtain ⟨block, hget⟩ := Option.isSome_iff_exists.1 ((hrecent height).2 hused)
    exact ⟨block, _, step_lookUp_of_get hcall hget, Function.update_self _ _ _, rfl⟩
  · rw [← hrecent, Option.not_isSome_iff_eq_none] at hused
    exact ⟨_, step_lookUp_of_get_none hcall hused, Function.update_self _ _ _⟩

/-- A block of the example. -/
def exampleBlock : BlockAndReceipts where
  block := .reth115
    { header := { hash := 7, header := .zero 7 }
      body := { transactions := [], ommers := [], withdrawals := none } }
  systemTxs := []
  readPrecompileCalls := []
  highestPrecompileAddress := none

/-- Two calls for one height ask the source below, which fails one of them with a text; a third call
comes later. -/
def exampleActions : List (Action String) :=
  [.create 1 7, .create 2 7, .lookUp 1, .lookUp 2, .reply 2 (.error "not found"),
    .reply 1 (.ok exampleBlock), .store 1, .create 3 7, .lookUp 3]

/-- The third call is answered from memory. -/
theorem cached_transparent_exampleActions : ∃ w, Machine.run step .new exampleActions = some w ∧
    w.calls 2 = some ⟨7, .ended (.error "not found")⟩ ∧
    w.calls 3 = some ⟨7, .ended (.ok exampleBlock)⟩ ∧
    w.replies = [(7, .error "not found"), (7, .ok exampleBlock)] ∧ Transparent w := by
  have hrun : (Machine.run step .new exampleActions).map
      (fun w ↦ (w.calls 2, w.calls 3, w.replies)) =
        some (some ⟨7, .ended (.error "not found")⟩, some ⟨7, .ended (.ok exampleBlock)⟩,
          [(7, .error "not found"), (7, .ok exampleBlock)]) :=
    rfl
  obtain ⟨w, hrun, heq⟩ := Option.map_eq_some_iff.1 hrun
  simp only [Prod.mk.injEq] at heq
  exact ⟨w, hrun, heq.1, heq.2.1, heq.2.2, cached_transparent hrun⟩

end RethHl.PseudoPeer.Cached
