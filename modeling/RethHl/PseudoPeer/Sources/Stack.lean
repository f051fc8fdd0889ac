import RethHl.PseudoPeer.HlNode.CollectBlock
import RethHl.PseudoPeer.HlNode.LocalRuns
import RethHl.PseudoPeer.HlNode.Origin
import RethHl.PseudoPeer.Sources.Cached

/-!
# The sources on top of each other

`create_cached_block_source` puts three sources on top of each other. The callers have the cached
source (`Cached`). It asks the local source of `hl-node` (`CollectBlock`), whose task follows the
files (`LocalSource`). And the local source asks a third one, the S3 bucket or a directory of block
files, of which nothing is assumed here: what it answers is recorded as it comes.

`SourceStack` is all of it, and `SourceStack.Step` joins the machines of the layers: a call of the
cached source that asks makes a call of the local source with the same number, and is told what that
one returns. Everything else interleaves, the writer and the clock included.

The peer and the poller are modelled over a source that has one block for every height, and gives
it or fails. `sources_implement` says when the sources are that: if the files and the answers of the
third source have the blocks of one chain, then so has every answer to a caller. It also says where
every block and every error comes from, that nothing panics, that every call can come to its end,
and that a block which the task has read from a file is returned without asking the third source.
-/

namespace RethHl.HlNode.CollectBlock

/-- The errors of the local source: the call is told to come back later, or the source that it asks
has failed. -/
inductive Error where
  | limited
  | failed

/-- The call that returns an error. -/
def Error.answer : Error → Answer
  | .limited => .limited
  | .failed => .failed

/-- What the answer of the local source is for its caller: a block, an error, or nothing at all. -/
def Answer.result : Answer → Option (Except Error BlockAndReceipts)
  | .ok block => some (.ok block)
  | .limited => some (.error .limited)
  | .failed => some (.error .failed)
  | .panic => none

/-- What an answer of the third source is for the caller of the local one. -/
def replyResult : Option BlockAndReceipts → Except Error BlockAndReceipts
  | some block => .ok block
  | none => .error .failed

/-- The steps that a call of the local source makes by itself. -/
def Action.IsOwn : Action → Prop
  | .readClock _ _ | .lookUp _ | .check _ | .ask _ | .update _ => True
  | _ => False

/-- Only a lookup changes what is found locally. -/
theorem cache_of_step {fromStr : List Char → Option BlockAndReceipts} {fallbackThreshold : ℕ}
    {w w' : World} {action : Action} (hcaller : action.caller ≠ none)
    (h : step fromStr fallbackThreshold w action = some w') :
    w'.localBlocksCache = w.localBlocksCache ∨
      ∃ height r, tryCollectLocalBlock fromStr w.dir w.localBlocksCache height =
        some (r, w'.localBlocksCache) := by
  cases action with
  | outside dir cache => exact absurd rfl hcaller
  | create id height =>
    simp only [step] at h
    split_ifs at h
    exact Or.inl (Option.some.inj h ▸ rfl)
  | lookUp id =>
    simp only [step] at h
    split at h
    · split at h
      · exact Or.inl (Option.some.inj h ▸ rfl)
      · next hlookup =>
        obtain rfl := Option.some.inj h
        exact Or.inr ⟨_, _, hlookup⟩
      · next hlookup =>
        obtain rfl := Option.some.inj h
        exact Or.inr ⟨_, _, hlookup⟩
    · cases h
  | _ =>
    simp only [step] at h
    repeat' split at h
    all_goals cases h
    all_goals exact Or.inl rfl

/-- A call is new, or it has not ended and keeps its height. -/
theorem CallStep.before {fromStr : List Char → Option BlockAndReceipts} {fallbackThreshold : ℕ}
    {w : World} {action : Action} {id : ℕ} {before : Option Call} {call : Call}
    {lastFetch : LastFetch}
    (h : CallStep fromStr fallbackThreshold w action id before call lastFetch) :
    before = none ∧ action = .create id call.height ∨
      ∃ phase, before = some ⟨call.height, phase⟩ ∧ ∀ answer, phase ≠ .ended answer := by
  cases h with
  | create => exact Or.inl ⟨rfl, rfl⟩
  | _ => exact Or.inr ⟨_, rfl, fun _ hphase ↦ by cases hphase⟩

end RethHl.HlNode.CollectBlock

namespace RethHl.PseudoPeer

open HlNode

/-- The sources, and the calls of the two that have calls. -/
structure SourceStack where
  source : LocalSource
  lastLocalFetch : CollectBlock.LastFetch
  /-- The calls of the local source, by the numbers of the calls they are made for. -/
  calls : ℕ → Option CollectBlock.Call
  cached : Cached.World CollectBlock.Error
  /-- What the third source has answered. The code does not keep this. -/
  answers : List (ℕ × Option BlockAndReceipts)

namespace SourceStack

/-- The local source with its calls. -/
def node (s : SourceStack) : CollectBlock.World where
  lastLocalFetch := s.lastLocalFetch
  localBlocksCache := s.source.cache
  dir := s.source.dir
  calls := s.calls

/-- The local source after a step of one of its calls. -/
def setNode (s : SourceStack) (w : CollectBlock.World) : SourceStack :=
  { s with
    source := { s.source with cache := w.localBlocksCache }
    lastLocalFetch := w.lastLocalFetch
    calls := w.calls }

section Stack

variable (fromStr : List Char → Option BlockAndReceipts) (parseDate : String → Option ℕ)
  (formatDate : ℕ → String) (cutoffHeight fallbackThreshold : ℕ)

/-- `create_cached_block_source`, up to the backfill of the local source. -/
def start (clock : ℕ) (dir : HourlyDir) : SourceStack where
  source := .start parseDate clock dir
  lastLocalFetch := none
  calls := fun _ ↦ none
  cached := .new
  answers := []

/-- One step of the clock, of `hl-node`, of the task or of a call. -/
inductive Step : SourceStack → SourceStack → Prop
  | tick {s : SourceStack} {clock : ℕ} (h : s.source.clock ≤ clock) :
    Step s { s with source := { s.source with clock := clock } }
  | write {s : SourceStack} {dir' : HourlyDir} (h : DirGrows fromStr s.source.dir dir')
    (hcurrent : ∀ path ≠ hourFile formatDate (s.source.clock / oneHour),
      dir'.contents path = s.source.dir.contents path) :
    Step s { s with source := { s.source with dir := dir' } }
  | proceed {s : SourceStack} :
    Step s { s with source := s.source.proceed fromStr parseDate formatDate cutoffHeight }
  /-- A new call, after the backfill. -/
  | create {s : SourceStack} {id height : ℕ} {w : Cached.World CollectBlock.Error}
    (hready : s.source.phase.IsReady) (h : Cached.step s.cached (.create id height) = some w) :
    Step s { s with cached := w }
  | lookUp {s : SourceStack} {id : ℕ} {w : Cached.World CollectBlock.Error}
    (h : Cached.step s.cached (.lookUp id) = some w) : Step s { s with cached := w }
  /-- The cached source asks the local one. -/
  | call {s : SourceStack} {id height : ℕ} {w : CollectBlock.World}
    (hasking : s.cached.calls id = some ⟨height, .asking⟩)
    (h : CollectBlock.step fromStr fallbackThreshold s.node (.create id height) = some w) :
    Step s (s.setNode w)
  | turn {s : SourceStack} {action : CollectBlock.Action} {w : CollectBlock.World}
    (h : CollectBlock.step fromStr fallbackThreshold s.node action = some w)
    (hown : action.IsOwn) : Step s (s.setNode w)
  /-- The third source answers. -/
  | reply {s : SourceStack} {id height : ℕ} {now : ℤ} {answer : Option BlockAndReceipts}
    {w : CollectBlock.World} (hasking : s.calls id = some ⟨height, .asking now⟩)
    (h : CollectBlock.step fromStr fallbackThreshold s.node (.reply id answer) = some w) :
    Step s { s.setNode w with answers := s.answers ++ [(height, answer)] }
  /-- The local source has answered the cached one. -/
  | answer {s : SourceStack} {id height : ℕ} {answer : CollectBlock.Answer}
    {result : Except CollectBlock.Error BlockAndReceipts} {w : Cached.World CollectBlock.Error}
    (hended : s.calls id = some ⟨height, .ended answer⟩) (hresult : answer.result = some result)
    (h : Cached.step s.cached (.reply id result) = some w) : Step s { s with cached := w }
  | store {s : SourceStack} {id : ℕ} {w : Cached.World CollectBlock.Error}
    (h : Cached.step s.cached (.store id) = some w) : Step s { s with cached := w }

/-! ### What should hold -/

/-- A block of a file under its own height, or an answer of the third source. -/
def Genuine (s : SourceStack) (height : ℕ) (b : BlockAndReceipts) : Prop :=
  b.number = height ∧ InFile fromStr s.source.dir b ∨ (height, some b) ∈ s.answers

/-- The files and the third source have the blocks of one chain. -/
structure Holds (chain : ℕ → BlockAndReceipts) (s : SourceStack) : Prop where
  files : ∀ b, InFile fromStr s.source.dir b → b = chain b.number
  answers : ∀ height b, (height, some b) ∈ s.answers → b = chain height

/-! ### The invariant -/

/-- What a call of the local source has. -/
def CallInv (s : SourceStack) (call : CollectBlock.Call) : Prop :=
  match call.phase with
  | .found _ b | .fetched _ b | .ended (.ok b) => s.Genuine fromStr call.height b
  | .ended .failed => (call.height, none) ∈ s.answers
  | .ended .panic => False
  | _ => True

/-- The invariant of the sources. -/
structure Inv (s : SourceStack) : Prop where
  source : s.source.Invariant fromStr parseDate formatDate cutoffHeight
  filled : s.source.Filled fromStr
  cached : Cached.Inv s.cached
  replies : ∀ height b, (height, .ok b) ∈ s.cached.replies → s.Genuine fromStr height b
  calls : ∀ id call, s.calls id = some call → s.CallInv fromStr call
  /-- A call of the local source belongs to a call that has asked. -/
  asked : ∀ id call, s.calls id = some call →
    ∃ phase, s.cached.calls id = some ⟨call.height, phase⟩ ∧ phase ≠ .created
  /-- A call fails as its call of the local source does. -/
  failed : ∀ id height e, s.cached.calls id = some ⟨height, .ended (.error e)⟩ →
    s.calls id = some ⟨height, .ended e.answer⟩

variable {fromStr parseDate formatDate cutoffHeight fallbackThreshold} {s s' : SourceStack}

/-- Files grow, and so does the record of the answers. -/
theorem Genuine.mono {height : ℕ} {b : BlockAndReceipts} (h : s.Genuine fromStr height b)
    (hfiles : ∀ b, InFile fromStr s.source.dir b → InFile fromStr s'.source.dir b)
    (hanswers : s.answers ⊆ s'.answers) : s'.Genuine fromStr height b :=
  h.imp (fun ⟨hnumber, hfile⟩ ↦ ⟨hnumber, hfiles b hfile⟩) fun hanswer ↦ hanswers hanswer

theorem CallInv.mono {call : CollectBlock.Call} (h : s.CallInv fromStr call)
    (hfiles : ∀ b, InFile fromStr s.source.dir b → InFile fromStr s'.source.dir b)
    (hanswers : s.answers ⊆ s'.answers) : s'.CallInv fromStr call := by
  obtain ⟨height, phase⟩ := call
  rcases phase with - | now | ⟨now, b⟩ | now | now | now | ⟨now, b⟩ | (b | - | - | -)
  · trivial
  · trivial
  · exact Genuine.mono h hfiles hanswers
  · trivial
  · trivial
  · trivial
  · exact Genuine.mono h hfiles hanswers
  · exact Genuine.mono h hfiles hanswers
  · trivial
  · exact hanswers h
  · exact h

theorem inv_start {clock : ℕ} {dir : HourlyDir} (hfiles : HourFiles fromStr dir)
    (htimely : ∀ file ∈ timedFiles parseDate dir,
      file.1.1 * 24 + file.1.2 ≤ clock / oneHour) :
    (start parseDate clock dir).Inv fromStr parseDate formatDate cutoffHeight where
  source := LocalSource.invariant_start hfiles htimely
  filled := LocalSource.filled_start clock
  cached := Cached.inv_new
  replies := fun _ _ h ↦ absurd h List.not_mem_nil
  calls := fun _ _ h ↦ by cases h
  asked := fun _ _ h ↦ by cases h
  failed := fun _ _ _ h ↦ by cases h

/-! ### The steps -/

/-- A step of the clock, of the writer or of the task. -/
theorem Inv.background (h : s.Inv fromStr parseDate formatDate cutoffHeight)
    {source' : LocalSource}
    (hsource : source'.Invariant fromStr parseDate formatDate cutoffHeight)
    (hfilled : source'.Filled fromStr)
    (hfiles : ∀ b, InFile fromStr s.source.dir b → InFile fromStr source'.dir b) :
    Inv fromStr parseDate formatDate cutoffHeight { s with source := source' } where
  source := hsource
  filled := hfilled
  cached := h.cached
  replies := fun height b hb ↦ (h.replies height b hb).mono hfiles (List.Subset.refl _)
  calls := fun id call hcall ↦ (h.calls id call hcall).mono hfiles (List.Subset.refl _)
  asked := h.asked
  failed := h.failed

/-- The two calls of one number are for one height, and the upper one has asked. -/
theorem Inv.height_eq (h : s.Inv fromStr parseDate formatDate cutoffHeight) {id height : ℕ}
    {call : CollectBlock.Call} {phase : Cached.Phase CollectBlock.Error}
    (hcall : s.calls id = some call) (hcached : s.cached.calls id = some ⟨height, phase⟩) :
    call.height = height ∧ phase ≠ .created := by
  obtain ⟨phase', hphase', hne⟩ := h.asked id call hcall
  obtain ⟨rfl, rfl⟩ := Cached.Call.mk.inj (Option.some.inj (hcached.symm.trans hphase'))
  exact ⟨rfl, hne⟩

/-- A call of the cached source moves on. -/
theorem Inv.setCached (h : s.Inv fromStr parseDate formatDate cutoffHeight)
    {w : Cached.World CollectBlock.Error} {action : Cached.Action CollectBlock.Error}
    (hstep : Cached.step s.cached action = some w)
    (hreplies : ∀ height b, (height, .ok b) ∈ w.replies → s.Genuine fromStr height b)
    {id height : ℕ} {phase : Cached.Phase CollectBlock.Error}
    (hcalls : w.calls = Function.update s.cached.calls id (some ⟨height, phase⟩))
    (hasked : ∀ call, s.calls id = some call → call.height = height ∧ phase ≠ .created)
    (hfailed : ∀ e, phase = .ended (.error e) → s.calls id = some ⟨height, .ended e.answer⟩) :
    Inv fromStr parseDate formatDate cutoffHeight { s with cached := w } where
  source := h.source
  filled := h.filled
  cached := h.cached.moves (Cached.moves_of_step hstep)
  replies := hreplies
  calls := h.calls
  asked := by
    intro id' call hcall
    show ∃ phase', w.calls id' = some ⟨call.height, phase'⟩ ∧ phase' ≠ .created
    rw [hcalls]
    by_cases hid : id' = id
    · subst hid
      obtain ⟨rfl, hphase⟩ := hasked call hcall
      exact ⟨phase, Function.update_self _ _ _, hphase⟩
    · obtain ⟨phase', hphase', hne⟩ := h.asked id' call hcall
      exact ⟨phase', (Function.update_of_ne hid _ _).trans hphase', hne⟩
  failed := by
    intro id' height' e hcall
    replace hcall : w.calls id' = some ⟨height', .ended (.error e)⟩ := hcall
    rw [hcalls] at hcall
    by_cases hid : id' = id
    · subst hid
      rw [Function.update_self] at hcall
      obtain ⟨rfl, rfl⟩ := Cached.Call.mk.inj (Option.some.inj hcall)
      exact hfailed e rfl
    · rw [Function.update_of_ne hid] at hcall
      exact h.failed id' height' e hcall

theorem Inv.create (h : s.Inv fromStr parseDate formatDate cutoffHeight) {id height : ℕ}
    {w : Cached.World CollectBlock.Error}
    (hstep : Cached.step s.cached (.create id height) = some w) :
    Inv fromStr parseDate formatDate cutoffHeight { s with cached := w } := by
  obtain ⟨hnone, rfl⟩ := Cached.of_step_create hstep
  refine h.setCached hstep h.replies rfl (fun call hcall ↦ ?_) fun _ hphase ↦ by cases hphase
  obtain ⟨phase, hphase, -⟩ := h.asked id call hcall
  cases hnone.symm.trans hphase

theorem Inv.lookUp (h : s.Inv fromStr parseDate formatDate cutoffHeight) {id : ℕ}
    {w : Cached.World CollectBlock.Error} (hstep : Cached.step s.cached (.lookUp id) = some w) :
    Inv fromStr parseDate formatDate cutoffHeight { s with cached := w } := by
  obtain ⟨height, hcreated, ⟨block, hget, rfl⟩ | ⟨hget, rfl⟩⟩ := Cached.of_step_lookUp hstep
  · refine h.setCached hstep h.replies rfl (fun call hcall ↦ ?_) fun _ hphase ↦ by cases hphase
    exact absurd rfl (h.height_eq hcall hcreated).2
  · refine h.setCached hstep h.replies rfl (fun call hcall ↦ ?_) fun _ hphase ↦ by cases hphase
    exact absurd rfl (h.height_eq hcall hcreated).2

theorem Inv.store (h : s.Inv fromStr parseDate formatDate cutoffHeight) {id : ℕ}
    {w : Cached.World CollectBlock.Error} (hstep : Cached.step s.cached (.store id) = some w) :
    Inv fromStr parseDate formatDate cutoffHeight { s with cached := w } := by
  obtain ⟨height, block, hfetched, rfl⟩ := Cached.of_step_store hstep
  refine h.setCached hstep h.replies rfl (fun call hcall ↦ ?_) fun _ hphase ↦ by cases hphase
  exact ⟨(h.height_eq hcall hfetched).1, fun hphase ↦ by cases hphase⟩

/-- The cached source is told what the local source has returned. -/
theorem Inv.answer (h : s.Inv fromStr parseDate formatDate cutoffHeight) {id height : ℕ}
    {answer : CollectBlock.Answer} {result : Except CollectBlock.Error BlockAndReceipts}
    {w : Cached.World CollectBlock.Error}
    (hended : s.calls id = some ⟨height, .ended answer⟩) (hresult : answer.result = some result)
    (hstep : Cached.step s.cached (.reply id result) = some w) :
    Inv fromStr parseDate formatDate cutoffHeight { s with cached := w } := by
  obtain ⟨height', hasking, rfl⟩ := Cached.of_step_reply hstep
  obtain ⟨rfl, -⟩ := h.height_eq hended hasking
  have hcall := h.calls id _ hended
  refine h.setCached hstep ?_ rfl (fun call hcall' ↦ ⟨(h.height_eq hcall' hasking).1, ?_⟩) ?_
  · intro height b hb
    rcases List.mem_append.1 hb with hb | hb
    · exact h.replies height b hb
    · obtain ⟨rfl, rfl⟩ := Prod.mk.inj (List.mem_singleton.1 hb)
      rcases answer with b | - | - | - <;> cases hresult
      exact hcall
  · rcases result with e | b
    · exact fun hphase ↦ by cases hphase
    · exact fun hphase ↦ by cases hphase
  · intro e hphase
    rcases answer with b | - | - | - <;> cases hresult <;> cases hphase
    · exact hended
    · exact hended

/-- What a call of the local source has after a step of its own. -/
theorem Inv.callInv (h : s.Inv fromStr parseDate formatDate cutoffHeight)
    {action : CollectBlock.Action} {id : ℕ} {call : CollectBlock.Call}
    {lastFetch : CollectBlock.LastFetch} {answers : List (ℕ × Option BlockAndReceipts)}
    (hanswers : s.answers ⊆ answers)
    (hreply : ∀ answer height now, action = .reply id answer →
      s.calls id = some ⟨height, .asking now⟩ → (height, answer) ∈ answers)
    (hstep : CollectBlock.CallStep fromStr fallbackThreshold s.node action id (s.calls id) call
      lastFetch) : CallInv fromStr { s with answers := answers } call := by
  have hcall := h.calls id
  generalize s.calls id = before at hstep hcall hreply
  cases hstep with
  | @panics _ height _ hnone =>
    obtain ⟨r, cache', hsome, -⟩ := h.source.linked.tryCollectLocalBlock h.source.hour_files height
    cases hnone.symm.trans hsome
  | @finds _ height _ block cache hfinds =>
    obtain ⟨r, cache', hsome, -, hnumber, -⟩ :=
      h.source.linked.tryCollectLocalBlock h.source.hour_files height
    obtain ⟨rfl, rfl⟩ := Prod.mk.inj (Option.some.inj (hsome.symm.trans hfinds))
    exact Or.inl ⟨hnumber block rfl, (h.filled.cached.tryCollectLocalBlock hfinds).2 block rfl⟩
  | fails => exact hreply none _ _ rfl rfl
  | fetches => exact Or.inr (hreply _ _ _ rfl rfl)
  | updateFound => exact Genuine.mono (hcall _ rfl) (fun _ hb ↦ hb) hanswers
  | updateFetched => exact Genuine.mono (hcall _ rfl) (fun _ hb ↦ hb) hanswers
  | _ => trivial

/-- A call of the local source moves on. -/
theorem Inv.setNode (h : s.Inv fromStr parseDate formatDate cutoffHeight)
    {action : CollectBlock.Action} {w : CollectBlock.World}
    {answers : List (ℕ × Option BlockAndReceipts)} (hanswers : s.answers ⊆ answers)
    (hcaller : action.caller ≠ none)
    (hcreate : ∀ id height, action = .create id height →
      s.cached.calls id = some ⟨height, .asking⟩)
    (hreply : ∀ id answer height now, action = .reply id answer →
      s.calls id = some ⟨height, .asking now⟩ → (height, answer) ∈ answers)
    (hstep : CollectBlock.step fromStr fallbackThreshold s.node action = some w) :
    Inv fromStr parseDate formatDate cutoffHeight { s.setNode w with answers := answers } := by
  obtain ⟨hnone, -⟩ | ⟨id, call, hcalls, hcall⟩ := CollectBlock.step_cases hstep
  · exact absurd hnone hcaller
  replace hcalls : w.calls = Function.update s.calls id (some call) := hcalls
  have hmine : CallInv fromStr { s with answers := answers } call :=
    h.callInv hanswers (hreply id) hcall
  exact
    { source := by
        obtain hsame | ⟨height, r, hcollect⟩ := CollectBlock.cache_of_step hcaller hstep
        · show LocalSource.Invariant _ _ _ _ { s.source with cache := w.localBlocksCache }
          rw [hsame]
          exact h.source
        · exact h.source.collect hcollect
      filled := by
        obtain hsame | ⟨height, r, hcollect⟩ := CollectBlock.cache_of_step hcaller hstep
        · show LocalSource.Filled _ { s.source with cache := w.localBlocksCache }
          rw [hsame]
          exact h.filled
        · exact ⟨(h.filled.cached.tryCollectLocalBlock hcollect).1, h.filled.pending⟩
      cached := h.cached
      replies := fun height b hb ↦ (h.replies height b hb).mono (fun _ hb ↦ hb) hanswers
      calls := by
        intro id' call' hcall'
        replace hcall' : w.calls id' = some call' := hcall'
        rw [hcalls] at hcall'
        by_cases hid : id' = id
        · rw [hid, Function.update_self] at hcall'
          exact Option.some.inj hcall' ▸ hmine
        · rw [Function.update_of_ne hid] at hcall'
          exact (h.calls id' call' hcall').mono (fun _ hb ↦ hb) hanswers
      asked := by
        intro id' call' hcall'
        replace hcall' : w.calls id' = some call' := hcall'
        rw [hcalls] at hcall'
        by_cases hid : id' = id
        · rw [hid, Function.update_self] at hcall'
          obtain rfl := Option.some.inj hcall'
          obtain ⟨-, haction⟩ | ⟨phase, hbefore, -⟩ := hcall.before
          · exact ⟨.asking, hid ▸ hcreate id call.height haction, fun hphase ↦ by cases hphase⟩
          · exact hid ▸ h.asked id ⟨call.height, phase⟩ hbefore
        · rw [Function.update_of_ne hid] at hcall'
          exact h.asked id' call' hcall'
      failed := by
        intro id' height e hended
        have hcall' := h.failed id' height e hended
        show w.calls id' = _
        rw [hcalls]
        by_cases hid : id' = id
        · -- a call that has ended makes no step
          obtain ⟨hbefore, -⟩ | ⟨phase, hbefore, hne⟩ := hcall.before <;> rw [hid] at hcall'
          · cases hbefore.symm.trans hcall'
          · exact absurd (congrArg CollectBlock.Call.phase
              (Option.some.inj (hbefore.symm.trans hcall'))) (hne _)
        · rw [Function.update_of_ne hid]
          exact hcall' }

/-- **Every step keeps the invariant**, while dates are read as they are written. -/
theorem Inv.step (hparser : LineParser fromStr)
    (h : s.Inv fromStr parseDate formatDate cutoffHeight)
    (hdate : parseDate (formatDate (s.source.clock / oneHour / 24)) =
      some (s.source.clock / oneHour / 24))
    (hstep : Step fromStr parseDate formatDate cutoffHeight fallbackThreshold s s') :
    s'.Inv fromStr parseDate formatDate cutoffHeight := by
  cases hstep with
  | tick hclock =>
    exact h.background (h.source.tick hclock) ⟨h.filled.cached, h.filled.pending⟩ fun _ hb ↦ hb
  | write hgrows hcurrent =>
    exact h.background (h.source.write hdate hgrows hcurrent) (h.filled.write hgrows)
      fun _ hb ↦ hb.grows hgrows
  | proceed =>
    refine h.background (h.source.proceed hparser) h.filled.proceed fun b hb ↦ ?_
    rw [LocalSource.proceed_dir]
    exact hb
  | create _ hcreate => exact h.create hcreate
  | lookUp hlookUp => exact h.lookUp hlookUp
  | call hasking hcall =>
    refine h.setNode (List.Subset.refl _) (fun hcaller ↦ by cases hcaller) ?_ ?_ hcall
    · intro id height haction
      obtain ⟨rfl, rfl⟩ := CollectBlock.Action.create.inj haction
      exact hasking
    · intro id answer height now haction
      cases haction
  | turn hturn hown =>
    refine h.setNode (List.Subset.refl _) ?_ ?_ ?_ hturn
    · rintro hcaller
      cases ‹CollectBlock.Action› <;> first | exact hown | cases hcaller
    · rintro id height rfl
      exact hown.elim
    · rintro id answer height now rfl
      exact hown.elim
  | reply hasking hreply =>
    refine h.setNode (List.subset_append_left _ _) (fun hcaller ↦ by cases hcaller) ?_ ?_ hreply
    · intro id height haction
      cases haction
    · intro id answer height now haction hcall
      obtain ⟨rfl, rfl⟩ := CollectBlock.Action.reply.inj haction
      obtain ⟨rfl, -⟩ := CollectBlock.Call.mk.inj (Option.some.inj (hasking.symm.trans hcall))
      exact List.mem_append_right _ (List.mem_singleton_self _)
  | answer hended hresult hanswer => exact h.answer hended hresult hanswer
  | store hstore => exact h.store hstore

/-- The clock does not go back. -/
theorem Step.clock_le
    (h : Step fromStr parseDate formatDate cutoffHeight fallbackThreshold s s') :
    s.source.clock ≤ s'.source.clock := by
  cases h with
  | tick hclock => exact hclock
  | proceed => exact (LocalSource.proceed_clock s.source).ge
  | _ => exact le_rfl

/-- **So does every run.** -/
theorem Inv.run (hparser : LineParser fromStr)
    (h : s.Inv fromStr parseDate formatDate cutoffHeight)
    (hrun : Relation.ReflTransGen
      (Step fromStr parseDate formatDate cutoffHeight fallbackThreshold) s s')
    (hdates : ∀ day ≤ s'.source.clock / oneHour / 24, parseDate (formatDate day) = some day) :
    s'.Inv fromStr parseDate formatDate cutoffHeight := by
  induction hrun with
  | refl => exact h
  | @tail mid last _ hstep ih =>
    have hle : mid.source.clock / oneHour / 24 ≤ last.source.clock / oneHour / 24 :=
      Nat.div_le_div_right (Nat.div_le_div_right hstep.clock_le)
    exact (ih fun day hday ↦ hdates day (hday.trans hle)).step hparser (hdates _ hle) hstep

/-! ### The end of a call -/

variable (fromStr parseDate formatDate cutoffHeight fallbackThreshold) in
/-- A call can come to its end, with a result and with what the third source has answered then. -/
def Ends (s : SourceStack) (id height : ℕ)
    (Q : Except CollectBlock.Error BlockAndReceipts →
      List (ℕ × Option BlockAndReceipts) → Prop) : Prop :=
  ∃ s' result, Relation.ReflTransGen
      (Step fromStr parseDate formatDate cutoffHeight fallbackThreshold) s s' ∧
    s'.cached.calls id = some ⟨height, .ended result⟩ ∧ Q result s'.answers

section Ends

variable {id height : ℕ} {now : ℤ} {b : BlockAndReceipts} {answer : Option BlockAndReceipts}
  {Q : Except CollectBlock.Error BlockAndReceipts → List (ℕ × Option BlockAndReceipts) → Prop}

theorem Ends.head
    (hstep : Step fromStr parseDate formatDate cutoffHeight fallbackThreshold s s')
    (h : s'.Ends fromStr parseDate formatDate cutoffHeight fallbackThreshold id height Q) :
    s.Ends fromStr parseDate formatDate cutoffHeight fallbackThreshold id height Q := by
  obtain ⟨s'', result, hrun, hended, hQ⟩ := h
  exact ⟨s'', result, hrun.head hstep, hended, hQ⟩

theorem ends_of_fetched (hfetched : s.cached.calls id = some ⟨height, .fetched b⟩)
    (hQ : Q (.ok b) s.answers) :
    s.Ends fromStr parseDate formatDate cutoffHeight fallbackThreshold id height Q := by
  have hstep : Cached.step s.cached (.store id) = some ((s.cached.use
      (s.cached.cache.insert height b) height b).setCall id height (.ended (.ok b))) := by
    simp only [Cached.step, hfetched]
  exact ⟨_, .ok b, .single (.store hstep), Function.update_self _ _ _, hQ⟩

section Asking

variable (hasking : s.cached.calls id = some ⟨height, .asking⟩)

include hasking

theorem ends_of_ended {answer : CollectBlock.Answer}
    {result : Except CollectBlock.Error BlockAndReceipts}
    (hended : s.calls id = some ⟨height, .ended answer⟩) (hresult : answer.result = some result)
    (hQ : Q result s.answers) :
    s.Ends fromStr parseDate formatDate cutoffHeight fallbackThreshold id height Q := by
  have hstep : Cached.step s.cached (.reply id result) = some (Cached.World.setCall
      { s.cached with replies := s.cached.replies ++ [(height, result)] } id height
      (.told result)) := by
    simp only [Cached.step, hasking]
    cases result <;> rfl
  refine Ends.head (.answer hended hresult hstep) ?_
  rcases result with e | b
  · exact ⟨_, .error e, .refl, Function.update_self _ _ _, hQ⟩
  · exact ends_of_fetched (Function.update_self _ _ _) hQ

/-- A call of the local source makes a step of its own. -/
theorem ends_of_turn {action : CollectBlock.Action} {w : CollectBlock.World}
    {call : CollectBlock.Call}
    (hstep : CollectBlock.step fromStr fallbackThreshold s.node action = some w)
    (hown : action.IsOwn) (hcalls : w.calls = Function.update s.calls id (some call))
    (hnext : ∀ s' : SourceStack, s'.cached.calls id = some ⟨height, .asking⟩ →
      s'.calls id = some call → s'.answers = s.answers →
      s'.Ends fromStr parseDate formatDate cutoffHeight fallbackThreshold id height Q) :
    s.Ends fromStr parseDate formatDate cutoffHeight fallbackThreshold id height Q := by
  refine Ends.head (.turn hstep hown) (hnext _ hasking ?_ rfl)
  show w.calls id = some call
  rw [hcalls, Function.update_self]

/-- A block that was found, or that the third source gave, is returned. -/
theorem ends_of_block {phase : CollectBlock.Phase} (hcall : s.calls id = some ⟨height, phase⟩)
    (hphase : phase = .found now b ∨ phase = .fetched now b) (hQ : Q (.ok b) s.answers) :
    s.Ends fromStr parseDate formatDate cutoffHeight fallbackThreshold id height Q := by
  have hstep : CollectBlock.step fromStr fallbackThreshold s.node (.update id) =
      some (CollectBlock.World.setCall
        { s.node with lastLocalFetch := CollectBlock.updateLastFetch s.lastLocalFetch height now }
        id height (.ended (.ok b))) := by
    rcases hphase with rfl | rfl
    · simp only [CollectBlock.step, node, hcall]
    · simp only [CollectBlock.step, node, hcall]
  refine ends_of_turn hasking hstep trivial rfl fun s' hasking' hcall' hanswers ↦ ?_
  exact ends_of_ended hasking' hcall' rfl (hanswers ▸ hQ)

/-- The third source answers. -/
theorem ends_of_asking (hcall : s.calls id = some ⟨height, .asking now⟩)
    (hQ : Q (CollectBlock.replyResult answer) (s.answers ++ [(height, answer)])) :
    s.Ends fromStr parseDate formatDate cutoffHeight fallbackThreshold id height Q := by
  have hstep : CollectBlock.step fromStr fallbackThreshold s.node (.reply id answer) =
      some (s.node.setCall id height (answer.elim (.ended .failed) (.fetched now))) := by
    simp only [CollectBlock.step, node, hcall]
    cases answer <;> rfl
  refine Ends.head (.reply hcall hstep) ?_
  rcases answer with - | b
  · exact ends_of_ended hasking (Function.update_self _ _ _) rfl hQ
  · exact ends_of_block hasking (Function.update_self _ _ _) (Or.inr rfl) hQ

theorem ends_of_passed (hcall : s.calls id = some ⟨height, .passed now⟩)
    (hQ : Q (CollectBlock.replyResult answer) (s.answers ++ [(height, answer)])) :
    s.Ends fromStr parseDate formatDate cutoffHeight fallbackThreshold id height Q := by
  have hstep : CollectBlock.step fromStr fallbackThreshold s.node (.ask id) =
      some (s.node.setCall id height (.asking now)) := by
    simp only [CollectBlock.step, node, hcall]
  refine ends_of_turn hasking hstep trivial rfl fun s' hasking' hcall' hanswers ↦ ?_
  exact ends_of_asking hasking' hcall' (hanswers ▸ hQ)

/-- A call that found nothing is told to come back, or asks. -/
theorem ends_of_missed (hcall : s.calls id = some ⟨height, .missed now⟩)
    (hlimited : Q (.error .limited) s.answers)
    (hQ : Q (CollectBlock.replyResult answer) (s.answers ++ [(height, answer)])) :
    s.Ends fromStr parseDate formatDate cutoffHeight fallbackThreshold id height Q := by
  by_cases hlimit :
      CollectBlock.isLimited fallbackThreshold s.lastLocalFetch height now = true
  · have hstep : CollectBlock.step fromStr fallbackThreshold s.node (.check id) =
        some (s.node.setCall id height (.ended .limited)) := by
      simp only [CollectBlock.step, node, hcall]
      exact if_pos hlimit
    refine ends_of_turn hasking hstep trivial rfl fun s' hasking' hcall' hanswers ↦ ?_
    exact ends_of_ended hasking' hcall' rfl (hanswers ▸ hlimited)
  · have hstep : CollectBlock.step fromStr fallbackThreshold s.node (.check id) =
        some (s.node.setCall id height (.passed now)) := by
      simp only [CollectBlock.step, node, hcall]
      exact if_neg hlimit
    refine ends_of_turn hasking hstep trivial rfl fun s' hasking' hcall' hanswers ↦ ?_
    exact ends_of_passed hasking' hcall' (hanswers ▸ hQ)

section LookUp

variable {r : Option BlockAndReceipts} {cache' : LocalBlocksCache}
  (hlookup : tryCollectLocalBlock fromStr s.source.dir s.source.cache height = some (r, cache'))
  (hfound : ∀ b ∈ r, Q (.ok b) s.answers)
  (hmissed : r = none → Q (.error .limited) s.answers ∧
    Q (CollectBlock.replyResult answer) (s.answers ++ [(height, answer)]))

include hlookup hfound hmissed

/-- The block is found in a file or not. -/
theorem ends_of_reading (hcall : s.calls id = some ⟨height, .reading now⟩) :
    s.Ends fromStr parseDate formatDate cutoffHeight fallbackThreshold id height Q := by
  rcases r with - | b
  · have hstep : CollectBlock.step fromStr fallbackThreshold s.node (.lookUp id) =
        some (CollectBlock.World.setCall { s.node with localBlocksCache := cache' } id height
          (.missed now)) := by
      simp only [CollectBlock.step, node, hcall, hlookup]
    obtain ⟨hlimited, hQ⟩ := hmissed rfl
    refine ends_of_turn hasking hstep trivial rfl fun s' hasking' hcall' hanswers ↦ ?_
    exact ends_of_missed hasking' hcall' (hanswers ▸ hlimited) (hanswers ▸ hQ)
  · have hstep : CollectBlock.step fromStr fallbackThreshold s.node (.lookUp id) =
        some (CollectBlock.World.setCall { s.node with localBlocksCache := cache' } id height
          (.found now b)) := by
      simp only [CollectBlock.step, node, hcall, hlookup]
    refine ends_of_turn hasking hstep trivial rfl fun s' hasking' hcall' hanswers ↦ ?_
    exact ends_of_block hasking' hcall' (Or.inl rfl) (hanswers ▸ hfound b rfl)

theorem ends_of_begun (hcall : s.calls id = some ⟨height, .created⟩) :
    s.Ends fromStr parseDate formatDate cutoffHeight fallbackThreshold id height Q := by
  have hstep : CollectBlock.step fromStr fallbackThreshold s.node (.readClock id 0) =
      some (s.node.setCall id height (.reading 0)) := by
    simp only [CollectBlock.step, node, hcall]
  refine Ends.head (.turn hstep trivial) ?_
  exact ends_of_reading hasking hlookup hfound hmissed (Function.update_self _ _ _)

theorem ends_of_not_called (hcall : s.calls id = none) :
    s.Ends fromStr parseDate formatDate cutoffHeight fallbackThreshold id height Q := by
  have hstep : CollectBlock.step fromStr fallbackThreshold s.node (.create id height) =
      some (s.node.setCall id height .created) := by
    simp only [CollectBlock.step, node, hcall, Option.isNone_none, if_true]
  refine Ends.head (.call hasking hstep) ?_
  exact ends_of_begun hasking hlookup hfound hmissed (Function.update_self _ _ _)

end LookUp

end Asking

variable (answer) in
/-- The height is in memory, or the local source is asked. -/
theorem ends_of_created {r : Option BlockAndReceipts} {cache' : LocalBlocksCache}
    (hcreated : s.cached.calls id = some ⟨height, .created⟩) (hcall : s.calls id = none)
    (hhit : ∀ b, s.cached.cache.get height = some b → Q (.ok b) s.answers)
    (hlookup : tryCollectLocalBlock fromStr s.source.dir s.source.cache height = some (r, cache'))
    (hfound : ∀ b ∈ r, Q (.ok b) s.answers)
    (hmissed : r = none → Q (.error .limited) s.answers ∧
      Q (CollectBlock.replyResult answer) (s.answers ++ [(height, answer)])) :
    s.Ends fromStr parseDate formatDate cutoffHeight fallbackThreshold id height Q := by
  rcases hget : s.cached.cache.get height with - | b
  · refine Ends.head (.lookUp (Cached.step_lookUp_of_get_none hcreated hget)) ?_
    exact ends_of_not_called (Function.update_self _ _ _) hlookup hfound hmissed hcall
  · exact ⟨_, .ok b, .single (.lookUp (Cached.step_lookUp_of_get hcreated hget)),
      Function.update_self _ _ _, hhit b hget⟩

end Ends

/-- **Every call can come to its end**, and asks the third source at most once for that. -/
theorem Inv.ends (h : s.Inv fromStr parseDate formatDate cutoffHeight) {id height : ℕ}
    {phase : Cached.Phase CollectBlock.Error} (hcached : s.cached.calls id = some ⟨height, phase⟩)
    (answer : Option BlockAndReceipts) :
    s.Ends fromStr parseDate formatDate cutoffHeight fallbackThreshold id height
      fun _ answers ↦ answers = s.answers ∨ answers = s.answers ++ [(height, answer)] := by
  obtain ⟨r, cache', hlookup, -⟩ :=
    h.source.linked.tryCollectLocalBlock h.source.hour_files height
  rcases phase with - | - | b | result
  · refine ends_of_created answer hcached ?_ (fun _ _ ↦ Or.inl rfl) hlookup
      (fun _ _ ↦ Or.inl rfl) fun _ ↦ ⟨Or.inl rfl, Or.inr rfl⟩
    rcases hcall : s.calls id with - | call
    · rfl
    · exact absurd rfl (h.height_eq hcall hcached).2
  · rcases hcall : s.calls id with - | ⟨height', phase⟩
    · exact ends_of_not_called hcached hlookup (fun _ _ ↦ Or.inl rfl)
        (fun _ ↦ ⟨Or.inl rfl, Or.inr rfl⟩) hcall
    obtain ⟨rfl, -⟩ := h.height_eq hcall hcached
    rcases phase with - | now | ⟨now, b⟩ | now | now | now | ⟨now, b⟩ | answer'
    · exact ends_of_begun hcached hlookup (fun _ _ ↦ Or.inl rfl)
        (fun _ ↦ ⟨Or.inl rfl, Or.inr rfl⟩) hcall
    · exact ends_of_reading hcached hlookup (fun _ _ ↦ Or.inl rfl)
        (fun _ ↦ ⟨Or.inl rfl, Or.inr rfl⟩) hcall
    · exact ends_of_block hcached hcall (Or.inl rfl) (Or.inl rfl)
    · exact ends_of_missed hcached hcall (Or.inl rfl) (Or.inr rfl)
    · exact ends_of_passed hcached hcall (Or.inr rfl)
    · exact ends_of_asking hcached hcall (Or.inr rfl)
    · exact ends_of_block hcached hcall (Or.inr rfl) (Or.inl rfl)
    · rcases answer' with b | - | - | -
      · exact ends_of_ended hcached hcall rfl (Or.inl rfl)
      · exact ends_of_ended hcached hcall rfl (Or.inl rfl)
      · exact ends_of_ended hcached hcall rfl (Or.inl rfl)
      · exact (h.calls id _ hcall).elim
  · exact ends_of_fetched hcached (Or.inl rfl)
  · exact ⟨s, result, .refl, hcached, Or.inl rfl⟩

/-- **A block that the task has read is returned without asking the third source**, if its file is
not so large that loading it evicts the block again. -/
theorem Inv.served (h : s.Inv fromStr parseDate formatDate cutoffHeight) {id height : ℕ}
    (hcreated : s.cached.calls id = some ⟨height, .created⟩) {path : HourPath} {text : List Char}
    (hread : s.source.read path = some text)
    (hpending : ∀ scanResult ∈ s.source.phase.pending, scanResult.path ≠ path)
    (hcutoff : cutoffHeight ≤ height) (hheight : HasHeight fromStr text height)
    (hroom : ∀ path content, s.source.cache.getPathForHeight height = some path →
      s.source.dir.contents path = some content →
      distinctHeightsAfter fromStr content height < cacheSize) :
    s.Ends fromStr parseDate formatDate cutoffHeight fallbackThreshold id height
      fun result answers ↦ (∃ b, result = .ok b) ∧ answers = s.answers := by
  obtain ⟨path', content, hpath, hcontent, -, r, cache', hlookup, hiff, -⟩ :=
    h.source.serves hread hpending hcutoff hheight
  have hsome : r.isSome := hiff.2 (Or.inr (hroom path' content hpath hcontent))
  refine ends_of_created none hcreated ?_ (fun b _ ↦ ⟨⟨b, rfl⟩, rfl⟩) hlookup
    (fun b _ ↦ ⟨⟨b, rfl⟩, rfl⟩) fun hnone ↦ ?_
  · rcases hcall : s.calls id with - | call
    · rfl
    · exact absurd rfl (h.height_eq hcall hcreated).2
  · rw [hnone] at hsome
    cases hsome

/-! ### What the callers have -/

variable (fromStr parseDate formatDate cutoffHeight fallbackThreshold) in
/-- What the callers of the sources have. -/
structure Implements (s : SourceStack) : Prop where
  /-- Nothing panics. -/
  noPanic : s.source.phase ≠ .panicked ∧ ∀ id height, s.calls id ≠ some ⟨height, .ended .panic⟩
  /-- A block is a block of a file under its own height, or an answer of the third source. -/
  block : ∀ id height b, s.cached.calls id = some ⟨height, .ended (.ok b)⟩ →
    s.Genuine fromStr height b
  /-- So is a block in memory. -/
  memory : ∀ height b, s.cached.cache.get height = some b → s.Genuine fromStr height b
  /-- An error is that of the call of the local source: the call is told to come back, or the third
  source has failed. -/
  error : ∀ id height e, s.cached.calls id = some ⟨height, .ended (.error e)⟩ →
    s.calls id = some ⟨height, .ended e.answer⟩ ∧
      (e = .limited ∨ e = .failed ∧ (height, none) ∈ s.answers)
  /-- There is one block for every height, if the files and the third source have one. -/
  chain : ∀ chain, s.Holds fromStr chain → ∀ id height b,
    s.cached.calls id = some ⟨height, .ended (.ok b)⟩ → b = chain height
  /-- Every call can come to its end, and asks the third source at most once for that. -/
  ends : ∀ id height phase answer, s.cached.calls id = some ⟨height, phase⟩ →
    s.Ends fromStr parseDate formatDate cutoffHeight fallbackThreshold id height
      fun _ answers ↦ answers = s.answers ∨ answers = s.answers ++ [(height, answer)]
  /-- A block that the task has read from a file is returned without asking the third source. -/
  served : ∀ id height path text, s.cached.calls id = some ⟨height, .created⟩ →
    s.source.read path = some text →
    (∀ scanResult ∈ s.source.phase.pending, scanResult.path ≠ path) →
    cutoffHeight ≤ height → HasHeight fromStr text height →
    (∀ path content, s.source.cache.getPathForHeight height = some path →
      s.source.dir.contents path = some content →
      distinctHeightsAfter fromStr content height < cacheSize) →
    s.Ends fromStr parseDate formatDate cutoffHeight fallbackThreshold id height
      fun result answers ↦ (∃ b, result = .ok b) ∧ answers = s.answers

/-- A block of a chain that the files and the third source hold. -/
theorem Genuine.eq_chain {height : ℕ} {b : BlockAndReceipts} (h : s.Genuine fromStr height b)
    {chain : ℕ → BlockAndReceipts} (hholds : s.Holds fromStr chain) : b = chain height := by
  rcases h with ⟨rfl, hfile⟩ | hanswer
  · exact hholds.files b hfile
  · exact hholds.answers height b hanswer

theorem Inv.implements (h : s.Inv fromStr parseDate formatDate cutoffHeight) :
    s.Implements fromStr parseDate formatDate cutoffHeight fallbackThreshold where
  noPanic := by
    refine ⟨fun hpanicked ↦ ?_, fun id height hcall ↦ h.calls id _ hcall⟩
    have hphase := h.source.phase
    rw [hpanicked] at hphase
    exact hphase
  block := fun id height b hcall ↦ h.replies height b (h.cached.calls id _ hcall)
  memory := fun height b hget ↦ h.replies height b (h.cached.of_get hget)
  error := by
    intro id height e hcall
    have hended := h.failed id height e hcall
    refine ⟨hended, ?_⟩
    cases e with
    | limited => exact Or.inl rfl
    | failed => exact Or.inr ⟨rfl, h.calls id ⟨height, .ended .failed⟩ hended⟩
  chain := fun chain hholds id height b hcall ↦
    (h.replies height b (h.cached.calls id _ hcall)).eq_chain hholds
  ends := fun id height phase answer hcall ↦ h.ends hcall answer
  served := fun id height path text hcreated hread hpending hcutoff hheight hroom ↦
    h.served hcreated hread hpending hcutoff hheight hroom

/-- The task alone. -/
theorem runs_proceed {s : SourceStack} {source' : LocalSource} {n : ℕ}
    (h : (LocalSource.proceed fromStr parseDate formatDate cutoffHeight)^[n] s.source = source') :
    Relation.ReflTransGen (Step fromStr parseDate formatDate cutoffHeight fallbackThreshold) s
      { s with source := source' } := by
  induction n generalizing source' with
  | zero =>
    obtain rfl : s.source = source' := h
    exact .refl
  | succ n ih =>
    rw [Function.iterate_succ_apply'] at h
    obtain rfl := h
    exact (ih rfl).tail .proceed

end Stack

end SourceStack

open SourceStack

/-- **The sources on top of each other** do for their callers what a source should, in every run
from the start. -/
theorem sources_implement {fromStr : List Char → Option BlockAndReceipts}
    {parseDate : String → Option ℕ} {formatDate : ℕ → String} (hparser : LineParser fromStr)
    {clock : ℕ} {dir : HourlyDir} (hfiles : HourFiles fromStr dir)
    (htimely : ∀ file ∈ timedFiles parseDate dir, file.1.1 * 24 + file.1.2 ≤ clock / oneHour)
    (cutoffHeight fallbackThreshold : ℕ) {s : SourceStack}
    (hrun : Relation.ReflTransGen
      (Step fromStr parseDate formatDate cutoffHeight fallbackThreshold)
      (start parseDate clock dir) s)
    (hdates : ∀ day ≤ s.source.clock / oneHour / 24, parseDate (formatDate day) = some day) :
    s.Implements fromStr parseDate formatDate cutoffHeight fallbackThreshold :=
  ((inv_start hfiles htimely).run hparser hrun hdates).implements

/-- The file of the first hour has the blocks of a chain, and a call for one of them, made after the
backfill, can end with a block before the third source has answered anything. -/
theorem sources_implement_firstHour :
    ∃ s s' : SourceStack, Relation.ReflTransGen (Step emptyBlockFromStr parseFirstDay firstDay 5 0)
        (start parseFirstDay 1 firstHourDir) s ∧
      s.Holds emptyBlockFromStr emptyBlock ∧ s.cached.calls 1 = some ⟨5, .created⟩ ∧
      Relation.ReflTransGen (Step emptyBlockFromStr parseFirstDay firstDay 5 0) s s' ∧
      (∃ b, s'.cached.calls 1 = some ⟨5, .ended (.ok b)⟩) ∧ s'.answers = [] := by
  have htimely := timely_firstHourDir 1
  have hinv := @LocalSource.invariant_start emptyBlockFromStr parseFirstDay firstDay 5 1
    firstHourDir hourFiles_firstHourDir htimely
  obtain ⟨source, ⟨⟨n, hn⟩, -, hclock, hdir⟩, hphase, -, hread⟩ :=
    LocalSource.reaches_search lineParser_emptyBlockFromStr hinv rfl
  -- the call comes after the backfill
  have hready : source.phase.IsReady := by
    rw [hphase]
    trivial
  have hcreate : Cached.step (.new : Cached.World CollectBlock.Error) (.create 1 5) =
      some (Cached.World.new.setCall 1 5 .created) :=
    rfl
  have hrun : Relation.ReflTransGen (Step emptyBlockFromStr parseFirstDay firstDay 5 0)
      (start parseFirstDay 1 firstHourDir) _ := (runs_proceed hn).tail (.create hready hcreate)
  have hdates : ∀ day ≤ source.clock / oneHour / 24, parseFirstDay (firstDay day) = some day :=
    hclock ▸ parseFirstDay_firstDay (by decide)
  have himplements := sources_implement lineParser_emptyBlockFromStr hourFiles_firstHourDir htimely
    5 0 hrun hdates
  have hblocks := fileBlocks_emptyBlockFile (show ∀ n ∈ [5, 6], n < 10 by decide)
  have hroom : ∀ path content, source.cache.getPathForHeight 5 = some path →
      source.dir.contents path = some content →
      distinctHeightsAfter emptyBlockFromStr content 5 < cacheSize := by
    intro path content _ hcontent
    rw [hdir] at hcontent
    rw [(contents_firstHourDir hcontent).2, distinctHeightsAfter, hblocks]
    decide
  obtain ⟨s', result, hrun', hended, ⟨b, rfl⟩, hanswers⟩ := himplements.served 1 5 _ _ rfl
    ((hread _ (Or.inr mem_allHourlyFiles_firstHourDir)).trans rfl)
    (fun scanResult hscan ↦ by rw [hphase] at hscan; cases hscan) le_rfl hasHeight_firstHour hroom
  refine ⟨_, s', hrun, ⟨fun b hb ↦ ?_, fun _ _ hb ↦ absurd hb List.not_mem_nil⟩, rfl, hrun',
    ⟨b, hended⟩, hanswers⟩
  obtain ⟨path, content, hcontent, hmem⟩ := hb
  replace hcontent : source.dir.contents path = some content := hcontent
  rw [hdir] at hcontent
  rw [(contents_firstHourDir hcontent).2, hblocks] at hmem
  obtain ⟨n, -, rfl⟩ := List.mem_map.1 hmem
  rfl

end RethHl.PseudoPeer
