import Mathlib.Logic.Function.Basic
import Mathlib.Order.Bounds.Basic
import RethHl.PseudoPeer.HlNode.Cache
import RethHl.Semantics.Machine

/-!
# Concurrent calls, and the other source

A call of `collectBlock` reads the clock, looks the block up locally, and on a miss asks another
source, unless the record of the last fetch says that it is too soon for that. It takes a lock for
each of these steps and lets go of it in between, so the steps of many calls interleave, and the
clock that a call has read may be older than a record that it meets.

`World` is the shared state with all calls that there are, each in its `Phase`, and `step` takes one
action: a step of one call, the beginning of a new one, or a change from outside of what is found
locally. The answers of the other source and the readings of the clock are part of the actions, so a
list of actions is one interleaving with all that comes from outside.

`CallStep` says what an action can do, and every property of the runs comes from it. The record
always has the greatest height of the calls that updated it, and every call that asks the other
source has passed its check (`collectBlock_interleaved`).
-/

namespace RethHl.HlNode.CollectBlock

/-- The height and the time of the last fetch. -/
abbrev LastFetch := Option (ℕ × ℤ)

/-- `HlNodeBlockSource::update_last_fetch`, under its lock. -/
def updateLastFetch (lastFetch : LastFetch) (height : ℕ) (now : ℤ) : LastFetch :=
  if lastFetch.all fun last ↦ last.1 < height then some (height, now) else lastFetch

/-- The check before the other source is asked: whether the call is told to come back later. -/
def isLimited (fallbackThreshold : ℕ) (lastFetch : LastFetch) (height : ℕ) (now : ℤ) : Bool :=
  match lastFetch with
  | none => false
  | some (lastHeight, lastPollTime) =>
    let moreRecent := lastHeight < height
    let tooSoon := now - lastPollTime < fallbackThreshold
    moreRecent && tooSoon

/-- What a call returns. -/
inductive Answer where
  | ok (block : BlockAndReceipts)
  /-- Not found locally; limiting the polling rate. -/
  | limited
  /-- The error of the other source. -/
  | failed
  | panic
  deriving DecidableEq

/-- How far a call is, with what it has read. -/
inductive Phase where
  | created
  | reading (now : ℤ)
  | found (now : ℤ) (block : BlockAndReceipts)
  | missed (now : ℤ)
  | passed (now : ℤ)
  | asking (now : ℤ)
  | fetched (now : ℤ) (block : BlockAndReceipts)
  | ended (answer : Answer)
  deriving DecidableEq

/-- A call of `collectBlock`. -/
structure Call where
  height : ℕ
  phase : Phase
  deriving DecidableEq

/-- What the calls share, and the calls. -/
structure World where
  lastLocalFetch : LastFetch
  localBlocksCache : LocalBlocksCache
  dir : HourlyDir
  calls : ℕ → Option Call

/-- What can happen next. -/
inductive Action where
  | outside (dir : HourlyDir) (cache : LocalBlocksCache)
  | create (id height : ℕ)
  | readClock (id : ℕ) (now : ℤ)
  | lookUp (id : ℕ)
  | check (id : ℕ)
  | ask (id : ℕ)
  | reply (id : ℕ) (block : Option BlockAndReceipts)
  | update (id : ℕ)

/-- The call whose step an action is. -/
def Action.caller : Action → Option ℕ
  | outside _ _ => none
  | create id _ | readClock id _ | lookUp id | check id | ask id | reply id _ | update id => some id

/-- A call in its next phase. -/
def World.setCall (w : World) (id height : ℕ) (phase : Phase) : World :=
  { w with calls := Function.update w.calls id (some ⟨height, phase⟩) }

section Step

variable (fromStr : List Char → Option BlockAndReceipts) (fallbackThreshold : ℕ)

/-- One action of `HlNodeBlockSource::collect_block`, or from outside. -/
def step (w : World) : Action → Option World
  | .outside dir cache => some { w with dir := dir, localBlocksCache := cache }
  | .create id height => if (w.calls id).isNone then some (w.setCall id height .created) else none
  | .readClock id now =>
    match w.calls id with
    | some ⟨height, .created⟩ => some (w.setCall id height (.reading now))
    | _ => none
  | .lookUp id =>
    match w.calls id with
    | some ⟨height, .reading now⟩ =>
      match tryCollectLocalBlock fromStr w.dir w.localBlocksCache height with
      | none => some (w.setCall id height (.ended .panic))
      | some (some block, cache) =>
        some (World.setCall { w with localBlocksCache := cache } id height (.found now block))
      | some (none, cache) =>
        some (World.setCall { w with localBlocksCache := cache } id height (.missed now))
    | _ => none
  | .check id =>
    match w.calls id with
    | some ⟨height, .missed now⟩ =>
      if isLimited fallbackThreshold w.lastLocalFetch height now then
        some (w.setCall id height (.ended .limited))
      else some (w.setCall id height (.passed now))
    | _ => none
  | .ask id =>
    match w.calls id with
    | some ⟨height, .passed now⟩ => some (w.setCall id height (.asking now))
    | _ => none
  | .reply id block =>
    match w.calls id with
    | some ⟨height, .asking now⟩ =>
      match block with
      | none => some (w.setCall id height (.ended .failed))
      | some block => some (w.setCall id height (.fetched now block))
    | _ => none
  | .update id =>
    match w.calls id with
    | some ⟨height, .found now block⟩ | some ⟨height, .fetched now block⟩ =>
      some (World.setCall { w with lastLocalFetch := updateLastFetch w.lastLocalFetch height now }
        id height (.ended (.ok block)))
    | _ => none

/-- What an action does to the call that takes it, and to the record. -/
inductive CallStep (w : World) : Action → ℕ → Option Call → Call → LastFetch → Prop
  | create {id height : ℕ} :
    CallStep w (.create id height) id none ⟨height, .created⟩ w.lastLocalFetch
  | readClock {id height : ℕ} {now : ℤ} :
    CallStep w (.readClock id now) id (some ⟨height, .created⟩) ⟨height, .reading now⟩
      w.lastLocalFetch
  | panics {id height : ℕ} {now : ℤ}
    (h : tryCollectLocalBlock fromStr w.dir w.localBlocksCache height = none) :
    CallStep w (.lookUp id) id (some ⟨height, .reading now⟩) ⟨height, .ended .panic⟩
      w.lastLocalFetch
  | finds {id height : ℕ} {now : ℤ} {block : BlockAndReceipts} {cache : LocalBlocksCache}
    (h : tryCollectLocalBlock fromStr w.dir w.localBlocksCache height =
      some (some block, cache)) :
    CallStep w (.lookUp id) id (some ⟨height, .reading now⟩) ⟨height, .found now block⟩
      w.lastLocalFetch
  | misses {id height : ℕ} {now : ℤ} {cache : LocalBlocksCache}
    (h : tryCollectLocalBlock fromStr w.dir w.localBlocksCache height = some (none, cache)) :
    CallStep w (.lookUp id) id (some ⟨height, .reading now⟩) ⟨height, .missed now⟩
      w.lastLocalFetch
  | limits {id height : ℕ} {now : ℤ}
    (h : isLimited fallbackThreshold w.lastLocalFetch height now = true) :
    CallStep w (.check id) id (some ⟨height, .missed now⟩) ⟨height, .ended .limited⟩
      w.lastLocalFetch
  | passes {id height : ℕ} {now : ℤ}
    (h : isLimited fallbackThreshold w.lastLocalFetch height now = false) :
    CallStep w (.check id) id (some ⟨height, .missed now⟩) ⟨height, .passed now⟩ w.lastLocalFetch
  | ask {id height : ℕ} {now : ℤ} :
    CallStep w (.ask id) id (some ⟨height, .passed now⟩) ⟨height, .asking now⟩ w.lastLocalFetch
  | fails {id height : ℕ} {now : ℤ} :
    CallStep w (.reply id none) id (some ⟨height, .asking now⟩) ⟨height, .ended .failed⟩
      w.lastLocalFetch
  | fetches {id height : ℕ} {now : ℤ} {block : BlockAndReceipts} :
    CallStep w (.reply id (some block)) id (some ⟨height, .asking now⟩)
      ⟨height, .fetched now block⟩ w.lastLocalFetch
  | updateFound {id height : ℕ} {now : ℤ} {block : BlockAndReceipts} :
    CallStep w (.update id) id (some ⟨height, .found now block⟩) ⟨height, .ended (.ok block)⟩
      (updateLastFetch w.lastLocalFetch height now)
  | updateFetched {id height : ℕ} {now : ℤ} {block : BlockAndReceipts} :
    CallStep w (.update id) id (some ⟨height, .fetched now block⟩) ⟨height, .ended (.ok block)⟩
      (updateLastFetch w.lastLocalFetch height now)

variable {fromStr fallbackThreshold}

/-- **What one action can do.** -/
theorem step_cases {w w' : World} {action : Action}
    (h : step fromStr fallbackThreshold w action = some w') :
    (action.caller = none ∧ w'.calls = w.calls ∧ w'.lastLocalFetch = w.lastLocalFetch) ∨
      ∃ id call, w'.calls = Function.update w.calls id (some call) ∧
        CallStep fromStr fallbackThreshold w action id (w.calls id) call w'.lastLocalFetch := by
  -- every branch of `step` with a result is one constructor
  cases action with
  | outside dir cache =>
    obtain rfl := Option.some.inj h
    exact .inl ⟨rfl, rfl, rfl⟩
  | create id height =>
    right
    simp only [step] at h
    split_ifs at h with hnone
    obtain rfl := Option.some.inj h
    refine ⟨id, _, rfl, ?_⟩
    rw [Option.isNone_iff_eq_none.1 hnone]
    exact .create
  | readClock id now =>
    right
    simp only [step] at h
    split at h
    next height hcall =>
      obtain rfl := Option.some.inj h
      exact ⟨id, _, rfl, hcall ▸ .readClock⟩
    next => cases h
  | lookUp id =>
    right
    simp only [step] at h
    split at h
    next height now hcall =>
      split at h
      next hlookup =>
        obtain rfl := Option.some.inj h
        exact ⟨id, _, rfl, hcall ▸ .panics hlookup⟩
      next block cache hlookup =>
        obtain rfl := Option.some.inj h
        exact ⟨id, _, rfl, hcall ▸ .finds hlookup⟩
      next cache hlookup =>
        obtain rfl := Option.some.inj h
        exact ⟨id, _, rfl, hcall ▸ .misses hlookup⟩
    next => cases h
  | check id =>
    right
    simp only [step] at h
    split at h
    next height now hcall =>
      split_ifs at h with hlimited
      · obtain rfl := Option.some.inj h
        exact ⟨id, _, rfl, hcall ▸ .limits hlimited⟩
      · obtain rfl := Option.some.inj h
        exact ⟨id, _, rfl, hcall ▸ .passes (Bool.eq_false_iff.2 hlimited)⟩
    next => cases h
  | ask id =>
    right
    simp only [step] at h
    split at h
    next height now hcall =>
      obtain rfl := Option.some.inj h
      exact ⟨id, _, rfl, hcall ▸ .ask⟩
    next => cases h
  | reply id block =>
    right
    simp only [step] at h
    split at h
    next height now hcall =>
      rcases block with - | block
      · obtain rfl := Option.some.inj h
        exact ⟨id, _, rfl, hcall ▸ .fails⟩
      · obtain rfl := Option.some.inj h
        exact ⟨id, _, rfl, hcall ▸ .fetches⟩
    next => cases h
  | update id =>
    right
    simp only [step] at h
    split at h
    next height now block hcall =>
      obtain rfl := Option.some.inj h
      exact ⟨id, _, rfl, hcall ▸ .updateFound⟩
    next height now block hcall =>
      obtain rfl := Option.some.inj h
      exact ⟨id, _, rfl, hcall ▸ .updateFetched⟩
    next => cases h

end Step

/-! ### The record -/

/-- The record after an update has the greater one of the two heights. -/
theorem updateLastFetch_spec (lastFetch : LastFetch) (height : ℕ) (now : ℤ) :
    ∃ last, updateLastFetch lastFetch height now = some last ∧ height ≤ last.1 ∧
      (∀ before ∈ lastFetch, before.1 ≤ last.1) ∧
      (last.1 = height ∨ ∃ before ∈ lastFetch, before.1 = last.1) := by
  rcases lastFetch with - | last
  · exact ⟨(height, now), rfl, Nat.le_refl _, by simp, .inl rfl⟩
  · by_cases hlt : last.1 < height
    · refine ⟨(height, now), if_pos (decide_eq_true hlt), Nat.le_refl _, ?_, .inl rfl⟩
      intro before hbefore
      obtain rfl := Option.mem_some_iff.1 hbefore
      exact Nat.le_of_lt hlt
    · refine ⟨last, if_neg (by simpa using hlt), Nat.not_lt.1 hlt, ?_, .inr ⟨last, rfl, rfl⟩⟩
      intro before hbefore
      obtain rfl := Option.mem_some_iff.1 hbefore
      exact Nat.le_refl _

/-- The height of the record has not gone down. -/
def NotBelow (lastFetch lastFetch' : LastFetch) : Prop :=
  ∀ last ∈ lastFetch, ∃ last' ∈ lastFetch', last.1 ≤ last'.1

theorem NotBelow.refl (lastFetch : LastFetch) : NotBelow lastFetch lastFetch :=
  fun last hlast ↦ ⟨last, hlast, Nat.le_refl _⟩

theorem NotBelow.trans {r₁ r₂ r₃ : LastFetch} (h₁₂ : NotBelow r₁ r₂) (h₂₃ : NotBelow r₂ r₃) :
    NotBelow r₁ r₃ := by
  intro last hlast
  obtain ⟨last', hlast', hle⟩ := h₁₂ last hlast
  obtain ⟨last'', hlast'', hle'⟩ := h₂₃ last' hlast'
  exact ⟨last'', hlast'', hle.trans hle'⟩

section Runs

variable {fromStr : List Char → Option BlockAndReceipts} {fallbackThreshold : ℕ}

theorem CallStep.caller {w : World} {action : Action} {id : ℕ} {before : Option Call} {call : Call}
    {lastFetch : LastFetch}
    (h : CallStep fromStr fallbackThreshold w action id before call lastFetch) :
    action.caller = some id := by
  cases h <;> rfl

/-- Only an update changes the record, and then to a height that is not lower. -/
theorem CallStep.record {w : World} {action : Action} {id : ℕ} {before : Option Call} {call : Call}
    {lastFetch : LastFetch}
    (h : CallStep fromStr fallbackThreshold w action id before call lastFetch) :
    (action ≠ .update id ∧ lastFetch = w.lastLocalFetch) ∨
      ∃ now, action = .update id ∧
        lastFetch = updateLastFetch w.lastLocalFetch call.height now := by
  cases h with
  | updateFound => exact .inr ⟨_, rfl, rfl⟩
  | updateFetched => exact .inr ⟨_, rfl, rfl⟩
  | _ => exact .inl ⟨nofun, rfl⟩

/-- The record never goes down. -/
theorem notBelow_of_step {w w' : World} {action : Action}
    (h : step fromStr fallbackThreshold w action = some w') :
    NotBelow w.lastLocalFetch w'.lastLocalFetch := by
  rcases step_cases h with ⟨-, -, hrecord⟩ | ⟨id, call, -, hcall⟩
  · rw [hrecord]
    exact .refl _
  · rcases hcall.record with ⟨-, hrecord⟩ | ⟨now, -, hrecord⟩
    · rw [hrecord]
      exact .refl _
    · obtain ⟨last, hlast, -, hle, -⟩ :=
        updateLastFetch_spec w.lastLocalFetch call.height now
      rw [hrecord, hlast]
      exact fun before hbefore ↦ ⟨last, rfl, hle before hbefore⟩

theorem notBelow_of_run {w w' : World} {actions : List Action}
    (h : Machine.run (step fromStr fallbackThreshold) w actions = some w') :
    NotBelow w.lastLocalFetch w'.lastLocalFetch :=
  Machine.run_stable (P := fun w₁ ↦ NotBelow w.lastLocalFetch w₁.lastLocalFetch)
    (fun _ _ _ hbelow hstep ↦ hbelow.trans (notBelow_of_step hstep)) (.refl _) h

/-! ### What a call has done so far -/

/-- The phases of calls that have not asked the other source. -/
def Phase.beforeAsk : Phase → Bool
  | created | reading _ | found _ _ | missed _ | passed _ => true
  | ended .limited | ended .panic => true
  | asking _ | fetched _ _ | ended (.ok _) | ended .failed => false

/-- The phases of calls that have not updated the record. -/
def Phase.beforeUpdate : Phase → Bool
  | ended (.ok _) => false
  | _ => true

/-- Nothing is recorded, or a height that is not below, or a time that is long enough ago. -/
def MayAsk (fallbackThreshold : ℕ) (lastFetch : LastFetch) (height : ℕ) (now : ℤ) : Prop :=
  ∀ last ∈ lastFetch, height ≤ last.1 ∨ fallbackThreshold ≤ now - last.2

theorem mayAsk_of_not_isLimited {lastFetch : LastFetch} {height : ℕ} {now : ℤ}
    (h : isLimited fallbackThreshold lastFetch height now = false) :
    MayAsk fallbackThreshold lastFetch height now := by
  rintro ⟨lastHeight, lastPollTime⟩ hlast
  rw [Option.mem_def.1 hlast, isLimited, Bool.and_eq_false_iff, decide_eq_false_iff_not,
    decide_eq_false_iff_not, Nat.not_lt, Int.not_lt] at h
  exact h

/-- Somewhere in the history a call was checked, with this reading of the clock, and the record that
was there let it pass. -/
def PassedCheck (fromStr : List Char → Option BlockAndReceipts) (fallbackThreshold : ℕ) (w₀ : World)
    (actions : List Action) (id height : ℕ) (now : ℤ) : Prop :=
  ∃ front back w, actions = front ++ .check id :: back ∧
    Machine.run (step fromStr fallbackThreshold) w₀ front = some w ∧
    w.calls id = some ⟨height, .missed now⟩ ∧
    MayAsk fallbackThreshold w.lastLocalFetch height now

/-- A call and the history. -/
structure CallInv (fromStr : List Char → Option BlockAndReceipts) (fallbackThreshold : ℕ)
    (w₀ : World) (actions : List Action) (id : ℕ) (call : Call) : Prop where
  create : ∀ height, .create id height ∈ actions ↔ height = call.height
  ask : call.phase.beforeAsk = true → .ask id ∉ actions
  update : .update id ∈ actions ↔ call.phase.beforeUpdate = false
  passed : ∀ now, call.phase = .passed now →
    PassedCheck fromStr fallbackThreshold w₀ actions id call.height now

/-- All calls and the history. -/
structure Tracks (fromStr : List Char → Option BlockAndReceipts) (fallbackThreshold : ℕ)
    (w₀ : World) (actions : List Action) (w : World) : Prop where
  absent : ∀ id, w.calls id = none → ∀ action ∈ actions, action.caller ≠ some id
  call : ∀ id call, w.calls id = some call →
    CallInv fromStr fallbackThreshold w₀ actions id call

variable {w₀ w w' : World} {actions : List Action} {action : Action}

/-- An action of somebody else does not matter. -/
theorem mem_concat_of_caller_ne {other : Action} {id : ℕ} (hother : other.caller = some id)
    (hne : action.caller ≠ some id) : other ∈ actions ++ [action] ↔ other ∈ actions := by
  rw [List.mem_append, List.mem_singleton]
  refine or_iff_left fun heq ↦ hne ?_
  rw [← heq, hother]

theorem CallInv.concat {id : ℕ} {call : Call}
    (hinv : CallInv fromStr fallbackThreshold w₀ actions id call)
    (hne : action.caller ≠ some id) :
    CallInv fromStr fallbackThreshold w₀ (actions ++ [action]) id call where
  create := by
    intro height
    rw [mem_concat_of_caller_ne rfl hne]
    exact hinv.create height
  ask := by
    rw [mem_concat_of_caller_ne rfl hne]
    exact hinv.ask
  update := by
    rw [mem_concat_of_caller_ne rfl hne]
    exact hinv.update
  passed := by
    intro now hphase
    obtain ⟨front, back, w₁, rfl, hrun, hcall, hpass⟩ := hinv.passed now hphase
    exact ⟨front, back ++ [action], w₁, by simp, hrun, hcall, hpass⟩

/-- A call in its next phase. -/
theorem CallInv.next {id height : ℕ} {phase phase' : Phase}
    (hinv : CallInv fromStr fallbackThreshold w₀ actions id ⟨height, phase⟩)
    (hcreate : ∀ height, .create id height ≠ action)
    (hask : phase'.beforeAsk = true → phase.beforeAsk = true ∧ .ask id ≠ action)
    (hupdate : phase'.beforeUpdate = false ↔ phase.beforeUpdate = false ∨ .update id = action)
    (hpassed : ∀ now, phase' = .passed now →
      PassedCheck fromStr fallbackThreshold w₀ (actions ++ [action]) id height now) :
    CallInv fromStr fallbackThreshold w₀ (actions ++ [action]) id ⟨height, phase'⟩ where
  create := by
    intro other
    rw [List.mem_append, List.mem_singleton, or_iff_left (hcreate other)]
    exact hinv.create other
  ask := by
    intro hphase hmem
    rcases List.mem_append.1 hmem with hmem | hmem
    · exact hinv.ask (hask hphase).1 hmem
    · exact (hask hphase).2 (List.mem_singleton.1 hmem)
  update := by
    rw [List.mem_append, List.mem_singleton, hinv.update, hupdate]
  passed := hpassed

/-- **A step of a call keeps its history.** -/
theorem CallStep.callInv {id : ℕ} {before : Option Call} {call : Call} {lastFetch : LastFetch}
    (h : CallStep fromStr fallbackThreshold w action id before call lastFetch)
    (hrun : Machine.run (step fromStr fallbackThreshold) w₀ actions = some w)
    (hbefore : w.calls id = before)
    (htracks : Tracks fromStr fallbackThreshold w₀ actions w) :
    CallInv fromStr fallbackThreshold w₀ (actions ++ [action]) id call := by
  cases h with
  | create =>
    have hnot : ∀ other : Action, other.caller = some id → other ∉ actions :=
      fun other hother hmem ↦ htracks.absent id hbefore other hmem hother
    refine ⟨fun height ↦ ?_, fun _ ↦ ?_, ?_, nofun⟩
    · simp [hnot (.create id height) rfl]
    · simp [hnot (.ask id) rfl]
    · simp [hnot (.update id) rfl, Phase.beforeUpdate]
  | passes hpass =>
    refine (htracks.call id _ hbefore).next nofun (fun _ ↦ ⟨rfl, nofun⟩)
      (by simp [Phase.beforeUpdate]) fun now hphase ↦ ?_
    obtain rfl := Phase.passed.inj hphase
    exact ⟨actions, [], w, rfl, hrun, hbefore, mayAsk_of_not_isLimited hpass⟩
  | _ =>
    exact (htracks.call id _ hbefore).next nofun (by simp [Phase.beforeAsk])
      (by simp [Phase.beforeUpdate]) nofun

/-- **Every run keeps the history of every call.** -/
theorem Tracks.step
    (hrun : Machine.run (CollectBlock.step fromStr fallbackThreshold) w₀ actions = some w)
    (htracks : Tracks fromStr fallbackThreshold w₀ actions w)
    (h : CollectBlock.step fromStr fallbackThreshold w action = some w') :
    Tracks fromStr fallbackThreshold w₀ (actions ++ [action]) w' := by
  rcases step_cases h with ⟨hcaller, hcalls, -⟩ | ⟨id, call, hcalls, hcall⟩
  · -- an action from outside belongs to no call
    have hne : ∀ id, action.caller ≠ some id := fun id ↦ by rw [hcaller]; nofun
    refine ⟨fun id hid other hother ↦ ?_, fun id call hid ↦ ?_⟩
    · rw [hcalls] at hid
      rcases List.mem_append.1 hother with hother | hother
      · exact htracks.absent id hid other hother
      · rw [List.mem_singleton.1 hother]
        exact hne id
    · rw [hcalls] at hid
      exact (htracks.call id call hid).concat (hne id)
  · -- a step of the call `id`; the others keep their history
    have hcaller := hcall.caller
    refine ⟨fun id' hid other hother ↦ ?_, fun id' call' hid ↦ ?_⟩
    · have hne : id' ≠ id := by
        rintro rfl
        rw [hcalls, Function.update_self] at hid
        cases hid
      rw [hcalls, Function.update_of_ne hne] at hid
      rcases List.mem_append.1 hother with hother | hother
      · exact htracks.absent id' hid other hother
      · rw [List.mem_singleton.1 hother, hcaller]
        exact fun heq ↦ hne (Option.some.inj heq).symm
    · by_cases hid' : id' = id
      · subst hid'
        rw [hcalls, Function.update_self] at hid
        obtain rfl := Option.some.inj hid
        exact hcall.callInv hrun rfl htracks
      · rw [hcalls, Function.update_of_ne hid'] at hid
        refine (htracks.call id' call' hid).concat fun heq ↦ hid' ?_
        exact (Option.some.inj (hcaller.symm.trans heq)).symm

theorem tracks_of_run (hcalls : w₀.calls = fun _ ↦ none)
    (hrun : Machine.run (step fromStr fallbackThreshold) w₀ actions = some w) :
    Tracks fromStr fallbackThreshold w₀ actions w := by
  refine Machine.run_induction
    ⟨fun _ _ _ hmem ↦ absurd hmem List.not_mem_nil, fun id call hcall ↦ ?_⟩
    (fun _ _ _ _ hrun htracks hstep ↦ htracks.step hrun hstep) hrun
  rw [hcalls] at hcall
  cases hcall

/-! ### The record is the greatest height -/

/-- The heights of the calls that have updated the record. -/
def updatedHeights (actions : List Action) : Set ℕ :=
  {height | ∃ id, .create id height ∈ actions ∧ .update id ∈ actions}

/-- The record has the greatest of some heights, if there is any. -/
def RecordIsMax (lastFetch : LastFetch) (heights : Set ℕ) : Prop :=
  (lastFetch = none ∧ heights = ∅) ∨ ∃ last, lastFetch = some last ∧ IsGreatest heights last.1

theorem RecordIsMax.insert {lastFetch : LastFetch} {heights : Set ℕ}
    (h : RecordIsMax lastFetch heights) (height : ℕ) (now : ℤ) :
    RecordIsMax (updateLastFetch lastFetch height now) (insert height heights) := by
  obtain ⟨last, hlast, hheight, hle, hwhich⟩ := updateLastFetch_spec lastFetch height now
  refine .inr ⟨last, hlast, ?_, ?_⟩
  · rcases hwhich with hwhich | ⟨before, hbefore, hwhich⟩
    · exact .inl hwhich
    · rcases h with ⟨rfl, -⟩ | ⟨before', rfl, hgreatest⟩
      · cases hbefore
      · obtain rfl := Option.mem_some_iff.1 hbefore
        exact .inr (hwhich ▸ hgreatest.1)
  · rintro other (rfl | hother)
    · exact hheight
    · rcases h with ⟨-, rfl⟩ | ⟨before, rfl, hgreatest⟩
      · cases hother
      · exact (hgreatest.2 hother).trans (hle before rfl)

/-- The heights of the calls that have updated the record, as the calls stand. -/
def World.updated (w : World) : Set ℕ :=
  {height | ∃ id call, w.calls id = some call ∧ call.phase.beforeUpdate = false ∧
    call.height = height}

theorem Tracks.updatedHeights_eq (htracks : Tracks fromStr fallbackThreshold w₀ actions w) :
    updatedHeights actions = w.updated := by
  ext height
  constructor
  · rintro ⟨id, hcreate, hupdate⟩
    rcases hcall : w.calls id with - | call
    · exact absurd rfl (htracks.absent id hcall _ hupdate)
    · have hinv := htracks.call id call hcall
      exact ⟨id, call, hcall, hinv.update.1 hupdate, ((hinv.create height).1 hcreate).symm⟩
  · rintro ⟨id, call, hcall, hphase, rfl⟩
    have hinv := htracks.call id call hcall
    exact ⟨id, (hinv.create _).2 rfl, hinv.update.2 hphase⟩

/-- A step of a call starts before its update, and ends after it only if it is the update. -/
theorem CallStep.beforeUpdate {id : ℕ} {before : Option Call} {call : Call} {lastFetch : LastFetch}
    (h : CallStep fromStr fallbackThreshold w action id before call lastFetch) :
    (∀ call₀ ∈ before, call₀.phase.beforeUpdate = true) ∧
      (call.phase.beforeUpdate = false ↔ action = .update id) := by
  cases h <;> simp [Phase.beforeUpdate]

theorem CallStep.updated {id : ℕ} {call : Call} {lastFetch : LastFetch}
    (h : CallStep fromStr fallbackThreshold w action id (w.calls id) call lastFetch)
    (hcalls : w'.calls = Function.update w.calls id (some call)) :
    w'.updated = {height | action = .update id ∧ call.height = height} ∪ w.updated := by
  obtain ⟨hbefore, hafter⟩ := h.beforeUpdate
  ext height
  constructor
  · rintro ⟨id', call', hcall', hphase, hheight⟩
    by_cases hid : id' = id
    · subst hid
      rw [hcalls, Function.update_self] at hcall'
      obtain rfl := Option.some.inj hcall'
      exact .inl ⟨hafter.1 hphase, hheight⟩
    · rw [hcalls, Function.update_of_ne hid] at hcall'
      exact .inr ⟨id', call', hcall', hphase, hheight⟩
  · rintro (⟨hupdate, hheight⟩ | ⟨id', call', hcall', hphase, hheight⟩)
    · exact ⟨id, call, by rw [hcalls, Function.update_self], hafter.2 hupdate, hheight⟩
    · have hid : id' ≠ id := by
        rintro rfl
        rw [hbefore call' hcall'] at hphase
        cases hphase
      exact ⟨id', call', by rw [hcalls, Function.update_of_ne hid, hcall'], hphase, hheight⟩

theorem recordIsMax_of_run (hcalls : w₀.calls = fun _ ↦ none) (hrecord : w₀.lastLocalFetch = none)
    (hrun : Machine.run (step fromStr fallbackThreshold) w₀ actions = some w) :
    RecordIsMax w.lastLocalFetch w.updated := by
  refine Machine.run_stable (P := fun w ↦ RecordIsMax w.lastLocalFetch w.updated) ?_ ?_ hrun
  · intro w action w' hmax hstep
    rcases step_cases hstep with ⟨-, hsame, hfetch⟩ | ⟨id, call, hupdate, hcall⟩
    · rw [World.updated, hsame, hfetch]
      exact hmax
    · rw [hcall.updated hupdate]
      rcases hcall.record with ⟨hne, hfetch⟩ | ⟨now, rfl, hfetch⟩
      · rw [hfetch]
        simpa [hne] using hmax
      · rw [hfetch]
        simpa [Set.insert_def, Set.union_def, eq_comm] using hmax.insert call.height now
  · refine .inl ⟨hrecord, Set.eq_empty_of_forall_notMem ?_⟩
    rintro height ⟨id, call, hcall, -⟩
    rw [hcalls] at hcall
    cases hcall

/-! ### A block that is found locally -/

/-- A call that has found the block locally ends with it, and asks nobody. -/
theorem found_of_run {id height : ℕ} {now : ℤ} {block : BlockAndReceipts}
    (hfound : w₀.calls id = some ⟨height, .found now block⟩)
    (hrun : Machine.run (step fromStr fallbackThreshold) w₀ actions = some w) :
    .ask id ∉ actions ∧ (w.calls id = some ⟨height, .found now block⟩ ∨
      w.calls id = some ⟨height, .ended (.ok block)⟩) := by
  refine Machine.run_induction (P := fun actions w ↦ .ask id ∉ actions ∧
    (w.calls id = some ⟨height, .found now block⟩ ∨
      w.calls id = some ⟨height, .ended (.ok block)⟩)) ⟨List.not_mem_nil, .inl hfound⟩ ?_ hrun
  intro actions w action w' hrun ⟨hask, hcall⟩ hstep
  rcases step_cases hstep with ⟨hcaller, hcalls, -⟩ | ⟨id', call, hcalls, hstep⟩
  · have hne : action.caller ≠ some id := by rw [hcaller]; nofun
    rw [mem_concat_of_caller_ne rfl hne, hcalls]
    exact ⟨hask, hcall⟩
  · by_cases hid : id = id'
    · -- the only step from here is the update
      subst hid
      rw [hcalls, Function.update_self]
      generalize w'.lastLocalFetch = lastFetch at hstep
      rcases hcall with hcall | hcall
      · rw [hcall] at hstep
        cases hstep
        exact ⟨by simpa using hask, .inr rfl⟩
      · rw [hcall] at hstep
        cases hstep
    · have hne : action.caller ≠ some id := by
        rw [hstep.caller]
        exact fun heq ↦ hid (Option.some.inj heq).symm
      rw [mem_concat_of_caller_ne rfl hne, hcalls, Function.update_of_ne hid]
      exact ⟨hask, hcall⟩

/-- What holds of every interleaving of calls. -/
structure Interleaved (fromStr : List Char → Option BlockAndReceipts) (fallbackThreshold : ℕ)
    (w₀ : World) (actions : List Action) (w : World) : Prop where
  /-- The height of the record never goes down. -/
  record_mono : ∀ front back w₁, actions = front ++ back →
    Machine.run (step fromStr fallbackThreshold) w₀ front = some w₁ →
    NotBelow w₁.lastLocalFetch w.lastLocalFetch
  /-- It is the greatest height of the calls that have updated the record. -/
  record_max : RecordIsMax w.lastLocalFetch (updatedHeights actions)
  /-- The other source is asked by calls that have passed their check. -/
  asked : ∀ front id back, actions = front ++ .ask id :: back →
    ∃ w₁ height now, Machine.run (step fromStr fallbackThreshold) w₀ front = some w₁ ∧
      w₁.calls id = some ⟨height, .passed now⟩ ∧
      PassedCheck fromStr fallbackThreshold w₀ front id height now
  /-- A call that was told to come back later has asked nobody. -/
  limited_asks : ∀ id height, w.calls id = some ⟨height, .ended .limited⟩ → .ask id ∉ actions
  /-- None of its actions has changed the record. -/
  limited_record : ∀ id height, w.calls id = some ⟨height, .ended .limited⟩ →
    ∀ front action back w₁ w₂, actions = front ++ action :: back → action.caller = some id →
      Machine.run (step fromStr fallbackThreshold) w₀ front = some w₁ →
      step fromStr fallbackThreshold w₁ action = some w₂ →
      w₂.lastLocalFetch = w₁.lastLocalFetch
  /-- A call that finds the block locally asks nobody, and is answered with the block, or will
  be. -/
  found_answer : ∀ front id back w₁ height now block cache, actions = front ++ .lookUp id :: back →
    Machine.run (step fromStr fallbackThreshold) w₀ front = some w₁ →
    w₁.calls id = some ⟨height, .reading now⟩ →
    tryCollectLocalBlock fromStr w₁.dir w₁.localBlocksCache height = some (some block, cache) →
    .ask id ∉ actions ∧ (w.calls id = some ⟨height, .ended (.ok block)⟩ ∨
      w.calls id = some ⟨height, .found now block⟩ ∧
        ∃ w₂, step fromStr fallbackThreshold w (.update id) = some w₂ ∧
          w₂.calls id = some ⟨height, .ended (.ok block)⟩)

/-- **Any number of calls, interleaved in any way.** -/
theorem collectBlock_interleaved (hcalls : w₀.calls = fun _ ↦ none)
    (hrecord : w₀.lastLocalFetch = none)
    (hrun : Machine.run (step fromStr fallbackThreshold) w₀ actions = some w) :
    Interleaved fromStr fallbackThreshold w₀ actions w where
  record_mono := by
    rintro front back w₁ rfl hfront
    rw [Machine.run_append, hfront, Option.bind_some] at hrun
    exact notBelow_of_run hrun
  record_max := by
    rw [(tracks_of_run hcalls hrun).updatedHeights_eq]
    exact recordIsMax_of_run hcalls hrecord hrun
  asked := by
    -- a call asks only from the phase in which its history has the passed check
    rintro front id back rfl
    obtain ⟨w₁, w₂, hfront, hstep, -⟩ := Machine.exists_of_run_append_cons hrun
    rcases step_cases hstep with ⟨hcaller, -⟩ | ⟨id', call, -, hcall⟩
    · cases hcaller
    · obtain rfl : id = id' := Option.some.inj hcall.caller
      generalize hbefore : w₁.calls id = before at hcall
      generalize w₂.lastLocalFetch = lastFetch at hcall
      cases hcall with
      | ask =>
        exact ⟨w₁, _, _, hfront, hbefore,
          ((tracks_of_run hcalls hfront).call id _ hbefore).passed _ rfl⟩
  limited_asks := by
    intro id height hcall
    exact ((tracks_of_run hcalls hrun).call id _ hcall).ask rfl
  limited_record := by
    rintro id height hcall front action back w₁ w₂ rfl hcaller hfront hstep
    -- a call that was turned away has never updated the record
    have hupdate : .update id ∉ front ++ action :: back := fun hmem ↦ by
      cases ((tracks_of_run hcalls hrun).call id _ hcall).update.1 hmem
    rcases step_cases hstep with ⟨hnone, -⟩ | ⟨id', call, -, hcall'⟩
    · rw [hnone] at hcaller
      cases hcaller
    · obtain rfl : id = id' := Option.some.inj (hcaller.symm.trans hcall'.caller)
      rcases hcall'.record with ⟨-, hfetch⟩ | ⟨now, rfl, -⟩
      · exact hfetch
      · exact absurd (by simp) hupdate
  found_answer := by
    rintro front id back w₁ height now block cache rfl hfront hcall hlookup
    obtain ⟨w₁', w₂, hfront', hstep, hback⟩ := Machine.exists_of_run_append_cons hrun
    obtain rfl : w₁ = w₁' := Option.some.inj (hfront.symm.trans hfront')
    have hasked : .ask id ∉ front := ((tracks_of_run hcalls hfront).call id _ hcall).ask rfl
    simp only [step, hcall, hlookup, Option.some.injEq] at hstep
    -- the lookup leaves the call at `found`, and from there it can only update and end
    have hfound : w₂.calls id = some ⟨height, .found now block⟩ := by
      rw [← hstep]
      exact Function.update_self ..
    obtain ⟨hask, hend⟩ := found_of_run hfound hback
    refine ⟨by simp [hasked, hask], ?_⟩
    rcases hend with hend | hend
    · have hupdate : step fromStr fallbackThreshold w (.update id) =
          some (World.setCall
            { w with lastLocalFetch := updateLastFetch w.lastLocalFetch height now }
            id height (.ended (.ok block))) := by
        simp only [step, hend]
      exact .inr ⟨hend, _, hupdate, Function.update_self ..⟩
    · exact .inl hend

end Runs

/-! ### Two calls -/

/-- Nothing is there yet, locally or in the record. -/
def exampleWorld : World where
  lastLocalFetch := none
  localBlocksCache := .new cacheSize
  dir := ⟨[], List.nodup_nil⟩
  calls := fun _ ↦ none

/-- The call for block five gets it from the other source; the call for block six reads the clock
before that and is checked after it. -/
def exampleActions : List Action :=
  [.create 0 5, .create 1 6, .readClock 0 10, .readClock 1 12, .lookUp 0, .lookUp 1, .check 0,
    .ask 0, .reply 0 (some (emptyBlock 5)), .update 0, .check 1]

/-- The second call is told to come back later. -/
theorem collectBlock_interleaved_exampleActions :
    ∃ w, Machine.run (step emptyBlockFromStr 5000) exampleWorld exampleActions = some w ∧
      w.calls 1 = some ⟨6, .ended .limited⟩ ∧ w.lastLocalFetch = some (5, 10) ∧
      Interleaved emptyBlockFromStr 5000 exampleWorld exampleActions w := by
  obtain ⟨w, hrun, hcall, hrecord⟩ : ∃ w,
      Machine.run (step emptyBlockFromStr 5000) exampleWorld exampleActions = some w ∧
        w.calls 1 = some ⟨6, .ended .limited⟩ ∧ w.lastLocalFetch = some (5, 10) :=
    ⟨_, rfl, rfl, rfl⟩
  exact ⟨w, hrun, hcall, hrecord, collectBlock_interleaved rfl rfl hrun⟩

end RethHl.HlNode.CollectBlock
