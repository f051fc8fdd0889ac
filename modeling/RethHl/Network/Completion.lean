import Mathlib.Algebra.BigOperators.Group.List.Basic
import Mathlib.Algebra.Order.BigOperators.Group.List
import RethHl.Network.ForkChoice

/-!
# The block import service completes its imports

The service is a task of the runtime: after it has returned `Pending` nobody polls it until somebody
wakes it. `Task` puts the wake-ups on top of the moves of the service. A block that comes in wakes
the task, and so does a reply of the engine. A poll that ends at a future without an outcome wakes
nobody, although the set may hold futures that would move.

`imports_complete` says what follows. Between two events from outside the system makes a bounded
number of moves, so it **comes to rest**. At rest it has **finished** everything, each block sent as
a payload once and considered for the head once, or its last poll has ended early. And where the
engine always answers `Valid` or `Invalid` and no read fails, it finishes.

Two invariants of the moves carry this. Every message in the queue of the engine has a future that
waits for it, and the other way round (`Conserved.queued`). And of each block that was received
there are exactly two futures, one for the payload and one for the head, each of them either under
way or completed (`Conserved.two`). `Attended` is the invariant of the wake-ups: a task that nobody
has woken has nothing to do.
-/

namespace RethHl.ImportService

namespace ImportFut

/-- The message that a future waits for. -/
def awaited (fut : ImportFut) : Option EngineMsg :=
  match fut.progress with
  | .awaiting msg => some msg
  | _ => none

/-- What a future is about. -/
def subject (fut : ImportFut) : ImportKind × BlockMsg × PeerId :=
  (fut.kind, fut.block, fut.peer)

/-- A payload future does not read the provider. -/
def WellFormed (fut : ImportFut) : Prop :=
  ∀ currentHead, fut.progress = .readHead currentHead → fut.kind = .updateForkChoice

/-- How many moves a future has left. -/
def work (fut : ImportFut) : ℕ :=
  match fut.progress with
  | .created => 4
  | .readHead _ => 3
  | .awaiting _ => 2
  | .replied _ => 1
  | .failed => 1

end ImportFut

/-- The moves that are left before everything is processed. -/
def work (s : State) : ℕ :=
  9 * s.fromNetwork.length + (s.pendingImports.map ImportFut.work).sum

/-- The two futures of each block. -/
def subjects (received : List (BlockMsg × PeerId)) : List (ImportKind × BlockMsg × PeerId) :=
  received.flatMap fun msg ↦ [(.newPayload, msg.1, msg.2), (.updateForkChoice, msg.1, msg.2)]

/-- The futures that have not completed. -/
def unfinished (futs : List ImportFut) : List ImportFut :=
  futs.filter fun fut ↦ !fut.complete

/-- What the service and the engine have between them. -/
structure Conserved (s : State) : Prop where
  /-- The engine has exactly the messages that futures wait for. -/
  queued : s.engine.Perm (s.pendingImports.filterMap ImportFut.awaited)
  /-- Each block that was received has its two futures. -/
  two : (subjects s.received).Perm
    ((unfinished s.pendingImports ++ s.completed).map ImportFut.subject)
  wellFormed : ∀ fut ∈ s.pendingImports, fut.WellFormed

/-- The moves that process nothing: the turns of a poll, and the network's leaving. -/
def Action.IsIdle : Action → Prop
  | .startPoll | .received | .noneReady | .closeNetwork => True
  | _ => False

section Completion

variable {hashSlow : Header → B256} {numberOf : B256 → ℕ}

/-! ### What a move leaves -/

theorem unfinished_append (futs futs' : List ImportFut) :
    unfinished (futs ++ futs') = unfinished futs ++ unfinished futs' :=
  List.filter_append ..

theorem unfinished_cons_of_complete {fut : ImportFut} (h : fut.complete = true)
    (futs : List ImportFut) : unfinished (fut :: futs) = unfinished futs :=
  List.filter_cons_of_neg (by simp [h])

theorem unfinished_cons_of_incomplete {fut : ImportFut} (h : fut.complete = false)
    (futs : List ImportFut) : unfinished (fut :: futs) = fut :: unfinished futs :=
  List.filter_cons_of_pos (by simp [h])

theorem conserved_new (provider : Provider) : Conserved (.new provider) where
  queued := .refl _
  two := .refl _
  wellFormed := fun _ h ↦ absurd h List.not_mem_nil

/-- A future that was under way has new progress. -/
theorem Conserved.two_update {s : State} (h : Conserved s) {front back : List ImportFut}
    {fut : ImportFut} (hfut : s.pendingImports = front ++ fut :: back)
    (hincomplete : fut.complete = false) (progress : Progress) :
    let s' := s.update front { fut with progress := progress } back
    (subjects s'.received).Perm
      ((unfinished s'.pendingImports ++ s'.completed).map ImportFut.subject) := by
  have htwo := h.two
  rw [hfut, unfinished_append, unfinished_cons_of_incomplete hincomplete] at htwo
  show (subjects s.received).Perm _
  refine htwo.trans ?_
  simp only [State.update, unfinished_append]
  rcases hcomplete : ({ fut with progress := progress } : ImportFut).complete with - | -
  · rw [if_neg (by decide), unfinished_cons_of_incomplete hcomplete]
    simp only [List.map_append, List.map_cons]
    exact .refl _
  · -- it goes over to the completed ones
    rw [if_pos rfl, unfinished_cons_of_complete hcomplete]
    simp only [List.map_append, List.map_cons, List.map_nil, List.append_assoc, List.cons_append]
    refine List.Perm.append_left _ ?_
    refine (List.perm_append_singleton _ _).symm.trans ?_
    rw [List.append_assoc]
    exact .refl _

/-- The messages of a set with one future apart. -/
theorem perm_awaited (front back : List ImportFut) (fut : ImportFut) :
    ((front ++ fut :: back).filterMap ImportFut.awaited).Perm
      (fut.awaited.toList ++ (front ++ back).filterMap ImportFut.awaited) := by
  refine (List.perm_middle.filterMap _).trans ?_
  rw [List.filterMap_cons]
  rcases fut.awaited with - | msg <;> exact .refl _

theorem awaited_of_complete {fut : ImportFut} (h : fut.complete = true) : fut.awaited = none := by
  unfold ImportFut.complete at h
  unfold ImportFut.awaited
  split at h <;> simp_all

theorem awaited_of_reads {fut : ImportFut} (h : fut.reads = true) : fut.awaited = none := by
  unfold ImportFut.reads at h
  unfold ImportFut.awaited
  split at h <;> simp_all

/-- A future that is driven sends the message that it then waits for, and comes nearer to its
end. -/
theorem advance_spec {provider : Provider} {fut : ImportFut} {progress : Progress}
    {msgs : List EngineMsg} (h : fut.advance hashSlow provider = some (progress, msgs)) :
    fut.awaited = none ∧ ({ fut with progress := progress } : ImportFut).awaited.toList = msgs ∧
      ({ fut with progress := progress } : ImportFut).WellFormed ∧
      ({ fut with progress := progress } : ImportFut).work < fut.work := by
  obtain ⟨kind, block, peer, now⟩ := fut
  rcases kind with - | - <;> rcases now with - | currentHead | msg | reply | - <;>
    simp only [ImportFut.advance, reduceCtorEq] at h
  · obtain ⟨rfl, rfl⟩ := Prod.mk.inj (Option.some.inj h)
    exact ⟨rfl, rfl, fun _ hprogress ↦ (by cases hprogress), show 2 < 4 by decide⟩
  · obtain ⟨rfl, rfl⟩ := Prod.mk.inj (Option.some.inj h)
    exact ⟨rfl, rfl, fun _ _ ↦ rfl, show 3 < 4 by decide⟩
  · rcases hhash : provider.blockHash currentHead with - | currentHash <;> rw [hhash] at h
    · obtain ⟨rfl, rfl⟩ := Prod.mk.inj (Option.some.inj h)
      exact ⟨rfl, rfl, fun _ hprogress ↦ (by cases hprogress), show 1 < 3 by decide⟩
    · obtain ⟨rfl, rfl⟩ := Prod.mk.inj (Option.some.inj h)
      exact ⟨rfl, rfl, fun _ hprogress ↦ (by cases hprogress), show 2 < 3 by decide⟩

/-- New progress of one future keeps the set well formed. -/
theorem wellFormed_insert {front back : List ImportFut} {fut fut' : ImportFut}
    (h : ∀ other ∈ front ++ fut :: back, other.WellFormed) (hfut' : fut'.WellFormed) :
    ∀ other ∈ front ++ fut' :: back, other.WellFormed := by
  intro other hother
  rcases mem_or_eq_of_mem_insert hother with rfl | hother
  · exact hfut'
  · exact h other (mem_insert_of_mem hother)

/-- A completed future leaves the set. -/
theorem Conserved.take {s : State} (h : Conserved s) {front back : List ImportFut}
    {fut : ImportFut} (hfut : s.pendingImports = front ++ fut :: back)
    (hcomplete : fut.complete = true) (sent : List Outcome) (phase : Phase) :
    Conserved { s with pendingImports := front ++ back, toNetwork := sent, phase := phase } where
  queued := by
    have hqueued := h.queued.trans (hfut ▸ perm_awaited front back fut)
    rw [awaited_of_complete hcomplete] at hqueued
    exact hqueued
  two := by
    have htwo := h.two
    rw [hfut, unfinished_append, unfinished_cons_of_complete hcomplete, ← unfinished_append] at htwo
    exact htwo
  wellFormed := fun other hother ↦ h.wellFormed other (hfut ▸ mem_insert_of_mem hother)

/-- The futures of a new block. -/
theorem Conserved.onNewBlock {s : State} (h : Conserved s) (block : BlockMsg) (peer : PeerId) :
    Conserved (onNewBlock s block peer) where
  queued := by
    show s.engine.Perm (List.filterMap _ (s.pendingImports ++ _))
    rw [List.filterMap_append, show List.filterMap ImportFut.awaited [_, _] = [] from rfl,
      List.append_nil]
    exact h.queued
  two := by
    have hnew : subjects (s.received ++ [(block, peer)]) = subjects s.received ++
        [(.newPayload, block, peer), (.updateForkChoice, block, peer)] := by
      rw [subjects, List.flatMap_append]
      rfl
    show (subjects (s.received ++ _)).Perm
      ((unfinished (s.pendingImports ++ _) ++ s.completed).map _)
    rw [hnew, unfinished_append]
    refine (h.two.append_right _).trans ?_
    simp only [List.map_append, List.append_assoc]
    exact List.perm_append_comm.append_left _
  wellFormed := by
    intro fut hfut
    rcases List.mem_append.1 hfut with hfut | hfut
    · exact h.wellFormed fut hfut
    · simp only [List.mem_cons, List.not_mem_nil, or_false] at hfut
      rcases hfut with rfl | rfl <;> exact fun _ hprogress ↦ (by cases hprogress)

/-- **Every move conserves the futures and the messages.** -/
theorem Conserved.step {s s' : State} {a : Action} (h : Conserved s)
    (hstep : Step hashSlow numberOf s a s') : Conserved s' := by
  cases hstep with
  | arrive block peer => exact ⟨h.queued, h.two, h.wellFormed⟩
  | closeNetwork => exact ⟨h.queued, h.two, h.wellFormed⟩
  | startPoll | received | noneReady => exact ⟨h.queued, h.two, h.wellFormed⟩
  | @receive block peer rest hphase hblock =>
    have hrest : Conserved { s with fromNetwork := rest } := ⟨h.queued, h.two, h.wellFormed⟩
    exact hrest.onNewBlock block peer
  | @advance front back fut progress msgs hphase hfut hadvance =>
    obtain ⟨hnone, hmsgs, hwell, -⟩ := advance_spec hadvance
    have hqueued := h.queued.trans (hfut ▸ perm_awaited front back fut)
    rw [hnone] at hqueued
    refine ⟨?_, h.two_update hfut (complete_of_advance hadvance) progress,
      wellFormed_insert (hfut ▸ h.wellFormed) hwell⟩
    refine (hqueued.append_right msgs).trans (List.perm_append_comm.trans ?_)
    rw [← hmsgs]
    exact (perm_awaited front back _).symm
  | @providerError front back fut hphase hfut hreads =>
    have hqueued := h.queued.trans (hfut ▸ perm_awaited front back fut)
    rw [awaited_of_reads hreads] at hqueued
    exact ⟨hqueued.trans (perm_awaited front back { fut with progress := .failed }).symm,
      h.two_update hfut (complete_of_reads hreads) .failed,
      wellFormed_insert (hfut ▸ h.wellFormed) fun _ hprogress ↦ (by cases hprogress)⟩
  | takeSome hphase hfut houtput hopen => exact h.take hfut (complete_of_output houtput) _ s.phase
  | takeClosed hphase hfut houtput hclosed =>
    exact h.take hfut (complete_of_output houtput) s.toNetwork .ended
  | takeNone hphase hfut hcomplete houtput => exact h.take hfut hcomplete s.toNetwork .idle
  | @reply front back fut msg rest provider reply hmsg hfut hawaits happlies =>
    have hqueued := h.queued.trans (hfut ▸ perm_awaited front back fut)
    have hmine : fut.awaited = some msg := by rw [ImportFut.awaited, hawaits]
    rw [hmsg, hmine] at hqueued
    exact ⟨(List.Perm.cons_inv hqueued).trans
        (perm_awaited front back { fut with progress := .replied reply }).symm,
      h.two_update hfut (by rw [ImportFut.complete, hawaits]) (.replied reply),
      wellFormed_insert (hfut ▸ h.wellFormed) fun _ hprogress ↦ (by cases hprogress)⟩

/-! ### The work that is left -/

theorem sum_work (front back : List ImportFut) (fut : ImportFut) :
    ((front ++ fut :: back).map ImportFut.work).sum =
      fut.work + ((front ++ back).map ImportFut.work).sum := by
  rw [(List.perm_middle.map ImportFut.work).sum_eq, List.map_cons, List.sum_cons]

theorem work_pos (fut : ImportFut) : 0 < fut.work := by
  rw [ImportFut.work]
  split <;> decide

/-- A future in its new state. -/
theorem work_update {s s' : State} {front back : List ImportFut} {fut fut' : ImportFut}
    (hfut : s.pendingImports = front ++ fut :: back)
    (hfut' : s'.pendingImports = front ++ fut' :: back) (hnetwork : s'.fromNetwork = s.fromNetwork)
    (hlt : fut'.work < fut.work) : work s' < work s := by
  rw [work, work, hfut, hfut', hnetwork, sum_work, sum_work]
  omega

/-- A future that is gone. -/
theorem work_take {s s' : State} {front back : List ImportFut} {fut : ImportFut}
    (hfut : s.pendingImports = front ++ fut :: back)
    (hfut' : s'.pendingImports = front ++ back) (hnetwork : s'.fromNetwork = s.fromNetwork) :
    work s' < work s := by
  have hpos := work_pos fut
  rw [work, work, hfut, hfut', hnetwork, sum_work]
  omega

theorem work_of_reads {fut : ImportFut} (h : fut.reads = true) :
    ({ fut with progress := .failed } : ImportFut).work < fut.work := by
  obtain ⟨kind, block, peer, now⟩ := fut
  rcases kind with - | - <;> rcases now with - | currentHead | msg | reply | - <;>
    simp_all [ImportFut.reads, ImportFut.work]

/-- **Every move that processes something leaves less work.** -/
theorem work_step {s s' : State} {a : Action} (hstep : Step hashSlow numberOf s a s')
    (harrive : ∀ block peer, a ≠ .arrive block peer) :
    work s' ≤ work s ∧ (¬ a.IsIdle → work s' < work s) := by
  have hbusy : work s' < work s → work s' ≤ work s ∧ (¬ a.IsIdle → work s' < work s) :=
    fun h ↦ ⟨h.le, fun _ ↦ h⟩
  cases hstep with
  | arrive block peer => exact absurd rfl (harrive block peer)
  | closeNetwork | startPoll | received | noneReady => exact ⟨le_rfl, fun h ↦ absurd trivial h⟩
  | @receive block peer rest hphase hblock =>
    refine hbusy ?_
    have hsum : work (onNewBlock { s with fromNetwork := rest } block peer) =
        9 * rest.length + ((s.pendingImports.map ImportFut.work).sum + 8) := by
      show _ + ((s.pendingImports ++ _).map ImportFut.work).sum = _
      rw [List.map_append, List.sum_append]
      rfl
    rw [hsum, work, hblock, List.length_cons]
    omega
  | advance hphase hfut hadvance =>
    exact hbusy (work_update hfut rfl rfl (advance_spec hadvance).2.2.2)
  | providerError hphase hfut hreads =>
    exact hbusy (work_update hfut rfl rfl (work_of_reads hreads))
  | takeSome hphase hfut => exact hbusy (work_take hfut rfl rfl)
  | takeClosed hphase hfut => exact hbusy (work_take hfut rfl rfl)
  | takeNone hphase hfut => exact hbusy (work_take hfut rfl rfl)
  | @reply front back fut msg rest provider reply hmsg hfut hawaits happlies =>
    refine hbusy (work_update hfut rfl rfl ?_)
    rw [ImportFut.work, ImportFut.work, hawaits]
    exact show 1 < 2 by decide

/-! ### Moves that are possible -/

/-- The engine can give every answer. -/
theorem exists_applies (msg : EngineMsg) (reply : EngineReply) (provider : Provider) :
    ∃ provider', Applies numberOf msg reply provider provider' := by
  by_cases hvalid : reply = .ok .valid
  · subst hvalid
    rcases msg with hash | head
    · exact ⟨provider, .payload⟩
    · exact ⟨_, @Applies.forkChoice numberOf head provider (fun _ ↦ some head) rfl⟩
  · exact ⟨provider, .refused hvalid⟩

theorem progress_of_awaited {fut : ImportFut} {msg : EngineMsg} (h : fut.awaited = some msg) :
    fut.progress = .awaiting msg := by
  rw [ImportFut.awaited] at h
  split at h
  · rename_i heq
    rw [heq, Option.some.inj h]
  · cases h

/-- An engine that has a message can answer: some future waits for it. -/
theorem Conserved.exists_reply {s : State} (h : Conserved s) (hengine : s.engine ≠ [])
    (reply : EngineReply) : ∃ s', Step hashSlow numberOf s (.reply reply) s' := by
  obtain ⟨msg, rest, hmsg⟩ := List.exists_cons_of_ne_nil hengine
  have hawaited : msg ∈ s.pendingImports.filterMap ImportFut.awaited :=
    h.queued.mem_iff.1 (hmsg ▸ List.mem_cons_self)
  obtain ⟨fut, hfut, hawaits⟩ := List.mem_filterMap.1 hawaited
  obtain ⟨front, back, hwhere⟩ := List.append_of_mem hfut
  obtain ⟨provider, happlies⟩ := @exists_applies numberOf msg reply s.provider
  exact ⟨_, .reply reply hmsg hwhere (progress_of_awaited hawaits) happlies⟩

/-- A completed future can be taken. -/
theorem exists_take {s : State} (hphase : s.phase = .draining) {fut : ImportFut}
    (hfut : fut ∈ s.pendingImports) (hcomplete : fut.complete = true) :
    ∃ s', Step hashSlow numberOf s (.take fut) s' := by
  obtain ⟨front, back, hwhere⟩ := List.append_of_mem hfut
  rcases houtput : fut.output with - | outcome
  · exact ⟨_, .takeNone hphase hwhere hcomplete houtput⟩
  · rcases hopen : s.networkOpen with - | -
    · exact ⟨_, .takeClosed hphase hwhere houtput hopen⟩
    · exact ⟨_, .takeSome hphase hwhere houtput hopen⟩

/-- A future that can be driven is driven. -/
theorem exists_advance {s : State} (hphase : s.phase = .draining) {fut : ImportFut}
    (hfut : fut ∈ s.pendingImports) (hadvance : (fut.advance hashSlow s.provider).isSome) :
    ∃ s', Step hashSlow numberOf s (.advance fut) s' := by
  obtain ⟨front, back, hwhere⟩ := List.append_of_mem hfut
  obtain ⟨⟨progress, msgs⟩, hsome⟩ := Option.isSome_iff_exists.1 hadvance
  exact ⟨_, .advance hphase hwhere hsome⟩

/-- A future has completed, can be driven, or waits for the engine. -/
theorem ImportFut.WellFormed.cases {fut : ImportFut} (h : fut.WellFormed) (provider : Provider) :
    fut.complete = true ∨ (fut.advance hashSlow provider).isSome ∨
      ∃ msg, fut.awaited = some msg := by
  rcases hprogress : fut.progress with - | currentHead | msg | reply | -
  · refine .inr (.inl ?_)
    rcases hkind : fut.kind with - | - <;> rw [ImportFut.advance, hkind, hprogress] <;> rfl
  · refine .inr (.inl ?_)
    rw [ImportFut.advance, h currentHead hprogress, hprogress]
    rcases hhash : provider.blockHash currentHead with - | currentHash <;> simp only [hhash] <;> rfl
  · exact .inr (.inr ⟨msg, by rw [ImportFut.awaited, hprogress]⟩)
  · exact .inl (by rw [ImportFut.complete, hprogress])
  · exact .inl (by rw [ImportFut.complete, hprogress])

end Completion

/-! ### The task -/

/-- The service as a task, with three things that its state does not say: whether somebody has woken
it since its last poll began, whether that poll ended at a future without an outcome, and the blocks
that have come in. -/
structure Task where
  state : State
  woken : Bool
  leftEarly : Bool
  arrived : List (BlockMsg × PeerId)

namespace Task

/-- A task that was spawned is polled once. -/
def new (provider : Provider) : Task where
  state := .new provider
  woken := true
  leftEarly := false
  arrived := []

/-- Whether a move leaves the task woken. What a running poll has not looked at yet needs no
wake-up, and may give none. -/
def Wakes (t : Task) : Action → Bool → Prop
  | .arrive _ _, woken => woken = true ∨ t.state.phase = .receiving ∧ woken = t.woken
  | .closeNetwork, woken => woken = true ∨ woken = t.woken
  | .startPoll, woken => t.woken = true ∧ woken = false
  | .reply _, woken => woken = true ∨ t.state.phase ≠ .idle ∧ woken = t.woken
  | _, woken => woken = t.woken

/-- The task after a move. -/
def after (t : Task) (a : Action) (s : State) (woken : Bool) : Task where
  state := s
  woken := woken
  leftEarly :=
    match a with
    | .startPoll => false
    | .take fut => fut.output.isNone
    | _ => t.leftEarly
  arrived :=
    match a with
    | .arrive block peer => t.arrived ++ [(block, peer)]
    | _ => t.arrived

section

variable (hashSlow : Header → B256) (numberOf : B256 → ℕ)

/-- One move. A poll starts only after a wake-up, and the set says `Pending` only when it has driven
all that it can. -/
inductive Step (t : Task) (a : Action) : Task → Prop
  | mk {s : State} {woken : Bool} (hstep : ImportService.Step hashSlow numberOf t.state a s)
      (hwakes : t.Wakes a woken)
      (hdriven : a = .noneReady →
        ∀ fut ∈ t.state.pendingImports, fut.advance hashSlow t.state.provider = none) :
      Step t a (t.after a s woken)

/-- The runs whose every move meets a condition on the state before it. -/
def Runs (allowed : State → Action → Prop) : Task → Task → Prop :=
  Relation.ReflTransGen fun t t' ↦ ∃ a, allowed t.state a ∧ Step hashSlow numberOf t a t'

end

end Task

/-- What comes from outside the service and the engine. -/
def Action.IsOutside : Action → Prop
  | .arrive _ _ | .closeNetwork => True
  | _ => False

/-- An event that gives its future an outcome. -/
def Event.Conclusive : Event → Prop
  | .replies (.ok .valid) | .replies (.ok (.invalid _)) | .yields _ => True
  | _ => False

/-- The engine answers `Valid` or `Invalid`, and no read fails. -/
def Conclusive (s : State) (a : Action) : Prop :=
  ∀ e ∈ events s a, e.Conclusive

/-- How far a poll is from its end. -/
def Phase.rank : Phase → ℕ
  | .receiving => 2
  | .draining => 1
  | .idle | .ended => 0

namespace Task

/-- A bound on the moves that are left. -/
def moves (t : Task) : ℕ :=
  6 * work t.state + 3 * t.woken.toNat + t.state.phase.rank

/-- Everything is done: each block that has come in has had its two futures, both have completed,
and the network was told their outcomes. -/
structure Finished (t : Task) : Prop where
  fromNetwork : t.state.fromNetwork = []
  pendingImports : t.state.pendingImports = []
  engine : t.state.engine = []
  two : (subjects t.arrived).Perm (t.state.completed.map ImportFut.subject)
  sent : t.state.toNetwork.Perm (outcomes t.state.completed)

/-- Nothing can move but from outside. -/
def AtRest (hashSlow : Header → B256) (numberOf : B256 → ℕ) (t : Task) : Prop :=
  ∀ a t', Step hashSlow numberOf t a t' → a.IsOutside

/-- **The invariant of the wake-ups.** A task that nobody has woken has seen all blocks when a poll
has been over the channel, and when its last poll has seen all of the set, every future waits. -/
structure Attended (t : Task) : Prop where
  arrived : t.arrived = t.state.received ++ t.state.fromNetwork
  fromNetwork : t.woken = false → t.state.phase = .draining ∨ t.state.phase = .idle →
    t.state.fromNetwork = []
  waiting : t.woken = false → t.state.phase = .idle → t.leftEarly = false →
    ∀ fut ∈ t.state.pendingImports, ∃ msg, fut.awaited = some msg

section

variable {hashSlow : Header → B256} {numberOf : B256 → ℕ} {t t' : Task} {a : Action}

/-- **The rule for invariants of runs.** -/
theorem Runs.invariant {allowed : State → Action → Prop} {P : Task → Prop}
    (hrun : Runs hashSlow numberOf allowed t t')
    (hstep : ∀ {t a t'}, P t → allowed t.state a → Step hashSlow numberOf t a t' → P t')
    (ht : P t) : P t' := by
  induction hrun with
  | refl => exact ht
  | tail _ hlast ih =>
    obtain ⟨a, ha, hstep'⟩ := hlast
    exact hstep ih ha hstep'

/-- One more move. -/
theorem Runs.step {allowed : State → Action → Prop} (hrun : Runs hashSlow numberOf allowed t t')
    {t'' : Task} (hstep : Step hashSlow numberOf t' a t'') (ha : allowed t'.state a) :
    Runs hashSlow numberOf allowed t t'' :=
  hrun.tail ⟨a, ha, hstep⟩

theorem Runs.mono {allowed allowed' : State → Action → Prop}
    (hrun : Runs hashSlow numberOf allowed t t') (h : ∀ {s a}, allowed s a → allowed' s a) :
    Runs hashSlow numberOf allowed' t t' :=
  Relation.ReflTransGen.mono (fun _ _ ⟨a, ha, hstep⟩ ↦ ⟨a, h ha, hstep⟩) _ _ hrun

theorem Step.state (h : Step hashSlow numberOf t a t') :
    ImportService.Step hashSlow numberOf t.state a t'.state := by
  obtain ⟨hstep, -, -⟩ := h
  exact hstep

/-! ### It comes to rest -/

/-- **Every move of the service and the engine uses up one of those left.** -/
theorem Step.moves_lt (h : Step hashSlow numberOf t a t') (ha : ¬ a.IsOutside) :
    t'.moves < t.moves := by
  obtain ⟨hstep, hwakes, -⟩ := h
  rename_i s woken
  have hwork := work_step hstep (by rintro block peer rfl; exact ha trivial)
  have hwoken := woken.toNat_le
  have hrank : s.phase.rank ≤ 2 := by
    rcases s.phase with - | - | - | - <;> decide
  show 6 * work s + 3 * woken.toNat + s.phase.rank < t.moves
  by_cases hidle : a.IsIdle
  · -- a turn of the poll
    cases hstep with
    | startPoll hphase =>
      obtain ⟨hbefore, rfl⟩ := hwakes
      rw [moves, hbefore, hphase]
      show 6 * work t.state + 3 * 0 + 2 < 6 * work t.state + 3 * 1 + 0
      omega
    | received hphase =>
      obtain rfl : woken = t.woken := hwakes
      rw [moves, hphase]
      exact Nat.lt_succ_self _
    | noneReady hphase =>
      obtain rfl : woken = t.woken := hwakes
      rw [moves, hphase]
      exact Nat.lt_succ_self _
    | closeNetwork => exact absurd trivial ha
    | arrive | receive | advance | providerError | takeSome | takeClosed | takeNone | reply =>
      exact hidle.elim
  · have hless := hwork.2 hidle
    rw [moves]
    omega

/-- So many moves bring it to rest. -/
theorem length_le_moves {run : ℕ → Task} {acts : ℕ → Action} {n : ℕ}
    (hsteps : ∀ i < n, Step hashSlow numberOf (run i) (acts i) (run (i + 1)) ∧
      ¬ (acts i).IsOutside) : n + (run n).moves ≤ (run 0).moves := by
  induction n with
  | zero => exact (Nat.zero_add _).le
  | succ n ih =>
    have hbefore := ih fun i hi ↦ hsteps i (Nat.lt_succ_of_lt hi)
    have hless := (hsteps n (Nat.lt_succ_self n)).1.moves_lt (hsteps n (Nat.lt_succ_self n)).2
    omega

/-- **At rest** are exactly the tasks that nobody has woken since their last poll, with an engine
that has nothing to answer. -/
theorem atRest_iff (h : Conserved t.state) (hended : t.state.phase ≠ .ended) :
    AtRest hashSlow numberOf t ↔ t.state.phase = .idle ∧ t.woken = false ∧ t.state.engine = [] := by
  constructor
  · intro hrest
    -- every other state has a move
    have hmove : ∀ {a s woken}, ImportService.Step hashSlow numberOf t.state a s → t.Wakes a woken →
        a ≠ .noneReady → a.IsOutside :=
      fun hstep hwakes hne ↦ hrest _ _ (.mk hstep hwakes fun h ↦ absurd h hne)
    have hphase : t.state.phase = .idle := by
      rcases hphase : t.state.phase with - | - | - | -
      · rfl
      · rcases hnetwork : t.state.fromNetwork with - | ⟨⟨block, peer⟩, rest⟩
        · exact (hmove (.received hphase hnetwork) rfl (by decide)).elim
        · exact (hmove (.receive hphase hnetwork) rfl (by decide)).elim
      · by_cases hcomplete : ∃ fut ∈ t.state.pendingImports, fut.complete = true
        · obtain ⟨fut, hfut, hcomplete⟩ := hcomplete
          obtain ⟨s, hstep⟩ := exists_take hphase hfut hcomplete
          exact (hmove hstep rfl (by simp)).elim
        · by_cases hadvance : ∃ fut ∈ t.state.pendingImports,
              (fut.advance hashSlow t.state.provider).isSome
          · obtain ⟨fut, hfut, hadvance⟩ := hadvance
            obtain ⟨s, hstep⟩ := exists_advance hphase hfut hadvance
            exact (hmove hstep rfl (by simp)).elim
          · refine (hrest .noneReady _ (.mk (.noneReady hphase fun fut hfut ↦ ?_) rfl
              fun _ fut hfut ↦ ?_)).elim
            · exact Bool.eq_false_iff.2 fun h ↦ hcomplete ⟨fut, hfut, h⟩
            · exact Option.not_isSome_iff_eq_none.1 fun h ↦ hadvance ⟨fut, hfut, h⟩
      · exact absurd hphase hended
    refine ⟨hphase, Bool.eq_false_iff.2 fun hwoken ↦ ?_, ?_⟩
    · exact hmove (.startPoll hphase) ⟨hwoken, rfl⟩ (by decide)
    · by_contra hengine
      obtain ⟨s, hstep⟩ := h.exists_reply hengine .err
      exact hmove hstep (.inl rfl) (by decide)
  · rintro ⟨hphase, hwoken, hengine⟩ a t' ⟨hstep, hwakes, -⟩
    cases hstep with
    | arrive | closeNetwork => trivial
    | startPoll => exact absurd (hwoken.symm.trans hwakes.1) (by decide)
    | receive h | received h | advance h | providerError h | takeSome h | takeClosed h
    | takeNone h | noneReady h => exact absurd (hphase.symm.trans h) (by decide)
    | reply _ hmsg => exact absurd (hengine.symm.trans hmsg) (by simp)

/-! ### What it has done by then -/

theorem attended_new (provider : Provider) : Attended (new provider) where
  arrived := rfl
  fromNetwork := fun _ _ ↦ rfl
  waiting := fun _ _ _ _ hfut ↦ absurd hfut List.not_mem_nil

/-- A move that neither wakes the task nor touches the channel, in a poll. -/
theorem Attended.of_draining (h : Attended t) (hphase : t.state.phase = .draining) {s : State}
    {left : Bool} (hreceived : s.received = t.state.received)
    (hnetwork : s.fromNetwork = t.state.fromNetwork)
    (hwaiting : s.phase = .idle → left = false →
      ∀ fut ∈ s.pendingImports, ∃ msg, fut.awaited = some msg) :
    Attended { t with state := s, leftEarly := left } where
  arrived := by rw [hreceived, hnetwork, h.arrived]
  fromNetwork := fun hwoken _ ↦ hnetwork.trans (h.fromNetwork hwoken (.inl hphase))
  waiting := fun _ hidle hleft ↦ hwaiting hidle hleft

/-- **Every move keeps the task attended.** -/
theorem Attended.step (h : Attended t) (hconserved : Conserved t.state)
    (hstep : Step hashSlow numberOf t a t') : Attended t' := by
  obtain ⟨hstep, hwakes, hdriven⟩ := hstep
  rename_i s woken
  cases hstep with
  | arrive block peer =>
    refine ⟨?_, fun hwoken hphase ↦ ?_, fun hwoken hphase ↦ ?_⟩
    · show t.arrived ++ _ = t.state.received ++ (t.state.fromNetwork ++ _)
      rw [h.arrived, List.append_assoc]
    · -- unless the poll still looks at the channel, the block wakes the task
      rcases hwakes with rfl | ⟨hreceiving, -⟩
      · cases hwoken
      · rcases hphase with hphase | hphase <;>
          exact absurd (hreceiving.symm.trans hphase) (by decide)
    · rcases hwakes with rfl | ⟨hreceiving, -⟩
      · cases hwoken
      · exact absurd (hreceiving.symm.trans hphase) (by decide)
  | closeNetwork =>
    have hwoken : woken = false → t.woken = false := by
      rcases hwakes with rfl | rfl
      · exact fun h ↦ (by cases h)
      · exact id
    exact ⟨h.arrived, fun hnot ↦ h.fromNetwork (hwoken hnot), fun hnot ↦ h.waiting (hwoken hnot)⟩
  | startPoll hphase =>
    refine ⟨h.arrived, fun _ hnext ↦ ?_, fun _ hnext ↦ by cases hnext⟩
    rcases hnext with hnext | hnext <;> cases hnext
  | @receive block peer rest hphase hblock =>
    refine ⟨?_, fun _ hnext ↦ ?_, fun _ hnext ↦ ?_⟩
    · show t.arrived = (t.state.received ++ [(block, peer)]) ++ rest
      rw [h.arrived, hblock, List.append_assoc]
      rfl
    · rcases hnext with hnext | hnext <;> exact absurd (hphase.symm.trans hnext) (by decide)
    · exact absurd (hphase.symm.trans hnext) (by decide)
  | received hphase hempty =>
    exact ⟨h.arrived, fun _ _ ↦ hempty, fun _ hnext ↦ by cases hnext⟩
  | noneReady hphase hnone =>
    obtain rfl : woken = t.woken := hwakes
    refine h.of_draining hphase rfl rfl fun _ _ fut hfut ↦ ?_
    -- what has not completed and cannot be driven waits
    rcases (hconserved.wellFormed fut hfut).cases t.state.provider with
      hcomplete | hadvance | hawaited
    · rw [hnone fut hfut] at hcomplete
      cases hcomplete
    · rw [hdriven rfl fut hfut] at hadvance
      cases hadvance
    · exact hawaited
  | advance hphase | providerError hphase =>
    obtain rfl : woken = t.woken := hwakes
    exact h.of_draining hphase rfl rfl fun hidle ↦ absurd (hphase.symm.trans hidle) (by decide)
  | takeSome hphase =>
    obtain rfl : woken = t.woken := hwakes
    exact h.of_draining hphase rfl rfl fun hidle ↦ absurd (hphase.symm.trans hidle) (by decide)
  | takeClosed hphase =>
    obtain rfl : woken = t.woken := hwakes
    exact h.of_draining hphase rfl rfl fun hidle ↦ by cases hidle
  | takeNone hphase _ _ houtput =>
    obtain rfl : woken = t.woken := hwakes
    refine h.of_draining hphase rfl rfl fun _ hleft ↦ ?_
    have hsome : Option.isNone _ = false := hleft
    rw [houtput] at hsome
    cases hsome
  | reply reply =>
    refine ⟨h.arrived, fun hnot hphase ↦ ?_, fun hnot hphase ↦ ?_⟩
    · rcases hwakes with rfl | ⟨-, rfl⟩
      · cases hnot
      · exact h.fromNetwork hnot hphase
    · -- unless a poll is running, the reply wakes the task
      rcases hwakes with rfl | ⟨hrunning, -⟩
      · cases hnot
      · exact absurd hphase hrunning

/-- What every run keeps. -/
theorem Runs.kept {allowed : State → Action → Prop} {provider : Provider}
    (hrun : Runs hashSlow numberOf allowed (new provider) t) :
    Conserved t.state ∧ Accounted t.state ∧ Attended t := by
  refine hrun.invariant (P := fun t ↦ Conserved t.state ∧ Accounted t.state ∧ Attended t)
    (fun ⟨hconserved, haccount, hattended⟩ _ hstep ↦ ?_) ?_
  · exact ⟨hconserved.step hstep.state, haccount.step hstep.state, hattended.step hconserved hstep⟩
  · exact ⟨conserved_new provider, accounted_new provider, attended_new provider⟩

theorem Runs.atRest {allowed : State → Action → Prop} {provider : Provider}
    (hrun : Runs hashSlow numberOf allowed (new provider) t) (hphase : t.state.phase = .idle)
    (hwoken : t.woken = false) (hengine : t.state.engine = []) : AtRest hashSlow numberOf t :=
  (atRest_iff hrun.kept.1 (by rw [hphase]; decide)).2 ⟨hphase, hwoken, hengine⟩

/-- A task with an empty set and nothing to receive has finished. -/
theorem finished_of_nil (hconserved : Conserved t.state) (haccount : Accounted t.state)
    (hattended : Attended t) (hended : t.state.phase ≠ .ended)
    (hnetwork : t.state.fromNetwork = []) (hpending : t.state.pendingImports = []) :
    t.Finished where
  fromNetwork := hnetwork
  pendingImports := hpending
  engine := by
    have hqueued := hconserved.queued
    rw [hpending] at hqueued
    exact hqueued.eq_nil
  two := by
    have htwo := hconserved.two
    rw [hpending] at htwo
    rw [hattended.arrived, hnetwork, List.append_nil]
    exact htwo
  sent := by
    refine (haccount.drained hended fun fut hfut ↦ ?_).sent
    rw [hpending] at hfut
    exact absurd hfut List.not_mem_nil

/-- In a conclusive run every completed future has an outcome, and no poll ends early. -/
theorem Runs.conclusive {provider : Provider}
    (hrun : Runs hashSlow numberOf Conclusive (new provider) t) :
    (∀ fut ∈ t.state.pendingImports, fut.complete = true → fut.output.isSome) ∧
      t.leftEarly = false := by
  refine hrun.invariant (P := fun t ↦ (∀ fut ∈ t.state.pendingImports, fut.complete = true →
      fut.output.isSome) ∧ t.leftEarly = false) (fun ⟨houtcome, hleft⟩ hconclusive hstep ↦ ?_)
    ⟨fun _ hfut ↦ absurd hfut List.not_mem_nil, rfl⟩
  obtain ⟨hstep, -, -⟩ := hstep
  cases hstep with
  | arrive | closeNetwork | received | noneReady => exact ⟨houtcome, hleft⟩
  | startPoll => exact ⟨houtcome, rfl⟩
  | receive =>
    refine ⟨fun fut hfut hcomplete ↦ ?_, hleft⟩
    rcases List.mem_append.1 hfut with hfut | hfut
    · exact houtcome fut hfut hcomplete
    · simp only [List.mem_cons, List.not_mem_nil, or_false] at hfut
      rcases hfut with rfl | rfl <;> cases hcomplete
  | @advance front back fut progress msgs hphase hfut hadvance =>
    refine ⟨fun other hother hcomplete ↦ ?_, hleft⟩
    rcases mem_or_eq_of_mem_insert hother with rfl | hother
    · -- it would have completed by a failed read
      rw [complete_advance hadvance] at hcomplete
      refine (hconclusive .readFails ?_).elim
      rw [events, if_pos hcomplete]
      exact List.mem_cons_self
    · exact houtcome other (hfut ▸ mem_insert_of_mem hother) hcomplete
  | providerError => exact (hconclusive .readFails List.mem_cons_self).elim
  | takeSome _ hfut houtput | takeClosed _ hfut houtput =>
    refine ⟨fun other hother ↦ houtcome other (hfut ▸ mem_insert_of_mem hother), ?_⟩
    show Option.isNone _ = false
    rw [houtput]
    rfl
  | takeNone _ hfut hcomplete houtput =>
    have hsome := houtcome _ (hfut ▸ List.mem_append_right _ List.mem_cons_self) hcomplete
    rw [houtput] at hsome
    cases hsome
  | @reply front back fut msg rest provider reply hmsg hfut =>
    refine ⟨fun other hother hcomplete ↦ ?_, hleft⟩
    rcases mem_or_eq_of_mem_insert hother with rfl | hother
    · have := hconclusive (.replies reply) List.mem_cons_self
      rcases reply with status | -
      · rcases status with - | error | - | -
        · rfl
        · rfl
        · exact this.elim
        · exact this.elim
      · exact this.elim
    · exact houtcome other (hfut ▸ mem_insert_of_mem hother) hcomplete

end

end Task

/-- **The import service completes.** Take any task that a run leads to and that has not ended. With
nothing new from outside it makes a bounded number of moves and then is at rest. At rest it has
finished, or its last poll ended at a future without an outcome and the set holds futures that one
more poll would move. If the engine has always answered `Valid` or `Invalid` and no read has failed,
it has finished. -/
theorem imports_complete {hashSlow : Header → B256} {numberOf : B256 → ℕ} {provider : Provider}
    {t : Task} (hrun : Task.Runs hashSlow numberOf (fun _ _ ↦ True) (.new provider) t)
    (hended : t.state.phase ≠ .ended) :
    (∀ (run : ℕ → Task) (acts : ℕ → Action) n, run 0 = t →
      (∀ i < n, Task.Step hashSlow numberOf (run i) (acts i) (run (i + 1)) ∧
        ¬ (acts i).IsOutside) → n ≤ t.moves) ∧
    (t.AtRest hashSlow numberOf → t.Finished ∨
      t.leftEarly = true ∧ t.state.pendingImports ≠ [] ∧ ∀ fut ∈ t.state.pendingImports,
        fut.complete = true ∨ (fut.advance hashSlow t.state.provider).isSome) ∧
    (Task.Runs hashSlow numberOf Conclusive (.new provider) t → t.AtRest hashSlow numberOf →
      t.Finished) := by
  obtain ⟨hconserved, haccount, hattended⟩ := hrun.kept
  have hrest : t.AtRest hashSlow numberOf → t.Finished ∨
      t.leftEarly = true ∧ t.state.pendingImports ≠ [] ∧ ∀ fut ∈ t.state.pendingImports,
        fut.complete = true ∨ (fut.advance hashSlow t.state.provider).isSome := by
    intro hrest
    obtain ⟨hidle, hwoken, hengine⟩ := (Task.atRest_iff hconserved hended).1 hrest
    have hnetwork := hattended.fromNetwork hwoken (.inr hidle)
    -- nobody waits for an engine that has no message
    have hnobody : ∀ fut ∈ t.state.pendingImports, ∀ msg, fut.awaited ≠ some msg := by
      intro fut hfut msg hawaited
      have hmsg := hconserved.queued.mem_iff.2 (List.mem_filterMap.2 ⟨fut, hfut, hawaited⟩)
      rw [hengine] at hmsg
      exact absurd hmsg List.not_mem_nil
    by_cases hpending : t.state.pendingImports = []
    · exact .inl (Task.finished_of_nil hconserved haccount hattended hended hnetwork hpending)
    · refine .inr ⟨Bool.eq_true_of_not_eq_false fun hleft ↦ ?_, hpending, fun fut hfut ↦ ?_⟩
      · obtain ⟨fut, hfut⟩ := List.exists_mem_of_ne_nil _ hpending
        obtain ⟨msg, hawaited⟩ := hattended.waiting hwoken hidle hleft fut hfut
        exact hnobody fut hfut msg hawaited
      · rcases (hconserved.wellFormed fut hfut).cases t.state.provider with
          hcomplete | hadvance | ⟨msg, hawaited⟩
        · exact .inl hcomplete
        · exact .inr hadvance
        · exact absurd hawaited (hnobody fut hfut msg)
  refine ⟨?_, hrest, fun hconclusive h ↦ ?_⟩
  · rintro run acts n rfl hsteps
    have := Task.length_le_moves hsteps
    omega
  · refine (hrest h).resolve_right fun ⟨hleft, _⟩ ↦ ?_
    rw [hconclusive.conclusive.2] at hleft
    cases hleft

/-! ### Example runs -/

/-- The example of two polls: the block wakes the task, and so do the replies. -/
def exampleTask (reply : EngineReply) : Task where
  state := exampleAnswered reply
  woken := false
  leftEarly := false
  arrived := [(exampleMsg 1, 7)]

theorem taskRuns_exampleTask {reply : EngineReply} {allowed : State → Action → Prop}
    (hsilent : ∀ {s a}, events s a = [] → allowed s a) (hreply : ∀ {s}, allowed s (.reply reply))
    (hvalid : ∀ {s}, allowed s (.reply (.ok .valid))) :
    Task.Runs exampleHash exampleNumberOf allowed (.new (exampleProvider 0))
      (exampleTask reply) := by
  let payload := exampleFut .newPayload 1
  let choice := exampleFut .updateForkChoice 1
  let newPayload := EngineMsg.newPayload (exampleHash (.zero 1))
  let forkChoice := EngineMsg.forkChoiceUpdated (exampleHash (.zero 1))
  have hstart : Task.Runs exampleHash exampleNumberOf allowed (.new (exampleProvider 0))
      (.new (exampleProvider 0)) := .refl
  exact hstart
    |>.step (.mk (.arrive (exampleMsg 1) 7) (.inl rfl) nofun) (hsilent rfl)
    |>.step (.mk (.startPoll rfl) ⟨rfl, rfl⟩ nofun) (hsilent rfl)
    |>.step (.mk (.receive rfl rfl) rfl nofun) (hsilent rfl)
    |>.step (.mk (.received rfl rfl) rfl nofun) (hsilent rfl)
    |>.step (.mk (@Step.advance _ _ _ [] [choice .created] (payload .created) _ _ rfl rfl rfl)
      rfl nofun) (hsilent rfl)
    |>.step (.mk (@Step.advance _ _ _ [payload (.awaiting newPayload)] [] (choice .created) _ _
      rfl rfl rfl) rfl nofun) (hsilent rfl)
    |>.step (.mk (@Step.advance _ _ _ [payload (.awaiting newPayload)] [] (choice (.readHead 0)) _ _
      rfl rfl rfl) rfl nofun) (hsilent rfl)
    |>.step (.mk (.noneReady rfl (by decide)) rfl fun _ ↦
      List.forall_mem_cons.2 ⟨rfl, List.forall_mem_singleton.2 rfl⟩) (hsilent rfl)
    |>.step (.mk (@Step.reply _ _ _ [] [choice (.awaiting forkChoice)]
      (payload (.awaiting newPayload)) _ _ _ reply rfl rfl rfl .payload) (.inl rfl) nofun) hreply
    |>.step (.mk (@Step.reply _ _ _ [payload (.replied reply)] [] (choice (.awaiting forkChoice)) _
      _ (exampleProvider 1) (.ok .valid) rfl rfl rfl (.forkChoice rfl)) (.inl rfl) nofun) hvalid
    |>.step (.mk (.startPoll rfl) ⟨rfl, rfl⟩ nofun) (hsilent rfl)
    |>.step (.mk (.received rfl rfl) rfl nofun) (hsilent rfl)

/-- With two valid replies the service finishes. With `Syncing` for the payload, taken first, it
comes to rest with the other outcome still in the set. -/
theorem imports_complete_examples :
    (∃ t, Task.Runs exampleHash exampleNumberOf Conclusive (.new (exampleProvider 0)) t ∧
      t.AtRest exampleHash exampleNumberOf ∧ t.Finished ∧ t.state.toNetwork.length = 2) ∧
    ∃ t, Task.Runs exampleHash exampleNumberOf (fun _ _ ↦ True) (.new (exampleProvider 0)) t ∧
      t.AtRest exampleHash exampleNumberOf ∧ ¬ t.Finished ∧ t.leftEarly = true := by
  let payload reply := exampleFut .newPayload 1 (.replied reply)
  let choice := exampleFut .updateForkChoice 1 (.replied (.ok .valid))
  constructor
  · have hrun : Task.Runs exampleHash exampleNumberOf Conclusive (.new (exampleProvider 0))
        (exampleTask (.ok .valid)) := by
      refine taskRuns_exampleTask (fun h e he ↦ ?_) ?_ ?_
      · rw [h] at he
        exact absurd he List.not_mem_nil
      · exact fun e he ↦ (List.mem_singleton.1 he) ▸ trivial
      · exact fun e he ↦ (List.mem_singleton.1 he) ▸ trivial
    have hall := hrun
      |>.step (.mk (@Step.takeSome _ _ _ [] [choice] (payload (.ok .valid)) _ rfl rfl rfl rfl)
        rfl nofun) (fun e he ↦ (List.mem_singleton.1 he) ▸ trivial)
      |>.step (.mk (@Step.takeSome _ _ _ [] [] choice _ rfl rfl rfl rfl) rfl nofun)
        (fun e he ↦ (List.mem_singleton.1 he) ▸ trivial)
      |>.step (.mk (.noneReady rfl fun _ h ↦ absurd h List.not_mem_nil) rfl
        fun _ _ h ↦ absurd h List.not_mem_nil) (fun _ h ↦ absurd h List.not_mem_nil)
    have htrue := hall.mono (fun {_ _} _ ↦ trivial)
    have hrest := hall.atRest rfl rfl rfl
    exact ⟨_, hall, hrest, (imports_complete htrue (by decide)).2.2 hall hrest, rfl⟩
  · have hrun : Task.Runs exampleHash exampleNumberOf (fun _ _ ↦ True) (.new (exampleProvider 0))
        (exampleTask (.ok .syncing)) :=
      taskRuns_exampleTask (fun _ ↦ trivial) trivial trivial
    have hall := hrun.step (.mk (@Step.takeNone _ _ _ [] [choice] (payload (.ok .syncing))
      rfl rfl rfl rfl) rfl nofun) trivial
    have hrest := hall.atRest rfl rfl rfl
    have hleft := ((imports_complete hall (by decide)).2.1 hrest).resolve_left fun h ↦
      List.cons_ne_nil choice [] h.pendingImports
    exact ⟨_, hall, hrest, fun h ↦ List.cons_ne_nil choice [] h.pendingImports, hleft.1⟩

end RethHl.ImportService
