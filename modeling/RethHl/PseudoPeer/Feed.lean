import RethHl.PseudoPeer.Poller

/-!
# What the poller feeds to the network

Whatever the order in which the main loop, the task and the network manager move, and however often
the source fails in between, the announcements are the blocks of **consecutive heights, each once
and in order**, from the latest block that the source had when the task started. This is an
invariant of the poller (`BlockPoller.Inv`): what has been announced and what waits in the channel
is together the feed of the heights before the one that the task is at. As long as the network
manager is there nothing of it is lost.

The task starts with the first session and not earlier, and the send of the signal neither fails nor
waits: until then the task waits at the other end of the empty channel (`Pipeline.Signal`).

The main loop answers requests at the same time. The poller only records pairs of a block's hash and
its height, so for the lookup of hashes it is an environment as `PeerState.Env` has it, and every
run of the pipeline is, at the lookup, a run of the peer (`Pipeline.peerRuns_of_runs`).
-/

namespace RethHl.PseudoPeer

/-- The announcements of consecutive heights. Heights have 64 bits. -/
def BlockSource.feed (source : BlockSource) (start count : ℕ) : List BlockMsg :=
  (List.range count).map fun i ↦ source.announcement (source.block ((start + i) % u64Size))

theorem BlockSource.feed_succ (source : BlockSource) (start count : ℕ) :
    source.feed start (count + 1) =
      source.feed start count ++
        [source.announcement (source.block ((start + count) % u64Size))] := by
  rw [feed, List.range_succ, List.map_append]
  rfl

/-! ### The poller -/

namespace BlockPoller

section Invariant

variable {source : BlockSource}

variable (source) in
/-- The announcements made, and those of the blocks in the channel. -/
def fed (p : BlockPoller) : List BlockMsg :=
  p.announced ++ p.blockTx.queue.map fun entry ↦ source.announcement entry.2

/-- A height and its block, which the source holds. -/
def Holds (world : World source) (entry : ℕ × BlockAndReceipts) : Prop :=
  entry.2 = source.block entry.1 ∧ world.held entry.1 = true

/-- The task has started and has put a number of blocks into the channel. -/
structure Fed (world : World source) (p : BlockPoller) (start count : ℕ) : Prop where
  fed_prefix : p.fed source <+: source.feed start count
  /-- As long as the network manager is there, no block is lost. -/
  complete : p.blockTx.receiver = true → p.fed source = source.feed start count
  next : ∀ n, p.task.nextBlockNumber = some n → n = (start + count) % u64Size
  start_le : start ≤ world.latest

/-- The invariant of the poller. -/
structure Inv (world : World source) (p : BlockPoller) : Prop where
  early : p.task.early = true → p.found = none
  unfound : p.found = none → p.fed source = [] ∧ p.task.nextBlockNumber = none
  entries : ∀ entry ∈ p.blockTx.queue, Holds world entry
  sending : ∀ n block, p.task = .sending n block → Holds world (n, block)
  found : ∀ start, p.found = some start → ∃ count, Fed world p start count

theorem inv_newSuspended (world : World source) : Inv world newSuspended where
  early := fun _ ↦ rfl
  unfound := fun _ ↦ ⟨rfl, rfl⟩
  entries := fun _ h ↦ absurd h List.not_mem_nil
  sending := fun _ _ h ↦ by cases h
  found := fun _ h ↦ by cases h

variable {world : World source} {p p' : BlockPoller}

/-- A source that grows. -/
theorem Inv.mono {world' : World source} (hinv : Inv world p)
    (hlatest : world.latest ≤ world'.latest)
    (hheld : ∀ n, world.held n = true → world'.held n = true) : Inv world' p where
  early := hinv.early
  unfound := hinv.unfound
  entries := fun entry hentry ↦
    ⟨(hinv.entries entry hentry).1, hheld _ (hinv.entries entry hentry).2⟩
  sending := fun n block hsending ↦
    ⟨(hinv.sending n block hsending).1, hheld _ (hinv.sending n block hsending).2⟩
  found := fun start hstart ↦ by
    obtain ⟨count, hfed⟩ := hinv.found start hstart
    exact ⟨count, hfed.fed_prefix, hfed.complete, hfed.next, hfed.start_le.trans hlatest⟩

/-- The task moves within a height, or ends; the sender's end may go. -/
theorem Inv.of_task (hinv : Inv world p) (hqueue : p'.blockTx.queue = p.blockTx.queue)
    (hreceiver : p'.blockTx.receiver = p.blockTx.receiver) (hfound : p'.found = p.found)
    (hannounced : p'.announced = p.announced)
    (hearly : p'.task.early = true → p.task.early = true)
    (hnext : ∀ n, p'.task.nextBlockNumber = some n → p.task.nextBlockNumber = some n)
    (hsending : ∀ n block, p'.task = .sending n block → Holds world (n, block)) :
    Inv world p' := by
  have hfed : p'.fed source = p.fed source := by rw [fed, fed, hqueue, hannounced]
  constructor
  case early => exact fun h ↦ hfound.trans (hinv.early (hearly h))
  case unfound =>
    intro hnone
    obtain ⟨hempty, hno⟩ := hinv.unfound (hfound.symm.trans hnone)
    refine ⟨hfed.trans hempty, Option.eq_none_iff_forall_ne_some.2 fun n hn ↦ ?_⟩
    rw [hnext n hn] at hno
    cases hno
  case entries =>
    rw [hqueue]
    exact hinv.entries
  case sending => exact hsending
  case found =>
    intro start hstart
    obtain ⟨count, h⟩ := hinv.found start (hfound.symm.trans hstart)
    refine ⟨count, hfed ▸ h.fed_prefix, fun halive ↦ ?_, ?_, h.start_le⟩
    · rw [hfed]
      exact h.complete (hreceiver ▸ halive)
    · exact fun n hn ↦ h.next n (hnext n hn)

/-- The task ends. -/
theorem Inv.fail (hinv : Inv world p) (error : String) : Inv world (p.fail error) := by
  refine hinv.of_task rfl rfl rfl rfl (fun h ↦ ?_) (fun n h ↦ ?_) (fun n block h ↦ ?_)
  all_goals cases h

/-- The task gets the height to start from. -/
theorem Inv.start (hinv : Inv world p) (htask : p.task = .starting) :
    Inv world (p.start world.latest) := by
  have hearly : p.task.early = true := by
    rw [htask]
    rfl
  obtain ⟨hfed, -⟩ := hinv.unfound (hinv.early hearly)
  constructor
  case early =>
    intro h
    cases h
  case unfound =>
    intro h
    cases h
  case entries => exact hinv.entries
  case sending =>
    intro n block h
    cases h
  case found =>
    intro first hfirst
    obtain rfl := Option.some.inj hfirst
    -- nothing has been fed so far, and the task is at the first height
    have hnone : (p.start world.latest).fed source = source.feed world.latest 0 := hfed
    refine ⟨0, hnone ▸ List.prefix_rfl, fun _ ↦ hnone, fun n hn ↦ ?_, Nat.le_refl _⟩
    rw [Nat.add_zero, Nat.mod_eq_of_lt world.latest_lt]
    exact (Option.some.inj hn).symm

/-- A block is put into the channel. -/
theorem Inv.send (hinv : Inv world p) {n : ℕ} {block : BlockAndReceipts}
    (htask : p.task = .sending n block) (hsend : p.send n block = some p') : Inv world p' := by
  obtain ⟨blockTx, hpush, rfl⟩ := Option.map_eq_some_iff.1 hsend
  obtain ⟨hqueue, -, hreceiver⟩ := Channel.push_eq_some hpush
  have hentry := hinv.sending n block htask
  have hnext : p.task.nextBlockNumber = some n := by
    rw [htask]
    rfl
  constructor
  case early =>
    intro h
    cases h
  case unfound =>
    intro hnone
    have hno := (hinv.unfound hnone).2
    rw [hnext] at hno
    cases hno
  case entries =>
    intro entry hmem
    rw [hqueue, List.mem_append, List.mem_singleton] at hmem
    rcases hmem with hmem | rfl
    · exact hinv.entries entry hmem
    · exact hentry
  case sending =>
    intro m block' h
    cases h
  case found =>
    intro start hstart
    obtain ⟨count, h⟩ := hinv.found start hstart
    have hn := h.next n hnext
    have hblock : block = source.block n := hentry.1
    -- the receiver is there, since the channel took the block
    have halive := Channel.receiver_of_push hpush
    have hfed : p.announced ++ blockTx.queue.map (fun entry ↦ source.announcement entry.2) =
        source.feed start (count + 1) := by
      rw [hqueue, List.map_append, ← List.append_assoc, BlockSource.feed_succ, ← hn,
        ← h.complete halive, ← hblock]
      rfl
    refine ⟨count + 1, ?_, fun _ ↦ hfed, fun m hm ↦ ?_, h.start_le⟩
    · exact hfed ▸ List.prefix_rfl
    · rw [← Option.some.inj hm, hn, Nat.mod_add_mod, Nat.add_assoc]

/-- The receiver goes. What has been announced stays the beginning of the feed. -/
theorem Inv.of_gone (hinv : Inv world p) (hqueue : p'.blockTx.queue = [])
    (hreceiver : p'.blockTx.receiver = false) (hfound : p'.found = p.found)
    (hannounced : p'.announced = p.announced) (htask : p'.task = p.task) : Inv world p' := by
  have hfed : p'.fed source <+: p.fed source := by
    rw [fed, fed, hqueue, hannounced, List.map_nil, List.append_nil]
    exact List.prefix_append _ _
  constructor
  case early =>
    rw [hfound, htask]
    exact hinv.early
  case unfound =>
    intro hnone
    obtain ⟨hempty, hno⟩ := hinv.unfound (hfound.symm.trans hnone)
    rw [hempty] at hfed
    exact ⟨List.prefix_nil.1 hfed, htask ▸ hno⟩
  case entries =>
    rw [hqueue]
    exact fun _ h ↦ absurd h List.not_mem_nil
  case sending =>
    rw [htask]
    exact hinv.sending
  case found =>
    intro start hstart
    obtain ⟨count, h⟩ := hinv.found start (hfound.symm.trans hstart)
    refine ⟨count, hfed.trans h.fed_prefix, fun halive ↦ ?_, ?_, h.start_le⟩
    · rw [hreceiver] at halive
      cases halive
    · rw [htask]
      exact h.next

/-- A block is announced: it moves from the channel to the announcements. -/
theorem Inv.of_announced (hinv : Inv world p) {entry : ℕ × BlockAndReceipts}
    (hqueue : p.blockTx.queue = entry :: p'.blockTx.queue)
    (hreceiver : p'.blockTx.receiver = p.blockTx.receiver) (hfound : p'.found = p.found)
    (hannounced : p'.announced = p.announced ++ [source.announcement entry.2])
    (htask : p'.task = p.task) : Inv world p' := by
  have hfed : p'.fed source = p.fed source := by
    rw [fed, fed, hqueue, hannounced, List.map_cons, List.append_assoc, List.singleton_append]
  constructor
  case early =>
    rw [hfound, htask]
    exact hinv.early
  case unfound =>
    intro hnone
    rw [hfed, htask]
    exact hinv.unfound (hfound.symm.trans hnone)
  case entries =>
    intro e he
    exact hinv.entries e (hqueue ▸ List.mem_cons_of_mem _ he)
  case sending =>
    rw [htask]
    exact hinv.sending
  case found =>
    intro start hstart
    obtain ⟨count, h⟩ := hinv.found start (hfound.symm.trans hstart)
    refine ⟨count, hfed ▸ h.fed_prefix, fun halive ↦ ?_, ?_, h.start_le⟩
    · rw [hfed]
      exact h.complete (hreceiver ▸ halive)
    · rw [htask]
      exact h.next

/-- **A poll** takes the first block of the channel and records its hash and height. -/
theorem poll_eq_some {pair : B256 × ℕ} (h : p.poll source = some (pair, p')) :
    ∃ entry blockTx, p.blockTx.queue = entry :: blockTx.queue ∧
      blockTx.receiver = p.blockTx.receiver ∧
      pair = ((source.announcement entry.2).hash, entry.1) ∧
      p' = if TdFits entry.2 then
          { p with
            blockTx := blockTx
            announced := p.announced ++ [source.announcement entry.2] }
        else { p with blockTx := blockTx.dropReceiver } := by
  obtain ⟨⟨entry, blockTx⟩, hpop, heq⟩ := Option.map_eq_some_iff.1 h
  obtain ⟨rfl, rfl⟩ := Prod.mk.inj heq
  obtain ⟨hqueue, -, hreceiver⟩ := Channel.pop_eq_some hpop
  exact ⟨entry, blockTx, hqueue, hreceiver, rfl, rfl⟩

theorem poll_task {pair : B256 × ℕ} (h : p.poll source = some (pair, p')) :
    p'.task = p.task ∧ p'.found = p.found := by
  obtain ⟨entry, blockTx, -, -, -, rfl⟩ := poll_eq_some h
  split_ifs
  · exact ⟨rfl, rfl⟩
  · exact ⟨rfl, rfl⟩

theorem Inv.poll (hinv : Inv world p) {pair : B256 × ℕ} (h : p.poll source = some (pair, p')) :
    Inv world p' := by
  obtain ⟨entry, blockTx, hqueue, hreceiver, -, rfl⟩ := poll_eq_some h
  split_ifs with htd
  · exact hinv.of_announced hqueue hreceiver rfl rfl rfl
  · exact hinv.of_gone rfl rfl rfl rfl rfl

end Invariant

end BlockPoller

/-! ### The steps of the pipeline -/

namespace Pipeline

variable {source : BlockSource}

/-- What a move changes, and when. -/
inductive Moves : Pipeline source → Pipeline source → Prop
  | stay {s : Pipeline source} : Moves s s
  /-- The first session. -/
  | signal {s : Pipeline source} {startTx : Channel Unit 1} (hfirst : s.first = true)
    (hpush : s.startTx.push () = some startTx) :
    Moves s { s with startTx := startTx, first := false }
  /-- The main loop ends. -/
  | stop {s : Pipeline source} : Moves s { s with startTx := s.startTx.dropSender }
  | ethRequest {s : Pipeline source} {outcome : EthOutcome} (request : EthRequest)
    (hidle : s.request = .done outcome) :
    Moves s { s with request := processEthRequest source request }
  | serve {s : Pipeline source} {change : PeerState source → PeerState source}
    {next : PeerState source → Shared (PeerState source) EthOutcome}
    (hrequest : s.request = .act change next) :
    Moves s { s with peer := change s.peer, request := next s.peer }
  | recvStart {s : Pipeline source} {startTx : Channel Unit 1} (htask : s.poller.task = .suspended)
    (hpop : s.startTx.pop = some ((), startTx)) :
    Moves s { s with startTx := startTx, poller := { s.poller with task := .starting } }
  /-- The task ends; before the signal it does so only when there will be none. -/
  | fail {s : Pipeline source} (error : String)
    (hstop : s.poller.task = .suspended → s.startTx.sender = false) : Moves s (s.fail error)
  | start {s : Pipeline source} (htask : s.poller.task = .starting) :
    Moves s { s with poller := s.poller.start s.peer.world.latest }
  /-- The source answers, or the task wakes up: it stays at its height. -/
  | answer {s : Pipeline source} {task : PollerTask} {n : ℕ}
    (hbefore : s.poller.task.nextBlockNumber = some n) (hafter : task.nextBlockNumber = some n)
    (hsending : ∀ n block, task = .sending n block →
      BlockPoller.Holds s.peer.world (n, block)) :
    Moves s { s with poller := { s.poller with task := task } }
  | send {s : Pipeline source} {n : ℕ} {block : BlockAndReceipts} {poller : BlockPoller}
    (htask : s.poller.task = .sending n block) (hsend : s.poller.send n block = some poller) :
    Moves s { s with poller := poller }
  | poll {s : Pipeline source} {pair : B256 × ℕ} {poller : BlockPoller}
    (hpoll : s.poller.poll source = some (pair, poller)) :
    Moves s { s with
      peer := { s.peer with
        blockhashCache := s.peer.blockhashCache.insert pair.1 pair.2 }
      poller := poller }
  | disconnect {s : Pipeline source} :
    Moves s { s with poller := { s.poller with blockTx := s.poller.blockTx.dropReceiver } }

variable {s s' : Pipeline source}

theorem moves_onNetworkEvent {event : NetworkEvent} (h : s.onNetworkEvent event = some s') :
    Moves s s' := by
  rw [onNetworkEvent] at h
  split_ifs at h with hsession hgone
  · obtain rfl := Option.some.inj h
    exact .stop
  · obtain ⟨startTx, hpush, rfl⟩ := Option.map_eq_some_iff.1 h
    exact .signal hsession.2 hpush
  · obtain rfl := Option.some.inj h
    exact .stay

theorem moves_recvStart (htask : s.poller.task = .suspended) (h : s.recvStart = some s') :
    Moves s s' := by
  rw [recvStart] at h
  split at h
  · next startTx hpop =>
    obtain rfl := Option.some.inj h
    exact .recvStart htask hpop
  · split_ifs at h with hsender
    obtain rfl := Option.some.inj h
    exact .fail _ fun _ ↦ hsender

theorem moves_collect {n : ℕ} {answered : Bool} (htask : s.poller.task = .collecting n)
    (h : s.collect n answered = some s') : Moves s s' := by
  have hnext : s.poller.task.nextBlockNumber = some n := by
    rw [htask]
    rfl
  rw [collect] at h
  split_ifs at h with hanswered hheld
  · obtain rfl := Option.some.inj h
    refine .answer hnext rfl fun m block hm ↦ ?_
    obtain ⟨rfl, rfl⟩ := PollerTask.sending.inj hm
    exact ⟨rfl, hheld⟩
  · obtain rfl := Option.some.inj h
    exact .answer hnext rfl fun m block hm ↦ by cases hm

theorem moves_send {n : ℕ} {block : BlockAndReceipts} (htask : s.poller.task = .sending n block)
    (h : s.send n block = some s') : Moves s s' := by
  rw [send] at h
  split_ifs at h with hgone
  · obtain rfl := Option.some.inj h
    refine .fail _ fun hsuspended ↦ ?_
    rw [htask] at hsuspended
    cases hsuspended
  · obtain ⟨poller, hsend, rfl⟩ := Option.map_eq_some_iff.1 h
    exact .send htask hsend

theorem exists_outcome_of_idle (h : s.idle = true) : ∃ outcome, s.request = .done outcome := by
  rw [idle, Bool.and_eq_true] at h
  cases hrequest : s.request with
  | done outcome => exact ⟨outcome, rfl⟩
  | panic =>
    rw [hrequest] at h
    cases h.2
  | act change next =>
    rw [hrequest] at h
    cases h.2

/-- **Every action is one of the moves.** -/
theorem moves_of_act {action : PipelineAction} (h : s.act action = some s') : Moves s s' := by
  cases action with
  | networkEvent event =>
    rw [act] at h
    split_ifs at h
    exact moves_onNetworkEvent h
  | transaction =>
    rw [act] at h
    split_ifs at h
    obtain rfl := Option.some.inj h
    exact .stay
  | ethRequest request =>
    rw [act] at h
    split_ifs at h with hidle
    obtain rfl := Option.some.inj h
    obtain ⟨outcome, hrequest⟩ := exists_outcome_of_idle hidle
    exact .ethRequest request hrequest
  | serve =>
    rw [act, serve] at h
    split_ifs at h
    split at h
    · next change next hrequest =>
      obtain rfl := Option.some.inj h
      exact .serve hrequest
    · cases h
  | stop =>
    obtain rfl := Option.some.inj h
    exact .stop
  | recvStart =>
    rw [act] at h
    split at h
    · next htask => exact moves_recvStart htask h
    · cases h
  | findLatest answered =>
    rw [act] at h
    split at h
    · next htask =>
      obtain rfl := Option.some.inj h
      rw [findLatest]
      split_ifs
      · exact .start htask
      · refine .fail _ fun hsuspended ↦ ?_
        rw [htask] at hsuspended
        cases hsuspended
    · cases h
  | collect answered =>
    rw [act] at h
    split at h
    · next n htask => exact moves_collect htask h
    · cases h
  | wake =>
    rw [act] at h
    split at h
    · next n htask =>
      obtain rfl := Option.some.inj h
      refine .answer (n := n) ?_ rfl fun m block hm ↦ by cases hm
      rw [htask]
      rfl
    · cases h
  | send =>
    rw [act] at h
    split at h
    · next n block htask => exact moves_send htask h
    · cases h
  | poll =>
    rw [act] at h
    split_ifs at h
    obtain ⟨⟨pair, poller⟩, hpoll, rfl⟩ := Option.map_eq_some_iff.1 h
    exact .poll hpoll
  | disconnect =>
    obtain rfl := Option.some.inj h
    exact .disconnect

/-! ### The poller is an environment of the peer -/

/-- At the lookup of hashes a move is a step of the peer or none. -/
theorem peerStep_of_moves (hentries : ∀ entry ∈ s.poller.blockTx.queue,
    BlockPoller.Holds s.peer.world entry) (h : Moves s s') :
    (s'.request, s'.peer) = (s.request, s.peer) ∨
      PeerStep source (s.request, s.peer) (s'.request, s'.peer) := by
  cases h with
  | ethRequest request hidle =>
    rw [hidle]
    exact Or.inr (.accept request)
  | serve hrequest =>
    rw [hrequest]
    exact Or.inr (.run .act)
  | poll hpoll =>
    -- the block at the head of the channel is one that the source holds
    obtain ⟨entry, blockTx, hqueue, -, rfl, -⟩ := BlockPoller.poll_eq_some hpoll
    have hmem : entry ∈ s.poller.blockTx.queue := hqueue ▸ List.mem_cons_self
    obtain ⟨hblock, hheld⟩ := hentries entry hmem
    refine Or.inr (.run (.env ?_))
    rw [BlockSource.announcement, hblock]
    exact .announce hheld
  | stay => exact Or.inl rfl
  | signal _ _ => exact Or.inl rfl
  | stop => exact Or.inl rfl
  | recvStart _ _ => exact Or.inl rfl
  | fail _ _ => exact Or.inl rfl
  | start _ => exact Or.inl rfl
  | answer _ _ _ => exact Or.inl rfl
  | send _ _ => exact Or.inl rfl
  | disconnect => exact Or.inl rfl

/-- The request at hand keeps the discipline of the lookup. -/
def Served (c : Shared (PeerState source) EthOutcome × PeerState source) : Prop :=
  (hashDiscipline source).inv c.2 ∧ ∃ t, (hashDiscipline source).later t c.2 ∧
    c.1.Meets (hashDiscipline source) (fun _ _ ↦ True) t

theorem Served.peerStep {c c' : Shared (PeerState source) EthOutcome × PeerState source}
    (hserved : Served c) (h : PeerStep source c c') :
    Served c' ∧ (hashDiscipline source).later c.2 c'.2 := by
  obtain ⟨hinv, hmeets⟩ := hserved
  cases h with
  | run h =>
    obtain ⟨hinv', hlater, hmeets'⟩ := Shared.Meets.step hashDiscipline_keptBy hmeets hinv h
    exact ⟨⟨hinv', hmeets'⟩, hlater⟩
  | accept request =>
    have hrefl := (hashDiscipline source).refl
    exact ⟨⟨hinv, _, hrefl _, meets_processEthRequest request⟩, hrefl _⟩

/-! ### The invariant -/

/-- Until the first session nothing is in the channel of the signal, and the task waits at its other
end. -/
def Signal (s : Pipeline source) : Prop :=
  s.first = true → s.startTx.queue = [] ∧ s.poller.found = none ∧
    (s.poller.task = .suspended ∧ s.startTx.receiver = true ∨
      s.startTx.sender = false ∧ ∃ error, s.poller.task = .ended error)

/-- The invariant of the pipeline. -/
structure Inv (s : Pipeline source) : Prop where
  signal : s.Signal
  poller : s.poller.Inv s.peer.world
  served : Served (s.request, s.peer)

theorem inv_new (world : World source) : (new world).Inv where
  signal := fun _ ↦ ⟨rfl, rfl, Or.inl ⟨rfl, rfl⟩⟩
  poller := BlockPoller.inv_newSuspended world
  served := ⟨⟨LruBiMap.pairs_new _, Nat.zero_le _⟩, _, (hashDiscipline source).refl _, trivial⟩

/-- Until the first session the task is at no height. -/
theorem Signal.nextBlockNumber (hsignal : s.Signal) (hfirst : s.first = true) :
    s.poller.task.nextBlockNumber = none := by
  obtain ⟨-, -, ⟨htask, -⟩ | ⟨-, error, htask⟩⟩ := hsignal hfirst
  · rw [htask]
    rfl
  · rw [htask]
    rfl

theorem Signal.moves (hsignal : s.Signal) (h : Moves s s') : s'.Signal := by
  cases h with
  | stay => exact hsignal
  | signal _ _ =>
    intro hfirst
    cases hfirst
  | stop =>
    intro hfirst
    obtain ⟨hqueue, hfound, hwait | hended⟩ := hsignal hfirst
    · exact ⟨hqueue, hfound, Or.inl hwait⟩
    · exact ⟨hqueue, hfound, Or.inr ⟨rfl, hended.2⟩⟩
  | ethRequest _ _ => exact hsignal
  | serve _ => exact hsignal
  | recvStart htask hpop =>
    intro hfirst
    obtain ⟨hqueue, -⟩ := hsignal hfirst
    rw [(Channel.pop_eq_some hpop).1] at hqueue
    cases hqueue
  | fail error hstop =>
    intro hfirst
    obtain ⟨-, hfound, hwait | hended⟩ := hsignal hfirst
    · exact ⟨rfl, hfound, Or.inr ⟨hstop hwait.1, error, rfl⟩⟩
    · exact ⟨rfl, hfound, Or.inr ⟨hended.1, error, rfl⟩⟩
  | start htask =>
    intro hfirst
    obtain ⟨-, -, ⟨hwait, -⟩ | ⟨-, error, hended⟩⟩ := hsignal hfirst
    · rw [htask] at hwait
      cases hwait
    · rw [htask] at hended
      cases hended
  | answer hbefore _ _ =>
    intro hfirst
    have hnone := hsignal.nextBlockNumber hfirst
    rw [hbefore] at hnone
    cases hnone
  | send htask hsend =>
    intro hfirst
    have hnone := hsignal.nextBlockNumber hfirst
    rw [htask] at hnone
    cases hnone
  | poll hpoll =>
    intro hfirst
    obtain ⟨htask, hfound⟩ := BlockPoller.poll_task hpoll
    rw [hfound, htask]
    exact hsignal hfirst
  | disconnect => exact hsignal

/-- **A step keeps the invariant of the poller**, at the source before it. -/
theorem Inv.poller_moves (hinv : s.Inv) (h : Moves s s') : s'.poller.Inv s.peer.world := by
  have hpoller := hinv.poller
  cases h with
  | recvStart htask hpop =>
    refine hpoller.of_task rfl rfl rfl rfl (fun _ ↦ ?_) (fun n hn ↦ ?_) fun n block hn ↦ ?_
    · rw [htask]
      rfl
    · cases hn
    · cases hn
  | fail error _ => exact hpoller.fail error
  | start htask => exact hpoller.start htask
  | answer hbefore hafter hsending =>
    refine hpoller.of_task rfl rfl rfl rfl (fun hearly ↦ ?_) (fun n hn ↦ ?_) hsending
    · rw [PollerTask.early_eq_false hafter] at hearly
      cases hearly
    · exact hbefore.trans (hafter.symm.trans hn)
  | send htask hsend => exact hpoller.send htask hsend
  | poll hpoll => exact hpoller.poll hpoll
  | disconnect => exact hpoller.of_gone rfl rfl rfl rfl rfl
  | stay => exact hpoller
  | signal _ _ => exact hpoller
  | stop => exact hpoller
  | ethRequest _ _ => exact hpoller
  | serve _ => exact hpoller

/-- A step of the pipeline is one of the peer, or none. -/
theorem Inv.peerStep (hinv : s.Inv) (h : PipelineStep source s s') :
    (s'.request, s'.peer) = (s.request, s.peer) ∨
      PeerStep source (s.request, s.peer) (s'.request, s'.peer) := by
  cases h with
  | act action h => exact peerStep_of_moves hinv.poller.entries (moves_of_act h)
  | world hlatest hheld => exact Or.inr (.run (.env (.world hlatest hheld)))

theorem Inv.step (hinv : s.Inv) (h : PipelineStep source s s') : s'.Inv := by
  -- the source only grows, whoever moves
  have hserved : Served (s'.request, s'.peer) ∧
      (hashDiscipline source).later s.peer s'.peer := by
    rcases hinv.peerStep h with heq | hstep
    · rw [heq, (Prod.mk.inj heq).2]
      exact ⟨hinv.served, (hashDiscipline source).refl _⟩
    · exact hinv.served.peerStep hstep
  obtain ⟨hserved, hlatest, hheld⟩ := hserved
  cases h with
  | act action h =>
    have hmoves := moves_of_act h
    exact ⟨hinv.signal.moves hmoves, (hinv.poller_moves hmoves).mono hlatest hheld, hserved⟩
  | world _ _ => exact ⟨hinv.signal, hinv.poller.mono hlatest hheld, hserved⟩

/-- **Every reachable state keeps the invariant.** -/
theorem Inv.runs (hinv : s.Inv) (h : PipelineRuns source s s') : s'.Inv := by
  induction h with
  | refl => exact hinv
  | tail _ hstep ih => exact ih.step hstep

/-! ### What holds in every state -/

/-- What the network has been told so far. -/
structure Feeds (s : Pipeline source) : Prop where
  /-- Nothing is announced before the first session. -/
  silent : s.first = true → s.poller.announced = []
  /-- The signal is sent without waiting. -/
  signal : s.first = true → s.startTx.sender = true → ∃ startTx, s.startTx.push () = some startTx
  /-- Nothing is announced before the task has the height to start from. -/
  unfound : s.poller.found = none → s.poller.announced = []
  /-- From then on the heights are announced one after the other. -/
  fed : ∀ start, s.poller.found = some start →
    ∃ count, s.poller.Fed s.peer.world start count

theorem Inv.feeds (hinv : s.Inv) : s.Feeds := by
  have hunfound : s.poller.found = none → s.poller.announced = [] := fun hnone ↦
    (List.append_eq_nil_iff.1 (hinv.poller.unfound hnone).1).1
  refine ⟨fun hfirst ↦ hunfound (hinv.signal hfirst).2.1, fun hfirst hsender ↦ ?_, hunfound,
    hinv.poller.found⟩
  obtain ⟨hqueue, -, ⟨-, hreceiver⟩ | ⟨hgone, -⟩⟩ := hinv.signal hfirst
  · refine Channel.exists_push hreceiver ?_ ()
    rw [hqueue]
    exact Nat.one_pos
  · rw [hsender] at hgone
    cases hgone

end Pipeline

/-- **The poller feeds consecutive heights**, in every reachable state of the pipeline. -/
theorem pipeline_feeds {source : BlockSource} (world : World source) {s : Pipeline source}
    (h : PipelineRuns source (.new world) s) : s.Feeds :=
  ((Pipeline.inv_new world).runs h).feeds

/-- The first session, a source that fails once, and the first announcement. -/
def exampleActions : List PipelineAction :=
  [.networkEvent .activePeerSession, .recvStart, .findLatest true, .collect false, .wake,
    .collect true, .send, .poll]

/-- The latest block of the example is announced. -/
theorem exists_exampleActions : ∃ s, PipelineRuns exampleSource (.new exampleWorld) s ∧
    s.poller.announced = [exampleSource.announcement (exampleSource.block 2)] ∧
    s.peer.world = exampleWorld := by
  have hrun : (Machine.run Pipeline.act (.new exampleWorld) exampleActions).map
      (fun s ↦ (s.poller.announced, s.peer.world)) =
        some ([exampleSource.announcement (exampleSource.block 2)], exampleWorld) :=
    rfl
  obtain ⟨s, hrun, heq⟩ := Option.map_eq_some_iff.1 hrun
  exact ⟨s, pipelineRuns_of_run hrun, Prod.mk.inj heq⟩

theorem pipeline_feeds_example : ∃ s : Pipeline exampleSource,
    s.poller.announced = [exampleSource.announcement (exampleSource.block 2)] ∧ s.Feeds := by
  obtain ⟨s, hruns, hannounced, -⟩ := exists_exampleActions
  exact ⟨s, hannounced, pipeline_feeds exampleWorld hruns⟩

/-! ### The lookup of what was announced -/

/-- An announcement has the hash and the number of its block. -/
theorem BlockSource.isHash_of_mem_feed {source : BlockSource} {start count : ℕ} {msg : BlockMsg}
    (h : msg ∈ source.feed start count) : source.IsHash msg.hash msg.number := by
  obtain ⟨i, -, rfl⟩ := List.mem_map.1 h
  have hlt : (start + i) % u64Size < u64Size := Nat.mod_lt _ (by decide)
  have hnumber : (source.announcement (source.block ((start + i) % u64Size))).number =
      (start + i) % u64Size :=
    source.number_eq _
  rw [hnumber]
  exact isHash_announced source hlt

theorem Pipeline.Feeds.isHash {source : BlockSource} {s : Pipeline source} (hfeeds : s.Feeds)
    {msg : BlockMsg} (hmsg : msg ∈ s.poller.announced) : source.IsHash msg.hash msg.number := by
  cases hfound : s.poller.found with
  | none =>
    rw [hfeeds.unfound hfound] at hmsg
    cases hmsg
  | some start =>
    obtain ⟨count, hfed⟩ := hfeeds.fed start hfound
    exact source.isHash_of_mem_feed (hfed.fed_prefix.subset (List.mem_append_left _ hmsg))

/-- What the pipeline is for the lookup of hashes. -/
structure Pipeline.Refines {source : BlockSource} (world : World source) (s : Pipeline source) :
    Prop where
  /-- A state of the pipeline is a state of the peer. -/
  peerRuns : Relation.ReflTransGen (PeerStep source) (.done .ignored, .new world)
    (s.request, s.peer)
  /-- An announced hash is that of the block with the announced number. -/
  isHash : ∀ msg ∈ s.poller.announced, source.IsHash msg.hash msg.number
  /-- The peer finds what was announced, from its cache or from the source. -/
  lookup : ∀ msg ∈ s.poller.announced, 1 ≤ msg.number → msg.number ≤ s.peer.world.latest →
    Shared.Yields (PeerState.Env source) (hashToBlockNumber source msg.hash) s.peer msg.number

theorem Pipeline.peerRuns_of_runs {source : BlockSource} {s s' : Pipeline source} (hinv : s.Inv)
    (h : PipelineRuns source s s') :
    Relation.ReflTransGen (PeerStep source) (s.request, s.peer) (s'.request, s'.peer) := by
  induction h with
  | refl => exact .refl
  | tail hrun hstep ih =>
    rcases (hinv.runs hrun).peerStep hstep with heq | hpeer
    · rw [heq]
      exact ih
    · exact ih.tail hpeer

/-- **The pipeline refines the peer**, and the peer finds what the poller has announced. -/
theorem pipeline_refines {source : BlockSource} (world : World source) {s : Pipeline source}
    (h : PipelineRuns source (.new world) s) : s.Refines world := by
  have hinv := (Pipeline.inv_new world).runs h
  refine ⟨Pipeline.peerRuns_of_runs (Pipeline.inv_new world) h, fun msg hmsg ↦ ?_, ?_⟩
  · exact hinv.feeds.isHash hmsg
  · intro msg hmsg hone hle
    refine Shared.Meets.yields hashDiscipline_keptBy ((meets_hashToBlockNumber msg.hash).imp ?_)
      hinv.served.1
    intro result _ _ hresult
    exact hresult.2 msg.number ⟨hone, hle⟩ (hinv.feeds.isHash hmsg)

/-- The announced block of the example is found by its hash. -/
theorem pipeline_refines_example : ∃ s : Pipeline exampleSource, ∃ msg ∈ s.poller.announced,
    Shared.Yields (PeerState.Env exampleSource) (hashToBlockNumber exampleSource msg.hash) s.peer
      2 := by
  obtain ⟨s, hruns, hannounced, hworld⟩ := exists_exampleActions
  have hmem : exampleSource.announcement (exampleSource.block 2) ∈ s.poller.announced := by
    rw [hannounced]
    exact List.mem_singleton_self _
  have hnumber : (exampleSource.announcement (exampleSource.block 2)).number = 2 :=
    exampleSource.number_eq 2
  have hlookup := (pipeline_refines exampleWorld hruns).lookup _ hmem
  rw [hnumber, hworld] at hlookup
  exact ⟨s, _, hmem, hlookup (by decide) (Nat.le_refl 2)⟩

end RethHl.PseudoPeer
