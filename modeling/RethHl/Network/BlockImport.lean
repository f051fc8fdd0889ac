import Mathlib.Data.List.Perm.Basic
import Mathlib.Logic.Relation
import RethHl.Node.BlockRlp

/-!
# The block import service

A block that a peer announces goes to the engine twice: once as a payload to be checked, once as a
candidate for the head of the chain. `ImportService` makes a future of each, keeps the futures in an
unordered set, and tells the network what came of them.

The service is one party of a system, and the model is a **step relation** over the whole of it. The
network puts blocks into a channel. A poll of the service first empties the channel, then drives the
futures and takes those that have completed, until it returns `Pending`. The engine answers its
messages in the order they were sent, at any time, also in the middle of a poll. A fork-choice
future reads the provider twice, first the number of the best block and then the hash at that
number, and the engine may move the provider in between.

Two fields of the state record what has happened: the blocks received so far and the futures that
have completed so far. The code does not have them.

The drain loop stops at the first completed future that has no outcome, and `poll` returns although
others may have completed too. They wait for the next poll. A run has a **history**: the replies of
the engine, the reads that fail, and the futures in the order in which the set yields them.
`drained_iff` says of which histories every return leaves nothing behind.
-/

namespace RethHl

/-- The identity of a peer. -/
abbrev PeerId := BitVec 512

/-- A new block with the hash its announcement claims. -/
structure BlockMsg where
  hash : B256
  block : HlNewBlock
  deriving DecidableEq, Repr

/-- The hash of the sealed block. -/
def BlockMsg.sealedHash (hashSlow : Header → B256) (msg : BlockMsg) : B256 :=
  hashSlow msg.block.value.block.header

/-- The number of the block. -/
def BlockMsg.number (msg : BlockMsg) : ℕ :=
  msg.block.value.block.header.number

/-! ### The choice of the head -/

/-- `HlConsensus::canonical_head` after its two reads: the higher block, or at the same height the
one with the lower hash; and the current hash. -/
def canonicalHead (hash : B256) (number : ℕ) (currentHead : ℕ) (currentHash : B256) : B256 × B256 :=
  match compare number currentHead with
  | .gt => (hash, currentHash)
  | .eq => (if currentHash < hash then currentHash else hash, currentHash)
  | .lt => (currentHash, currentHash)

/-- What the provider answers: the number of the best block, and the canonical hash at a number. -/
structure Provider where
  bestBlockNumber : ℕ
  blockHash : ℕ → Option B256

/-- The best block. -/
def Provider.head (provider : Provider) : Option B256 :=
  provider.blockHash provider.bestBlockNumber

namespace ImportService

/-! ### Messages and futures -/

/-- The verdict of the engine on a message. -/
inductive PayloadStatusEnum where
  | valid
  | invalid (validationError : String)
  | syncing
  | accepted
  deriving DecidableEq, Repr

/-- A reply of the engine, or none because it has gone. -/
inductive EngineReply where
  | ok (status : PayloadStatusEnum)
  | err
  deriving DecidableEq, Repr

/-- A message to the engine. -/
inductive EngineMsg where
  | newPayload (hash : B256)
  | forkChoiceUpdated (headBlockHash : B256)
  deriving DecidableEq, Repr

/-- The result of an import. -/
inductive ImportResult where
  | validBlock (block : BlockMsg)
  | other (error : String)
  deriving DecidableEq, Repr

/-- What the network is told. -/
structure Outcome where
  peer : PeerId
  result : ImportResult
  deriving DecidableEq, Repr

/-- The two futures of a block. -/
inductive ImportKind where
  | newPayload
  | updateForkChoice
  deriving DecidableEq, Repr

/-- How far a future has come. `readHead` lies between the two reads of a fork-choice future, and
`failed` is a fork-choice future whose reads gave an error. -/
inductive Progress where
  | created
  | readHead (currentHead : ℕ)
  | awaiting (msg : EngineMsg)
  | replied (reply : EngineReply)
  | failed
  deriving DecidableEq, Repr

/-- A future over the block of a peer. -/
structure ImportFut where
  kind : ImportKind
  block : BlockMsg
  peer : PeerId
  progress : Progress
  deriving DecidableEq, Repr

namespace ImportFut

/-- The future is ready to be taken. -/
def complete (fut : ImportFut) : Bool :=
  match fut.progress with
  | .replied _ => true
  | .failed => true
  | _ => false

/-- What a future returns, the same for both kinds. -/
def output (fut : ImportFut) : Option Outcome :=
  match fut.progress with
  | .replied (.ok .valid) => some { peer := fut.peer, result := .validBlock fut.block }
  | .replied (.ok (.invalid error)) => some { peer := fut.peer, result := .other error }
  | _ => none

/-- The next step of a future that is driven: its new progress, and the message it sends. -/
def advance (hashSlow : Header → B256) (provider : Provider) (fut : ImportFut) :
    Option (Progress × List EngineMsg) :=
  match fut.kind, fut.progress with
  | .newPayload, .created =>
    let msg := .newPayload (fut.block.sealedHash hashSlow)
    some (.awaiting msg, [msg])
  | .updateForkChoice, .created => some (.readHead provider.bestBlockNumber, [])
  | .updateForkChoice, .readHead currentHead =>
    match provider.blockHash currentHead with
    | none => some (.failed, [])
    | some currentHash =>
      let head :=
        canonicalHead (fut.block.sealedHash hashSlow) fut.block.number currentHead currentHash
      some (.awaiting (.forkChoiceUpdated head.1), [.forkChoiceUpdated head.1])
  | _, _ => none

/-- The second read of a fork-choice future finds no hash at the number of the first. -/
def readFails (provider : Provider) (fut : ImportFut) : Bool :=
  match fut.kind, fut.progress with
  | .updateForkChoice, .readHead currentHead => (provider.blockHash currentHead).isNone
  | _, _ => false

/-- A fork-choice future that reads the provider. -/
def reads (fut : ImportFut) : Bool :=
  match fut.kind, fut.progress with
  | .updateForkChoice, .created => true
  | .updateForkChoice, .readHead _ => true
  | _, _ => false

end ImportFut

/-! ### The system -/

/-- Where a poll is. -/
inductive Phase where
  /-- Not polled; the last poll returned `Pending`. -/
  | idle
  /-- Receiving new blocks from the network. -/
  | receiving
  /-- Processing completed imports. -/
  | draining
  /-- The poll returned an error, and the service is gone. -/
  | ended
  deriving DecidableEq, Repr

/-- The service, its channels, the engine's queue and the provider. -/
structure State where
  fromNetwork : List (BlockMsg × PeerId)
  toNetwork : List Outcome
  networkOpen : Bool
  pendingImports : List ImportFut
  phase : Phase
  engine : List EngineMsg
  provider : Provider
  received : List (BlockMsg × PeerId)
  completed : List ImportFut

/-- Before anything has happened. -/
def State.new (provider : Provider) : State where
  fromNetwork := []
  toNetwork := []
  networkOpen := true
  pendingImports := []
  phase := .idle
  engine := []
  provider := provider
  received := []
  completed := []

/-- The futures of a new block. -/
def onNewBlock (s : State) (block : BlockMsg) (peer : PeerId) : State :=
  { s with
    pendingImports := s.pendingImports ++
      [{ kind := .newPayload, block := block, peer := peer, progress := .created },
        { kind := .updateForkChoice, block := block, peer := peer, progress := .created }]
    received := s.received ++ [(block, peer)] }

/-- A future in its new state; it is recorded when that state is complete. -/
def State.update (s : State) (front : List ImportFut) (fut : ImportFut) (back : List ImportFut) :
    State :=
  { s with
    pendingImports := front ++ fut :: back
    completed := if fut.complete then s.completed ++ [fut] else s.completed }

/-- The parties' moves. -/
inductive Action where
  | arrive (block : BlockMsg) (peer : PeerId)
  | closeNetwork
  | startPoll
  | receive
  | received
  | advance (fut : ImportFut)
  | providerError (fut : ImportFut)
  | take (fut : ImportFut)
  | noneReady
  | reply (reply : EngineReply)
  deriving DecidableEq, Repr

section Steps

variable (hashSlow : Header → B256) (numberOf : B256 → ℕ)

/-- What the engine makes of a message it has accepted. A fork-choice message makes its head the
best block; the canonical hashes of other numbers may be anything. -/
inductive Applies : EngineMsg → EngineReply → Provider → Provider → Prop
  | forkChoice {head : B256} {provider : Provider} {blockHash : ℕ → Option B256}
      (h : blockHash (numberOf head) = some head) :
      Applies (.forkChoiceUpdated head) (.ok .valid) provider
        { bestBlockNumber := numberOf head, blockHash := blockHash }
  | payload {hash : B256} {reply : EngineReply} {provider : Provider} :
      Applies (.newPayload hash) reply provider provider
  | refused {msg : EngineMsg} {reply : EngineReply} {provider : Provider} (h : reply ≠ .ok .valid) :
      Applies msg reply provider provider

/-- One move of one party. -/
inductive Step : State → Action → State → Prop
  /-- A peer's block comes into the channel. -/
  | arrive {s : State} (block : BlockMsg) (peer : PeerId) :
      Step s (.arrive block peer) { s with fromNetwork := s.fromNetwork ++ [(block, peer)] }
  /-- The network drops its end of the channel. -/
  | closeNetwork {s : State} : Step s .closeNetwork { s with networkOpen := false }
  | startPoll {s : State} (h : s.phase = .idle) : Step s .startPoll { s with phase := .receiving }
  | receive {s : State} {block : BlockMsg} {peer : PeerId} {rest : List (BlockMsg × PeerId)}
      (h : s.phase = .receiving) (hblock : s.fromNetwork = (block, peer) :: rest) :
      Step s .receive (onNewBlock { s with fromNetwork := rest } block peer)
  /-- The channel is empty. -/
  | received {s : State} (h : s.phase = .receiving) (hempty : s.fromNetwork = []) :
      Step s .received { s with phase := .draining }
  /-- The set drives a future that has not completed. -/
  | advance {s : State} {front back : List ImportFut} {fut : ImportFut} {progress : Progress}
      {msgs : List EngineMsg} (h : s.phase = .draining)
      (hfut : s.pendingImports = front ++ fut :: back)
      (hadvance : fut.advance hashSlow s.provider = some (progress, msgs)) :
      Step s (.advance fut)
        { s.update front { fut with progress := progress } back with engine := s.engine ++ msgs }
  /-- A read of the provider fails. -/
  | providerError {s : State} {front back : List ImportFut} {fut : ImportFut}
      (h : s.phase = .draining) (hfut : s.pendingImports = front ++ fut :: back)
      (hreads : fut.reads) :
      Step s (.providerError fut) (s.update front { fut with progress := .failed } back)
  /-- The set returns a completed future with an outcome, and the network takes it. -/
  | takeSome {s : State} {front back : List ImportFut} {fut : ImportFut} {outcome : Outcome}
      (h : s.phase = .draining) (hfut : s.pendingImports = front ++ fut :: back)
      (houtput : fut.output = some outcome) (hopen : s.networkOpen) :
      Step s (.take fut)
        { s with
          pendingImports := front ++ back
          toNetwork := s.toNetwork ++ [outcome] }
  /-- The network is gone, and the poll returns the error. -/
  | takeClosed {s : State} {front back : List ImportFut} {fut : ImportFut} {outcome : Outcome}
      (h : s.phase = .draining) (hfut : s.pendingImports = front ++ fut :: back)
      (houtput : fut.output = some outcome) (hclosed : s.networkOpen = false) :
      Step s (.take fut) { s with pendingImports := front ++ back, phase := .ended }
  /-- The set returns a completed future without an outcome: the loop ends and the poll returns. -/
  | takeNone {s : State} {front back : List ImportFut} {fut : ImportFut}
      (h : s.phase = .draining) (hfut : s.pendingImports = front ++ fut :: back)
      (hcomplete : fut.complete) (houtput : fut.output = none) :
      Step s (.take fut) { s with pendingImports := front ++ back, phase := .idle }
  /-- No future has completed, or there is none: the poll returns. -/
  | noneReady {s : State} (h : s.phase = .draining)
      (hnone : ∀ fut ∈ s.pendingImports, fut.complete = false) :
      Step s .noneReady { s with phase := .idle }
  /-- The engine answers the first message in its queue. -/
  | reply {s : State} {front back : List ImportFut} {fut : ImportFut} {msg : EngineMsg}
      {rest : List EngineMsg} {provider : Provider} (reply : EngineReply)
      (hmsg : s.engine = msg :: rest) (hfut : s.pendingImports = front ++ fut :: back)
      (hawaits : fut.progress = .awaiting msg) (happlies : Applies numberOf msg reply s.provider
        provider) :
      Step s (.reply reply)
        { s.update front { fut with progress := .replied reply } back with
          engine := rest
          provider := provider }

/-- The runs whose every move meets a condition on the state before it. -/
def Runs (allowed : State → Action → Prop) : State → State → Prop :=
  Relation.ReflTransGen fun s s' ↦ ∃ a, allowed s a ∧ Step hashSlow numberOf s a s'

variable {hashSlow numberOf}

theorem Runs.refl {allowed : State → Action → Prop} {s : State} :
    Runs hashSlow numberOf allowed s s :=
  Relation.ReflTransGen.refl

/-- One more move. -/
theorem Runs.step {allowed : State → Action → Prop} {s t t' : State} {a : Action}
    (hrun : Runs hashSlow numberOf allowed s t) (hstep : Step hashSlow numberOf t a t')
    (ha : allowed t a) : Runs hashSlow numberOf allowed s t' :=
  Relation.ReflTransGen.tail hrun ⟨a, ha, hstep⟩

/-- **The rule for invariants of runs.** -/
theorem Runs.invariant {allowed : State → Action → Prop} {P : State → Prop} {s s' : State}
    (hrun : Runs hashSlow numberOf allowed s s')
    (hstep : ∀ {t a t'}, P t → allowed t a → Step hashSlow numberOf t a t' → P t') (hs : P s) :
    P s' := by
  induction hrun with
  | refl => exact hs
  | tail _ hlast ih =>
    obtain ⟨a, ha, hstep'⟩ := hlast
    exact hstep ih ha hstep'

/-! ### Accounting -/

/-- A future that has not completed returns nothing. -/
theorem ImportFut.output_eq_none {fut : ImportFut} (h : fut.complete = false) :
    fut.output = none := by
  unfold ImportFut.complete at h
  unfold ImportFut.output
  split at h <;> simp_all

/-- A future that has an outcome has completed. -/
theorem complete_of_output {fut : ImportFut} {outcome : Outcome}
    (h : fut.output = some outcome) : fut.complete = true := by
  rcases hcomplete : fut.complete with - | -
  · rw [ImportFut.output_eq_none hcomplete] at h
    cases h
  · rfl

/-- The outcomes of a set of futures. -/
def outcomes (futs : List ImportFut) : List Outcome :=
  futs.filterMap ImportFut.output

@[simp] theorem outcomes_append (futs futs' : List ImportFut) :
    outcomes (futs ++ futs') = outcomes futs ++ outcomes futs' :=
  List.filterMap_append ..

@[simp] theorem outcomes_nil : outcomes [] = [] := rfl

theorem outcomes_cons (fut : ImportFut) (futs : List ImportFut) :
    outcomes (fut :: futs) = fut.output.toList ++ outcomes futs := by
  rw [outcomes, List.filterMap_cons]
  split <;> simp_all [outcomes]

section Futures

variable {front back : List ImportFut} {fut other : ImportFut}
  {received : List (BlockMsg × PeerId)}

theorem mem_insert_of_mem (hother : other ∈ front ++ back) : other ∈ front ++ fut :: back :=
  List.perm_middle.mem_iff.2 (List.mem_cons_of_mem _ hother)

theorem mem_or_eq_of_mem_insert (hother : other ∈ front ++ fut :: back) :
    other = fut ∨ other ∈ front ++ back :=
  List.mem_cons.1 (List.perm_middle.mem_iff.1 hother)

/-- New progress does not change the block and its sender. -/
theorem mem_received_update
    (h : ∀ other ∈ front ++ fut :: back, (other.block, other.peer) ∈ received)
    (progress : Progress) :
    ∀ other ∈ front ++ { fut with progress := progress } :: back,
      (other.block, other.peer) ∈ received := by
  intro other hother
  rcases mem_or_eq_of_mem_insert hother with rfl | hother
  · exact h fut (List.mem_append_right _ List.mem_cons_self)
  · exact h other (mem_insert_of_mem hother)

/-- The new futures are about the new block. -/
theorem mem_received_onNewBlock {s : State}
    (h : ∀ other ∈ s.pendingImports, (other.block, other.peer) ∈ s.received) (block : BlockMsg)
    (peer : PeerId) :
    ∀ other ∈ (onNewBlock s block peer).pendingImports,
      (other.block, other.peer) ∈ (onNewBlock s block peer).received := by
  intro other hother
  rcases List.mem_append.1 hother with hother | hother
  · exact List.mem_append_left _ (h other hother)
  · refine List.mem_append_right _ ?_
    simp only [List.mem_cons, List.not_mem_nil, or_false] at hother
    rcases hother with rfl | rfl <;> exact List.mem_cons_self

end Futures

/-- **The invariant.** While the service runs, every outcome of a future that has completed was sent
or is still in the set; and every future is about a block and its sender. -/
structure Accounted (s : State) : Prop where
  balanced : s.phase ≠ .ended →
    (outcomes s.completed).Perm (s.toNetwork ++ outcomes s.pendingImports)
  pending : ∀ fut ∈ s.pendingImports, (fut.block, fut.peer) ∈ s.received
  completed : ∀ fut ∈ s.completed, (fut.block, fut.peer) ∈ s.received

theorem accounted_new (provider : Provider) : Accounted (.new provider) where
  balanced := fun _ ↦ .refl _
  pending := fun _ h ↦ absurd h List.not_mem_nil
  completed := fun _ h ↦ absurd h List.not_mem_nil

/-- A future that had not completed and now has some other progress. -/
theorem Accounted.update {s : State} (h : Accounted s) {front back : List ImportFut}
    {fut : ImportFut} (hfut : s.pendingImports = front ++ fut :: back)
    (hincomplete : fut.complete = false) (progress : Progress) :
    Accounted (s.update front { fut with progress := progress } back) := by
  have hpending := hfut ▸ h.pending
  refine ⟨fun hphase ↦ ?_, mem_received_update hpending progress, fun other hother ↦ ?_⟩
  · have hperm := h.balanced hphase
    rw [hfut, outcomes_append, outcomes_cons, ImportFut.output_eq_none hincomplete] at hperm
    rcases hcomplete : ({ fut with progress := progress } : ImportFut).complete with - | -
    · simp only [State.update, hcomplete, Bool.false_eq_true, if_false]
      rw [outcomes_append, outcomes_cons, ImportFut.output_eq_none hcomplete]
      exact hperm
    · -- the new outcome, if any, is recorded and lies in the set
      simp only [State.update, hcomplete, if_true]
      rw [outcomes_append, outcomes_append, outcomes_cons, outcomes_cons, outcomes_nil,
        List.append_nil]
      refine (hperm.append_right _).trans ?_
      simp only [Option.toList_none, List.nil_append, List.append_assoc]
      exact (List.perm_append_comm.append_left _).append_left _
  · simp only [State.update] at hother
    split_ifs at hother
    · rcases List.mem_append.1 hother with hother | hother
      · exact h.completed other hother
      · rw [List.mem_singleton.1 hother]
        exact hpending fut (List.mem_append_right _ List.mem_cons_self)
    · exact h.completed other hother

/-- A completed future leaves the set. -/
theorem Accounted.take {s : State} (h : Accounted s) {front back : List ImportFut}
    {fut : ImportFut} (hfut : s.pendingImports = front ++ fut :: back)
    (sent : List Outcome) {phase : Phase}
    (hsent : phase ≠ .ended → s.phase ≠ .ended ∧ sent = s.toNetwork ++ fut.output.toList) :
    Accounted
      { s with
        pendingImports := front ++ back
        toNetwork := sent
        phase := phase } where
  balanced := by
    intro hphase
    obtain ⟨hphase, hsent⟩ := hsent hphase
    have hperm := h.balanced hphase
    rw [hfut, outcomes_append, outcomes_cons] at hperm
    show (outcomes s.completed).Perm (sent ++ outcomes (front ++ back))
    rw [hsent, outcomes_append, List.append_assoc]
    refine hperm.trans (List.Perm.append_left _ ?_)
    rw [← List.append_assoc, ← List.append_assoc]
    exact List.perm_append_comm.append_right _
  pending := fun other hother ↦ h.pending other (hfut ▸ mem_insert_of_mem hother)
  completed := h.completed

/-- A future that can be driven, that reads, or that waits has not completed. -/
theorem complete_of_advance {provider : Provider} {fut : ImportFut} {result}
    (h : fut.advance hashSlow provider = some result) : fut.complete = false := by
  unfold ImportFut.advance at h
  unfold ImportFut.complete
  split at h <;> simp_all

theorem complete_of_reads {fut : ImportFut} (h : fut.reads) : fut.complete = false := by
  unfold ImportFut.reads at h
  unfold ImportFut.complete
  split at h <;> simp_all

/-- **Every move keeps the account.** -/
theorem Accounted.step {s s' : State} {a : Action} (h : Accounted s)
    (hstep : Step hashSlow numberOf s a s') : Accounted s' := by
  cases hstep with
  | arrive block peer => exact ⟨h.balanced, h.pending, h.completed⟩
  | closeNetwork => exact ⟨h.balanced, h.pending, h.completed⟩
  | startPoll hphase | received hphase _ | noneReady hphase _ =>
    refine ⟨fun _ ↦ h.balanced ?_, h.pending, h.completed⟩
    rw [hphase]
    decide
  | @receive block peer rest hphase hblock =>
    refine ⟨fun _ ↦ ?_, mem_received_onNewBlock h.pending block peer, fun fut hfut ↦ ?_⟩
    · -- the new futures have no outcome yet
      have hperm := h.balanced (by rw [hphase]; decide)
      simp only [onNewBlock, outcomes_append]
      rw [show outcomes [_, _] = [] from rfl, List.append_nil]
      exact hperm
    · exact List.mem_append_left _ (h.completed fut hfut)
  | advance hphase hfut hadvance =>
    have hnew := h.update hfut (complete_of_advance hadvance) ‹Progress›
    exact ⟨hnew.balanced, hnew.pending, hnew.completed⟩
  | providerError hphase hfut hreads => exact h.update hfut (complete_of_reads hreads) .failed
  | takeSome hphase hfut houtput hopen =>
    refine h.take hfut _ fun _ ↦ ⟨by rw [hphase]; decide, ?_⟩
    rw [houtput]
    rfl
  | takeClosed hphase hfut houtput hclosed =>
    exact h.take hfut s.toNetwork fun hended ↦ absurd rfl hended
  | takeNone hphase hfut hcomplete houtput =>
    refine h.take hfut s.toNetwork fun _ ↦ ⟨by rw [hphase]; decide, ?_⟩
    rw [houtput]
    exact (List.append_nil _).symm
  | reply reply hmsg hfut hawaits happlies =>
    have hnew := h.update hfut (by rw [ImportFut.complete, hawaits]) (.replied reply)
    exact ⟨hnew.balanced, hnew.pending, hnew.completed⟩

/-! ### What a poll leaves behind -/

/-- Nothing completed is left in the set, the network was told the outcome of every completed future
that has one, once, and each was about a block and its sender. -/
structure Drained (s : State) : Prop where
  noneLeft : ∀ fut ∈ s.pendingImports, fut.complete = false
  sent : s.toNetwork.Perm (outcomes s.completed)
  senders : ∀ fut ∈ s.completed, (fut.block, fut.peer) ∈ s.received

/-- An account with no completed future in the set. -/
theorem Accounted.drained {s : State} (h : Accounted s) (hphase : s.phase ≠ .ended)
    (hnone : ∀ fut ∈ s.pendingImports, fut.complete = false) : Drained s where
  noneLeft := hnone
  sent := by
    have hnil : outcomes s.pendingImports = [] :=
      List.filterMap_eq_nil_iff.2 fun fut hfut ↦ ImportFut.output_eq_none (hnone fut hfut)
    have hperm := h.balanced hphase
    rw [hnil, List.append_nil] at hperm
    exact hperm.symm
  senders := h.completed

/-! ### Histories -/

/-- What decides of a future: the engine replies to it, its reads of the provider fail, or the set
yields it. -/
inductive Event where
  | replies (reply : EngineReply)
  | readFails
  | yields (outcome : Option Outcome)
  deriving DecidableEq, Repr

/-- The event of a move, if it has one. -/
def events (s : State) : Action → List Event
  | .reply reply => [.replies reply]
  | .providerError _ => [.readFails]
  | .advance fut => if fut.readFails s.provider then [.readFails] else []
  | .take fut => [.yields fut.output]
  | _ => []

/-- A future completes. -/
def Event.completes : Event → Bool
  | .replies _ => true
  | .readFails => true
  | .yields _ => false

/-- The futures of a history that have completed. -/
def completions (es : List Event) : ℕ :=
  es.countP fun e ↦ e.completes

/-- The futures of a history that the set has yielded. -/
def yielded (es : List Event) : ℕ :=
  es.countP fun e ↦ !e.completes

/-- Whenever the set yields a future without an outcome, it has yielded every other one that has
completed before. -/
def Prompt (es : List Event) : Prop :=
  ∀ before after, es = before ++ .yields none :: after → completions before = yielded before + 1

/-- A move that makes a poll return `Pending`. -/
def Returns (s s' : State) : Prop :=
  s.phase = .draining ∧ s'.phase = .idle

instance (s s' : State) : Decidable (Returns s s') :=
  inferInstanceAs (Decidable (_ ∧ _))

variable (hashSlow numberOf) in
/-- A run with its history, and the states in which polls have returned `Pending`. -/
inductive History (s : State) : List Event → List State → State → Prop
  | refl : History s [] [] s
  | step {es : List Event} {returned : List State} {t t' : State} {a : Action}
      (hrun : History s es returned t) (hstep : Step hashSlow numberOf t a t') :
      History s (es ++ events t a) (if Returns t t' then returned ++ [t'] else returned) t'

theorem History.runs {s s' : State} {es : List Event} {returned : List State}
    (h : History hashSlow numberOf s es returned s') :
    Runs hashSlow numberOf (fun _ _ ↦ True) s s' := by
  induction h with
  | refl => exact .refl
  | step _ hstep ih => exact ih.step hstep trivial

@[simp] theorem completions_append (es es' : List Event) :
    completions (es ++ es') = completions es + completions es' :=
  List.countP_append ..

@[simp] theorem yielded_append (es es' : List Event) :
    yielded (es ++ es') = yielded es + yielded es' :=
  List.countP_append ..

/-- A history in which every future has an outcome is prompt. -/
theorem prompt_of_forall_ne {es : List Event} (h : ∀ e ∈ es, e ≠ .yields none) : Prompt es := by
  rintro before after rfl
  exact absurd rfl (h _ (List.mem_append_right _ List.mem_cons_self))

/-- Only the last event is new. -/
theorem prompt_append_singleton {es : List Event} {e : Event} :
    Prompt (es ++ [e]) ↔ Prompt es ∧ (e = .yields none → completions es = yielded es + 1) := by
  refine ⟨fun h ↦ ⟨fun before after hes ↦ ?_, ?_⟩, fun ⟨hes, hlast⟩ before after h ↦ ?_⟩
  · refine h before (after ++ [e]) ?_
    rw [hes, List.append_assoc, List.cons_append]
  · rintro rfl
    exact h es [] rfl
  · rcases List.eq_nil_or_concat' after with rfl | ⟨after, last, rfl⟩
    · obtain ⟨rfl, he⟩ := List.append_inj' h rfl
      exact hlast (List.singleton_inj.1 he)
    · have hsplit : es ++ [e] = (before ++ .yields none :: after) ++ [last] := by
        rw [h, List.append_assoc, List.cons_append]
      exact hes before after (List.append_inj' hsplit rfl).1

/-- A future that is driven completes when its second read fails. -/
theorem complete_advance {provider : Provider} {fut : ImportFut} {progress : Progress}
    {msgs : List EngineMsg} (h : fut.advance hashSlow provider = some (progress, msgs)) :
    ({ fut with progress := progress } : ImportFut).complete = fut.readFails provider := by
  obtain ⟨kind, block, peer, now⟩ := fut
  rcases kind with - | - <;> rcases now with - | currentHead | msg | reply | - <;>
    simp only [ImportFut.advance, reduceCtorEq] at h
  · obtain ⟨rfl, -⟩ := Prod.mk.inj (Option.some.inj h)
    rfl
  · obtain ⟨rfl, -⟩ := Prod.mk.inj (Option.some.inj h)
    rfl
  · rcases hhash : provider.blockHash currentHead with - | currentHash <;> rw [hhash] at h <;>
      simp only [ImportFut.readFails, hhash]
    · obtain ⟨rfl, -⟩ := Prod.mk.inj (Option.some.inj h)
      rfl
    · obtain ⟨rfl, -⟩ := Prod.mk.inj (Option.some.inj h)
      rfl

/-- The completed futures in the set. -/
def ready (s : State) : ℕ :=
  s.pendingImports.countP ImportFut.complete

theorem ready_eq {s : State} {front back : List ImportFut} {fut : ImportFut}
    (hfut : s.pendingImports = front ++ fut :: back) :
    ready s = (front ++ back).countP ImportFut.complete + if fut.complete then 1 else 0 := by
  rw [ready, hfut, List.countP_append, List.countP_append, List.countP_cons]
  omega

/-- **Every move balances the set against the history.** -/
theorem ready_step {s s' : State} {a : Action} (hstep : Step hashSlow numberOf s a s') :
    ready s' + yielded (events s a) = ready s + completions (events s a) := by
  cases hstep with
  | arrive | closeNetwork | startPoll | received | noneReady => rfl
  | receive =>
    -- the new futures have not completed
    simp only [ready, onNewBlock, List.countP_append]
    rfl
  | @advance front back fut progress msgs hphase hfut hadvance =>
    have hafter : ready _ = _ := ready_eq (s := s.update front { fut with progress := progress }
      back) rfl
    rw [complete_advance hadvance] at hafter
    have hbefore := ready_eq hfut
    rw [complete_of_advance hadvance] at hbefore
    show ready (s.update front _ back) + _ = _
    rw [hafter, hbefore, events]
    rcases fut.readFails s.provider with - | - <;> rfl
  | @providerError front back fut hphase hfut hreads =>
    have hbefore := ready_eq hfut
    rw [complete_of_reads hreads] at hbefore
    rw [hbefore, ready_eq (s := s.update front { fut with progress := .failed } back) rfl]
    rfl
  | takeSome hphase hfut houtput =>
    rw [ready_eq hfut, complete_of_output houtput]
    rfl
  | takeClosed hphase hfut houtput =>
    rw [ready_eq hfut, complete_of_output houtput]
    rfl
  | takeNone hphase hfut hcomplete =>
    rw [ready_eq hfut, hcomplete]
    rfl
  | @reply front back fut msg rest provider reply hmsg hfut hawaits =>
    have hbefore := ready_eq hfut
    rw [show fut.complete = false by rw [ImportFut.complete, hawaits]] at hbefore
    have hafter : ready _ = _ := ready_eq
      (s := s.update front { fut with progress := .replied reply } back) rfl
    show ready (s.update front _ back) + _ = _
    rw [hafter, hbefore]
    rfl

/-- The set holds what has completed and was not yielded. -/
theorem History.ready_eq {provider : Provider} {es : List Event} {returned : List State} {s : State}
    (h : History hashSlow numberOf (.new provider) es returned s) :
    ready s + yielded es = completions es := by
  induction h with
  | refl => rfl
  | step _ hstep ih =>
    have hlast := ready_step hstep
    rw [yielded_append, completions_append]
    omega

theorem Drained.iff_ready {s : State} (h : Accounted s) (hphase : s.phase = .idle) :
    Drained s ↔ ready s = 0 := by
  refine ⟨fun hdrained ↦ ?_, fun hready ↦ h.drained (by rw [hphase]; decide) ?_⟩
  · exact List.countP_eq_zero.2 fun fut hfut ↦ by simp [hdrained.noneLeft fut hfut]
  · intro fut hfut
    simpa using List.countP_eq_zero.1 hready fut hfut

/-- A move that does not make a poll return yields no future without an outcome. -/
theorem events_of_not_returns {s s' : State} {a : Action} (hstep : Step hashSlow numberOf s a s')
    (h : ¬ Returns s s') : events s a = [] ∨ ∃ e, events s a = [e] ∧ e ≠ .yields none := by
  cases hstep with
  | arrive | closeNetwork | startPoll | receive | received | noneReady => exact .inl rfl
  | @advance _ _ fut =>
    rcases hfails : fut.readFails s.provider with - | -
    · exact .inl (by rw [events, hfails]; rfl)
    · exact .inr ⟨_, by rw [events, hfails]; rfl, by decide⟩
  | providerError => exact .inr ⟨_, rfl, by decide⟩
  | takeSome _ _ houtput => exact .inr ⟨_, rfl, by rw [houtput]; simp⟩
  | takeClosed _ _ houtput => exact .inr ⟨_, rfl, by rw [houtput]; simp⟩
  | takeNone hphase => exact absurd ⟨hphase, rfl⟩ h
  | reply => exact .inr ⟨_, rfl, by simp⟩

/-- A poll returns because nothing has completed, or because of a future without an outcome. -/
theorem events_of_returns {s s' : State} {a : Action} (hstep : Step hashSlow numberOf s a s')
    (h : Returns s s') : events s a = [] ∧ ready s' = 0 ∨ events s a = [.yields none] := by
  obtain ⟨hdraining, hidle⟩ := h
  cases hstep with
  | noneReady _ hnone =>
    refine .inl ⟨rfl, List.countP_eq_zero.2 fun fut hfut ↦ ?_⟩
    rw [hnone fut hfut]
    decide
  | takeNone _ _ _ houtput => exact .inr (by rw [events, houtput])
  | takeClosed => cases hidle
  | startPoll hphase | receive hphase | received hphase =>
    exact absurd (hdraining.symm.trans hphase) (by decide)
  | arrive | closeNetwork | advance | providerError | takeSome | reply =>
    exact absurd (hdraining.symm.trans hidle) (by decide)

/-- **When polls drain.** In a run from the start, every poll that has returned `Pending` has left
nothing behind exactly when the set has yielded a future without an outcome only after every other
one that had completed. -/
theorem drained_iff {provider : Provider} {es : List Event} {returned : List State} {s : State}
    (hrun : History hashSlow numberOf (.new provider) es returned s) :
    (∀ t ∈ returned, Drained t) ↔ Prompt es := by
  induction hrun with
  | refl =>
    refine iff_of_true (fun _ h ↦ absurd h List.not_mem_nil) (prompt_of_forall_ne fun _ h ↦ ?_)
    exact absurd h List.not_mem_nil
  | @step es returned t t' a hrun hstep ih =>
    have hall := History.step hrun hstep
    have haccount : Accounted t' :=
      Runs.invariant hall.runs (fun h _ hstep ↦ h.step hstep) (accounted_new provider)
    have hready := hall.ready_eq
    by_cases hreturns : Returns t t'
    · rw [if_pos hreturns, List.forall_mem_append, List.forall_mem_singleton, ih,
        Drained.iff_ready haccount hreturns.2]
      rcases events_of_returns hstep hreturns with ⟨hevents, hzero⟩ | hevents
      · rw [hevents, List.append_nil]
        exact and_iff_left hzero
      · -- the set has one completed future less
        rw [hevents, prompt_append_singleton]
        rw [hevents, yielded_append, completions_append] at hready
        refine and_congr_right fun _ ↦ ⟨fun hzero _ ↦ ?_, fun hlast ↦ ?_⟩
        · have : yielded [.yields none] = 1 ∧ completions [.yields none] = 0 := by decide
          omega
        · have := hlast rfl
          have : yielded [.yields none] = 1 ∧ completions [.yields none] = 0 := by decide
          omega
    · rw [if_neg hreturns, ih]
      rcases events_of_not_returns hstep hreturns with hevents | ⟨e, hevents, he⟩
      · rw [hevents, List.append_nil]
      · rw [hevents, prompt_append_singleton]
        exact (and_iff_left fun h ↦ absurd h he).symm

end Steps

/-! ### An example run -/

/-- The hashes of the headers of the examples. -/
def exampleHash (header : Header) : B256 :=
  match header.number with
  | 1 => 0xe9a9676da1a84a448e698de377f74e257659a1c063195f7a170310ab6baca831
  | 2 => 0x7e9de74f52b93e8175fa5be8badb83102236ca56d5716a9ffad04192ad23ba27
  | _ => 0xc3bd2d00745c03048a5616146a96f5ff78e54efb9e5b04af208cdaff6f3830ee

/-- The numbers that belong to them. -/
def exampleNumberOf (hash : B256) : ℕ :=
  if hash = exampleHash (.zero 1) then 1 else if hash = exampleHash (.zero 2) then 2 else 0

/-- A chain of the example blocks up to a number. -/
def exampleProvider (number : ℕ) : Provider where
  bestBlockNumber := number
  blockHash := fun n ↦ if n ≤ number then some (exampleHash (.zero n)) else none

/-- An announcement of one of them. -/
def exampleMsg (number : ℕ) : BlockMsg where
  hash := exampleHash (.zero number)
  block :=
    { value :=
        { block :=
            { header := .zero number
              body :=
                { inner := { transactions := [], ommers := [], withdrawals := none }
                  sidecars := none
                  readPrecompileCalls := none
                  highestPrecompileAddress := none } }
          td := 0 } }

/-- A future of one of them. -/
def exampleFut (kind : ImportKind) (number : ℕ) (progress : Progress) : ImportFut where
  kind := kind
  block := exampleMsg number
  peer := 7
  progress := progress

/-- The first poll has returned: it has received the block and sent both messages. -/
def exampleAsked : State where
  fromNetwork := []
  toNetwork := []
  networkOpen := true
  pendingImports :=
    [exampleFut .newPayload 1 (.awaiting (.newPayload (exampleHash (.zero 1)))),
      exampleFut .updateForkChoice 1 (.awaiting (.forkChoiceUpdated (exampleHash (.zero 1))))]
  phase := .idle
  engine := [.newPayload (exampleHash (.zero 1)), .forkChoiceUpdated (exampleHash (.zero 1))]
  provider := exampleProvider 0
  received := [(exampleMsg 1, 7)]
  completed := []

/-- Both messages are answered, and the second poll has come to its drain loop. -/
def exampleAnswered (reply : EngineReply) : State where
  fromNetwork := []
  toNetwork := []
  networkOpen := true
  pendingImports :=
    [exampleFut .newPayload 1 (.replied reply),
      exampleFut .updateForkChoice 1 (.replied (.ok .valid))]
  phase := .draining
  engine := []
  provider := exampleProvider 1
  received := [(exampleMsg 1, 7)]
  completed :=
    [exampleFut .newPayload 1 (.replied reply),
      exampleFut .updateForkChoice 1 (.replied (.ok .valid))]

/-- That state is reached, whatever the engine says of the payload. -/
theorem history_exampleAnswered (reply : EngineReply) :
    History exampleHash exampleNumberOf (.new (exampleProvider 0))
      [.replies reply, .replies (.ok .valid)] [exampleAsked] (exampleAnswered reply) := by
  let payload := exampleFut .newPayload 1
  let choice := exampleFut .updateForkChoice 1
  let newPayload := EngineMsg.newPayload (exampleHash (.zero 1))
  let forkChoice := EngineMsg.forkChoiceUpdated (exampleHash (.zero 1))
  exact History.refl
    |>.step (.arrive (exampleMsg 1) 7)
    |>.step (.startPoll rfl)
    |>.step (.receive rfl rfl)
    |>.step (.received rfl rfl)
    |>.step (@Step.advance _ _ _ [] [choice .created] (payload .created) _ _ rfl rfl rfl)
    |>.step (@Step.advance _ _ _ [payload (.awaiting newPayload)] [] (choice .created) _ _
      rfl rfl rfl)
    |>.step (@Step.advance _ _ _ [payload (.awaiting newPayload)] [] (choice (.readHead 0)) _ _
      rfl rfl rfl)
    |>.step (.noneReady rfl (by decide))
    |>.step (@Step.reply _ _ _ [] [choice (.awaiting forkChoice)]
      (payload (.awaiting newPayload)) _ _ _ reply rfl rfl rfl .payload)
    |>.step (@Step.reply _ _ _ [payload (.replied reply)] [] (choice (.awaiting forkChoice)) _ _
      (exampleProvider 1) (.ok .valid) rfl rfl rfl (.forkChoice rfl))
    |>.step (.startPoll rfl)
    |>.step (.received rfl rfl)

/-- The reply to the payload is `Syncing`, and its future is taken last: the poll sends the outcome
of the other one and leaves nothing behind. -/
theorem drained_syncing_last :
    ∃ s s', History exampleHash exampleNumberOf (.new (exampleProvider 0))
        [.replies (.ok .syncing), .replies (.ok .valid),
          .yields (some { peer := 7, result := .validBlock (exampleMsg 1) }), .yields none]
        [s, s'] s' ∧
      s'.toNetwork = [{ peer := 7, result := .validBlock (exampleMsg 1) }] ∧ Drained s' := by
  let payload := exampleFut .newPayload 1 (.replied (.ok .syncing))
  let choice := exampleFut .updateForkChoice 1 (.replied (.ok .valid))
  have hrun := history_exampleAnswered (.ok .syncing)
    |>.step (@Step.takeSome _ _ _ [payload] [] choice _ rfl rfl rfl rfl)
    |>.step (@Step.takeNone _ _ _ [] [] payload rfl rfl rfl rfl)
  have hfirst : Prompt [.replies (.ok .syncing), .replies (.ok .valid), .yields choice.output] :=
    prompt_of_forall_ne (by simp [choice, exampleFut, ImportFut.output])
  refine ⟨_, _, hrun, rfl, (drained_iff hrun).2 ?_ _ (List.mem_cons_of_mem _ List.mem_cons_self)⟩
  exact prompt_append_singleton.2 ⟨hfirst, fun _ ↦ rfl⟩

/-- The reply to the payload is `Syncing`: its future is taken first and ends the poll, and the
outcome of the other one stays behind. -/
theorem not_drained_syncing_first :
    ¬ ∀ s a s', Runs exampleHash exampleNumberOf (fun _ _ ↦ True) (.new (exampleProvider 0)) s →
      Step exampleHash exampleNumberOf s a s' → s.phase = .draining → s'.phase = .idle →
      Drained s' := by
  let payload := exampleFut .newPayload 1 (.replied (.ok .syncing))
  let choice := exampleFut .updateForkChoice 1 (.replied (.ok .valid))
  intro h
  have hdrained := h _ _ _ (history_exampleAnswered (.ok .syncing)).runs
    (@Step.takeNone _ _ _ [] [choice] payload rfl rfl rfl rfl) rfl rfl
  exact absurd (hdrained.noneLeft choice List.mem_cons_self) (by decide)

end ImportService

end RethHl
