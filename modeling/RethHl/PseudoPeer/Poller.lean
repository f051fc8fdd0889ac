import RethHl.Network.BlockImport
import RethHl.PseudoPeer.HashLookup
import RethHl.Semantics.Channel
import RethHl.Semantics.Machine

/-!
# The block poller

The pseudo peer feeds the node with new blocks. A task of its own asks the source for one height
after the other and puts the blocks into a channel; the network manager takes them out, records
their hashes for the lookup and announces them. The task is started by the main loop, which sends a
signal when the first session with a peer is there and answers the requests of the peer otherwise.

`Pipeline` is the whole of it: the main loop with the request at hand, the channel of the signal,
the poller, and what they share. A `PipelineAction` is a move of one of them, and any of them may
move next. Whether the source answers is part of the action, since a source may fail at any time;
what it holds grows on its own (`PipelineStep.world`).

Two fields of the poller record what has happened: the height the task started from, and the
announcements. The code does not have them.
-/

namespace RethHl.PseudoPeer

/-- What the network reports to the main loop. -/
inductive NetworkEvent where
  | activePeerSession
  | peer
  deriving DecidableEq, Repr

/-- Where `BlockPoller::task` is. -/
inductive PollerTask where
  /-- It waits for the signal to start. -/
  | suspended
  /-- It waits for the height to start from. -/
  | starting
  | collecting (nextBlockNumber : ℕ)
  /-- It sleeps after an error of the source. -/
  | sleeping (nextBlockNumber : ℕ)
  /-- It waits for room in the channel. -/
  | sending (nextBlockNumber : ℕ) (block : BlockAndReceipts)
  | ended (error : String)
  deriving DecidableEq, Repr

/-- The height the task is at. -/
def PollerTask.nextBlockNumber : PollerTask → Option ℕ
  | .collecting n => some n
  | .sleeping n => some n
  | .sending n _ => some n
  | _ => none

/-- The task has not got the height to start from yet. -/
def PollerTask.early : PollerTask → Bool
  | .suspended => true
  | .starting => true
  | _ => false

theorem PollerTask.early_eq_false {task : PollerTask} {n : ℕ}
    (h : task.nextBlockNumber = some n) : task.early = false := by
  cases task with
  | suspended => cases h
  | starting => cases h
  | _ => rfl

/-- The room in the channel of blocks. -/
def blockChannelLimit : ℕ := 100

/-- `BlockPoller` and its task. -/
structure BlockPoller where
  task : PollerTask
  blockTx : Channel (ℕ × BlockAndReceipts) blockChannelLimit
  found : Option ℕ
  announced : List BlockMsg

/-- The message that announces a block. -/
def BlockSource.announcement (source : BlockSource) (block : BlockAndReceipts) : BlockMsg :=
  let rethBlock := block.toRethBlock source.systemTxToRethTransaction
  { hash := source.hashSlow rethBlock.header
    block := ⟨{ block := rethBlock, td := BitVec.ofNat 128 rethBlock.header.difficulty }⟩ }

/-- The difficulty of a block has 128 bits; the conversion of one that has not panics. -/
def TdFits (block : BlockAndReceipts) : Prop :=
  block.block.sealed.header.header.difficulty < 2 ^ 128

instance (block : BlockAndReceipts) : Decidable (TdFits block) :=
  inferInstanceAs (Decidable (_ < _))

namespace BlockPoller

/-- `new_suspended` -/
def newSuspended : BlockPoller where
  task := .suspended
  blockTx := .new
  found := none
  announced := []

/-- The task ends with an error, and its end of the channel is gone. -/
def fail (p : BlockPoller) (error : String) : BlockPoller :=
  { p with task := .ended error, blockTx := p.blockTx.dropSender }

/-- The task has the height to start from. -/
def start (p : BlockPoller) (latest : ℕ) : BlockPoller :=
  { p with task := .collecting latest, found := some latest }

/-- The task sends a block that it has collected, while there is room. -/
def send (p : BlockPoller) (nextBlockNumber : ℕ) (block : BlockAndReceipts) : Option BlockPoller :=
  (p.blockTx.push (nextBlockNumber, block)).map fun blockTx ↦
    { p with blockTx := blockTx, task := .collecting ((nextBlockNumber + 1) % u64Size) }

/-- `poll` when there is a block: what is recorded for the lookup, and the poller. The hash is
recorded before the total difficulty is converted, and a panic takes the receiver with it. -/
def poll (source : BlockSource) (p : BlockPoller) : Option ((B256 × ℕ) × BlockPoller) :=
  p.blockTx.pop.map fun ((number, block), blockTx) ↦
    let msg := source.announcement block
    ((msg.hash, number),
      if TdFits block then { p with blockTx := blockTx, announced := p.announced ++ [msg] }
      else { p with blockTx := blockTx.dropReceiver })

end BlockPoller

/-- The main loop, the poller and what they share. -/
structure Pipeline (source : BlockSource) where
  peer : PeerState source
  /-- The request the main loop works on; it is idle when that is done. -/
  request : Shared (PeerState source) EthOutcome
  first : Bool
  startTx : Channel Unit 1
  poller : BlockPoller

/-- The move of a party. -/
inductive PipelineAction where
  /-- The main loop takes an event of the network. -/
  | networkEvent (event : NetworkEvent)
  /-- The main loop takes a transaction of the network and drops it. -/
  | transaction
  /-- The main loop takes a request. -/
  | ethRequest (request : EthRequest)
  /-- The main loop goes on with the request at hand. -/
  | serve
  /-- The main loop is gone. -/
  | stop
  /-- The task receives the signal, or learns that there will be none. -/
  | recvStart
  /-- The task is told the latest block of the source, or that there is none. -/
  | findLatest (answered : Bool)
  /-- The source answers with the block, or with an error. -/
  | collect (answered : Bool)
  /-- The task has slept. -/
  | wake
  /-- The task puts a block into the channel, or learns that nobody receives. -/
  | send
  /-- The network manager polls the channel. -/
  | poll
  /-- The network manager is gone. -/
  | disconnect
  deriving DecidableEq, Repr

namespace Pipeline

variable {source : BlockSource}

/-- `start_pseudo_peer` before its loop. -/
def new (world : World source) : Pipeline source where
  peer := .new world
  request := .done .ignored
  first := true
  startTx := .new
  poller := .newSuspended

/-- The main loop is there and works on nothing. -/
def idle (s : Pipeline source) : Bool :=
  s.startTx.sender && match s.request with
    | .done _ => true
    | _ => false

/-- The main loop at an event: the first session sends the signal. A send that fails would end the
loop. -/
def onNetworkEvent (s : Pipeline source) (event : NetworkEvent) : Option (Pipeline source) :=
  if event = .activePeerSession ∧ s.first = true then
    if s.startTx.receiver = false then some { s with startTx := s.startTx.dropSender }
    else (s.startTx.push ()).map fun startTx ↦ { s with startTx := startTx, first := false }
  else some s

/-- One atomic action of the request at hand. -/
def serve (s : Pipeline source) : Option (Pipeline source) :=
  match s.request with
  | .act change next => some { s with peer := change s.peer, request := next s.peer }
  | _ => none

/-- The task ends with an error, and its ends of both channels are gone. -/
def fail (s : Pipeline source) (error : String) : Pipeline source :=
  { s with startTx := s.startTx.dropReceiver, poller := s.poller.fail error }

/-- `task`, its first await. -/
def recvStart (s : Pipeline source) : Option (Pipeline source) :=
  match s.startTx.pop with
  | some ((), startTx) =>
    some { s with startTx := startTx, poller := { s.poller with task := .starting } }
  | none =>
    if s.startTx.sender = false then some (s.fail "Failed to receive start signal") else none

/-- `task`, its second await. -/
def findLatest (s : Pipeline source) (answered : Bool) : Pipeline source :=
  if answered then { s with poller := s.poller.start s.peer.world.latest }
  else s.fail "Failed to find latest block number"

/-- `task`, the answer of the source in its loop. Only a block that the source holds comes back. -/
def collect (s : Pipeline source) (nextBlockNumber : ℕ) (answered : Bool) :
    Option (Pipeline source) :=
  if answered then
    if s.peer.world.held nextBlockNumber then
      some { s with
        poller := { s.poller with
          task := .sending nextBlockNumber (source.block nextBlockNumber) } }
    else none
  else some { s with poller := { s.poller with task := .sleeping nextBlockNumber } }

/-- `task`, the send in its loop. -/
def send (s : Pipeline source) (nextBlockNumber : ℕ) (block : BlockAndReceipts) :
    Option (Pipeline source) :=
  if s.poller.blockTx.receiver = false then some (s.fail "channel closed")
  else (s.poller.send nextBlockNumber block).map fun poller ↦ { s with poller := poller }

/-- The network manager polls the poller. -/
def poll (s : Pipeline source) : Option (Pipeline source) :=
  (s.poller.poll source).map fun ((hash, number), poller) ↦
    { s with
      peer := { s.peer with blockhashCache := s.peer.blockhashCache.insert hash number }
      poller := poller }

/-- What becomes of the pipeline by an action; `none` when it is not possible. -/
def act (s : Pipeline source) : PipelineAction → Option (Pipeline source)
  | .networkEvent event => if s.idle then s.onNetworkEvent event else none
  | .transaction => if s.idle then some s else none
  | .ethRequest request =>
    if s.idle then some { s with request := processEthRequest source request } else none
  | .serve => if s.startTx.sender then s.serve else none
  | .stop => some { s with startTx := s.startTx.dropSender }
  | .recvStart =>
    match s.poller.task with
    | .suspended => s.recvStart
    | _ => none
  | .findLatest answered =>
    match s.poller.task with
    | .starting => some (s.findLatest answered)
    | _ => none
  | .collect answered =>
    match s.poller.task with
    | .collecting nextBlockNumber => s.collect nextBlockNumber answered
    | _ => none
  | .wake =>
    match s.poller.task with
    | .sleeping nextBlockNumber =>
      some { s with poller := { s.poller with task := .collecting nextBlockNumber } }
    | _ => none
  | .send =>
    match s.poller.task with
    | .sending nextBlockNumber block => s.send nextBlockNumber block
    | _ => none
  | .poll => if s.poller.blockTx.receiver then s.poll else none
  | .disconnect =>
    some { s with poller := { s.poller with blockTx := s.poller.blockTx.dropReceiver } }

end Pipeline

section Runs

variable (source : BlockSource)

/-- A step: somebody moves, or the source and the RPC move on. -/
inductive PipelineStep : Pipeline source → Pipeline source → Prop
  | act {s s' : Pipeline source} (action : PipelineAction) (h : s.act action = some s') :
    PipelineStep s s'
  | world {s : Pipeline source} {world : World source}
    (hlatest : s.peer.world.latest ≤ world.latest)
    (hheld : ∀ n, s.peer.world.held n = true → world.held n = true) :
    PipelineStep s { s with peer := { s.peer with world := world } }

/-- The runs of the pipeline. -/
def PipelineRuns : Pipeline source → Pipeline source → Prop :=
  Relation.ReflTransGen (PipelineStep source)

variable {source}

/-- The actions of a list are a run. -/
theorem pipelineRuns_of_run {s s' : Pipeline source} {actions : List PipelineAction}
    (h : Machine.run Pipeline.act s actions = some s') : PipelineRuns source s s' :=
  Machine.run_stable (P := PipelineRuns source s)
    (fun _ action _ hruns hact ↦ hruns.tail (.act action hact)) .refl h

end Runs

end RethHl.PseudoPeer
