import Mathlib.Data.Finset.Insert
import RethHl.Node.Types
import RethHl.PseudoPeer.LruBiMap
import RethHl.Semantics.SharedState

/-!
# The pseudo peer

The node is fed by a pseudo peer that answers requests of the network protocol from a block source.
A block source finds blocks by height only, so the peer keeps a cache from hashes to heights, which
the block poller fills as well. For a hash that is not there it goes through the source backwards in
chunks, asks an official RPC when that takes long, and warms the cache around what it found.

The peer takes one request at a time, but shares the cache with the poller: every access to the
cache, to the source and to the RPC is an atomic action of a program over the shared state, and what
happens in between is the environment's (`PeerState.Env`).

The source and the RPC are outside this repository. `BlockSource` is what is assumed of the blocks,
and `World` of what the source and the RPC answer at a moment.
-/

namespace RethHl.PseudoPeer

/-- The blocks of a source, one for every height. -/
structure BlockSource where
  block : ℕ → BlockAndReceipts
  recommendedChunkSize : ℕ
  /-- The hash of a header. -/
  hashSlow : Header → B256
  systemTxToRethTransaction : SystemTx → TransactionSigned
  /-- The order in which a hash map gives out its entries. -/
  iterate : List (B256 × ℕ) → List (B256 × ℕ)
  number_eq : ∀ n, (block n).number = n
  hash_eq : ∀ n, (block n).hash = hashSlow (block n).block.sealed.header.header
  hash_injective : ∀ n m, n < u64Size → m < u64Size → (block n).hash = (block m).hash → n = m
  chunk_pos : 0 < recommendedChunkSize
  iterate_subset : ∀ entries, iterate entries ⊆ entries

/-- A height and the hash of its block. -/
def BlockSource.IsHash (source : BlockSource) (hash : B256) (number : ℕ) : Prop :=
  number < u64Size ∧ (source.block number).hash = hash

/-- What the source holds and what the official RPC answers at a moment. -/
structure World (source : BlockSource) where
  latest : ℕ
  held : ℕ → Bool
  officialRpc : B256 → Option ℕ
  /-- The source holds every block up to the latest one. -/
  holds : ∀ n, 1 ≤ n → n ≤ latest → held n = true
  /-- Heights have 64 bits. -/
  held_lt : ∀ n, held n = true → n < u64Size
  latest_lt : latest < u64Size
  /-- The RPC answers correctly or not at all. -/
  officialRpc_eq : ∀ hash n, officialRpc hash = some n → source.IsHash hash n

/-- The peer and what it shares. -/
structure PeerState (source : BlockSource) where
  world : World source
  blockhashCache : LruBiMap B256 ℕ
  ifHitThenWarmAround : Finset ℕ
  knownLatestBlockNumber : ℕ

/-- The limit of the cache. -/
def blockhashCacheLimit : ℕ := 1000000

/-- The reach of a warm-up: the default chunk of a request. -/
def warmCacheSize : ℕ := 1000

/-- How often a backfill is tried. -/
def backfillRetryLimit : ℕ := 10

/-- After how many chunks the official RPC is asked. -/
def tryOfficialRpcThreshold : ℕ := 20

/-- A new peer. -/
def PeerState.new {source : BlockSource} (world : World source) : PeerState source where
  world := world
  blockhashCache := .new blockhashCacheLimit
  ifHitThenWarmAround := ∅
  knownLatestBlockNumber := 0

/-- Every `step`-th element of a list, from the first one on. -/
def stepBy {α : Type} (step : ℕ) (l : List α) : List α :=
  (l.zipIdx.filter fun p ↦ p.2 % step = 0).map Prod.fst

/-- Look up a key in a hash map that was collected from pairs; the last one counts. -/
def hashMapGet (pairs : List (B256 × ℕ)) (key : B256) : Option ℕ :=
  pairs.reverse.lookup key

section Peer

variable (source : BlockSource)

/-- What others do with the shared state: the poller announces a block, an entry is evicted, and the
source and the RPC move on. -/
inductive PeerState.Env : PeerState source → PeerState source → Prop
  /-- `BlockPoller::poll` -/
  | announce {s : PeerState source} {number : ℕ} (h : s.world.held number = true) :
    Env s { s with
      blockhashCache := s.blockhashCache.insert
        (source.hashSlow
          ((source.block number).toRethBlock source.systemTxToRethTransaction).header) number }
  | evict {s : PeerState source} (hash : B256) :
    Env s { s with blockhashCache := s.blockhashCache.evict hash }
  | world {s : PeerState source} {world : World source} (hlatest : s.world.latest ≤ world.latest)
    (hheld : ∀ n, s.world.held n = true → world.held n = true) :
    Env s { s with world := world }

/-! ### Blocks and the cache -/

/-- Collect a block; `none` is an error. -/
def collectBlock (height : ℕ) : Shared (PeerState source) (Option BlockAndReceipts) :=
  .get fun s ↦ if s.world.held height then some (source.block height) else none

/-- Collect blocks in order; one error is an error of all. -/
def collectBlocks : List ℕ → Shared (PeerState source) (Option (List BlockAndReceipts))
  | [] => pure (some [])
  | number :: numbers => do
    let block ← collectBlock source number
    let blocks ← collectBlocks numbers
    pure (block.bind fun block ↦ blocks.map fun blocks ↦ block :: blocks)

/-- Split a range of heights into the cached ones, by their hashes, and the others. -/
def getCachedBlockHashes (startNumber endNumber : ℕ) :
    Shared (PeerState source) (List (B256 × ℕ) × List ℕ) :=
  .get fun s ↦
    let numbers := List.range' startNumber (endNumber + 1 - startNumber)
    let cached := numbers.filter fun n ↦ (s.blockhashCache.getByRight n).isSome
    let uncached := numbers.filter fun n ↦ !(s.blockhashCache.getByRight n).isSome
    (cached.filterMap fun n ↦ (s.blockhashCache.getByRight n).map fun hash ↦ (hash, n), uncached)

/-- Cache hashes with their heights. -/
def cacheBlocks (blocks : List (B256 × ℕ)) : Shared (PeerState source) Unit :=
  .modify fun s ↦ { s with blockhashCache := s.blockhashCache.insertAll blocks }

/-- `try_block_range_for_hash`: look for a hash in a range of heights, and cache the range. `none`
is an error. -/
def tryBlockRangeForHash (startNumber endNumber : ℕ) (targetHash : B256) :
    Shared (PeerState source) (Option (Option ℕ)) := do
  let (cachedBlockHashes, uncachedBlockNumbers) ←
    getCachedBlockHashes source startNumber endNumber
  match hashMapGet cachedBlockHashes targetHash with
  | some blockNumber => pure (some (some blockNumber))
  | none =>
    if uncachedBlockNumbers.isEmpty then pure (some none)
    else
      match ← collectBlocks source uncachedBlockNumbers with
      | none => pure none
      | some blocks =>
        let blockMap := blocks.map fun block ↦ (block.hash, block.number)
        cacheBlocks source (source.iterate blockMap)
        pure (some (hashMapGet blockMap targetHash))

/-- `warm_cache_around_blocks`. The hash that is looked for is that of no block. -/
def warmCacheAroundBlocks (blockNumber chunkSize : ℕ) : Shared (PeerState source) Unit := do
  let (startNumber, endNumber) ← .atomic fun s ↦
    let startNumber := max (blockNumber - chunkSize) 1
    let endNumber := min ((blockNumber + chunkSize) % u64Size) s.knownLatestBlockNumber
    ((startNumber, endNumber),
      { s with
        ifHitThenWarmAround := insert endNumber (insert startNumber s.ifHitThenWarmAround) })
  let _ ← tryBlockRangeForHash source startNumber endNumber 0
  pure ()

/-! ### From hashes to heights -/

/-- `fallback_to_official_rpc`; `none` is an error. -/
def fallbackToOfficialRpc (hash : B256) : Shared (PeerState source) (Option ℕ) := do
  match ← .get fun s ↦ s.world.officialRpc hash with
  | none => pure none
  | some number => do
    cacheBlocks source [(hash, number)]
    pure (some number)

/-- `try_get_cached_block_number`. -/
def tryGetCachedBlockNumber (hash : B256) : Shared (PeerState source) (Option ℕ) := do
  match ← .get fun s ↦ s.blockhashCache.getByLeft hash with
  | none => pure none
  | some blockNumber => do
    let warm ← .get fun s ↦ decide (blockNumber ∈ s.ifHitThenWarmAround)
    if warm then warmCacheAroundBlocks source blockNumber warmCacheSize else pure ()
    pure (some blockNumber)

/-- The chunks of a backfill: the last height of each, from the latest block downwards, and its
position. -/
def chunkEnds (latest : ℕ) : List (ℕ × ℕ) :=
  (stepBy source.recommendedChunkSize (List.range' 1 latest).reverse).zipIdx

/-- The loop of `backfill_cache_for_hash` over the chunks. -/
def backfillLoop (targetHash : B256) : List (ℕ × ℕ) → Shared (PeerState source) (Option ℕ)
  | [] => pure none
  | (endNumber, iteration) :: chunks => do
    let startNumber := max (endNumber - source.recommendedChunkSize) 1
    match ← tryBlockRangeForHash source startNumber endNumber targetHash with
    | some (some blockNumber) => pure (some blockNumber)
    | _ =>
      if tryOfficialRpcThreshold ≤ iteration then
        match ← fallbackToOfficialRpc source targetHash with
        | some blockNumber => do
          warmCacheAroundBlocks source blockNumber warmCacheSize
          pure (some blockNumber)
        | none => backfillLoop targetHash chunks
      else backfillLoop targetHash chunks

/-- `backfill_cache_for_hash`. -/
def backfillCacheForHash (targetHash : B256) (latest : ℕ) :
    Shared (PeerState source) (Option ℕ) :=
  backfillLoop source targetHash (chunkEnds source latest)

/-- Backfill a number of times. -/
def backfillRetry (hash : B256) (latest : ℕ) : ℕ → Shared (PeerState source) ℕ
  | 0 => .panic
  | retries + 1 => do
    match ← backfillCacheForHash source hash latest with
    | some blockNumber => pure blockNumber
    | none => backfillRetry hash latest retries

/-- `hash_to_block_number` with a limit on the passes over the source. -/
def hashToBlockNumberWithin (retryLimit : ℕ) (hash : B256) : Shared (PeerState source) ℕ := do
  match ← tryGetCachedBlockNumber source hash with
  | some blockNumber => pure blockNumber
  | none => do
    let latest ← .atomic fun s ↦
      (s.world.latest, { s with knownLatestBlockNumber := s.world.latest })
    backfillRetry source hash latest retryLimit

/-- `hash_to_block_number`. -/
def hashToBlockNumber (hash : B256) : Shared (PeerState source) ℕ :=
  hashToBlockNumberWithin source backfillRetryLimit hash

/-! ### Requests -/

inductive HashOrNumber where
  | hash (hash : B256)
  | number (number : ℕ)
  deriving DecidableEq, Repr

inductive HeadersDirection where
  | rising
  | falling
  deriving DecidableEq, Repr

/-- A request of the network protocol. -/
inductive EthRequest where
  | getBlockHeaders (startBlock : HashOrNumber) (limit : ℕ) (direction : HeadersDirection)
  | getBlockBodies (hashes : List B256)
  | other
  deriving DecidableEq, Repr

/-- What becomes of a request. -/
inductive EthOutcome where
  | failed
  | ignored
  | blockHeaders (headers : List Header)
  | blockBodies (bodies : List HlBlockBody)
  deriving DecidableEq, Repr

/-- The heights of a list of hashes. -/
def hashesToBlockNumbers : List B256 → Shared (PeerState source) (List ℕ)
  | [] => pure []
  | hash :: hashes => do
    let number ← hashToBlockNumber source hash
    let numbers ← hashesToBlockNumbers hashes
    pure (number :: numbers)

/-- The heights of a headers request. Arithmetic wraps, so a falling request that reaches below zero
is empty. -/
def headerNumbers (number limit : ℕ) : HeadersDirection → List ℕ
  | .rising =>
    let stop := (number + limit) % u64Size
    List.range' number (stop - number)
  | .falling =>
    let stop := (number + 1) % u64Size
    let start := (stop + u64Size - limit) % u64Size
    (List.range' start (stop - start)).reverse

/-- `process_eth_request`. -/
def processEthRequest : EthRequest → Shared (PeerState source) EthOutcome
  | .getBlockHeaders startBlock limit direction => do
    let number ←
      match startBlock with
      | .hash hash => hashToBlockNumber source hash
      | .number number => pure number
    match ← collectBlocks source (headerNumbers number limit direction) with
    | none => pure .failed
    | some blocks => pure (.blockHeaders (blocks.map fun block ↦
        (block.toRethBlock source.systemTxToRethTransaction).header))
  | .getBlockBodies hashes => do
    let numbers ← hashesToBlockNumbers source hashes
    match ← collectBlocks source numbers with
    | none => pure .failed
    | some blocks => pure (.blockBodies (blocks.map fun block ↦
        (block.toRethBlock source.systemTxToRethTransaction).body))
  | .other => pure .ignored

/-- The peer and its environment: the request at hand goes on, or the next one is taken. -/
inductive PeerStep : Shared (PeerState source) EthOutcome × PeerState source →
    Shared (PeerState source) EthOutcome × PeerState source → Prop
  | run {c c' : Shared (PeerState source) EthOutcome × PeerState source}
    (h : Shared.Step (PeerState.Env source) c c') : PeerStep c c'
  | accept {outcome : EthOutcome} {s : PeerState source} (request : EthRequest) :
    PeerStep (.done outcome, s) (processEthRequest source request, s)

end Peer

end RethHl.PseudoPeer
