import Mathlib.Data.List.Nodup
import RethHl.Node.Types
import RethHl.Semantics.AtomicReads

/-!
# The compliant RPC handlers: data and programs

`hl-node` hides its system transactions from the Ethereum RPC. In compliant mode the node wraps the
handlers of the Ethereum API and rewrites their answers: a block lists its user transactions only,
numbered from zero, and so do its receipts and logs.

This module holds what the wrappers read and the wrappers themselves.

* `ExecutedBlock` is a block as the executor leaves it. Its fields carry the invariant that the
  rewriting relies on: **the system transactions come first, and they use no gas**.
* `NodeState` is what the provider and the wrapped API answer. They are outside this repository, so
  they are functions with the laws that the wrappers rely on.
* The handlers are programs of atomic reads (`Handler`). An `unwrap` of `None`, a subtraction of
  machine integers below zero, a `drain` past the end and an `unreachable!` are faults. The counts
  are `U256`, whose subtraction wraps (`wrappingSub`).

The conversion of a receipt to its RPC form is the wrapped API's too (`ReceiptConverter`).
-/

namespace RethHl.Compliance

/-! ### Blocks -/

/-- A block with its receipts, as the executor leaves it: first the system transactions, which use
no gas, then the user transactions, whose cumulative gas is positive and increases. The transactions
are a vector, whose length fits in 64 bits. -/
structure ExecutedBlock where
  hash : B256
  header : Header
  system : List (RecoveredTx × Receipt)
  user : List (RecoveredTx × Receipt)
  length_lt : system.length + user.length < u64Size
  system_tx : ∀ p ∈ system, p.1.tx.isSystemTransaction = true
  user_tx : ∀ p ∈ user, p.1.tx.isSystemTransaction = false
  system_gas : ∀ p ∈ system, p.2.cumulativeGasUsed = 0
  user_gas : (0 :: user.map fun p ↦ p.2.cumulativeGasUsed).Pairwise (· < ·)

namespace ExecutedBlock

variable (b : ExecutedBlock)

/-- The number in the header. -/
def number : ℕ := b.header.number

/-- The transactions, each with its receipt. -/
def entries : List (RecoveredTx × Receipt) := b.system ++ b.user

/-- The transactions in block order. -/
def transactions : List RecoveredTx := b.entries.map Prod.fst

/-- The receipts in block order. -/
def receipts : List Receipt := b.entries.map Prod.snd

/-- The number of system transactions, counted as the source does. -/
def systemTxCount : ℕ :=
  (b.transactions.filter fun tx ↦ tx.tx.isSystemTransaction).length

/-- The two classifiers agree: the count is the length of the system part. -/
theorem systemTxCount_eq : b.systemTxCount = b.system.length := by
  have hsystem : (b.system.map Prod.fst).filter (fun tx ↦ tx.tx.isSystemTransaction) =
      b.system.map Prod.fst := by
    rw [List.filter_eq_self]
    intro tx htx
    obtain ⟨p, hp, rfl⟩ := List.mem_map.1 htx
    exact b.system_tx p hp
  have huser : (b.user.map Prod.fst).filter (fun tx ↦ tx.tx.isSystemTransaction) = [] := by
    rw [List.filter_eq_nil_iff]
    intro tx htx
    obtain ⟨p, hp, rfl⟩ := List.mem_map.1 htx
    simp [b.user_tx p hp]
  rw [systemTxCount, transactions, entries, List.map_append, List.filter_append, hsystem, huser,
    List.append_nil, List.length_map]

theorem zip_receipts : b.transactions.zip b.receipts = b.entries := by
  rw [transactions, receipts, List.zip_map', List.map_id']

theorem length_transactions : b.transactions.length = b.system.length + b.user.length := by
  rw [transactions, entries, List.length_map, List.length_append]

/-- A user transaction uses gas. -/
theorem cumulativeGasUsed_pos {p : RecoveredTx × Receipt} (hp : p ∈ b.user) :
    0 < p.2.cumulativeGasUsed :=
  (List.pairwise_cons.1 b.user_gas).1 _ (List.mem_map_of_mem hp)

end ExecutedBlock

/-! ### RPC types -/

/-- A block number or a tag. -/
inductive BlockNumberOrTag where
  | latest
  | finalized
  | safe
  | earliest
  | pending
  | number (n : ℕ)
  deriving DecidableEq, Repr

/-- A block identifier. -/
inductive BlockId where
  | hash (blockHash : B256) (requireCanonical : Option Bool)
  | number (number : BlockNumberOrTag)
  deriving DecidableEq, Repr

/-- A log in its RPC form. -/
structure RpcLog where
  inner : Log
  blockHash : Option B256
  blockNumber : Option ℕ
  blockTimestamp : Option ℕ
  transactionHash : Option B256
  transactionIndex : Option ℕ
  logIndex : Option ℕ
  removed : Bool
  deriving DecidableEq, Repr

/-- A transaction in its RPC form. -/
structure RpcTransaction where
  inner : RecoveredTx
  blockHash : Option B256
  blockNumber : Option ℕ
  transactionIndex : Option ℕ
  effectiveGasPrice : Option ℕ
  deriving DecidableEq, Repr

/-- The RPC form of a transaction at position `i` of a block. -/
def ExecutedBlock.rpcTransaction (b : ExecutedBlock) (effectiveGasPrice : Option ℕ) (i : ℕ)
    (tx : RecoveredTx) : RpcTransaction where
  inner := tx
  blockHash := some b.hash
  blockNumber := some b.number
  transactionIndex := some i
  effectiveGasPrice := effectiveGasPrice

/-- The transactions of an RPC block. -/
inductive BlockTransactions where
  | full (transactions : List RpcTransaction)
  | hashes (hashes : List B256)
  | uncle
  deriving DecidableEq, Repr

/-- A block in its RPC form. -/
structure RpcBlock where
  hash : B256
  header : Header
  uncles : List B256
  transactions : BlockTransactions
  withdrawals : Option (List Withdrawal)
  deriving DecidableEq, Repr

/-- Where a transaction stands. -/
structure TransactionMeta where
  txHash : B256
  index : ℕ
  blockHash : B256
  blockNumber : ℕ
  baseFee : Option ℕ
  excessBlobGas : Option ℕ
  timestamp : ℕ
  deriving DecidableEq, Repr

/-- What the conversion of a receipt works from. -/
structure ConvertReceiptInput where
  receipt : Receipt
  tx : RecoveredTx
  gasUsed : ℕ
  nextLogIndex : ℕ
  txMeta : TransactionMeta
  deriving DecidableEq, Repr

/-- The log number `j` of a receipt, as the wrapped API numbers it. -/
def ConvertReceiptInput.rpcLog (input : ConvertReceiptInput) (j : ℕ) (log : Log) : RpcLog where
  inner := log
  blockHash := some input.txMeta.blockHash
  blockNumber := some input.txMeta.blockNumber
  blockTimestamp := some input.txMeta.timestamp
  transactionHash := some input.txMeta.txHash
  transactionIndex := some input.txMeta.index
  logIndex := some (input.nextLogIndex + j)
  removed := false

/-- The wrapped API's conversion of receipts to a type `R` of RPC receipts: one receipt for each
input, with the index of its transaction, and with the logs numbered on from the given index. -/
structure ReceiptConverter (R : Type) where
  build : ConvertReceiptInput → R
  transactionIndex : R → Option ℕ
  logs : R → List RpcLog
  transactionIndex_build : ∀ input, transactionIndex (build input) = some input.txMeta.index
  logs_build : ∀ input, logs (build input) = input.receipt.logs.mapIdx input.rpcLog

/-! ### The node -/

/-- What the provider and the wrapped API answer in one state of the node. -/
structure NodeState where
  /-- `block_by_id` of the provider. -/
  blockById : BlockId → Option ExecutedBlock
  /-- `receipts_by_block` of the provider, for a block number. -/
  receiptsByBlock : ℕ → Option (List Receipt)
  /-- The block, with its receipts, that the wrapped API answers from. -/
  loadBlock : BlockId → Option ExecutedBlock
  /-- The block whose transactions the wrapped API counts. -/
  countBlock : BlockId → Option ExecutedBlock
  /-- `load_transaction_and_receipt` of the wrapped API, of which only the place is used. -/
  loadTransaction : B256 → Option TransactionMeta
  /-- The API answers from the provider's block; only a pending block may be one it has built. -/
  loadBlock_eq : ∀ id, id ≠ .number .pending → loadBlock id = blockById id
  loadBlock_pending : ∀ b, blockById (.number .pending) = some b →
    loadBlock (.number .pending) = some b
  /-- It counts the provider's block too. For the pending block it does not look a number up but
  asks for what is pending, which is also the first choice of `loadBlock`. -/
  countBlock_eq : ∀ id, id ≠ .number .pending → countBlock id = blockById id
  countBlock_pending : ∀ b, countBlock (.number .pending) = some b →
    loadBlock (.number .pending) = some b
  /-- There are no forks: a block that is found is the block of its number. -/
  canonical : ∀ id b, id ≠ .number .pending → blockById id = some b →
    blockById (.number (.number b.number)) = some b
  receiptsByBlock_eq : ∀ n,
    receiptsByBlock n = (blockById (.number (.number n))).map ExecutedBlock.receipts
  /-- A transaction that is found stands in a block that is found. -/
  loadTransaction_block : ∀ h m, loadTransaction h = some m →
    ∃ b, blockById (.hash m.blockHash none) = some b ∧ m.index < b.transactions.length

/-- A block that the provider finds is the one the wrapped API answers from. -/
theorem NodeState.loadBlock_of_blockById (s : NodeState) {id : BlockId} {b : ExecutedBlock}
    (h : s.blockById id = some b) : s.loadBlock id = some b := by
  by_cases hid : id = .number .pending
  · subst hid
    exact s.loadBlock_pending b h
  · rw [s.loadBlock_eq id hid, h]

/-- The transaction count of the wrapped API. -/
def NodeState.transactionCount (s : NodeState) (id : BlockId) : Option ℕ :=
  (s.countBlock id).map fun b ↦ b.transactions.length

/-- The wrapped API counts the transactions of the block it would answer from. -/
theorem NodeState.loadBlock_of_countBlock (s : NodeState) {id : BlockId} {b : ExecutedBlock}
    (h : s.countBlock id = some b) : s.loadBlock id = some b := by
  by_cases hid : id = .number .pending
  · subst hid
    exact s.countBlock_pending b h
  · rw [s.loadBlock_eq id hid, ← s.countBlock_eq id hid, h]

/-- A chain of blocks, with different numbers and different hashes. -/
structure Chain where
  blocks : List ExecutedBlock
  numbers_nodup : (blocks.map ExecutedBlock.number).Nodup
  hashes_nodup : (blocks.map ExecutedBlock.hash).Nodup

namespace Chain

/-- Where a block with a given key is looked up, the block itself is found. -/
theorem find?_eq_of_mem {κ : Type} [DecidableEq κ] {key : ExecutedBlock → κ}
    {blocks : List ExecutedBlock} (hnodup : (blocks.map key).Nodup) {b : ExecutedBlock}
    (hb : b ∈ blocks) : (blocks.find? fun b' ↦ key b' = key b) = some b := by
  induction blocks with
  | nil => cases hb
  | cons b' blocks ih =>
    rw [List.map_cons, List.nodup_cons] at hnodup
    rcases List.mem_cons.1 hb with rfl | hmem
    · rw [List.find?_cons_of_pos (by simp)]
    · have hne : key b' ≠ key b := fun h ↦ hnodup.1 (h ▸ List.mem_map_of_mem hmem)
      rw [List.find?_cons_of_neg (by simpa using hne), ih hnodup.2 hmem]

variable (chain : Chain)

/-- Look a block up. Nothing is pending, safe or finalized. -/
def find : BlockId → Option ExecutedBlock
  | .hash blockHash _ => chain.blocks.find? fun b ↦ b.hash = blockHash
  | .number (.number n) => chain.blocks.find? fun b ↦ b.number = n
  | .number .latest => chain.blocks.getLast?
  | .number .earliest => chain.blocks.head?
  | .number _ => none

theorem mem_of_find {id : BlockId} {b : ExecutedBlock} (h : chain.find id = some b) :
    b ∈ chain.blocks := by
  rcases id with ⟨_, _⟩ | (_ | _ | _ | _ | _ | n)
  · exact List.mem_of_find?_eq_some h
  · exact List.mem_of_getLast? h
  · cases h
  · cases h
  · exact List.mem_of_head? h
  · cases h
  · exact List.mem_of_find?_eq_some h

/-- The place of a transaction, given the hashing of transactions. -/
def locate (txHash : TransactionSigned → B256) (h : B256) : Option TransactionMeta :=
  chain.blocks.findSome? fun b ↦
    (b.transactions.findIdx? fun tx ↦ txHash tx.tx = h).map fun i ↦
      { txHash := h
        index := i
        blockHash := b.hash
        blockNumber := b.number
        baseFee := b.header.baseFeePerGas
        excessBlobGas := b.header.excessBlobGas
        timestamp := b.header.timestamp }

/-- The node that stores a chain. -/
def state (txHash : TransactionSigned → B256) : NodeState where
  blockById := chain.find
  receiptsByBlock := fun n ↦ (chain.find (.number (.number n))).map ExecutedBlock.receipts
  loadBlock := chain.find
  countBlock := chain.find
  loadTransaction := chain.locate txHash
  loadBlock_eq := fun _ _ ↦ rfl
  loadBlock_pending := fun _ h ↦ h
  countBlock_eq := fun _ _ ↦ rfl
  countBlock_pending := fun _ h ↦ h
  canonical := fun _ _ _ h ↦ find?_eq_of_mem chain.numbers_nodup (chain.mem_of_find h)
  receiptsByBlock_eq := fun _ ↦ rfl
  loadTransaction_block := by
    intro h m hm
    obtain ⟨b, hb, hsome⟩ := List.exists_of_findSome?_eq_some hm
    obtain ⟨i, hi, rfl⟩ := Option.map_eq_some_iff.1 hsome
    exact ⟨b, find?_eq_of_mem chain.hashes_nodup hb,
      (List.findIdx?_eq_some_iff_getElem.1 hi).1⟩

end Chain

/-- The parts of the wrapped API that do not depend on the state: transaction hashes and the
conversions to RPC types. -/
structure EthApi (R : Type) extends ReceiptConverter R where
  txHash : TransactionSigned → B256
  effectiveGasPrice : ExecutedBlock → RecoveredTx → Option ℕ
  rpcBlock : ExecutedBlock → Bool → RpcBlock
  header_rpcBlock : ∀ b full, (rpcBlock b full).header = b.header
  /-- A full block lists its transactions with their positions. -/
  rpcBlock_full : ∀ b, (rpcBlock b true).transactions =
    .full (b.transactions.mapIdx fun i tx ↦ b.rpcTransaction (effectiveGasPrice b tx) i tx)
  rpcBlock_hashes : ∀ b, (rpcBlock b false).transactions =
    .hashes (b.transactions.map fun tx ↦ txHash tx.tx)

/-! ### The handlers -/

/-- What can go wrong inside a handler. -/
inductive Fault where
  /-- `unwrap` of `None`. -/
  | unwrapNone
  /-- A subtraction below zero: a panic with overflow checks, a wrapped result without. -/
  | underflow
  /-- `drain` of a range past the end. -/
  | drainOutOfRange
  /-- `unreachable!` was reached. -/
  | unreachable
  deriving DecidableEq, Repr

/-- A handler: a program of reads of the node's state. -/
abbrev Handler (α : Type) := Reads NodeState Fault α

/-- Subtraction of machine integers. -/
def checkedSub (a b : ℕ) : Except Fault ℕ :=
  if b ≤ a then .ok (a - b) else .error .underflow

/-- Subtraction of `U256` values, which wraps in every build. -/
def wrappingSub (a b : ℕ) : ℕ :=
  (a + 2 ^ 256 - b) % 2 ^ 256

/-- `drain(..n)`: what is left. -/
def drain {α : Type} (n : ℕ) (l : List α) : Except Fault (List α) :=
  if n ≤ l.length then .ok (l.drop n) else .error .drainOutOfRange

/-- The number of system transactions of a block, which is looked up anew and must exist. -/
def systemTxCountForBlock (id : BlockId) : Handler ℕ := do
  match ← Reads.ask (NodeState.blockById · id) with
  | none => .fault .unwrapNone
  | some block => pure block.systemTxCount

/-- Shift the index of a transaction. -/
def shiftTransaction (systemTxCount : ℕ) (tx : RpcTransaction) : Except Fault RpcTransaction := do
  match tx.transactionIndex with
  | none => pure tx
  | some idx =>
    let idx ← checkedSub idx systemTxCount
    pure { tx with transactionIndex := some idx }

/-- Drop the system transactions of an RPC block and shift the indices of the others. -/
def adjustTransactions (systemTxCount : ℕ) : BlockTransactions → Except Fault BlockTransactions
  | .full transactions => do
    let transactions ← drain systemTxCount transactions
    let transactions ← transactions.mapM (shiftTransaction systemTxCount)
    pure (.full transactions)
  | .hashes hashes => do
    let hashes ← drain systemTxCount hashes
    pure (.hashes hashes)
  | .uncle => pure .uncle

/-- Rewrite a block. The system transactions are counted in the block of the same number. -/
def adjustBlock (recoveredBlock : RpcBlock) : Handler RpcBlock := do
  let systemTxCount ← systemTxCountForBlock (.number (.number recoveredBlock.header.number))
  let transactions ← .ofExcept (adjustTransactions systemTxCount recoveredBlock.transactions)
  pure { recoveredBlock with transactions := transactions }

/-- Rewrite a log, or drop it when it belongs to a system transaction. -/
def adjustLog (log : RpcLog) : Handler (Option RpcLog) := do
  match log.transactionIndex, log.logIndex, log.blockNumber with
  | some txIdx, some logIdx, some blockNumber =>
    match ← Reads.ask (NodeState.receiptsByBlock · blockNumber) with
    | none => pure none
    | some receipts =>
      let (sysTxCount, sysLogCount) := receipts.foldl
        (fun counts receipt ↦
          if receipt.cumulativeGasUsed = 0 then
            (counts.1 + 1, counts.2 + receipt.logs.length)
          else counts)
        (0, 0)
      if txIdx < sysTxCount then pure none
      else
        let txIdx ← .ofExcept (checkedSub txIdx sysTxCount)
        let logIdx ← .ofExcept (checkedSub logIdx sysLogCount)
        pure (some { log with transactionIndex := some txIdx, logIndex := some logIdx })
  | _, _, _ => pure none

section Handlers

variable {R : Type} (api : EthApi R)

/-- The inputs of the receipt conversion, for the transactions from position `idx` on, with the gas
and the logs of the earlier ones. A transaction without gas is left out. -/
def receiptInputs (block : ExecutedBlock) (systemTxCount : ℕ) :
    ℕ → ℕ → ℕ → List (RecoveredTx × Receipt) → Except Fault (List ConvertReceiptInput)
  | _, _, _, [] => pure []
  | idx, gasUsed, nextLogIndex, (tx, receipt) :: rest =>
    if receipt.cumulativeGasUsed = 0 then
      receiptInputs block systemTxCount (idx + 1) gasUsed nextLogIndex rest
    else do
      let index ← checkedSub idx systemTxCount
      let ownGas ← checkedSub receipt.cumulativeGasUsed gasUsed
      let inputs ← receiptInputs block systemTxCount (idx + 1) receipt.cumulativeGasUsed
        (nextLogIndex + receipt.logs.length) rest
      pure
        ({ receipt := receipt
           tx := tx
           gasUsed := ownGas
           nextLogIndex := nextLogIndex
           txMeta :=
             { txHash := api.txHash tx.tx
               index := index
               blockHash := block.hash
               blockNumber := block.number
               baseFee := block.header.baseFeePerGas
               excessBlobGas := block.header.excessBlobGas
               timestamp := block.header.timestamp } } :: inputs)

/-- The receipts of a block without those of its system transactions, and the number of these. -/
def adjustBlockReceipts (id : BlockId) : Handler (Option (ℕ × List R)) := do
  let systemTxCount ← systemTxCountForBlock id
  match ← Reads.ask (NodeState.loadBlock · id) with
  | none => pure none
  | some block =>
    let inputs ← .ofExcept
      (receiptInputs api block systemTxCount 0 0 0 (block.transactions.zip block.receipts))
    pure (some (systemTxCount, inputs.map api.build))

/-- The receipt of a transaction, taken from the receipts of its block. -/
def adjustTransactionReceipt (txHash : B256) : Handler (Option R) := do
  match ← Reads.ask (NodeState.loadTransaction · txHash) with
  | none => pure none
  | some txMeta =>
    match ← adjustBlockReceipts api (.hash txMeta.blockHash none) with
    | none => .fault .unreachable
    | some (systemTxCount, blockReceipts) =>
      let index ← .ofExcept (checkedSub txMeta.index systemTxCount)
      match blockReceipts[index]? with
      | none => .fault .unwrapNone
      | some receipt => pure (some receipt)

/-- A block of the wrapped API, rewritten. -/
def adjustedBlock (id : BlockId) (full : Bool) : Handler (Option RpcBlock) := do
  match ← Reads.ask (NodeState.loadBlock · id) with
  | none => pure none
  | some block =>
    let block ← adjustBlock (api.rpcBlock block full)
    pure (some block)

/-- `eth_getBlockByHash`. -/
def blockByHash (hash : B256) (full : Bool) : Handler (Option RpcBlock) :=
  adjustedBlock api (.hash hash none) full

/-- `eth_getBlockByNumber`. -/
def blockByNumber (number : BlockNumberOrTag) (full : Bool) : Handler (Option RpcBlock) :=
  adjustedBlock api (.number number) full

/-- A transaction count of the wrapped API, less the system transactions. Both are `U256`. -/
def blockTransactionCount (id : BlockId) : Handler (Option ℕ) := do
  match ← Reads.ask (NodeState.transactionCount · id) with
  | none => pure none
  | some count =>
    let systemTxCount ← systemTxCountForBlock id
    pure (some (wrappingSub count systemTxCount))

/-- `eth_getBlockTransactionCountByHash`. -/
def blockTransactionCountByHash (hash : B256) : Handler (Option ℕ) :=
  blockTransactionCount (.hash hash none)

/-- `eth_getBlockTransactionCountByNumber`. -/
def blockTransactionCountByNumber (number : BlockNumberOrTag) : Handler (Option ℕ) :=
  blockTransactionCount (.number number)

/-- `eth_getTransactionReceipt`. -/
def transactionReceipt (hash : B256) : Handler (Option R) :=
  adjustTransactionReceipt api hash

/-- `eth_getBlockReceipts`. -/
def blockReceipts (id : BlockId) : Handler (Option (List R)) := do
  match ← adjustBlockReceipts api id with
  | none => pure none
  | some (_, receipts) => pure (some receipts)

end Handlers

end RethHl.Compliance
