import RethHl.Compliance.Views
import RethHl.Consensus.Classification

/-!
# The views of the system transactions

What the compliant handlers hide is served by handlers of its own. There are three rules for what
belongs to which side:

* `getSystemTxsByBlockId` keeps the transactions with a gas price of zero, wherever they stand;
* `getSystemTxsReceiptsByBlockId` goes over the receipts and stops at the first one with gas;
* `adjustBlock` and `adjustBlockReceipts` drop a counted prefix and skip the receipts without gas.

On a block as the executor leaves it they all split at the same place (`systemViews_partition`):
the two system lists correspond, and each system list followed by its compliant list is the block.
`exists_executedBlock` says that a run of the executor does leave such a block.
-/

namespace RethHl.Compliance

/-! ### The handlers -/

/-- What the conversion of a transaction is told about its place. -/
structure TransactionInfo where
  hash : Option B256
  index : Option ℕ
  blockHash : Option B256
  blockNumber : Option ℕ
  baseFee : Option ℕ
  deriving DecidableEq, Repr

/-- The conversion of a transaction to its RPC form, `none` where it fails. -/
abbrev Fill := RecoveredTx → TransactionInfo → Option RpcTransaction

/-- The conversion succeeds: it keeps the transaction and the place, and computes a price. -/
def Fill.Succeeds (fill : Fill) : Prop :=
  ∀ tx info, ∃ effectiveGasPrice, fill tx info = some
    { inner := tx
      blockHash := info.blockHash
      blockNumber := info.blockNumber
      transactionIndex := info.index
      effectiveGasPrice := effectiveGasPrice }

section Handlers

variable {R : Type} (api : EthApi R) (fill : Fill)

/-- The place of the transaction number `index`. -/
def transactionInfo (block : ExecutedBlock) (index : ℕ) (tx : RecoveredTx) : TransactionInfo where
  hash := some (api.txHash tx.tx)
  index := some index
  blockHash := some block.hash
  blockNumber := some block.number
  baseFee := block.header.baseFeePerGas

/-- The system transactions of a block. A transaction whose conversion fails is left out. -/
def getSystemTxsByBlockId (id : BlockId) : Handler (Option (List RpcTransaction)) := do
  match ← Reads.ask (NodeState.loadBlock · id) with
  | none => pure none
  | some block =>
    let systemTxs := block.transactions.zipIdx.filterMap fun entry ↦
      if entry.1.tx.isSystemTransaction then
        fill entry.1 (transactionInfo api block entry.2 entry.1)
      else none
    pure (some systemTxs)

/-- The inputs of the receipt conversion, for the transactions from position `idx` on, with the gas
and the logs of the earlier ones. The loop is left at the first receipt with gas. -/
def systemReceiptInputs (block : ExecutedBlock) :
    ℕ → ℕ → ℕ → List (RecoveredTx × Receipt) → Except Fault (List ConvertReceiptInput)
  | _, _, _, [] => pure []
  | idx, gasUsed, nextLogIndex, (tx, receipt) :: rest =>
    if receipt.cumulativeGasUsed ≠ 0 then pure []
    else do
      let ownGas ← checkedSub receipt.cumulativeGasUsed gasUsed
      let inputs ← systemReceiptInputs block (idx + 1) receipt.cumulativeGasUsed
        (nextLogIndex + receipt.logs.length) rest
      pure
        ({ receipt := receipt
           tx := tx
           gasUsed := ownGas
           nextLogIndex := nextLogIndex
           txMeta :=
             { txHash := api.txHash tx.tx
               index := idx
               blockHash := block.hash
               blockNumber := block.number
               baseFee := block.header.baseFeePerGas
               excessBlobGas := block.header.excessBlobGas
               timestamp := block.header.timestamp } } :: inputs)

/-- The receipts of the system transactions of a block. -/
def getSystemTxsReceiptsByBlockId (id : BlockId) : Handler (Option (List R)) := do
  match ← Reads.ask (NodeState.loadBlock · id) with
  | none => pure none
  | some block =>
    let inputs ← .ofExcept
      (systemReceiptInputs api block 0 0 0 (block.transactions.zip block.receipts))
    pure (some (inputs.map api.build))

end Handlers

/-! ### The receipts of the system transactions -/

section Receipts

variable {R : Type} (api : EthApi R) (b : ExecutedBlock)

/-- The loop takes the receipts without gas up to the first one with gas. -/
theorem systemReceiptInputs_append (idx n : ℕ) {l rest : List (RecoveredTx × Receipt)}
    (hl : ∀ p ∈ l, p.2.cumulativeGasUsed = 0)
    (hrest : ∀ p ∈ rest, p.2.cumulativeGasUsed ≠ 0) :
    systemReceiptInputs api b idx 0 n (l ++ rest) = .ok (inputsFrom api b idx 0 n l) := by
  induction l generalizing idx n with
  | nil =>
    cases rest with
    | nil => rfl
    | cons p rest => exact if_pos (hrest p List.mem_cons_self)
  | cons p l ih =>
    have hp : p.2.cumulativeGasUsed = 0 := hl p List.mem_cons_self
    have htail := ih (idx + 1) (n + p.2.logs.length) fun q hq ↦ hl q (List.mem_cons_of_mem _ hq)
    rw [List.cons_append, systemReceiptInputs, if_neg (not_not.2 hp), inputsFrom, hp, htail,
      checkedSub_of_le (Nat.le_refl 0)]
    rfl

/-- **The loop over the receipts of a block** takes exactly the system part. -/
theorem systemReceiptInputs_block :
    systemReceiptInputs api b 0 0 0 (b.transactions.zip b.receipts) =
      .ok (inputsFrom api b 0 0 0 b.system) := by
  rw [b.zip_receipts, ExecutedBlock.entries]
  exact systemReceiptInputs_append api b 0 0 b.system_gas fun p hp ↦
    Nat.ne_of_gt (b.cumulativeGasUsed_pos hp)

/-- The inputs keep their transactions and receipts. -/
theorem map_inputsFrom (k g n : ℕ) (l : List (RecoveredTx × Receipt)) :
    (inputsFrom api b k g n l).map (fun input ↦ (input.tx, input.receipt)) = l := by
  induction l generalizing k g n with
  | nil => rfl
  | cons p l ih => rw [inputsFrom, List.map_cons, ih]; rfl

end Receipts

/-! ### The system transactions -/

section Transactions

variable {R : Type} (api : EthApi R) {fill : Fill} (b : ExecutedBlock)

/-- The filter keeps the system part, each transaction with its position. -/
theorem filterMap_systemTxs (hfill : fill.Succeeds) : ∃ systemTxs : List RpcTransaction,
    (b.transactions.zipIdx.filterMap fun entry ↦
      if entry.1.tx.isSystemTransaction then
        fill entry.1 (transactionInfo api b entry.2 entry.1)
      else none) = systemTxs ∧
    systemTxs.map RpcTransaction.inner = b.system.map Prod.fst ∧
    ∀ (i : ℕ) (tx : RpcTransaction), systemTxs[i]? = some tx → tx.transactionIndex = some i := by
  -- the effective gas price is the only part of a conversion that the library chooses
  choose price hprice using hfill
  set convert : RecoveredTx × ℕ → RpcTransaction := fun entry ↦
    { inner := entry.1
      blockHash := some b.hash
      blockNumber := some b.number
      transactionIndex := some entry.2
      effectiveGasPrice := price entry.1 (transactionInfo api b entry.2 entry.1) } with hconvert
  refine ⟨(b.system.map Prod.fst).zipIdx.map convert, ?_, ?_, ?_⟩
  · have hsystem : ∀ entry ∈ (b.system.map Prod.fst).zipIdx,
        (if entry.1.tx.isSystemTransaction then
          fill entry.1 (transactionInfo api b entry.2 entry.1) else none) =
            some (convert entry) := by
      intro entry hentry
      obtain ⟨p, hp, htx⟩ := List.mem_map.1 (List.fst_mem_of_mem_zipIdx hentry)
      rw [if_pos (htx ▸ b.system_tx p hp), hprice]
      rfl
    have huser : ∀ entry ∈ (b.user.map Prod.fst).zipIdx (b.system.map Prod.fst).length,
        (if entry.1.tx.isSystemTransaction then
          fill entry.1 (transactionInfo api b entry.2 entry.1) else none) = none := by
      intro entry hentry
      obtain ⟨p, hp, htx⟩ := List.mem_map.1 (List.fst_mem_of_mem_zipIdx hentry)
      rw [if_neg (by rw [← htx, b.user_tx p hp]; simp)]
    rw [ExecutedBlock.transactions, ExecutedBlock.entries, List.map_append, List.zipIdx_append,
      List.filterMap_append, Nat.zero_add, List.filterMap_eq_nil_iff.2 huser, List.append_nil,
      List.filterMap_congr hsystem, List.filterMap_eq_map']
  · rw [List.map_map, show RpcTransaction.inner ∘ convert = Prod.fst from rfl,
      List.zipIdx_map_fst]
  · intro i tx htx
    rw [List.getElem?_map, List.getElem?_zipIdx, Option.map_map, Option.map_eq_some_iff] at htx
    obtain ⟨_, -, rfl⟩ := htx
    rw [hconvert]
    simp

end Transactions

/-! ### The partition -/

section Partition

variable {R : Type} (api : EthApi R) {fill : Fill} {s : NodeState} {b : ExecutedBlock}
  {id : BlockId}

theorem runAt_getSystemTxsByBlockId (hb : s.loadBlock id = some b)
    {systemTxs : List RpcTransaction}
    (h : (b.transactions.zipIdx.filterMap fun entry ↦
      if entry.1.tx.isSystemTransaction then
        fill entry.1 (transactionInfo api b entry.2 entry.1)
      else none) = systemTxs) :
    (getSystemTxsByBlockId api fill id).runAt s = .ok (some systemTxs) := by
  rw [getSystemTxsByBlockId, Reads.runAt_bind, Reads.runAt_ask, ok_bind, hb, ← h]
  rfl

theorem runAt_getSystemTxsReceiptsByBlockId (hb : s.loadBlock id = some b) :
    (getSystemTxsReceiptsByBlockId api id).runAt s =
      .ok (some ((inputsFrom api b 0 0 0 b.system).map api.build)) := by
  rw [getSystemTxsReceiptsByBlockId, Reads.runAt_bind, Reads.runAt_ask, ok_bind, hb]
  simp only [Reads.runAt_bind, Reads.runAt_ofExcept, systemReceiptInputs_block, ok_bind]
  rfl

/-- The input of a system transaction has its position, no gas, and the logs before it. -/
theorem getElem?_systemInputs {i : ℕ} {input : ConvertReceiptInput}
    (h : (inputsFrom api b 0 0 0 b.system)[i]? = some input) :
    ∃ p, b.system[i]? = some p ∧ input = userInput api b i 0 (logCount (b.system.take i)) p := by
  rw [getElem?_inputsFrom, Option.map_eq_some_iff] at h
  obtain ⟨p, hp, rfl⟩ := h
  refine ⟨p, hp, ?_⟩
  rw [b.system_gas p (List.mem_of_getElem? hp), Nat.zero_sub, Nat.zero_add, Nat.zero_add]

/-- The logs of the inputs before a position. -/
theorem logCount_take_eq (k g n i : ℕ) (l : List (RecoveredTx × Receipt)) :
    (((inputsFrom api b k g n l).take i).map fun input ↦ input.receipt.logs.length).sum =
      logCount (l.take i) := by
  nth_rewrite 2 [← map_inputsFrom api b k g n l]
  rw [logCount, ← List.map_take, List.map_map]
  rfl

variable (fill s b id) in
/-- The answers of the handlers about a block, and how they fit together. -/
structure Partition (systemTxs userTxs : List RpcTransaction) (userHashes : List B256)
    (systemInputs userInputs : List ConvertReceiptInput) : Prop where
  system_txs : (getSystemTxsByBlockId api fill id).runAt s = .ok (some systemTxs)
  system_receipts : (getSystemTxsReceiptsByBlockId api id).runAt s =
    .ok (some (systemInputs.map api.build))
  user_txs : (adjustBlock (api.rpcBlock b true)).runAt s =
    .ok { api.rpcBlock b true with transactions := .full userTxs }
  user_hashes : (adjustBlock (api.rpcBlock b false)).runAt s =
    .ok { api.rpcBlock b false with transactions := .hashes userHashes }
  user_receipts : (adjustBlockReceipts api id).runAt s =
    .ok (some (systemTxs.length, userInputs.map api.build))
  length_eq : systemTxs.length = systemInputs.length
  /-- The transaction and the receipt at one position of the system lists. -/
  agree : ∀ (i : ℕ) (tx : RpcTransaction) (input : ConvertReceiptInput),
    systemTxs[i]? = some tx → systemInputs[i]? = some input →
      input.txMeta.txHash = api.txHash tx.inner.tx ∧
      tx.transactionIndex = some i ∧ input.txMeta.index = i ∧ input.gasUsed = 0 ∧
      input.nextLogIndex = ((systemInputs.take i).map fun input ↦ input.receipt.logs.length).sum
  /-- The two sides make up the block, in order. -/
  transactions : (systemTxs ++ userTxs).map RpcTransaction.inner = b.transactions
  hashes : (systemTxs.map fun tx ↦ api.txHash tx.inner.tx) ++ userHashes =
    b.transactions.map fun tx ↦ api.txHash tx.tx
  receipts : (systemInputs ++ userInputs).map (fun input ↦ (input.tx, input.receipt)) =
    b.transactions.zip b.receipts

/-- **System and user views partition the block.** The transactions and the receipts of the system
side correspond position by position; a system receipt has no gas and its logs are numbered on from
those of the system receipts before it; and the system side followed by the compliant side is the
block, in order, for the transactions, for their hashes and for the receipts. -/
theorem systemViews_partition (hfill : fill.Succeeds)
    (hhash : s.blockById (.hash b.hash none) = some b) (hid : s.blockById id = some b) :
    ∃ systemTxs userTxs userHashes systemInputs userInputs,
      Partition api fill s b id systemTxs userTxs userHashes systemInputs userInputs := by
  have hnumber : s.blockById (.number (.number b.number)) = some b :=
    s.canonical _ b (by simp) hhash
  have hload := s.loadBlock_of_blockById hid
  -- a block read by its hash is the one that its number names, so every view reads `b`
  obtain ⟨systemTxs, hfilter, hinner, hindex⟩ := filterMap_systemTxs api b hfill
  have hlength : systemTxs.length = b.system.length := by
    rw [← List.length_map RpcTransaction.inner, hinner, List.length_map]
  refine ⟨systemTxs,
    (b.user.map Prod.fst).mapIdx fun k tx ↦ b.rpcTransaction (api.effectiveGasPrice b tx) k tx,
    b.user.map fun p ↦ api.txHash p.1.tx, inputsFrom api b 0 0 0 b.system,
    inputsFrom api b 0 0 0 b.user, runAt_getSystemTxsByBlockId api hload hfilter,
    runAt_getSystemTxsReceiptsByBlockId api hload, ?_, ?_, ?_, ?_, ?_, ?_, ?_, ?_⟩
  · rw [runAt_adjustBlock (number_rpcBlock api b true) hnumber, adjustTransactions_rpcBlock_full]
    rfl
  · rw [runAt_adjustBlock (number_rpcBlock api b false) hnumber, adjustTransactions_rpcBlock_hashes]
    rfl
  · rw [runAt_adjustBlockReceipts api hid, hlength]
    rfl
  · rw [hlength, length_inputsFrom]
  · intro i tx input htx hinput
    obtain ⟨p, hp, rfl⟩ := getElem?_systemInputs api hinput
    have hsame : tx.inner = p.1 := by
      have h : (systemTxs.map RpcTransaction.inner)[i]? = (b.system.map Prod.fst)[i]? := by
        rw [hinner]
      rw [List.getElem?_map, List.getElem?_map, htx, hp] at h
      exact Option.some.inj h
    exact ⟨by rw [hsame]; rfl, hindex i tx htx, rfl, rfl, (logCount_take_eq api 0 0 0 i _).symm⟩
  · rw [List.map_append, hinner, ExecutedBlock.transactions, ExecutedBlock.entries,
      List.map_append, List.append_cancel_left_eq]
    refine List.ext_getElem? fun i ↦ ?_
    rw [List.getElem?_map, List.getElem?_mapIdx, Option.map_map]
    exact Option.map_id'
  · rw [ExecutedBlock.transactions, ExecutedBlock.entries, List.map_append, List.map_append,
      ← hinner, List.map_map, List.map_map]
    rfl
  · rw [List.map_append, map_inputsFrom, map_inputsFrom, b.zip_receipts]
    rfl

end Partition

/-- A conversion that reports the gas price. -/
def exampleFill : Fill := fun tx info ↦ some
  { inner := tx
    blockHash := info.blockHash
    blockNumber := info.blockNumber
    transactionIndex := info.index
    effectiveGasPrice := tx.tx.transaction.gasPrice }

/-- The views of a block with one system and one user transaction: one receipt on the system side,
without gas. -/
theorem systemViews_partition_exampleBlock :
    ∃ systemTxs userTxs userHashes systemInputs userInputs,
      Partition exampleApi exampleFill (exampleChain.state exampleTxHash) exampleBlock
          (.number .latest) systemTxs userTxs userHashes systemInputs userInputs ∧
        (systemTxs ++ userTxs).map RpcTransaction.inner = [exampleSystemTx, exampleUserTx] ∧
        (systemInputs ++ userInputs).map ConvertReceiptInput.receipt =
          [exampleReceipt 0, exampleReceipt 21000] := by
  obtain ⟨systemTxs, userTxs, userHashes, systemInputs, userInputs, h⟩ :=
    systemViews_partition exampleApi (fun _ _ ↦ ⟨_, rfl⟩)
      (show (exampleChain.state exampleTxHash).blockById (.hash 1 none) = some exampleBlock
        from rfl)
      (show (exampleChain.state exampleTxHash).blockById (.number .latest) = some exampleBlock
        from rfl)
  refine ⟨systemTxs, userTxs, userHashes, systemInputs, userInputs, h, h.transactions, ?_⟩
  have hreceipts := congrArg (List.map Prod.snd) h.receipts
  rw [List.map_map] at hreceipts
  exact hreceipts

/-! ### Blocks from the executor -/

/-- Cutting a list where a test stops to hold. -/
theorem forall_mem_take_drop {α : Type} {P : α → Prop} {l : List α} {n : ℕ}
    (h : ∀ (i : ℕ) (a : α), l[i]? = some a → (P a ↔ i < n)) :
    (∀ a ∈ l.take n, P a) ∧ ∀ a ∈ l.drop n, ¬ P a := by
  constructor
  · intro a ha
    obtain ⟨i, hi⟩ := List.getElem?_of_mem ha
    have hlt : i < n :=
      (List.getElem?_eq_some_iff.1 hi).1.trans_le (List.length_take_le _ _)
    rw [List.getElem?_take_of_lt hlt] at hi
    exact (h i a hi).2 hlt
  · intro a ha hpos
    obtain ⟨i, hi⟩ := List.getElem?_of_mem ha
    rw [List.getElem?_drop] at hi
    have := (h (n + i) a hi).1 hpos
    omega

/-- **The executor leaves an executed block.** When the system transactions come first and every
other transaction uses gas, the transactions of a run and its receipts are those of an
`ExecutedBlock`. -/
theorem exists_executedBlock {revm : Revm} (hbounded : revm.GasBounded)
    {executor executor' : HlBlockExecutor revm} (hfresh : executor.IsFresh)
    (hlimit : executor.env.gasLimit < u64Size) {txs : List RecoveredTx}
    (hsize : txs.length < u64Size) (hfirst : SystemFirst txs)
    (hrun : executor.executeTransactions txs = .ok executor')
    (hpositive : ∀ entry ∈ (executor.runCalls (txs.map .always)).2,
      isSystemTransaction entry.1.tx = false → 0 < entry.2)
    (hash : B256) (header : Header) :
    ∃ b : ExecutedBlock, b.hash = hash ∧ b.header = header ∧ b.transactions = txs ∧
      b.receipts = executor'.finish.receipts := by
  have hlength :=
    HlBlockExecutor.length_receipts_of_executeTransactions hbounded hfresh hlimit hrun
  have hzero : ∀ p ∈ txs.zip executor'.receipts,
      (p.2.cumulativeGasUsed = 0 ↔ isSystemTransaction p.1.tx = true) := by
    intro p hp
    obtain ⟨i, hi⟩ := List.getElem?_of_mem hp
    obtain ⟨htx, hreceipt⟩ := List.getElem?_zip_eq_some.1 hi
    exact HlBlockExecutor.receipt_eq_zero_iff_of_executeTransactions hbounded hfresh hlimit hrun
      hpositive hfirst htx hreceipt
  -- cut the executed transactions where the system part ends
  obtain ⟨n, hn⟩ := hfirst
  obtain ⟨hsystem, huser⟩ := forall_mem_take_drop
    (P := fun p : RecoveredTx × Receipt ↦ isSystemTransaction p.1.tx = true)
    (l := txs.zip executor'.receipts) fun i p hp ↦ hn i p.1 (List.getElem?_zip_eq_some.1 hp).1
  have hrising := (HlBlockExecutor.pairwise_zip_receipts_of_executeTransactions hbounded hfresh
    hlimit hrun hpositive).sublist (List.drop_sublist n _)
  refine ⟨⟨hash, header, (txs.zip executor'.receipts).take n, (txs.zip executor'.receipts).drop n,
    ?_, ?_, ?_, ?_, ?_⟩, rfl, rfl, ?_, ?_⟩
  · rwa [← List.length_append, List.take_append_drop, List.length_zip, hlength, Nat.min_self]
  · intro p hp
    rw [← executor_isSystemTransaction_eq]
    exact hsystem p hp
  · intro p hp
    rw [← executor_isSystemTransaction_eq]
    exact Bool.eq_false_iff.2 (huser p hp)
  · exact fun p hp ↦ (hzero p (List.mem_of_mem_take hp)).2 (hsystem p hp)
  · rw [List.pairwise_cons, List.pairwise_map]
    constructor
    · intro gas hgas
      obtain ⟨p, hp, rfl⟩ := List.mem_map.1 hgas
      exact Nat.pos_of_ne_zero fun hgas ↦
        huser p hp ((hzero p (List.mem_of_mem_drop hp)).1 hgas)
    · exact hrising.imp_of_mem fun _ hq h ↦ h (Bool.eq_false_iff.2 (huser _ hq))
  · rw [ExecutedBlock.transactions, ExecutedBlock.entries, List.take_append_drop,
      List.map_fst_zip hlength.ge]
  · rw [ExecutedBlock.receipts, ExecutedBlock.entries, List.take_append_drop,
      List.map_snd_zip hlength.le]
    rfl

end RethHl.Compliance
