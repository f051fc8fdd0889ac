import RethHl.Compliance.Model

/-!
# The compliant views of a block agree

Five handlers renumber the same block by different means: the gas price of the transactions, the
zero gas of the receipts, a drained prefix, running counters, and subtracted totals. This module
says what each of them computes on a block that does not change during the request, and that the
results fit together (`viewsAgree`).

The core is the loop over the receipts (`receiptInputs`). It skips the system part without touching
its counters (`receiptInputs_system`) and is a plain recursion on the user part
(`receiptInputs_user`), whose elements are then read off (`getElem?_inputsFrom`).
-/

namespace RethHl.Compliance

theorem checkedSub_of_le {a b : ℕ} (h : b ≤ a) : checkedSub a b = .ok (a - b) :=
  if_pos h

theorem checkedSub_of_lt {a b : ℕ} (h : a < b) : checkedSub a b = .error .underflow :=
  if_neg (Nat.not_le.2 h)

/-- Numbers of transactions are far below `2 ^ 256`: their difference is exact. -/
theorem wrappingSub_of_le {a b : ℕ} (ha : a < u64Size) (h : b ≤ a) : wrappingSub a b = a - b := by
  rw [u64Size] at ha
  rw [wrappingSub, Nat.sub_add_comm h, Nat.add_mod_right, Nat.mod_eq_of_lt (by omega)]

/-- A difference that is not exact wraps to a number above every number of transactions. -/
theorem wrappingSub_of_lt {a b : ℕ} (hb : b < u64Size) (h : a < b) :
    u64Size ≤ wrappingSub a b := by
  rw [u64Size] at hb ⊢
  rw [wrappingSub, Nat.mod_eq_of_lt (by omega)]
  omega

@[simp] theorem ok_bind {ε α β : Type} (a : α) (f : α → Except ε β) :
    (Except.ok a >>= f) = f a :=
  rfl

@[simp] theorem error_bind {ε α β : Type} (e : ε) (f : α → Except ε β) :
    (Except.error e >>= f) = .error e :=
  rfl

/-- The transaction at a position is a system transaction exactly when it is in the system part. -/
theorem isSystemTransaction_iff (b : ExecutedBlock) {i : ℕ} {tx : RecoveredTx}
    (htx : b.transactions[i]? = some tx) :
    tx.tx.isSystemTransaction = true ↔ i < b.system.length := by
  rw [ExecutedBlock.transactions, List.getElem?_map] at htx
  obtain ⟨p, hp, rfl⟩ := Option.map_eq_some_iff.1 htx
  rw [ExecutedBlock.entries] at hp
  rcases Nat.lt_or_ge i b.system.length with hlt | hge
  · rw [List.getElem?_append_left hlt] at hp
    exact ⟨fun _ ↦ hlt, fun _ ↦ b.system_tx p (List.mem_of_getElem? hp)⟩
  · rw [List.getElem?_append_right hge] at hp
    rw [b.user_tx p (List.mem_of_getElem? hp)]
    exact ⟨fun h ↦ absurd h (by simp), fun h ↦ absurd h (Nat.not_lt.2 hge)⟩

/-! ### The receipts of the user transactions -/

section Receipts

variable {R : Type} (api : EthApi R) (b : ExecutedBlock)

/-- The conversion input of the user transaction number `k`. -/
def userInput (k ownGas nextLogIndex : ℕ) (p : RecoveredTx × Receipt) : ConvertReceiptInput where
  receipt := p.2
  tx := p.1
  gasUsed := ownGas
  nextLogIndex := nextLogIndex
  txMeta :=
    { txHash := api.txHash p.1.tx
      index := k
      blockHash := b.hash
      blockNumber := b.number
      baseFee := b.header.baseFeePerGas
      excessBlobGas := b.header.excessBlobGas
      timestamp := b.header.timestamp }

/-- The conversion inputs of a list of user transactions. -/
def inputsFrom : ℕ → ℕ → ℕ → List (RecoveredTx × Receipt) → List ConvertReceiptInput
  | _, _, _, [] => []
  | k, gasUsed, nextLogIndex, p :: rest =>
    userInput api b k (p.2.cumulativeGasUsed - gasUsed) nextLogIndex p ::
      inputsFrom (k + 1) p.2.cumulativeGasUsed (nextLogIndex + p.2.logs.length) rest

/-- The number of logs of a list of transactions. -/
def logCount (l : List (RecoveredTx × Receipt)) : ℕ :=
  (l.map fun p ↦ p.2.logs.length).sum

/-- The cumulative gas after a list of transactions, from a start value. -/
def gasAfter (gasUsed : ℕ) (l : List (RecoveredTx × Receipt)) : ℕ :=
  (l.getLast?.map fun p ↦ p.2.cumulativeGasUsed).getD gasUsed

@[simp] theorem length_inputsFrom (k g n : ℕ) (l : List (RecoveredTx × Receipt)) :
    (inputsFrom api b k g n l).length = l.length := by
  induction l generalizing k g n with
  | nil => rfl
  | cons p l ih =>
    rw [inputsFrom, List.length_cons, ih, List.length_cons]

/-- The elements of the list of inputs. -/
theorem getElem?_inputsFrom (k g n i : ℕ) (l : List (RecoveredTx × Receipt)) :
    (inputsFrom api b k g n l)[i]? = l[i]?.map fun p ↦
      userInput api b (k + i) (p.2.cumulativeGasUsed - gasAfter g (l.take i))
        (n + logCount (l.take i)) p := by
  induction l generalizing k g n i with
  | nil => rfl
  | cons p l ih =>
    cases i with
    | zero => rfl
    | succ i =>
      have hgas : gasAfter g (p :: l.take i) = gasAfter p.2.cumulativeGasUsed (l.take i) := by
        rw [gasAfter, List.getLast?_cons, gasAfter]
        rcases (l.take i).getLast? with - | q <;> rfl
      have hlogs : logCount (p :: l.take i) = p.2.logs.length + logCount (l.take i) := by
        rw [logCount, List.map_cons, List.sum_cons, logCount]
      rw [inputsFrom, List.getElem?_cons_succ, List.getElem?_cons_succ, ih, List.take_succ_cons,
        hgas, hlogs, Nat.add_right_comm k 1 i, Nat.add_assoc n]
      rfl

/-- The system part moves the position and nothing else. -/
theorem receiptInputs_system (count idx g n : ℕ) {l : List (RecoveredTx × Receipt)}
    (hl : ∀ p ∈ l, p.2.cumulativeGasUsed = 0) (rest : List (RecoveredTx × Receipt)) :
    receiptInputs api b count idx g n (l ++ rest) =
      receiptInputs api b count (idx + l.length) g n rest := by
  induction l generalizing idx with
  | nil => rfl
  | cons p l ih =>
    rw [List.cons_append, receiptInputs, if_pos (hl p List.mem_cons_self),
      ih _ fun q hq ↦ hl q (List.mem_cons_of_mem _ hq), List.length_cons, Nat.add_right_comm,
      Nat.add_assoc]

/-- On the user part no subtraction fails, when the count is not above the position. -/
theorem receiptInputs_user {count idx : ℕ} (hcount : count ≤ idx) (g n : ℕ)
    {l : List (RecoveredTx × Receipt)}
    (hl : (g :: l.map fun p ↦ p.2.cumulativeGasUsed).Pairwise (· < ·)) :
    receiptInputs api b count idx g n l = .ok (inputsFrom api b (idx - count) g n l) := by
  induction l generalizing idx g n with
  | nil => rfl
  | cons p l ih =>
    obtain ⟨hg, htail⟩ := List.pairwise_cons.1 hl
    have hlt : g < p.2.cumulativeGasUsed := hg _ List.mem_cons_self
    have hne : p.2.cumulativeGasUsed ≠ 0 := Nat.ne_of_gt (Nat.lt_of_le_of_lt (Nat.zero_le g) hlt)
    rw [receiptInputs, if_neg hne, checkedSub_of_le hcount, checkedSub_of_le (Nat.le_of_lt hlt),
      ih (Nat.le_succ_of_le hcount) _ _ htail, inputsFrom, Nat.succ_sub hcount]
    rfl

/-- A count above the position makes the first user transaction fail. -/
theorem receiptInputs_underflow {count idx : ℕ} (hcount : idx < count) (g n : ℕ)
    {p : RecoveredTx × Receipt} (hp : p.2.cumulativeGasUsed ≠ 0)
    (l : List (RecoveredTx × Receipt)) :
    receiptInputs api b count idx g n (p :: l) = .error .underflow := by
  rw [receiptInputs, if_neg hp, checkedSub_of_lt hcount]
  rfl

/-- **The loop over the receipts of a block**, with a count that is not above its own. -/
theorem receiptInputs_block {count : ℕ} (hcount : count ≤ b.system.length) :
    receiptInputs api b count 0 0 0 (b.transactions.zip b.receipts) =
      .ok (inputsFrom api b (b.system.length - count) 0 0 b.user) := by
  rw [b.zip_receipts, ExecutedBlock.entries, receiptInputs_system api b _ _ _ _ b.system_gas,
    Nat.zero_add, receiptInputs_user api b hcount _ _ b.user_gas]

/-- The receipts of a block in compliant form. -/
def compliantReceipts : List R :=
  (inputsFrom api b 0 0 0 b.user).map api.build

theorem getElem?_compliantReceipts (k : ℕ) :
    (compliantReceipts api b)[k]? = b.user[k]?.map fun p ↦
      api.build (userInput api b k (p.2.cumulativeGasUsed - gasAfter 0 (b.user.take k))
        (logCount (b.user.take k)) p) := by
  rw [compliantReceipts, List.getElem?_map, getElem?_inputsFrom, Option.map_map, Nat.zero_add,
    Nat.zero_add]
  rfl

end Receipts

/-! ### The handlers at one state -/

section Handlers

variable {R : Type} (api : EthApi R) {s : NodeState} {b : ExecutedBlock} {id : BlockId}

theorem runAt_systemTxCountForBlock (hb : s.blockById id = some b) :
    (systemTxCountForBlock id).runAt s = .ok b.system.length := by
  rw [systemTxCountForBlock, Reads.runAt_bind, Reads.runAt_ask, ok_bind, hb,
    ← b.systemTxCount_eq]
  rfl

/-- The count of an unknown block is a fault. -/
theorem runAt_systemTxCountForBlock_of_none (hb : s.blockById id = none) :
    (systemTxCountForBlock id).runAt s = .error .unwrapNone := by
  rw [systemTxCountForBlock, Reads.runAt_bind, Reads.runAt_ask, ok_bind, hb]
  rfl

theorem runAt_adjustBlockReceipts (hb : s.blockById id = some b) :
    (adjustBlockReceipts api id).runAt s =
      .ok (some (b.system.length, compliantReceipts api b)) := by
  rw [adjustBlockReceipts, Reads.runAt_bind, runAt_systemTxCountForBlock hb, ok_bind,
    Reads.runAt_bind, Reads.runAt_ask, ok_bind, s.loadBlock_of_blockById hb]
  simp only [Reads.runAt_bind, Reads.runAt_ofExcept, receiptInputs_block api b (Nat.le_refl _),
    ok_bind, Nat.sub_self]
  rfl

/-- The two lookups of a count request find the same block. -/
theorem runAt_blockTransactionCount (hcount : s.countBlock id = some b)
    (hb : s.blockById id = some b) :
    (blockTransactionCount id).runAt s = .ok (some b.user.length) := by
  have hsub : wrappingSub b.transactions.length b.system.length = b.user.length := by
    rw [b.length_transactions, wrappingSub_of_le b.length_lt (Nat.le_add_right _ _),
      Nat.add_sub_cancel_left]
  rw [blockTransactionCount, Reads.runAt_bind, Reads.runAt_ask, ok_bind,
    NodeState.transactionCount, hcount, Option.map_some]
  simp only [Reads.runAt_bind, runAt_systemTxCountForBlock hb, ok_bind, Reads.runAt_pure, hsub]

/-- Dropping a prefix and shifting the indices of a numbered list. -/
theorem adjustTransactions_full (count : ℕ) (f : ℕ → RecoveredTx → RpcTransaction)
    (hf : ∀ i tx, shiftTransaction count (f (count + i) tx) = .ok (f i tx))
    (l₁ l₂ : List RecoveredTx) (hl : l₁.length = count) :
    adjustTransactions count (.full ((l₁ ++ l₂).mapIdx f)) = .ok (.full (l₂.mapIdx f)) := by
  have hshift : ∀ (l : List RecoveredTx) (n : ℕ),
      (l.mapIdx fun i tx ↦ f (count + n + i) tx).mapM (shiftTransaction count) =
        .ok (l.mapIdx fun i tx ↦ f (n + i) tx) := by
    intro l
    induction l with
    | nil => intro n; rfl
    | cons tx l ih =>
      intro n
      have hnext := ih (n + 1)
      simp only [Nat.add_right_comm _ 1, ← Nat.add_assoc] at hnext
      rw [List.mapIdx_cons, List.mapM_cons, Nat.add_zero, hf, ok_bind, List.mapIdx_cons]
      simp only [← Nat.add_assoc, hnext, ok_bind]
      rfl
  have hdrain : drain count ((l₁ ++ l₂).mapIdx f) =
      .ok (l₂.mapIdx fun i tx ↦ f (count + i) tx) := by
    rw [drain, if_pos (by simp [hl]), List.mapIdx_append, List.drop_left' (by simp [hl]), hl]
    simp only [Nat.add_comm]
  rw [adjustTransactions, hdrain, ok_bind]
  have h := hshift l₂ 0
  simp only [Nat.add_zero, Nat.zero_add] at h
  rw [h]
  rfl

variable (b) in
/-- Shifting the index of a transaction. -/
theorem shiftTransaction_rpcTransaction (effectiveGasPrice : Option ℕ) (count i : ℕ)
    (tx : RecoveredTx) :
    shiftTransaction count (b.rpcTransaction effectiveGasPrice (count + i) tx) =
      .ok (b.rpcTransaction effectiveGasPrice i tx) := by
  simp only [shiftTransaction, ExecutedBlock.rpcTransaction,
    checkedSub_of_le (Nat.le_add_right _ _), ok_bind, Nat.add_sub_cancel_left]
  rfl

variable (b) in
theorem number_rpcBlock (full : Bool) : (api.rpcBlock b full).header.number = b.number := by
  rw [api.header_rpcBlock]
  rfl

/-- Rewriting a block of a known number. -/
theorem runAt_adjustBlock {block : RpcBlock} {number : ℕ} (hnumber : block.header.number = number)
    (hb : s.blockById (.number (.number number)) = some b) :
    (adjustBlock block).runAt s =
      adjustTransactions b.system.length block.transactions >>= fun transactions ↦
        .ok { block with transactions := transactions } := by
  rw [adjustBlock, Reads.runAt_bind, hnumber, runAt_systemTxCountForBlock hb, ok_bind,
    Reads.runAt_bind, Reads.runAt_ofExcept]
  rfl

/-- A block whose number the provider does not know cannot be rewritten. -/
theorem runAt_adjustBlock_of_none {block : RpcBlock} {number : ℕ}
    (hnumber : block.header.number = number)
    (hb : s.blockById (.number (.number number)) = none) :
    (adjustBlock block).runAt s = .error .unwrapNone := by
  rw [adjustBlock, Reads.runAt_bind, hnumber, runAt_systemTxCountForBlock_of_none hb, error_bind]

/-- The transactions of a full block, rewritten. -/
theorem adjustTransactions_rpcBlock_full :
    adjustTransactions b.system.length (api.rpcBlock b true).transactions =
      .ok (.full ((b.user.map Prod.fst).mapIdx fun k tx ↦
        b.rpcTransaction (api.effectiveGasPrice b tx) k tx)) := by
  rw [api.rpcBlock_full, ExecutedBlock.transactions, ExecutedBlock.entries, List.map_append]
  exact adjustTransactions_full b.system.length
    (fun i tx ↦ b.rpcTransaction (api.effectiveGasPrice b tx) i tx)
    (fun i tx ↦ shiftTransaction_rpcTransaction b _ _ i tx) _ _ (List.length_map _)

/-- The transaction hashes of a block, rewritten. -/
theorem adjustTransactions_rpcBlock_hashes :
    adjustTransactions b.system.length (api.rpcBlock b false).transactions =
      .ok (.hashes (b.user.map fun p ↦ api.txHash p.1.tx)) := by
  have hdrain : drain b.system.length (b.transactions.map fun tx ↦ api.txHash tx.tx) =
      .ok (b.user.map fun p ↦ api.txHash p.1.tx) := by
    rw [drain, if_pos (by simp [b.length_transactions]), ExecutedBlock.transactions,
      ExecutedBlock.entries, List.map_append, List.map_append, List.drop_left' (by simp),
      List.map_map]
    rfl
  rw [api.rpcBlock_hashes, adjustTransactions, hdrain]
  rfl

/-- The receipt of the user transaction number `k`. -/
theorem runAt_adjustTransactionReceipt {txHash : B256} {txMeta : TransactionMeta} {k : ℕ}
    (hload : s.loadTransaction txHash = some txMeta)
    (hb : s.blockById (.hash txMeta.blockHash none) = some b)
    (hindex : txMeta.index = b.system.length + k) (hk : k < b.user.length) :
    (adjustTransactionReceipt api txHash).runAt s = .ok (compliantReceipts api b)[k]? := by
  have hlen : k < (compliantReceipts api b).length := by
    rw [compliantReceipts, List.length_map, length_inputsFrom]
    exact hk
  rw [adjustTransactionReceipt, Reads.runAt_bind, Reads.runAt_ask, ok_bind, hload]
  simp only [Reads.runAt_bind, runAt_adjustBlockReceipts api hb, ok_bind, Reads.runAt_ofExcept,
    hindex, checkedSub_of_le (Nat.le_add_right _ _), Nat.add_sub_cancel_left,
    List.getElem?_eq_getElem hlen]
  rfl

end Handlers

/-! ### Logs -/

section Logs

variable {R : Type} (api : EthApi R)

/-- A log as the wrapped API returns it: numbered within the whole block. -/
def rawLog (b : ExecutedBlock) (i j : ℕ) (tx : RecoveredTx) (log : Log) : RpcLog where
  inner := log
  blockHash := some b.hash
  blockNumber := some b.number
  blockTimestamp := some b.header.timestamp
  transactionHash := some (api.txHash tx.tx)
  transactionIndex := some i
  logIndex := some (logCount (b.entries.take i) + j)
  removed := false

/-- One turn of the loop of `adjust_log`: a receipt without gas is one of a system transaction. -/
def countSystem (counts : ℕ × ℕ) (receipt : Receipt) : ℕ × ℕ :=
  if receipt.cumulativeGasUsed = 0 then (counts.1 + 1, counts.2 + receipt.logs.length) else counts

theorem foldl_countSystem_of_zero (l : List (RecoveredTx × Receipt)) (counts : ℕ × ℕ)
    (hl : ∀ p ∈ l, p.2.cumulativeGasUsed = 0) :
    (l.map Prod.snd).foldl countSystem counts =
      (counts.1 + l.length, counts.2 + logCount l) := by
  induction l generalizing counts with
  | nil => rfl
  | cons p l ih =>
    rw [List.map_cons, List.foldl_cons, countSystem, if_pos (hl p List.mem_cons_self),
      ih _ fun q hq ↦ hl q (List.mem_cons_of_mem _ hq), logCount, logCount, List.map_cons,
      List.sum_cons, List.length_cons, Nat.add_right_comm, Nat.add_assoc, Nat.add_assoc]

theorem foldl_countSystem_of_pos (l : List (RecoveredTx × Receipt)) (counts : ℕ × ℕ)
    (hl : ∀ p ∈ l, 0 < p.2.cumulativeGasUsed) :
    (l.map Prod.snd).foldl countSystem counts = counts := by
  induction l generalizing counts with
  | nil => rfl
  | cons p l ih =>
    rw [List.map_cons, List.foldl_cons, countSystem,
      if_neg (Nat.ne_of_gt (hl p List.mem_cons_self)),
      ih _ fun q hq ↦ hl q (List.mem_cons_of_mem _ hq)]

/-- The loop of `adjust_log` counts the system transactions and their logs. -/
theorem foldl_systemCounts (b : ExecutedBlock) :
    b.receipts.foldl
        (fun counts receipt ↦
          if receipt.cumulativeGasUsed = 0 then (counts.1 + 1, counts.2 + receipt.logs.length)
          else counts)
        (0, 0) = (b.system.length, logCount b.system) := by
  show b.receipts.foldl countSystem (0, 0) = _
  rw [ExecutedBlock.receipts, ExecutedBlock.entries, List.map_append, List.foldl_append,
    foldl_countSystem_of_zero _ _ b.system_gas,
    foldl_countSystem_of_pos _ _ fun p hp ↦ b.cumulativeGasUsed_pos hp, Nat.zero_add,
    Nat.zero_add]

variable {s : NodeState} {b : ExecutedBlock}
  (hb : s.blockById (.number (.number b.number)) = some b)

include hb

/-- What `adjust_log` makes of a log of a known block. -/
theorem runAt_adjustLog (i j : ℕ) (tx : RecoveredTx) (log : Log) :
    (adjustLog (rawLog api b i j tx log)).runAt s =
      if i < b.system.length then .ok none
      else
        checkedSub i b.system.length >>= fun txIdx ↦
          checkedSub (logCount (b.entries.take i) + j) (logCount b.system) >>= fun logIdx ↦
            .ok (some { rawLog api b i j tx log with
              transactionIndex := some txIdx
              logIndex := some logIdx }) := by
  have hreceipts : s.receiptsByBlock b.number = some b.receipts := by
    rw [s.receiptsByBlock_eq, hb]
    rfl
  have hcounts := foldl_systemCounts b
  simp only [adjustLog, rawLog, Reads.runAt_bind, Reads.runAt_ask, ok_bind, hreceipts, hcounts]
  split_ifs with hi
  · rfl
  · simp only [Reads.runAt_bind, Reads.runAt_ofExcept]
    rfl

theorem runAt_adjustLog_system {i : ℕ} (hi : i < b.system.length) (j : ℕ) (tx : RecoveredTx)
    (log : Log) : (adjustLog (rawLog api b i j tx log)).runAt s = .ok none := by
  rw [runAt_adjustLog api hb, if_pos hi]

theorem runAt_adjustLog_user (k j : ℕ) (tx : RecoveredTx) (log : Log) :
    (adjustLog (rawLog api b (b.system.length + k) j tx log)).runAt s =
      .ok (some { rawLog api b (b.system.length + k) j tx log with
        transactionIndex := some k
        logIndex := some (logCount (b.user.take k) + j) }) := by
  have hlogs : logCount (b.entries.take (b.system.length + k)) + j =
      logCount b.system + (logCount (b.user.take k) + j) := by
    rw [ExecutedBlock.entries, List.take_length_add_append, logCount, List.map_append,
      List.sum_append, Nat.add_assoc]
    rfl
  rw [runAt_adjustLog api hb, if_neg (Nat.not_lt.2 (Nat.le_add_right _ _)), hlogs,
    checkedSub_of_le (Nat.le_add_right _ _), checkedSub_of_le (Nat.le_add_right _ _),
    Nat.add_sub_cancel_left, Nat.add_sub_cancel_left]
  rfl

end Logs

/-! ### All views at once -/

/-- The block is known to the node, by its hash and with its user transactions. -/
structure Known {R : Type} (api : EthApi R) (s : NodeState) (b : ExecutedBlock) : Prop where
  byHash : s.blockById (.hash b.hash none) = some b
  located : ∀ k p, b.user[k]? = some p →
    ∃ txMeta, s.loadTransaction (api.txHash p.1.tx) = some txMeta ∧
      txMeta.blockHash = b.hash ∧ txMeta.index = b.system.length + k

/-- The compliant views of a block: each lists the user transactions, numbered from zero, and they
assign the same numbers. That each of them is `ok` says that no subtraction fails. -/
structure ViewsAgree {R : Type} (api : EthApi R) (s : NodeState) (b : ExecutedBlock) : Prop where
  block_full : (adjustBlock (api.rpcBlock b true)).runAt s = .ok { api.rpcBlock b true with
    transactions := .full ((b.user.map Prod.fst).mapIdx fun k tx ↦
      b.rpcTransaction (api.effectiveGasPrice b tx) k tx) }
  block_hashes : (adjustBlock (api.rpcBlock b false)).runAt s = .ok { api.rpcBlock b false with
    transactions := .hashes (b.user.map fun p ↦ api.txHash p.1.tx) }
  /-- The receipts, whichever way the block is named. -/
  receipts : ∀ id, s.blockById id = some b → ∃ receipts : List R,
    (adjustBlockReceipts api id).runAt s = .ok (some (b.system.length, receipts)) ∧
    receipts.length = b.user.length ∧
    ∀ k p, b.user[k]? = some p → ∃ input receipt,
      receipts[k]? = some receipt ∧ receipt = api.build input ∧
      input.receipt = p.2 ∧ input.txMeta.txHash = api.txHash p.1.tx ∧ input.txMeta.index = k ∧
      input.gasUsed = p.2.cumulativeGasUsed - gasAfter 0 (b.user.take k) ∧
      input.nextLogIndex = logCount (b.user.take k) ∧
      -- every log of the transaction is mapped to the log of this receipt
      (∀ j log, p.2.logs[j]? = some log → ∃ adjusted,
        (adjustLog (rawLog api b (b.system.length + k) j p.1 log)).runAt s = .ok (some adjusted) ∧
        adjusted.transactionIndex = some k ∧ (api.logs receipt)[j]? = some adjusted) ∧
      -- and the receipt is the one found by the transaction's hash
      (adjustTransactionReceipt api (api.txHash p.1.tx)).runAt s = .ok (some receipt)
  system_logs : ∀ i p j log, b.system[i]? = some p → p.2.logs[j]? = some log →
    (adjustLog (rawLog api b i j p.1 log)).runAt s = .ok none
  count_by_hash : (blockTransactionCountByHash b.hash).runAt s = .ok (some b.user.length)
  count_by_number : (blockTransactionCountByNumber (.number b.number)).runAt s =
    .ok (some b.user.length)

/-- **All compliant views of a block agree.** -/
theorem viewsAgree {R : Type} {api : EthApi R} {s : NodeState} {b : ExecutedBlock}
    (hb : Known api s b) : ViewsAgree api s b := by
  have hnumber : s.blockById (.number (.number b.number)) = some b :=
    s.canonical _ b (by simp) hb.byHash
  refine ⟨?_, ?_, fun id hid ↦ ⟨compliantReceipts api b, ?_, ?_, fun k p hp ↦ ?_⟩, ?_, ?_, ?_⟩
  · rw [runAt_adjustBlock (number_rpcBlock api b true) hnumber, adjustTransactions_rpcBlock_full]
    rfl
  · rw [runAt_adjustBlock (number_rpcBlock api b false) hnumber, adjustTransactions_rpcBlock_hashes]
    rfl
  · exact runAt_adjustBlockReceipts api hid
  · rw [compliantReceipts, List.length_map, length_inputsFrom]
  · have hreceipt : (compliantReceipts api b)[k]? = some _ :=
      (getElem?_compliantReceipts api b k).trans (by rw [hp, Option.map_some])
    refine ⟨_, _, hreceipt, rfl, rfl, rfl, rfl, rfl, rfl, fun j log hlog ↦ ?_, ?_⟩
    · refine ⟨_, runAt_adjustLog_user api hnumber k j p.1 log, rfl, ?_⟩
      rw [api.logs_build, List.getElem?_mapIdx, userInput, hlog]
      rfl
    · obtain ⟨txMeta, hload, hhash, hindex⟩ := hb.located k p hp
      obtain ⟨hk, -⟩ := List.getElem?_eq_some_iff.1 hp
      rw [runAt_adjustTransactionReceipt api hload (hhash ▸ hb.byHash) hindex hk, hreceipt]
  · intro i p j log hp _
    obtain ⟨hi, -⟩ := List.getElem?_eq_some_iff.1 hp
    exact runAt_adjustLog_system api hnumber hi j p.1 log
  · exact runAt_blockTransactionCount ((s.countBlock_eq _ (by simp)).trans hb.byHash) hb.byHash
  · exact runAt_blockTransactionCount ((s.countBlock_eq _ (by simp)).trans hnumber) hnumber

/-! ### Example blocks -/

/-- A receipt with one log. -/
def exampleReceipt (cumulativeGasUsed : ℕ) : Receipt where
  txType := .legacy
  success := true
  cumulativeGasUsed := cumulativeGasUsed
  logs := [{ address := 0x1111111111111111111111111111111111111111, topics := [], data := [] }]

/-- An API whose receipts are the inputs they are built from. -/
def exampleApi : EthApi ConvertReceiptInput where
  build := id
  transactionIndex := fun input ↦ some input.txMeta.index
  logs := fun input ↦ input.receipt.logs.mapIdx input.rpcLog
  transactionIndex_build := fun _ ↦ rfl
  logs_build := fun _ ↦ rfl
  txHash := exampleTxHash
  effectiveGasPrice := fun _ tx ↦ tx.tx.transaction.gasPrice
  rpcBlock := fun b full ↦
    { hash := b.hash
      header := b.header
      uncles := []
      transactions :=
        if full then
          .full (b.transactions.mapIdx fun i tx ↦
            b.rpcTransaction tx.tx.transaction.gasPrice i tx)
        else .hashes (b.transactions.map fun tx ↦ exampleTxHash tx.tx)
      withdrawals := none }
  header_rpcBlock := fun _ _ ↦ rfl
  rpcBlock_full := fun _ ↦ rfl
  rpcBlock_hashes := fun _ ↦ rfl

/-- A block with a system transaction and a user transaction. -/
def exampleBlock : ExecutedBlock where
  hash := 1
  header := .zero 1
  system := [(exampleSystemTx, exampleReceipt 0)]
  user := [(exampleUserTx, exampleReceipt 21000)]
  length_lt := by decide
  system_tx := by decide
  user_tx := by decide
  system_gas := by decide
  user_gas := by decide

/-- A block with the user transaction only. -/
def exampleUserBlock : ExecutedBlock :=
  { exampleBlock with
    hash := 2
    header := .zero 2
    system := []
    length_lt := by decide
    system_tx := by decide
    system_gas := by decide }

/-- The chain of the first block. -/
def exampleChain : Chain where
  blocks := [exampleBlock]
  numbers_nodup := by decide
  hashes_nodup := by decide

/-- The chain of both blocks. -/
def exampleLongChain : Chain where
  blocks := [exampleBlock, exampleUserBlock]
  numbers_nodup := by decide
  hashes_nodup := by decide

theorem viewsAgree_exampleBlock :
    ViewsAgree exampleApi (exampleChain.state exampleTxHash) exampleBlock := by
  refine viewsAgree ⟨rfl, fun k p hp ↦ ?_⟩
  obtain ⟨hk, rfl⟩ := List.getElem?_eq_some_iff.1 hp
  obtain rfl : k = 0 := Nat.lt_one_iff.1 hk
  exact ⟨_, rfl, rfl, rfl⟩

end RethHl.Compliance
