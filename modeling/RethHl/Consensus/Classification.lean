import RethHl.Evm.Accounting
import RethHl.Consensus.PostExecution

/-!
# Two ways to tell a system transaction

A transaction is a system transaction when its gas price is zero. That is how transactions are left
out of the transactions root, by the assembler and by `HlBlockBody::calculate_tx_root`. Receipts
carry no gas price; the assembler and `validateBlockPostExecution` leave out those whose cumulative
gas is zero.

The two rules are linked only through the running total of the executor. In a block whose system
transactions come first and whose user transactions use gas, the total is zero at exactly the
system transactions (`cumulativeGasUsed_eq_zero_iff`), so the two roots commit to corresponding
lists (`classification_executed`).
-/

namespace RethHl

/-- The transactions that enter the transactions root of a body. -/
def HlBlockBody.transactionsForRoot (body : HlBlockBody) : List TransactionSigned :=
  body.inner.transactions.filter fun tx ↦ !tx.isSystemTransaction

/-- `HlBlockBody::calculate_tx_root`. -/
def HlBlockBody.calculateTxRoot (commitments : Commitments) (body : HlBlockBody) : B256 :=
  commitments.transactionRoot body.transactionsForRoot

/-- The transactions with a gas price of zero are the first ones. -/
def SystemFirst (txs : List RecoveredTx) : Prop :=
  ∃ n, ∀ (i : ℕ) (tx : RecoveredTx), txs[i]? = some tx → (isSystemTransaction tx.tx = true ↔ i < n)

/-- Lists that are filtered by tests which agree position by position correspond. -/
theorem map_filter_zip {α β : Type} {l : List α} {l' : List β} (p : α → Bool) (q : β → Bool)
    (hlength : l.length = l'.length) (h : ∀ entry ∈ l.zip l', p entry.1 = q entry.2) :
    ((l.zip l').filter fun entry ↦ p entry.1).map Prod.fst = l.filter p ∧
      ((l.zip l').filter fun entry ↦ p entry.1).map Prod.snd = l'.filter q := by
  constructor
  · rw [← Function.comp_def p Prod.fst, ← List.filter_map, List.map_fst_zip hlength.le]
  · rw [List.filter_congr h, ← Function.comp_def q Prod.snd, ← List.filter_map,
      List.map_snd_zip hlength.ge]

namespace HlBlockExecutor

variable {revm : Revm}

/-- A call that commits whatever the result. -/
def Call.always (tx : RecoveredTx) : Call := ⟨tx, fun _ ↦ true⟩

/-- A block that is executed to its end is a sequence of calls that all commit. -/
theorem foldl_runCall_of_executeTransactions {executor executor' : HlBlockExecutor revm}
    {txs : List RecoveredTx} (h : executor.executeTransactions txs = .ok executor')
    (done : List (RecoveredTx × ℕ)) :
    ∃ committed, committed.map Prod.fst = txs ∧
      (txs.map Call.always).foldl runCall (executor, done) = (executor', done ++ committed) := by
  induction txs generalizing executor done with
  | nil =>
    obtain rfl := Except.ok.inj h
    exact ⟨[], rfl, by rw [List.append_nil]; rfl⟩
  | cons tx txs ih =>
    obtain ⟨gas, next, hstep, hrest⟩ := executeTransactions_cons h
    rcases executor.executeInPlace_cases tx (fun _ ↦ true) with
      ⟨e, -, hvalue⟩ | ⟨⟨_, hnever⟩, -⟩ | ⟨result, state, -, -, -, hcall, hvalue⟩
    · rw [hvalue] at hstep
      cases hstep
    · cases hnever
    · obtain ⟨-, rfl⟩ := Prod.mk.inj (Except.ok.inj (hvalue.symm.trans hstep))
      obtain ⟨committed, hfst, hfold⟩ := ih hrest (done ++ [(tx, result.gasUsed)])
      have hrun : runCall (executor, done) (Call.always tx) =
          (executor.committedWith tx result state, done ++ [(tx, result.gasUsed)]) := by
        simp only [runCall, Call.always, hcall]
      refine ⟨(tx, result.gasUsed) :: committed, by rw [List.map_cons, hfst], ?_⟩
      rw [List.map_cons, List.foldl_cons, hrun, hfold, List.append_assoc]
      rfl

/-- What the calls of such a block commit. -/
theorem runCalls_of_executeTransactions {executor executor' : HlBlockExecutor revm}
    {txs : List RecoveredTx} (h : executor.executeTransactions txs = .ok executor') :
    (executor.runCalls (txs.map Call.always)).1 = executor' ∧
      (executor.runCalls (txs.map Call.always)).2.map Prod.fst = txs := by
  obtain ⟨committed, hfst, hfold⟩ := foldl_runCall_of_executeTransactions h []
  rw [runCalls, hfold]
  exact ⟨rfl, hfst⟩

/-! ### The running total -/

/-- System transactions leave the total at zero. -/
theorem userGas_eq_zero {committed : List (RecoveredTx × ℕ)}
    (h : ∀ entry ∈ committed, isSystemTransaction entry.1.tx = true) : userGas committed = 0 := by
  rw [userGas, List.filter_eq_nil_iff.2 fun entry hentry ↦ by simp [h entry hentry]]
  rfl

/-- A user transaction adds its gas to the total. -/
theorem userGas_take_succ {committed : List (RecoveredTx × ℕ)} {i : ℕ} {entry : RecoveredTx × ℕ}
    (hentry : committed[i]? = some entry) (huser : isSystemTransaction entry.1.tx = false) :
    userGas (committed.take (i + 1)) = userGas (committed.take i) + entry.2 := by
  rw [List.take_add_one, hentry, Option.toList_some, userGas_concat, countedGas, huser]
  rfl

/-- **The total is zero at exactly the system transactions.** -/
theorem cumulativeGasUsed_eq_zero_iff {gasLimit : ℕ} {executor : HlBlockExecutor revm}
    {committed : List (RecoveredTx × ℕ)} (h : Accounting gasLimit executor committed)
    (hfirst : SystemFirst (committed.map Prod.fst))
    (hpositive : ∀ entry ∈ committed, isSystemTransaction entry.1.tx = false → 0 < entry.2)
    {i : ℕ} {entry : RecoveredTx × ℕ} {receipt : Receipt} (hentry : committed[i]? = some entry)
    (hreceipt : executor.receipts[i]? = some receipt) :
    receipt.cumulativeGasUsed = 0 ↔ isSystemTransaction entry.1.tx = true := by
  obtain ⟨n, hn⟩ := hfirst
  have hsystem : ∀ j (other : RecoveredTx × ℕ), committed[j]? = some other →
      (isSystemTransaction other.1.tx = true ↔ j < n) := by
    intro j other hother
    exact hn j other.1 (by rw [List.getElem?_map, hother, Option.map_some])
  rw [h.cumulativeGasUsed_eq hreceipt]
  constructor
  · intro hzero
    by_contra huser
    rw [Bool.not_eq_true] at huser
    have hgas := hpositive entry (List.mem_of_getElem? hentry) huser
    rw [userGas_take_succ hentry huser] at hzero
    omega
  · -- what comes before a system transaction is a system transaction
    intro hentrySystem
    refine userGas_eq_zero fun other hother ↦ ?_
    obtain ⟨j, hj⟩ := List.getElem?_of_mem hother
    have hjlt : j < i + 1 := by
      obtain ⟨hlt, -⟩ := List.getElem?_eq_some_iff.1 hj
      exact hlt.trans_le (List.length_take_le _ _)
    rw [List.getElem?_take_of_lt hjlt] at hj
    have := (hsystem i entry hentry).1 hentrySystem
    exact (hsystem j other hj).2 (by omega)

/-- The total goes up at a user transaction that uses gas. -/
theorem cumulativeGasUsed_lt {gasLimit : ℕ} {executor : HlBlockExecutor revm}
    {committed : List (RecoveredTx × ℕ)} (h : Accounting gasLimit executor committed)
    {i j : ℕ} (hij : i < j) {entry : RecoveredTx × ℕ} (hentry : committed[j]? = some entry)
    (huser : isSystemTransaction entry.1.tx = false) (hpositive : 0 < entry.2)
    {before receipt : Receipt} (hbefore : executor.receipts[i]? = some before)
    (hreceipt : executor.receipts[j]? = some receipt) :
    before.cumulativeGasUsed < receipt.cumulativeGasUsed := by
  have hmono : userGas (committed.take (i + 1)) ≤ userGas (committed.take j) := by
    rw [userGas_eq_sum, userGas_eq_sum, List.map_take, List.map_take]
    exact List.monotone_sum_take _ hij
  rw [h.cumulativeGasUsed_eq hbefore, h.cumulativeGasUsed_eq hreceipt,
    userGas_take_succ hentry huser]
  omega

/-- The accounts of a block that is executed to its end. -/
theorem accounting_of_executeTransactions (hbounded : revm.GasBounded)
    {executor executor' : HlBlockExecutor revm} (hfresh : executor.IsFresh)
    (hlimit : executor.env.gasLimit < u64Size) {txs : List RecoveredTx}
    (hrun : executor.executeTransactions txs = .ok executor') :
    Accounting executor.env.gasLimit executor' (executor.runCalls (txs.map .always)).2 ∧
      (executor.runCalls (txs.map .always)).2.map Prod.fst = txs := by
  obtain ⟨hafter, hfst⟩ := runCalls_of_executeTransactions hrun
  have h := Accounting.runCalls hbounded hfresh hlimit (txs.map .always)
  rw [hafter] at h
  exact ⟨h, hfst⟩

/-! ### Blocks that are executed to their end -/

section Executed

variable {executor executor' : HlBlockExecutor revm} {txs : List RecoveredTx}

/-- Each transaction of the block is committed at its position. -/
theorem exists_gas_of_executeTransactions (hrun : executor.executeTransactions txs = .ok executor')
    {i : ℕ} {tx : RecoveredTx} (htx : txs[i]? = some tx) :
    ∃ gas, (executor.runCalls (txs.map .always)).2[i]? = some (tx, gas) := by
  rw [← (runCalls_of_executeTransactions hrun).2, List.getElem?_map,
    Option.map_eq_some_iff] at htx
  obtain ⟨⟨_, gas⟩, hcommitted, rfl⟩ := htx
  exact ⟨gas, hcommitted⟩

variable (hbounded : revm.GasBounded) (hfresh : executor.IsFresh)
  (hlimit : executor.env.gasLimit < u64Size)
  (hrun : executor.executeTransactions txs = .ok executor')
include hbounded hfresh hlimit hrun

/-- Each transaction of the block has a receipt. -/
theorem length_receipts_of_executeTransactions : executor'.receipts.length = txs.length := by
  obtain ⟨h, hfst⟩ := accounting_of_executeTransactions hbounded hfresh hlimit hrun
  rw [← h.receipts.length_eq, ← List.length_map (f := Prod.fst), hfst]

variable (hpositive : ∀ entry ∈ (executor.runCalls (txs.map .always)).2,
  isSystemTransaction entry.1.tx = false → 0 < entry.2)
include hpositive

/-- The receipts without gas are those of the system transactions. -/
theorem receipt_eq_zero_iff_of_executeTransactions (hfirst : SystemFirst txs) {i : ℕ}
    {tx : RecoveredTx} {receipt : Receipt} (htx : txs[i]? = some tx)
    (hreceipt : executor'.receipts[i]? = some receipt) :
    receipt.cumulativeGasUsed = 0 ↔ isSystemTransaction tx.tx = true := by
  obtain ⟨h, hfst⟩ := accounting_of_executeTransactions hbounded hfresh hlimit hrun
  obtain ⟨gas, hcommitted⟩ := exists_gas_of_executeTransactions hrun htx
  exact cumulativeGasUsed_eq_zero_iff h (hfst.symm ▸ hfirst) hpositive hcommitted hreceipt

/-- The receipt of a user transaction has more gas than those before it. -/
theorem pairwise_zip_receipts_of_executeTransactions :
    (txs.zip executor'.receipts).Pairwise fun before entry ↦
      isSystemTransaction entry.1.tx = false →
        before.2.cumulativeGasUsed < entry.2.cumulativeGasUsed := by
  obtain ⟨h, -⟩ := accounting_of_executeTransactions hbounded hfresh hlimit hrun
  rw [List.pairwise_iff_getElem]
  intro i j hi hj hij huser
  obtain ⟨-, hbefore⟩ := List.getElem?_zip_eq_some.1 (List.getElem?_eq_getElem hi)
  obtain ⟨htx, hreceipt⟩ := List.getElem?_zip_eq_some.1 (List.getElem?_eq_getElem hj)
  obtain ⟨gas, hcommitted⟩ := exists_gas_of_executeTransactions hrun htx
  exact cumulativeGasUsed_lt h hij hcommitted huser
    (hpositive _ (List.mem_of_getElem? hcommitted) huser) hbefore hreceipt

/-- Keeping the user transactions and keeping the receipts with gas keeps the two halves of one
list. -/
theorem kept_of_executeTransactions (hfirst : SystemFirst txs) :
    let kept := ((txs.map RecoveredTx.tx).zip executor'.receipts).filter fun entry ↦
      !isSystemTransaction entry.1
    kept.map Prod.fst = (txs.map RecoveredTx.tx).filter (fun tx ↦ !isSystemTransaction tx) ∧
      kept.map Prod.snd = receiptsForRoot executor'.receipts := by
  refine map_filter_zip (fun tx ↦ !isSystemTransaction tx)
    (fun receipt : Receipt ↦ receipt.cumulativeGasUsed ≠ 0) ?_ fun entry hentry ↦ ?_
  · rw [List.length_map, length_receipts_of_executeTransactions hbounded hfresh hlimit hrun]
  · obtain ⟨i, hi⟩ := List.getElem?_of_mem hentry
    obtain ⟨htx, hreceipt⟩ := List.getElem?_zip_eq_some.1 hi
    rw [List.getElem?_map, Option.map_eq_some_iff] at htx
    obtain ⟨tx, htx, heq⟩ := htx
    have hzero := receipt_eq_zero_iff_of_executeTransactions hbounded hfresh hlimit hrun hpositive
      hfirst htx hreceipt
    rw [← heq]
    cases hsystem : isSystemTransaction tx.tx <;> simp_all

end Executed

end HlBlockExecutor

/-! ### The two roots -/

/-- The check of the receipts reports no gas. -/
theorem verifyReceipts_ne_blockGasUsed (commitments : Commitments) (root : B256) (bloom : Bloom)
    (receipts : List Receipt) (got expected : ℕ) (spent : List (ℕ × ℕ)) :
    verifyReceipts commitments root bloom receipts ≠
      .error (.blockGasUsed got expected spent) := by
  unfold verifyReceipts compareReceiptsRootAndLogsBloom
  split_ifs <;> simp

/-- Neither does the check of the requests. -/
theorem verifyRequests_ne_blockGasUsed (commitments : Commitments) (header : Header)
    (requests : List Bytes) (got expected : ℕ) (spent : List (ℕ × ℕ)) :
    verifyRequests commitments header requests ≠ .error (.blockGasUsed got expected spent) := by
  unfold verifyRequests
  split
  · simp
  · split_ifs <;> simp

/-- The check on the gas of the block, and no other, gives this error. -/
theorem validateBlockPostExecution_eq_blockGasUsed_iff (chainSpec : ChainSpec)
    (commitments : Commitments) (header : Header) (receipts : List Receipt)
    (requests : List Bytes) :
    validateBlockPostExecution chainSpec commitments header receipts requests =
        .error (.blockGasUsed (HlBlockExecutor.lastCumulativeGas receipts) header.gasUsed
          (commitments.gasSpentByTransactions receipts)) ↔
      header.gasUsed ≠ HlBlockExecutor.lastCumulativeGas receipts := by
  constructor
  · intro h heq
    rw [validateBlockPostExecution] at h
    simp only at h
    rw [if_neg (not_not.2 (show header.gasUsed = (receipts.getLast?.map
      Receipt.cumulativeGasUsed).getD 0 from heq))] at h
    -- the later checks fail with other errors, so none of them is taken for this one
    have hrequests : ∀ got expected spent,
        (if chainSpec.isPragueActiveAtTimestamp header.timestamp then
          verifyRequests commitments header requests else pure ()) ≠
            .error (.blockGasUsed got expected spent) := by
      intro got expected spent
      split_ifs
      · exact verifyRequests_ne_blockGasUsed _ _ _ _ _ _
      · exact fun h ↦ by cases h
    by_cases hbyzantium : chainSpec.isByzantiumActiveAtBlock header.number = true
    · rw [if_pos hbyzantium] at h
      rcases hcheck : verifyReceipts commitments header.receiptsRoot header.logsBloom
        (receiptsForRoot receipts) with e | ⟨⟩
      · rw [hcheck] at h
        exact verifyReceipts_ne_blockGasUsed _ _ _ _ _ _ _ (hcheck.trans h)
      · rw [hcheck] at h
        exact hrequests _ _ _ h
    · rw [if_neg hbyzantium] at h
      exact hrequests _ _ _ h
  · exact fun hne ↦ if_pos hne

/-- **The two classifications coincide on an executed block.** The cumulative gas of a receipt is
zero exactly when its transaction has a gas price of zero. So what is kept of the transactions, by
the assembler and by the body, and what is kept of the receipts, by the assembler and by the check,
are the two halves of one list of transactions with their receipts; and the gas that the header is
compared with is the gas of the user transactions. -/
theorem classification_executed {revm : Revm} (hbounded : revm.GasBounded)
    (executor : HlBlockExecutor revm) (hfresh : executor.IsFresh)
    (hlimit : executor.env.gasLimit < u64Size) {txs : List RecoveredTx}
    {executor' : HlBlockExecutor revm} (hfirst : SystemFirst txs)
    (hrun : executor.executeTransactions txs = .ok executor')
    (hpositive : ∀ entry ∈ (executor.runCalls (txs.map .always)).2,
      isSystemTransaction entry.1.tx = false → 0 < entry.2) :
    let userGas := HlBlockExecutor.userGas (executor.runCalls (txs.map .always)).2
    let receipts := executor'.finish.receipts
    let kept := ((txs.map RecoveredTx.tx).zip receipts).filter fun entry ↦
      !isSystemTransaction entry.1
    receipts.length = txs.length ∧
    (∀ (i : ℕ) (tx : RecoveredTx) (receipt : Receipt), txs[i]? = some tx →
      receipts[i]? = some receipt →
        (receipt.cumulativeGasUsed = 0 ↔ isSystemTransaction tx.tx = true)) ∧
    receiptsForRoot receipts = kept.map Prod.snd ∧
    ∀ chainSpec commitments extraData env ctx parent stateRoot,
      let block := assembleBlock chainSpec commitments extraData env ctx parent
        (txs.map RecoveredTx.tx) executor'.finish stateRoot
      block.body.transactionsForRoot = kept.map Prod.fst ∧
      block.header.transactionsRoot = commitments.transactionRoot (kept.map Prod.fst) ∧
      block.body.calculateTxRoot commitments = block.header.transactionsRoot ∧
      block.header.receiptsRoot = commitments.receiptRoot (kept.map Prod.snd) ∧
      block.header.gasUsed = userGas ∧
      ∀ (header : Header) (requests : List Bytes),
        validateBlockPostExecution chainSpec commitments header receipts requests =
            .error (.blockGasUsed userGas header.gasUsed
              (commitments.gasSpentByTransactions receipts)) ↔
          header.gasUsed ≠ userGas := by
  intro userGas receipts kept
  obtain ⟨h, -⟩ := HlBlockExecutor.accounting_of_executeTransactions hbounded hfresh hlimit hrun
  have hlength : receipts.length = txs.length :=
    HlBlockExecutor.length_receipts_of_executeTransactions hbounded hfresh hlimit hrun
  have hzero : ∀ (i : ℕ) (tx : RecoveredTx) (receipt : Receipt), txs[i]? = some tx →
      receipts[i]? = some receipt →
        (receipt.cumulativeGasUsed = 0 ↔ isSystemTransaction tx.tx = true) := by
    intro i tx receipt htx hreceipt
    exact HlBlockExecutor.receipt_eq_zero_iff_of_executeTransactions hbounded hfresh hlimit hrun
      hpositive hfirst htx hreceipt
  -- by gas price and by receipt the same positions are kept
  obtain ⟨htransactions, hreceipts⟩ : kept.map Prod.fst = _ ∧ kept.map Prod.snd = _ :=
    HlBlockExecutor.kept_of_executeTransactions hbounded hfresh hlimit hrun hpositive hfirst
  refine ⟨hlength, hzero, hreceipts.symm, ?_⟩
  intro chainSpec commitments extraData env ctx parent stateRoot block
  have hbody : block.body.transactionsForRoot = kept.map Prod.fst := by
    rw [htransactions]
    exact List.filter_congr fun tx _ ↦ by rw [executor_isSystemTransaction_eq]
  have hroot : block.header.transactionsRoot =
      commitments.transactionRoot (kept.map Prod.fst) := by
    rw [htransactions]
    rfl
  -- the last receipt carries the gas of all user transactions
  have hgas : HlBlockExecutor.lastCumulativeGas receipts = userGas :=
    h.gasUsed_eq_last.symm.trans h.gasUsed_eq_userGas
  refine ⟨hbody, hroot, ?_, ?_, h.gasUsed_eq_userGas, ?_⟩
  · rw [hroot, HlBlockBody.calculateTxRoot, hbody]
  · rw [hreceipts]
    rfl
  · intro header requests
    rw [← hgas]
    exact validateBlockPostExecution_eq_blockGasUsed_iff chainSpec commitments header receipts
      requests

/-- A system transaction and two transfers: two receipts are kept, and the check asks for the gas of
the two transfers. -/
theorem classification_transfers :
    ∃ executor', (HlBlockExecutor.transferExecutor 250000).executeTransactions
        [exampleSystemTx, exampleUserTx, exampleNextTx] = .ok executor' ∧
      receiptsForRoot executor'.finish.receipts =
        [⟨.legacy, true, 21000, []⟩, ⟨.legacy, true, 42000, []⟩] ∧
      validateBlockPostExecution exampleChainSpec exampleCommitments (.zero 1)
          executor'.finish.receipts [] =
        .error (.blockGasUsed 42000 0 [(0, 0), (1, 21000), (2, 42000)]) := by
  have hreceipts : ((HlBlockExecutor.transferExecutor 250000).executeTransactions
      [exampleSystemTx, exampleUserTx, exampleNextTx]).map HlBlockExecutor.receipts =
        .ok [⟨.legacy, true, 0, []⟩, ⟨.legacy, true, 21000, []⟩, ⟨.legacy, true, 42000, []⟩] :=
    rfl
  have hcommitted : ((HlBlockExecutor.transferExecutor 250000).runCalls
      ([exampleSystemTx, exampleUserTx, exampleNextTx].map .always)).2 =
        [(exampleSystemTx, 21000), (exampleUserTx, 21000), (exampleNextTx, 21000)] := by
    decide +kernel
  have hfirst : SystemFirst [exampleSystemTx, exampleUserTx, exampleNextTx] := by
    refine ⟨1, fun i tx htx ↦ ?_⟩
    rcases i with - | - | - | i
    · obtain rfl := Option.some.inj htx
      decide
    · obtain rfl := Option.some.inj htx
      decide
    · obtain rfl := Option.some.inj htx
      decide
    · cases htx
  rcases hrun : (HlBlockExecutor.transferExecutor 250000).executeTransactions
    [exampleSystemTx, exampleUserTx, exampleNextTx] with e | executor'
  · rw [hrun] at hreceipts
    cases hreceipts
  · rw [hrun] at hreceipts
    replace hreceipts : executor'.finish.receipts = _ := Except.ok.inj hreceipts
    obtain ⟨-, -, hkept, hblock⟩ := classification_executed HlBlockExecutor.transferRevm_gasBounded
      _ ⟨rfl, rfl⟩ (by decide) hfirst hrun (by rw [hcommitted]; decide)
    obtain ⟨-, -, -, -, -, hcheck⟩ := hblock exampleChainSpec exampleCommitments [] exampleEnv
      exampleCtx (.zero 0) 0
    refine ⟨executor', rfl, ?_, ?_⟩
    · rw [hkept, hreceipts]
      decide
    · have := (hcheck (.zero 1) []).2 (by rw [hcommitted]; decide)
      rw [hcommitted, hreceipts] at this
      rw [hreceipts]
      exact this

end RethHl
