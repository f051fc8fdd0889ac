import RethHl.Evm.Assembler

/-!
# The check after the execution of a block

`validateBlockPostExecution` compares a header with the receipts and requests of an execution. It
leaves the receipts of the system transactions out of the receipts root, as the assembler does, but
also **out of the logs bloom**, which the assembler does not.

`assembled_block_valid_iff` says when a block that the node assembles passes the node's own check:
exactly when the logs of the receipts without gas set no bit that the other logs do not set. Gas,
receipts root and requests hash always match.
-/

namespace RethHl

/-- Why the check fails. -/
inductive ConsensusError where
  | blockGasUsed (got expected : ℕ) (gasSpentByTx : List (ℕ × ℕ))
  | bodyReceiptRootDiff (got expected : B256)
  | bodyBloomLogDiff (got expected : Bloom)
  | requestsHashMissing
  | bodyRequestsHashDiff (got expected : B256)
  deriving DecidableEq, Repr

section Validation

variable (chainSpec : ChainSpec) (commitments : Commitments)

/-- Compare the receipts root and the logs bloom. -/
def compareReceiptsRootAndLogsBloom (calculatedReceiptsRoot : B256) (calculatedLogsBloom : Bloom)
    (expectedReceiptsRoot : B256) (expectedLogsBloom : Bloom) : Except ConsensusError Unit :=
  if calculatedReceiptsRoot ≠ expectedReceiptsRoot then
    .error (.bodyReceiptRootDiff calculatedReceiptsRoot expectedReceiptsRoot)
  else if calculatedLogsBloom ≠ expectedLogsBloom then
    .error (.bodyBloomLogDiff calculatedLogsBloom expectedLogsBloom)
  else .ok ()

/-- Calculate the receipts root and the logs bloom of some receipts, and compare them. -/
def verifyReceipts (expectedReceiptsRoot : B256) (expectedLogsBloom : Bloom)
    (receipts : List Receipt) : Except ConsensusError Unit :=
  compareReceiptsRootAndLogsBloom (commitments.receiptRoot receipts)
    (receipts.foldl (fun bloom receipt ↦ bloom ||| commitments.logsBloom receipt.logs) 0)
    expectedReceiptsRoot expectedLogsBloom

/-- The check of the requests hash. -/
def verifyRequests (header : Header) (requests : List Bytes) : Except ConsensusError Unit :=
  match header.requestsHash with
  | none => .error .requestsHashMissing
  | some headerRequestsHash =>
    if commitments.requestsHash requests ≠ headerRequestsHash then
      .error (.bodyRequestsHashDiff (commitments.requestsHash requests) headerRequestsHash)
    else .ok ()

/-- `validate_block_post_execution`. -/
def validateBlockPostExecution (header : Header) (receipts : List Receipt)
    (requests : List Bytes) : Except ConsensusError Unit :=
  let cumulativeGasUsed := (receipts.getLast?.map Receipt.cumulativeGasUsed).getD 0
  if header.gasUsed ≠ cumulativeGasUsed then
    .error (.blockGasUsed cumulativeGasUsed header.gasUsed
      (commitments.gasSpentByTransactions receipts))
  else do
    if chainSpec.isByzantiumActiveAtBlock header.number then
      verifyReceipts commitments header.receiptsRoot header.logsBloom (receiptsForRoot receipts)
    if chainSpec.isPragueActiveAtTimestamp header.timestamp then
      verifyRequests commitments header requests

/-! ### Bloom filters -/

/-- Every bit of a log is also set by a log of a receipt with gas. -/
def Covered (receipts : List Receipt) (log : Log) : Prop :=
  ∀ i, (commitments.logBloom log).getLsbD i = true →
    ∃ receipt ∈ receipts, receipt.cumulativeGasUsed ≠ 0 ∧
      ∃ log' ∈ receipt.logs, (commitments.logBloom log').getLsbD i = true

variable {commitments}

/-- The bits of a filter that is built up from a list. -/
theorem getLsbD_foldl_or {α : Type} (f : α → Bloom) (l : List α) (bloom : Bloom) (i : ℕ) :
    (l.foldl (fun bloom x ↦ bloom ||| f x) bloom).getLsbD i =
      (bloom.getLsbD i || l.any fun x ↦ (f x).getLsbD i) := by
  induction l generalizing bloom with
  | nil => simp
  | cons x l ih => rw [List.foldl_cons, ih, BitVec.getLsbD_or, List.any_cons, Bool.or_assoc]

theorem getLsbD_logsBloom (logs : List Log) (i : ℕ) :
    (commitments.logsBloom logs).getLsbD i =
      logs.any fun log ↦ (commitments.logBloom log).getLsbD i := by
  rw [Commitments.logsBloom, getLsbD_foldl_or]
  simp

/-- The filter of the receipts is the filter of their logs. -/
theorem foldl_logsBloom (receipts : List Receipt) :
    receipts.foldl (fun bloom receipt ↦ bloom ||| commitments.logsBloom receipt.logs) 0 =
      commitments.logsBloom (receipts.flatMap Receipt.logs) := by
  refine BitVec.eq_of_getLsbD_eq fun i _ ↦ ?_
  rw [getLsbD_foldl_or, getLsbD_logsBloom, List.any_flatMap]
  simp [getLsbD_logsBloom]

/-- The bits of the filter over some receipts. -/
theorem getLsbD_logsBloom_flatMap (receipts : List Receipt) (i : ℕ) :
    (commitments.logsBloom (receipts.flatMap Receipt.logs)).getLsbD i = true ↔
      ∃ receipt ∈ receipts, ∃ log ∈ receipt.logs,
        (commitments.logBloom log).getLsbD i = true := by
  rw [getLsbD_logsBloom, List.any_flatMap]
  simp only [List.any_eq_true]

/-- The bits of the filter over the receipts with gas. -/
theorem getLsbD_logsBloom_receiptsForRoot (receipts : List Receipt) (i : ℕ) :
    (commitments.logsBloom ((receiptsForRoot receipts).flatMap Receipt.logs)).getLsbD i = true ↔
      ∃ receipt ∈ receipts, receipt.cumulativeGasUsed ≠ 0 ∧
        ∃ log ∈ receipt.logs, (commitments.logBloom log).getLsbD i = true := by
  rw [getLsbD_logsBloom_flatMap, receiptsForRoot]
  simp only [List.mem_filter, decide_eq_true_eq, and_assoc]

/-- The filters over all receipts and over those with gas are the same exactly when the logs of the
others are covered. -/
theorem logsBloom_receiptsForRoot_iff (receipts : List Receipt) :
    commitments.logsBloom ((receiptsForRoot receipts).flatMap Receipt.logs) =
        commitments.logsBloom (receipts.flatMap Receipt.logs) ↔
      ∀ receipt ∈ receipts, receipt.cumulativeGasUsed = 0 → ∀ log ∈ receipt.logs,
        Covered commitments receipts log := by
  constructor
  · intro heq receipt hreceipt _ log hlog i hi
    rw [← getLsbD_logsBloom_receiptsForRoot, heq, getLsbD_logsBloom_flatMap]
    exact ⟨receipt, hreceipt, log, hlog, hi⟩
  · intro hcovered
    refine BitVec.eq_of_getLsbD_eq fun i _ ↦ Bool.eq_iff_iff.2 ?_
    rw [getLsbD_logsBloom_receiptsForRoot, getLsbD_logsBloom_flatMap]
    constructor
    · rintro ⟨receipt, hreceipt, -, log, hlog, hi⟩
      exact ⟨receipt, hreceipt, log, hlog, hi⟩
    · rintro ⟨receipt, hreceipt, log, hlog, hi⟩
      by_cases hzero : receipt.cumulativeGasUsed = 0
      · exact hcovered receipt hreceipt hzero log hlog i hi
      · exact ⟨receipt, hreceipt, hzero, log, hlog, hi⟩

/-! ### The check on an assembled block -/

variable {chainSpec}

/-- The check on the receipts of an assembled header. -/
theorem verifyReceipts_eq_ok_iff (receipts : List Receipt) :
    verifyReceipts commitments (commitments.receiptRoot (receiptsForRoot receipts))
        (commitments.logsBloom (receipts.flatMap Receipt.logs)) (receiptsForRoot receipts) =
        .ok () ↔
      commitments.logsBloom ((receiptsForRoot receipts).flatMap Receipt.logs) =
        commitments.logsBloom (receipts.flatMap Receipt.logs) := by
  rw [verifyReceipts, compareReceiptsRootAndLogsBloom, foldl_logsBloom, if_neg (by simp)]
  split_ifs with hbloom
  · exact iff_of_false (fun h ↦ by cases h) hbloom
  · exact iff_of_true rfl (not_not.1 hbloom)

/-- **When an assembled block passes the check.** -/
theorem assembled_block_valid_iff {revm : Revm} {db : revm.Db} {env : BlockEnv}
    {precompiles : PrecompilesMap} {ctx : HlBlockExecutionCtx} {parent : Header}
    {transactions : List RecoveredTx} {stateRoot : B256} {extraData : Bytes}
    {executor : HlBlockExecutor revm}
    (hrun : executeBlock revm db env precompiles ctx.extras transactions = .ok executor) :
    validateBlockPostExecution chainSpec commitments
        (assembleBlock chainSpec commitments extraData env ctx parent
          (transactions.map RecoveredTx.tx) executor.finish stateRoot).header
        executor.finish.receipts executor.finish.requests = .ok () ↔
      (chainSpec.isByzantiumActiveAtBlock (saturatingToU64 env.number) = true →
        ∀ receipt ∈ executor.receipts, receipt.cumulativeGasUsed = 0 → ∀ log ∈ receipt.logs,
          Covered commitments executor.receipts log) := by
  set header := (assembleBlock chainSpec commitments extraData env ctx parent
    (transactions.map RecoveredTx.tx) executor.finish stateRoot).header with hheader
  have hgas : header.gasUsed =
      (executor.finish.receipts.getLast?.map Receipt.cumulativeGasUsed).getD 0 :=
    gasUsed_executeBlock hrun
  have hrequests : chainSpec.isPragueActiveAtTimestamp header.timestamp = true →
      verifyRequests commitments header executor.finish.requests = .ok () := by
    intro hprague
    have hhash : header.requestsHash = some (commitments.requestsHash executor.finish.requests) :=
      if_pos hprague
    rw [verifyRequests, hhash]
    exact if_neg (by simp)
  rw [← logsBloom_receiptsForRoot_iff, ← verifyReceipts_eq_ok_iff, validateBlockPostExecution]
  simp only
  rw [if_neg (not_not.2 hgas)]
  -- the requests pass; what is left is the check on the receipts
  have hlast : (if chainSpec.isPragueActiveAtTimestamp header.timestamp = true then
      verifyRequests commitments header executor.finish.requests else pure ()) = .ok () := by
    split_ifs with hprague
    · exact hrequests hprague
    · rfl
  rw [hlast, show header.number = saturatingToU64 env.number from rfl]
  by_cases hbyzantium : chainSpec.isByzantiumActiveAtBlock (saturatingToU64 env.number) = true
  · rw [if_pos hbyzantium]
    constructor
    · intro h _
      obtain ⟨⟨⟩, hreceipts, -⟩ := exists_of_bind_eq_ok h
      exact hreceipts
    · intro h
      have hreceipts := h hbyzantium
      exact (congrArg (· >>= fun _ ↦ (Except.ok () : Except ConsensusError Unit)) hreceipts)
  · rw [if_neg hbyzantium]
    exact iff_of_true rfl fun h ↦ absurd h hbyzantium

end Validation

/-! ### A block with a log of a system transaction -/

/-- A transfer event. -/
def exampleLog : Log where
  address := 0x1111111111111111111111111111111111111111
  topics := []
  data := []

/-- An interpreter in which a transaction uses 21000 gas and emits the given logs. -/
def loggingRevm (logs : TransactionSigned → List Log) : Revm where
  Db := Unit
  Account := Unit
  CacheAccount := Unit
  TransitionAccount := Unit
  Error := Empty
  transact := fun _ _ _ tx ↦ .ok (⟨true, 21000, logs tx.tx⟩, fun _ ↦ none)
  commit := fun _ _ ↦ ()
  loadCacheAccount := fun _ _ ↦ .ok ((), ())
  accountInfo := fun _ ↦ none
  defaultInfo := ⟨0, 0, 0, none⟩
  change := fun _ _ ↦ ()
  applyTransition := fun _ _ ↦ ()
  hashSlow := fun _ ↦ 0

/-- The bloom bits of the transfer event. -/
def exampleCommitments : Commitments where
  transactionRoot := fun _ ↦ 0
  receiptRoot := fun _ ↦ 0
  withdrawalsRoot := fun _ ↦ 0
  requestsHash := fun _ ↦ 0
  logBloom := fun log ↦
    if log = exampleLog then 1 <<< 704 ||| 1 <<< 1028 ||| 1 <<< 193 else 0
  gasSpentByTransactions := fun receipts ↦
    receipts.zipIdx.map fun p ↦ (p.2, p.1.cumulativeGasUsed)

/-- All forks are active. -/
def exampleChainSpec : ChainSpec where
  isByzantiumActiveAtBlock := fun _ ↦ true
  isShanghaiActiveAtTimestamp := fun _ ↦ true
  isCancunActiveAtTimestamp := fun _ ↦ true
  isPragueActiveAtTimestamp := fun _ ↦ true
  maybeNextBlockExcessBlobGas := fun _ _ ↦ some 0
  firstExcessBlobGas := 0

/-- A block environment. -/
def exampleEnv : BlockEnv where
  number := 1
  beneficiary := 0
  timestamp := 1722633600
  gasLimit := 2000000
  basefee := 0
  difficulty := 0
  prevrandao := none
  blobExcessGasAndPrice := none

/-- An execution context without recorded precompiles. -/
def exampleCtx : HlBlockExecutionCtx where
  parentHash := 0
  parentBeaconBlockRoot := none
  withdrawals := none
  extras := ⟨none, none⟩

/-- The execution of a system and a user transaction that emit the given logs. -/
def exampleExecution (logs : TransactionSigned → List Log) :
    Except (BlockExecutionError Empty) (HlBlockExecutor (loggingRevm logs)) :=
  executeBlock (loggingRevm logs) () exampleEnv (fun _ ↦ none) exampleCtx.extras
    [exampleSystemTx, exampleUserTx]

/-- The check of the block that is assembled from the two transactions. -/
def exampleCheck {logs : TransactionSigned → List Log}
    (executor : HlBlockExecutor (loggingRevm logs)) : Except ConsensusError Unit :=
  validateBlockPostExecution exampleChainSpec exampleCommitments
    (assembleBlock exampleChainSpec exampleCommitments [] exampleEnv exampleCtx (.zero 0)
      [exampleSystemTx.tx, exampleUserTx.tx] executor.finish 0).header
    executor.finish.receipts executor.finish.requests

/-- When both transactions emit the same event, its bits are covered and the block passes. -/
theorem assembled_block_valid_of_same_log :
    ∃ executor, exampleExecution (fun _ ↦ [exampleLog]) = .ok executor ∧
      exampleCheck executor = .ok () := by
  have hreceipts : (exampleExecution fun _ ↦ [exampleLog]).map HlBlockExecutor.receipts =
      .ok [⟨.legacy, true, 0, [exampleLog]⟩, ⟨.legacy, true, 21000, [exampleLog]⟩] := by
    decide +kernel
  rcases hrun : exampleExecution fun _ ↦ [exampleLog] with e | executor
  · rw [hrun] at hreceipts
    cases hreceipts
  · rw [hrun] at hreceipts
    replace hreceipts := Except.ok.inj hreceipts
    refine ⟨executor, rfl, (assembled_block_valid_iff hrun).2 ?_⟩
    intro _ receipt hmem _ log hlog i hi
    have hlogs : ∀ receipt ∈ executor.receipts, receipt.logs = [exampleLog] := by
      rw [hreceipts]
      decide
    rw [hlogs receipt hmem] at hlog
    refine ⟨⟨.legacy, true, 21000, [exampleLog]⟩, ?_, by decide, log, hlog, hi⟩
    rw [hreceipts]
    exact List.mem_cons_of_mem _ List.mem_cons_self

/-- The event of a system transaction alone makes the node reject the block it has assembled. -/
theorem not_assembled_block_valid_of_system_log :
    (exampleExecution fun tx ↦ if isSystemTransaction tx then [exampleLog] else []).map
        exampleCheck =
      .ok (.error (.bodyBloomLogDiff 0 (exampleCommitments.logBloom exampleLog))) := by
  decide +kernel

end RethHl
