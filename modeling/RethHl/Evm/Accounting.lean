import RethHl.Evm.Executor
import Mathlib.Algebra.Order.BigOperators.Group.List
import Mathlib.Algebra.Order.Group.Nat
import Mathlib.Data.List.Induction

/-!
# The accounts of a block executor

`executeTransactionWithCommitCondition` of the source changes the executor one field after the
other. The gas of the block is moved **before** the patches are applied, and applying the patches
has an error of its own, so what is left behind by a call that fails has to be looked at.
`executeInPlace` follows the source statement by statement and gives the executor after the call
whatever the call returns. `executeInPlace_cases` says once what a call can do; with it the
executor of `RethHl.Evm.Executor`, which gives a state only with a result, is recovered
(`executeInPlace_eq_ok_iff`).

**The accounts.** A sequence of calls leaves a list of committed transactions, with the gas that
each call returned. `Accounting` is the relation of the executor to that list: the totals in the
receipts are the running totals of the gas of the committed user transactions. That the block never
runs over its limit is part of the same invariant, because the limit of a transaction is checked
against what the sum leaves.
-/

namespace RethHl

/-- The interpreter never uses more than a transaction allows. -/
def Revm.GasBounded (revm : Revm) : Prop :=
  ∀ db env precompiles tx result state,
    revm.transact db env precompiles tx = .ok (result, state) →
      result.gasUsed ≤ tx.tx.transaction.gasLimit

namespace HlBlockExecutor

variable {revm : Revm}

/-! ### Statement by statement -/

/-- `patch_mainnet_after_tx` with its result. Every path of it is `Ok`. -/
def patchMainnetAfterTxResult {E Account : Type} (blockNumber txIndex : ℕ) (isSystemTx : Bool)
    (changes : Address → Option Account) :
    Except (BlockExecutionError E) (Address → Option Account) :=
  .ok (patchMainnetAfterTx blockNumber txIndex isSystemTx changes)

/-- `execute_transaction_with_commit_condition` on the executor in place: what the call returns,
and the executor after it. -/
def executeInPlace (self : HlBlockExecutor revm) (tx : RecoveredTx)
    (shouldCommit : ExecutionResult → Bool) :
    Except (BlockExecutionError revm.Error) (Option ℕ) × HlBlockExecutor revm :=
  let blockAvailableGas := wrappingSub self.env.gasLimit self.gasUsed
  if tx.tx.transaction.gasLimit > blockAvailableGas then
    (.error (.transactionGasLimitMoreThanAvailableBlockGas tx.tx.transaction.gasLimit
      blockAvailableGas), self)
  else
    match revm.transact self.db self.env self.precompiles tx with
    | .error e => (.error (.evm e), self)
    | .ok (result, state) =>
      if !shouldCommit result then (.ok none, self)
      else
        let gasUsed := result.gasUsed
        let self :=
          if !isSystemTransaction tx.tx then
            { self with gasUsed := (self.gasUsed + gasUsed) % u64Size }
          else self
        match patchMainnetAfterTxResult (min self.env.number u64Max) self.receipts.length
            (isSystemTransaction tx.tx) state with
        -- the gas of the block is already moved here
        | .error e => (.error e, self)
        | .ok state =>
          let self := { self with
            receipts := self.receipts ++ [buildReceipt tx.tx result self.gasUsed] }
          let self := { self with db := revm.commit self.db state }
          (.ok (some gasUsed), self)

/-- The executor after a transaction is committed. -/
def committedWith (executor : HlBlockExecutor revm) (tx : RecoveredTx) (result : ExecutionResult)
    (state : Address → Option revm.Account) : HlBlockExecutor revm :=
  { executor with
    gasUsed := executor.gasUsedAfter tx result
    receipts := executor.receipts ++ [buildReceipt tx.tx result (executor.gasUsedAfter tx result)]
    db := revm.commit executor.db (patchMainnetAfterTx (min executor.env.number u64Max)
      executor.receipts.length (isSystemTransaction tx.tx) state) }

/-- What is computed for a transaction that fits into the block and is to be committed. -/
theorem executeInPlace_commit {executor : HlBlockExecutor revm} {tx : RecoveredTx}
    {shouldCommit : ExecutionResult → Bool} {result : ExecutionResult}
    {state : Address → Option revm.Account}
    (hfits : ¬ tx.tx.transaction.gasLimit > wrappingSub executor.env.gasLimit executor.gasUsed)
    (htransact : revm.transact executor.db executor.env executor.precompiles tx =
      .ok (result, state))
    (hcommit : shouldCommit result = true) :
    executor.executeInPlace tx shouldCommit =
      (.ok (some result.gasUsed), executor.committedWith tx result state) := by
  simp only [executeInPlace]
  rw [if_neg hfits, htransact]
  simp only [hcommit, Bool.not_true, Bool.false_eq_true, if_false, patchMainnetAfterTxResult]
  cases hsystem : isSystemTransaction tx.tx
  · simp [committedWith, gasUsedAfter, hsystem]
  · simp [committedWith, gasUsedAfter, hsystem]

/-- **What a call can do.** It fails or leaves the transaction uncommitted, and then the executor is
what it was; or it commits. The error that could leave a half-written executor does not occur. -/
theorem executeInPlace_cases (executor : HlBlockExecutor revm) (tx : RecoveredTx)
    (shouldCommit : ExecutionResult → Bool) :
    (∃ e, executor.executeInPlace tx shouldCommit = (.error e, executor) ∧
      executor.executeTransactionWithCommitCondition tx shouldCommit = .error e) ∨
    ((∃ result, shouldCommit result = false) ∧
      executor.executeInPlace tx shouldCommit = (.ok none, executor) ∧
      executor.executeTransactionWithCommitCondition tx shouldCommit = .ok (none, executor)) ∨
    ∃ result state,
      tx.tx.transaction.gasLimit ≤ wrappingSub executor.env.gasLimit executor.gasUsed ∧
      revm.transact executor.db executor.env executor.precompiles tx = .ok (result, state) ∧
      shouldCommit result = true ∧
      executor.executeInPlace tx shouldCommit =
        (.ok (some result.gasUsed), executor.committedWith tx result state) ∧
      executor.executeTransactionWithCommitCondition tx shouldCommit =
        .ok (some result.gasUsed, executor.committedWith tx result state) := by
  -- the paths in the order of the source: no room, failed, not committed, committed
  by_cases hfits : tx.tx.transaction.gasLimit > wrappingSub executor.env.gasLimit executor.gasUsed
  · exact Or.inl ⟨_, if_pos hfits, if_pos hfits⟩
  rcases htransact : revm.transact executor.db executor.env executor.precompiles tx
    with e | ⟨result, state⟩
  · refine Or.inl ⟨.evm e, ?_, ?_⟩
    · simp only [executeInPlace]
      rw [if_neg hfits, htransact]
    · simp only [executeTransactionWithCommitCondition]
      rw [if_neg hfits, htransact]
  cases hcommit : shouldCommit result with
  | false =>
    refine Or.inr (Or.inl ⟨⟨result, hcommit⟩, ?_, ?_⟩)
    · simp only [executeInPlace]
      rw [if_neg hfits, htransact]
      simp only [hcommit, Bool.not_false, if_true]
    · simp only [executeTransactionWithCommitCondition]
      rw [if_neg hfits, htransact]
      simp only [hcommit, Bool.false_eq_true, if_false]
  | true =>
    refine Or.inr (Or.inr ⟨result, state, not_lt.1 hfits, rfl, hcommit,
      executeInPlace_commit hfits htransact hcommit, ?_⟩)
    simp only [executeTransactionWithCommitCondition]
    rw [if_neg hfits, htransact]
    simp only [hcommit, if_true]
    rfl

/-- The two ways to write the call agree: on what is returned and, where it succeeds, on the
executor. -/
theorem executeInPlace_eq_ok_iff {executor next : HlBlockExecutor revm} {tx : RecoveredTx}
    {shouldCommit : ExecutionResult → Bool} {gas : Option ℕ} :
    executor.executeInPlace tx shouldCommit = (.ok gas, next) ↔
      executor.executeTransactionWithCommitCondition tx shouldCommit = .ok (gas, next) := by
  rcases executor.executeInPlace_cases tx shouldCommit with
    ⟨e, hplace, hvalue⟩ | ⟨-, hplace, hvalue⟩ | ⟨result, state, -, -, -, hplace, hvalue⟩
  all_goals
    rw [hplace, hvalue]
    simp [eq_comm]

/-! ### Sequences of calls -/

/-- A call of the executor: a transaction, and when to commit it. -/
structure Call where
  tx : RecoveredTx
  shouldCommit : ExecutionResult → Bool

/-- The call commits: the transaction fits into the block and is executed, and its result is to be
committed. -/
structure Commits (executor : HlBlockExecutor revm) (call : Call) (result : ExecutionResult)
    (state : Address → Option revm.Account) : Prop where
  fits : call.tx.tx.transaction.gasLimit ≤ wrappingSub executor.env.gasLimit executor.gasUsed
  transact : revm.transact executor.db executor.env executor.precompiles call.tx =
    .ok (result, state)
  shouldCommit : call.shouldCommit result = true

theorem Commits.executeInPlace {executor : HlBlockExecutor revm} {call : Call}
    {result : ExecutionResult} {state : Address → Option revm.Account}
    (h : executor.Commits call result state) :
    executor.executeInPlace call.tx call.shouldCommit =
      (.ok (some result.gasUsed), executor.committedWith call.tx result state) :=
  executeInPlace_commit (not_lt.2 h.fits) h.transact h.shouldCommit

/-- A call returns gas exactly when it commits. -/
theorem executeInPlace_eq_some_iff {executor : HlBlockExecutor revm} {call : Call} {gas : ℕ} :
    (executor.executeInPlace call.tx call.shouldCommit).1 = .ok (some gas) ↔
      ∃ result state, executor.Commits call result state ∧ result.gasUsed = gas := by
  constructor
  · intro h
    rcases executor.executeInPlace_cases call.tx call.shouldCommit with
      ⟨e, hcall, -⟩ | ⟨-, hcall, -⟩ | ⟨result, state, hfits, htransact, hcommit, hcall, -⟩
    · rw [hcall] at h
      cases h
    · rw [hcall] at h
      cases h
    · rw [hcall] at h
      exact ⟨result, state, ⟨hfits, htransact, hcommit⟩, Option.some.inj (Except.ok.inj h)⟩
  · rintro ⟨result, state, hcommits, rfl⟩
    rw [hcommits.executeInPlace]

/-- A call, with what was committed before it: a call that returns gas has committed its
transaction. -/
def runCall (run : HlBlockExecutor revm × List (RecoveredTx × ℕ)) (call : Call) :
    HlBlockExecutor revm × List (RecoveredTx × ℕ) :=
  match run.1.executeInPlace call.tx call.shouldCommit with
  | (.ok (some gas), next) => (next, run.2 ++ [(call.tx, gas)])
  | (_, next) => (next, run.2)

/-- The executor after a sequence of calls, and the transactions that were committed with the gas
that their calls returned. -/
def runCalls (executor : HlBlockExecutor revm) (calls : List Call) :
    HlBlockExecutor revm × List (RecoveredTx × ℕ) :=
  calls.foldl runCall (executor, [])

/-- The executor as it is before the first call. -/
structure IsFresh (executor : HlBlockExecutor revm) : Prop where
  gasUsed_eq_zero : executor.gasUsed = 0
  receipts_eq_nil : executor.receipts = []

/-- A call changes neither the environment nor the precompiles. -/
theorem runCall_cases (run : HlBlockExecutor revm × List (RecoveredTx × ℕ)) (call : Call) :
    runCall run call = run ∨
    ∃ result state,
      call.tx.tx.transaction.gasLimit ≤ wrappingSub run.1.env.gasLimit run.1.gasUsed ∧
      revm.transact run.1.db run.1.env run.1.precompiles call.tx = .ok (result, state) ∧
      runCall run call =
        (run.1.committedWith call.tx result state, run.2 ++ [(call.tx, result.gasUsed)]) := by
  rcases run.1.executeInPlace_cases call.tx call.shouldCommit with
    ⟨e, hcall, -⟩ | ⟨-, hcall, -⟩ | ⟨result, state, hfits, htransact, -, hcall, -⟩
  · exact Or.inl (by rw [runCall, hcall])
  · exact Or.inl (by rw [runCall, hcall])
  · exact Or.inr ⟨result, state, hfits, htransact, by rw [runCall, hcall]⟩

/-! ### The accounts -/

/-- What a committed transaction adds to the gas of the block. -/
def countedGas (entry : RecoveredTx × ℕ) : ℕ :=
  if isSystemTransaction entry.1.tx then 0 else entry.2

/-- The gas of the committed transactions that are not system transactions. -/
def userGas (committed : List (RecoveredTx × ℕ)) : ℕ :=
  ((committed.filter fun entry ↦ !isSystemTransaction entry.1.tx).map Prod.snd).sum

theorem userGas_eq_sum (committed : List (RecoveredTx × ℕ)) :
    userGas committed = (committed.map countedGas).sum := by
  induction committed with
  | nil => rfl
  | cons entry committed ih =>
    rw [userGas] at ih ⊢
    rw [List.map_cons, List.sum_cons, ← ih, List.filter_cons, countedGas]
    cases isSystemTransaction entry.1.tx <;> simp

theorem userGas_concat (committed : List (RecoveredTx × ℕ)) (entry : RecoveredTx × ℕ) :
    userGas (committed ++ [entry]) = userGas committed + countedGas entry := by
  rw [userGas_eq_sum, userGas_eq_sum, List.map_append, List.sum_append]
  simp

/-- The gas of the user transactions up to and including each committed transaction. -/
def runningGas (committed : List (RecoveredTx × ℕ)) : List ℕ :=
  (List.range committed.length).map fun i ↦ userGas (committed.take (i + 1))

theorem runningGas_concat (committed : List (RecoveredTx × ℕ)) (entry : RecoveredTx × ℕ) :
    runningGas (committed ++ [entry]) =
      runningGas committed ++ [userGas committed + countedGas entry] := by
  have hfront : ∀ i ∈ List.range committed.length,
      userGas ((committed ++ [entry]).take (i + 1)) = userGas (committed.take (i + 1)) := by
    intro i hi
    rw [List.take_append_of_le_length (List.mem_range.1 hi)]
  rw [runningGas, List.length_append, List.length_singleton, List.range_succ, List.map_append,
    List.map_congr_left hfront, List.map_singleton, List.take_of_length_le (by simp),
    userGas_concat, runningGas]

/-- The last of the running totals is the gas of all. -/
theorem getLast?_runningGas (committed : List (RecoveredTx × ℕ)) :
    (runningGas committed).getLast?.getD 0 = userGas committed := by
  rcases List.eq_nil_or_concat' committed with rfl | ⟨front, entry, rfl⟩
  · rfl
  · rw [runningGas_concat, List.getLast?_concat, Option.getD_some, userGas_concat]

/-- A running total counts what the totals before it count. -/
theorem runningGas_sorted (committed : List (RecoveredTx × ℕ)) :
    (runningGas committed).Pairwise (· ≤ ·) := by
  rw [runningGas, List.pairwise_map]
  refine List.pairwise_lt_range.imp fun hlt ↦ ?_
  rw [userGas_eq_sum, userGas_eq_sum, List.map_take, List.map_take]
  exact List.monotone_sum_take _ (Nat.succ_le_succ hlt.le)

/-- The receipt records an execution of the transaction that used the gas. -/
def IsReceiptOf (revm : Revm) (entry : RecoveredTx × ℕ) (receipt : Receipt) : Prop :=
  ∃ db env precompiles result state,
    revm.transact db env precompiles entry.1 = .ok (result, state) ∧ result.gasUsed = entry.2 ∧
      receipt = buildReceipt entry.1.tx result receipt.cumulativeGasUsed

/-- **The accounts of a block** with a gas limit, after some transactions were committed. -/
structure Accounting (gasLimit : ℕ) (executor : HlBlockExecutor revm)
    (committed : List (RecoveredTx × ℕ)) : Prop where
  env_gasLimit : executor.env.gasLimit = gasLimit
  /-- What is left of the limit is computed without wrapping. -/
  gasUsed_le : executor.gasUsed ≤ gasLimit
  gasUsed_eq_userGas : executor.gasUsed = userGas committed
  /-- One receipt for each committed transaction, in order. -/
  receipts : List.Forall₂ (IsReceiptOf revm) committed executor.receipts
  /-- The receipts carry the running totals. -/
  cumulative : executor.receipts.map Receipt.cumulativeGasUsed = runningGas committed

/-- Nothing is on the accounts of a fresh executor. -/
theorem IsFresh.accounting {executor : HlBlockExecutor revm} (h : executor.IsFresh) :
    Accounting executor.env.gasLimit executor [] where
  env_gasLimit := rfl
  gasUsed_le := h.gasUsed_eq_zero ▸ Nat.zero_le _
  gasUsed_eq_userGas := h.gasUsed_eq_zero
  receipts := h.receipts_eq_nil ▸ List.Forall₂.nil
  cumulative := by rw [h.receipts_eq_nil]; rfl

namespace Accounting

variable {gasLimit : ℕ} {executor : HlBlockExecutor revm} {committed : List (RecoveredTx × ℕ)}

/-- The subtraction of the source does not wrap. -/
theorem wrappingSub_eq (h : Accounting gasLimit executor committed) :
    wrappingSub executor.env.gasLimit executor.gasUsed = gasLimit - executor.gasUsed := by
  rw [h.env_gasLimit]
  exact if_pos h.gasUsed_le

/-- Adding the gas of a transaction that fits does not wrap, and stays in the limit. -/
theorem gasUsedAfter_eq (h : Accounting gasLimit executor committed) (hlimit : gasLimit < u64Size)
    (tx : RecoveredTx) {result : ExecutionResult}
    (hle : result.gasUsed ≤ gasLimit - executor.gasUsed) :
    executor.gasUsedAfter tx result = executor.gasUsed + countedGas (tx, result.gasUsed) ∧
      executor.gasUsed + countedGas (tx, result.gasUsed) ≤ gasLimit := by
  have hroom := h.gasUsed_le
  rw [gasUsedAfter, countedGas]
  split_ifs
  · exact ⟨rfl, hroom⟩
  · have hsum : executor.gasUsed + result.gasUsed ≤ gasLimit := by omega
    exact ⟨Nat.mod_eq_of_lt (hsum.trans_lt hlimit), hsum⟩

/-- A committed transaction keeps the accounts. -/
theorem committedWith (h : Accounting gasLimit executor committed) (hlimit : gasLimit < u64Size)
    {tx : RecoveredTx} {result : ExecutionResult} {state : Address → Option revm.Account}
    (hle : result.gasUsed ≤ gasLimit - executor.gasUsed)
    (htransact : revm.transact executor.db executor.env executor.precompiles tx =
      .ok (result, state)) :
    Accounting gasLimit (executor.committedWith tx result state)
      (committed ++ [(tx, result.gasUsed)]) := by
  obtain ⟨hafter, hbound⟩ := h.gasUsedAfter_eq hlimit tx hle
  have hgas : (executor.committedWith tx result state).gasUsed =
      executor.gasUsed + countedGas (tx, result.gasUsed) := hafter
  have hreceipts : (executor.committedWith tx result state).receipts = executor.receipts ++
      [buildReceipt tx.tx result (executor.gasUsed + countedGas (tx, result.gasUsed))] := by
    rw [← hafter]
    rfl
  refine ⟨h.env_gasLimit, hgas ▸ hbound, ?_, ?_, ?_⟩
  · rw [hgas, userGas_concat, h.gasUsed_eq_userGas]
  · rw [hreceipts]
    exact List.rel_append h.receipts (.cons ⟨_, _, _, result, state, htransact, rfl, rfl⟩ .nil)
  · rw [hreceipts, List.map_append, h.cumulative, runningGas_concat, ← h.gasUsed_eq_userGas]
    rfl

/-- One call keeps the accounts. -/
theorem runCall (hbounded : revm.GasBounded) (hlimit : gasLimit < u64Size)
    {run : HlBlockExecutor revm × List (RecoveredTx × ℕ)} (h : Accounting gasLimit run.1 run.2)
    (call : Call) :
    Accounting gasLimit (HlBlockExecutor.runCall run call).1
      (HlBlockExecutor.runCall run call).2 := by
  rcases runCall_cases run call with hsame | ⟨result, state, hfits, htransact, hrun⟩
  · rw [hsame]
    exact h
  · have hle : result.gasUsed ≤ gasLimit - run.1.gasUsed := by
      have := hbounded _ _ _ _ _ _ htransact
      rw [h.wrappingSub_eq] at hfits
      exact this.trans hfits
    rw [hrun]
    exact h.committedWith hlimit hle htransact

/-- The gas of the block is the total of the last receipt. -/
theorem gasUsed_eq_last (h : Accounting gasLimit executor committed) :
    executor.gasUsed = lastCumulativeGas executor.receipts := by
  rw [h.gasUsed_eq_userGas, lastCumulativeGas, ← List.getLast?_map, h.cumulative,
    getLast?_runningGas]

/-- The total of one receipt. -/
theorem cumulativeGasUsed_eq (h : Accounting gasLimit executor committed) {i : ℕ}
    {receipt : Receipt} (hreceipt : executor.receipts[i]? = some receipt) :
    receipt.cumulativeGasUsed = userGas (committed.take (i + 1)) := by
  have hi : i < committed.length := by
    rw [h.receipts.length_eq]
    exact (List.getElem?_eq_some_iff.1 hreceipt).1
  have hmap : (executor.receipts.map Receipt.cumulativeGasUsed)[i]? =
      some receipt.cumulativeGasUsed := by
    rw [List.getElem?_map, hreceipt, Option.map_some]
  rw [h.cumulative, runningGas, List.getElem?_map, List.getElem?_range hi] at hmap
  exact (Option.some.inj hmap).symm

/-- The totals never go down. -/
theorem cumulative_sorted (h : Accounting gasLimit executor committed) :
    (executor.receipts.map Receipt.cumulativeGasUsed).Pairwise (· ≤ ·) :=
  h.cumulative ▸ runningGas_sorted committed

/-- Every sequence of calls keeps the accounts. -/
theorem runCalls (hbounded : revm.GasBounded) (hfresh : executor.IsFresh)
    (hlimit : executor.env.gasLimit < u64Size) (calls : List Call) :
    Accounting executor.env.gasLimit (executor.runCalls calls).1 (executor.runCalls calls).2 := by
  induction calls using List.reverseRecOn with
  | nil => exact hfresh.accounting
  | append_singleton calls call ih =>
    rw [HlBlockExecutor.runCalls, List.foldl_concat]
    exact ih.runCall hbounded hlimit call

end Accounting

/-- **The accounts of every run.** After any calls the gas of the block is within its limit and is
the gas of the committed user transactions and the total of the last receipt; there is one receipt
for each committed transaction, in order, with totals that never go down. A further call returns gas
exactly when its transaction fits, is executed, and has a result that is to be committed; then the
patched changes are what is committed to the database. Any other call changes neither the gas, nor
the receipts, nor the database. -/
theorem accounts_runCalls (hbounded : revm.GasBounded) (executor : HlBlockExecutor revm)
    (hfresh : executor.IsFresh) (hlimit : executor.env.gasLimit < u64Size) (calls : List Call) :
    let after := (executor.runCalls calls).1
    let committed := (executor.runCalls calls).2
    (after.gasUsed ≤ executor.env.gasLimit ∧
      wrappingSub after.env.gasLimit after.gasUsed = executor.env.gasLimit - after.gasUsed) ∧
    after.gasUsed = userGas committed ∧
    after.gasUsed = lastCumulativeGas after.receipts ∧
    List.Forall₂ (IsReceiptOf revm) committed after.receipts ∧
    after.receipts.map Receipt.cumulativeGasUsed = runningGas committed ∧
    (after.receipts.map Receipt.cumulativeGasUsed).Pairwise (· ≤ ·) ∧
    ∀ call : Call,
      let next := (after.executeInPlace call.tx call.shouldCommit).2
      (∀ gas, (after.executeInPlace call.tx call.shouldCommit).1 = .ok (some gas) ↔
        ∃ result state, after.Commits call result state ∧ result.gasUsed = gas) ∧
      (∀ result state, after.Commits call result state →
        next.db = revm.commit after.db (patchMainnetAfterTx (min after.env.number u64Max)
          after.receipts.length (isSystemTransaction call.tx.tx) state)) ∧
      ((∀ gas, (after.executeInPlace call.tx call.shouldCommit).1 ≠ .ok (some gas)) →
        next.gasUsed = after.gasUsed ∧ next.receipts = after.receipts ∧ next.db = after.db) := by
  intro after committed
  have h : Accounting executor.env.gasLimit after committed :=
    .runCalls hbounded hfresh hlimit calls
  refine ⟨⟨h.gasUsed_le, h.wrappingSub_eq⟩, h.gasUsed_eq_userGas, h.gasUsed_eq_last, h.receipts,
    h.cumulative, h.cumulative_sorted, ?_⟩
  intro call next
  refine ⟨fun gas ↦ executeInPlace_eq_some_iff, fun result state hcommits ↦ ?_, fun hnone ↦ ?_⟩
  · show (after.executeInPlace call.tx call.shouldCommit).2.db = _
    rw [hcommits.executeInPlace]
    rfl
  · have hnext : next = (after.executeInPlace call.tx call.shouldCommit).2 := rfl
    rcases after.executeInPlace_cases call.tx call.shouldCommit with
      ⟨e, hcall, -⟩ | ⟨-, hcall, -⟩ | ⟨result, state, -, -, -, hcall, -⟩
    · rw [hnext, hcall]
      exact ⟨rfl, rfl, rfl⟩
    · rw [hnext, hcall]
      exact ⟨rfl, rfl, rfl⟩
    · exact absurd (congrArg Prod.fst hcall) (hnone result.gasUsed)

/-! ### Transfers -/

/-- An interpreter of transfers: each uses 21000 gas, and is refused when it allows less. The
database counts what is committed. -/
def transferRevm : Revm where
  Db := ℕ
  Account := Unit
  CacheAccount := Unit
  TransitionAccount := Unit
  Error := Unit
  transact := fun _ _ _ tx ↦
    if tx.tx.transaction.gasLimit < 21000 then .error ()
    else .ok (⟨true, 21000, []⟩, fun _ ↦ some ())
  commit := fun db _ ↦ db + 1
  loadCacheAccount := fun db _ ↦ .ok ((), db)
  accountInfo := fun _ ↦ none
  defaultInfo := ⟨0, 0, 0, none⟩
  change := fun _ _ ↦ ()
  applyTransition := fun db _ ↦ db
  hashSlow := fun _ ↦ 0

theorem transferRevm_gasBounded : transferRevm.GasBounded := by
  intro db env precompiles tx result state h
  simp only [transferRevm] at h
  split_ifs at h with hlimit
  obtain ⟨rfl, -⟩ := Prod.mk.inj (Except.ok.inj h)
  exact not_lt.1 hlimit

/-- A fresh executor of transfers in a block with a gas limit. -/
def transferExecutor (gasLimit : ℕ) : HlBlockExecutor transferRevm where
  env :=
    { number := 1, beneficiary := 0, timestamp := 1722633600, gasLimit := gasLimit, basefee := 0
      difficulty := 0, prevrandao := none, blobExcessGasAndPrice := none }
  precompiles := fun _ ↦ none
  db := (0 : ℕ)
  gasUsed := 0
  receipts := []
  extras := ⟨none, none⟩

/-- A system and a user transaction, a transaction that is not committed and a system transaction
whose limit no longer fits. -/
def transferCalls : List Call :=
  [ ⟨exampleSystemTx, fun _ ↦ true⟩, ⟨exampleUserTx, fun _ ↦ true⟩,
    ⟨exampleNextTx, fun result ↦ !result.isSuccess⟩, ⟨exampleSystemTx, fun _ ↦ true⟩ ]

/-- The accounts after the four calls: two are committed, the gas of one is counted. -/
theorem accounts_transferCalls :
    let after := ((transferExecutor 210000).runCalls transferCalls).1
    after.gasUsed = 21000 ∧ lastCumulativeGas after.receipts = 21000 ∧
      after.receipts.map Receipt.cumulativeGasUsed = [0, 21000] ∧
      (after.receipts.map Receipt.cumulativeGasUsed).Pairwise (· ≤ ·) := by
  have hcommitted : ((transferExecutor 210000).runCalls transferCalls).2 =
      [(exampleSystemTx, 21000), (exampleUserTx, 21000)] := by
    decide +kernel
  obtain ⟨-, hgas, hlast, -, hcumulative, hsorted, -⟩ :=
    accounts_runCalls transferRevm_gasBounded (transferExecutor 210000) ⟨rfl, rfl⟩ (by decide)
      transferCalls
  rw [hcommitted] at hgas hcumulative
  exact ⟨hgas, hlast.symm.trans hgas, hcumulative, hsorted⟩

end HlBlockExecutor

end RethHl
