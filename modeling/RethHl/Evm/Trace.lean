import RethHl.Evm.Accounting
import RethHl.Evm.Replay

/-!
# Tracing the transactions of a block

To trace a transaction, the RPC replays those before it (`replayTransactionsUntil`) and then runs it
alone on the database it got (`inspect`). Every transaction is traced on its own: nothing is shared
between two traces, and nothing with the executor.

`traces_execute` says that the traces still add up to the execution of the block, at an ordinary
block, one that is neither patched nor the block of the deployment. Committing the traced changes
one after the other gives the database that the executor leaves, and **the receipts are those of the
traced results**, with the gas of the user transactions added up.

The link between the two is `Transacts`: each transaction runs on the database that the changes
before it leave.
-/

namespace RethHl

/-- What tracing a transaction gives: its result, and the changes that it would commit. -/
abbrev Trace (revm : Revm) : Type := ExecutionResult × (Address → Option revm.Account)

/-- `Trace::inspect`: run a transaction on a database, and commit nothing. -/
def inspect (revm : Revm) (blockByNumber : ℕ → Option HlBlock) (db : revm.Db) (env : BlockEnv)
    (precompiles : PrecompilesMap) (tx : RecoveredTx) :
    Except (ReplayError revm.Error) (Trace revm) :=
  if env.number < u64Size then
    match applyPrecompiles env.number (getHlExtras blockByNumber env.number) precompiles with
    | none => .error .panic
    | some precompiles =>
      match revm.transact db env precompiles tx with
      | .error e => .error (.evm e)
      | .ok trace => .ok trace
  else .error .panic

/-- No special case of the executor concerns the block. -/
def IsOrdinary (blockNumber : ℕ) (txs : List RecoveredTx) : Prop :=
  blockNumber ≠ coreWriterEnabledBlockNumber ∧
    ∀ i tx, txs[i]? = some tx → ¬ IsPatched blockNumber i (isSystemTransaction tx.tx)

/-- Commit the changes of traces, in order. -/
def commitAll (revm : Revm) (db : revm.Db) (traces : List (Trace revm)) : revm.Db :=
  traces.foldl (fun db trace ↦ revm.commit db trace.2) db

/-- The receipts of traced transactions, on from an amount of gas. -/
def receiptsOf : ℕ → List (RecoveredTx × ExecutionResult) → List Receipt
  | _, [] => []
  | gasUsed, (tx, result) :: rest =>
    let gasUsed :=
      if isSystemTransaction tx.tx then gasUsed else (gasUsed + result.gasUsed) % u64Size
    HlBlockExecutor.buildReceipt tx.tx result gasUsed :: receiptsOf gasUsed rest

/-! ### Transactions in sequence -/

section Transacts

variable (revm : Revm) (env : BlockEnv) (precompiles : PrecompilesMap)

/-- Each transaction runs on the database that the changes before it leave. -/
inductive Transacts : revm.Db → List RecoveredTx → List (Trace revm) → Prop
  | nil (db : revm.Db) : Transacts db [] []
  | cons {db : revm.Db} {tx : RecoveredTx} {txs : List RecoveredTx} {trace : Trace revm}
      {traces : List (Trace revm)} (head : revm.transact db env precompiles tx = .ok trace)
      (tail : Transacts (revm.commit db trace.2) txs traces) :
      Transacts db (tx :: txs) (trace :: traces)

variable {revm env precompiles} {db : revm.Db} {txs : List RecoveredTx}
  {traces : List (Trace revm)}

theorem Transacts.length_eq (h : Transacts revm env precompiles db txs traces) :
    traces.length = txs.length := by
  induction h with
  | nil db => rfl
  | cons _ _ ih => rw [List.length_cons, List.length_cons, ih]

/-- The trace at a position, on the database that the earlier ones leave. -/
theorem Transacts.getElem? (h : Transacts revm env precompiles db txs traces) {i : ℕ}
    {tx : RecoveredTx} (htx : txs[i]? = some tx) :
    ∃ trace, traces[i]? = some trace ∧
      revm.transact (commitAll revm db (traces.take i)) env precompiles tx = .ok trace := by
  induction h generalizing i with
  | nil db => exact nomatch htx
  | @cons db tx' txs trace traces head tail ih =>
    rcases i with - | i
    · obtain rfl := Option.some.inj htx
      exact ⟨trace, rfl, head⟩
    · exact ih htx

/-- The replay commits what comes before the target. -/
theorem Transacts.replayLoop {txHash : TransactionSigned → B256}
    (h : Transacts revm env precompiles db txs traces) {targetTxHash : B256} {i : ℕ}
    {tx : RecoveredTx} (htx : txs[i]? = some tx) (htarget : txHash tx.tx = targetTxHash)
    (hbefore : ∀ j tx', j < i → txs[j]? = some tx' → txHash tx'.tx ≠ targetTxHash) (index : ℕ) :
    replayLoop txHash revm env precompiles targetTxHash index db txs =
      .ok (index + i, commitAll revm db (traces.take i)) := by
  induction h generalizing i index with
  | nil db => exact nomatch htx
  | @cons db tx' txs trace traces head tail ih =>
    rcases i with - | i
    · obtain rfl := Option.some.inj htx
      exact if_pos htarget
    · have hne : txHash tx'.tx ≠ targetTxHash := hbefore 0 tx' (Nat.succ_pos i) rfl
      rw [RethHl.replayLoop, if_neg hne, head]
      show RethHl.replayLoop txHash revm env precompiles targetTxHash (index + 1)
        (revm.commit db trace.2) txs = _
      rw [ih htx (fun j tx'' hj htx'' ↦ hbefore (j + 1) tx'' (Nat.succ_lt_succ hj) htx'')
        (index + 1), Nat.add_assoc, Nat.add_comm 1]
      rfl

end Transacts

/-! ### What the executor commits -/

/-- Without patches, the transactions of a block run in sequence, and the executor keeps what they
change and a receipt for each. -/
theorem transacts_of_executeTransactions {revm : Revm} {executor executor' : HlBlockExecutor revm}
    {txs : List RecoveredTx} (hnumber : executor.env.number < u64Size)
    (hpatch : ∀ i tx, txs[i]? = some tx →
      ¬ IsPatched executor.env.number (executor.receipts.length + i) (isSystemTransaction tx.tx))
    (h : executor.executeTransactions txs = .ok executor') :
    ∃ traces, Transacts revm executor.env executor.precompiles executor.db txs traces ∧
      executor'.db = commitAll revm executor.db traces ∧
      executor'.receipts =
        executor.receipts ++ receiptsOf executor.gasUsed (txs.zip (traces.map Prod.fst)) := by
  induction txs generalizing executor with
  | nil =>
    obtain rfl := Except.ok.inj h
    exact ⟨[], .nil _, rfl, (List.append_nil _).symm⟩
  | cons tx txs ih =>
    obtain ⟨gas, next, hstep, hrest⟩ := HlBlockExecutor.executeTransactions_cons h
    obtain ⟨result, state, htransact, rfl⟩ := HlBlockExecutor.execute_cases hstep
    have hmin : min executor.env.number u64Max = executor.env.number :=
      Nat.min_eq_left (Nat.le_sub_one_of_lt hnumber)
    have hstate := patchMainnetAfterTx_of_not_isPatched (hpatch 0 tx rfl) state
    rw [Nat.add_zero] at hstate
    rw [hmin, hstate] at hrest
    set next : HlBlockExecutor revm := { executor with
      gasUsed := executor.gasUsedAfter tx result
      receipts := executor.receipts ++
        [HlBlockExecutor.buildReceipt tx.tx result (executor.gasUsedAfter tx result)]
      db := revm.commit executor.db state } with hnext
    have hlen : next.receipts.length = executor.receipts.length + 1 := by
      rw [hnext, List.length_append, List.length_singleton]
    obtain ⟨traces, htransacts, hdb, hreceipts⟩ :=
      ih (show next.env.number < u64Size from hnumber) (fun i tx' htx' ↦ by
        rw [hlen, Nat.add_assoc, Nat.add_comm 1 i]
        exact hpatch (i + 1) tx' htx') hrest
    refine ⟨(result, state) :: traces, .cons htransact htransacts, hdb, ?_⟩
    rw [hreceipts, hnext, List.append_assoc]
    rfl

/-- **The traces of a block add up to its execution.** At an ordinary block, every transaction is
traced, each on the database that the traced changes before it leave; the executor leaves the
database that all of them leave, and the receipts of their results. -/
theorem traces_execute {txHash : TransactionSigned → B256} {revm : Revm}
    {blockByNumber : ℕ → Option HlBlock} {block : HlBlock} {db : revm.Db} {env : BlockEnv}
    {precompiles : PrecompilesMap} {txs : List RecoveredTx} {executor : HlBlockExecutor revm}
    (hnumber : block.header.number < u64Size)
    (hblock : blockByNumber block.header.number = some block)
    (henv : env.number = block.header.number)
    (hdistinct : (txs.map fun tx ↦ txHash tx.tx).Nodup)
    (hordinary : IsOrdinary block.header.number txs)
    (hrun : executeBlock revm db env precompiles
      { readPrecompileCalls := block.body.readPrecompileCalls
        highestPrecompileAddress := block.body.highestPrecompileAddress } txs = .ok executor) :
    ∃ traces : List (Trace revm), traces.length = txs.length ∧
      (∀ i tx, txs[i]? = some tx → ∃ trace before, traces[i]? = some trace ∧
        before = commitAll revm db (traces.take i) ∧
        replayTransactionsUntil txHash revm blockByNumber db env precompiles txs
          (txHash tx.tx) = .ok (i, before) ∧
        inspect revm blockByNumber before env precompiles tx = .ok trace) ∧
      executor.db = commitAll revm db traces ∧
      executor.receipts = receiptsOf 0 (txs.zip (traces.map Prod.fst)) := by
  have hextras : getHlExtras blockByNumber env.number =
      { readPrecompileCalls := block.body.readPrecompileCalls
        highestPrecompileAddress := block.body.highestPrecompileAddress } := by
    rw [getHlExtras, henv, hblock]
  rw [← henv] at hordinary hnumber
  obtain ⟨precompiles', hpre, -, hrun⟩ := executeBlock_cases hordinary.1 hrun
  obtain ⟨traces, htransacts, hdb, hreceipts⟩ :=
    transacts_of_executeTransactions (by exact hnumber) (fun i tx htx ↦ by
      rw [List.length_nil, Nat.zero_add]
      exact hordinary.2 i tx htx) hrun
  refine ⟨traces, htransacts.length_eq, fun i tx htx ↦ ?_, hdb, hreceipts⟩
  obtain ⟨trace, htrace, htransact⟩ := htransacts.getElem? htx
  refine ⟨trace, _, htrace, rfl, ?_, ?_⟩
  · -- no transaction before this one has its hash
    have hbefore : ∀ j tx', j < i → txs[j]? = some tx' → txHash tx'.tx ≠ txHash tx.tx := by
      intro j tx' hj htx' heq
      have hi : (txs.map fun tx ↦ txHash tx.tx)[i]? = some (txHash tx.tx) := by
        rw [List.getElem?_map, htx, Option.map_some]
      have hj' : (txs.map fun tx ↦ txHash tx.tx)[j]? = some (txHash tx.tx) := by
        rw [List.getElem?_map, htx', Option.map_some, heq]
      have hlt : i < (txs.map fun tx ↦ txHash tx.tx).length :=
        (List.getElem?_eq_some_iff.1 hi).1
      exact absurd ((List.getElem?_inj (hj.trans hlt) hdistinct).1 (hj'.trans hi.symm)) hj.ne
    rw [replayTransactionsUntil, if_pos hnumber, hextras, hpre]
    refine (htransacts.replayLoop htx rfl hbefore 0).trans ?_
    rw [Nat.zero_add]
  · rw [inspect, if_pos hnumber, hextras, hpre]
    show (match revm.transact (commitAll revm db (traces.take i)) env precompiles' tx with
      | .error e => _
      | .ok trace => _) = _
    rw [htransact]

/-- A system transaction and two transfers. -/
def exampleTransfers : List RecoveredTx := [exampleSystemTx, exampleUserTx, exampleNextTx]

/-- A provider that knows the block of these transactions. -/
def exampleBlockByNumber (_ : ℕ) : Option HlBlock := some (exampleHlBlock 1 exampleTransfers)

/-- The last of the three is traced on what the two before it leave. -/
theorem traces_exampleTransfers :
    ∃ executor before trace,
      executeBlock HlBlockExecutor.transferRevm (0 : ℕ)
          (HlBlockExecutor.transferExecutor 250000).env (fun _ ↦ none) ⟨some [], none⟩
          exampleTransfers = .ok executor ∧
        replayTransactionsUntil exampleTxHash HlBlockExecutor.transferRevm exampleBlockByNumber
          (0 : ℕ) (HlBlockExecutor.transferExecutor 250000).env (fun _ ↦ none) exampleTransfers
          (exampleTxHash exampleNextTx.tx) = .ok (2, before) ∧
        inspect HlBlockExecutor.transferRevm exampleBlockByNumber before
          (HlBlockExecutor.transferExecutor 250000).env (fun _ ↦ none) exampleNextTx =
            .ok trace ∧
        executor.receipts.length = 3 := by
  obtain ⟨executor, hrun⟩ : ∃ executor, executeBlock HlBlockExecutor.transferRevm (0 : ℕ)
      (HlBlockExecutor.transferExecutor 250000).env (fun _ ↦ none) ⟨some [], none⟩
      exampleTransfers = .ok executor :=
    ⟨_, rfl⟩
  have hordinary : IsOrdinary 1 exampleTransfers := by
    refine ⟨by decide, fun i tx _ ⟨patch, hpatch, hone, _⟩ ↦ ?_⟩
    have hall : ∀ patch ∈ mainnetPatchesAfterTx, 1 ≠ patch.1 := by decide
    exact hall patch hpatch hone
  have hblock : exampleBlockByNumber (exampleHlBlock 1 exampleTransfers).header.number =
      some (exampleHlBlock 1 exampleTransfers) := rfl
  have hdistinct : (exampleTransfers.map fun tx ↦ exampleTxHash tx.tx).Nodup := by decide
  obtain ⟨traces, hlength, htraces, -, hreceipts⟩ :=
    traces_execute (by decide) hblock rfl hdistinct hordinary hrun
  obtain ⟨trace, before, -, -, hreplay, hinspect⟩ := htraces 2 exampleNextTx rfl
  refine ⟨executor, before, trace, hrun, hreplay, hinspect, ?_⟩
  rw [hreceipts]
  rcases traces with - | ⟨a, - | ⟨b, - | ⟨c, - | ⟨d, rest⟩⟩⟩⟩
  · exact nomatch hlength
  · exact nomatch hlength
  · exact nomatch hlength
  · rfl
  · exact nomatch hlength

end RethHl
