import Mathlib.Algebra.Order.BigOperators.Group.List
import Mathlib.Algebra.Order.Group.Nat
import RethHl.Evm.Executor

/-!
# Replaying the transactions of a block

To trace a transaction, the RPC replays the transactions before it on a database. The replay is a
loop of its own: it prepares the precompile table and commits each transaction, but it **neither
patches the changes of a transaction nor deploys the CoreWriter contract**.

`replayAgrees_iff` says when the replay still leaves the database that the execution of the block
leaves: at every block except the one of the deployment, unless a transaction before the target
**changes the account that a patch takes out of its changes**. The two ways to prepare the
precompile table, once here and twice in the executor, make no difference (`applyPrecompiles_idem`).

What a transaction changes is for the interpreter to say, so the accounts that the transactions
change are part of the input (`Changes`).
-/

namespace RethHl

/-- Why a replay fails. -/
inductive ReplayError (E : Type) where
  | evm (error : E)
  | panic
  deriving DecidableEq, Repr

/-- The extras of a block that the provider finds by number, or none. -/
def getHlExtras (blockByNumber : ℕ → Option HlBlock) (blockNumber : ℕ) : HlExtras :=
  match blockByNumber blockNumber with
  | some block =>
    { readPrecompileCalls := block.body.readPrecompileCalls
      highestPrecompileAddress := block.body.highestPrecompileAddress }
  | none => { readPrecompileCalls := none, highestPrecompileAddress := none }

section Replay

variable (txHash : TransactionSigned → B256) (revm : Revm)

/-- The loop of the replay: the number of transactions committed, and the database. -/
def replayLoop (env : BlockEnv) (precompiles : PrecompilesMap) (targetTxHash : B256) :
    ℕ → revm.Db → List RecoveredTx → Except (ReplayError revm.Error) (ℕ × revm.Db)
  | index, db, [] => .ok (index, db)
  | index, db, tx :: txs =>
    if txHash tx.tx = targetTxHash then .ok (index, db)
    else
      match revm.transact db env precompiles tx with
      | .error e => .error (.evm e)
      | .ok (_, state) =>
        replayLoop env precompiles targetTxHash (index + 1) (revm.commit db state) txs

/-- Replay the transactions of a block up to a target. -/
def replayTransactionsUntil (blockByNumber : ℕ → Option HlBlock) (db : revm.Db) (env : BlockEnv)
    (precompiles : PrecompilesMap) (transactions : List RecoveredTx) (targetTxHash : B256) :
    Except (ReplayError revm.Error) (ℕ × revm.Db) :=
  if env.number < u64Size then
    match applyPrecompiles env.number (getHlExtras blockByNumber env.number) precompiles with
    | none => .error .panic
    | some precompiles => replayLoop txHash revm env precompiles targetTxHash 0 db transactions
  else .error .panic

/-- The transactions before the target. -/
def preceding (targetTxHash : B256) (transactions : List RecoveredTx) : List RecoveredTx :=
  transactions.takeWhile fun tx ↦ txHash tx.tx ≠ targetTxHash

/-- The changes that transactions make, as the interpreter hands them to the executor: before a
patch takes an account out of them. -/
def HlBlockExecutor.changeSets {revm : Revm} (executor : HlBlockExecutor revm) :
    List RecoveredTx → List (Address → Option revm.Account)
  | [] => []
  | tx :: txs =>
    match revm.transact executor.db executor.env executor.precompiles tx,
      executor.executeTransactionWithCommitCondition tx fun _ ↦ true with
    | .ok (_, state), .ok (_, next) => state :: next.changeSets txs
    | _, _ => []

/-- The changes that the transactions of a block make. -/
def blockChangeSets (db : revm.Db) (env : BlockEnv) (precompiles : PrecompilesMap)
    (extras : HlExtras) (transactions : List RecoveredTx) :
    List (Address → Option revm.Account) :=
  match HlBlockExecutor.new db env precompiles extras >>=
    HlBlockExecutor.applyPreExecutionChanges with
  | .ok executor => executor.changeSets transactions
  | .error _ => []

/-- The accounts that each transaction changes. -/
def Changes {Account : Type} (changeSets : List (Address → Option Account))
    (changed : ℕ → List Address) : Prop :=
  ∀ i state, changeSets[i]? = some state →
    ∀ address, (state address).isSome ↔ address ∈ changed i

/-- The extras of a block. -/
def HlBlock.extras (block : HlBlock) : HlExtras where
  readPrecompileCalls := block.body.readPrecompileCalls
  highestPrecompileAddress := block.body.highestPrecompileAddress

/-- The replay agrees with the execution of a block whose transactions before the target change
these accounts: whatever the interpreter and the database make of it, when the executor commits the
transactions before the target, the replay stops there with the same database. -/
def ReplayAgrees (block : HlBlock) (transactions : List RecoveredTx) (targetTxHash : B256)
    (changed : ℕ → List Address) : Prop :=
  ∀ (revm : Revm) (blockByNumber : ℕ → Option HlBlock) (db : revm.Db) (env : BlockEnv)
    (precompiles : PrecompilesMap) (executor : HlBlockExecutor revm),
    blockByNumber block.header.number = some block → env.number = block.header.number →
    executeBlock revm db env precompiles block.extras
        (preceding txHash targetTxHash transactions) = .ok executor →
    Changes (blockChangeSets revm db env precompiles block.extras
      (preceding txHash targetTxHash transactions)) changed →
      replayTransactionsUntil txHash revm blockByNumber db env precompiles transactions
          targetTxHash =
        .ok ((preceding txHash targetTxHash transactions).length, executor.db)

/-- No special case of the executor concerns the block up to the target: nothing is deployed, and no
transaction changes the account of its patch. -/
def NoSpecialCase (blockNumber : ℕ) (transactions : List RecoveredTx) (targetTxHash : B256)
    (changed : ℕ → List Address) : Prop :=
  blockNumber ≠ coreWriterEnabledBlockNumber ∧
    ∀ i tx, (preceding txHash targetTxHash transactions)[i]? = some tx →
      ∀ patch ∈ mainnetPatchesAfterTx,
        blockNumber = patch.1 ∧ i = patch.2.1 ∧ isSystemTransaction tx.tx = patch.2.2.1 →
          patch.2.2.2 ∉ changed i

end Replay

/-! ### The replay follows the executor -/

section Follows

variable {txHash : TransactionSigned → B256} {revm : Revm}

/-- Nothing precedes the target at the head. -/
theorem preceding_of_eq {targetTxHash : B256} {tx : RecoveredTx} (h : txHash tx.tx = targetTxHash)
    (transactions : List RecoveredTx) :
    preceding txHash targetTxHash (tx :: transactions) = [] := by
  simp [preceding, h]

theorem preceding_of_ne {targetTxHash : B256} {tx : RecoveredTx} (h : txHash tx.tx ≠ targetTxHash)
    (transactions : List RecoveredTx) :
    preceding txHash targetTxHash (tx :: transactions) =
      tx :: preceding txHash targetTxHash transactions := by
  simp [preceding, h]

/-- The changes of the first transaction, and of those after it. -/
theorem changeSets_cons {executor next : HlBlockExecutor revm} {tx : RecoveredTx} {gas : Option ℕ}
    {result : ExecutionResult} {state : Address → Option revm.Account}
    (htransact : revm.transact executor.db executor.env executor.precompiles tx =
      .ok (result, state))
    (hstep : executor.executeTransactionWithCommitCondition tx (fun _ ↦ true) = .ok (gas, next))
    (txs : List RecoveredTx) :
    executor.changeSets (tx :: txs) = state :: next.changeSets txs := by
  rw [HlBlockExecutor.changeSets, htransact, hstep]

/-- Where no patch takes anything out, the loop commits what the executor commits. -/
theorem replayLoop_eq {targetTxHash : B256} {executor executor' : HlBlockExecutor revm}
    {transactions : List RecoveredTx} (hnumber : executor.env.number < u64Size)
    (hpatch : ∀ i tx state, (preceding txHash targetTxHash transactions)[i]? = some tx →
      (executor.changeSets (preceding txHash targetTxHash transactions))[i]? = some state →
        patchMainnetAfterTx executor.env.number (executor.receipts.length + i)
          (isSystemTransaction tx.tx) state = state)
    (h : executor.executeTransactions (preceding txHash targetTxHash transactions) =
      .ok executor') (index : ℕ) :
    replayLoop txHash revm executor.env executor.precompiles targetTxHash index executor.db
        transactions =
      .ok (index + (preceding txHash targetTxHash transactions).length, executor'.db) := by
  induction transactions generalizing executor index with
  | nil =>
    obtain rfl := Except.ok.inj h
    rfl
  | cons tx transactions ih =>
    by_cases htarget : txHash tx.tx = targetTxHash
    · rw [preceding_of_eq htarget] at h ⊢
      obtain rfl := Except.ok.inj h
      rw [replayLoop, if_pos htarget]
      rfl
    · rw [preceding_of_ne htarget] at h hpatch ⊢
      obtain ⟨gas, next, hstep, hrest⟩ := HlBlockExecutor.executeTransactions_cons h
      obtain ⟨result, state, htransact, hnext⟩ := HlBlockExecutor.execute_cases hstep
      have hmin : min executor.env.number u64Max = executor.env.number :=
        Nat.min_eq_left (Nat.le_sub_one_of_lt hnumber)
      have hsets := changeSets_cons htransact hstep (preceding txHash targetTxHash transactions)
      rw [hsets] at hpatch
      -- the executor commits the very changes that the replay commits
      have hstate := hpatch 0 tx state rfl rfl
      rw [Nat.add_zero] at hstate
      rw [hmin, hstate] at hnext
      subst hnext
      rw [replayLoop, if_neg htarget, htransact]
      set next : HlBlockExecutor revm := { executor with
        gasUsed := executor.gasUsedAfter tx result
        receipts := executor.receipts ++
          [HlBlockExecutor.buildReceipt tx.tx result (executor.gasUsedAfter tx result)]
        db := revm.commit executor.db state } with hnext
      have hlen : next.receipts.length = executor.receipts.length + 1 := by
        rw [hnext, List.length_append, List.length_singleton]
      have hloop := ih (show next.env.number < u64Size from hnumber)
        (fun i tx' state' htx' hstate' ↦ by
          rw [hlen, Nat.add_assoc, Nat.add_comm 1 i]
          exact hpatch (i + 1) tx' state' htx' hstate') hrest (index + 1)
      rw [List.length_cons, ← Nat.add_assoc, Nat.add_right_comm]
      exact hloop

/-- What the executor starts its transactions with, at an ordinary block. -/
theorem executeBlock_cases {db : revm.Db} {env : BlockEnv} {precompiles : PrecompilesMap}
    {extras : HlExtras} {transactions : List RecoveredTx} {executor : HlBlockExecutor revm}
    (hnumber : env.number ≠ coreWriterEnabledBlockNumber)
    (h : executeBlock revm db env precompiles extras transactions = .ok executor) :
    ∃ precompiles', applyPrecompiles env.number extras precompiles = some precompiles' ∧
      HlBlockExecutor.new db env precompiles extras >>=
        HlBlockExecutor.applyPreExecutionChanges =
          .ok (⟨env, precompiles', db, 0, [], extras⟩ : HlBlockExecutor revm) ∧
      (⟨env, precompiles', db, 0, [], extras⟩ : HlBlockExecutor revm).executeTransactions
        transactions = .ok executor := by
  rcases hpre : applyPrecompiles env.number extras precompiles with - | precompiles'
  · rw [executeBlock, HlBlockExecutor.new, HlBlockExecutor.setPrecompiles, hpre] at h
    cases h
  · -- the second preparation changes nothing
    have hagain := applyPrecompiles_idem hpre
    have hready : HlBlockExecutor.new db env precompiles extras >>=
        HlBlockExecutor.applyPreExecutionChanges =
          .ok (⟨env, precompiles', db, 0, [], extras⟩ : HlBlockExecutor revm) := by
      simp only [HlBlockExecutor.new, HlBlockExecutor.setPrecompiles, hpre,
        HlBlockExecutor.applyPreExecutionChanges, HlBlockExecutor.deployCoreWriterContract,
        hagain, if_pos hnumber, bind, Except.bind]
    refine ⟨precompiles', rfl, hready, ?_⟩
    obtain ⟨start, hnew, h⟩ := exists_of_bind_eq_ok h
    obtain ⟨ready, hpre, h⟩ := exists_of_bind_eq_ok h
    rw [hnew] at hready
    obtain rfl := Except.ok.inj (hpre.symm.trans hready)
    exact h

end Follows

/-! ### An interpreter that tells the two apart -/

/-- A history of writes: the changes of each commit, and a mark for each transition. -/
abbrev History := List (Option (Address → Option Unit))

/-- The number of commits of a history. -/
def History.commits (history : History) : ℕ := history.countP Option.isSome

/-- Changes of these accounts. -/
def changesOf (accounts : List Address) (address : Address) : Option Unit :=
  if address ∈ accounts then some () else none

/-- An interpreter whose database is the history of what was written to it. Each transaction changes
the given accounts. -/
abbrev historyRevm (changed : ℕ → List Address) : Revm where
  Db := History
  Account := Unit
  CacheAccount := Unit
  TransitionAccount := Unit
  Error := Empty
  transact := fun (db : History) _ _ _ ↦ .ok (⟨true, 0, []⟩, changesOf (changed db.commits))
  commit := fun (db : History) changes ↦ db ++ [some changes]
  loadCacheAccount := fun db _ ↦ .ok ((), db)
  accountInfo := fun _ ↦ none
  defaultInfo := ⟨0, 0, 0, none⟩
  change := fun _ _ ↦ ()
  applyTransition := fun (db : History) _ ↦ db ++ [none]
  hashSlow := fun _ ↦ 0

theorem History.commits_append_some (history : History) (changes : Address → Option Unit) :
    History.commits (history ++ [some changes]) = history.commits + 1 := by
  rw [commits, List.countP_append]
  rfl

section History

variable {changed : ℕ → List Address}

/-- The history that the executor writes, and the changes that it was handed. -/
theorem executeTransactions_history {executor : HlBlockExecutor (historyRevm changed)}
    {transactions : List RecoveredTx} (hgas : executor.gasUsed = 0)
    (hlimit : ∀ tx ∈ transactions, tx.tx.transaction.gasLimit ≤ executor.env.gasLimit) :
    ∃ executor', executor.executeTransactions transactions = .ok executor' ∧
      (executor'.db : History) = executor.db ++ transactions.mapIdx (fun i tx ↦
        some (patchMainnetAfterTx (min executor.env.number u64Max) (executor.receipts.length + i)
          (isSystemTransaction tx.tx)
          (changesOf (changed (History.commits executor.db + i))))) ∧
      executor.changeSets transactions = transactions.mapIdx fun i _ ↦
        changesOf (changed (History.commits executor.db + i)) := by
  induction transactions generalizing executor with
  | nil => exact ⟨executor, rfl, (List.append_nil _).symm, rfl⟩
  | cons tx transactions ih =>
    -- no gas is ever used here, so every transaction fits
    have havailable : ¬ tx.tx.transaction.gasLimit >
        wrappingSub executor.env.gasLimit executor.gasUsed := by
      rw [hgas, wrappingSub, if_pos (Nat.zero_le _), Nat.sub_zero]
      exact Nat.not_lt.2 (hlimit tx List.mem_cons_self)
    set committed := patchMainnetAfterTx (min executor.env.number u64Max)
      executor.receipts.length (isSystemTransaction tx.tx)
      (changesOf (changed (History.commits executor.db))) with hcommitted
    set next : HlBlockExecutor (historyRevm changed) := { executor with
      gasUsed := executor.gasUsedAfter tx ⟨true, 0, []⟩
      receipts := executor.receipts ++
        [HlBlockExecutor.buildReceipt tx.tx ⟨true, 0, []⟩
          (executor.gasUsedAfter tx ⟨true, 0, []⟩)]
      db := executor.db ++ [some committed] } with hnext
    have hstep : executor.executeTransactionWithCommitCondition tx (fun _ ↦ true) =
        .ok (some 0, next) := by
      unfold HlBlockExecutor.executeTransactionWithCommitCondition
      simp only
      rw [if_neg havailable]
      rfl
    have hzero : next.gasUsed = 0 := by
      show executor.gasUsedAfter tx ⟨true, 0, []⟩ = 0
      unfold HlBlockExecutor.gasUsedAfter
      rw [hgas]
      split_ifs <;> rfl
    have hlen : next.receipts.length = executor.receipts.length + 1 := by
      rw [hnext, List.length_append, List.length_singleton]
    have hcommits : History.commits next.db = History.commits executor.db + 1 :=
      History.commits_append_some _ _
    obtain ⟨executor', hrun, hdb, hsets⟩ :=
      ih hzero fun tx' htx' ↦ hlimit tx' (List.mem_cons_of_mem _ htx')
    refine ⟨executor', ?_, ?_, ?_⟩
    · rw [HlBlockExecutor.executeTransactions, hstep]
      exact hrun
    · rw [hdb, hlen, hcommits, List.mapIdx_cons]
      show (executor.db ++ [some committed]) ++ _ = _
      rw [List.append_assoc, List.singleton_append]
      simp only [Nat.add_zero, Nat.add_assoc, Nat.add_comm 1]
      rfl
    · rw [changeSets_cons rfl hstep, hsets, hcommits, List.mapIdx_cons]
      simp only [Nat.add_zero, Nat.add_assoc, Nat.add_comm 1]

/-- The history that the replay writes. -/
theorem replayLoop_history (txHash : TransactionSigned → B256) (env : BlockEnv)
    (precompiles : PrecompilesMap) (targetTxHash : B256) (index : ℕ) (db : History)
    (transactions : List RecoveredTx) :
    replayLoop txHash (historyRevm changed) env precompiles targetTxHash index db transactions =
      .ok (index + (preceding txHash targetTxHash transactions).length,
        db ++ (preceding txHash targetTxHash transactions).mapIdx fun i _ ↦
          some (changesOf (changed (db.commits + i)))) := by
  induction transactions generalizing index db with
  | nil => exact congrArg (fun l ↦ Except.ok (index, l)) (List.append_nil db).symm
  | cons tx transactions ih =>
    by_cases htarget : txHash tx.tx = targetTxHash
    · rw [replayLoop, if_pos htarget, preceding_of_eq htarget, List.mapIdx_nil, List.append_nil]
      rfl
    · rw [replayLoop, if_neg htarget, preceding_of_ne htarget, List.length_cons, List.mapIdx_cons]
      refine (ih (index + 1) _).trans ?_
      rw [History.commits_append_some, Nat.add_assoc index, Nat.add_comm 1]
      simp only [Nat.add_zero, Nat.add_assoc, Nat.add_comm 1, List.append_assoc,
        List.singleton_append]

/-- The executor runs on a block of the past, whatever was recorded with it. -/
theorem executeBlock_history {env : BlockEnv} {extras : HlExtras}
    {transactions : List RecoveredTx} (hnumber : env.number < warmPrecompilesBlockNumber)
    (hlimit : ∀ tx ∈ transactions, tx.tx.transaction.gasLimit ≤ env.gasLimit) :
    ∃ executor, executeBlock (historyRevm changed) [] env (fun _ ↦ none) extras transactions =
        .ok executor ∧
      (executor.db : History) =
        (if env.number = coreWriterEnabledBlockNumber then [none] else []) ++
          transactions.mapIdx (fun i tx ↦
            some (patchMainnetAfterTx (min env.number u64Max) i (isSystemTransaction tx.tx)
              (changesOf (changed i)))) ∧
      Changes (blockChangeSets (historyRevm changed) [] env (fun _ ↦ none) extras transactions)
        changed := by
  obtain ⟨precompiles, hpre⟩ : ∃ precompiles,
      applyPrecompiles env.number extras (fun _ ↦ none) = some precompiles :=
    ⟨_, if_neg (Nat.not_le.2 hnumber)⟩
  -- the precompiles are applied when the executor is made, and again before the transactions
  have hagain := applyPrecompiles_idem hpre
  set db : History := if env.number = coreWriterEnabledBlockNumber then [none] else [] with hdb₀
  set start : HlBlockExecutor (historyRevm changed) :=
    ⟨env, precompiles, db, 0, [], extras⟩ with hstart
  have hready : HlBlockExecutor.new ([] : History) env (fun _ ↦ none) extras >>=
      HlBlockExecutor.applyPreExecutionChanges = .ok start := by
    simp only [HlBlockExecutor.new, HlBlockExecutor.setPrecompiles, hpre,
      HlBlockExecutor.applyPreExecutionChanges, HlBlockExecutor.deployCoreWriterContract, hagain,
      bind, Except.bind]
    by_cases hcore : env.number = coreWriterEnabledBlockNumber
    · rw [if_neg (not_not.2 hcore), hstart, hdb₀, if_pos hcore]
      rfl
    · rw [if_pos hcore, hstart, hdb₀, if_neg hcore]
  have hcommits : db.commits = 0 := by
    rw [hdb₀]
    split_ifs <;> rfl
  obtain ⟨executor, hrun, hdb, hsets⟩ :=
    executeTransactions_history (show start.gasUsed = 0 from rfl)
      (show ∀ tx ∈ transactions, tx.tx.transaction.gasLimit ≤ start.env.gasLimit from hlimit)
  simp only [hstart, hcommits, List.length_nil, Nat.zero_add] at hdb hsets
  refine ⟨executor, ?_, hdb, ?_⟩
  · obtain ⟨first, hnew, hpre⟩ := exists_of_bind_eq_ok hready
    rw [executeBlock, hnew]
    show (first.applyPreExecutionChanges >>= fun executor ↦ _) = _
    rw [hpre]
    exact hrun
  · rw [blockChangeSets, hready]
    show Changes (start.changeSets transactions) changed
    rw [hsets]
    intro i state hstate address
    rw [List.getElem?_mapIdx] at hstate
    obtain ⟨tx, -, rfl⟩ := Option.map_eq_some_iff.1 hstate
    rw [changesOf]
    split_ifs with hmem
    · exact iff_of_true rfl hmem
    · exact iff_of_false Bool.false_ne_true hmem

end History

/-- A block with a patch precedes the block from which on all precompiles are filled. -/
theorem number_lt_of_mem_patches {patch : ℕ × ℕ × Bool × Address}
    (hpatch : patch ∈ mainnetPatchesAfterTx) : patch.1 < warmPrecompilesBlockNumber := by
  have hall : ∀ patch ∈ mainnetPatchesAfterTx, patch.1 < warmPrecompilesBlockNumber := by decide
  exact hall patch hpatch

/-- Agreement, on the history, of a block of the past: there is no special case. -/
theorem noSpecialCase_of_replayAgrees {txHash : TransactionSigned → B256} {block : HlBlock}
    {transactions : List RecoveredTx} {targetTxHash : B256} {changed : ℕ → List Address}
    (hold : block.header.number < warmPrecompilesBlockNumber)
    (h : ReplayAgrees txHash block transactions targetTxHash changed) :
    NoSpecialCase txHash block.header.number transactions targetTxHash changed := by
  set before := preceding txHash targetTxHash transactions with hbefore
  -- a block environment with room for all transactions
  set env : BlockEnv :=
    { number := block.header.number, beneficiary := 0, timestamp := 0
      gasLimit := (before.map fun tx ↦ tx.tx.transaction.gasLimit).sum, basefee := 0
      difficulty := 0, prevrandao := none, blobExcessGasAndPrice := none } with henv
  have hlimit : ∀ tx ∈ before, tx.tx.transaction.gasLimit ≤ env.gasLimit := fun tx htx ↦
    List.le_sum_of_mem (List.mem_map_of_mem htx)
  obtain ⟨executor, hrun, hdb, hchanges⟩ :=
    @executeBlock_history changed env block.extras before (show env.number < _ from hold) hlimit
  have hreplay := h (historyRevm changed) (fun _ ↦ some block) [] env (fun _ ↦ none) executor rfl
    rfl hrun hchanges
  have hnumber : env.number < u64Size := Nat.lt_trans hold (by decide)
  obtain ⟨precompiles, hpre⟩ : ∃ precompiles, applyPrecompiles env.number
      (getHlExtras (fun _ ↦ some block) env.number) (fun _ ↦ none) = some precompiles :=
    ⟨_, if_neg (Nat.not_le.2 hold)⟩
  rw [replayTransactionsUntil, if_pos hnumber, hpre] at hreplay
  have hhistory :=
    @replayLoop_history changed txHash env precompiles targetTxHash 0 [] transactions
  have heq : (executor.db : History) = before.mapIdx fun i _ ↦ some (changesOf (changed i)) := by
    have hdb := (Prod.mk.inj (Except.ok.inj (hreplay.symm.trans hhistory))).2
    simpa only [History.commits, List.countP_nil, Nat.zero_add, List.nil_append] using hdb
  rw [hdb] at heq
  have hcore : env.number ≠ coreWriterEnabledBlockNumber := by
    intro hcore
    have hlen := congrArg List.length heq
    rw [if_pos hcore] at hlen
    simp at hlen
  refine ⟨hcore, fun i tx htx patch hpatch hmatch hmem ↦ ?_⟩
  rw [← hbefore] at htx
  rw [if_neg hcore, List.nil_append] at heq
  have hget := congrArg (fun l ↦ l[i]?) heq
  have hmin : min env.number u64Max = block.header.number :=
    Nat.min_eq_left (Nat.le_sub_one_of_lt hnumber)
  simp only [List.getElem?_mapIdx, htx, Option.map_some, hmin] at hget
  -- the replay keeps the account that the executor takes out
  have happly := congrFun (Option.some.inj (Option.some.inj hget)) patch.2.2.2
  rw [patchMainnetAfterTx_eq_none hpatch hmatch, changesOf, if_pos hmem] at happly
  cases happly

/-- **When replaying agrees with executing.** -/
theorem replayAgrees_iff {txHash : TransactionSigned → B256} {block : HlBlock}
    {transactions : List RecoveredTx} {targetTxHash : B256} {changed : ℕ → List Address}
    (hnumber : block.header.number < u64Size) :
    ReplayAgrees txHash block transactions targetTxHash changed ↔
      NoSpecialCase txHash block.header.number transactions targetTxHash changed := by
  constructor
  · intro h
    rcases Nat.lt_or_ge block.header.number warmPrecompilesBlockNumber with hold | hnew
    · exact noSpecialCase_of_replayAgrees hold h
    · refine ⟨fun hcore ↦ absurd (hcore ▸ hnew) (by decide), fun i tx _ patch hpatch hmatch _ ↦ ?_⟩
      rw [hmatch.1] at hnew
      exact absurd (number_lt_of_mem_patches hpatch) (Nat.not_lt.2 hnew)
  · rintro ⟨hcore, hpatch⟩ revm blockByNumber db env precompiles executor hblock henv hrun hchanges
    rw [← henv] at hcore
    obtain ⟨precompiles', hpre, hready, hrun⟩ := executeBlock_cases hcore hrun
    have hextras : getHlExtras blockByNumber env.number = block.extras := by
      rw [getHlExtras, henv, hblock]
      rfl
    rw [blockChangeSets, hready] at hchanges
    rw [replayTransactionsUntil, if_pos (henv ▸ hnumber), hextras, hpre]
    refine (replayLoop_eq (henv ▸ hnumber) (fun i tx state htx hstate ↦ ?_) hrun 0).trans ?_
    · -- no transaction changes the account of its patch
      refine patchMainnetAfterTx_of_none fun patch hmem hmatch ↦ ?_
      rw [List.length_nil, Nat.zero_add, henv] at hmatch
      have hnot := hpatch i tx htx patch hmem hmatch
      rw [← hchanges i state hstate patch.2.2.2] at hnot
      exact Option.not_isSome_iff_eq_none.1 hnot
    · rw [Nat.zero_add]

/-- An HL block with a number and transactions. -/
def exampleHlBlock (number : ℕ) (transactions : List RecoveredTx) : HlBlock where
  header := .zero number
  body :=
    { inner :=
        { transactions := transactions.map RecoveredTx.tx, ommers := [], withdrawals := none }
      sidecars := none
      readPrecompileCalls := some []
      highestPrecompileAddress := none }

/-- The accounts that a transfer changes: the sender and the recipient. -/
def transferChanges (sender recipient : Address) (_ : ℕ) : List Address := [sender, recipient]

/-- Two plain transfers at a patched block: neither changes the account of the patch. -/
theorem replayAgrees_at_patched_block :
    ReplayAgrees exampleTxHash (exampleHlBlock 1467569 [exampleUserTx, exampleNextTx])
      [exampleUserTx, exampleNextTx] (exampleTxHash exampleNextTx.tx)
      (transferChanges exampleUserTx.signer 0x1111111111111111111111111111111111111111) := by
  refine (replayAgrees_iff (by decide)).2 ⟨by decide, ?_⟩
  intro i tx _ patch hpatch _
  have hall : ∀ patch ∈ mainnetPatchesAfterTx, patch.2.2.2 ∉
      transferChanges exampleUserTx.signer 0x1111111111111111111111111111111111111111 0 := by
    decide
  exact hall patch hpatch

/-- A transfer to the account of the first patch. -/
def examplePatchedTx : RecoveredTx where
  signer := 0x3333333333333333333333333333333333333333
  tx :=
    { signature := { r := 1, s := 4, oddYParity := false }
      transaction := .legacy
        { chainId := some 999, nonce := 0, gasPrice := 1, gasLimit := 21000
          dest := .call 0x33f6fe38c55cb100ce27b3138e5d2d041648364f, value := 1, input := [] } }

/-- **The replay misses the deployment**: at the block of the CoreWriter contract it starts from a
database without it. And it **misses a patch**: behind a transfer to a patched account it keeps the
change of the account that the execution took out. -/
theorem not_replayAgrees_at_special_blocks :
    ¬ ReplayAgrees exampleTxHash (exampleHlBlock 7578300 [exampleSystemTx, exampleUserTx])
        [exampleSystemTx, exampleUserTx] (exampleTxHash exampleUserTx.tx)
        (transferChanges exampleSystemTx.signer 0x1111111111111111111111111111111111111111) ∧
      ¬ ReplayAgrees exampleTxHash (exampleHlBlock 1467569 [examplePatchedTx, exampleNextTx])
        [examplePatchedTx, exampleNextTx] (exampleTxHash exampleNextTx.tx)
        (transferChanges examplePatchedTx.signer 0x33f6fe38c55cb100ce27b3138e5d2d041648364f) := by
  refine ⟨fun h ↦ ?_, fun h ↦ ?_⟩
  · exact (noSpecialCase_of_replayAgrees (by decide) h).1 rfl
  · exact (noSpecialCase_of_replayAgrees (by decide) h).2 0 examplePatchedTx rfl
      (1467569, 0, false, 0x33f6fe38c55cb100ce27b3138e5d2d041648364f) (by decide) (by decide)
      (by decide)

end RethHl
