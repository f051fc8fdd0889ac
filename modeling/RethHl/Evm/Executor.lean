import RethHl.Evm.Precompiles

/-!
# Block execution

`HlBlockExecutor` runs the transactions of a block one after the other on a database. It prepares
the precompile table, deploys one contract at one block, executes and commits each transaction, and
removes an account from the changes of a few transactions of the past (`patchMainnetAfterTx`).

The interpreter and the database are `revm`'s and are a parameter (`Revm`): what a transaction does
is a function of the database, the block environment, the precompile table and the transaction.

**Gas accounting.** System transactions do not add to the gas of the block. A receipt records the
gas of the block so far, so the gas of the block is what the last receipt says
(`gasUsed_executeTransactions`).
-/

namespace RethHl

/-- A computation that succeeds does so step by step. -/
theorem exists_of_bind_eq_ok {ε α β : Type} {x : Except ε α} {f : α → Except ε β} {b : β}
    (h : (x >>= f) = .ok b) : ∃ a, x = .ok a ∧ f a = .ok b := by
  cases x with
  | error e => cases h
  | ok a => exact ⟨a, rfl, h⟩

/-! ### The interpreter -/

/-- The block environment. -/
structure BlockEnv where
  number : ℕ
  beneficiary : Address
  timestamp : ℕ
  gasLimit : ℕ
  basefee : ℕ
  difficulty : ℕ
  prevrandao : Option B256
  blobExcessGasAndPrice : Option (ℕ × ℕ)
  deriving DecidableEq, Repr

/-- The outcome of a transaction. -/
structure ExecutionResult where
  isSuccess : Bool
  gasUsed : ℕ
  logs : List Log
  deriving DecidableEq, Repr

/-- The account fields of the database. -/
structure AccountInfo where
  balance : ℕ
  nonce : ℕ
  codeHash : B256
  code : Option Bytes
  deriving DecidableEq, Repr

/-- The interpreter and its database. -/
structure Revm where
  /-- The database, with its cache and its transitions. -/
  Db : Type
  /-- An account as a transaction leaves it. -/
  Account : Type
  CacheAccount : Type
  TransitionAccount : Type
  Error : Type
  transact : Db → BlockEnv → PrecompilesMap → RecoveredTx →
    Except Error (ExecutionResult × (Address → Option Account))
  commit : Db → (Address → Option Account) → Db
  loadCacheAccount : Db → Address → Except Error (CacheAccount × Db)
  accountInfo : CacheAccount → Option AccountInfo
  defaultInfo : AccountInfo
  /-- The change of an account to new information, without storage. -/
  change : CacheAccount → AccountInfo → TransitionAccount
  applyTransition : Db → List (Address × TransitionAccount) → Db
  hashSlow : Bytes → B256

/-! ### Patches -/

/-- The transactions after which an account is taken out of the changes: block number, index,
whether it is a system transaction, account. -/
def mainnetPatchesAfterTx : List (ℕ × ℕ × Bool × Address) :=
  [ (1467569, 0, false, 0x33f6fe38c55cb100ce27b3138e5d2d041648364f),
    (1467631, 0, false, 0x33f6fe38c55cb100ce27b3138e5d2d041648364f),
    (1499313, 2, false, 0xe27bfc0a812b38927ff646f24af9149f45deb550),
    (1499406, 0, false, 0xe27bfc0a812b38927ff646f24af9149f45deb550),
    (1499685, 0, false, 0xfee3932b75a87e86930668a6ab3ed43b404c8a30),
    (1514843, 0, false, 0x723e5fbbeed025772a91240fd0956a866a41a603),
    (1514936, 0, false, 0x723e5fbbeed025772a91240fd0956a866a41a603),
    (1530529, 2, false, 0xa694e8fd8f4a177dd23636d838e9f1fb2138d87a),
    (1530622, 2, false, 0xa694e8fd8f4a177dd23636d838e9f1fb2138d87a),
    (1530684, 3, false, 0xa694e8fd8f4a177dd23636d838e9f1fb2138d87a),
    (1530777, 3, false, 0xa694e8fd8f4a177dd23636d838e9f1fb2138d87a),
    (1530839, 2, false, 0x692a343fc401a7755f8fc2facf61af426adaf061),
    (1530901, 0, false, 0xfd9716f16596715ce765dabaee11787870e04b8a),
    (1530994, 3, false, 0xfd9716f16596715ce765dabaee11787870e04b8a),
    (1531056, 4, false, 0xdc67c2b8349ca20f58760e08371fc9271e82b5a4),
    (1531149, 0, false, 0xdc67c2b8349ca20f58760e08371fc9271e82b5a4),
    (1531211, 3, false, 0xdc67c2b8349ca20f58760e08371fc9271e82b5a4),
    (1531366, 1, false, 0x9a90a517d27a9e60e454c96fefbbe94ff244ed6f) ]

/-- Take the account of a patch out of the changes, if it is the transaction's. -/
def applyPatch {Account : Type} (blockNumber txIndex : ℕ) (isSystemTx : Bool)
    (changes : Address → Option Account) (patch : ℕ × ℕ × Bool × Address) :
    Address → Option Account :=
  if blockNumber = patch.1 ∧ txIndex = patch.2.1 ∧ isSystemTx = patch.2.2.1 then
    Function.update changes patch.2.2.2 none
  else changes

/-- Take the patched accounts of a transaction out of its changes. -/
def patchMainnetAfterTx {Account : Type} (blockNumber txIndex : ℕ) (isSystemTx : Bool)
    (changes : Address → Option Account) : Address → Option Account :=
  match mainnetPatchesAfterTx.head?, mainnetPatchesAfterTx.getLast? with
  | some first, some last =>
    if first.1 > blockNumber ∨ last.1 < blockNumber then changes
    else mainnetPatchesAfterTx.foldl (applyPatch blockNumber txIndex isSystemTx) changes
  | _, _ => changes

/-- A transaction is patched. -/
def IsPatched (blockNumber txIndex : ℕ) (isSystemTx : Bool) : Prop :=
  ∃ patch ∈ mainnetPatchesAfterTx,
    blockNumber = patch.1 ∧ txIndex = patch.2.1 ∧ isSystemTx = patch.2.2.1

instance (blockNumber txIndex : ℕ) (isSystemTx : Bool) :
    Decidable (IsPatched blockNumber txIndex isSystemTx) :=
  inferInstanceAs (Decidable (∃ patch ∈ mainnetPatchesAfterTx, _))

/-- Patches of other transactions, and of accounts that are not among the changes, do nothing. -/
theorem foldl_applyPatch_of_none {Account : Type} {blockNumber txIndex : ℕ} {isSystemTx : Bool}
    {patches : List (ℕ × ℕ × Bool × Address)} {changes : Address → Option Account}
    (h : ∀ patch ∈ patches,
      blockNumber = patch.1 ∧ txIndex = patch.2.1 ∧ isSystemTx = patch.2.2.1 →
        changes patch.2.2.2 = none) :
    patches.foldl (applyPatch blockNumber txIndex isSystemTx) changes = changes := by
  induction patches with
  | nil => rfl
  | cons patch patches ih =>
    have hfirst : applyPatch blockNumber txIndex isSystemTx changes patch = changes := by
      rw [applyPatch]
      split_ifs with hmatch
      · exact Function.update_eq_self_iff.2 (h patch List.mem_cons_self hmatch).symm
      · rfl
    rw [List.foldl_cons, hfirst, ih fun q hq ↦ h q (List.mem_cons_of_mem _ hq)]

/-- The account of a patch of the transaction is out at the end, and an account that is out stays
out. -/
theorem foldl_applyPatch_eq_none {Account : Type} {blockNumber txIndex : ℕ} {isSystemTx : Bool}
    {patch : ℕ × ℕ × Bool × Address}
    (hmatch : blockNumber = patch.1 ∧ txIndex = patch.2.1 ∧ isSystemTx = patch.2.2.1)
    {patches : List (ℕ × ℕ × Bool × Address)} {changes : Address → Option Account}
    (h : changes patch.2.2.2 = none ∨ patch ∈ patches) :
    patches.foldl (applyPatch blockNumber txIndex isSystemTx) changes patch.2.2.2 = none := by
  induction patches generalizing changes with
  | nil => exact h.resolve_right (List.not_mem_nil)
  | cons q patches ih =>
    rw [List.foldl_cons]
    apply ih
    rw [applyPatch]
    rcases h with h | h
    · left
      split_ifs
      · rw [Function.update_apply, h, ite_self]
      · exact h
    · rcases List.mem_cons.1 h with rfl | h
      · left
        rw [if_pos hmatch, Function.update_self]
      · exact Or.inr h

/-- A transaction that does not change the account of its patch keeps its changes. -/
theorem patchMainnetAfterTx_of_none {Account : Type} {blockNumber txIndex : ℕ} {isSystemTx : Bool}
    {changes : Address → Option Account}
    (h : ∀ patch ∈ mainnetPatchesAfterTx,
      blockNumber = patch.1 ∧ txIndex = patch.2.1 ∧ isSystemTx = patch.2.2.1 →
        changes patch.2.2.2 = none) :
    patchMainnetAfterTx blockNumber txIndex isSystemTx changes = changes := by
  rw [patchMainnetAfterTx]
  split
  · split_ifs
    · rfl
    · exact foldl_applyPatch_of_none h
  · rfl

/-- A transaction that is not patched keeps its changes. -/
theorem patchMainnetAfterTx_of_not_isPatched {Account : Type} {blockNumber txIndex : ℕ}
    {isSystemTx : Bool} (h : ¬ IsPatched blockNumber txIndex isSystemTx)
    (changes : Address → Option Account) :
    patchMainnetAfterTx blockNumber txIndex isSystemTx changes = changes :=
  patchMainnetAfterTx_of_none fun patch hpatch hmatch ↦ absurd ⟨patch, hpatch, hmatch⟩ h

/-- The account of a patch is not among the changes that are committed. -/
theorem patchMainnetAfterTx_eq_none {Account : Type} {blockNumber txIndex : ℕ}
    {isSystemTx : Bool} {patch : ℕ × ℕ × Bool × Address} (hpatch : patch ∈ mainnetPatchesAfterTx)
    (hmatch : blockNumber = patch.1 ∧ txIndex = patch.2.1 ∧ isSystemTx = patch.2.2.1)
    (changes : Address → Option Account) :
    patchMainnetAfterTx blockNumber txIndex isSystemTx changes patch.2.2.2 = none := by
  -- every patch lies between the first and the last block of the table
  have hrange : ∀ patch ∈ mainnetPatchesAfterTx, ¬ (1467569 > patch.1 ∨ 1531366 < patch.1) := by
    decide
  show (if 1467569 > blockNumber ∨ 1531366 < blockNumber then changes
    else mainnetPatchesAfterTx.foldl _ changes) patch.2.2.2 = none
  rw [hmatch.1, if_neg (hrange patch hpatch), ← hmatch.1]
  exact foldl_applyPatch_eq_none hmatch (Or.inr hpatch)

/-! ### The executor -/

/-- Decode a hexadecimal text. -/
def decodeHex (text : String) : Bytes :=
  let digit (c : Char) : ℕ := if c.isDigit then c.toNat - 48 else c.toNat - 87
  (text.toList.toChunks 2).map fun pair ↦ UInt8.ofNat (pair.foldl (fun n c ↦ 16 * n + digit c) 0)

/-- The block at which the CoreWriter contract is deployed. -/
def coreWriterEnabledBlockNumber : ℕ := 7578300

/-- Where it is deployed. -/
def coreWriterContractAddress : Address := 0x3333333333333333333333333333333333333333

/-- Its code. -/
def coreWriterCode : Bytes := decodeHex <|
    "608060405234801561000f575f5ffd5b5060043610610029575f3560e01c806317938e131461002d575b" ++
    "5f5ffd5b61004760048036038101906100429190610123565b610049565b005b5f5f90505b6101908110" ++
    "1561006557808060010191505061004e565b503373ffffffffffffffffffffffffffffffffffffffff16" ++
    "7f8c7f585fb295f7eb1e6aeb8fba61b23a4fe60beda405f0045073b185c74412e383836040516100ae92" ++
    "91906101c8565b60405180910390a25050565b5f5ffd5b5f5ffd5b5f5ffd5b5f5ffd5b5f5ffd5b5f5f83" ++
    "601f8401126100e3576100e26100c2565b5b8235905067ffffffffffffffff811115610100576100ff61" ++
    "00c6565b5b60208301915083600182028301111561011c5761011b6100ca565b5b9250929050565b5f5f" ++
    "60208385031215610139576101386100ba565b5b5f83013567ffffffffffffffff811115610156576101" ++
    "556100be565b5b610162858286016100ce565b92509250509250929050565b5f82825260208201905092" ++
    "915050565b828183375f83830152505050565b5f601f19601f8301169050919050565b5f6101a7838561" ++
    "016e565b93506101b483858461017e565b6101bd8361018c565b840190509392505050565b5f60208201" ++
    "90508181035f8301526101e181848661019c565b9050939250505056fea2646970667358221220f01517" ++
    "e1fbaff8af4bd72cb063cccecbacbb00b07354eea7dd52265d355474fb64736f6c634300081c0033"

/-- Why a block cannot be executed. -/
inductive BlockExecutionError (E : Type) where
  | transactionGasLimitMoreThanAvailableBlockGas (transactionGasLimit blockAvailableGas : ℕ)
  | evm (error : E)
  | other (error : E)
  | panic
  deriving DecidableEq, Repr

/-- Subtraction of 64-bit numbers, which wraps. -/
def wrappingSub (a b : ℕ) : ℕ :=
  if b ≤ a then a - b else a + u64Size - b

/-- The state of the executor. -/
structure HlBlockExecutor (revm : Revm) where
  env : BlockEnv
  precompiles : PrecompilesMap
  db : revm.Db
  gasUsed : ℕ
  receipts : List Receipt
  extras : HlExtras

/-- What the execution of a block gives. -/
structure BlockExecutionResult where
  receipts : List Receipt
  requests : List Bytes
  gasUsed : ℕ
  deriving DecidableEq, Repr

namespace HlBlockExecutor

variable {revm : Revm}

/-- Prepare the precompile table of the EVM. -/
def setPrecompiles (executor : HlBlockExecutor revm) :
    Except (BlockExecutionError revm.Error) (HlBlockExecutor revm) :=
  match applyPrecompiles executor.env.number executor.extras executor.precompiles with
  | none => .error .panic
  | some precompiles => .ok { executor with precompiles := precompiles }

/-- A new executor over an EVM with a database, an environment and a precompile table. -/
def new (db : revm.Db) (env : BlockEnv) (precompiles : PrecompilesMap) (extras : HlExtras) :
    Except (BlockExecutionError revm.Error) (HlBlockExecutor revm) :=
  setPrecompiles
    { env := env, precompiles := precompiles, db := db, gasUsed := 0, receipts := []
      extras := extras }

/-- Deploy the CoreWriter contract, at its block only. -/
def deployCoreWriterContract (executor : HlBlockExecutor revm) :
    Except (BlockExecutionError revm.Error) (HlBlockExecutor revm) :=
  if executor.env.number ≠ coreWriterEnabledBlockNumber then .ok executor
  else
    match revm.loadCacheAccount executor.db coreWriterContractAddress with
    | .error e => .error (.other e)
    | .ok (account, db) =>
      let info := { (revm.accountInfo account).getD revm.defaultInfo with
        codeHash := revm.hashSlow coreWriterCode
        code := some coreWriterCode }
      let transition := revm.change account info
      .ok { executor with
        db := revm.applyTransition db [(coreWriterContractAddress, transition)] }

/-- What is done before the first transaction. -/
def applyPreExecutionChanges (executor : HlBlockExecutor revm) :
    Except (BlockExecutionError revm.Error) (HlBlockExecutor revm) := do
  let executor ← executor.setPrecompiles
  executor.deployCoreWriterContract

/-- The receipt of a transaction. -/
def buildReceipt (tx : TransactionSigned) (result : ExecutionResult) (cumulativeGasUsed : ℕ) :
    Receipt where
  txType := tx.transaction.txType
  success := result.isSuccess
  cumulativeGasUsed := cumulativeGasUsed
  logs := result.logs

/-- The gas of the block after a transaction. System transactions do not count. -/
def gasUsedAfter (executor : HlBlockExecutor revm) (tx : RecoveredTx) (result : ExecutionResult) :
    ℕ :=
  if isSystemTransaction tx.tx then executor.gasUsed
  else (executor.gasUsed + result.gasUsed) % u64Size

/-- Execute a transaction, and commit it if the condition on its result says so. -/
def executeTransactionWithCommitCondition (executor : HlBlockExecutor revm) (tx : RecoveredTx)
    (shouldCommit : ExecutionResult → Bool) :
    Except (BlockExecutionError revm.Error) (Option ℕ × HlBlockExecutor revm) :=
  let blockAvailableGas := wrappingSub executor.env.gasLimit executor.gasUsed
  if tx.tx.transaction.gasLimit > blockAvailableGas then
    .error (.transactionGasLimitMoreThanAvailableBlockGas tx.tx.transaction.gasLimit
      blockAvailableGas)
  else
    match revm.transact executor.db executor.env executor.precompiles tx with
    | .error e => .error (.evm e)
    | .ok (result, state) =>
      if shouldCommit result then
        let gasUsed := executor.gasUsedAfter tx result
        let state := patchMainnetAfterTx (min executor.env.number u64Max)
          executor.receipts.length (isSystemTransaction tx.tx) state
        .ok (some result.gasUsed,
          { executor with
            gasUsed := gasUsed
            receipts := executor.receipts ++ [buildReceipt tx.tx result gasUsed]
            db := revm.commit executor.db state })
      else .ok (none, executor)

/-- Execute transactions and commit each of them. -/
def executeTransactions (executor : HlBlockExecutor revm) :
    List RecoveredTx → Except (BlockExecutionError revm.Error) (HlBlockExecutor revm)
  | [] => .ok executor
  | tx :: txs => do
    let (_, executor) ← executor.executeTransactionWithCommitCondition tx fun _ ↦ true
    executor.executeTransactions txs

/-- The preparation of the precompiles concerns neither gas nor receipts. -/
theorem setPrecompiles_keeps {executor executor' : HlBlockExecutor revm}
    (h : executor.setPrecompiles = .ok executor') :
    executor'.gasUsed = executor.gasUsed ∧ executor'.receipts = executor.receipts := by
  rw [setPrecompiles] at h
  split at h
  · cases h
  · obtain rfl := Except.ok.inj h
    exact ⟨rfl, rfl⟩

/-- Neither does the deployment. -/
theorem deployCoreWriterContract_keeps {executor executor' : HlBlockExecutor revm}
    (h : executor.deployCoreWriterContract = .ok executor') :
    executor'.gasUsed = executor.gasUsed ∧ executor'.receipts = executor.receipts := by
  rw [deployCoreWriterContract] at h
  split_ifs at h
  · obtain rfl := Except.ok.inj h
    exact ⟨rfl, rfl⟩
  · split at h
    · cases h
    · obtain rfl := Except.ok.inj h
      exact ⟨rfl, rfl⟩

/-- What one committed transaction does. -/
theorem execute_cases {executor executor' : HlBlockExecutor revm} {tx : RecoveredTx}
    {gas : Option ℕ}
    (h : executor.executeTransactionWithCommitCondition tx (fun _ ↦ true) = .ok (gas, executor')) :
    ∃ result state,
      revm.transact executor.db executor.env executor.precompiles tx = .ok (result, state) ∧
      executor' = { executor with
        gasUsed := executor.gasUsedAfter tx result
        receipts := executor.receipts ++
          [buildReceipt tx.tx result (executor.gasUsedAfter tx result)]
        db := revm.commit executor.db (patchMainnetAfterTx (min executor.env.number u64Max)
          executor.receipts.length (isSystemTransaction tx.tx) state) } := by
  unfold executeTransactionWithCommitCondition at h
  simp only at h
  split_ifs at h
  rcases htransact : revm.transact executor.db executor.env executor.precompiles tx
    with e | ⟨result, state⟩
  · rw [htransact] at h
    cases h
  · rw [htransact] at h
    exact ⟨result, state, rfl, (Prod.mk.inj (Except.ok.inj h)).2.symm⟩

/-- What a run of committed transactions starts with. -/
theorem executeTransactions_cons {executor executor' : HlBlockExecutor revm} {tx : RecoveredTx}
    {txs : List RecoveredTx} (h : executor.executeTransactions (tx :: txs) = .ok executor') :
    ∃ gas next, executor.executeTransactionWithCommitCondition tx (fun _ ↦ true) =
        .ok (gas, next) ∧
      next.executeTransactions txs = .ok executor' := by
  obtain ⟨⟨gas, next⟩, hstep, hrest⟩ := exists_of_bind_eq_ok h
  exact ⟨gas, next, hstep, hrest⟩

/-- The gas that the receipts account for. -/
def lastCumulativeGas (receipts : List Receipt) : ℕ :=
  (receipts.getLast?.map Receipt.cumulativeGasUsed).getD 0

/-- **The gas of the block is what the last receipt says**, in every state of a run. -/
theorem gasUsed_executeTransactions {executor executor' : HlBlockExecutor revm}
    {txs : List RecoveredTx} (hgas : executor.gasUsed = lastCumulativeGas executor.receipts)
    (h : executor.executeTransactions txs = .ok executor') :
    executor'.gasUsed = lastCumulativeGas executor'.receipts := by
  induction txs generalizing executor with
  | nil =>
    obtain rfl := Except.ok.inj h
    exact hgas
  | cons tx txs ih =>
    obtain ⟨gas, next, hstep, hrest⟩ := executeTransactions_cons h
    obtain ⟨result, state, -, rfl⟩ := execute_cases hstep
    refine ih ?_ hrest
    rw [lastCumulativeGas, List.getLast?_concat]
    rfl

/-- The result of the block. The executor makes no requests. -/
def finish (executor : HlBlockExecutor revm) : BlockExecutionResult where
  receipts := executor.receipts
  requests := []
  gasUsed := executor.gasUsed

end HlBlockExecutor

/-- The executor on a block: the changes before the block, then its transactions. -/
def executeBlock (revm : Revm) (db : revm.Db) (env : BlockEnv) (precompiles : PrecompilesMap)
    (extras : HlExtras) (transactions : List RecoveredTx) :
    Except (BlockExecutionError revm.Error) (HlBlockExecutor revm) := do
  let executor ← HlBlockExecutor.new db env precompiles extras
  let executor ← executor.applyPreExecutionChanges
  executor.executeTransactions transactions

/-- Nothing is used or recorded before the first transaction. -/
theorem applyPreExecutionChanges_new {revm : Revm} {db : revm.Db} {env : BlockEnv}
    {precompiles : PrecompilesMap} {extras : HlExtras} {executor executor' : HlBlockExecutor revm}
    (hnew : HlBlockExecutor.new db env precompiles extras = .ok executor)
    (hpre : executor.applyPreExecutionChanges = .ok executor') :
    executor'.gasUsed = 0 ∧ executor'.receipts = [] := by
  obtain ⟨next, hagain, hcore⟩ := exists_of_bind_eq_ok hpre
  obtain ⟨hgas, hreceipts⟩ := HlBlockExecutor.setPrecompiles_keeps hnew
  obtain ⟨hgas', hreceipts'⟩ := HlBlockExecutor.setPrecompiles_keeps hagain
  obtain ⟨hgas'', hreceipts''⟩ := HlBlockExecutor.deployCoreWriterContract_keeps hcore
  exact ⟨hgas''.trans (hgas'.trans hgas), hreceipts''.trans (hreceipts'.trans hreceipts)⟩

/-- After a block, its gas is what the last receipt says. -/
theorem gasUsed_executeBlock {revm : Revm} {db : revm.Db} {env : BlockEnv}
    {precompiles : PrecompilesMap} {extras : HlExtras} {transactions : List RecoveredTx}
    {executor : HlBlockExecutor revm}
    (h : executeBlock revm db env precompiles extras transactions = .ok executor) :
    executor.gasUsed = HlBlockExecutor.lastCumulativeGas executor.receipts := by
  obtain ⟨start, hnew, h⟩ := exists_of_bind_eq_ok h
  obtain ⟨ready, hpre, h⟩ := exists_of_bind_eq_ok h
  obtain ⟨hgas, hreceipts⟩ := applyPreExecutionChanges_new hnew hpre
  refine HlBlockExecutor.gasUsed_executeTransactions ?_ h
  rw [hgas, hreceipts]
  rfl

end RethHl
