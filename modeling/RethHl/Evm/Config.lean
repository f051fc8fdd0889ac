import Mathlib.Data.List.Forall2
import RethHl.Evm.Assembler
import RethHl.Evm.TxEnv

/-!
# The environment of a block

The node comes to execute a block in three ways. It **executes** a block of the chain in the
environment that the header gives (`evmEnv`, `contextForBlock`). It **builds** the next block in an
environment that it derives from the parent and from attributes (`nextEvmEnv`,
`contextForNextBlock`). And it executes the block of a **payload** of the engine, which has
functions of its own for the environment, the context and the transactions.

The last two take the transactions apart differently: a block is recovered as a whole before
anything is executed, while the transactions of a payload are recovered one by one as they are
executed, and become environments through the other of the two conversions. `payload_agrees` says
that this makes no difference.

The fork schedule of the chain is here too. The blob parameters, the base fee and the encodings are
library code, and are parameters.
-/

namespace RethHl

/-! ### The fork schedule -/

/-- The forks of Ethereum that the program asks for or schedules. -/
inductive EthereumHardfork where
  | frontier
  | homestead
  | dao
  | tangerine
  | spuriousDragon
  | byzantium
  | constantinople
  | petersburg
  | istanbul
  | berlin
  | london
  | paris
  | shanghai
  | cancun
  | prague
  deriving DecidableEq, Repr

/-- When a fork is active. -/
inductive ForkCondition where
  | block (number : ℕ)
  | ttd (activationBlockNumber totalDifficulty : ℕ)
  | timestamp (time : ℕ)
  | never
  deriving DecidableEq, Repr

/-- `HL_HARDFORKS` -/
def hlHardforks : List (EthereumHardfork × ForkCondition) :=
  [ (.frontier, .block 0),
    (.homestead, .block 0),
    (.dao, .block 0),
    (.tangerine, .block 0),
    (.spuriousDragon, .block 0),
    (.byzantium, .block 0),
    (.constantinople, .block 0),
    (.petersburg, .block 0),
    (.istanbul, .block 0),
    (.berlin, .block 0),
    (.london, .block 0),
    (.paris, .ttd 0 0),
    (.shanghai, .timestamp 0),
    (.cancun, .timestamp 0) ]

/-- The condition of a fork; one that is not scheduled is never active. -/
def hlFork (fork : EthereumHardfork) : ForkCondition :=
  (hlHardforks.lookup fork).getD .never

def ForkCondition.activeAtBlock : ForkCondition → ℕ → Bool
  | .block number, n => decide (number ≤ n)
  | .ttd activationBlockNumber _, n => decide (activationBlockNumber ≤ n)
  | _, _ => false

def ForkCondition.activeAtTimestamp : ForkCondition → ℕ → Bool
  | .timestamp time, t => decide (time ≤ t)
  | _, _ => false

/-- The blob parameters of a fork. -/
structure BlobParams where
  maxBlobsPerTx : ℕ
  calcBlobFee : ℕ → ℕ
  /-- The excess blob gas after a block, from its own, its blob gas and its base fee. -/
  nextBlockExcessBlobGas : ℕ → ℕ → ℕ → ℕ

/-- What the configuration takes from the library: the chain, and the functions of its schedule. -/
structure EvmConfig where
  chainId : ℕ
  blobParamsAtTimestamp : ℕ → Option BlobParams
  /-- The base fee after a parent, with the parameters of a timestamp. -/
  nextBlockBaseFee : Header → ℕ → Option ℕ
  /-- The excess blob gas after a parent, under some blob parameters. -/
  maybeNextBlockExcessBlobGas : Header → Option BlobParams → Option ℕ
  /-- The excess blob gas of the first block with blobs. -/
  firstExcessBlobGas : ℕ

/-- A parent that has blob gas and a base fee determines the excess blob gas of the next block. -/
def EvmConfig.Lawful (config : EvmConfig) : Prop :=
  ∀ {parent : Header} {params : BlobParams} {excessBlobGas blobGasUsed baseFeePerGas : ℕ},
    parent.excessBlobGas = some excessBlobGas → parent.blobGasUsed = some blobGasUsed →
    parent.baseFeePerGas = some baseFeePerGas →
    config.maybeNextBlockExcessBlobGas parent (some params) =
      some (params.nextBlockExcessBlobGas excessBlobGas blobGasUsed baseFeePerGas)

/-- The schedule of the chain, as the assembler asks for it. -/
def EvmConfig.chainSpec (config : EvmConfig) : ChainSpec where
  isByzantiumActiveAtBlock := (hlFork .byzantium).activeAtBlock
  isShanghaiActiveAtTimestamp := (hlFork .shanghai).activeAtTimestamp
  isCancunActiveAtTimestamp := (hlFork .cancun).activeAtTimestamp
  isPragueActiveAtTimestamp := (hlFork .prague).activeAtTimestamp
  maybeNextBlockExcessBlobGas := fun parent timestamp ↦
    config.maybeNextBlockExcessBlobGas parent (config.blobParamsAtTimestamp timestamp)
  firstExcessBlobGas := config.firstExcessBlobGas

theorem isCancunActiveAtTimestamp_chainSpec (config : EvmConfig) (t : ℕ) :
    config.chainSpec.isCancunActiveAtTimestamp t = true :=
  decide_eq_true (Nat.zero_le t)

theorem isShanghaiActiveAtTimestamp_chainSpec (config : EvmConfig) (t : ℕ) :
    config.chainSpec.isShanghaiActiveAtTimestamp t = true :=
  decide_eq_true (Nat.zero_le t)

/-! ### The environment of a block -/

inductive HlSpecId where
  | v1
  deriving DecidableEq, Repr

/-- The configuration of the virtual machine. -/
structure CfgEnv where
  chainId : ℕ
  spec : HlSpecId
  maxBlobsPerTx : Option ℕ
  disableBaseFee : Bool
  disableEip3607 : Bool
  deriving DecidableEq, Repr

structure EvmEnv where
  cfgEnv : CfgEnv
  blockEnv : BlockEnv
  deriving DecidableEq, Repr

/-- The attributes of a block to be built. -/
structure NextBlockEnvAttributes where
  timestamp : ℕ
  suggestedFeeRecipient : Address
  prevRandao : B256
  gasLimit : ℕ
  parentBeaconBlockRoot : Option B256
  withdrawals : Option (List Withdrawal)
  deriving DecidableEq, Repr

section Environment

variable (config : EvmConfig)

/-- `revm_spec_by_timestamp_and_block_number` -/
def revmSpecByTimestampAndBlockNumber (_timestamp _blockNumber : ℕ) : HlSpecId := .v1

/-- The Ethereum fork that a version stands for has the merge behind it. -/
def HlSpecId.isMerge : HlSpecId → Bool
  | .v1 => true

/-- The Ethereum fork that a version stands for has blobs. -/
def HlSpecId.isCancun : HlSpecId → Bool
  | .v1 => true

/-- `evm_env` -/
def evmEnv (header : Header) : EvmEnv :=
  let blobParams := config.blobParamsAtTimestamp header.timestamp
  let spec := revmSpecByTimestampAndBlockNumber header.timestamp header.number
  { cfgEnv :=
      { chainId := config.chainId
        spec := spec
        maxBlobsPerTx := blobParams.map BlobParams.maxBlobsPerTx
        disableBaseFee := true
        disableEip3607 := true }
    blockEnv :=
      { number := header.number
        beneficiary := header.beneficiary
        timestamp := header.timestamp
        difficulty := if spec.isMerge then 0 else header.difficulty
        prevrandao := if spec.isMerge then some header.mixHash else none
        gasLimit := header.gasLimit
        basefee := header.baseFeePerGas.getD 0
        blobExcessGasAndPrice := do
          let excessBlobGas ← header.excessBlobGas
          let params ← blobParams
          pure (excessBlobGas, params.calcBlobFee excessBlobGas) } }

/-- `next_evm_env` -/
def nextEvmEnv (parent : Header) (attributes : NextBlockEnvAttributes) : EvmEnv :=
  let number := (parent.number + 1) % u64Size
  let spec := revmSpecByTimestampAndBlockNumber attributes.timestamp number
  { cfgEnv :=
      { chainId := config.chainId
        spec := spec
        maxBlobsPerTx := none
        disableBaseFee := false
        disableEip3607 := false }
    blockEnv :=
      { number := number
        beneficiary := attributes.suggestedFeeRecipient
        timestamp := attributes.timestamp
        difficulty := 0
        prevrandao := some attributes.prevRandao
        gasLimit := attributes.gasLimit
        basefee := (config.nextBlockBaseFee parent attributes.timestamp).getD 0
        blobExcessGasAndPrice := if spec.isCancun then some (0, 0) else none } }

/-- `context_for_block` -/
def contextForBlock (block : HlBlock) : HlBlockExecutionCtx where
  parentHash := block.header.parentHash
  parentBeaconBlockRoot := block.header.parentBeaconBlockRoot
  withdrawals := block.body.inner.withdrawals
  extras :=
    { readPrecompileCalls := block.body.readPrecompileCalls
      highestPrecompileAddress := block.body.highestPrecompileAddress }

/-- `context_for_next_block` -/
def contextForNextBlock (parent : SealedHeader) (attributes : NextBlockEnvAttributes) :
    HlBlockExecutionCtx where
  parentHash := parent.hash
  parentBeaconBlockRoot := attributes.parentBeaconBlockRoot
  withdrawals := attributes.withdrawals
  extras := { readPrecompileCalls := none, highestPrecompileAddress := none }

end Environment

/-! ### Payloads of the engine -/

/-- A block with its hash. -/
structure SealedHlBlock where
  hash : B256
  block : HlBlock
  deriving DecidableEq, Repr

/-- A block with the senders of its transactions. -/
structure RecoveredBlock where
  sealed : SealedHlBlock
  senders : List Address
  deriving DecidableEq, Repr

/-- The transactions of a recovered block. -/
def RecoveredBlock.transactionsRecovered (recovered : RecoveredBlock) : List RecoveredTx :=
  List.zipWith RecoveredTx.mk recovered.senders recovered.sealed.block.body.transactions

/-- The payload of the engine is the block itself. -/
structure HlExecutionData where
  block : HlBlock
  deriving DecidableEq, Repr

inductive PayloadError where
  | blockHash (execution consensus : B256)
  deriving DecidableEq, Repr

/-- Why a payload is refused. -/
inductive NewPayloadError where
  | payload (error : PayloadError)
  | recovery (error : RecoveryError)
  deriving DecidableEq, Repr

section Payload

variable (hashSlow : Header → B256) (inner : InnerRecovery)
  (encoded2718 : TransactionSigned → Bytes)

/-- `HlExecutionPayloadValidator::ensure_well_formed_payload` -/
def sealPayload (payload : HlExecutionData) : Except PayloadError SealedHlBlock :=
  let block := payload.block
  let expectedHash := hashSlow block.header
  let sealedBlock : SealedHlBlock := { hash := hashSlow block.header, block := block }
  if expectedHash ≠ sealedBlock.hash then .error (.blockHash sealedBlock.hash expectedHash)
  else .ok sealedBlock

/-- The senders of all transactions, or the error of the first that has none. -/
def recoverSigners (transactions : List TransactionSigned) :
    Except RecoveryError (List Address) :=
  transactions.mapM fun tx ↦ tx.recoverSigner inner

/-- `try_recover` -/
def SealedHlBlock.tryRecover (sealed : SealedHlBlock) : Except RecoveryError RecoveredBlock := do
  let senders ← recoverSigners inner sealed.block.body.transactions
  pure { sealed := sealed, senders := senders }

/-- `HlPayloadValidator::ensure_well_formed_payload` -/
def ensureWellFormedPayload (payload : HlExecutionData) :
    Except NewPayloadError RecoveredBlock := do
  let sealed ← (sealPayload hashSlow payload).mapError .payload
  (sealed.tryRecover inner).mapError .recovery

/-- `evm_env_for_payload` -/
def evmEnvForPayload (config : EvmConfig) (payload : HlExecutionData) : EvmEnv :=
  evmEnv config payload.block.header

/-- `context_for_payload` -/
def contextForPayload (payload : HlExecutionData) : HlBlockExecutionCtx where
  parentHash := payload.block.header.parentHash
  parentBeaconBlockRoot := payload.block.header.parentBeaconBlockRoot
  withdrawals := payload.block.body.inner.withdrawals
  extras :=
    { readPrecompileCalls := payload.block.body.readPrecompileCalls
      highestPrecompileAddress := payload.block.body.highestPrecompileAddress }

/-- A transaction of a payload, when its turn comes: with its encoding, or an error. -/
def recoverEncoded (tx : TransactionSigned) : Except NewPayloadError (Bytes × RecoveredTx) :=
  match tx.recoverSigner inner with
  | .ok signer => .ok (encoded2718 tx, ⟨signer, tx⟩)
  | .error error => .error (.recovery error)

/-- `tx_iterator_for_payload` -/
def txIteratorForPayload (payload : HlExecutionData) :
    List (Except NewPayloadError (Bytes × RecoveredTx)) :=
  payload.block.body.transactions.map (recoverEncoded inner encoded2718)

end Payload

/-! ### The two ways to the transactions -/

section Agreement

variable {hashSlow : Header → B256} {inner : InnerRecovery}
  {encoded2718 : TransactionSigned → Bytes}

/-- A transaction and its sender. -/
def SignedBy (inner : InnerRecovery) (tx : TransactionSigned) (signer : Address) : Prop :=
  tx.recoverSigner inner = .ok signer

theorem recoverSigners_cons (tx : TransactionSigned) (txs : List TransactionSigned) :
    recoverSigners inner (tx :: txs) = (do
      let signer ← tx.recoverSigner inner
      let signers ← recoverSigners inner txs
      pure (signer :: signers)) := by
  rw [recoverSigners, List.mapM_cons]
  rfl

/-- A block is recovered transaction by transaction. -/
theorem forall₂_of_recoverSigners {txs : List TransactionSigned} {senders : List Address}
    (h : recoverSigners inner txs = .ok senders) : List.Forall₂ (SignedBy inner) txs senders := by
  induction txs generalizing senders with
  | nil =>
    obtain rfl := Except.ok.inj h
    exact .nil
  | cons tx txs ih =>
    rw [recoverSigners_cons] at h
    obtain ⟨signer, hsigner, h⟩ := exists_of_bind_eq_ok h
    obtain ⟨signers, hsigners, h⟩ := exists_of_bind_eq_ok h
    obtain rfl := Except.ok.inj h
    exact .cons hsigner (ih hsigners)

/-- The error of a block is that of one of its transactions. -/
theorem exists_of_recoverSigners_error {txs : List TransactionSigned} {error : RecoveryError}
    (h : recoverSigners inner txs = .error error) :
    ∃ tx ∈ txs, tx.recoverSigner inner = .error error := by
  induction txs with
  | nil => cases h
  | cons tx txs ih =>
    rw [recoverSigners_cons] at h
    cases hsigner : tx.recoverSigner inner with
    | error error' =>
      rw [hsigner] at h
      obtain rfl := Except.error.inj h
      exact ⟨tx, List.mem_cons_self, hsigner⟩
    | ok signer =>
      rw [hsigner] at h
      cases hsigners : recoverSigners inner txs with
      | error error' =>
        rw [hsigners] at h
        obtain rfl := Except.error.inj h
        obtain ⟨tx', hmem, htx'⟩ := ih hsigners
        exact ⟨tx', List.mem_cons_of_mem _ hmem, htx'⟩
      | ok signers =>
        rw [hsigners] at h
        cases h

/-- The transactions of a payload are those of the recovered block, with their encodings. -/
theorem map_recoverEncoded {txs : List TransactionSigned} {senders : List Address}
    (h : List.Forall₂ (SignedBy inner) txs senders) :
    txs.map (recoverEncoded inner encoded2718) =
      (List.zipWith RecoveredTx.mk senders txs).map fun tx ↦ .ok (encoded2718 tx.tx, tx) := by
  induction h with
  | nil => rfl
  | cons hsigner _ ih =>
    rw [List.map_cons, List.zipWith_cons_cons, List.map_cons, ih, recoverEncoded, hsigner]

/-- No transaction of a recovered block is lost. -/
theorem map_tx_zipWith {txs : List TransactionSigned} {senders : List Address}
    (h : List.Forall₂ (SignedBy inner) txs senders) :
    (List.zipWith RecoveredTx.mk senders txs).map RecoveredTx.tx = txs := by
  induction h with
  | nil => rfl
  | cons _ _ ih => rw [List.zipWith_cons_cons, List.map_cons, ih]

theorem signedBy_of_mem_zipWith {txs : List TransactionSigned} {senders : List Address}
    (h : List.Forall₂ (SignedBy inner) txs senders) {tx : RecoveredTx}
    (hmem : tx ∈ List.zipWith RecoveredTx.mk senders txs) : SignedBy inner tx.tx tx.signer := by
  induction h with
  | nil => cases hmem
  | cons hsigner _ ih =>
    rw [List.zipWith_cons_cons, List.mem_cons] at hmem
    rcases hmem with rfl | hmem
    · exact hsigner
    · exact ih hmem

/-- A payload is sealed with the hash of its header; the check of the hash never fails. -/
theorem ensureWellFormedPayload_eq (payload : HlExecutionData) :
    ensureWellFormedPayload hashSlow inner payload =
      ((recoverSigners inner payload.block.body.transactions).map fun senders ↦
        ({ sealed := { hash := hashSlow payload.block.header, block := payload.block }
           senders := senders } : RecoveredBlock)).mapError .recovery := by
  rw [ensureWellFormedPayload, sealPayload, if_neg (not_not.2 rfl)]
  show Except.mapError _ (SealedHlBlock.tryRecover inner _) = _
  rw [SealedHlBlock.tryRecover]
  cases recoverSigners inner payload.block.body.transactions with
  | error error => rfl
  | ok senders => rfl

end Agreement

/-- The payload of a block, executed as a payload and as the recovered block. -/
structure PayloadAgrees (config : EvmConfig) (hashSlow : Header → B256) (inner : InnerRecovery)
    (encoded2718 : TransactionSigned → Bytes) (c : FromRecoveredTx) (payload : HlExecutionData)
    (recovered : RecoveredBlock) : Prop where
  sealed : recovered.sealed = { hash := hashSlow payload.block.header, block := payload.block }
  env : evmEnvForPayload config payload = evmEnv config recovered.sealed.block.header
  context : contextForPayload payload = contextForBlock recovered.sealed.block
  /-- The transactions come in the same order with the same senders. -/
  transactions : txIteratorForPayload inner encoded2718 payload =
    recovered.transactionsRecovered.map fun tx ↦ .ok (encoded2718 tx.tx, tx)
  /-- They are those of the block. -/
  complete : recovered.transactionsRecovered.map RecoveredTx.tx = payload.block.body.transactions
  /-- Each runs in the same environment. -/
  txEnv : ∀ tx ∈ recovered.transactionsRecovered,
    HlTxEnv.fromRecoveredTx c inner tx.tx tx.signer =
      some (HlTxEnv.fromEncodedTx c tx.tx tx.signer (encoded2718 tx.tx))

/-- **A payload is executed as its block is**: it is accepted exactly when no transaction of the
payload fails on its turn, an error names such a transaction, and what is accepted is executed in
the same environment, in the same context and with the same transactions. -/
theorem payload_agrees (config : EvmConfig) (hashSlow : Header → B256) (inner : InnerRecovery)
    (encoded2718 : TransactionSigned → Bytes) {c : FromRecoveredTx} (hc : c.Lawful)
    (payload : HlExecutionData) :
    (∀ recovered, ensureWellFormedPayload hashSlow inner payload = .ok recovered →
      PayloadAgrees config hashSlow inner encoded2718 c payload recovered) ∧
    (∀ error, ensureWellFormedPayload hashSlow inner payload = .error error →
      .error error ∈ txIteratorForPayload inner encoded2718 payload) := by
  rw [ensureWellFormedPayload_eq]
  cases hsigners : recoverSigners inner payload.block.body.transactions with
  | error error =>
    refine ⟨fun recovered h ↦ (nomatch h), fun error' h ↦ ?_⟩
    obtain rfl := Except.error.inj h
    obtain ⟨tx, hmem, htx⟩ := exists_of_recoverSigners_error hsigners
    refine List.mem_map.2 ⟨tx, hmem, ?_⟩
    rw [recoverEncoded, htx]
  | ok senders =>
    refine ⟨fun recovered h ↦ ?_, fun error h ↦ nomatch h⟩
    obtain rfl := Except.ok.inj h
    have hall := forall₂_of_recoverSigners hsigners
    exact ⟨rfl, rfl, rfl, map_recoverEncoded hall, map_tx_zipWith hall, fun tx hmem ↦
      agree_of_recoverSigner hc inner (signedBy_of_mem_zipWith hall hmem) _⟩

/-- The excess blob gas after a parent, as the library determines it. -/
def libraryNextBlockExcessBlobGas (parent : Header) (blobParams : Option BlobParams) :
    Option ℕ := do
  let params ← blobParams
  let excessBlobGas ← parent.excessBlobGas
  let blobGasUsed ← parent.blobGasUsed
  let baseFeePerGas ← parent.baseFeePerGas
  pure (params.nextBlockExcessBlobGas excessBlobGas blobGasUsed baseFeePerGas)

/-- The parameters of the example: a target of three blobs, and a constant base fee. -/
def exampleConfig : EvmConfig where
  chainId := 999
  blobParamsAtTimestamp := fun _ ↦
    some
      { maxBlobsPerTx := 6
        calcBlobFee := fun _ ↦ 1
        nextBlockExcessBlobGas := fun excess used _ ↦ excess + used - 393216 }
  nextBlockBaseFee := fun parent _ ↦ parent.baseFeePerGas
  maybeNextBlockExcessBlobGas := libraryNextBlockExcessBlobGas
  firstExcessBlobGas := 0

theorem lawful_exampleConfig : exampleConfig.Lawful := by
  intro parent params excessBlobGas blobGasUsed baseFeePerGas hexcess hused hfee
  show libraryNextBlockExcessBlobGas parent (some params) = _
  rw [libraryNextBlockExcessBlobGas, hexcess, hused, hfee]
  rfl

/-- A block with one transfer that HyperCore injected. -/
def examplePayload : HlExecutionData where
  block :=
    { header := .zero 1
      body :=
        { inner := { transactions := [exampleSystemTx.tx], ommers := [], withdrawals := none }
          sidecars := none
          readPrecompileCalls := none
          highestPrecompileAddress := none } }

/-- The hash of its header. -/
def examplePayloadHash (_ : Header) : B256 :=
  0xe9a9676da1a84a448e698de377f74e257659a1c063195f7a170310ab6baca831

/-- The encoding of its transaction. -/
def exampleEncoded2718 (_ : TransactionSigned) : Bytes :=
  [0xe2, 0x80, 0x80, 0x83, 0x03, 0x0d, 0x40, 0x94] ++ List.replicate 20 0x11 ++
    [0x01, 0x80, 0x82, 0x07, 0xf2, 0x01, 0x01]

/-- It is accepted, with the system address as the sender. -/
theorem payload_agrees_examplePayload : ∃ recovered,
    ensureWellFormedPayload examplePayloadHash exampleInner examplePayload = .ok recovered ∧
    recovered.senders = [exampleSystemTx.signer] ∧
    PayloadAgrees exampleConfig examplePayloadHash exampleInner exampleEncoded2718
      libraryFromRecoveredTx examplePayload recovered := by
  refine ⟨_, rfl, by decide +kernel, ?_⟩
  exact (payload_agrees exampleConfig _ exampleInner _ lawful_libraryFromRecoveredTx
    examplePayload).1 _ rfl

end RethHl
