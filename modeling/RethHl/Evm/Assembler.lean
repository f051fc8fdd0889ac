import RethHl.Evm.Executor

/-!
# Assembling a block

`assembleBlock` builds the header of a block from the environment it was executed in and from what
the execution gave. The system transactions are left out of the transactions root and, recognised by
their cumulative gas of zero, out of the receipts root. **The logs bloom is taken over all
receipts.**

The root and bloom computations and the fork schedule are outside this repository and are
parameters (`Commitments`, `ChainSpec`).
-/

namespace RethHl

/-- A bloom filter. -/
abbrev Bloom := BitVec 2048

/-- The commitments of a header, as functions of the lists they commit to. -/
structure Commitments where
  transactionRoot : List TransactionSigned → B256
  receiptRoot : List Receipt → B256
  withdrawalsRoot : List Withdrawal → B256
  requestsHash : List Bytes → B256
  /-- The bits that one log sets in a bloom filter. -/
  logBloom : Log → Bloom
  /-- What an error about the gas of a block reports. -/
  gasSpentByTransactions : List Receipt → List (ℕ × ℕ)

/-- The fork schedule. -/
structure ChainSpec where
  isByzantiumActiveAtBlock : ℕ → Bool
  isShanghaiActiveAtTimestamp : ℕ → Bool
  isCancunActiveAtTimestamp : ℕ → Bool
  isPragueActiveAtTimestamp : ℕ → Bool
  /-- The excess blob gas after a parent block, with the blob parameters of a timestamp. -/
  maybeNextBlockExcessBlobGas : Header → ℕ → Option ℕ
  /-- The excess blob gas of the first block with blobs. -/
  firstExcessBlobGas : ℕ

/-- The context of the execution of a block. -/
structure HlBlockExecutionCtx where
  parentHash : B256
  parentBeaconBlockRoot : Option B256
  withdrawals : Option (List Withdrawal)
  extras : HlExtras
  deriving DecidableEq, Repr

/-- The hash of an empty list of ommers. -/
def emptyOmmerRootHash : B256 := 0x1dcc4de8dec75d7aab85b567b6ccd41ad312451b948a7413f0a142fd40d49347

/-- The nonce of every block since the merge. -/
def beaconNonce : BitVec 64 := 0

/-- The conversion to 64 bits that stops at the largest value. -/
def saturatingToU64 (n : ℕ) : ℕ := min n u64Max

/-- The bloom filter of a list of logs. -/
def Commitments.logsBloom (commitments : Commitments) (logs : List Log) : Bloom :=
  logs.foldl (fun bloom log ↦ bloom ||| commitments.logBloom log) 0

section Assembler

variable (chainSpec : ChainSpec) (commitments : Commitments) (extraData : Bytes)

/-- The receipts that enter the root of a header: those that used gas. -/
def receiptsForRoot (receipts : List Receipt) : List Receipt :=
  receipts.filter fun receipt ↦ receipt.cumulativeGasUsed ≠ 0

/-- `HlBlockAssembler::assemble_block`. -/
def assembleBlock (env : BlockEnv) (ctx : HlBlockExecutionCtx) (parent : Header)
    (transactions : List TransactionSigned) (output : BlockExecutionResult) (stateRoot : B256) :
    HlBlock :=
  let timestamp := saturatingToU64 env.timestamp
  let transactionsForRoot := transactions.filter fun tx ↦ !isSystemTransaction tx
  let withdrawals :=
    if chainSpec.isShanghaiActiveAtTimestamp timestamp then some (ctx.withdrawals.getD []) else none
  let cancun := chainSpec.isCancunActiveAtTimestamp timestamp
  { header :=
      { parentHash := ctx.parentHash
        ommersHash := emptyOmmerRootHash
        beneficiary := env.beneficiary
        stateRoot := stateRoot
        transactionsRoot := commitments.transactionRoot transactionsForRoot
        receiptsRoot := commitments.receiptRoot (receiptsForRoot output.receipts)
        withdrawalsRoot := withdrawals.map commitments.withdrawalsRoot
        logsBloom := commitments.logsBloom (output.receipts.flatMap Receipt.logs)
        timestamp := timestamp
        mixHash := env.prevrandao.getD 0
        nonce := beaconNonce
        baseFeePerGas := some env.basefee
        number := saturatingToU64 env.number
        gasLimit := env.gasLimit
        difficulty := env.difficulty
        gasUsed := output.gasUsed
        extraData := extraData
        parentBeaconBlockRoot := ctx.parentBeaconBlockRoot
        blobGasUsed :=
          if cancun then
            some (transactions.map fun tx ↦ tx.transaction.blobGasUsed.getD 0).sum
          else none
        excessBlobGas :=
          if cancun then
            if chainSpec.isCancunActiveAtTimestamp parent.timestamp then
              chainSpec.maybeNextBlockExcessBlobGas parent timestamp
            else some chainSpec.firstExcessBlobGas
          else none
        requestsHash :=
          if chainSpec.isPragueActiveAtTimestamp timestamp then
            some (commitments.requestsHash output.requests)
          else none }
    body :=
      { inner := { transactions := transactions, ommers := [], withdrawals := withdrawals }
        sidecars := none
        readPrecompileCalls := ctx.extras.readPrecompileCalls
        highestPrecompileAddress := ctx.extras.highestPrecompileAddress } }

end Assembler

end RethHl
