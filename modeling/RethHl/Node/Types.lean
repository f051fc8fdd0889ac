import Mathlib.Algebra.Ring.Nat
import Mathlib.Data.List.Basic

/-!
# The data model: transactions, receipts, blocks

The types every other module reads. They follow the source's own: a `TransactionSigned` is an
envelope over the five Ethereum transaction types with a signature, an `HlBlock` is a header with a
body that also carries the recorded read-precompile calls, and a `BlockAndReceipts` is the record
the block sources deliver.

Fixed-size byte strings are bit vectors (`B256`, `Address`), since only their equality and their
order matter. Counters, gas and heights are natural numbers; a module in which a 64-bit operation
can overflow states the reduction modulo `u64Size` at that operation.

**System transactions.** The node marks a transaction that HyperCore injected by a gas price of
exactly zero. The source has the test twice, once as a method of the transaction and once as a free
function of the executor; both are kept under their own names, and `executor_isSystemTransaction_eq`
says that they decide the same thing.
-/

namespace RethHl

/-- A 32-byte word: hashes, topics, roots. -/
abbrev B256 := BitVec 256

/-- A 20-byte account address. -/
abbrev Address := BitVec 160

/-- A byte string. -/
abbrev Bytes := List UInt8

/-- The number of values of `u64` (and of `usize` on the supported targets). -/
def u64Size : ℕ := 2 ^ 64

/-- The largest `u64`, written `u64::MAX` in the source. -/
def u64Max : ℕ := u64Size - 1

/-! ### Transactions -/

/-- The target of a transaction (its `to` field): a contract creation or a call. -/
inductive TxKind where
  | create
  | call (dest : Address)
  deriving DecidableEq, Repr

/-- One entry of an access list. -/
structure AccessListItem where
  address : Address
  storageKeys : List B256
  deriving DecidableEq, Repr

/-- One signed authorization of a set-code transaction. -/
structure SignedAuthorization where
  chainId : ℕ
  address : Address
  nonce : ℕ
  yParity : Bool
  r : ℕ
  s : ℕ
  deriving DecidableEq, Repr

/-- A legacy transaction. -/
structure TxLegacy where
  chainId : Option ℕ
  nonce : ℕ
  gasPrice : ℕ
  gasLimit : ℕ
  dest : TxKind
  value : ℕ
  input : Bytes
  deriving DecidableEq, Repr

/-- A transaction with an access list. -/
structure TxEip2930 where
  chainId : ℕ
  nonce : ℕ
  gasPrice : ℕ
  gasLimit : ℕ
  dest : TxKind
  value : ℕ
  accessList : List AccessListItem
  input : Bytes
  deriving DecidableEq, Repr

/-- A fee-market transaction. -/
structure TxEip1559 where
  chainId : ℕ
  nonce : ℕ
  gasLimit : ℕ
  maxFeePerGas : ℕ
  maxPriorityFeePerGas : ℕ
  dest : TxKind
  value : ℕ
  accessList : List AccessListItem
  input : Bytes
  deriving DecidableEq, Repr

/-- A blob transaction. -/
structure TxEip4844 where
  chainId : ℕ
  nonce : ℕ
  gasLimit : ℕ
  maxFeePerGas : ℕ
  maxPriorityFeePerGas : ℕ
  dest : Address
  value : ℕ
  accessList : List AccessListItem
  blobVersionedHashes : List B256
  maxFeePerBlobGas : ℕ
  input : Bytes
  deriving DecidableEq, Repr

/-- A set-code transaction. -/
structure TxEip7702 where
  chainId : ℕ
  nonce : ℕ
  gasLimit : ℕ
  maxFeePerGas : ℕ
  maxPriorityFeePerGas : ℕ
  dest : Address
  value : ℕ
  accessList : List AccessListItem
  authorizationList : List SignedAuthorization
  input : Bytes
  deriving DecidableEq, Repr

/-- A transaction of one of the five types. -/
inductive Transaction where
  | legacy (tx : TxLegacy)
  | eip2930 (tx : TxEip2930)
  | eip1559 (tx : TxEip1559)
  | eip4844 (tx : TxEip4844)
  | eip7702 (tx : TxEip7702)
  deriving DecidableEq, Repr

/-- The type tag that a receipt records. -/
inductive TxType where
  | legacy
  | eip2930
  | eip1559
  | eip4844
  | eip7702
  deriving DecidableEq, Repr

/-- A signature: `r`, `s` and the parity of `y`. -/
structure Signature where
  r : B256
  s : B256
  oddYParity : Bool
  deriving DecidableEq, Repr

/-- A transaction with its signature. -/
structure TransactionSigned where
  signature : Signature
  transaction : Transaction
  deriving DecidableEq, Repr

/-- A transaction with its recovered signer. -/
structure RecoveredTx where
  signer : Address
  tx : TransactionSigned
  deriving DecidableEq, Repr

namespace Transaction

/-- The gas price field, present on legacy and access-list transactions only. -/
def gasPrice : Transaction → Option ℕ
  | .legacy tx => some tx.gasPrice
  | .eip2930 tx => some tx.gasPrice
  | .eip1559 _ => none
  | .eip4844 _ => none
  | .eip7702 _ => none

/-- The gas limit field. -/
def gasLimit : Transaction → ℕ
  | .legacy tx => tx.gasLimit
  | .eip2930 tx => tx.gasLimit
  | .eip1559 tx => tx.gasLimit
  | .eip4844 tx => tx.gasLimit
  | .eip7702 tx => tx.gasLimit

/-- The gas one blob takes. -/
def dataGasPerBlob : ℕ := 131072

/-- The blob gas of a transaction, present on blob transactions only. -/
def blobGasUsed : Transaction → Option ℕ
  | .eip4844 tx => some (dataGasPerBlob * tx.blobVersionedHashes.length)
  | _ => none

/-- The type tag of a transaction. -/
def txType : Transaction → TxType
  | .legacy _ => .legacy
  | .eip2930 _ => .eip2930
  | .eip1559 _ => .eip1559
  | .eip4844 _ => .eip4844
  | .eip7702 _ => .eip7702

end Transaction

namespace TransactionSigned

/-- The method `TransactionSigned::is_system_transaction`: the gas price is `Some(0)`. -/
def isSystemTransaction (tx : TransactionSigned) : Bool :=
  match tx.transaction.gasPrice with
  | some 0 => true
  | _ => false

end TransactionSigned

/-- The free function `executor::is_system_transaction`. -/
def isSystemTransaction (tx : TransactionSigned) : Bool :=
  match tx.transaction.gasPrice with
  | none => false
  | some gasPrice => gasPrice == 0

/-- The two tests for a system transaction agree. -/
theorem executor_isSystemTransaction_eq (tx : TransactionSigned) :
    isSystemTransaction tx = tx.isSystemTransaction := by
  unfold isSystemTransaction TransactionSigned.isSystemTransaction
  rcases tx.transaction.gasPrice with - | - | n <;> rfl

/-! ### Example transactions -/

/-- A transfer that HyperCore injected. -/
def exampleSystemTx : RecoveredTx where
  signer := 0x2222222222222222222222222222222222222222
  tx :=
    { signature := { r := 1, s := 1, oddYParity := true }
      transaction := .legacy
        { chainId := some 999, nonce := 0, gasPrice := 0, gasLimit := 200000
          dest := .call 0x1111111111111111111111111111111111111111, value := 1, input := [] } }

/-- A transfer of a user. -/
def exampleUserTx : RecoveredTx where
  signer := 0x3333333333333333333333333333333333333333
  tx :=
    { signature := { r := 1, s := 2, oddYParity := false }
      transaction := .legacy
        { chainId := some 999, nonce := 0, gasPrice := 1, gasLimit := 21000
          dest := .call 0x1111111111111111111111111111111111111111, value := 1, input := [] } }

/-- The next transfer of that user. -/
def exampleNextTx : RecoveredTx where
  signer := 0x3333333333333333333333333333333333333333
  tx :=
    { signature := { r := 1, s := 3, oddYParity := false }
      transaction := .legacy
        { chainId := some 999, nonce := 1, gasPrice := 1, gasLimit := 21000
          dest := .call 0x1111111111111111111111111111111111111111, value := 1, input := [] } }

/-- The hashes of these transactions. -/
def exampleTxHash (tx : TransactionSigned) : B256 :=
  if tx = exampleSystemTx.tx then
    0x44eb285d9898a9a6e71fecb671f3b8e423448c99c502f3fa8f8a04493f08f74f
  else if tx = exampleUserTx.tx then
    0x1ee893ef9e73c83be2430c93a616e057936105359f9d4a2699c20cb4b1148c0d
  else if tx = exampleNextTx.tx then
    0x75160b8abcc676e32e55aa2c2e548977e3692940aaec3ff85f38e67d59e281f6
  else 0

/-! ### Receipts -/

/-- A log as the EVM emits it. -/
structure Log where
  address : Address
  topics : List B256
  data : Bytes
  deriving DecidableEq, Repr

/-- An execution receipt. -/
structure Receipt where
  txType : TxType
  success : Bool
  cumulativeGasUsed : ℕ
  logs : List Log
  deriving DecidableEq, Repr

/-! ### Headers and blocks -/

/-- A block header. -/
structure Header where
  parentHash : B256
  ommersHash : B256
  beneficiary : Address
  stateRoot : B256
  transactionsRoot : B256
  receiptsRoot : B256
  withdrawalsRoot : Option B256
  logsBloom : BitVec 2048
  difficulty : ℕ
  number : ℕ
  gasLimit : ℕ
  gasUsed : ℕ
  timestamp : ℕ
  mixHash : B256
  nonce : BitVec 64
  baseFeePerGas : Option ℕ
  extraData : Bytes
  parentBeaconBlockRoot : Option B256
  blobGasUsed : Option ℕ
  excessBlobGas : Option ℕ
  requestsHash : Option B256
  deriving DecidableEq, Repr

/-- The header with this number and nothing else. -/
def Header.zero (number : ℕ) : Header where
  parentHash := 0
  ommersHash := 0
  beneficiary := 0
  stateRoot := 0
  transactionsRoot := 0
  receiptsRoot := 0
  withdrawalsRoot := none
  logsBloom := 0
  difficulty := 0
  number := number
  gasLimit := 0
  gasUsed := 0
  timestamp := 0
  mixHash := 0
  nonce := 0
  baseFeePerGas := none
  extraData := []
  parentBeaconBlockRoot := none
  blobGasUsed := none
  excessBlobGas := none
  requestsHash := none

/-- A validator withdrawal. -/
structure Withdrawal where
  index : ℕ
  validatorIndex : ℕ
  address : Address
  amount : ℕ
  deriving DecidableEq, Repr

/-- An Ethereum block body over the given transaction type. -/
structure BlockBody where
  transactions : List TransactionSigned
  ommers : List Header
  withdrawals : Option (List Withdrawal)
  deriving DecidableEq, Repr

/-- The blobs, commitments and proofs of one blob transaction. -/
structure BlobTransactionSidecar where
  blobs : List Bytes
  commitments : List Bytes
  proofs : List Bytes
  deriving DecidableEq, Repr

/-- The input a read precompile was recorded under. -/
structure ReadPrecompileInput where
  input : Bytes
  gasLimit : ℕ
  deriving DecidableEq, Repr

/-- The recorded answer of a read precompile. -/
inductive ReadPrecompileResult where
  | ok (gasUsed : ℕ) (bytes : Bytes)
  | outOfGas
  | error
  | unexpectedError
  deriving DecidableEq, Repr

/-- The recorded calls of one precompile address. -/
abbrev ReadPrecompileCall := Address × List (ReadPrecompileInput × ReadPrecompileResult)

/-- The recorded read-precompile calls of a block. -/
abbrev ReadPrecompileCalls := List ReadPrecompileCall

/-- What a block carries besides the Ethereum data, as execution reads it. -/
structure HlExtras where
  readPrecompileCalls : Option ReadPrecompileCalls
  highestPrecompileAddress : Option Address
  deriving DecidableEq, Repr

/-- The body of an HL block. -/
structure HlBlockBody where
  inner : BlockBody
  sidecars : Option (List BlobTransactionSidecar)
  readPrecompileCalls : Option ReadPrecompileCalls
  highestPrecompileAddress : Option Address
  deriving DecidableEq, Repr

/-- The transactions of a body. -/
def HlBlockBody.transactions (body : HlBlockBody) : List TransactionSigned :=
  body.inner.transactions

/-- An HL block. -/
structure HlBlock where
  header : Header
  body : HlBlockBody
  deriving DecidableEq, Repr

/-! ### The record a block source delivers -/

/-- A system transaction of a block record. -/
structure SystemTx where
  tx : Transaction
  deriving DecidableEq, Repr

/-- A header with the hash the record claims for it. -/
structure SealedHeader where
  hash : B256
  header : Header
  deriving DecidableEq, Repr

/-- The block of a record. -/
structure SealedBlock where
  header : SealedHeader
  body : BlockBody
  deriving DecidableEq, Repr

/-- The block format versions; there is one so far. -/
inductive EvmBlock where
  | reth115 (block : SealedBlock)
  deriving DecidableEq, Repr

/-- A block with what HyperCore adds to it. -/
structure BlockAndReceipts where
  block : EvmBlock
  systemTxs : List SystemTx
  readPrecompileCalls : ReadPrecompileCalls
  highestPrecompileAddress : Option Address
  deriving DecidableEq, Repr

/-- The sealed block inside the only format version. -/
def EvmBlock.sealed : EvmBlock → SealedBlock
  | .reth115 block => block

/-- The hash recorded in the sealed header. -/
def BlockAndReceipts.hash (b : BlockAndReceipts) : B256 :=
  b.block.sealed.header.hash

/-- The number in the header. -/
def BlockAndReceipts.number (b : BlockAndReceipts) : ℕ :=
  b.block.sealed.header.header.number

/-- The conversion to the node's own block: the system transactions come first, each through
`systemTxToRethTransaction`, then the block's own transactions. -/
def BlockAndReceipts.toRethBlock (systemTxToRethTransaction : SystemTx → TransactionSigned)
    (b : BlockAndReceipts) : HlBlock where
  header := b.block.sealed.header.header
  body :=
    { inner :=
        { transactions :=
            b.systemTxs.map systemTxToRethTransaction ++ b.block.sealed.body.transactions
          withdrawals := b.block.sealed.body.withdrawals
          ommers := b.block.sealed.body.ommers }
      sidecars := none
      readPrecompileCalls := some b.readPrecompileCalls
      highestPrecompileAddress := b.highestPrecompileAddress }

@[simp] theorem toRethBlock_header (f : SystemTx → TransactionSigned) (b : BlockAndReceipts) :
    (b.toRethBlock f).header = b.block.sealed.header.header :=
  rfl

end RethHl
