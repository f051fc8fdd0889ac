import RethHl.Node.PseudoSigner

/-!
# The environment of a transaction

The virtual machine runs a transaction in an environment that copies its fields and names the
**caller**. The source builds it in two ways. `fromEncodedTx` takes the transaction apart and uses
the sender it is given. `fromRecoveredTx` does the same, except that it derives the sender of a
system transaction from the signature and ignores the one it is given.

A block's transactions come with the sender that was recovered from them, and there the two agree. A
simulated transaction comes with the sender of the request and an **empty signature**: if its gas
price is zero, the second way takes it for a system transaction and runs it as the address zero.
`fromRecoveredTx_eq_iff` says exactly when the two agree.

The conversions of the five transaction types, and that of the envelope, are library code; they are
parameters, with two laws.
-/

namespace RethHl

/-- The environment of a transaction in the virtual machine. -/
structure TxEnv where
  txType : TxType
  caller : Address
  gasLimit : ℕ
  gasPrice : ℕ
  kind : TxKind
  value : ℕ
  data : Bytes
  nonce : ℕ
  chainId : Option ℕ
  accessList : List AccessListItem
  gasPriorityFee : Option ℕ
  blobHashes : List B256
  maxFeePerBlobGas : ℕ
  authorizationList : List SignedAuthorization
  deriving DecidableEq, Repr

/-- The environment of this program wraps another. -/
structure HlTxEnv (T : Type) where
  base : T
  deriving DecidableEq, Repr

/-- The conversions `TxEnv::from_recovered_tx` of the library: one for each transaction type, and
one for the envelope. -/
structure FromRecoveredTx where
  legacy : TxLegacy → Address → TxEnv
  eip2930 : TxEip2930 → Address → TxEnv
  eip1559 : TxEip1559 → Address → TxEnv
  eip4844 : TxEip4844 → Address → TxEnv
  eip7702 : TxEip7702 → Address → TxEnv
  envelope : TransactionSigned → Address → TxEnv

/-- The conversion for the type of a transaction. -/
def FromRecoveredTx.transaction (c : FromRecoveredTx) (tx : Transaction) (sender : Address) :
    TxEnv :=
  match tx with
  | .legacy tx => c.legacy tx sender
  | .eip2930 tx => c.eip2930 tx sender
  | .eip1559 tx => c.eip1559 tx sender
  | .eip4844 tx => c.eip4844 tx sender
  | .eip7702 tx => c.eip7702 tx sender

/-- What the program relies on. -/
structure FromRecoveredTx.Lawful (c : FromRecoveredTx) : Prop where
  /-- The envelope is converted by the type of its transaction. -/
  envelope : ∀ tx sender, c.envelope tx sender = c.transaction tx.transaction sender
  /-- The given sender is the caller. -/
  caller : ∀ tx sender, (c.transaction tx sender).caller = sender

namespace HlTxEnv

variable (c : FromRecoveredTx) (inner : InnerRecovery)

/-- The method `HlTxEnv::from_recovered_tx`; no result when the recovered signer is unwrapped in
vain. -/
def fromRecoveredTx (tx : TransactionSigned) (sender : Address) : Option (HlTxEnv TxEnv) :=
  if tx.transaction.gasPrice.any (· == 0) then
    -- the sender that was given is dropped
    match tx.recoverSigner inner with
    | .ok signer => some { base := c.envelope tx signer }
    | .error _ => none
  else some { base := c.envelope tx sender }

/-- The method `HlTxEnv::from_encoded_tx`. The encoding is not read. -/
def fromEncodedTx (tx : TransactionSigned) (sender : Address) (_encoded : Bytes) : HlTxEnv TxEnv :=
  let base :=
    match tx.transaction with
    | .legacy tx => c.legacy tx sender
    | .eip2930 tx => c.eip2930 tx sender
    | .eip1559 tx => c.eip1559 tx sender
    | .eip4844 tx => c.eip4844 tx sender
    | .eip7702 tx => c.eip7702 tx sender
  { base := base }

end HlTxEnv

/-- The method `try_into_sim_tx`: a request becomes a transaction with an empty signature. -/
def tryIntoSimTx {Request : Type} (buildTypedTx : Request → Except Request Transaction)
    (request : Request) : Except (Request × String) TransactionSigned :=
  match buildTypedTx request with
  | .ok tx => .ok { signature := { r := 0, s := 0, oddYParity := false }, transaction := tx }
  | .error request => .error (request, "Required fields missing")

/-! ### When the two conversions agree -/

/-- The address that an `s` value stands for. -/
theorem sToAddress_eq_iff {s : B256} {sender : Address} :
    sToAddress s = sender ↔
      (s = 1 ∧ sender = 0x2222222222222222222222222222222222222222) ∨
        (s ≠ 1 ∧ sender = s.setWidth 160) := by
  rw [sToAddress_eq]
  split_ifs with hs
  · exact ⟨fun h ↦ .inl ⟨hs, h.symm⟩, fun h ↦ (h.resolve_right fun h ↦ h.1 hs).2.symm⟩
  · exact ⟨fun h ↦ .inr ⟨hs, h.symm⟩, fun h ↦ (h.resolve_left fun h ↦ hs h.1).2.symm⟩

/-- The test of the conversion is that for a system transaction. -/
theorem any_gasPrice_iff (tx : TransactionSigned) :
    tx.transaction.gasPrice.any (· == 0) = tx.isSystemTransaction := by
  unfold TransactionSigned.isSystemTransaction
  rcases tx.transaction.gasPrice with - | - | n <;> rfl

theorem isSystemTransaction_iff_gasPrice {tx : TransactionSigned} :
    tx.isSystemTransaction ↔ tx.transaction.gasPrice = some 0 := by
  unfold TransactionSigned.isSystemTransaction
  rcases tx.transaction.gasPrice with - | - | n <;> simp

/-- The sender that `fromRecoveredTx` runs a transaction with. -/
def effectiveSender (tx : TransactionSigned) (sender : Address) : Address :=
  if tx.isSystemTransaction then sToAddress tx.signature.s else sender

/-- The given sender counts for all but system transactions. -/
theorem effectiveSender_eq_iff {tx : TransactionSigned} {sender : Address} :
    effectiveSender tx sender = sender ↔
      tx.transaction.gasPrice ≠ some 0 ∨ sToAddress tx.signature.s = sender := by
  rw [effectiveSender, ne_eq, ← isSystemTransaction_iff_gasPrice]
  split_ifs with hsystem
  · exact ⟨fun h ↦ .inr h, fun h ↦ h.resolve_left fun hnot ↦ hnot hsystem⟩
  · exact ⟨fun _ ↦ .inl hsystem, fun _ ↦ rfl⟩

section Lawful

variable {c : FromRecoveredTx} (hc : c.Lawful) (inner : InnerRecovery)

theorem fromEncodedTx_eq (c : FromRecoveredTx) (tx : TransactionSigned) (sender : Address)
    (encoded : Bytes) :
    HlTxEnv.fromEncodedTx c tx sender encoded =
      { base := c.transaction tx.transaction sender } := by
  unfold HlTxEnv.fromEncodedTx FromRecoveredTx.transaction
  cases tx.transaction <;> rfl

include hc

/-- The sender that `fromRecoveredTx` uses: it is never unwrapped in vain. -/
theorem fromRecoveredTx_eq (tx : TransactionSigned) (sender : Address) :
    HlTxEnv.fromRecoveredTx c inner tx sender =
      some { base := c.transaction tx.transaction (effectiveSender tx sender) } := by
  rw [HlTxEnv.fromRecoveredTx, any_gasPrice_iff, effectiveSender]
  split_ifs with hsystem
  · simp only [(recoversTo_of_isSystemTransaction inner hsystem).recoverSigner, hc.envelope]
  · rw [hc.envelope]

/-- Environments of one transaction agree when their senders do. -/
theorem transaction_inj {tx : Transaction} {sender sender' : Address} :
    c.transaction tx sender = c.transaction tx sender' ↔ sender = sender' := by
  constructor
  · intro h
    have hcaller := congrArg TxEnv.caller h
    rwa [hc.caller, hc.caller] at hcaller
  · rintro rfl
    rfl

/-- The conversions agree when they use the same sender. -/
theorem agree_iff {tx : TransactionSigned} {sender : Address} {encoded : Bytes} :
    HlTxEnv.fromRecoveredTx c inner tx sender = some (HlTxEnv.fromEncodedTx c tx sender encoded) ↔
      tx.transaction.gasPrice ≠ some 0 ∨ sToAddress tx.signature.s = sender := by
  rw [fromRecoveredTx_eq hc inner, fromEncodedTx_eq, Option.some.injEq, HlTxEnv.mk.injEq,
    transaction_inj hc, effectiveSender_eq_iff]

/-- **The transactions of a block.** The conversions agree on the recovered signer. -/
theorem agree_of_recoverSigner {tx : TransactionSigned} {sender : Address}
    (h : tx.recoverSigner inner = .ok sender) (encoded : Bytes) :
    HlTxEnv.fromRecoveredTx c inner tx sender =
      some (HlTxEnv.fromEncodedTx c tx sender encoded) := by
  rw [agree_iff hc, ne_eq, ← isSystemTransaction_iff_gasPrice]
  by_cases hsystem : tx.isSystemTransaction
  · rw [(recoversTo_of_isSystemTransaction inner hsystem).recoverSigner] at h
    exact .inr (Except.ok.inj h)
  · exact .inl hsystem

/-- **When the two conversions agree.** For every transaction and every sender they do, except for a
transaction of zero gas price with a sender that its signature does not stand for. -/
theorem fromRecoveredTx_eq_iff (tx : TransactionSigned) (sender : Address) (encoded : Bytes) :
    HlTxEnv.fromRecoveredTx c inner tx sender = some (HlTxEnv.fromEncodedTx c tx sender encoded) ↔
      tx.transaction.gasPrice ≠ some 0 ∨
        (tx.signature.s = 1 ∧ sender = 0x2222222222222222222222222222222222222222) ∨
        (tx.signature.s ≠ 1 ∧ sender = tx.signature.s.setWidth 160) := by
  rw [agree_iff hc, sToAddress_eq_iff]

end Lawful

/-! ### The conversions of the library -/

/-- The conversions, field by field. -/
def libraryFromRecoveredTx : FromRecoveredTx :=
  let legacy := fun (tx : TxLegacy) (caller : Address) ↦
    { txType := .legacy, caller, gasLimit := tx.gasLimit, gasPrice := tx.gasPrice, kind := tx.dest
      value := tx.value, data := tx.input, nonce := tx.nonce, chainId := tx.chainId
      accessList := [], gasPriorityFee := none, blobHashes := [], maxFeePerBlobGas := 0
      authorizationList := [] }
  let eip2930 := fun (tx : TxEip2930) (caller : Address) ↦
    { txType := .eip2930, caller, gasLimit := tx.gasLimit, gasPrice := tx.gasPrice, kind := tx.dest
      value := tx.value, data := tx.input, nonce := tx.nonce, chainId := some tx.chainId
      accessList := tx.accessList, gasPriorityFee := none, blobHashes := [], maxFeePerBlobGas := 0
      authorizationList := [] }
  let eip1559 := fun (tx : TxEip1559) (caller : Address) ↦
    { txType := .eip1559, caller, gasLimit := tx.gasLimit, gasPrice := tx.maxFeePerGas
      kind := tx.dest, value := tx.value, data := tx.input, nonce := tx.nonce
      chainId := some tx.chainId, accessList := tx.accessList
      gasPriorityFee := some tx.maxPriorityFeePerGas, blobHashes := [], maxFeePerBlobGas := 0
      authorizationList := [] }
  let eip4844 := fun (tx : TxEip4844) (caller : Address) ↦
    { txType := .eip4844, caller, gasLimit := tx.gasLimit, gasPrice := tx.maxFeePerGas
      kind := .call tx.dest, value := tx.value, data := tx.input, nonce := tx.nonce
      chainId := some tx.chainId, accessList := tx.accessList
      gasPriorityFee := some tx.maxPriorityFeePerGas, blobHashes := tx.blobVersionedHashes
      maxFeePerBlobGas := tx.maxFeePerBlobGas, authorizationList := [] }
  let eip7702 := fun (tx : TxEip7702) (caller : Address) ↦
    { txType := .eip7702, caller, gasLimit := tx.gasLimit, gasPrice := tx.maxFeePerGas
      kind := .call tx.dest, value := tx.value, data := tx.input, nonce := tx.nonce
      chainId := some tx.chainId, accessList := tx.accessList
      gasPriorityFee := some tx.maxPriorityFeePerGas, blobHashes := [], maxFeePerBlobGas := 0
      authorizationList := tx.authorizationList }
  { legacy, eip2930, eip1559, eip4844, eip7702
    envelope := fun tx caller ↦
      match tx.transaction with
      | .legacy tx => legacy tx caller
      | .eip2930 tx => eip2930 tx caller
      | .eip1559 tx => eip1559 tx caller
      | .eip4844 tx => eip4844 tx caller
      | .eip7702 tx => eip7702 tx caller }

theorem lawful_libraryFromRecoveredTx : libraryFromRecoveredTx.Lawful where
  envelope := by
    rintro ⟨signature, transaction⟩ sender
    cases transaction <;> rfl
  caller := by
    intro tx sender
    cases tx <;> rfl

/-- A transfer with a gas price of zero. -/
def exampleTransfer : TxLegacy where
  chainId := some 999
  nonce := 0
  gasPrice := 0
  gasLimit := 21000
  dest := .call 0x1111111111111111111111111111111111111111
  value := 1
  input := []

/-- The conversions agree on a transfer that HyperCore injected. -/
theorem fromRecoveredTx_eq_iff_exampleSystemTx :
    HlTxEnv.fromRecoveredTx libraryFromRecoveredTx exampleInner exampleSystemTx.tx
      exampleSystemTx.signer =
        some (HlTxEnv.fromEncodedTx libraryFromRecoveredTx exampleSystemTx.tx
          exampleSystemTx.signer []) :=
  (fromRecoveredTx_eq_iff lawful_libraryFromRecoveredTx exampleInner _ _ _).2
    (.inr (.inl ⟨rfl, rfl⟩))

/-- The transfer as a simulated transaction. -/
def exampleSimTx : TransactionSigned where
  signature := { r := 0, s := 0, oddYParity := false }
  transaction := .legacy exampleTransfer

/-- **A simulated transaction of zero gas price runs as the address zero** in one conversion, and as
the sender of the request in the other. -/
theorem simulated_conversions_differ :
    tryIntoSimTx (fun tx : Transaction ↦ .ok tx) (.legacy exampleTransfer) = .ok exampleSimTx ∧
      HlTxEnv.fromRecoveredTx libraryFromRecoveredTx exampleInner exampleSimTx
        exampleUserTx.signer =
          some { base := libraryFromRecoveredTx.legacy exampleTransfer 0 } ∧
      HlTxEnv.fromEncodedTx libraryFromRecoveredTx exampleSimTx exampleUserTx.signer [] =
        { base := libraryFromRecoveredTx.legacy exampleTransfer exampleUserTx.signer } ∧
      HlTxEnv.fromRecoveredTx libraryFromRecoveredTx exampleInner exampleSimTx
        exampleUserTx.signer ≠
          some (HlTxEnv.fromEncodedTx libraryFromRecoveredTx exampleSimTx
            exampleUserTx.signer []) := by
  decide +kernel

end RethHl
