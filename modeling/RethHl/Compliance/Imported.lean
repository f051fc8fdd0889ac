import RethHl.Compliance.SystemTxs
import RethHl.Evm.Config
import RethHl.Node.RethCompat

/-!
# What becomes of a block record

A block reaches the RPC by a long way. The record of a block source is converted to a block of the
node, with the system transactions in front and a pseudo signature on each; the engine takes the
block as a payload, recovers the senders and executes it; the compliant handlers take the block
apart again.

`imported_shown` follows a record all the way: **what the handlers show is what the record held**.
The transactions of a block are the record's own, numbered from zero, and the transactions root
commits to these; the system transactions are those of the record, in order, and each is sent by the
system address that its contract stands for.

The way back is not obvious, because neither side is handed on as such. The conversion merges the
two lists, and every later step tells them apart by the gas price, or by the gas of the receipts.
-/

namespace RethHl.Compliance

open SpotM

/-! ### The conversion -/

/-- The `s` value of a converted transaction, given the maps that were at hand. -/
def HasSValue (maps : ℕ → SpotMap) (transaction : SystemTx) (s : B256) : Prop :=
  (transaction.lookup = none → s = 1) ∧
    ∀ contract, transaction.lookup = some contract →
      ∃ n spot, maps n contract = some spot ∧ s = spot.toS

/-- The sender of a converted transaction: the address of the native token, or that of the token
whose contract is called. -/
def HasSender (maps : ℕ → SpotMap) (transaction : SystemTx) (sender : Address) : Prop :=
  (transaction.lookup = none → sender = nativeSystemAddress) ∧
    ∀ contract, transaction.lookup = some contract →
      ∃ n spot, maps n contract = some spot ∧ sender = sToAddress spot.toS

/-- A converted transaction is the transaction of the record with a pseudo signature. -/
def ConvertsTo (maps : ℕ → SpotMap) (transaction : SystemTx) (signed : TransactionSigned) : Prop :=
  signed.transaction = transaction.tx ∧ HasSValue maps transaction signed.signature.s

theorem HasSValue.hasSender {maps : ℕ → SpotMap} {transaction : SystemTx} {s : B256}
    (h : HasSValue maps transaction s) : HasSender maps transaction (sToAddress s) := by
  refine ⟨fun hnone ↦ ?_, fun contract hcontract ↦ ?_⟩
  · rw [h.1 hnone]
    exact if_pos rfl
  · obtain ⟨n, spot, hspot, rfl⟩ := h.2 contract hcontract
    exact ⟨n, spot, hspot, rfl⟩

/-- The maps that are still to come are maps of the whole way. -/
theorem tables_iterate (answers : ℕ → SpotMeta) (s : EvmMap) (k n : ℕ) :
    tables answers ((EvmMap.next answers)^[k] s) n = tables answers s (n + k) := by
  have h := congrArg EvmMap.map (next_iterate answers ((EvmMap.next answers)^[k] s) n)
  rw [← Function.iterate_add_apply, next_iterate] at h
  exact h.symm

theorem ConvertsTo.of_iterate {answers : ℕ → SpotMeta} {s : EvmMap} {k : ℕ}
    {transaction : SystemTx} {signed : TransactionSigned}
    (h : ConvertsTo (tables answers ((EvmMap.next answers)^[k] s)) transaction signed) :
    ConvertsTo (tables answers s) transaction signed := by
  refine ⟨h.1, h.2.1, fun contract hcontract ↦ ?_⟩
  obtain ⟨n, spot, hspot, hs⟩ := h.2.2 contract hcontract
  rw [tables_iterate] at hspot
  exact ⟨n + k, spot, hspot, hs⟩

section Conversion

variable {post : String → ℕ → Except String SpotMeta} {chainId : ℕ} {answers : ℕ → SpotMeta}
  (hanswers : ∀ n, fetchSpotMeta post chainId n = .ok (answers n))

include hanswers

/-- What the conversion of a call gives, if it ends. -/
theorem convertsTo_of_run {transaction : SystemTx} (hcall : transaction.IsLegacyCall) {fuel : ℕ}
    {s : EvmMap} {outcome : Except Panic (TransactionSigned × EvmMap)}
    (h : ((systemTxToRethTransaction post chainId fuel transaction).run s).run = some outcome) :
    ∃ signed k, outcome = .ok (signed, (EvmMap.next answers)^[k] s) ∧
      ConvertsTo (tables answers s) transaction signed := by
  obtain ⟨tx, contract, rfl, hdest⟩ := hcall
  by_cases hinput : tx.input = []
  · rw [run_systemTx_of_isEmpty post chainId fuel hdest hinput] at h
    refine ⟨pseudoSigned tx 1, 0, (Option.some.inj h).symm, rfl, fun _ ↦ rfl,
      fun target hlookup ↦ ?_⟩
    rw [SystemTx.lookup_of_isEmpty hdest hinput] at hlookup
    exact nomatch hlookup
  · obtain ⟨n, -, -, spot, hspot, rfl⟩ := (run_systemTx_eq_some_iff hanswers hdest hinput).1 h
    refine ⟨pseudoSigned tx spot.toS, n, by rw [next_iterate], rfl, fun hlookup ↦ ?_,
      fun target hlookup ↦ ?_⟩
    · rw [SystemTx.lookup_of_ne_nil hdest hinput] at hlookup
      exact nomatch hlookup
    · rw [SystemTx.lookup_of_ne_nil hdest hinput] at hlookup
      obtain rfl := Option.some.inj hlookup
      exact ⟨n, spot, hspot, rfl⟩

/-- The system transactions of a record are converted one by one. -/
theorem forall₂_convertsTo_of_run {transactions : List SystemTx}
    (hcalls : ∀ transaction ∈ transactions, transaction.IsLegacyCall) {fuel : ℕ} {s : EvmMap}
    {outcome : Except Panic (List TransactionSigned × EvmMap)}
    (h : ((transactions.mapM (systemTxToRethTransaction post chainId fuel)).run s).run =
      some outcome) :
    ∃ converted s', outcome = .ok (converted, s') ∧
      List.Forall₂ (ConvertsTo (tables answers s)) transactions converted := by
  induction transactions generalizing s outcome with
  | nil => exact ⟨[], s, (Option.some.inj h).symm, .nil⟩
  | cons transaction rest ih =>
    rw [List.mapM_cons] at h
    obtain ⟨first, hfirst, h⟩ := run_bind_eq_some h
    obtain ⟨signed, k, rfl, hsigned⟩ :=
      convertsTo_of_run hanswers (hcalls _ List.mem_cons_self) hfirst
    obtain ⟨others, hothers, h⟩ := run_bind_eq_some (h signed _ rfl)
    obtain ⟨converted, s', rfl, hconverted⟩ :=
      ih (fun t ht ↦ hcalls t (List.mem_cons_of_mem _ ht)) hothers
    refine ⟨signed :: converted, s', (Option.some.inj (h converted s' rfl)).symm,
      .cons hsigned (hconverted.imp fun _ _ h ↦ h.of_iterate)⟩

/-- What a record is converted to. -/
theorem toRethBlock_cases {record : BlockAndReceipts}
    (hcalls : ∀ transaction ∈ record.systemTxs, transaction.IsLegacyCall) {s s' : EvmMap}
    {block : HlBlock}
    (h : Returns (fun fuel ↦ record.block.sealed.toRethBlock post chainId fuel
      record.readPrecompileCalls record.highestPrecompileAddress record.systemTxs) s block s') :
    ∃ converted, List.Forall₂ (ConvertsTo (tables answers s)) record.systemTxs converted ∧
      block = record.block.sealed.withSystemTxs record.readPrecompileCalls
        record.highestPrecompileAddress converted := by
  obtain ⟨fuel, hfuel⟩ := h
  obtain ⟨first, hfirst, hrest⟩ := run_bind_eq_some (hfuel fuel le_rfl)
  obtain ⟨converted, s'', rfl, hconverted⟩ := forall₂_convertsTo_of_run hanswers hcalls hfirst
  have hblock := Except.ok.inj (Option.some.inj (hrest converted s'' rfl))
  exact ⟨converted, hconverted, (Prod.mk.inj hblock).1.symm⟩

end Conversion

/-! ### The record in the block -/

/-- A record as `hl-node` writes it: the system transactions are calls that cost nothing, every
other transaction has a price, and all of them fit in one vector. -/
structure IsWellFormed (record : BlockAndReceipts) : Prop where
  length_lt : record.systemTxs.length + record.block.sealed.body.transactions.length < u64Size
  calls : ∀ transaction ∈ record.systemTxs, transaction.IsLegacyCall
  free : ∀ transaction ∈ record.systemTxs, transaction.tx.gasPrice = some 0
  paid : ∀ tx ∈ record.block.sealed.body.transactions, tx.isSystemTransaction = false

theorem isSystemTransaction_of_gasPrice {tx : TransactionSigned}
    (h : tx.transaction.gasPrice = some 0) : tx.isSystemTransaction = true := by
  rw [TransactionSigned.isSystemTransaction, h]
  rfl

/-- Every converted transaction is a system transaction. -/
theorem isSystemTransaction_of_convertsTo {maps : ℕ → SpotMap} {transactions : List SystemTx}
    (hfree : ∀ transaction ∈ transactions, transaction.tx.gasPrice = some 0)
    {converted : List TransactionSigned}
    (h : List.Forall₂ (ConvertsTo maps) transactions converted) :
    ∀ tx ∈ converted, tx.isSystemTransaction = true := by
  induction h with
  | nil => exact fun tx htx ↦ nomatch htx
  | @cons transaction signed transactions converted hsigned _ ih =>
    intro tx htx
    rcases List.mem_cons.1 htx with rfl | htx
    · have hprice := hfree transaction List.mem_cons_self
      rw [← hsigned.1] at hprice
      exact isSystemTransaction_of_gasPrice hprice
    · exact ih (fun t ht ↦ hfree t (List.mem_cons_of_mem _ ht)) tx htx

section Split

variable {converted own : List TransactionSigned}
  (hsystem : ∀ tx ∈ converted, tx.isSystemTransaction = true)
  (huser : ∀ tx ∈ own, tx.isSystemTransaction = false)

include hsystem huser

/-- The test for a system transaction takes the two lists apart again. -/
theorem filter_merged :
    (converted ++ own).filter TransactionSigned.isSystemTransaction = converted ∧
      (converted ++ own).filter (fun tx ↦ !tx.isSystemTransaction) = own := by
  rw [List.filter_append, List.filter_append, List.filter_eq_self.2 hsystem,
    List.filter_eq_nil_iff.2 fun tx htx ↦ by rw [huser tx htx]; simp,
    List.filter_eq_nil_iff.2 fun tx htx ↦ by rw [hsystem tx htx]; simp,
    List.filter_eq_self.2 fun tx htx ↦ by rw [huser tx htx]; rfl]
  exact ⟨List.append_nil _, List.nil_append _⟩

/-- The system transactions of the merged list are the first ones. -/
theorem systemFirst_merged {txs : List RecoveredTx}
    (htxs : txs.map RecoveredTx.tx = converted ++ own) : SystemFirst txs := by
  refine ⟨converted.length, fun i tx htx ↦ ?_⟩
  have hget : (converted ++ own)[i]? = some tx.tx := by
    rw [← htxs, List.getElem?_map, htx, Option.map_some]
  rw [executor_isSystemTransaction_eq]
  rcases Nat.lt_or_ge i converted.length with hlt | hge
  · rw [List.getElem?_append_left hlt] at hget
    exact iff_of_true (hsystem _ (List.mem_of_getElem? hget)) hlt
  · rw [List.getElem?_append_right hge] at hget
    rw [huser _ (List.mem_of_getElem? hget)]
    exact iff_of_false Bool.false_ne_true (Nat.not_lt.2 hge)

/-- An executed block splits where the record did. -/
theorem executedBlock_split {executed : ExecutedBlock}
    (htxs : executed.transactions.map RecoveredTx.tx = converted ++ own) :
    executed.system.map (fun p ↦ p.1.tx) = converted ∧
      executed.user.map (fun p ↦ p.1.tx) = own := by
  have hentries : executed.transactions.map RecoveredTx.tx =
      executed.system.map (fun p ↦ p.1.tx) ++ executed.user.map fun p ↦ p.1.tx := by
    rw [ExecutedBlock.transactions, ExecutedBlock.entries, List.map_map, List.map_append]
    rfl
  have hexecuted := @filter_merged (executed.system.map fun p ↦ p.1.tx)
    (executed.user.map fun p ↦ p.1.tx)
    (fun tx htx ↦ by
      obtain ⟨p, hp, rfl⟩ := List.mem_map.1 htx
      exact executed.system_tx p hp)
    (fun tx htx ↦ by
      obtain ⟨p, hp, rfl⟩ := List.mem_map.1 htx
      exact executed.user_tx p hp)
  obtain ⟨hfirst, hrest⟩ := filter_merged hsystem huser
  rw [← hentries, htxs] at hexecuted
  exact ⟨hexecuted.1.symm.trans hfirst, hexecuted.2.symm.trans hrest⟩

end Split

/-! ### What the handlers show -/

/-- The compliant handlers show a record: its own transactions and what was recorded for them on one
side, its system transactions and their senders on the other. -/
structure Shown (maps : ℕ → SpotMap) (record : BlockAndReceipts) {R : Type} (api : EthApi R)
    (fill : Fill) (state : NodeState) (executed : ExecutedBlock) : Prop where
  block : ∃ userTxs, (blockByHash api executed.hash true).runAt state =
      .ok (some { api.rpcBlock executed true with transactions := .full userTxs }) ∧
    userTxs.map (fun tx ↦ tx.inner.tx) = record.block.sealed.body.transactions ∧
    ∀ (k : ℕ) (tx : RpcTransaction), userTxs[k]? = some tx → tx.transactionIndex = some k
  receipts : ∃ receipts, (blockReceipts api (.hash executed.hash none)).runAt state =
      .ok (some receipts) ∧
    receipts.length = record.block.sealed.body.transactions.length
  count : (blockTransactionCountByHash executed.hash).runAt state =
    .ok (some record.block.sealed.body.transactions.length)
  system : ∃ systemTxs, (getSystemTxsByBlockId api fill (.hash executed.hash none)).runAt state =
      .ok (some systemTxs) ∧
    List.Forall₂ (fun transaction tx ↦ tx.inner.tx.transaction = transaction.tx ∧
      HasSender maps transaction tx.inner.signer) record.systemTxs systemTxs ∧
    ∀ (i : ℕ) (tx : RpcTransaction), systemTxs[i]? = some tx → tx.transactionIndex = some i

/-- The handlers show what an executed block was made of. -/
theorem shown_of_split {maps : ℕ → SpotMap} {record : BlockAndReceipts}
    {converted : List TransactionSigned} {inner : InnerRecovery} {executed : ExecutedBlock}
    (hconverted : List.Forall₂ (ConvertsTo maps) record.systemTxs converted)
    (hsystem : executed.system.map (fun p ↦ p.1.tx) = converted)
    (huser : executed.user.map (fun p ↦ p.1.tx) = record.block.sealed.body.transactions)
    (hsigned : ∀ tx ∈ executed.transactions, SignedBy inner tx.tx tx.signer)
    {R : Type} (api : EthApi R) {fill : Fill} (hfill : fill.Succeeds) {state : NodeState}
    (hknown : state.blockById (.hash executed.hash none) = some executed) :
    Shown maps record api fill state executed := by
  have hnumber : state.blockById (.number (.number executed.number)) = some executed :=
    state.canonical _ executed (by simp) hknown
  have hload := state.loadBlock_of_blockById hknown
  have hlength : executed.user.length = record.block.sealed.body.transactions.length := by
    rw [← huser, List.length_map]
  refine ⟨⟨(executed.user.map Prod.fst).mapIdx fun k tx ↦
      executed.rpcTransaction (api.effectiveGasPrice executed tx) k tx, ?_, ?_, ?_⟩,
    ⟨compliantReceipts api executed, ?_, ?_⟩, ?_, ?_⟩
  · rw [blockByHash, adjustedBlock, Reads.runAt_bind, Reads.runAt_ask, ok_bind, hload]
    show (adjustBlock (api.rpcBlock executed true) >>= _).runAt state = _
    rw [Reads.runAt_bind, runAt_adjustBlock (number_rpcBlock api executed true) hnumber,
      adjustTransactions_rpcBlock_full]
    rfl
  · rw [← huser]
    refine List.ext_getElem? fun i ↦ ?_
    simp only [List.getElem?_map, List.getElem?_mapIdx, Option.map_map]
    rfl
  · intro k tx htx
    rw [List.getElem?_mapIdx, Option.map_eq_some_iff] at htx
    obtain ⟨tx', -, rfl⟩ := htx
    rfl
  · rw [blockReceipts, Reads.runAt_bind, runAt_adjustBlockReceipts api hknown, ok_bind]
    rfl
  · rw [compliantReceipts, List.length_map, length_inputsFrom, hlength]
  · rw [← hlength]
    exact runAt_blockTransactionCount ((state.countBlock_eq _ (by simp)).trans hknown) hknown
  · obtain ⟨systemTxs, hfilter, hinner, hindex⟩ := filterMap_systemTxs api executed hfill
    refine ⟨systemTxs, runAt_getSystemTxsByBlockId api hload hfilter, ?_, hindex⟩
    have htxs : systemTxs.map (fun tx ↦ tx.inner.tx) = converted := by
      have h := congrArg (List.map RecoveredTx.tx) hinner
      rw [List.map_map, List.map_map] at h
      exact h.trans hsystem
    rw [← htxs, List.forall₂_map_right_iff] at hconverted
    -- a system transaction is recovered from its pseudo signature
    have hsender : ∀ tx ∈ systemTxs, tx.inner.tx.isSystemTransaction = true ∧
        SignedBy inner tx.inner.tx tx.inner.signer := by
      intro tx htx
      have hmem : tx.inner ∈ executed.system.map Prod.fst := hinner ▸ List.mem_map_of_mem htx
      obtain ⟨p, hp, hpeq⟩ := List.mem_map.1 hmem
      refine ⟨hpeq ▸ executed.system_tx p hp, hsigned _ ?_⟩
      rw [ExecutedBlock.transactions, ExecutedBlock.entries, List.map_append]
      exact List.mem_append_left _ hmem
    have hboth := (List.forall₂_and_left systemTxs record.systemTxs).2
      ⟨hsender, List.Forall₂.flip hconverted⟩
    refine (List.Forall₂.flip hboth).imp fun transaction tx htx ↦ ?_
    obtain ⟨⟨hsys, hsignedBy⟩, hconverts⟩ := htx
    have hrecover : tx.inner.tx.recoverSigner inner = .ok (sToAddress tx.inner.tx.signature.s) :=
      if_pos hsys
    obtain hsigner : sToAddress tx.inner.tx.signature.s = tx.inner.signer :=
      Except.ok.inj (hrecover.symm.trans hsignedBy)
    exact ⟨hconverts.1, hsigner ▸ hconverts.2.hasSender⟩

/-! ### The whole way -/

/-- A user transaction uses gas. -/
def UsesGas (revm : Revm) : Prop :=
  ∀ db env precompiles tx result state,
    revm.transact db env precompiles tx = .ok (result, state) →
      isSystemTransaction tx.tx = false → 0 < result.gasUsed

/-- Whatever is committed by calls, the user transactions among it use gas. -/
theorem gas_pos_of_runCalls {revm : Revm} (hgas : UsesGas revm)
    (calls : List HlBlockExecutor.Call)
    (run : HlBlockExecutor revm × List (RecoveredTx × ℕ))
    (hrun : ∀ entry ∈ run.2, isSystemTransaction entry.1.tx = false → 0 < entry.2) :
    ∀ entry ∈ (calls.foldl HlBlockExecutor.runCall run).2,
      isSystemTransaction entry.1.tx = false → 0 < entry.2 := by
  induction calls generalizing run with
  | nil => exact hrun
  | cons call calls ih =>
    refine ih _ ?_
    rw [HlBlockExecutor.runCall]
    rcases run.1.executeInPlace_cases call.tx call.shouldCommit with
      ⟨e, hcall, -⟩ | ⟨-, hcall, -⟩ | ⟨result, state, -, htransact, -, hcall, -⟩
    · rw [hcall]
      exact hrun
    · rw [hcall]
      exact hrun
    · rw [hcall]
      intro entry hentry
      rcases List.mem_append.1 hentry with hentry | hentry
      · exact hrun entry hentry
      · obtain rfl := List.mem_singleton.1 hentry
        exact hgas _ _ _ _ _ _ htransact

/-- The executor of a block starts fresh, in the environment of the block. -/
theorem exists_fresh_of_executeBlock {revm : Revm} {db : revm.Db} {env : BlockEnv}
    {precompiles : PrecompilesMap} {extras : HlExtras} {txs : List RecoveredTx}
    {executor' : HlBlockExecutor revm}
    (h : executeBlock revm db env precompiles extras txs = .ok executor') :
    ∃ executor : HlBlockExecutor revm, executor.IsFresh ∧ executor.env = env ∧
      executor.executeTransactions txs = .ok executor' := by
  obtain ⟨start, hnew, h⟩ := exists_of_bind_eq_ok h
  obtain ⟨ready, hpre, h⟩ := exists_of_bind_eq_ok h
  obtain ⟨hgas, hreceipts⟩ := applyPreExecutionChanges_new hnew hpre
  refine ⟨ready, ⟨hgas, hreceipts⟩, ?_, h⟩
  -- neither of the steps before the first transaction touches the environment
  have hprecompiles : ∀ {executor next : HlBlockExecutor revm},
      executor.setPrecompiles = .ok next → next.env = executor.env := by
    intro executor next hnext
    rw [HlBlockExecutor.setPrecompiles] at hnext
    split at hnext
    · cases hnext
    · obtain rfl := Except.ok.inj hnext
      rfl
  obtain ⟨again, hagain, hdeploy⟩ := exists_of_bind_eq_ok hpre
  have hready : ready.env = again.env := by
    rw [HlBlockExecutor.deployCoreWriterContract] at hdeploy
    split_ifs at hdeploy
    · obtain rfl := Except.ok.inj hdeploy
      rfl
    · split at hdeploy
      · cases hdeploy
      · obtain rfl := Except.ok.inj hdeploy
        rfl
  exact hready.trans ((hprecompiles hagain).trans (hprecompiles hnew))

/-- The engine executes the transactions of a payload, each with the sender that is recovered. -/
theorem transactionsRecovered_of_payload {hashSlow : Header → B256} {inner : InnerRecovery}
    {payload : HlExecutionData} {recovered : RecoveredBlock}
    (h : ensureWellFormedPayload hashSlow inner payload = .ok recovered) :
    recovered.transactionsRecovered.map RecoveredTx.tx = payload.block.body.transactions ∧
      ∀ tx ∈ recovered.transactionsRecovered, SignedBy inner tx.tx tx.signer := by
  rw [ensureWellFormedPayload_eq] at h
  rcases hsigners : recoverSigners inner payload.block.body.transactions with error | senders
  · rw [hsigners] at h
    exact nomatch h
  · rw [hsigners] at h
    obtain rfl := Except.ok.inj h
    have hall := forall₂_of_recoverSigners hsigners
    exact ⟨map_tx_zipWith hall, fun tx htx ↦ signedBy_of_mem_zipWith hall htx⟩

/-- **What the handlers show is what the record held.** A well-formed record is converted, taken by
the engine as a payload and executed; then the transactions root of the block commits to the
record's own transactions, and any node that knows the executed block shows the record. -/
theorem imported_shown {post : String → ℕ → Except String SpotMeta} {chainId : ℕ}
    {answers : ℕ → SpotMeta} (hanswers : ∀ n, fetchSpotMeta post chainId n = .ok (answers n))
    {record : BlockAndReceipts} (hrecord : IsWellFormed record) {s s' : EvmMap} {block : HlBlock}
    (hconvert : Returns (fun fuel ↦ record.block.sealed.toRethBlock post chainId fuel
      record.readPrecompileCalls record.highestPrecompileAddress record.systemTxs) s block s')
    {hashSlow : Header → B256} {inner : InnerRecovery} {recovered : RecoveredBlock}
    (hpayload : ensureWellFormedPayload hashSlow inner ⟨block⟩ = .ok recovered) {revm : Revm}
    (hbounded : revm.GasBounded) (hgas : UsesGas revm) {db : revm.Db} {env : BlockEnv}
    {precompiles : PrecompilesMap} {executor : HlBlockExecutor revm}
    (hlimit : env.gasLimit < u64Size)
    (hrun : executeBlock revm db env precompiles (contextForPayload ⟨block⟩).extras
      recovered.transactionsRecovered = .ok executor) :
    block.header = record.block.sealed.header.header ∧
    (∀ commitments : Commitments, block.body.calculateTxRoot commitments =
      commitments.transactionRoot record.block.sealed.body.transactions) ∧
    ∃ executed : ExecutedBlock, executed.hash = hashSlow block.header ∧
      executed.header = block.header ∧
      executed.transactions = recovered.transactionsRecovered ∧
      executed.receipts = executor.finish.receipts ∧
      ∀ (R : Type) (api : EthApi R) (fill : Fill) (state : NodeState), fill.Succeeds →
        state.blockById (.hash executed.hash none) = some executed →
          Shown (tables answers s) record api fill state executed := by
  obtain ⟨converted, hconverted, rfl⟩ := toRethBlock_cases hanswers hrecord.calls hconvert
  have hsystem := isSystemTransaction_of_convertsTo hrecord.free hconverted
  refine ⟨rfl, fun commitments ↦ ?_, ?_⟩
  · show commitments.transactionRoot ((converted ++ _).filter _) = _
    rw [(filter_merged hsystem hrecord.paid).2]
  · obtain ⟨hmap, hsigned⟩ := transactionsRecovered_of_payload hpayload
    obtain ⟨start, hfresh, henv, hrun⟩ := exists_fresh_of_executeBlock hrun
    have hsize : recovered.transactionsRecovered.length < u64Size := by
      rw [← @List.length_map _ _ _ RecoveredTx.tx, hmap]
      show (converted ++ record.block.sealed.body.transactions).length < u64Size
      rw [List.length_append, ← hconverted.length_eq]
      exact hrecord.length_lt
    have hpositive := gas_pos_of_runCalls hgas (recovered.transactionsRecovered.map .always)
      (start, []) fun entry hentry ↦ nomatch hentry
    obtain ⟨executed, hhash, hheader, hexecuted, hreceipts⟩ :=
      exists_executedBlock hbounded hfresh (henv ▸ hlimit) hsize
        (systemFirst_merged hsystem hrecord.paid hmap) hrun hpositive
        (hashSlow record.block.sealed.header.header) record.block.sealed.header.header
    obtain ⟨hsys, huser⟩ := executedBlock_split hsystem hrecord.paid (hexecuted ▸ hmap)
    refine ⟨executed, hhash, hheader, hexecuted, hreceipts, fun R api fill state hfill hknown ↦ ?_⟩
    exact shown_of_split hconverted hsys huser (hexecuted ▸ hsigned) api hfill hknown

/-! ### Examples -/

/-- A record with a call of a token, a transfer of the native token, and a transfer of a user. -/
def exampleRecord : BlockAndReceipts where
  block := .reth115
    { header :=
        { hash := 0xe9a9676da1a84a448e698de377f74e257659a1c063195f7a170310ab6baca831
          header := .zero 1 }
      body := { transactions := [exampleUserTx.tx], ommers := [], withdrawals := none } }
  systemTxs := [⟨.legacy exampleCall⟩, ⟨exampleSystemTx.tx.transaction⟩]
  readPrecompileCalls := []
  highestPrecompileAddress := none

/-- The recovery of the user from its signature. -/
def exampleRecovery : InnerRecovery where
  recoverSigner := fun _ ↦ .ok 0xbf245522e70a9ab17675c3e4efe853b2414c701b
  recoverSignerUnchecked := fun _ ↦ .ok 0xbf245522e70a9ab17675c3e4efe853b2414c701b
  recoverUncheckedWithBuf := fun _ buf ↦ (.ok 0xbf245522e70a9ab17675c3e4efe853b2414c701b, buf)

/-- A map that lists the token. -/
def exampleListed : EvmMap where
  map := (exampleAnswers 1).toMap
  requests := 2

/-- The block of the record. -/
def exampleConverted : HlBlock := exampleRecord.toRethBlock (SystemTx.convertBy exampleListed.map)

theorem isWellFormed_exampleRecord : IsWellFormed exampleRecord where
  length_lt := by decide
  calls := by
    intro transaction htransaction
    rcases List.mem_pair.1 htransaction with rfl | rfl
    · exact ⟨exampleCall, _, rfl, rfl⟩
    · exact ⟨_, _, rfl, rfl⟩
  free := by decide
  paid := by decide

theorem usesGas_transferRevm : UsesGas HlBlockExecutor.transferRevm := by
  intro db env precompiles tx result state h _
  simp only [HlBlockExecutor.transferRevm] at h
  split_ifs at h
  obtain ⟨rfl, -⟩ := Prod.mk.inj (Except.ok.inj h)
  decide

/-- The record is shown by a node that stores nothing but its block. -/
theorem imported_shown_exampleRecord :
    ∃ recovered executor, ∃ executed : ExecutedBlock, ∃ state : NodeState,
      ensureWellFormedPayload examplePayloadHash exampleRecovery ⟨exampleConverted⟩ =
        .ok recovered ∧
      executeBlock HlBlockExecutor.transferRevm (0 : ℕ)
        (HlBlockExecutor.transferExecutor 250000).env (fun _ ↦ none)
        (contextForPayload ⟨exampleConverted⟩).extras recovered.transactionsRecovered =
          .ok executor ∧
      executed.transactions = recovered.transactionsRecovered ∧
      executed.receipts = executor.finish.receipts ∧
      Shown (tables exampleAnswers exampleListed) exampleRecord exampleApi exampleFill state
        executed := by
  have hlisted : ∀ transaction ∈ exampleRecord.systemTxs, ∀ contract ∈ transaction.lookup,
      (exampleListed.map contract).isSome := by
    intro transaction htransaction contract hcontract
    rcases List.mem_pair.1 htransaction with rfl | rfl
    · obtain rfl := Option.some.inj hcontract
      rfl
    · exact nomatch hcontract
  have hconvert := returns_toRethBlock_of_listed (fun _ n ↦ .ok (exampleAnswers n)) mainnetChainId
    isWellFormed_exampleRecord.calls hlisted
  obtain ⟨recovered, hpayload⟩ : ∃ recovered,
      ensureWellFormedPayload examplePayloadHash exampleRecovery ⟨exampleConverted⟩ =
        .ok recovered := ⟨_, rfl⟩
  obtain ⟨executor, hrun⟩ : ∃ executor, executeBlock HlBlockExecutor.transferRevm (0 : ℕ)
      (HlBlockExecutor.transferExecutor 250000).env (fun _ ↦ none)
      (contextForPayload ⟨exampleConverted⟩).extras recovered.transactionsRecovered =
        .ok executor := by
    obtain rfl := Except.ok.inj hpayload
    exact ⟨_, rfl⟩
  obtain ⟨-, -, executed, hhash, -, hexecuted, hreceipts, hshown⟩ := imported_shown (fun _ ↦ rfl)
    isWellFormed_exampleRecord hconvert hpayload HlBlockExecutor.transferRevm_gasBounded
    usesGas_transferRevm (by decide) hrun
  set chain : Chain :=
    { blocks := [executed]
      numbers_nodup := List.nodup_singleton _
      hashes_nodup := List.nodup_singleton _ } with hchain
  refine ⟨recovered, executor, executed, chain.state exampleTxHash, hpayload, hrun, hexecuted,
    hreceipts, hshown _ _ _ _ (fun _ _ ↦ ⟨_, rfl⟩) ?_⟩
  exact Chain.find?_eq_of_mem chain.hashes_nodup List.mem_cons_self

end RethHl.Compliance
