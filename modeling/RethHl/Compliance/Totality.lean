import RethHl.Compliance.Views

/-!
# When the compliant handlers answer

A handler should answer every request: with nothing for a block or a transaction that the node does
not know, and for a system transaction, and without a fault in every case. The handlers mix an
existence check of the wrapped API with a second lookup that must succeed, so whether they answer
depends on the order of the two.

`meets_iff` gives the exact condition for each request.

* A block that is looked up first and counted afterwards is always there, except for a pending
  block: the wrapped API has it from what is pending, and the provider looks its number up.
* **`block_receipts` counts first**, so a block unknown to the provider is a fault and not an empty
  answer.
* **`transaction_receipt` subtracts the number of system transactions from the index**, so the hash
  of a system transaction is a fault and not an empty answer.
-/

namespace RethHl.Compliance

/-- The requests that the compliant API serves. -/
inductive Request where
  | blockByHash (hash : B256) (full : Bool)
  | blockByNumber (number : BlockNumberOrTag) (full : Bool)
  | blockTransactionCountByHash (hash : B256)
  | blockTransactionCountByNumber (number : BlockNumberOrTag)
  | blockReceipts (id : BlockId)
  | transactionReceipt (hash : B256)
  deriving DecidableEq, Repr

/-- A handler answers at a state: it does not fault, and what is unknown gives nothing. -/
def Answers {α : Type} (s : NodeState) (handler : Handler (Option α)) (unknown : Prop) : Prop :=
  ∃ r, handler.runAt s = .ok r ∧ (unknown → r = none)

section Totality

variable {R : Type} (api : EthApi R) (s : NodeState)

/-- The hash of a system transaction of a block the node knows. -/
def IsSystemHash (hash : B256) : Prop :=
  ∃ txMeta b tx, s.loadTransaction hash = some txMeta ∧
    s.blockById (.hash txMeta.blockHash none) = some b ∧
    b.transactions[txMeta.index]? = some tx ∧ tx.tx.isSystemTransaction = true

/-- The subtraction of a count request does not wrap. -/
def CountFits (id : BlockId) : Prop :=
  ∀ count b, s.transactionCount id = some count → s.blockById id = some b →
    b.systemTxCount ≤ count

/-- What each request should do. -/
def Meets : Request → Prop
  | .blockByHash hash full =>
    Answers s (blockByHash api hash full) (s.loadBlock (.hash hash none) = none)
  | .blockByNumber number full =>
    Answers s (blockByNumber api number full) (s.loadBlock (.number number) = none)
  | .blockTransactionCountByHash hash =>
    Answers s (blockTransactionCountByHash hash) (s.loadBlock (.hash hash none) = none) ∧
      CountFits s (.hash hash none)
  | .blockTransactionCountByNumber number =>
    Answers s (blockTransactionCountByNumber number) (s.loadBlock (.number number) = none) ∧
      CountFits s (.number number)
  | .blockReceipts id => Answers s (blockReceipts api id) (s.loadBlock id = none)
  | .transactionReceipt hash =>
    Answers s (transactionReceipt api hash) (s.loadTransaction hash = none ∨ IsSystemHash s hash)

/-- When each request does it. -/
def Answerable : Request → Prop
  | .blockByHash _ _ => True
  | .blockByNumber number _ =>
    number = .pending → ∀ b, s.loadBlock (.number .pending) = some b →
      ∃ c, s.blockById (.number (.number b.number)) = some c ∧
        c.systemTxCount ≤ b.transactions.length
  | .blockTransactionCountByHash _ => True
  | .blockTransactionCountByNumber number =>
    number = .pending → (s.countBlock (.number .pending)).isSome →
      (s.blockById (.number .pending)).isSome
  | .blockReceipts id => (s.blockById id).isSome
  | .transactionReceipt hash => ¬ IsSystemHash s hash

variable {s}

/-! ### Blocks -/

/-- Rewriting the transactions of a block works exactly when the block has enough of them. -/
theorem adjustTransactions_rpcBlock_isOk (b : ExecutedBlock) (full : Bool) (count : ℕ) :
    (∃ txs, adjustTransactions count (api.rpcBlock b full).transactions = .ok txs) ↔
      count ≤ b.transactions.length := by
  constructor
  · rintro ⟨txs, htxs⟩
    by_contra hlt
    cases full with
    | true =>
      rw [api.rpcBlock_full, adjustTransactions, drain,
        if_neg (by simpa using hlt)] at htxs
      cases htxs
    | false =>
      rw [api.rpcBlock_hashes, adjustTransactions, drain, if_neg (by simpa using hlt)] at htxs
      cases htxs
  · intro hle
    cases full with
    | true =>
      rw [api.rpcBlock_full, ← List.take_append_drop count b.transactions]
      exact ⟨_, adjustTransactions_full count
        (fun i tx ↦ b.rpcTransaction (api.effectiveGasPrice b tx) i tx)
        (fun i tx ↦ shiftTransaction_rpcTransaction b _ _ i tx) _ _
        (List.length_take_of_le hle)⟩
    | false =>
      refine ⟨.hashes ((b.transactions.map fun tx ↦ api.txHash tx.tx).drop count), ?_⟩
      rw [api.rpcBlock_hashes, adjustTransactions, drain, if_pos (by simpa using hle)]
      rfl

/-- A block request answers exactly when the block it finds, if any, can be counted by number. -/
theorem answers_adjustedBlock_iff (id : BlockId) (full : Bool) :
    Answers s (adjustedBlock api id full) (s.loadBlock id = none) ↔
      ∀ b, s.loadBlock id = some b → ∃ c, s.blockById (.number (.number b.number)) = some c ∧
        c.systemTxCount ≤ b.transactions.length := by
  rcases hb : s.loadBlock id with - | b
  · refine ⟨fun _ b h ↦ absurd h (by simp), fun _ ↦ ⟨none, ?_, fun _ ↦ rfl⟩⟩
    rw [adjustedBlock, Reads.runAt_bind, Reads.runAt_ask, ok_bind, hb]
    rfl
  · have hrun : (adjustedBlock api id full).runAt s =
        (adjustBlock (api.rpcBlock b full)).runAt s >>= fun block ↦ .ok (some block) := by
      rw [adjustedBlock, Reads.runAt_bind, Reads.runAt_ask, ok_bind, hb]
      simp only [Reads.runAt_bind]
      rfl
    rcases hc : s.blockById (.number (.number b.number)) with - | c
    · -- the second lookup fails
      refine ⟨?_, fun h ↦ ?_⟩
      · rintro ⟨r, hr, -⟩
        rw [hrun, runAt_adjustBlock_of_none (number_rpcBlock api b full) hc] at hr
        cases hr
      · obtain ⟨c, hc', -⟩ := h b rfl
        rw [hc] at hc'
        cases hc'
    · have hadjust := runAt_adjustBlock (number_rpcBlock api b full) hc
      have hok := adjustTransactions_rpcBlock_isOk api b full c.system.length
      refine ⟨?_, fun h ↦ ?_⟩
      · rintro ⟨r, hr, -⟩ b' hb'
        obtain rfl := Option.some.inj hb'
        refine ⟨c, hc, ?_⟩
        rcases htxs : adjustTransactions c.system.length (api.rpcBlock b full).transactions
          with e | txs
        · rw [hrun, hadjust, htxs] at hr
          cases hr
        · rw [c.systemTxCount_eq]
          exact hok.1 ⟨txs, htxs⟩
      · obtain ⟨c', hc', hle⟩ := h b rfl
        obtain rfl := Option.some.inj (hc.symm.trans hc')
        rw [c.systemTxCount_eq] at hle
        obtain ⟨txs, htxs⟩ := hok.2 hle
        refine ⟨some { api.rpcBlock b full with transactions := txs }, ?_, fun hnone ↦ ?_⟩
        · rw [hrun, hadjust, htxs]
          rfl
        · cases hnone

/-- A block that is not pending can be counted by its number. -/
theorem answers_adjustedBlock {id : BlockId} (hid : id ≠ .number .pending) (full : Bool) :
    Answers s (adjustedBlock api id full) (s.loadBlock id = none) := by
  rw [answers_adjustedBlock_iff]
  intro b hb
  rw [s.loadBlock_eq id hid] at hb
  refine ⟨b, s.canonical id b hid hb, ?_⟩
  rw [b.systemTxCount_eq, b.length_transactions]
  exact Nat.le_add_right _ _

/-- Where both lookups of a count request find a block, they find the same one. -/
theorem countBlock_eq_of_blockById {id : BlockId} {b c : ExecutedBlock}
    (hcount : s.countBlock id = some b) (hc : s.blockById id = some c) : b = c :=
  Option.some.inj ((s.loadBlock_of_countBlock hcount).symm.trans (s.loadBlock_of_blockById hc))

/-- The count is that of the block that is looked up: it never wraps. -/
theorem countFits (id : BlockId) : CountFits s id := by
  intro count c hcount hc
  obtain ⟨b, hb, rfl⟩ := Option.map_eq_some_iff.1 hcount
  obtain rfl := countBlock_eq_of_blockById hb hc
  rw [b.systemTxCount_eq, b.length_transactions]
  exact Nat.le_add_right _ _

/-- A count request answers exactly when the block it counts, if any, is known to the provider. -/
theorem answers_blockTransactionCount_iff (id : BlockId) :
    Answers s (blockTransactionCount id) (s.loadBlock id = none) ↔
      ((s.countBlock id).isSome → (s.blockById id).isSome) := by
  rcases hcount : s.countBlock id with - | b
  · refine iff_of_true ⟨none, ?_, fun _ ↦ rfl⟩ fun h ↦ absurd h (by simp)
    rw [blockTransactionCount, Reads.runAt_bind, Reads.runAt_ask, ok_bind,
      NodeState.transactionCount, hcount]
    rfl
  · rcases hc : s.blockById id with - | c
    · -- the second lookup fails
      refine iff_of_false ?_ fun h ↦ absurd (h rfl) (by simp)
      rintro ⟨r, hr, -⟩
      rw [blockTransactionCount, Reads.runAt_bind, Reads.runAt_ask, ok_bind,
        NodeState.transactionCount, hcount, Option.map_some] at hr
      simp only [Reads.runAt_bind, runAt_systemTxCountForBlock_of_none hc, error_bind] at hr
      cases hr
    · obtain rfl := countBlock_eq_of_blockById hcount hc
      refine iff_of_true ⟨_, runAt_blockTransactionCount hcount hc, fun hnone ↦ ?_⟩ fun _ ↦ rfl
      rw [s.loadBlock_of_blockById hc] at hnone
      cases hnone

/-- A count request for a block that is not pending always answers: both of its lookups are the
provider's. -/
theorem answers_blockTransactionCount {id : BlockId} (hid : id ≠ .number .pending) :
    Answers s (blockTransactionCount id) (s.loadBlock id = none) := by
  rw [answers_blockTransactionCount_iff, s.countBlock_eq id hid]
  exact fun h ↦ h

/-! ### Receipts -/

/-- The receipts of a block: the count comes first and must find the block. -/
theorem answers_blockReceipts_iff (id : BlockId) :
    Answers s (blockReceipts api id) (s.loadBlock id = none) ↔ (s.blockById id).isSome := by
  rcases hb : s.blockById id with - | b
  · refine ⟨?_, fun h ↦ absurd h (by simp)⟩
    rintro ⟨r, hr, -⟩
    rw [blockReceipts, Reads.runAt_bind, adjustBlockReceipts, Reads.runAt_bind,
      runAt_systemTxCountForBlock_of_none hb] at hr
    cases hr
  · refine ⟨fun _ ↦ rfl, fun _ ↦ ⟨some (compliantReceipts api b), ?_, fun hnone ↦ ?_⟩⟩
    · rw [blockReceipts, Reads.runAt_bind, runAt_adjustBlockReceipts api hb]
      rfl
    · rw [s.loadBlock_of_blockById hb] at hnone
      cases hnone

/-- The receipt of a transaction: the index of a system transaction is below the count. -/
theorem answers_transactionReceipt_iff (hash : B256) :
    Answers s (transactionReceipt api hash)
      (s.loadTransaction hash = none ∨ IsSystemHash s hash) ↔ ¬ IsSystemHash s hash := by
  rcases hload : s.loadTransaction hash with - | txMeta
  · have hnot : ¬ IsSystemHash s hash := by
      rintro ⟨txMeta, b, tx, h, -⟩
      rw [hload] at h
      cases h
    refine ⟨fun _ ↦ hnot, fun _ ↦ ⟨none, ?_, fun _ ↦ rfl⟩⟩
    rw [transactionReceipt, adjustTransactionReceipt, Reads.runAt_bind, Reads.runAt_ask, ok_bind,
      hload]
    rfl
  · obtain ⟨b, hb, hlt⟩ := s.loadTransaction_block hash txMeta hload
    have htx : b.transactions[txMeta.index]? = some b.transactions[txMeta.index] :=
      List.getElem?_eq_getElem hlt
    have hsystem : IsSystemHash s hash ↔ txMeta.index < b.system.length := by
      rw [← isSystemTransaction_iff b htx]
      refine ⟨?_, fun h ↦ ⟨txMeta, b, _, hload, hb, htx, h⟩⟩
      rintro ⟨txMeta', b', tx, hload', hb', htx', h⟩
      obtain rfl := Option.some.inj (hload.symm.trans hload')
      obtain rfl := Option.some.inj (hb.symm.trans hb')
      rw [Option.some.inj (htx.symm.trans htx')]
      exact h
    rw [hsystem]
    rcases Nat.lt_or_ge txMeta.index b.system.length with hsys | huser
    · -- the index of a system transaction is below the count
      refine ⟨?_, fun h ↦ absurd hsys h⟩
      rintro ⟨r, hr, -⟩
      rw [transactionReceipt, adjustTransactionReceipt, Reads.runAt_bind, Reads.runAt_ask, ok_bind,
        hload] at hr
      simp only [Reads.runAt_bind, runAt_adjustBlockReceipts api hb, ok_bind,
        Reads.runAt_ofExcept, checkedSub_of_lt hsys, error_bind] at hr
      cases hr
    · refine ⟨fun _ ↦ Nat.not_lt.2 huser, fun hnot ↦ ?_⟩
      obtain ⟨k, hk⟩ := Nat.exists_eq_add_of_le huser
      rw [b.length_transactions, hk] at hlt
      refine ⟨_, runAt_adjustTransactionReceipt api hload hb hk (by omega), ?_⟩
      rintro (hnone | h)
      · cases hnone
      · exact absurd h hnot

/-- **When the compliant handlers answer.** -/
theorem meets_iff (request : Request) : Meets api s request ↔ Answerable s request := by
  cases request with
  | blockByHash hash full =>
    exact iff_of_true (answers_adjustedBlock api (by simp) full) trivial
  | blockByNumber number full =>
    refine (answers_adjustedBlock_iff api (.number number) full).trans ⟨?_, fun h ↦ ?_⟩
    · rintro h rfl
      exact h
    · by_cases hpending : number = .pending
      · subst hpending
        exact h rfl
      · exact (answers_adjustedBlock_iff api (.number number) full).1
          (answers_adjustedBlock api (by simpa using hpending) full)
  | blockTransactionCountByHash hash =>
    exact iff_of_true ⟨answers_blockTransactionCount (by simp), countFits _⟩ trivial
  | blockTransactionCountByNumber number =>
    have hiff := @answers_blockTransactionCount_iff s (.number number)
    constructor
    · rintro ⟨h, -⟩ rfl
      exact hiff.1 h
    · intro h
      refine ⟨?_, countFits _⟩
      by_cases hpending : number = .pending
      · subst hpending
        exact hiff.2 (h rfl)
      · exact answers_blockTransactionCount (by simpa using hpending)
  | blockReceipts id => exact answers_blockReceipts_iff api id
  | transactionReceipt hash => exact answers_transactionReceipt_iff api hash

/-- **Two requests that fault**: the receipts of an unknown block, and the receipt of a system
transaction. -/
theorem not_meets_unknown_block_or_system_hash :
    ¬ Meets exampleApi (exampleChain.state exampleTxHash) (.blockReceipts (.hash 2 none)) ∧
      ¬ Meets exampleApi (exampleChain.state exampleTxHash)
        (.transactionReceipt (exampleTxHash exampleSystemTx.tx)) := by
  refine ⟨?_, ?_⟩
  · rintro ⟨r, hr, -⟩
    cases hr
  · rintro ⟨r, hr, -⟩
    cases hr

end Totality

end RethHl.Compliance
