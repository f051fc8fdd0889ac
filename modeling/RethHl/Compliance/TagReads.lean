import RethHl.Compliance.Views

/-!
# Answers to a tag while the chain advances

`block_receipts` and `block_transaction_count_by_number` resolve their block identifier twice: once
to count the system transactions and once to load the receipts or the number of transactions. A tag
such as `latest` may name another block at the second read, or none.

The handlers are run here with any steps of the environment before each read. Their runs are read
off first (`cases_blockReceipts`, `cases_blockTransactionCount`), and `tag_answers_iff` says when
the answer is that of the very block whose receipts or transactions are returned: **when the tag
names a block at both reads and the two blocks have equally many system transactions**, or when
there is no receipt to number.
-/

namespace RethHl.Compliance

open Reads (Interleaves)

section TagReads

variable {R : Type} (api : EthApi R) {id : BlockId} {seen : List NodeState}

/-- What a receipts request reads and answers: the count is of the block found first, the receipts
are of the block found second. -/
theorem cases_blockReceipts {r : Except Fault (Option (List R))}
    (h : (blockReceipts api id).feed seen = some r) :
    (∃ s₁, seen = [s₁] ∧ s₁.blockById id = none ∧ r = .error .unwrapNone) ∨
    (∃ s₁ s₂ b₁, seen = [s₁, s₂] ∧ s₁.blockById id = some b₁ ∧ s₂.loadBlock id = none ∧
      r = .ok none) ∨
    ∃ s₁ s₂ b₁ b₂, seen = [s₁, s₂] ∧ s₁.blockById id = some b₁ ∧ s₂.loadBlock id = some b₂ ∧
      r = (receiptInputs api b₂ b₁.system.length 0 0 0 (b₂.transactions.zip b₂.receipts) >>=
        fun inputs ↦ .ok (some (inputs.map api.build))) := by
  rcases seen with - | ⟨s₁, seen⟩
  · cases h
  rcases hb₁ : s₁.blockById id with - | b₁
  · simp only [blockReceipts, adjustBlockReceipts, systemTxCountForBlock, bind, Reads.bind,
      Reads.ask, Reads.feed, hb₁] at h
    rcases seen with - | ⟨s₂, seen⟩
    · exact Or.inl ⟨s₁, rfl, hb₁, (Option.some.inj h).symm⟩
    · cases h
  rcases seen with - | ⟨s₂, seen⟩
  · simp only [blockReceipts, adjustBlockReceipts, systemTxCountForBlock, bind, Reads.bind,
      Reads.ask, Reads.feed, hb₁, pure] at h
    cases h
  rcases hb₂ : s₂.loadBlock id with - | b₂
  · simp only [blockReceipts, adjustBlockReceipts, systemTxCountForBlock, bind, Reads.bind,
      Reads.ask, Reads.feed, hb₁, hb₂, pure] at h
    rcases seen with - | ⟨s₃, seen⟩
    · exact Or.inr (Or.inl ⟨s₁, s₂, b₁, rfl, hb₁, hb₂, (Option.some.inj h).symm⟩)
    · cases h
  · simp only [blockReceipts, adjustBlockReceipts, systemTxCountForBlock, bind, Reads.bind,
      Reads.ask, Reads.feed, hb₁, hb₂, pure] at h
    refine Or.inr (Or.inr ⟨s₁, s₂, b₁, b₂, ?_, hb₁, hb₂, ?_⟩)
    all_goals
      rw [b₁.systemTxCount_eq] at h
      rcases hinputs : receiptInputs api b₂ b₁.system.length 0 0 0
        (b₂.transactions.zip b₂.receipts) with e | inputs
      all_goals
        rw [hinputs] at h
        rcases seen with - | ⟨s₃, seen⟩
        · first | rfl | exact (Option.some.inj h).symm
        · cases h

/-- What a count request reads and answers: the transactions are of the block found first, the
system transactions are of the block found second. -/
theorem cases_blockTransactionCount {r : Except Fault (Option ℕ)}
    (h : (blockTransactionCount id).feed seen = some r) :
    (∃ s₁, seen = [s₁] ∧ s₁.countBlock id = none ∧ r = .ok none) ∨
    (∃ s₁ s₂ b₁, seen = [s₁, s₂] ∧ s₁.countBlock id = some b₁ ∧ s₂.blockById id = none ∧
      r = .error .unwrapNone) ∨
    ∃ s₁ s₂ b₁ b₂, seen = [s₁, s₂] ∧ s₁.countBlock id = some b₁ ∧ s₂.blockById id = some b₂ ∧
      r = .ok (some (wrappingSub b₁.transactions.length b₂.system.length)) := by
  rcases seen with - | ⟨s₁, seen⟩
  · cases h
  rcases hb₁ : s₁.countBlock id with - | b₁
  · simp only [blockTransactionCount, bind, Reads.bind, Reads.ask, Reads.feed,
      NodeState.transactionCount, hb₁, Option.map_none, pure] at h
    rcases seen with - | ⟨s₂, seen⟩
    · exact Or.inl ⟨s₁, rfl, hb₁, (Option.some.inj h).symm⟩
    · cases h
  rcases seen with - | ⟨s₂, seen⟩
  · simp only [blockTransactionCount, systemTxCountForBlock, bind, Reads.bind, Reads.ask,
      Reads.feed, NodeState.transactionCount, hb₁, Option.map_some] at h
    cases h
  rcases hb₂ : s₂.blockById id with - | b₂
  all_goals
    simp only [blockTransactionCount, systemTxCountForBlock, bind, Reads.bind, Reads.ask,
      Reads.feed, NodeState.transactionCount, hb₁, hb₂, Option.map_some, pure] at h
    rcases seen with - | ⟨s₃, seen⟩
  · exact Or.inr (Or.inl ⟨s₁, s₂, b₁, rfl, hb₁, hb₂, (Option.some.inj h).symm⟩)
  · cases h
  · rw [b₂.systemTxCount_eq] at h
    exact Or.inr (Or.inr ⟨s₁, s₂, b₁, b₂, rfl, hb₁, hb₂, (Option.some.inj h).symm⟩)
  · cases h

variable {b₁ b₂ : ExecutedBlock}

/-- The receipts are those of the second block exactly when the counts agree, or when it has no
user transaction. -/
theorem receiptInputs_eq_compliant_iff :
    (receiptInputs api b₂ b₁.system.length 0 0 0 (b₂.transactions.zip b₂.receipts) >>=
        fun inputs ↦ .ok (some (inputs.map api.build))) =
      (.ok (some (compliantReceipts api b₂)) : Except Fault (Option (List R))) ↔
      b₁.systemTxCount = b₂.systemTxCount ∨ b₂.user = [] := by
  rw [b₁.systemTxCount_eq, b₂.systemTxCount_eq]
  rcases Nat.lt_or_ge b₂.system.length b₁.system.length with hlt | hge
  · rw [b₂.zip_receipts, ExecutedBlock.entries, receiptInputs_system api b₂ _ _ _ _ b₂.system_gas,
      Nat.zero_add]
    rcases huser : b₂.user with - | ⟨p, rest⟩
    · refine iff_of_true ?_ (Or.inr rfl)
      rw [compliantReceipts, huser]
      rfl
    · have hp : p.2.cumulativeGasUsed ≠ 0 :=
        Nat.ne_of_gt (b₂.cumulativeGasUsed_pos (huser ▸ List.mem_cons_self))
      rw [receiptInputs_underflow api b₂ hlt 0 0 hp rest]
      refine iff_of_false (fun h ↦ ?_) ?_
      · cases h
      · rintro (h | h)
        · exact absurd h (Nat.ne_of_gt hlt)
        · cases h
  · rw [receiptInputs_block api b₂ hge, ok_bind, compliantReceipts]
    rcases huser : b₂.user with - | ⟨p, rest⟩
    · exact iff_of_true rfl (Or.inr rfl)
    · -- the first receipt tells the counts apart
      constructor
      · intro h
        have hhead := congrArg List.head? (Option.some.inj (Except.ok.inj h))
        have hindex := congrArg api.transactionIndex (Option.some.inj hhead)
        rw [api.transactionIndex_build, api.transactionIndex_build] at hindex
        have hzero : b₂.system.length - b₁.system.length = 0 := Option.some.inj hindex
        exact Or.inl (Nat.le_antisymm hge (Nat.sub_eq_zero_iff_le.1 hzero))
      · rintro (h | h)
        · rw [h, Nat.sub_self]
        · cases h

/-- The count is that of the first block exactly when the counts of system transactions agree. -/
theorem wrappingSub_eq_user_iff :
    wrappingSub b₁.transactions.length b₂.system.length = b₁.user.length ↔
      b₁.systemTxCount = b₂.systemTxCount := by
  have hlt₁ := b₁.length_lt
  rw [b₁.systemTxCount_eq, b₂.systemTxCount_eq, b₁.length_transactions]
  rcases Nat.lt_or_ge (b₁.system.length + b₁.user.length) b₂.system.length with hlt | hge
  · -- a wrapped count is no number of transactions
    have hlt₂ : b₂.system.length < u64Size := Nat.lt_of_le_of_lt (Nat.le_add_right _ _) b₂.length_lt
    have hwrap := wrappingSub_of_lt hlt₂ hlt
    exact iff_of_false (by omega) (by omega)
  · rw [wrappingSub_of_le hlt₁ hge]
    omega

end TagReads

/-! ### Interleaved requests -/

section Interleaved

variable {R : Type} (api : EthApi R) (tag : BlockNumberOrTag) (seen : List NodeState)

/-- The answer to a receipts request is that of one block, the one whose receipts it loads. -/
def ReceiptsOfOne (r : Except Fault (Option (List R))) : Prop :=
  ∃ s₁ s₂ b, seen = [s₁, s₂] ∧ s₂.loadBlock (.number tag) = some b ∧
    r = .ok (some (compliantReceipts api b))

/-- The tag names a block at both reads of a receipts request. The two have equally many system
transactions, or there is no receipt to number. -/
def ReceiptsAgree : Prop :=
  ∃ s₁ s₂ b₁ b₂, seen = [s₁, s₂] ∧ s₁.blockById (.number tag) = some b₁ ∧
    s₂.loadBlock (.number tag) = some b₂ ∧
    (b₁.systemTxCount = b₂.systemTxCount ∨ b₂.user = [])

/-- The answer to a count request is that of one block, the one whose transactions it counts, or
nothing when it finds no block to count. -/
def CountOfOne (r : Except Fault (Option ℕ)) : Prop :=
  ∃ s₁ rest, seen = s₁ :: rest ∧
    r = .ok ((s₁.countBlock (.number tag)).map fun b ↦ b.user.length)

/-- The tag names no block when a count request starts, or it names a block at both of its reads,
with equally many system transactions. -/
def CountAgrees : Prop :=
  (∃ s₁, seen = [s₁] ∧ s₁.countBlock (.number tag) = none) ∨
    ∃ s₁ s₂ b₁ b₂, seen = [s₁, s₂] ∧ s₁.countBlock (.number tag) = some b₁ ∧
      s₂.blockById (.number tag) = some b₂ ∧ b₁.systemTxCount = b₂.systemTxCount

variable {tag seen} {step : NodeState → NodeState → Prop} {s : NodeState}

theorem receiptsOfOne_iff {r : Except Fault (Option (List R))}
    (hrun : Interleaves step (blockReceipts api (.number tag)) s seen r) :
    ReceiptsOfOne api tag seen r ↔ ReceiptsAgree tag seen := by
  rcases cases_blockReceipts api hrun.feed_eq with
    ⟨s₁, rfl, -, rfl⟩ | ⟨s₁, s₂, b₁, rfl, -, hb₂, rfl⟩ | ⟨s₁, s₂, b₁, b₂, rfl, hb₁, hb₂, rfl⟩
  · -- no block is found: the count is a fault
    refine iff_of_false ?_ ?_
    · rintro ⟨_, _, _, -, -, h⟩
      cases h
    · rintro ⟨_, _, _, _, h, -⟩
      cases h
  · -- the block is gone when its receipts are loaded
    refine iff_of_false ?_ ?_
    · rintro ⟨_, _, _, -, -, h⟩
      cases h
    · rintro ⟨_, t, _, _, hseen, -, h, -⟩
      obtain rfl : s₂ = t := (List.cons.inj (List.cons.inj hseen).2).1
      rw [hb₂] at h
      cases h
  · have hiff := @receiptInputs_eq_compliant_iff _ api b₁ b₂
    constructor
    · rintro ⟨_, t, b, hseen, hb, hr⟩
      obtain rfl : s₂ = t := (List.cons.inj (List.cons.inj hseen).2).1
      obtain rfl := Option.some.inj (hb₂.symm.trans hb)
      exact ⟨s₁, s₂, b₁, b₂, rfl, hb₁, hb₂, hiff.1 hr⟩
    · rintro ⟨t₁, t₂, c₁, c₂, hseen, hc₁, hc₂, hagree⟩
      obtain ⟨rfl, htail⟩ := List.cons.inj hseen
      obtain rfl := (List.cons.inj htail).1
      obtain rfl := Option.some.inj (hb₁.symm.trans hc₁)
      obtain rfl := Option.some.inj (hb₂.symm.trans hc₂)
      exact ⟨s₁, s₂, b₂, rfl, hb₂, hiff.2 hagree⟩

theorem countOfOne_iff {r : Except Fault (Option ℕ)}
    (hrun : Interleaves step (blockTransactionCountByNumber tag) s seen r) :
    CountOfOne tag seen r ↔ CountAgrees tag seen := by
  rcases cases_blockTransactionCount hrun.feed_eq with
    ⟨s₁, rfl, hb₁, rfl⟩ | ⟨s₁, s₂, b₁, rfl, -, hb₂, rfl⟩ | ⟨s₁, s₂, b₁, b₂, rfl, hb₁, hb₂, rfl⟩
  · refine iff_of_true ⟨s₁, [], rfl, ?_⟩ (Or.inl ⟨s₁, rfl, hb₁⟩)
    rw [hb₁]
    rfl
  · -- the block is gone when its system transactions are counted
    refine iff_of_false ?_ ?_
    · rintro ⟨_, _, -, h⟩
      cases h
    · rintro (⟨_, h, -⟩ | ⟨_, t, _, _, hseen, -, h, -⟩)
      · cases h
      · obtain rfl : s₂ = t := (List.cons.inj (List.cons.inj hseen).2).1
        rw [hb₂] at h
        cases h
  · have hiff := @wrappingSub_eq_user_iff b₁ b₂
    constructor
    · rintro ⟨t, _, hseen, hr⟩
      obtain rfl := (List.cons.inj hseen).1
      rw [hb₁] at hr
      have hcount := Option.some.inj (Except.ok.inj hr)
      exact Or.inr ⟨s₁, s₂, b₁, b₂, rfl, hb₁, hb₂, hiff.1 hcount⟩
    · rintro (⟨_, h, -⟩ | ⟨t₁, t₂, c₁, c₂, hseen, hc₁, hc₂, hagree⟩)
      · cases h
      · obtain ⟨rfl, htail⟩ := List.cons.inj hseen
        obtain rfl := (List.cons.inj htail).1
        obtain rfl := Option.some.inj (hb₁.symm.trans hc₁)
        obtain rfl := Option.some.inj (hb₂.symm.trans hc₂)
        refine ⟨s₁, [s₂], rfl, ?_⟩
        rw [hb₁, hiff.2 hagree]
        rfl

end Interleaved

/-- **When an answer to a tag is taken from one block.** In every run of the two handlers, with any
steps between their reads, the receipts are those of the block whose receipts are loaded, and the
count is that of the block whose transactions are counted, exactly when the tag names a block at
both reads and both have equally many system transactions; receipts also when there is none to
number, and a count also when there was no block to count. -/
theorem tag_answers_iff {R : Type} (api : EthApi R) (step : NodeState → NodeState → Prop)
    (tag : BlockNumberOrTag) (s : NodeState) (seen : List NodeState) :
    (∀ r, Interleaves step (blockReceipts api (.number tag)) s seen r →
      (ReceiptsOfOne api tag seen r ↔ ReceiptsAgree tag seen)) ∧
    (∀ r, Interleaves step (blockTransactionCountByNumber tag) s seen r →
      (CountOfOne tag seen r ↔ CountAgrees tag seen)) :=
  ⟨fun _ hrun ↦ receiptsOfOne_iff api hrun, fun _ hrun ↦ countOfOne_iff hrun⟩

/-! ### A chain that advances by one block -/

/-- The head of the chain advances: a block is appended. -/
def Advances (txHash : TransactionSigned → B256) (s s' : NodeState) : Prop :=
  ∃ (chain chain' : Chain) (b : ExecutedBlock), chain'.blocks = chain.blocks ++ [b] ∧
    s = chain.state txHash ∧ s' = chain'.state txHash

/-- The example chain with a second block that has as many system transactions. -/
def exampleChainSame : Chain where
  blocks := [exampleBlock, { exampleBlock with hash := 2, header := .zero 2 }]
  numbers_nodup := by decide
  hashes_nodup := by decide

theorem tag_answers_same :
    let s₁ := exampleChain.state exampleTxHash
    let s₂ := exampleChainSame.state exampleTxHash
    (∃ r, Interleaves (Advances exampleTxHash) (blockReceipts exampleApi (.number .latest))
        s₁ [s₁, s₂] r ∧ ReceiptsOfOne exampleApi .latest [s₁, s₂] r) ∧
    ∃ r, Interleaves (Advances exampleTxHash) (blockTransactionCountByNumber .latest)
        s₁ [s₁, s₂] r ∧ CountOfOne .latest [s₁, s₂] r := by
  intro s₁ s₂
  have hadvance : Advances exampleTxHash s₁ s₂ := ⟨_, _, _, rfl, rfl, rfl⟩
  have hreceipts : Interleaves (Advances exampleTxHash)
      (blockReceipts exampleApi (.number .latest)) s₁ [s₁, s₂] _ :=
    .read .refl (.read (.single hadvance) (.done _ _))
  have hcount : Interleaves (Advances exampleTxHash) (blockTransactionCountByNumber .latest)
      s₁ [s₁, s₂] _ := .read .refl (.read (.single hadvance) (.done _ _))
  obtain ⟨hiff, hiff'⟩ := tag_answers_iff exampleApi (Advances exampleTxHash) .latest s₁ [s₁, s₂]
  exact ⟨⟨_, hreceipts, (hiff _ hreceipts).2 ⟨_, _, _, _, rfl, rfl, rfl, Or.inl rfl⟩⟩,
    ⟨_, hcount, (hiff' _ hcount).2 (Or.inr ⟨_, _, _, _, rfl, rfl, rfl, rfl⟩)⟩⟩

/-- **One advance between the reads mixes two blocks.** The first block has a system transaction and
a user transaction, the second a user transaction only. The receipts request subtracts one from
index zero, and the count request counts the system transaction in. -/
theorem tag_answers_mixed :
    let s₁ := exampleChain.state exampleTxHash
    let s₂ := exampleLongChain.state exampleTxHash
    (∃ r, Interleaves (Advances exampleTxHash) (blockReceipts exampleApi (.number .latest))
        s₁ [s₁, s₂] r ∧
      ∀ t ∈ [s₁, s₂], ∀ b, t.blockById (.number .latest) = some b →
        r ≠ .ok (some (compliantReceipts exampleApi b))) ∧
    (∃ r, Interleaves (Advances exampleTxHash) (blockTransactionCountByNumber .latest)
        s₁ [s₁, s₂] r ∧
      ∀ t ∈ [s₁, s₂], ∀ b, t.blockById (.number .latest) = some b →
        r ≠ .ok (some b.user.length)) := by
  intro s₁ s₂
  have hadvance : Advances exampleTxHash s₁ s₂ := ⟨_, _, _, rfl, rfl, rfl⟩
  refine ⟨⟨.error .underflow, .read .refl (.read (.single hadvance) (.fault _ _)), ?_⟩,
    ⟨.ok (some 2), .read .refl (.read (.single hadvance) (.done _ _)), ?_⟩⟩
  · intro t _ b _ h
    cases h
  · intro t ht b hb h
    have hlen : b.user.length = 2 := (Option.some.inj (Except.ok.inj h)).symm
    rcases List.mem_pair.1 ht with rfl | rfl
    · obtain rfl := Option.some.inj hb
      cases hlen
    · obtain rfl := Option.some.inj hb
      cases hlen

end RethHl.Compliance
