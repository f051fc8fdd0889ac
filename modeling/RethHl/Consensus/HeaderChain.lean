import Mathlib.Data.List.Chain
import RethHl.Evm.Config

/-!
# Chains of headers

A header is checked against its parent: the number is the next one, the hash of the parent is the
one the header names, and the timestamp is not earlier. It may be **the same**, since big and small
blocks share a second. The base fee is not checked, and the blob gas is.

A chain of checked headers, the newest first, commits to its history: two chains over one genesis
whose newest headers are the same are the same (`history_unique`). This needs that the headers in
them have different hashes, and nothing of the genesis, whose recorded hash is not the hash of its
header.

Two of the checks, and the blob gas of the next block, are library code: they are parameters
(`ParentChecks`, `EvmConfig`), of which the results assume what the library promises.

The node also builds blocks. `builtChain_valid` says that what it builds on the genesis passes the
check at every link, as long as the timestamps of the attributes do not go back, and is executed
again in the environment and the context that it was built in, up to the price of blob gas.
-/

namespace RethHl

/-- Why a header does not follow its parent. -/
inductive HeaderError where
  | parentBlockNumberMismatch (parentBlockNumber blockNumber : ℕ)
  | parentHashMismatch (got expected : B256)
  | timestampIsInPast (parentTimestamp timestamp : ℕ)
  | blobGasUsedMissing
  | excessBlobGasMissing
  | excessBlobGasDiff (got expected : ℕ)
  deriving DecidableEq, Repr

/-- The blob gas of a header follows that of its parent. -/
def BlobGasFollows (header parent : Header) (blobParams : BlobParams) : Prop :=
  header.blobGasUsed.isSome ∧
    header.excessBlobGas = some (blobParams.nextBlockExcessBlobGas (parent.excessBlobGas.getD 0)
      (parent.blobGasUsed.getD 0) (parent.baseFeePerGas.getD 0))

/-- The checks of the library: of the number and the hash of the parent, and of the blob gas. -/
structure ParentChecks where
  validateAgainstParentHashNumber : Header → SealedHeader → Except HeaderError Unit
  validateAgainstParent4844 : Header → Header → BlobParams → Except HeaderError Unit

/-- What they accept. -/
structure ParentChecks.Lawful (checks : ParentChecks) : Prop where
  hashNumber_iff : ∀ {header parent},
    checks.validateAgainstParentHashNumber header parent = .ok () ↔
      header.number = (parent.header.number + 1) % u64Size ∧ header.parentHash = parent.hash
  blobGas_iff : ∀ {header parent blobParams},
    checks.validateAgainstParent4844 header parent blobParams = .ok () ↔
      BlobGasFollows header parent blobParams

section Validation

/-- `validate_against_parent_timestamp` -/
def validateAgainstParentTimestamp (header parent : Header) : Except HeaderError Unit :=
  if header.timestamp < parent.timestamp then
    .error (.timestampIsInPast parent.timestamp header.timestamp)
  else .ok ()

/-- `validate_header_against_parent` -/
def validateHeaderAgainstParent (config : EvmConfig) (checks : ParentChecks)
    (header parent : SealedHeader) : Except HeaderError Unit := do
  checks.validateAgainstParentHashNumber header.header parent
  validateAgainstParentTimestamp header.header parent.header
  match config.blobParamsAtTimestamp header.header.timestamp with
  | some blobParams => checks.validateAgainstParent4844 header.header parent.header blobParams
  | none => pure ()

/-- A header follows its parent. -/
structure Follows (config : EvmConfig) (header parent : SealedHeader) : Prop where
  number : header.header.number = (parent.header.number + 1) % u64Size
  parentHash : header.header.parentHash = parent.hash
  timestamp : parent.header.timestamp ≤ header.header.timestamp
  blobGas : ∀ blobParams, config.blobParamsAtTimestamp header.header.timestamp = some blobParams →
    BlobGasFollows header.header parent.header blobParams

end Validation

/-! ### What the check accepts -/

section Accepted

theorem validateAgainstParentTimestamp_iff {header parent : Header} :
    validateAgainstParentTimestamp header parent = .ok () ↔
      parent.timestamp ≤ header.timestamp := by
  rw [validateAgainstParentTimestamp]
  split_ifs with htime
  · exact iff_of_false nofun (Nat.not_le.2 htime)
  · exact iff_of_true rfl (Nat.not_lt.1 htime)

/-- **The check accepts what follows the parent**, and nothing else. -/
theorem validateHeaderAgainstParent_iff {config : EvmConfig} {checks : ParentChecks}
    (hchecks : checks.Lawful) {header parent : SealedHeader} :
    validateHeaderAgainstParent config checks header parent = .ok () ↔
      Follows config header parent := by
  constructor
  · intro h
    obtain ⟨_, hlink, h⟩ := exists_of_bind_eq_ok h
    obtain ⟨_, htime, h⟩ := exists_of_bind_eq_ok h
    obtain ⟨hnumber, hparent⟩ := hchecks.hashNumber_iff.1 hlink
    refine ⟨hnumber, hparent, validateAgainstParentTimestamp_iff.1 htime, fun blobParams hb ↦ ?_⟩
    rw [hb] at h
    exact hchecks.blobGas_iff.1 h
  · intro h
    rw [validateHeaderAgainstParent, hchecks.hashNumber_iff.2 ⟨h.number, h.parentHash⟩,
      validateAgainstParentTimestamp_iff.2 h.timestamp]
    show (match config.blobParamsAtTimestamp header.header.timestamp with
      | some blobParams => checks.validateAgainstParent4844 header.header parent.header blobParams
      | none => pure ()) = _
    cases hb : config.blobParamsAtTimestamp header.header.timestamp with
    | none => rfl
    | some blobParams => exact hchecks.blobGas_iff.2 (h.blobGas blobParams hb)

end Accepted

/-! ### Chains -/

section Chains

variable (config : EvmConfig) (checks : ParentChecks)

/-- Every header of a list, the newest first, passes the check against the next one. -/
def ValidChain (headers : List SealedHeader) : Prop :=
  headers.IsChain fun header parent ↦
    validateHeaderAgainstParent config checks header parent = .ok ()

variable {config checks}

theorem ValidChain.cons_cons (hchecks : checks.Lawful) {header parent : SealedHeader}
    {headers : List SealedHeader} (h : ValidChain config checks (header :: parent :: headers)) :
    Follows config header parent ∧ ValidChain config checks (parent :: headers) := by
  obtain ⟨hlink, hrest⟩ := List.isChain_cons_cons.1 h
  exact ⟨(validateHeaderAgainstParent_iff hchecks).1 hlink, hrest⟩

/-- The height of the newest header is counted from the last one. -/
theorem ValidChain.number (hchecks : checks.Lawful) {header genesis : SealedHeader}
    {headers : List SealedHeader} (h : ValidChain config checks (header :: (headers ++ [genesis])))
    (hbound : genesis.header.number + headers.length + 1 < u64Size) :
    header.header.number = genesis.header.number + headers.length + 1 := by
  induction headers generalizing header with
  | nil =>
    obtain ⟨hlink, -⟩ := h.cons_cons hchecks
    rw [List.length_nil, Nat.add_zero] at hbound ⊢
    rw [hlink.number, Nat.mod_eq_of_lt hbound]
  | cons parent headers ih =>
    obtain ⟨hlink, hrest⟩ := h.cons_cons hchecks
    rw [List.length_cons] at hbound ⊢
    rw [hlink.number, ih hrest (by omega), Nat.mod_eq_of_lt (by omega)]
    omega

/-- No header of the chain is newer in time. -/
theorem ValidChain.timestamp_le (hchecks : checks.Lawful) {header : SealedHeader}
    {headers : List SealedHeader} (h : ValidChain config checks (header :: headers))
    {older : SealedHeader} (hmem : older ∈ headers) :
    older.header.timestamp ≤ header.header.timestamp := by
  induction headers generalizing header with
  | nil => cases hmem
  | cons parent headers ih =>
    obtain ⟨hlink, hrest⟩ := h.cons_cons hchecks
    rcases List.mem_cons.1 hmem with rfl | hmem
    · exact hlink.timestamp
    · exact (ih hrest hmem).trans hlink.timestamp

/-- The headers of a list are sealed with their hashes, and these are different. -/
structure SealedBy (hashSlow : Header → B256) (headers : List SealedHeader) : Prop where
  hash_eq : ∀ header ∈ headers, header.hash = hashSlow header.header
  injective : ∀ header ∈ headers, ∀ header' ∈ headers,
    hashSlow header.header = hashSlow header'.header → header.header = header'.header

/-- A sealed header is known by its hash. -/
theorem SealedBy.eq_of_hash_eq {hashSlow : Header → B256} {headers : List SealedHeader}
    (h : SealedBy hashSlow headers) {header header' : SealedHeader} (hmem : header ∈ headers)
    (hmem' : header' ∈ headers) (hhash : header.hash = header'.hash) : header = header' := by
  have hheader : header.header = header'.header := by
    refine h.injective header hmem header' hmem' ?_
    rw [← h.hash_eq header hmem, ← h.hash_eq header' hmem', hhash]
  cases header
  cases header'
  rw [SealedHeader.mk.injEq]
  exact ⟨hhash, hheader⟩

/-- Chains of one length with the same newest header are the same. -/
theorem ValidChain.unique (hchecks : checks.Lawful) {hashSlow : Header → B256}
    {all : List SealedHeader} (hsealed : SealedBy hashSlow all) {genesis : SealedHeader}
    {headers headers' : List SealedHeader} (h : ValidChain config checks (headers ++ [genesis]))
    (h' : ValidChain config checks (headers' ++ [genesis])) (hsub : headers ⊆ all)
    (hsub' : headers' ⊆ all) (hlength : headers.length = headers'.length)
    (hhead : headers.head? = headers'.head?) : headers = headers' := by
  induction headers generalizing headers' with
  | nil => exact (List.length_eq_zero_iff.1 hlength.symm).symm
  | cons header headers ih =>
    obtain ⟨header', headers', rfl⟩ : ∃ header' headers'', headers' = header' :: headers'' :=
      List.exists_cons_of_length_eq_add_one hlength.symm
    obtain rfl := Option.some.inj hhead
    have hlength' : headers.length = headers'.length := Nat.succ.inj hlength
    refine congrArg (header :: ·) (ih (List.isChain_of_isChain_cons h)
      (List.isChain_of_isChain_cons h') (fun x hx ↦ hsub (List.mem_cons_of_mem _ hx))
      (fun x hx ↦ hsub' (List.mem_cons_of_mem _ hx)) hlength' ?_)
    -- both parents have the hash that the header names
    cases headers with
    | nil =>
      obtain rfl := List.length_eq_zero_iff.1 hlength'.symm
      rfl
    | cons parent headers =>
      obtain ⟨parent', headers', rfl⟩ : ∃ parent' headers'', headers' = parent' :: headers'' :=
        List.exists_cons_of_length_eq_add_one hlength'.symm
      have hhash : parent.hash = parent'.hash :=
        (h.cons_cons hchecks).1.parentHash.symm.trans (h'.cons_cons hchecks).1.parentHash
      have heq : parent = parent' :=
        hsealed.eq_of_hash_eq (hsub (by simp)) (hsub' (by simp)) hhash
      rw [heq]
      rfl

/-- **A header commits to its history.** Over one genesis, chains with the same newest header are
the same; its height counts them, and its time is the latest. -/
theorem history_unique (hchecks : checks.Lawful) {hashSlow : Header → B256}
    {genesis newest : SealedHeader} {headers headers' : List SealedHeader}
    (h : ValidChain config checks (newest :: (headers ++ [genesis])))
    (h' : ValidChain config checks (newest :: (headers' ++ [genesis])))
    (hsealed : SealedBy hashSlow (newest :: (headers ++ headers')))
    (hbound : genesis.header.number + headers.length + 1 < u64Size)
    (hbound' : genesis.header.number + headers'.length + 1 < u64Size) :
    headers = headers' ∧ newest.header.number = genesis.header.number + headers.length + 1 ∧
      ∀ older ∈ headers ++ [genesis], older.header.timestamp ≤ newest.header.timestamp := by
  have hnumber := h.number hchecks hbound
  have hlength : headers.length = headers'.length := by
    have hnumber' := h'.number hchecks hbound'
    omega
  refine ⟨?_, hnumber, fun older hmem ↦ h.timestamp_le hchecks hmem⟩
  have hall : newest :: headers = newest :: headers' :=
    ValidChain.unique hchecks hsealed h h' (List.cons_subset_cons _ (List.subset_append_left _ _))
      (List.cons_subset_cons _ (List.subset_append_right _ _)) (congrArg Nat.succ hlength) rfl
  exact (List.cons.inj hall).2

end Chains

/-! ### Blocks that the node builds -/

/-- The hash that is recorded for the genesis. -/
def genesisHash : B256 := 0xd8fcc13b6a195b88b7b2da3722ff6cad767b13a8c1e9ffb1c73aa9d216d895f0

/-- `empty_genesis_header` -/
def emptyGenesisHeader : SealedHeader where
  hash := genesisHash
  header :=
    { parentHash := 0
      number := 0
      timestamp := 0
      transactionsRoot := 0
      receiptsRoot := 0
      stateRoot := 0
      gasUsed := 0
      gasLimit := 0x1c9c380
      difficulty := 0
      mixHash := 0
      extraData := []
      nonce := 0
      ommersHash := 0
      beneficiary := 0
      logsBloom := 0
      baseFeePerGas := some 0
      withdrawalsRoot := some 0
      blobGasUsed := some 0
      excessBlobGas := some 0
      parentBeaconBlockRoot := some 0
      requestsHash := some 0 }

/-- What goes into the next block besides its parent. -/
structure Proposal where
  attributes : NextBlockEnvAttributes
  transactions : List TransactionSigned
  output : BlockExecutionResult
  stateRoot : B256
  deriving DecidableEq, Repr

section Built

variable (config : EvmConfig) (commitments : Commitments) (extraData : Bytes)
  (hashSlow : Header → B256)

/-- The next block: the environment and the context of the parent, and the assembler. -/
def buildBlock (parent : SealedHeader) (proposal : Proposal) : HlBlock :=
  assembleBlock config.chainSpec commitments extraData
    (nextEvmEnv config parent.header proposal.attributes).blockEnv
    (contextForNextBlock parent proposal.attributes) parent.header proposal.transactions
    proposal.output proposal.stateRoot

/-- The newest header after some blocks were built on the genesis, the last one first. -/
def builtTip : List Proposal → SealedHeader
  | [] => emptyGenesisHeader
  | proposal :: proposals =>
    let block := buildBlock config commitments extraData (builtTip proposals) proposal
    { hash := hashSlow block.header, header := block.header }

/-- The headers after some blocks were built on the genesis. -/
def builtChain : List Proposal → List SealedHeader
  | [] => [emptyGenesisHeader]
  | proposal :: proposals =>
    builtTip config commitments extraData hashSlow (proposal :: proposals) :: builtChain proposals

/-- The environment that a block is executed in again is that it was built in, but for the price of
blob gas, and the context is the same with the withdrawals filled in. -/
structure Reexecutes (parent : SealedHeader) (proposal : Proposal) : Prop where
  blockEnv : (evmEnv config
      (buildBlock config commitments extraData parent proposal).header).blockEnv =
    { (nextEvmEnv config parent.header proposal.attributes).blockEnv with
      blobExcessGasAndPrice :=
        (evmEnv config (buildBlock config commitments extraData parent proposal).header)
          |>.blockEnv.blobExcessGasAndPrice }
  context : contextForBlock (buildBlock config commitments extraData parent proposal) =
    { contextForNextBlock parent proposal.attributes with
      withdrawals := some (proposal.attributes.withdrawals.getD []) }

variable {config commitments extraData hashSlow} {checks : ParentChecks}

theorem saturatingToU64_of_lt {n : ℕ} (h : n < u64Size) : saturatingToU64 n = n :=
  Nat.min_eq_left (Nat.le_sub_one_of_lt h)

theorem reexecutes {parent : SealedHeader} {proposal : Proposal}
    (hfits : proposal.attributes.timestamp < u64Size) :
    Reexecutes config commitments extraData parent proposal where
  blockEnv := by
    have hnumber : saturatingToU64 ((parent.header.number + 1) % u64Size) =
        (parent.header.number + 1) % u64Size :=
      saturatingToU64_of_lt (Nat.mod_lt _ (by decide))
    have htime := saturatingToU64_of_lt hfits
    simp only [evmEnv, buildBlock, assembleBlock, nextEvmEnv, hnumber, htime]
    rfl
  context := by
    simp only [contextForBlock, buildBlock, assembleBlock, contextForNextBlock,
      isShanghaiActiveAtTimestamp_chainSpec, if_true]

variable (config commitments extraData) in
/-- The fields of a built header that the check reads. -/
theorem header_buildBlock (parent : SealedHeader) {proposal : Proposal}
    (hfits : proposal.attributes.timestamp < u64Size) :
    let header := (buildBlock config commitments extraData parent proposal).header
    header.number = (parent.header.number + 1) % u64Size ∧ header.parentHash = parent.hash ∧
      header.timestamp = proposal.attributes.timestamp ∧ header.blobGasUsed.isSome ∧
      header.baseFeePerGas.isSome ∧
      header.excessBlobGas = config.maybeNextBlockExcessBlobGas parent.header
        (config.blobParamsAtTimestamp proposal.attributes.timestamp) := by
  have htime : saturatingToU64 proposal.attributes.timestamp = proposal.attributes.timestamp :=
    saturatingToU64_of_lt hfits
  refine ⟨saturatingToU64_of_lt (Nat.mod_lt _ (by decide)), rfl, htime, ?_, rfl, ?_⟩
  · simp only [buildBlock, assembleBlock, isCancunActiveAtTimestamp_chainSpec, if_true,
      Option.isSome_some]
  · simp only [buildBlock, assembleBlock, isCancunActiveAtTimestamp_chainSpec, if_true]
    show config.maybeNextBlockExcessBlobGas parent.header (config.blobParamsAtTimestamp _) = _
    rw [show (nextEvmEnv config parent.header proposal.attributes).blockEnv.timestamp =
      proposal.attributes.timestamp from rfl, htime]

/-- The header has what the blob gas of the next one follows from. -/
def HasBlobGas (header : Header) : Prop :=
  header.blobGasUsed.isSome ∧ header.excessBlobGas.isSome ∧ header.baseFeePerGas.isSome

/-- **A built block follows its parent** unless its time goes back, and the next one can be built on
it. -/
theorem follows_buildBlock (hconfig : config.Lawful) {parent : SealedHeader} {proposal : Proposal}
    (hblob : ∀ t, (config.blobParamsAtTimestamp t).isSome) (hparent : HasBlobGas parent.header)
    (hfits : proposal.attributes.timestamp < u64Size)
    (htime : parent.header.timestamp ≤ proposal.attributes.timestamp) {hash : B256} :
    Follows config ⟨hash, (buildBlock config commitments extraData parent proposal).header⟩
        parent ∧
      HasBlobGas (buildBlock config commitments extraData parent proposal).header := by
  obtain ⟨hnumber, hlink, htimestamp, hused, hfee, hexcess⟩ :=
    header_buildBlock config commitments extraData parent hfits
  obtain ⟨used, hused₀⟩ := Option.isSome_iff_exists.1 hparent.1
  obtain ⟨excess, hexcess₀⟩ := Option.isSome_iff_exists.1 hparent.2.1
  obtain ⟨fee, hfee₀⟩ := Option.isSome_iff_exists.1 hparent.2.2
  have hnext : ∀ params, config.blobParamsAtTimestamp proposal.attributes.timestamp = some params →
      config.maybeNextBlockExcessBlobGas parent.header
          (config.blobParamsAtTimestamp proposal.attributes.timestamp) =
        some (params.nextBlockExcessBlobGas excess used fee) := by
    intro params hparams
    rw [hparams]
    exact hconfig hexcess₀ hused₀ hfee₀
  refine ⟨⟨hnumber, hlink, ?_, fun params hparams ↦ ⟨hused, ?_⟩⟩, hused, ?_, hfee⟩
  · exact htime.trans_eq htimestamp.symm
  · rw [show SealedHeader.header ⟨hash, _⟩ = _ from rfl, htimestamp] at hparams
    rw [show SealedHeader.header ⟨hash, _⟩ = _ from rfl, hexcess, hnext params hparams, hexcess₀,
      hused₀, hfee₀]
    rfl
  · obtain ⟨params, hparams⟩ := Option.isSome_iff_exists.1 (hblob proposal.attributes.timestamp)
    rw [hexcess, hnext params hparams]
    rfl

/-- The times of some proposals, the last one first, do not go back. -/
def Timely (proposals : List Proposal) : Prop :=
  (proposals.map fun proposal ↦ proposal.attributes.timestamp).IsChain (· ≥ ·)

/-- The time of the newest header. -/
theorem timestamp_builtTip_le {proposal : Proposal} {proposals : List Proposal}
    (hfits : ∀ p ∈ proposals, p.attributes.timestamp < u64Size)
    (htimely : Timely (proposal :: proposals)) :
    (builtTip config commitments extraData hashSlow proposals).header.timestamp ≤
      proposal.attributes.timestamp := by
  cases proposals with
  | nil => exact Nat.zero_le _
  | cons older proposals =>
    obtain ⟨-, -, htimestamp, -⟩ := header_buildBlock config commitments extraData
      (builtTip config commitments extraData hashSlow proposals) (hfits older List.mem_cons_self)
    exact htimestamp.trans_le (List.isChain_cons_cons.1 htimely).1

variable (config commitments extraData hashSlow) in
/-- The newest header comes first. -/
theorem builtChain_eq_cons (proposals : List Proposal) :
    ∃ headers, builtChain config commitments extraData hashSlow proposals =
      builtTip config commitments extraData hashSlow proposals :: headers := by
  cases proposals with
  | nil => exact ⟨[], rfl⟩
  | cons proposal proposals => exact ⟨_, rfl⟩

theorem validChain_builtChain (hconfig : config.Lawful) (hchecks : checks.Lawful)
    (hblob : ∀ t, (config.blobParamsAtTimestamp t).isSome)
    {proposals : List Proposal} (hfits : ∀ p ∈ proposals, p.attributes.timestamp < u64Size)
    (htimely : Timely proposals) :
    ValidChain config checks (builtChain config commitments extraData hashSlow proposals) ∧
      HasBlobGas (builtTip config commitments extraData hashSlow proposals).header := by
  induction proposals with
  | nil => exact ⟨List.isChain_singleton _, rfl, rfl, rfl⟩
  | cons proposal proposals ih =>
    have hfits' : ∀ p ∈ proposals, p.attributes.timestamp < u64Size := fun p hp ↦
      hfits p (List.mem_cons_of_mem _ hp)
    obtain ⟨hvalid, hgas⟩ := ih hfits' (List.isChain_of_isChain_cons htimely)
    obtain ⟨headers, heq⟩ := builtChain_eq_cons config commitments extraData hashSlow proposals
    obtain ⟨hfollows, hgas'⟩ : Follows config
        (builtTip config commitments extraData hashSlow (proposal :: proposals))
        (builtTip config commitments extraData hashSlow proposals) ∧ HasBlobGas _ :=
      follows_buildBlock hconfig hblob hgas (hfits proposal List.mem_cons_self)
        (timestamp_builtTip_le hfits' htimely)
    refine ⟨?_, hgas'⟩
    rw [builtChain]
    rw [heq] at hvalid ⊢
    exact List.isChain_cons_cons.2 ⟨(validateHeaderAgainstParent_iff hchecks).2 hfollows, hvalid⟩

/-- A chain whose times go back does not pass. -/
theorem timely_of_validChain (hchecks : checks.Lawful) {proposals : List Proposal}
    (hfits : ∀ p ∈ proposals, p.attributes.timestamp < u64Size)
    (hvalid : ValidChain config checks
      (builtChain config commitments extraData hashSlow proposals)) :
    Timely proposals := by
  induction proposals with
  | nil => exact List.isChain_nil
  | cons proposal proposals ih =>
    have hfits' : ∀ p ∈ proposals, p.attributes.timestamp < u64Size := fun p hp ↦
      hfits p (List.mem_cons_of_mem _ hp)
    have hrest := ih hfits' (List.isChain_of_isChain_cons hvalid)
    cases proposals with
    | nil => exact List.isChain_singleton _
    | cons older proposals =>
      obtain ⟨hfollows, -⟩ := ValidChain.cons_cons hchecks hvalid
      obtain ⟨-, -, hnew, -⟩ := header_buildBlock config commitments extraData
        (builtTip config commitments extraData hashSlow (older :: proposals))
        (hfits proposal List.mem_cons_self)
      obtain ⟨-, -, hold, -⟩ := header_buildBlock config commitments extraData
        (builtTip config commitments extraData hashSlow proposals)
        (hfits' older List.mem_cons_self)
      refine List.isChain_cons_cons.2 ⟨?_, hrest⟩
      exact (hold.symm.trans_le hfollows.timestamp).trans_eq hnew

end Built

/-! ### A chain of three headers -/

/-- The check of the library for the number and the hash of the parent. -/
def libraryHashNumber (header : Header) (parent : SealedHeader) : Except HeaderError Unit :=
  if (parent.header.number + 1) % u64Size ≠ header.number then
    .error (.parentBlockNumberMismatch parent.header.number header.number)
  else if parent.hash ≠ header.parentHash then
    .error (.parentHashMismatch header.parentHash parent.hash)
  else .ok ()

/-- The check of the library for the blob gas. -/
def library4844 (header parent : Header) (blobParams : BlobParams) : Except HeaderError Unit :=
  match header.blobGasUsed, header.excessBlobGas with
  | none, _ => .error .blobGasUsedMissing
  | some _, none => .error .excessBlobGasMissing
  | some _, some excessBlobGas =>
    let expected := blobParams.nextBlockExcessBlobGas (parent.excessBlobGas.getD 0)
      (parent.blobGasUsed.getD 0) (parent.baseFeePerGas.getD 0)
    if expected ≠ excessBlobGas then .error (.excessBlobGasDiff excessBlobGas expected) else .ok ()

/-- The checks of the library. -/
def libraryChecks : ParentChecks where
  validateAgainstParentHashNumber := libraryHashNumber
  validateAgainstParent4844 := library4844

theorem lawful_libraryChecks : libraryChecks.Lawful where
  hashNumber_iff := by
    intro header parent
    show libraryHashNumber header parent = .ok () ↔ _
    rw [libraryHashNumber]
    split_ifs with hnumber hhash
    · exact iff_of_false nofun fun h ↦ hnumber h.1.symm
    · exact iff_of_false nofun fun h ↦ hhash h.2.symm
    · exact iff_of_true rfl ⟨(not_not.1 hnumber).symm, (not_not.1 hhash).symm⟩
  blobGas_iff := by
    intro header parent blobParams
    show library4844 header parent blobParams = .ok () ↔ _
    rw [library4844, BlobGasFollows]
    cases header.blobGasUsed with
    | none => simp
    | some used =>
      cases header.excessBlobGas with
      | none => simp
      | some excess =>
        simp only [ne_eq, ite_not, Option.isSome_some, Option.some.injEq, true_and]
        split_ifs with hexcess
        · exact iff_of_true rfl hexcess.symm
        · exact iff_of_false nofun fun h ↦ hexcess h.symm

/-- A header of the example. -/
def exampleChainHeader (parentHash : B256) (number : ℕ) : Header :=
  { Header.zero number with
    parentHash := parentHash
    baseFeePerGas := some 0
    withdrawalsRoot := some 0
    blobGasUsed := some 0
    excessBlobGas := some 0 }

/-- The first block after the genesis. -/
def exampleFirst : SealedHeader where
  hash := 0xf56b0fd66d09ff140815daaf695b90a610b32ed039c45fe08f4dc88ee2c6f487
  header := exampleChainHeader genesisHash 1

/-- The second one, in the same second. -/
def exampleSecond : SealedHeader where
  hash := 0xc52b950fd5bc91d34ee55da596f2d0ac707c1261bc78225b9976d238011917b3
  header := exampleChainHeader exampleFirst.hash 2

/-- The hashes of the two headers. -/
def exampleChainHash (header : Header) : B256 :=
  if header = exampleFirst.header then exampleFirst.hash
  else if header = exampleSecond.header then exampleSecond.hash
  else BitVec.ofNat 256 header.number

theorem history_unique_exampleSecond :
    ValidChain exampleConfig libraryChecks
        (exampleSecond :: ([exampleFirst] ++ [emptyGenesisHeader])) ∧
      exampleSecond.header.number = emptyGenesisHeader.header.number + 1 + 1 := by
  have hfirst : Follows exampleConfig exampleFirst emptyGenesisHeader :=
    ⟨rfl, rfl, Nat.le_refl 0, by rintro params ⟨⟩; exact ⟨rfl, rfl⟩⟩
  have hsecond : Follows exampleConfig exampleSecond exampleFirst :=
    ⟨rfl, rfl, Nat.le_refl 0, by rintro params ⟨⟩; exact ⟨rfl, rfl⟩⟩
  have hcheck := @validateHeaderAgainstParent_iff exampleConfig _ lawful_libraryChecks
  have hvalid : ValidChain exampleConfig libraryChecks
      (exampleSecond :: ([exampleFirst] ++ [emptyGenesisHeader])) :=
    List.isChain_cons_cons.2
      ⟨hcheck.2 hsecond, List.isChain_cons_cons.2 ⟨hcheck.2 hfirst, List.isChain_singleton _⟩⟩
  have hsealed : SealedBy exampleChainHash [exampleSecond, exampleFirst, exampleFirst] :=
    ⟨by decide +kernel, by decide +kernel⟩
  exact ⟨hvalid,
    (history_unique lawful_libraryChecks hvalid hvalid hsealed (by decide) (by decide)).2.1⟩

/-- The roots of blocks without contents. -/
def exampleEmptyRoots : Commitments where
  transactionRoot := fun _ ↦ 0x56e81f171bcc55a6ff8345e692c0f86e5b48e01b996cadc001622fb5e363b421
  receiptRoot := fun _ ↦ 0x56e81f171bcc55a6ff8345e692c0f86e5b48e01b996cadc001622fb5e363b421
  withdrawalsRoot := fun _ ↦ 0x56e81f171bcc55a6ff8345e692c0f86e5b48e01b996cadc001622fb5e363b421
  requestsHash := fun _ ↦ 0
  logBloom := fun _ ↦ 0
  gasSpentByTransactions := fun _ ↦ []

/-- An empty block. -/
def exampleProposal (timestamp : ℕ) : Proposal where
  attributes :=
    { timestamp := timestamp
      suggestedFeeRecipient := 0
      prevRandao := 0
      gasLimit := 2000000
      parentBeaconBlockRoot := some 0
      withdrawals := none }
  transactions := []
  output := { receipts := [], requests := [], gasUsed := 0 }
  stateRoot := 0

/-- The hashes of three such blocks on the genesis. -/
def exampleBuiltHash (header : Header) : B256 :=
  match header.number with
  | 1 => 0xf84d3d0725444af804f481887579bcd356293678497fcb9405d3322425ac2481
  | 2 => 0x5e2b0dacd4ed4c7c3ba0e07ef61af54a12c6bc0f4b19a7669c8fc31371661e1c
  | 3 => 0x5532ee985de8e3f3377772ccbf59c4021447936fd828ee261295002f0ec2e0a0
  | _ => 0

end RethHl
