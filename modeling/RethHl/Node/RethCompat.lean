import RethHl.Node.PseudoSigner
import RethHl.Semantics.Retry

/-!
# From block records to blocks

A block record lists its system transactions apart from the transactions of the block. The
conversion puts them first and gives each a pseudo signature: the reserved value when the
transaction has no input, and the token's own value when it calls the contract of a token.

Which token a contract belongs to is read from a shared map. A contract that is not in the map makes
the conversion fetch the whole map again and look once more, and it does so **as long as it takes**:
the source has no counter and no other way out of that loop. `retry` models it, and the answers of
the service are a parameter, so that what follows holds for every sequence of answers. The source
counts nothing; the number of requests is kept here to tell the answers apart.

The map behind the answers is a function, since only inserting and looking up matter.

`toRethBlock_ends_iff` says when a conversion ends, and `recoversTo_systemTx` who sends a converted
transaction. When the map lists everything, a record is converted as `RethHl.Node.Types` has it
(`returns_toRethBlock_of_listed`).
-/

namespace RethHl

/-! ### The tokens of the spot market -/

/-- The contract of a token. -/
structure EvmContract where
  address : Address
  deriving DecidableEq, Repr

/-- A token of the spot market. -/
structure SpotToken where
  index : BitVec 64
  evmContract : Option EvmContract
  deriving DecidableEq, Repr

/-- What the service answers. -/
structure SpotMeta where
  tokens : List SpotToken
  deriving DecidableEq, Repr

/-- A map from contracts to tokens. -/
abbrev SpotMap := Address → Option SpotId

/-- The number of the main network. -/
def mainnetChainId : ℕ := 999

/-- The number of the test network. -/
def testnetChainId : ℕ := 998

/-- The function `fetch_spot_meta`, at its `n`-th request. -/
def fetchSpotMeta (post : String → ℕ → Except String SpotMeta) (chainId n : ℕ) :
    Except String SpotMeta :=
  if chainId = mainnetChainId then post "https://api.hyperliquid.xyz/info" n
  else if chainId = testnetChainId then post "https://api.hyperliquid-testnet.xyz/info" n
  else .error "unknown chain id"

/-- Enter one token into the map. A later token overwrites an earlier one. -/
def insertToken (map : SpotMap) (token : SpotToken) : SpotMap :=
  match token.evmContract with
  | some evmContract => Function.update map evmContract.address (some ⟨token.index⟩)
  | none => map

/-- The map of an answer. -/
def SpotMeta.toMap (answer : SpotMeta) : SpotMap :=
  answer.tokens.foldl insertToken fun _ ↦ none

/-- The function `erc20_contract_to_spot_token`, at its `n`-th request. -/
def erc20ContractToSpotToken (post : String → ℕ → Except String SpotMeta) (chainId n : ℕ) :
    Except String SpotMap := do
  let answer ← fetchSpotMeta post chainId n
  return answer.toMap

/-! ### The conversion -/

/-- What stops the program. -/
inductive Panic where
  | message (text : String)
  | unwrap (error : String)
  deriving DecidableEq, Repr

/-- The shared map, with the number of requests that were made for it. -/
structure EvmMap where
  map : SpotMap
  requests : ℕ

/-- Computations over the shared map. One that runs out of fuel has no outcome. -/
abbrev SpotM := StateT EvmMap (ExceptT Panic Option)

/-- Replace the shared map by a fresh one. -/
def refetch (post : String → ℕ → Except String SpotMeta) (chainId : ℕ) (s : EvmMap) :
    Except Panic EvmMap :=
  match erc20ContractToSpotToken post chainId s.requests with
  | .ok map => .ok { map := map, requests := s.requests + 1 }
  | .error e => .error (.unwrap e)

/-- The token of a contract. -/
def lookupSpot (post : String → ℕ → Except String SpotMeta) (chainId fuel : ℕ)
    (contract : Address) : SpotM SpotId :=
  fun s ↦ retry (fun s ↦ s.map contract) (refetch post chainId) fuel s

/-- The transaction with the pseudo signature. -/
def pseudoSigned (tx : TxLegacy) (s : B256) : TransactionSigned where
  signature := { r := 1, s := s, oddYParity := true }
  transaction := .legacy tx

/-- The function `system_tx_to_reth_transaction`. -/
def systemTxToRethTransaction (post : String → ℕ → Except String SpotMeta) (chainId fuel : ℕ)
    (transaction : SystemTx) : SpotM TransactionSigned :=
  match transaction.tx with
  | .legacy tx =>
    match tx.dest with
    | .call contract => do
      let s ←
        if tx.input.isEmpty then pure 1
        else SpotId.toS <$> lookupSpot post chainId fuel contract
      return pseudoSigned tx s
    | .create => throw (.message "Unexpected contract creation")
  | _ => throw (.message "Unexpected transaction type")

/-- The block with the converted system transactions in front. -/
def SealedBlock.withSystemTxs (block : SealedBlock) (readPrecompileCalls : ReadPrecompileCalls)
    (highestPrecompileAddress : Option Address) (converted : List TransactionSigned) : HlBlock where
  header := block.header.header
  body :=
    { inner :=
        { transactions := converted ++ block.body.transactions
          withdrawals := block.body.withdrawals
          ommers := block.body.ommers }
      sidecars := none
      readPrecompileCalls := some readPrecompileCalls
      highestPrecompileAddress := highestPrecompileAddress }

/-- The method `SealedBlock::to_reth_block`. -/
def SealedBlock.toRethBlock (post : String → ℕ → Except String SpotMeta) (chainId fuel : ℕ)
    (block : SealedBlock) (readPrecompileCalls : ReadPrecompileCalls)
    (highestPrecompileAddress : Option Address) (systemTxs : List SystemTx) : SpotM HlBlock := do
  let converted ← systemTxs.mapM (systemTxToRethTransaction post chainId fuel)
  return block.withSystemTxs readPrecompileCalls highestPrecompileAddress converted

/-! ### Outcomes -/

namespace SpotM

/-- A computation has an outcome, a value or a panic, when it is given enough fuel. -/
def Ends {α : Type} (x : ℕ → SpotM α) (s : EvmMap) : Prop :=
  ∃ fuel outcome, ((x fuel).run s).run = some outcome

/-- A computation returns a value and leaves a map, with any fuel from some amount on. -/
def Returns {α : Type} (x : ℕ → SpotM α) (s : EvmMap) (a : α) (s' : EvmMap) : Prop :=
  ∃ fuel, ∀ fuel' ≥ fuel, ((x fuel').run s).run = some (.ok (a, s'))

theorem Returns.ends {α : Type} {x : ℕ → SpotM α} {s s' : EvmMap} {a : α}
    (h : Returns x s a s') : Ends x s := by
  obtain ⟨fuel, hfuel⟩ := h
  exact ⟨fuel, _, hfuel fuel le_rfl⟩

/-- A computation that is followed by another has an outcome only if it has one itself. -/
theorem run_bind_eq_some {α β : Type} {x : SpotM α} {f : α → SpotM β} {s : EvmMap}
    {outcome : Except Panic (β × EvmMap)} (h : ((x >>= f).run s).run = some outcome) :
    ∃ first, (x.run s).run = some first ∧
      ∀ a s', first = .ok (a, s') → ((f a).run s').run = some outcome := by
  rw [StateT.run_bind, ExceptT.run_bind] at h
  obtain ⟨first, hfirst, h⟩ := Option.bind_eq_some_iff.1 h
  refine ⟨first, hfirst, ?_⟩
  rintro a s' rfl
  exact h

theorem Returns.pure {α : Type} (a : α) (s : EvmMap) : Returns (fun _ ↦ pure a) s a s :=
  ⟨0, fun _ _ ↦ rfl⟩

/-- One computation after the other. -/
theorem Returns.bind {α β : Type} {x : ℕ → SpotM α} {f : ℕ → α → SpotM β} {s s' s'' : EvmMap}
    {a : α} {b : β} (hx : Returns x s a s') (hf : Returns (fun fuel ↦ f fuel a) s' b s'') :
    Returns (fun fuel ↦ x fuel >>= f fuel) s b s'' := by
  obtain ⟨fuel₁, h₁⟩ := hx
  obtain ⟨fuel₂, h₂⟩ := hf
  refine ⟨max fuel₁ fuel₂, fun fuel hfuel ↦ ?_⟩
  rw [StateT.run_bind, ExceptT.run_bind, h₁ fuel (le_of_max_le_left hfuel)]
  exact h₂ fuel (le_of_max_le_right hfuel)

end SpotM

/-! ### What a conversion does to the map -/

open SpotM

/-- A legacy transaction that calls a contract. -/
def SystemTx.IsLegacyCall (transaction : SystemTx) : Prop :=
  ∃ tx contract, transaction = ⟨.legacy tx⟩ ∧ tx.dest = .call contract

/-- The contract that the conversion looks up: that of a legacy call with input. -/
def SystemTx.lookup (transaction : SystemTx) : Option Address :=
  match transaction.tx with
  | .legacy tx =>
    match tx.dest with
    | .call contract => if tx.input.isEmpty then none else some contract
    | .create => none
  | _ => none

/-- The maps on the way: the map at the start, then those of the answers. -/
def tables (answers : ℕ → SpotMeta) (s : EvmMap) : ℕ → SpotMap
  | 0 => s.map
  | n + 1 => (answers (s.requests + n)).toMap

/-- The shared map after one more answer. -/
def EvmMap.next (answers : ℕ → SpotMeta) (s : EvmMap) : EvmMap where
  map := (answers s.requests).toMap
  requests := s.requests + 1

/-- The first map that lists a contract is `n` requests away. -/
def FirstListed (answers : ℕ → SpotMeta) (s : EvmMap) (contract : Address) (n : ℕ) : Prop :=
  (tables answers s n contract).isSome ∧ ∀ m < n, tables answers s m contract = none

/-- What the conversion of a transaction does to the shared map: nothing without a lookup, and
otherwise it replaces the map until one lists the contract. -/
def SystemTx.Moves (answers : ℕ → SpotMeta) (transaction : SystemTx) (s s' : EvmMap) : Prop :=
  match transaction.lookup with
  | none => s' = s
  | some contract => ∃ n, FirstListed answers s contract n ∧
      s' = { map := tables answers s n, requests := s.requests + n }

/-- What the lookups of transactions look for, in order. -/
def finders (transactions : List SystemTx) : List (EvmMap → Option SpotId) :=
  (transactions.filterMap SystemTx.lookup).map fun contract s ↦ s.map contract

/-- The shared map after `n` answers. -/
theorem next_iterate (answers : ℕ → SpotMeta) (s : EvmMap) (n : ℕ) :
    (EvmMap.next answers)^[n] s = { map := tables answers s n, requests := s.requests + n } := by
  induction n with
  | zero => rfl
  | succ n ih =>
    rw [Function.iterate_succ_apply', ih]
    rfl

theorem firstFound_iff {answers : ℕ → SpotMeta} {s : EvmMap} {contract : Address} {n : ℕ} :
    Retry.FirstFound (fun s ↦ s.map contract) (EvmMap.next answers) s n ↔
      FirstListed answers s contract n := by
  simp only [Retry.FirstFound, FirstListed, next_iterate]

theorem exists_firstListed {answers : ℕ → SpotMeta} {s : EvmMap} {contract : Address} {n : ℕ}
    (h : (tables answers s n contract).isSome) : ∃ m ≤ n, FirstListed answers s contract m := by
  have hfound : (((EvmMap.next answers)^[n] s).map contract).isSome := by rwa [next_iterate]
  obtain ⟨m, hle, hm⟩ : ∃ m ≤ n, Retry.FirstFound (fun s ↦ s.map contract)
      (EvmMap.next answers) s m := Retry.exists_firstFound hfound
  exact ⟨m, hle, firstFound_iff.1 hm⟩

theorem SystemTx.lookup_of_isEmpty {tx : TxLegacy} {contract : Address}
    (hdest : tx.dest = .call contract) (hinput : tx.input = []) :
    SystemTx.lookup ⟨.legacy tx⟩ = none := by
  simp [SystemTx.lookup, hdest, hinput]

theorem SystemTx.lookup_of_ne_nil {tx : TxLegacy} {contract : Address}
    (hdest : tx.dest = .call contract) (hinput : tx.input ≠ []) :
    SystemTx.lookup ⟨.legacy tx⟩ = some contract := by
  simp [SystemTx.lookup, hdest, hinput]

theorem moves_of_isEmpty {answers : ℕ → SpotMeta} {tx : TxLegacy} {contract : Address}
    (hdest : tx.dest = .call contract) (hinput : tx.input = []) {s s' : EvmMap} :
    SystemTx.Moves answers ⟨.legacy tx⟩ s s' ↔ s' = s := by
  simp only [SystemTx.Moves, SystemTx.lookup_of_isEmpty hdest hinput]

theorem moves_of_ne_nil {answers : ℕ → SpotMeta} {tx : TxLegacy} {contract : Address}
    (hdest : tx.dest = .call contract) (hinput : tx.input ≠ []) {s s' : EvmMap} :
    SystemTx.Moves answers ⟨.legacy tx⟩ s s' ↔
      ∃ n, FirstListed answers s contract n ∧
        s' = { map := tables answers s n, requests := s.requests + n } := by
  simp only [SystemTx.Moves, SystemTx.lookup_of_ne_nil hdest hinput]

/-- The lookups of a list, taken apart at its first transaction. -/
theorem stops_finders_cons {answers : ℕ → SpotMeta} {transaction : SystemTx}
    {transactions : List SystemTx} {s : EvmMap} :
    Retry.Stops (EvmMap.next answers) (finders (transaction :: transactions)) s ↔
      ∃ s', transaction.Moves answers s s' ∧
        Retry.Stops (EvmMap.next answers) (finders transactions) s' := by
  cases hlookup : transaction.lookup with
  | none => simp [finders, SystemTx.Moves, hlookup]
  | some contract =>
    simp only [SystemTx.Moves, hlookup]
    rw [finders, List.filterMap_cons_some hlookup, List.map_cons]
    constructor
    · rintro ⟨n, hn, hrest⟩
      rw [next_iterate] at hrest
      exact ⟨_, ⟨n, firstFound_iff.1 hn, rfl⟩, hrest⟩
    · rintro ⟨-, ⟨n, hn, rfl⟩, hrest⟩
      refine ⟨n, firstFound_iff.2 hn, ?_⟩
      rw [next_iterate]
      exact hrest

/-- A call without input is converted at once. -/
theorem run_systemTx_of_isEmpty (post : String → ℕ → Except String SpotMeta) (chainId fuel : ℕ)
    {tx : TxLegacy} {contract : Address} (hdest : tx.dest = .call contract) (hinput : tx.input = [])
    (s : EvmMap) :
    ((systemTxToRethTransaction post chainId fuel ⟨.legacy tx⟩).run s).run =
      some (.ok (pseudoSigned tx 1, s)) := by
  simp only [systemTxToRethTransaction, hdest, hinput]
  rfl

/-- A call with input is converted after a lookup. -/
theorem systemTx_of_ne_nil (post : String → ℕ → Except String SpotMeta) (chainId fuel : ℕ)
    {tx : TxLegacy} {contract : Address} (hdest : tx.dest = .call contract)
    (hinput : tx.input ≠ []) :
    systemTxToRethTransaction post chainId fuel ⟨.legacy tx⟩ =
      (fun spot : SpotId ↦ pseudoSigned tx spot.toS) <$> lookupSpot post chainId fuel contract := by
  simp only [systemTxToRethTransaction, hdest, List.isEmpty_iff, hinput, if_false, map_eq_pure_bind,
    bind_assoc, pure_bind]

/-- A call with input is converted at once when the map lists its contract. -/
theorem run_systemTx_of_listed (post : String → ℕ → Except String SpotMeta) (chainId fuel : ℕ)
    {tx : TxLegacy} {contract : Address} (hdest : tx.dest = .call contract) (hinput : tx.input ≠ [])
    {s : EvmMap} {spot : SpotId} (hspot : s.map contract = some spot) :
    ((systemTxToRethTransaction post chainId (fuel + 1) ⟨.legacy tx⟩).run s).run =
      some (.ok (pseudoSigned tx spot.toS, s)) := by
  have hlookup : ((lookupSpot post chainId (fuel + 1) contract).run s).run =
      some (.ok (spot, s)) := by
    show retry (fun s ↦ s.map contract) (refetch post chainId) (fuel + 1) s = _
    simp only [retry, hspot]
  rw [systemTx_of_ne_nil post chainId (fuel + 1) hdest hinput, StateT.run_map, ExceptT.run_map,
    hlookup]
  rfl

section Successful

variable {post : String → ℕ → Except String SpotMeta} {chainId : ℕ} {answers : ℕ → SpotMeta}
  (hanswers : ∀ n, fetchSpotMeta post chainId n = .ok (answers n))

include hanswers

theorem refetch_eq (s : EvmMap) : refetch post chainId s = .ok (s.next answers) := by
  rw [refetch, erc20ContractToSpotToken, hanswers]
  rfl

/-- **What a lookup returns**: the token of the first map that lists the contract. -/
theorem run_lookupSpot_eq_some_iff {fuel : ℕ} {contract : Address} {s : EvmMap}
    {outcome : Except Panic (SpotId × EvmMap)} :
    ((lookupSpot post chainId fuel contract).run s).run = some outcome ↔
      ∃ n < fuel, FirstListed answers s contract n ∧ ∃ spot,
        tables answers s n contract = some spot ∧
          outcome = .ok (spot, { map := tables answers s n, requests := s.requests + n }) := by
  show retry (fun s ↦ s.map contract) (refetch post chainId) fuel s = some outcome ↔ _
  rw [Retry.retry_eq_some_iff (refetch_eq hanswers)]
  simp only [firstFound_iff, next_iterate]

/-- **What the conversion of a call with input returns.** -/
theorem run_systemTx_eq_some_iff {fuel : ℕ} {tx : TxLegacy} {contract : Address}
    (hdest : tx.dest = .call contract) (hinput : tx.input ≠ []) {s : EvmMap}
    {outcome : Except Panic (TransactionSigned × EvmMap)} :
    ((systemTxToRethTransaction post chainId fuel ⟨.legacy tx⟩).run s).run = some outcome ↔
      ∃ n < fuel, FirstListed answers s contract n ∧ ∃ spot,
        tables answers s n contract = some spot ∧
          outcome = .ok (pseudoSigned tx spot.toS,
            { map := tables answers s n, requests := s.requests + n }) := by
  rw [systemTx_of_ne_nil post chainId fuel hdest hinput, StateT.run_map, ExceptT.run_map]
  constructor
  · intro h
    obtain ⟨outcome', hrun, rfl⟩ := Option.map_eq_some_iff.1 h
    obtain ⟨n, hn, hfirst, spot, hspot, rfl⟩ := (run_lookupSpot_eq_some_iff hanswers).1 hrun
    exact ⟨n, hn, hfirst, spot, hspot, rfl⟩
  · rintro ⟨n, hn, hfirst, spot, hspot, rfl⟩
    rw [(run_lookupSpot_eq_some_iff hanswers).2 ⟨n, hn, hfirst, spot, hspot, rfl⟩]
    rfl

/-- A call with input is converted once a map lists its contract. -/
theorem returns_systemTx {tx : TxLegacy} {contract : Address} (hdest : tx.dest = .call contract)
    (hinput : tx.input ≠ []) {s : EvmMap} {n : ℕ} (hn : FirstListed answers s contract n) :
    ∃ spot, tables answers s n contract = some spot ∧
      Returns (fun fuel ↦ systemTxToRethTransaction post chainId fuel ⟨.legacy tx⟩) s
        (pseudoSigned tx spot.toS) { map := tables answers s n, requests := s.requests + n } := by
  obtain ⟨spot, hspot⟩ := Option.isSome_iff_exists.1 hn.1
  refine ⟨spot, hspot, n + 1, fun fuel hfuel ↦ ?_⟩
  exact (run_systemTx_eq_some_iff hanswers hdest hinput).2 ⟨n, hfuel, hn, spot, hspot, rfl⟩

theorem ends_systemTx_iff {tx : TxLegacy} {contract : Address} (hdest : tx.dest = .call contract)
    (hinput : tx.input ≠ []) {s : EvmMap} :
    Ends (fun fuel ↦ systemTxToRethTransaction post chainId fuel ⟨.legacy tx⟩) s ↔
      ∃ n, (tables answers s n contract).isSome := by
  constructor
  · rintro ⟨fuel, outcome, hrun⟩
    obtain ⟨n, -, hn, -⟩ := (run_systemTx_eq_some_iff hanswers hdest hinput).1 hrun
    exact ⟨n, hn.1⟩
  · rintro ⟨n, hlisted⟩
    obtain ⟨m, -, hm⟩ := exists_firstListed hlisted
    obtain ⟨spot, -, hreturns⟩ := returns_systemTx hanswers hdest hinput hm
    exact hreturns.ends

/-! ### Blocks -/

/-- A conversion that ends has converted the transaction, and moved the map. -/
theorem moves_of_run {transaction : SystemTx} (hcall : transaction.IsLegacyCall) {fuel : ℕ}
    {s : EvmMap} {outcome : Except Panic (TransactionSigned × EvmMap)}
    (h : ((systemTxToRethTransaction post chainId fuel transaction).run s).run = some outcome) :
    ∃ signed s', outcome = .ok (signed, s') ∧ transaction.Moves answers s s' := by
  obtain ⟨tx, contract, rfl, hdest⟩ := hcall
  by_cases hinput : tx.input = []
  · rw [run_systemTx_of_isEmpty post chainId fuel hdest hinput] at h
    exact ⟨_, s, (Option.some.inj h).symm, (moves_of_isEmpty hdest hinput).2 rfl⟩
  · obtain ⟨n, -, hn, spot, -, rfl⟩ := (run_systemTx_eq_some_iff hanswers hdest hinput).1 h
    exact ⟨_, _, rfl, (moves_of_ne_nil hdest hinput).2 ⟨n, hn, rfl⟩⟩

/-- A map that a conversion would move to is one that it does move to. -/
theorem returns_of_moves {transaction : SystemTx} (hcall : transaction.IsLegacyCall)
    {s s' : EvmMap} (h : transaction.Moves answers s s') :
    ∃ signed, Returns (fun fuel ↦ systemTxToRethTransaction post chainId fuel transaction) s
      signed s' := by
  obtain ⟨tx, contract, rfl, hdest⟩ := hcall
  by_cases hinput : tx.input = []
  · obtain rfl := (moves_of_isEmpty hdest hinput).1 h
    exact ⟨_, 0, fun fuel _ ↦ run_systemTx_of_isEmpty post chainId fuel hdest hinput s'⟩
  · obtain ⟨n, hn, rfl⟩ := (moves_of_ne_nil hdest hinput).1 h
    obtain ⟨spot, -, hreturns⟩ := returns_systemTx hanswers hdest hinput hn
    exact ⟨_, hreturns⟩

/-- The conversions of a block's system transactions end where the lookups do. -/
theorem stops_of_run_mapM {transactions : List SystemTx}
    (hcalls : ∀ transaction ∈ transactions, transaction.IsLegacyCall) {fuel : ℕ} {s : EvmMap}
    {outcome : Except Panic (List TransactionSigned × EvmMap)}
    (h : ((transactions.mapM (systemTxToRethTransaction post chainId fuel)).run s).run =
      some outcome) :
    Retry.Stops (EvmMap.next answers) (finders transactions) s := by
  induction transactions generalizing s outcome with
  | nil => trivial
  | cons transaction rest ih =>
    rw [List.mapM_cons] at h
    obtain ⟨first, hfirst, h⟩ := run_bind_eq_some h
    obtain ⟨signed, s', rfl, hmoves⟩ := moves_of_run hanswers (hcalls _ List.mem_cons_self) hfirst
    obtain ⟨others, hothers, -⟩ := run_bind_eq_some (h signed s' rfl)
    have hrest := ih (fun t ht ↦ hcalls t (List.mem_cons_of_mem _ ht)) hothers
    exact stops_finders_cons.2 ⟨s', hmoves, hrest⟩

theorem returns_mapM_of_stops {transactions : List SystemTx}
    (hcalls : ∀ transaction ∈ transactions, transaction.IsLegacyCall) {s : EvmMap}
    (h : Retry.Stops (EvmMap.next answers) (finders transactions) s) :
    ∃ converted s', Returns
      (fun fuel ↦ transactions.mapM (systemTxToRethTransaction post chainId fuel)) s
        converted s' := by
  induction transactions generalizing s with
  -- the fuel of a block is the largest that one of its conversions needs
  | nil => exact ⟨[], s, Returns.pure [] s⟩
  | cons transaction rest ih =>
    obtain ⟨s₁, hmoves, hstops⟩ := stops_finders_cons.1 h
    obtain ⟨signed, hsigned⟩ := returns_of_moves hanswers (hcalls _ List.mem_cons_self) hmoves
    obtain ⟨others, s₂, hothers⟩ := ih (fun t ht ↦ hcalls t (List.mem_cons_of_mem _ ht)) hstops
    refine ⟨signed :: others, s₂, ?_⟩
    simp only [List.mapM_cons]
    exact hsigned.bind (hothers.bind (Returns.pure _ _))

theorem ends_toRethBlock_iff {transactions : List SystemTx}
    (hcalls : ∀ transaction ∈ transactions, transaction.IsLegacyCall) (block : SealedBlock)
    (calls : ReadPrecompileCalls) (highest : Option Address) {s : EvmMap} :
    Ends (fun fuel ↦ block.toRethBlock post chainId fuel calls highest transactions) s ↔
      ∃ stops : List ℕ, stops.Pairwise (· ≤ ·) ∧
        List.Forall₂ (fun contract n ↦ (tables answers s n contract).isSome = true)
          (transactions.filterMap SystemTx.lookup) stops := by
  -- only the transactions with a lookup count, and each starts from the map of the one before
  have hstops : Retry.Stops (EvmMap.next answers) (finders transactions) s ↔ _ := Retry.stops_iff
  simp only [finders, List.forall₂_map_left_iff, next_iterate] at hstops
  rw [← hstops]
  constructor
  · rintro ⟨fuel, outcome, hrun⟩
    obtain ⟨first, hfirst, -⟩ := run_bind_eq_some hrun
    exact stops_of_run_mapM hanswers hcalls hfirst
  · intro h
    obtain ⟨converted, s', hconverted⟩ := returns_mapM_of_stops hanswers hcalls h
    have hblock := hconverted.bind (f := fun _ converted ↦
      pure (block.withSystemTxs calls highest converted)) (Returns.pure _ _)
    exact hblock.ends

/-- **When a conversion ends.** However the service answers, the conversion of a call with input
ends exactly when some map on the way lists its contract, and it then stops at the first: it asks
once at most when the next answer lists the contract. A block of calls is converted exactly when
its lookups can be served in order, by maps that do not go back. -/
theorem toRethBlock_ends_iff (s : EvmMap) :
    (∀ (tx : TxLegacy) (contract : Address), tx.dest = .call contract → tx.input ≠ [] →
      (Ends (fun fuel ↦ systemTxToRethTransaction post chainId fuel ⟨.legacy tx⟩) s ↔
        ∃ n, (tables answers s n contract).isSome) ∧
      (∀ n, FirstListed answers s contract n → ∃ signed s',
        Returns (fun fuel ↦ systemTxToRethTransaction post chainId fuel ⟨.legacy tx⟩) s signed s' ∧
          s'.requests = s.requests + n) ∧
      ((tables answers s 1 contract).isSome → ∃ signed s',
        Returns (fun fuel ↦ systemTxToRethTransaction post chainId fuel ⟨.legacy tx⟩) s signed s' ∧
          s'.requests ≤ s.requests + 1)) ∧
    ∀ (block : SealedBlock) (calls : ReadPrecompileCalls) (highest : Option Address)
      (transactions : List SystemTx),
      (∀ transaction ∈ transactions, transaction.IsLegacyCall) →
        (Ends (fun fuel ↦ block.toRethBlock post chainId fuel calls highest transactions) s ↔
          ∃ stops : List ℕ, stops.Pairwise (· ≤ ·) ∧
            List.Forall₂ (fun contract n ↦ (tables answers s n contract).isSome = true)
              (transactions.filterMap SystemTx.lookup) stops) := by
  refine ⟨fun tx contract hdest hinput ↦ ⟨ends_systemTx_iff hanswers hdest hinput, ?_, ?_⟩,
    fun block calls highest transactions hcalls ↦
      ends_toRethBlock_iff hanswers hcalls block calls highest⟩
  · intro n hn
    obtain ⟨spot, -, hreturns⟩ := returns_systemTx hanswers hdest hinput hn
    exact ⟨_, _, hreturns, rfl⟩
  · intro hlisted
    obtain ⟨n, hle, hn⟩ := exists_firstListed hlisted
    obtain ⟨spot, -, hreturns⟩ := returns_systemTx hanswers hdest hinput hn
    exact ⟨_, _, hreturns, Nat.add_le_add_left hle _⟩

end Successful

/-! ### Examples -/

/-- A call of a contract, with input. -/
def exampleCall : TxLegacy where
  chainId := some 999
  nonce := 0
  gasPrice := 0
  gasLimit := 200000
  dest := .call 0x1111111111111111111111111111111111111111
  value := 0
  input := [0xa9, 0x05, 0x9c, 0xbb]

/-- The map at the start of the program. -/
def emptyEvmMap : EvmMap where
  map := fun _ ↦ none
  requests := 0

/-- Answers that list the contract from the second request on. -/
def exampleAnswers : ℕ → SpotMeta
  | 0 => { tokens := [{ index := 0, evmContract := none }] }
  | _ + 1 =>
    { tokens :=
        [{ index := 0, evmContract := none },
          { index := 150
            evmContract := some ⟨0x1111111111111111111111111111111111111111⟩ }] }

/-- The block around the example transactions. -/
def exampleSealedBlock : SealedBlock where
  header := { hash := 0, header := Header.zero 1 }
  body := { transactions := [], ommers := [], withdrawals := none }

/-- The service lists the contract late; the conversion waits for it. -/
theorem toRethBlock_ends_iff_exampleCall :
    Ends (fun fuel ↦ exampleSealedBlock.toRethBlock (fun _ n ↦ .ok (exampleAnswers n))
      mainnetChainId fuel [] none [⟨.legacy exampleCall⟩, ⟨.legacy exampleCall⟩]) emptyEvmMap := by
  have hanswers : ∀ n, fetchSpotMeta (fun _ n ↦ .ok (exampleAnswers n)) mainnetChainId n =
      .ok (exampleAnswers n) := fun _ ↦ rfl
  have hcall : SystemTx.IsLegacyCall ⟨.legacy exampleCall⟩ := ⟨exampleCall, _, rfl, rfl⟩
  refine ((toRethBlock_ends_iff hanswers emptyEvmMap).2 _ _ _ _ (by simp [hcall])).2
    ⟨[2, 2], by decide, ?_⟩
  exact .cons (by decide) (.cons (by decide) .nil)

/-- **A contract that is never listed.** The service answers every request, and never with the
contract: the conversion of the call does not end, and neither does that of a block with it. -/
theorem never_listed_never_ends :
    SystemTx.IsLegacyCall ⟨.legacy exampleCall⟩ ∧ exampleCall.input ≠ [] ∧
      ¬ Ends (fun fuel ↦ systemTxToRethTransaction (fun _ _ ↦ .ok { tokens := [] }) mainnetChainId
        fuel ⟨.legacy exampleCall⟩) emptyEvmMap ∧
      ¬ Ends (fun fuel ↦ exampleSealedBlock.toRethBlock (fun _ _ ↦ .ok { tokens := [] })
        mainnetChainId fuel [] none [⟨.legacy exampleCall⟩]) emptyEvmMap := by
  have hanswers : ∀ n, fetchSpotMeta (fun _ _ ↦ .ok { tokens := [] }) mainnetChainId n =
      .ok { tokens := [] } := fun _ ↦ rfl
  have hnone : ∀ n contract, tables (fun _ ↦ { tokens := [] }) emptyEvmMap n contract = none := by
    intro n contract
    cases n <;> rfl
  have hcall : SystemTx.IsLegacyCall ⟨.legacy exampleCall⟩ := ⟨exampleCall, _, rfl, rfl⟩
  have hinput : exampleCall.input ≠ [] := by decide
  refine ⟨hcall, hinput, ?_, ?_⟩
  · rw [ends_systemTx_iff hanswers rfl hinput]
    rintro ⟨n, hn⟩
    rw [hnone] at hn
    cases hn
  · rw [ends_toRethBlock_iff hanswers (by simp [hcall])]
    rintro ⟨stops, -, hstops⟩
    obtain ⟨n, -, hn, -⟩ := List.forall₂_cons_left_iff.1 hstops
    rw [hnone] at hn
    cases hn

/-! ### A map that lists every contract -/

/-- The `s` value of a transaction, by a map that lists what it looks up. -/
def SystemTx.sValue (map : SpotMap) (transaction : SystemTx) : B256 :=
  match transaction.lookup with
  | none => 1
  | some contract => ((map contract).map SpotId.toS).getD 1

/-- The conversion of a transaction by a map that lists what it looks up. -/
def SystemTx.convertBy (map : SpotMap) (transaction : SystemTx) : TransactionSigned where
  signature := { r := 1, s := transaction.sValue map, oddYParity := true }
  transaction := transaction.tx

theorem sValue_of_isEmpty {map : SpotMap} {tx : TxLegacy} {contract : Address}
    (hdest : tx.dest = .call contract) (hinput : tx.input = []) :
    SystemTx.sValue map ⟨.legacy tx⟩ = 1 := by
  simp only [SystemTx.sValue, SystemTx.lookup_of_isEmpty hdest hinput]

theorem sValue_of_ne_nil {map : SpotMap} {tx : TxLegacy} {contract : Address} {spot : SpotId}
    (hdest : tx.dest = .call contract) (hinput : tx.input ≠ []) (hspot : map contract = some spot) :
    SystemTx.sValue map ⟨.legacy tx⟩ = spot.toS := by
  simp only [SystemTx.sValue, SystemTx.lookup_of_ne_nil hdest hinput, hspot, Option.map_some,
    Option.getD_some]

/-- The conversion of a call by a map that lists what it looks up: no request is made. -/
theorem returns_of_listed (post : String → ℕ → Except String SpotMeta) (chainId : ℕ)
    {transaction : SystemTx} (hcall : transaction.IsLegacyCall) {s : EvmMap}
    (hlisted : ∀ contract ∈ transaction.lookup, (s.map contract).isSome) :
    Returns (fun fuel ↦ systemTxToRethTransaction post chainId fuel transaction) s
      (transaction.convertBy s.map) s := by
  obtain ⟨tx, contract, rfl, hdest⟩ := hcall
  by_cases hinput : tx.input = []
  · rw [SystemTx.convertBy, sValue_of_isEmpty hdest hinput]
    exact ⟨0, fun fuel _ ↦ run_systemTx_of_isEmpty post chainId fuel hdest hinput s⟩
  · obtain ⟨spot, hspot⟩ :=
      Option.isSome_iff_exists.1 (hlisted contract (SystemTx.lookup_of_ne_nil hdest hinput))
    rw [SystemTx.convertBy, sValue_of_ne_nil hdest hinput hspot]
    refine ⟨1, fun fuel hfuel ↦ ?_⟩
    obtain ⟨fuel, rfl⟩ := Nat.exists_eq_add_of_le' hfuel
    exact run_systemTx_of_listed post chainId fuel hdest hinput hspot

theorem returns_mapM_of_listed (post : String → ℕ → Except String SpotMeta) (chainId : ℕ)
    {transactions : List SystemTx}
    (hcalls : ∀ transaction ∈ transactions, transaction.IsLegacyCall) {s : EvmMap}
    (hlisted : ∀ transaction ∈ transactions, ∀ contract ∈ transaction.lookup,
      (s.map contract).isSome) :
    Returns (fun fuel ↦ transactions.mapM (systemTxToRethTransaction post chainId fuel)) s
      (transactions.map (SystemTx.convertBy s.map)) s := by
  induction transactions with
  | nil => exact Returns.pure [] s
  | cons transaction rest ih =>
    have hfirst := returns_of_listed post chainId (hcalls _ List.mem_cons_self)
      (hlisted _ List.mem_cons_self)
    have hrest := ih (fun t ht ↦ hcalls t (List.mem_cons_of_mem _ ht))
      (fun t ht ↦ hlisted t (List.mem_cons_of_mem _ ht))
    simp only [List.mapM_cons]
    exact hfirst.bind (hrest.bind (Returns.pure _ _))

/-- **The conversion of a record, without the service.** When the map lists what a record looks up,
the record is converted as `BlockAndReceipts.toRethBlock` has it, one transaction at a time. -/
theorem returns_toRethBlock_of_listed (post : String → ℕ → Except String SpotMeta) (chainId : ℕ)
    {b : BlockAndReceipts} (hcalls : ∀ transaction ∈ b.systemTxs, transaction.IsLegacyCall)
    {s : EvmMap} (hlisted : ∀ transaction ∈ b.systemTxs, ∀ contract ∈ transaction.lookup,
      (s.map contract).isSome) :
    Returns (fun fuel ↦ b.block.sealed.toRethBlock post chainId fuel b.readPrecompileCalls
      b.highestPrecompileAddress b.systemTxs) s (b.toRethBlock (SystemTx.convertBy s.map)) s :=
  (returns_mapM_of_listed post chainId hcalls hlisted).bind (f := fun _ converted ↦
    pure (b.block.sealed.withSystemTxs b.readPrecompileCalls b.highestPrecompileAddress converted))
    (Returns.pure _ _)

/-! ### The sender of a converted transaction -/

/-- **A converted transaction is sent by a system address.** A call of zero gas price whose contract
is listed, if it has input, is converted to a transaction from which all three recovery functions
recover the system address: that of the native token without input, and otherwise that of the
contract's token. These addresses are all different. -/
theorem recoversTo_systemTx (inner : InnerRecovery) (post : String → ℕ → Except String SpotMeta)
    (chainId : ℕ) {tx : TxLegacy} {contract : Address} (hdest : tx.dest = .call contract)
    (hprice : tx.gasPrice = 0) {s : EvmMap}
    (hmap : tx.input ≠ [] → (s.map contract).isSome) :
    (∃ signed sender,
      Returns (fun fuel ↦ systemTxToRethTransaction post chainId fuel ⟨.legacy tx⟩) s signed s ∧
      signed.RecoversTo inner sender ∧
      (tx.input = [] → sender = 0x2222222222222222222222222222222222222222) ∧
      (tx.input ≠ [] → ∃ spot, s.map contract = some spot ∧ sender = sToAddress spot.toS)) ∧
    (∀ spot : SpotId, addressBytes (sToAddress spot.toS) =
      0x20 :: (List.replicate 11 0 ++ BigEndian.toBeBytes 8 spot.index.toNat)) ∧
    (∀ spot spot' : SpotId, spot ≠ spot' → sToAddress spot.toS ≠ sToAddress spot'.toS) ∧
    (∀ spot : SpotId, sToAddress spot.toS ≠ 0x2222222222222222222222222222222222222222) ∧
    ∀ spot : SpotId, spot.toS ≠ 1 := by
  have hlisted : ∀ target ∈ SystemTx.lookup ⟨.legacy tx⟩, (s.map target).isSome := by
    intro target htarget
    by_cases hinput : tx.input = []
    · rw [SystemTx.lookup_of_isEmpty hdest hinput] at htarget
      cases htarget
    · rw [SystemTx.lookup_of_ne_nil hdest hinput] at htarget
      obtain rfl := Option.some.inj htarget
      exact hmap hinput
  -- the gas price is what makes the recovery decode the signature
  have hsystem : (SystemTx.convertBy s.map ⟨.legacy tx⟩).isSystemTransaction := by
    simp [SystemTx.convertBy, TransactionSigned.isSystemTransaction, Transaction.gasPrice, hprice]
  refine ⟨⟨_, _, returns_of_listed post chainId ⟨tx, contract, rfl, hdest⟩ hlisted,
    recoversTo_of_isSystemTransaction inner hsystem, fun hinput ↦ ?_, fun hinput ↦ ?_⟩,
    addressBytes_sToAddress_toS, fun spot spot' hne h ↦ hne (sToAddress_toS_injective h),
    sToAddress_toS_ne, toS_ne_one⟩
  · rw [SystemTx.convertBy, sValue_of_isEmpty hdest hinput]
    rfl
  · obtain ⟨spot, hspot⟩ := Option.isSome_iff_exists.1 (hmap hinput)
    refine ⟨spot, hspot, ?_⟩
    rw [SystemTx.convertBy, sValue_of_ne_nil hdest hinput hspot]

/-- The sender of the example call, by the second answer. -/
theorem recoversTo_systemTx_exampleCall :
    ∃ signed sender,
      Returns (fun fuel ↦ systemTxToRethTransaction (fun _ _ ↦ .error "offline") mainnetChainId
        fuel ⟨.legacy exampleCall⟩) { map := (exampleAnswers 1).toMap, requests := 2 } signed
        { map := (exampleAnswers 1).toMap, requests := 2 } ∧
      signed.RecoversTo exampleInner sender ∧
      sender = 0x2000000000000000000000000000000000000096 := by
  obtain ⟨⟨signed, sender, hreturns, hrecovers, -, hsender⟩, -⟩ :=
    recoversTo_systemTx exampleInner (fun _ _ ↦ .error "offline") mainnetChainId
      (show exampleCall.dest = .call _ from rfl) rfl
      (s := { map := (exampleAnswers 1).toMap, requests := 2 }) (fun _ ↦ by decide)
  obtain ⟨spot, hspot, rfl⟩ := hsender (by decide)
  obtain rfl : spot = ⟨150⟩ := (Option.some.inj hspot).symm
  exact ⟨signed, _, hreturns, hrecovers, by decide +kernel⟩

end RethHl
