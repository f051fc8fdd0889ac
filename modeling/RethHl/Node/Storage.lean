import Mathlib.Data.List.Forall2
import RethHl.Data.OrderedTable
import RethHl.Node.Types

/-!
# Block bodies in two stores

`HlStorage` writes a block body to two places. The Ethereum part goes to `EthStorage`, which knows
nothing of HyperCore; what HyperCore adds — the recorded precompile calls and the highest precompile
address — is serialized into one row of a table of its own. Writing, unwinding and reading each
touch both, one after the other, and a read joins the two answers by position.

The purpose of the two together is one log of bodies by block number: the `Records` of the library,
with `none` for a block whose body was absent. The invariant `InStep` says that both stores hold
that log, each its half of it. Every operation keeps it, so it holds along every run, and a read of
a recorded block gives the body back with the extras of its last write.

`EthStorage` is not part of this program. It is a parameter, and `EthStorage.Lawful` says what is
relied on: it keeps the Ethereum half of the same log. Serialization is a parameter too, with the
round trip as its law.
-/

namespace RethHl

/-- Where a provider puts block data. -/
inductive StorageLocation where
  | database
  | staticFiles
  | both
  deriving DecidableEq, Repr

/-- The transaction inside the wrapper, which has one variant and adds nothing to it. -/
abbrev InnerType := TransactionSigned

/-- Unwrap a transaction. -/
def TransactionSigned.intoInner (tx : TransactionSigned) : InnerType := tx

/-- Wrap a transaction. -/
def TransactionSigned.default (tx : InnerType) : TransactionSigned := tx

/-- The body with unwrapped transactions. -/
def convertToEthBlockBody (value : BlockBody) : BlockBody where
  transactions := value.transactions.map TransactionSigned.intoInner
  ommers := value.ommers
  withdrawals := value.withdrawals

/-- The body with wrapped transactions. -/
def convertToHlBlockBody (value : BlockBody) : BlockBody where
  transactions := value.transactions.map TransactionSigned.default
  ommers := value.ommers
  withdrawals := value.withdrawals

@[simp] theorem convertToHlBlockBody_convertToEthBlockBody (body : BlockBody) :
    convertToHlBlockBody (convertToEthBlockBody body) = body := by
  rw [convertToHlBlockBody, convertToEthBlockBody, List.map_map]
  exact congrArg (BlockBody.mk · body.ommers body.withdrawals) (List.map_id _)

/-- What a read of a body starts from: the header, and the transactions, which are stored
elsewhere. -/
abbrev ReadBodyInput := Header × List TransactionSigned

/-! ### What the program is given -/

/-- The storage of Ethereum block bodies. -/
structure EthStorage where
  State : Type
  Error : Type
  writeBlockBodies :
    State → List (ℕ × Option BlockBody) → StorageLocation → Except Error State
  removeBlockBodiesAbove : State → ℕ → StorageLocation → Except Error State
  readBlockBodies : State → List ReadBodyInput → Except Error (List BlockBody)

/-- An Ethereum body that may be read back for a block of the log: with the transactions that were
written, it is the body that was written. -/
def EthStorage.Reads (log : Records ℕ (Option BlockBody)) (input : ReadBodyInput)
    (body : BlockBody) : Prop :=
  ∀ written, log input.1.number = some (some written) → input.2 = written.transactions →
    body = written

/-- The Ethereum storage keeps a log of bodies: it takes every admissible batch, unwinds, and reads
one body for each recorded block. -/
structure EthStorage.Lawful (eth : EthStorage) (start : eth.State)
    (Holds : eth.State → Records ℕ (Option BlockBody) → Prop) : Prop where
  start : Holds start fun _ ↦ none
  write : ∀ {state log bodies} writeTo, Holds state log → log.Accepts bodies →
    ∃ state', eth.writeBlockBodies state bodies writeTo = .ok state' ∧
      Holds state' (log.write bodies)
  remove : ∀ {state log} block removeFrom, Holds state log →
    ∃ state', eth.removeBlockBodiesAbove state block removeFrom = .ok state' ∧
      Holds state' (log.removeAbove block)
  read : ∀ {state log inputs}, Holds state log →
    (∀ input ∈ inputs, (log (Prod.fst input).number).isSome) →
    ∃ bodies, eth.readBlockBodies state inputs = .ok bodies ∧
      List.Forall₂ (EthStorage.Reads log) inputs bodies

/-- Serialization of the extras of a block. -/
structure RmpSerde where
  toVec : HlExtras → Option Bytes
  fromSlice : Bytes → Option HlExtras

/-- The value is serialized, and comes back. -/
def RmpSerde.RoundTrip (rmp : RmpSerde) (extras : HlExtras) : Prop :=
  ∃ bytes, rmp.toVec extras = some bytes ∧ rmp.fromSlice bytes = some extras

/-! ### The storage -/

namespace HlStorage

/-- How a storage operation ends early. -/
inductive Failure (ε : Type) where
  | provider (error : ε)
  | append (blockNumber : ℕ)
  | panic (message : String)
  deriving DecidableEq, Repr

/-- The database: the tables of the Ethereum storage, and the table of extras by block number. -/
structure Provider (eth : EthStorage) where
  ethTables : eth.State
  blockReadPrecompileCalls : OrderedTable ℕ Bytes

section Operations

variable (rmp : RmpSerde) {eth : EthStorage}

/-- Append the extras of each block to the table. -/
def writePrecompileCalls (provider : Provider eth) (inputs : List (ℕ × HlExtras)) :
    Except (Failure eth.Error) (Provider eth) :=
  inputs.foldlM
    (fun provider input ↦
      match rmp.toVec input.2 with
      | none => .error (.panic "Failed to serialize read precompile calls")
      | some bytes =>
        match provider.blockReadPrecompileCalls.append input.1 bytes with
        | none => .error (.append input.1)
        | some table => .ok { provider with blockReadPrecompileCalls := table })
    provider

/-- The extras of each block, and empty ones for a block without a row. -/
def readPrecompileCalls (provider : Provider eth) (inputs : List ReadBodyInput) :
    Except (Failure eth.Error) (List HlExtras) :=
  inputs.mapM fun input ↦
    match provider.blockReadPrecompileCalls.seekExact input.1.number with
    | none => .ok { readPrecompileCalls := none, highestPrecompileAddress := none }
    | some (_, calls) =>
      match rmp.fromSlice calls with
      | none => .error (.panic "called `Result::unwrap()` on an `Err` value")
      | some extras => .ok extras

/-- The Ethereum half of a body. -/
def ethBody (body : Option HlBlockBody) : Option BlockBody :=
  body.map fun body ↦ convertToEthBlockBody body.inner

/-- The other half. -/
def extrasOf : Option HlBlockBody → HlExtras
  | some body =>
    { readPrecompileCalls := body.readPrecompileCalls
      highestPrecompileAddress := body.highestPrecompileAddress }
  | none => { readPrecompileCalls := none, highestPrecompileAddress := none }

/-- Write a batch of bodies, to the Ethereum storage first. -/
def writeBlockBodies (provider : Provider eth) (bodies : List (ℕ × Option HlBlockBody))
    (writeTo : StorageLocation) : Except (Failure eth.Error) (Provider eth) := do
  let ethBodies := bodies.map fun body ↦ (body.1, ethBody body.2)
  let readPrecompileCalls := bodies.map fun body ↦ (body.1, extrasOf body.2)
  let ethTables ←
    (eth.writeBlockBodies provider.ethTables ethBodies writeTo).mapError Failure.provider
  writePrecompileCalls rmp { provider with ethTables := ethTables } readPrecompileCalls

/-- Remove the bodies above a block from both. -/
def removeBlockBodiesAbove (provider : Provider eth) (block : ℕ) (removeFrom : StorageLocation) :
    Except (Failure eth.Error) (Provider eth) := do
  let ethTables ←
    (eth.removeBlockBodiesAbove provider.ethTables block removeFrom).mapError Failure.provider
  pure
    { ethTables := ethTables
      blockReadPrecompileCalls := provider.blockReadPrecompileCalls.unwindAbove block }

/-- A body from its two halves. Sidecars are not stored. -/
def joined (inner : BlockBody) (extra : HlExtras) : HlBlockBody where
  inner := convertToHlBlockBody inner
  sidecars := none
  readPrecompileCalls := extra.readPrecompileCalls
  highestPrecompileAddress := extra.highestPrecompileAddress

/-- Read bodies from both, and join them by position. -/
def readBlockBodies (provider : Provider eth) (inputs : List ReadBodyInput) :
    Except (Failure eth.Error) (List HlBlockBody) := do
  let readPrecompileCalls ← readPrecompileCalls rmp provider inputs
  let ethBodies ←
    (eth.readBlockBodies provider.ethTables
      (inputs.map fun input ↦ (input.1, input.2.map TransactionSigned.intoInner))).mapError
        Failure.provider
  pure ((ethBodies.zip readPrecompileCalls).map fun body ↦ joined body.1 body.2)

end Operations

/-! ### The table of extras -/

section Table

variable {rmp : RmpSerde} {eth : EthStorage}

/-- The table holds the serialized extras of a log. -/
def Rows (rmp : RmpSerde) (extras : Records ℕ HlExtras) (table : OrderedTable ℕ Bytes) : Prop :=
  ∃ rows, table.Represents rows ∧ ∀ number, (rows number).bind rmp.fromSlice = extras number ∧
    ((rows number).isSome ↔ (extras number).isSome)

theorem rows_empty : Rows rmp (fun _ ↦ none) .empty :=
  ⟨fun _ ↦ none, OrderedTable.represents_empty, fun _ ↦ ⟨rfl, Iff.rfl⟩⟩

/-- There is a row exactly for a block on record. -/
theorem Rows.isSome_seekExact {extras : Records ℕ HlExtras} {table : OrderedTable ℕ Bytes}
    (h : Rows rmp extras table) (number : ℕ) :
    (table.seekExact number).isSome ↔ (extras number).isSome := by
  obtain ⟨rows, hrows, hextras⟩ := h
  rw [hrows number, Option.isSome_map]
  exact (hextras number).2

/-- **Unwinding the table unwinds the log.** -/
theorem Rows.unwindAbove {extras : Records ℕ HlExtras} {table : OrderedTable ℕ Bytes}
    (h : Rows rmp extras table) (block : ℕ) :
    Rows rmp (extras.removeAbove block) (table.unwindAbove block) := by
  obtain ⟨rows, hrows, hextras⟩ := h
  refine ⟨rows.removeAbove block, hrows.unwindAbove block, fun number ↦ ?_⟩
  rw [Records.removeAbove, Records.removeAbove]
  split_ifs
  · exact hextras number
  · exact ⟨rfl, Iff.rfl⟩

/-- One serialized record more. -/
theorem Rows.append {extras : Records ℕ HlExtras} {table : OrderedTable ℕ Bytes}
    (h : Rows rmp extras table) {number : ℕ} {value : HlExtras} {bytes : Bytes}
    (habove : ∀ other, (extras other).isSome → other < number)
    (hbytes : rmp.fromSlice bytes = some value) :
    ∃ table', table.append number bytes = some table' ∧
      Rows rmp (Function.update extras number (some value)) table' := by
  obtain ⟨rows, hrows, hextras⟩ := h
  obtain ⟨table', htable', hrows'⟩ := hrows.append
    (fun other hother ↦ habove other ((hextras other).2.1 hother)) bytes
  refine ⟨table', htable', _, hrows', fun other ↦ ?_⟩
  rw [Function.update_apply, Function.update_apply]
  split_ifs
  · exact ⟨hbytes, Iff.rfl⟩
  · exact hextras other

/-- **An admissible batch is written row by row.** -/
theorem writePrecompileCalls_spec {inputs : List (ℕ × HlExtras)} (provider : Provider eth)
    {extras : Records ℕ HlExtras} (h : Rows rmp extras provider.blockReadPrecompileCalls)
    (hinputs : extras.Accepts inputs) (hrmp : ∀ input ∈ inputs, rmp.RoundTrip input.2) :
    ∃ table, writePrecompileCalls rmp provider inputs =
        .ok { provider with blockReadPrecompileCalls := table } ∧
      Rows rmp (extras.write inputs) table := by
  induction inputs generalizing provider extras with
  | nil => exact ⟨_, rfl, h⟩
  | cons input inputs ih =>
    obtain ⟨bytes, hbytes, hback⟩ := hrmp input List.mem_cons_self
    obtain ⟨table, htable, hrows⟩ := h.append
      (fun other hother ↦ hinputs.above other hother input List.mem_cons_self) hback
    obtain ⟨table', hwrite, hrows'⟩ := ih
      { provider with blockReadPrecompileCalls := table } hrows hinputs.tail
      fun other hother ↦ hrmp other (List.mem_cons_of_mem _ hother)
    refine ⟨table', ?_, ?_⟩
    · rw [writePrecompileCalls, List.foldlM_cons, hbytes]
      simp only [htable]
      exact hwrite
    · rw [Records.write_cons hinputs]
      exact hrows'

/-- **The extras of the log are read back**, empty ones where nothing is on record. -/
theorem readPrecompileCalls_spec {provider : Provider eth} {extras : Records ℕ HlExtras}
    (h : Rows rmp extras provider.blockReadPrecompileCalls) (inputs : List ReadBodyInput) :
    readPrecompileCalls rmp provider inputs =
      .ok (inputs.map fun input ↦ (extras input.1.number).getD (extrasOf none)) := by
  obtain ⟨rows, hrows, hextras⟩ := h
  induction inputs with
  | nil => rfl
  | cons input inputs ih =>
    have hread := hextras input.1.number
    rw [readPrecompileCalls] at ih
    rw [readPrecompileCalls, List.mapM_cons, ih, hrows input.1.number]
    rcases hrow : rows input.1.number with - | calls
    · rw [hrow] at hread
      rw [List.map_cons, ← hread.1]
      rfl
    · rw [hrow] at hread
      obtain ⟨value, hvalue⟩ := Option.isSome_iff_exists.1 (hread.2.1 rfl)
      have hfrom : rmp.fromSlice calls = some value := hread.1.trans hvalue
      simp only [Option.map_some, hfrom, List.map_cons, hvalue, Option.getD_some]
      rfl

end Table

/-! ### Runs -/

/-- The operations on stored bodies. -/
inductive Op where
  | writeBlockBodies (bodies : List (ℕ × Option HlBlockBody)) (writeTo : StorageLocation)
  | removeBlockBodiesAbove (block : ℕ) (removeFrom : StorageLocation)
  deriving DecidableEq, Repr

/-- The log of bodies: what each operation means. -/
def Op.record (log : Records ℕ (Option HlBlockBody)) : Op → Records ℕ (Option HlBlockBody)
  | .writeBlockBodies bodies _ => log.write bodies
  | .removeBlockBodiesAbove block _ => log.removeAbove block

/-- A batch has increasing numbers above everything stored. -/
def Op.Admissible (log : Records ℕ (Option HlBlockBody)) : Op → Prop
  | .writeBlockBodies bodies _ => log.Accepts bodies
  | .removeBlockBodiesAbove _ _ => True

/-- The log after a sequence of operations. -/
def recorded (log : Records ℕ (Option HlBlockBody)) (ops : List Op) :
    Records ℕ (Option HlBlockBody) :=
  ops.foldl Op.record log

/-- Every batch is admissible when it comes. -/
def Admissible (log : Records ℕ (Option HlBlockBody)) : List Op → Prop
  | [] => True
  | op :: ops => op.Admissible log ∧ Admissible (op.record log) ops

section Runs

variable (rmp : RmpSerde) {eth : EthStorage}

/-- The extras of a batch can be serialized. -/
def Op.Serializable : Op → Prop
  | .writeBlockBodies bodies _ => ∀ body ∈ bodies, rmp.RoundTrip (extrasOf body.2)
  | .removeBlockBodiesAbove _ _ => True

/-- What the code does for an operation. -/
def Op.apply (provider : Provider eth) : Op → Except (Failure eth.Error) (Provider eth)
  | .writeBlockBodies bodies writeTo => HlStorage.writeBlockBodies rmp provider bodies writeTo
  | .removeBlockBodiesAbove block removeFrom =>
    HlStorage.removeBlockBodiesAbove provider block removeFrom

/-- What it does for a sequence of operations. -/
def run (provider : Provider eth) (ops : List Op) : Except (Failure eth.Error) (Provider eth) :=
  ops.foldlM (Op.apply rmp) provider

/-- **The invariant**: each store holds its half of the log. -/
structure InStep (Holds : eth.State → Records ℕ (Option BlockBody) → Prop)
    (log : Records ℕ (Option HlBlockBody)) (provider : Provider eth) : Prop where
  bodies : Holds provider.ethTables (log.map ethBody)
  extras : Rows rmp (log.map extrasOf) provider.blockReadPrecompileCalls

variable {rmp} {start : eth.State} {Holds : eth.State → Records ℕ (Option BlockBody) → Prop}

/-- **One operation keeps both stores in step.** -/
theorem InStep.apply (heth : eth.Lawful start Holds)
    {log : Records ℕ (Option HlBlockBody)} {provider : Provider eth}
    (h : InStep rmp Holds log provider) {op : Op} (hrmp : op.Serializable rmp)
    (hop : op.Admissible log) :
    ∃ provider', op.apply rmp provider = .ok provider' ∧
      InStep rmp Holds (op.record log) provider' := by
  cases op with
  | writeBlockBodies bodies writeTo =>
    obtain ⟨ethTables, hwrite, hholds⟩ := heth.write writeTo h.bodies (hop.map ethBody)
    have hround : ∀ input ∈ bodies.map fun body ↦ (body.1, extrasOf body.2),
        rmp.RoundTrip (Prod.snd input) := by
      intro input hinput
      obtain ⟨body, hbody, rfl⟩ := List.mem_map.1 hinput
      exact hrmp body hbody
    obtain ⟨table, hcalls, hrows⟩ := writePrecompileCalls_spec
      { provider with ethTables := ethTables } h.extras (hop.map extrasOf) hround
    refine ⟨{ ethTables := ethTables, blockReadPrecompileCalls := table }, ?_, ⟨?_, ?_⟩⟩
    · rw [Op.apply, writeBlockBodies, hwrite]
      exact hcalls
    · rw [Op.record, Records.map_write]
      exact hholds
    · rw [Op.record, Records.map_write]
      exact hrows
  | removeBlockBodiesAbove block removeFrom =>
    obtain ⟨ethTables, hremove, hholds⟩ := heth.remove block removeFrom h.bodies
    refine ⟨⟨ethTables, provider.blockReadPrecompileCalls.unwindAbove block⟩, ?_, ⟨?_, ?_⟩⟩
    · rw [Op.apply, removeBlockBodiesAbove, hremove]
      rfl
    · rw [Op.record, Records.map_removeAbove]
      exact hholds
    · rw [Op.record, Records.map_removeAbove]
      exact h.extras.unwindAbove block

/-- **And so does every run**, which never fails. -/
theorem InStep.run (heth : eth.Lawful start Holds) {ops : List Op}
    {log : Records ℕ (Option HlBlockBody)} {provider : Provider eth}
    (h : InStep rmp Holds log provider) (hrmp : ∀ op ∈ ops, op.Serializable rmp)
    (hops : Admissible log ops) :
    ∃ provider', HlStorage.run rmp provider ops = .ok provider' ∧
      InStep rmp Holds (recorded log ops) provider' := by
  induction ops generalizing log provider with
  | nil => exact ⟨provider, rfl, h⟩
  | cons op ops ih =>
    obtain ⟨provider₁, hstep, h₁⟩ := h.apply heth (hrmp op List.mem_cons_self) hops.1
    obtain ⟨provider', hrun, h'⟩ := ih h₁
      (fun op hop ↦ hrmp op (List.mem_cons_of_mem _ hop)) hops.2
    refine ⟨provider', ?_, h'⟩
    rw [HlStorage.run, List.foldlM_cons, hstep]
    exact hrun

/-- A body that may be read for a block of the log: the extras of its last write, no sidecars, and,
with the transactions that were written, the Ethereum body. -/
structure Reads (log : Records ℕ (Option HlBlockBody)) (input : ReadBodyInput)
    (body : HlBlockBody) : Prop where
  readPrecompileCalls : ∀ written ∈ log input.1.number,
    body.readPrecompileCalls = written.bind (·.readPrecompileCalls)
  highestPrecompileAddress : ∀ written ∈ log input.1.number,
    body.highestPrecompileAddress = written.bind (·.highestPrecompileAddress)
  sidecars : body.sidecars = none
  inner : ∀ written, log input.1.number = some (some written) →
    input.2 = written.inner.transactions → body.inner = written.inner

/-- One answer of each half makes one body. -/
theorem reads_of_reads {log : Records ℕ (Option HlBlockBody)} {input : ReadBodyInput}
    {body : BlockBody}
    (hbody : EthStorage.Reads (log.map ethBody)
      (input.1, input.2.map TransactionSigned.intoInner) body) :
    Reads log input (joined body ((log.map extrasOf input.1.number).getD (extrasOf none))) where
  readPrecompileCalls := by
    intro written hwritten
    rw [Records.map, hwritten]
    cases written <;> rfl
  highestPrecompileAddress := by
    intro written hwritten
    rw [Records.map, hwritten]
    cases written <;> rfl
  sidecars := rfl
  inner := by
    intro written hwritten htransactions
    have heth := hbody (convertToEthBlockBody written.inner) (by rw [Records.map, hwritten]; rfl)
      (by rw [htransactions]; rfl)
    rw [joined, heth, convertToHlBlockBody_convertToEthBlockBody]

/-- **A read joins the two halves.** -/
theorem InStep.readBlockBodies (heth : eth.Lawful start Holds)
    {log : Records ℕ (Option HlBlockBody)} {provider : Provider eth}
    (h : InStep rmp Holds log provider) {inputs : List ReadBodyInput}
    (hinputs : ∀ input ∈ inputs, (log input.1.number).isSome) :
    ∃ bodies, HlStorage.readBlockBodies rmp provider inputs = .ok bodies ∧
      List.Forall₂ (Reads log) inputs bodies := by
  have hstored : ∀ input ∈ inputs.map fun input ↦
      (input.1, input.2.map TransactionSigned.intoInner),
      (log.map ethBody (Prod.fst input).number).isSome := by
    intro input hinput
    obtain ⟨old, hold, rfl⟩ := List.mem_map.1 hinput
    rw [Records.map, Option.isSome_map]
    exact hinputs old hold
  obtain ⟨ethBodies, hread, hbodies⟩ := heth.read h.bodies hstored
  refine ⟨(ethBodies.zip (inputs.map fun input ↦
    (log.map extrasOf input.1.number).getD (extrasOf none))).map fun body ↦ joined body.1 body.2,
    ?_, ?_⟩
  · rw [HlStorage.readBlockBodies, readPrecompileCalls_spec h.extras]
    simp only [hread, bind, Except.bind]
    rfl
  · rw [List.forall₂_map_left_iff] at hbodies
    -- both answers have one entry for each input, so the positions agree
    clear hread hstored hinputs
    induction hbodies with
    | nil => exact List.Forall₂.nil
    | @cons input body inputs bodies hbody _ ih => exact List.Forall₂.cons (reads_of_reads hbody) ih

/-- **Extras stay with their bodies over whole runs.** Every sequence of admissible batches and
unwindings succeeds on an empty database. After it the table of extras has a row exactly for each
block on record, and a read of recorded blocks gives one body for each, with the extras of the last
write. -/
theorem run_inStep (heth : eth.Lawful start Holds) {ops : List Op}
    (hrmp : ∀ op ∈ ops, op.Serializable rmp) (hops : Admissible (fun _ ↦ none) ops) :
    ∃ provider, run rmp ⟨start, .empty⟩ ops = .ok provider ∧
      (∀ number, (provider.blockReadPrecompileCalls.seekExact number).isSome ↔
        (recorded (fun _ ↦ none) ops number).isSome) ∧
      ∀ inputs : List ReadBodyInput,
        (∀ input ∈ inputs, (recorded (fun _ ↦ none) ops input.1.number).isSome) →
        ∃ bodies, readBlockBodies rmp provider inputs = .ok bodies ∧
          List.Forall₂ (Reads (recorded (fun _ ↦ none) ops)) inputs bodies := by
  have hempty : InStep rmp Holds (fun _ ↦ none) ⟨start, .empty⟩ := ⟨heth.start, rows_empty⟩
  obtain ⟨provider, hrun, h⟩ := hempty.run heth hrmp hops
  refine ⟨provider, hrun, fun number ↦ ?_, fun inputs hinputs ↦ h.readBlockBodies heth hinputs⟩
  rw [h.extras.isSome_seekExact, Records.map, Option.isSome_map]

end Runs

/-! ### An example run -/

/-- An Ethereum storage that keeps ommers and withdrawals and takes the transactions from its
caller. -/
def exampleEthStorage : EthStorage where
  State := Records ℕ (Option BlockBody)
  Error := Unit
  writeBlockBodies := fun log bodies _ ↦ .ok (log.write bodies)
  removeBlockBodiesAbove := fun log block _ ↦ .ok (log.removeAbove block)
  readBlockBodies := fun log inputs ↦ .ok <| inputs.map fun input ↦
    { transactions := input.2
      ommers := ((log input.1.number).join.map (·.ommers)).getD []
      withdrawals := ((log input.1.number).join.map (·.withdrawals)).getD (some []) }

theorem exampleEthStorage_lawful : exampleEthStorage.Lawful (fun _ ↦ none) Eq where
  start := rfl
  write := by
    rintro state log bodies writeTo rfl -
    exact ⟨_, rfl, rfl⟩
  remove := by
    rintro state log block removeFrom rfl
    exact ⟨_, rfl, rfl⟩
  read := by
    rintro state log inputs rfl -
    refine ⟨_, rfl, List.forall₂_map_right_iff.2 (List.forall₂_same.2 fun input _ ↦ ?_)⟩
    intro written hwritten htransactions
    simp [hwritten, htransactions]

/-- The messages of the extras that occur below: a pair, with nil for what is absent. -/
def exampleRmp : RmpSerde where
  toVec := fun extras ↦
    if extras = ⟨some [], none⟩ then some [0x92, 0x90, 0xc0]
    else if extras = ⟨none, none⟩ then some [0x92, 0xc0, 0xc0]
    else none
  fromSlice := fun bytes ↦
    if bytes = [0x92, 0x90, 0xc0] then some ⟨some [], none⟩
    else if bytes = [0x92, 0xc0, 0xc0] then some ⟨none, none⟩
    else none

/-- A body without transactions. -/
def exampleBody (calls : Option ReadPrecompileCalls) : HlBlockBody where
  inner := { transactions := [], ommers := [], withdrawals := some [] }
  sidecars := none
  readPrecompileCalls := calls
  highestPrecompileAddress := none

/-- Two blocks, the second without a body; the second is removed and written again with one. -/
def exampleOps : List Op :=
  [.writeBlockBodies [(1, some (exampleBody (some []))), (2, none)] .database,
    .removeBlockBodiesAbove 1 .database,
    .writeBlockBodies [(2, some (exampleBody (some [])))] .database]

/-- The run succeeds, and the second block is read with the extras of its second write. -/
theorem run_inStep_rewrite :
    ∃ provider : Provider exampleEthStorage,
      run exampleRmp ⟨fun _ ↦ none, .empty⟩ exampleOps = .ok provider ∧
      ∃ bodies, readBlockBodies exampleRmp provider [(.zero 2, [])] = .ok bodies ∧
        List.Forall₂ (Reads (recorded (fun _ ↦ none) exampleOps)) [(.zero 2, [])] bodies := by
  have hcalls : exampleRmp.RoundTrip ⟨some [], none⟩ := ⟨_, rfl, rfl⟩
  have hnone : exampleRmp.RoundTrip ⟨none, none⟩ := ⟨_, rfl, rfl⟩
  have hrmp : ∀ op ∈ exampleOps, op.Serializable exampleRmp := by
    refine List.forall_mem_cons.2 ⟨List.forall_mem_cons.2 ⟨hcalls, ?_⟩, ?_⟩
    · exact List.forall_mem_singleton.2 hnone
    · exact List.forall_mem_cons.2 ⟨trivial, List.forall_mem_singleton.2
        (List.forall_mem_singleton.2 hcalls)⟩
  have hops : Admissible (fun _ ↦ none) exampleOps := by
    refine ⟨⟨by simp, by simp⟩, trivial, ⟨by simp, fun number hnumber ↦ ?_⟩, trivial⟩
    -- only the first block is left when the second one is written again
    have hle : number ≤ 1 := by
      by_contra hgt
      simp [Op.record, Records.removeAbove, hgt] at hnumber
    simpa using Nat.lt_succ_of_le hle
  obtain ⟨provider, hrun, -, hread⟩ := run_inStep exampleEthStorage_lawful hrmp hops
  exact ⟨provider, hrun, hread _ (by decide)⟩

end HlStorage

end RethHl
