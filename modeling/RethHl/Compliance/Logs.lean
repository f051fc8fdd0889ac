import RethHl.Compliance.Views

/-!
# The log entry points

Four entry points return logs: `eth_getLogs`, `eth_getFilterLogs`, the log case of
`eth_getFilterChanges`, and the logs subscription. The wrapped API gives them the same logs,
numbered within the whole block; each has to renumber them itself.

**Two of the four do not.** `eth_getLogs` and the subscription pass every log through `adjust_log`;
the two that serve an installed filter hand the wrapped answer on. `logViewsAgree_iff` says when
this goes unnoticed: exactly when no log of the answer lies in a block with a system transaction.
-/

namespace RethHl.Compliance

/-! ### The entry points -/

/-- Pass every log through `adjust_log` and keep what is left. -/
def adjustLogs : List RpcLog → Handler (List RpcLog)
  | [] => pure []
  | log :: rest => do
    let adjusted ← adjustLog log
    let rest ← adjustLogs rest
    pure (adjusted.toList ++ rest)

/-- What a poll of an installed filter returns. -/
inductive FilterChanges where
  | logs (logs : List RpcLog)
  | hashes (hashes : List B256)
  | transactions (transactions : List RpcTransaction)
  | empty
  deriving DecidableEq, Repr

/-- The parameters of a subscription, over a type of log filters. -/
inductive SubscriptionParams (F : Type) where
  | logs (filter : F)
  | bool (b : Bool)
  | none
  deriving DecidableEq, Repr

/-- `eth_getLogs`, on the answer of the wrapped API. -/
def logs (inner : List RpcLog) : Handler (List RpcLog) :=
  adjustLogs inner

/-- `eth_getFilterLogs`, on the answer of the wrapped API. -/
def filterLogs (inner : List RpcLog) : Handler (List RpcLog) :=
  pure inner

/-- `eth_getFilterChanges`, on the answer of the wrapped API. -/
def filterChanges (inner : FilterChanges) : Handler FilterChanges :=
  pure inner

/-- The logs subscription, on the log stream of the wrapped API. -/
def subscribeLogs {F : Type} [Inhabited F] (params : Option (SubscriptionParams F))
    (logStream : F → List RpcLog) : Handler (List RpcLog) :=
  match params with
  | some (.logs filter) => adjustLogs (logStream filter)
  | some (.bool _) => pure []
  | _ => adjustLogs (logStream default)

/-- The entry points that return logs. -/
inductive EntryPoint where
  | logs
  | filterLogs
  | filterChanges
  | subscription
  deriving DecidableEq, Repr

/-- The logs that an entry point returns for a query to which the wrapped API answers `inner`. -/
def serve (entryPoint : EntryPoint) (inner : List RpcLog) : Handler (List RpcLog) := do
  match entryPoint with
  | .logs => logs inner
  | .filterLogs => filterLogs inner
  | .filterChanges =>
    match ← filterChanges (.logs inner) with
    | .logs logs => pure logs
    | _ => pure []
  | .subscription => subscribeLogs (some (.logs ())) fun _ ↦ inner

theorem runAt_adjustLogs_append (s : NodeState) (l₁ l₂ : List RpcLog) :
    (adjustLogs (l₁ ++ l₂)).runAt s =
      (adjustLogs l₁).runAt s >>= fun r₁ ↦ (adjustLogs l₂).runAt s >>= fun r₂ ↦ .ok (r₁ ++ r₂) := by
  induction l₁ with
  | nil =>
    rw [List.nil_append]
    rcases h : (adjustLogs l₂).runAt s with e | r₂ <;> rfl
  | cons log l₁ ih =>
    rw [List.cons_append, adjustLogs, adjustLogs]
    simp only [Reads.runAt_bind, ih]
    rcases (adjustLog log).runAt s with e | adjusted
    · rfl
    · rcases (adjustLogs l₁).runAt s with e | r₁
      · rfl
      · rcases (adjustLogs l₂).runAt s with e | r₂
        · rfl
        · simp only [ok_bind, Reads.runAt_pure, List.append_assoc]

/-- An entry point treats the logs of an answer one by one. -/
theorem runAt_serve_append (entryPoint : EntryPoint) (s : NodeState) (l₁ l₂ : List RpcLog) :
    (serve entryPoint (l₁ ++ l₂)).runAt s =
      (serve entryPoint l₁).runAt s >>= fun r₁ ↦
        (serve entryPoint l₂).runAt s >>= fun r₂ ↦ .ok (r₁ ++ r₂) := by
  cases entryPoint with
  | logs => exact runAt_adjustLogs_append s l₁ l₂
  | filterLogs => rfl
  | filterChanges => rfl
  | subscription => exact runAt_adjustLogs_append s l₁ l₂

/-! ### Agreement of the entry points -/

/-- A log of a block: the log number `j` of the transaction at position `i`. -/
structure LogRef where
  block : ExecutedBlock
  i : ℕ
  j : ℕ
  tx : RecoveredTx
  receipt : Receipt
  log : Log
  entry : block.entries[i]? = some (tx, receipt)
  logAt : receipt.logs[j]? = some log

/-- The log belongs to a system transaction exactly when its position is in the system part. -/
theorem LogRef.isSystemTransaction_iff (ref : LogRef) :
    ref.tx.tx.isSystemTransaction = true ↔ ref.i < ref.block.system.length := by
  refine Compliance.isSystemTransaction_iff ref.block ?_
  rw [ExecutedBlock.transactions, List.getElem?_map, ref.entry]
  rfl

section Agreement

variable {R : Type} (api : EthApi R) (s : NodeState)

/-- The log as the wrapped API returns it. -/
def LogRef.raw (ref : LogRef) : RpcLog :=
  rawLog api ref.block ref.i ref.j ref.tx ref.log

/-- The log with other numbers: the index of its transaction and its own. -/
def LogRef.shownAs (ref : LogRef) (numbers : ℕ × ℕ) : RpcLog :=
  { ref.raw api with transactionIndex := some numbers.1, logIndex := some numbers.2 }

/-- The entry points return the logs of an answer under these numbers, leaving out the logs that
have none. Those are the logs of system transactions, and any other has the same numbers
everywhere. -/
structure ServedAs (answer : List LogRef) (numbers : EntryPoint → LogRef → Option (ℕ × ℕ)) :
    Prop where
  serve : ∀ entryPoint, (serve entryPoint (answer.map (LogRef.raw api))).runAt s =
    .ok (answer.filterMap fun ref ↦ (numbers entryPoint ref).map (ref.shownAs api))
  eq_none_iff : ∀ entryPoint, ∀ ref ∈ answer,
    numbers entryPoint ref = none ↔ ref.tx.tx.isSystemTransaction = true
  alike : ∀ entryPoint entryPoint', ∀ ref ∈ answer, ∀ n n', numbers entryPoint ref = some n →
    numbers entryPoint' ref = some n' → n = n'

/-- For a whole answer of the wrapped API, no entry point returns a log of a system transaction, and
all of them return the others and number them alike. -/
def LogViewsAgree (answer : List LogRef) : Prop :=
  ∃ numbers, ServedAs api s answer numbers

/-- The numbers that a log has in the whole block. -/
def LogRef.rawNumbers (ref : LogRef) : ℕ × ℕ :=
  (ref.i, logCount (ref.block.entries.take ref.i) + ref.j)

/-- The numbers that a log has among the user transactions, unless it is one of a system
transaction. -/
def LogRef.userNumbers (ref : LogRef) : Option (ℕ × ℕ) :=
  if ref.i < ref.block.system.length then none
  else
    let k := ref.i - ref.block.system.length
    some (k, logCount (ref.block.user.take k) + ref.j)

/-- The numbers that an entry point gives to a log. **Two of the four give the raw ones.** -/
def EntryPoint.numbers : EntryPoint → LogRef → Option (ℕ × ℕ)
  | .logs, ref | .subscription, ref => ref.userNumbers
  | .filterLogs, ref | .filterChanges, ref => some ref.rawNumbers

/-- A log is shown under its raw numbers only as it is. -/
theorem LogRef.shownAs_eq_raw_iff (ref : LogRef) (numbers : ℕ × ℕ) :
    ref.shownAs api numbers = ref.raw api ↔ numbers = ref.rawNumbers := by
  constructor
  · intro h
    have hindex := congrArg RpcLog.transactionIndex h
    have hlog := congrArg RpcLog.logIndex h
    exact Prod.ext (Option.some.inj hindex) (Option.some.inj hlog)
  · rintro rfl
    rfl

variable {s}

/-- What `adjust_log` makes of a log of a known block. -/
theorem runAt_adjustLog_raw {ref : LogRef}
    (hknown : s.blockById (.number (.number ref.block.number)) = some ref.block) :
    (adjustLog (ref.raw api)).runAt s = .ok (ref.userNumbers.map (ref.shownAs api)) := by
  rcases Nat.lt_or_ge ref.i ref.block.system.length with hlt | hge
  · rw [LogRef.userNumbers, if_pos hlt]
    exact runAt_adjustLog_system api hknown hlt ref.j ref.tx ref.log
  · obtain ⟨k, hk⟩ := Nat.exists_eq_add_of_le hge
    have hadjust := runAt_adjustLog_user api hknown k ref.j ref.tx ref.log
    rw [← hk] at hadjust
    rw [LogRef.userNumbers, if_neg (Nat.not_lt.2 hge), hk, Nat.add_sub_cancel_left]
    exact hadjust

/-- An entry point that renumbers, on one log. -/
theorem runAt_adjustLogs_singleton {log : RpcLog} {adjusted : Option RpcLog}
    (h : (adjustLog log).runAt s = .ok adjusted) :
    (adjustLogs [log]).runAt s = .ok adjusted.toList := by
  rw [adjustLogs, Reads.runAt_bind, h, ok_bind]
  exact congrArg Except.ok (List.append_nil _)

/-- An entry point on one log of a known block. -/
theorem runAt_serve_singleton (entryPoint : EntryPoint) {ref : LogRef}
    (hknown : s.blockById (.number (.number ref.block.number)) = some ref.block) :
    (serve entryPoint [ref.raw api]).runAt s =
      .ok ((entryPoint.numbers ref).map (ref.shownAs api)).toList := by
  have hadjust := runAt_adjustLogs_singleton (runAt_adjustLog_raw api hknown)
  cases entryPoint with
  | logs => exact hadjust
  | filterLogs => rfl
  | filterChanges => rfl
  | subscription => exact hadjust

/-- **What an entry point returns** for an answer of the wrapped API. -/
theorem runAt_serve_raw (entryPoint : EntryPoint) {answer : List LogRef}
    (hknown : ∀ ref ∈ answer,
      s.blockById (.number (.number ref.block.number)) = some ref.block) :
    (serve entryPoint (answer.map (LogRef.raw api))).runAt s =
      .ok (answer.filterMap fun ref ↦ (entryPoint.numbers ref).map (ref.shownAs api)) := by
  induction answer with
  | nil => cases entryPoint <;> rfl
  | cons ref answer ih =>
    rw [List.map_cons, ← List.singleton_append, runAt_serve_append,
      runAt_serve_singleton api entryPoint (hknown ref List.mem_cons_self), ok_bind,
      ih fun ref' href' ↦ hknown ref' (List.mem_cons_of_mem _ href'), ok_bind]
    rcases h : entryPoint.numbers ref with - | n
    · rw [List.filterMap_cons_none (by rw [h]; rfl)]
      rfl
    · rw [List.filterMap_cons_some (by rw [h]; rfl)]
      rfl

/-- Where there are no system transactions, both numberings agree. -/
theorem LogRef.userNumbers_of_eq_zero {ref : LogRef} (h : ref.block.systemTxCount = 0) :
    ref.userNumbers = some ref.rawNumbers := by
  rw [ref.block.systemTxCount_eq] at h
  rw [LogRef.userNumbers, if_neg (by omega), h, Nat.sub_zero, LogRef.rawNumbers,
    ExecutedBlock.entries, List.length_eq_zero_iff.1 h, List.nil_append]

/-- **When the log entry points agree.** -/
theorem logViewsAgree_iff {answer : List LogRef}
    (hknown : ∀ ref ∈ answer,
      s.blockById (.number (.number ref.block.number)) = some ref.block) :
    LogViewsAgree api s answer ↔ ∀ ref ∈ answer, ref.block.systemTxCount = 0 := by
  constructor
  · rintro ⟨numbers, hserve, hnone, halike⟩ ref href
    rw [ref.block.systemTxCount_eq]
    -- an installed filter returns every log, under its raw numbers
    have hraw : ∀ ref ∈ answer, numbers .filterLogs ref = some ref.rawNumbers := by
      have hfilter : answer.filterMap (fun ref ↦ (numbers .filterLogs ref).map (ref.shownAs api)) =
          answer.map (LogRef.raw api) :=
        (Except.ok.inj (hserve .filterLogs)).symm
      intro ref href
      obtain ⟨n, hn, hshown⟩ :=
        Option.map_eq_some_iff.1 (List.filterMap_eq_map_iff_forall_eq_some.1 hfilter ref href)
      rw [hn, (ref.shownAs_eq_raw_iff api n).1 hshown]
    -- so no log is one of a system transaction, and `eth_getLogs` returns every log too
    have huser : ∀ ref ∈ answer, ref.block.system.length ≤ ref.i := by
      intro ref href
      by_contra hlt
      have hdropped := (hnone .filterLogs ref href).2
        (ref.isSystemTransaction_iff.2 (Nat.lt_of_not_le hlt))
      rw [hraw ref href] at hdropped
      cases hdropped
    have hlogs : answer.filterMap (fun ref ↦ (numbers .logs ref).map (ref.shownAs api)) =
        answer.map fun ref ↦ ref.shownAs api (ref.i - ref.block.system.length,
          logCount (ref.block.user.take (ref.i - ref.block.system.length)) + ref.j) := by
      have hserved := runAt_serve_raw api .logs hknown
      rw [hserve .logs] at hserved
      rw [Except.ok.inj hserved, List.filterMap_eq_map_iff_forall_eq_some]
      intro ref href
      rw [EntryPoint.numbers, LogRef.userNumbers, if_neg (Nat.not_lt.2 (huser ref href))]
      rfl
    obtain ⟨n, hn, hshown⟩ :=
      Option.map_eq_some_iff.1 (List.filterMap_eq_map_iff_forall_eq_some.1 hlogs ref href)
    -- with the same number as the installed filter
    have heq := halike .logs .filterLogs ref href n _ hn (hraw ref href)
    have hindex : n.1 = ref.i - ref.block.system.length :=
      Option.some.inj (congrArg RpcLog.transactionIndex hshown)
    have hle := huser ref href
    rw [heq] at hindex
    have hi : ref.i = ref.i - ref.block.system.length := hindex
    omega
  · intro hzero
    have hnumbers : ∀ entryPoint, ∀ ref ∈ answer,
        EntryPoint.numbers entryPoint ref = some ref.rawNumbers := by
      intro entryPoint ref href
      cases entryPoint with
      | logs => exact LogRef.userNumbers_of_eq_zero (hzero ref href)
      | filterLogs => rfl
      | filterChanges => rfl
      | subscription => exact LogRef.userNumbers_of_eq_zero (hzero ref href)
    refine ⟨EntryPoint.numbers, fun entryPoint ↦ runAt_serve_raw api entryPoint hknown,
      fun entryPoint ref href ↦ ?_, fun entryPoint entryPoint' ref href n n' hn hn' ↦ ?_⟩
    · rw [hnumbers entryPoint ref href, ref.isSystemTransaction_iff,
        ← ref.block.systemTxCount_eq, hzero ref href]
      exact iff_of_false (by simp) (Nat.not_lt_zero _)
    · rw [hnumbers entryPoint ref href] at hn
      rw [hnumbers entryPoint' ref href] at hn'
      exact Option.some.inj (hn.symm.trans hn')

end Agreement

/-- The log of the user transaction in a block without system transactions. -/
def exampleUserLog : LogRef where
  block := exampleUserBlock
  i := 0
  j := 0
  tx := exampleUserTx
  receipt := exampleReceipt 21000
  log := { address := 0x1111111111111111111111111111111111111111, topics := [], data := [] }
  entry := rfl
  logAt := rfl

/-- The log of the system transaction in the example block. -/
def exampleSystemLog : LogRef where
  block := exampleBlock
  i := 0
  j := 0
  tx := exampleSystemTx
  receipt := exampleReceipt 0
  log := { address := 0x1111111111111111111111111111111111111111, topics := [], data := [] }
  entry := rfl
  logAt := rfl

theorem logViewsAgree_exampleUserLog :
    LogViewsAgree exampleApi (exampleLongChain.state exampleTxHash) [exampleUserLog] := by
  refine (logViewsAgree_iff exampleApi ?_).2 ?_
  · intro ref href
    obtain rfl := List.mem_singleton.1 href
    rfl
  · intro ref href
    obtain rfl := List.mem_singleton.1 href
    rfl

/-- **An installed filter exposes the log of a system transaction.** -/
theorem not_logViewsAgree_exampleSystemLog :
    ¬ LogViewsAgree exampleApi (exampleLongChain.state exampleTxHash) [exampleSystemLog] := by
  rintro ⟨numbers, hserved⟩
  have hnone := (hserved.eq_none_iff .filterLogs exampleSystemLog (by simp)).2 rfl
  have hserve := hserved.serve .filterLogs
  rw [List.filterMap_cons_none (by rw [hnone]; rfl)] at hserve
  cases hserve

end RethHl.Compliance
