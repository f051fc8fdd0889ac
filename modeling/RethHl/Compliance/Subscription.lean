import RethHl.Compliance.Logs
import RethHl.Semantics.Machine

/-!
# The logs subscription

A subscriber gets the logs of new blocks as they come. The stream of the wrapped API has them
numbered within the whole block, and hands them on later than the block was committed; the task of
the subscription takes one after the other, renumbers it **with the receipts that the provider has
by then**, and sends it, until the client or the stream is gone.

The machine below has the chain, the stream, the sink and the task as its parts. The chain grows,
the client closes its sink and the stream ends at any time; the task takes its turns in between, and
where the source selects between two things that are ready, both can happen.

`subscription_sends` says what a subscriber has seen in any reachable state: **the logs of the
receipts that `eth_getBlockReceipts` shows**, those that match the filter, block after block and
without a gap. Nothing is sent after the sink is closed.
-/

namespace RethHl.Compliance.Subscription

/-! ### Lists of logs -/

section BlockLogs

variable {R : Type} (api : EthApi R) (b : ExecutedBlock)

/-- The logs of a block, as the stream of the wrapped API has them. -/
def blockLogs : List RpcLog :=
  (b.entries.mapIdx fun i p ↦ p.2.logs.mapIdx fun j log ↦ rawLog api b i j p.1 log).flatten

/-- The logs of the receipts that the compliant handlers show. -/
def receiptLogs : List RpcLog := (compliantReceipts api b).flatMap api.logs

/-- What is left of a log of the block after renumbering. -/
def visible (log : RpcLog) : Option RpcLog :=
  match log.transactionIndex, log.logIndex with
  | some txIdx, some logIdx =>
    if txIdx < b.system.length then none
    else some { log with
      transactionIndex := some (txIdx - b.system.length)
      logIndex := some (logIdx - logCount b.system) }
  | _, _ => none

theorem visible_system {i : ℕ} (hi : i < b.system.length) (j : ℕ) (tx : RecoveredTx) (log : Log) :
    visible b (rawLog api b i j tx log) = none :=
  if_pos hi

/-- A log of a user transaction becomes the log of its receipt. -/
theorem visible_user (k j : ℕ) (p : RecoveredTx × Receipt) (gas : ℕ) (log : Log) :
    visible b (rawLog api b (b.system.length + k) j p.1 log) =
      some ((userInput api b k gas (logCount (b.user.take k)) p).rpcLog j log) := by
  have hlogs : logCount (b.entries.take (b.system.length + k)) + j - logCount b.system =
      logCount (b.user.take k) + j := by
    rw [ExecutedBlock.entries, List.take_length_add_append, logCount, List.map_append,
      List.sum_append, Nat.add_assoc]
    exact Nat.add_sub_cancel_left ..
  simp only [visible, rawLog, if_neg (Nat.not_lt.2 (Nat.le_add_right b.system.length k)),
    Nat.add_sub_cancel_left, hlogs]
  rfl

/-- Mapping and keeping the elements of a numbered list. -/
theorem filterMap_mapIdx {α β γ : Type} {f : β → Option γ} {l : List α} {g : ℕ → α → β}
    {h : ℕ → α → γ} (hf : ∀ j a, f (g j a) = some (h j a)) :
    (l.mapIdx g).filterMap f = l.mapIdx h := by
  induction l generalizing g h with
  | nil => rfl
  | cons a l ih =>
    rw [List.mapIdx_cons, List.mapIdx_cons, List.filterMap_cons_some (hf 0 a)]
    exact congrArg _ (ih fun j a ↦ hf (j + 1) a)

theorem map_mapIdx {α β γ : Type} (f : β → γ) (g : ℕ → α → β) (l : List α) :
    (l.mapIdx g).map f = l.mapIdx fun j a ↦ f (g j a) := by
  rw [← List.filterMap_eq_map]
  exact filterMap_mapIdx fun j a ↦ rfl

/-- **The visible logs of a block are the logs of its compliant receipts**, in order. -/
theorem filterMap_visible : (blockLogs api b).filterMap (visible b) = receiptLogs api b := by
  have hinputs : inputsFrom api b 0 0 0 b.user = b.user.mapIdx fun k p ↦
      userInput api b k (p.2.cumulativeGasUsed - gasAfter 0 (b.user.take k))
        (logCount (b.user.take k)) p := by
    refine List.ext_getElem? fun k ↦ ?_
    rw [getElem?_inputsFrom, List.getElem?_mapIdx, Nat.zero_add, Nat.zero_add]
  have hsystem : ∀ logs ∈ b.system.mapIdx (fun i p ↦
      (p.2.logs.mapIdx fun j log ↦ rawLog api b i j p.1 log).filterMap (visible b)), logs = [] := by
    intro logs hlogs
    obtain ⟨i, hi, rfl⟩ := List.mem_mapIdx.1 hlogs
    rw [List.filterMap_eq_nil_iff]
    intro log hlog
    obtain ⟨j, hj, rfl⟩ := List.mem_mapIdx.1 hlog
    exact visible_system api b hi j _ _
  have huser : ∀ k (p : RecoveredTx × Receipt),
      (p.2.logs.mapIdx fun j log ↦ rawLog api b (b.system.length + k) j p.1 log).filterMap
          (visible b) =
        p.2.logs.mapIdx (userInput api b k
          (p.2.cumulativeGasUsed - gasAfter 0 (b.user.take k))
          (logCount (b.user.take k)) p).rpcLog := fun k p ↦
    filterMap_mapIdx fun j log ↦ visible_user api b k j p _ log
  rw [receiptLogs, compliantReceipts, hinputs, List.flatMap_map, blockLogs,
    List.filterMap_flatten, ExecutedBlock.entries, List.mapIdx_append, List.map_append,
    List.flatten_append, map_mapIdx, map_mapIdx, List.flatten_eq_nil_iff.2 hsystem,
    List.nil_append, List.flatMap_def, map_mapIdx]
  refine congrArg List.flatten (congrArg (b.user.mapIdx ·) (funext fun k ↦ funext fun p ↦ ?_))
  rw [Nat.add_comm k, huser, api.logs_build]
  rfl

end BlockLogs

/-! ### The machine -/

/-- How far the task of a subscription is. -/
inductive Task where
  | running
  | returned
  | failed
  | panicked
  deriving DecidableEq, Repr

/-- The chain, what the stream has not handed on yet, and what was sent. -/
structure World where
  chain : Chain
  stream : List RpcLog
  streamOpen : Bool
  sinkOpen : Bool
  task : Task
  sent : List RpcLog

inductive Action where
  /-- A block is committed, and the stream gets its logs. -/
  | commit (b : ExecutedBlock)
  | endStream
  /-- The client closes its sink. -/
  | close
  /-- The task sees that the sink is closed. -/
  | seeClosed
  /-- The task sees that the stream has ended. -/
  | seeEnd
  /-- The task takes the next log; a message that cannot be serialized ends it. -/
  | take (serializes : Bool)

/-- A chain with one more block, which has a number and a hash of its own. -/
def push (chain : Chain) (b : ExecutedBlock) : Option Chain :=
  if h : b.number ∉ chain.blocks.map ExecutedBlock.number ∧
      b.hash ∉ chain.blocks.map ExecutedBlock.hash then
    some
      { blocks := chain.blocks ++ [b]
        numbers_nodup := by
          rw [List.map_append]
          exact List.concat_eq_append ▸ chain.numbers_nodup.concat h.1
        hashes_nodup := by
          rw [List.map_append]
          exact List.concat_eq_append ▸ chain.hashes_nodup.concat h.2 }
  else none

theorem blocks_of_push {chain chain' : Chain} {b : ExecutedBlock} (h : push chain b = some chain') :
    chain'.blocks = chain.blocks ++ [b] := by
  rw [push] at h
  split_ifs at h
  obtain rfl := Option.some.inj h
  rfl

/-- The filter of a subscription to logs. With a boolean parameter the task returns at once. -/
def filterOf {F : Type} [Inhabited F] : Option (SubscriptionParams F) → Option F
  | some (.logs filter) => some filter
  | some (.bool _) => none
  | _ => some default

/-- An accepted subscription to logs. -/
def subscribe {F : Type} [Inhabited F] (chain : Chain) (params : Option (SubscriptionParams F)) :
    World where
  chain := chain
  stream := []
  streamOpen := true
  sinkOpen := true
  task := if (filterOf params).isSome then .running else .returned
  sent := []

section Runs

variable {R : Type} (api : EthApi R) (accepts : Log → Bool)

/-- The moves of the machine. The turns of the task are those of the loop in `pipe_from_stream`. -/
def step (w : World) : Action → Option World
  | .commit b => (push w.chain b).map fun chain ↦
      { w with
        chain := chain
        stream :=
          if w.streamOpen then w.stream ++ (blockLogs api b).filter fun log ↦ accepts log.inner
          else w.stream }
  | .endStream => some { w with streamOpen := false }
  | .close => some { w with sinkOpen := false }
  | .seeClosed =>
    if w.task = .running ∧ w.sinkOpen = false then some { w with task := .returned } else none
  | .seeEnd =>
    if w.task = .running ∧ w.streamOpen = false ∧ w.stream = [] then
      some { w with task := .returned }
    else none
  | .take serializes =>
    if w.task = .running then
      match w.stream with
      | [] => none
      | log :: stream =>
        match (adjustLog log).runAt (w.chain.state api.txHash) with
        | .error _ => some { w with stream := stream, task := .panicked }
        | .ok none => some { w with stream := stream }
        | .ok (some adjusted) =>
          if serializes then
            if w.sinkOpen then some { w with stream := stream, sent := w.sent ++ [adjusted] }
            else some { w with stream := stream, task := .returned }
          else some { w with stream := stream, task := .failed }
    else none

/-- What a subscriber should see of some blocks. -/
def expected (blocks : List ExecutedBlock) : List RpcLog :=
  blocks.flatMap fun b ↦ (receiptLogs api b).filter fun log ↦ accepts log.inner

theorem expected_concat (blocks : List ExecutedBlock) (b : ExecutedBlock) :
    expected api accepts (blocks ++ [b]) =
      expected api accepts blocks ++ (receiptLogs api b).filter fun log ↦ accepts log.inner := by
  rw [expected, List.flatMap_append, List.flatMap_singleton]
  rfl

variable {api accepts}

/-- **Reading late does not matter**: a log of a block of the chain is renumbered in the same way
however the chain has grown. -/
theorem runAt_adjustLog_of_mem {chain : Chain} {b : ExecutedBlock} (hb : b ∈ chain.blocks)
    {log : RpcLog} (hlog : log ∈ blockLogs api b) :
    (adjustLog log).runAt (chain.state api.txHash) = .ok (visible b log) := by
  have hknown : (chain.state api.txHash).blockById (.number (.number b.number)) = some b :=
    Chain.find?_eq_of_mem chain.numbers_nodup hb
  obtain ⟨logs, hlogs, hlog⟩ := List.mem_flatten.1 hlog
  obtain ⟨i, hi, rfl⟩ := List.mem_mapIdx.1 hlogs
  obtain ⟨j, hj, rfl⟩ := List.mem_mapIdx.1 hlog
  rcases Nat.lt_or_ge i b.system.length with hlt | hge
  · rw [runAt_adjustLog_system api hknown hlt, visible_system api b hlt]
  · obtain ⟨k, rfl⟩ := Nat.exists_eq_add_of_le hge
    rw [runAt_adjustLog_user api hknown, visible_user api b k j _ 0]
    rfl

/-- Renumbering keeps the contents of a log, so the filter may come before or after it. -/
theorem filterMap_visible_filter (b : ExecutedBlock) (logs : List RpcLog) :
    (logs.filter fun log ↦ accepts log.inner).filterMap (visible b) =
      (logs.filterMap (visible b)).filter fun log ↦ accepts log.inner := by
  have hinner : ∀ log adjusted, visible b log = some adjusted → adjusted.inner = log.inner := by
    intro log adjusted h
    unfold visible at h
    split at h
    · split_ifs at h
      obtain rfl := Option.some.inj h
      rfl
    · exact nomatch h
  rw [List.filterMap_filter, List.filter_filterMap]
  refine List.filterMap_congr fun log _ ↦ ?_
  rcases hlog : visible b log with - | adjusted
  · exact ite_self _
  · rw [← hinner log adjusted hlog]
    rfl

/-! ### The invariant -/

variable (api accepts) in
/-- What was sent, and what the stream still holds, make up the logs of the blocks that it was told
of. `streamed` are these blocks, `rest` those that came after the stream had ended, and `tagged`
gives each log that is held its block. -/
structure Inv (chain : Chain) (streamed rest : List ExecutedBlock)
    (tagged : List (ExecutedBlock × RpcLog)) (w : World) : Prop where
  blocks : w.chain.blocks = chain.blocks ++ (streamed ++ rest)
  rest_eq_nil : w.streamOpen = true → rest = []
  stream : w.stream = tagged.map Prod.snd
  held : ∀ p ∈ tagged, p.1 ∈ w.chain.blocks ∧ p.2 ∈ blockLogs api p.1
  not_panicked : w.task ≠ .panicked
  sent_prefix : w.sent <+: expected api accepts streamed
  running : w.task = .running →
    w.sent ++ tagged.filterMap (fun p ↦ visible p.1 p.2) = expected api accepts streamed

variable {chain : Chain} {streamed rest : List ExecutedBlock}
  {tagged : List (ExecutedBlock × RpcLog)} {w w' : World}

theorem inv_subscribe {F : Type} [Inhabited F] (params : Option (SubscriptionParams F)) :
    Inv api accepts chain [] [] [] (subscribe chain params) where
  blocks := (List.append_nil _).symm
  rest_eq_nil := fun _ ↦ rfl
  stream := rfl
  held := fun p hp ↦ nomatch hp
  not_panicked := by
    rw [subscribe]
    split_ifs <;> exact nofun
  sent_prefix := List.nil_prefix
  running := fun _ ↦ rfl

/-- A block that the stream is told of brings its logs. -/
theorem Inv.commit_open (h : Inv api accepts chain streamed rest tagged w)
    (hopen : w.streamOpen = true) {b : ExecutedBlock} {chain' : Chain}
    (hpush : push w.chain b = some chain') :
    Inv api accepts chain (streamed ++ [b]) []
      (tagged ++ ((blockLogs api b).filter fun log ↦ accepts log.inner).map fun log ↦ (b, log))
      { w with
        chain := chain'
        stream := w.stream ++ (blockLogs api b).filter fun log ↦ accepts log.inner } where
  blocks := by
    show chain'.blocks = _
    rw [blocks_of_push hpush, h.blocks, h.rest_eq_nil hopen, List.append_nil, List.append_nil,
      List.append_assoc]
  rest_eq_nil := fun _ ↦ rfl
  stream := by
    show w.stream ++ _ = _
    rw [List.map_append, List.map_map, h.stream]
    exact congrArg _ (List.map_id' _).symm
  held := by
    intro p hp
    show p.1 ∈ chain'.blocks ∧ _
    rw [blocks_of_push hpush]
    rcases List.mem_append.1 hp with hp | hp
    · exact ⟨List.mem_append_left _ (h.held p hp).1, (h.held p hp).2⟩
    · obtain ⟨log, hlog, rfl⟩ := List.mem_map.1 hp
      exact ⟨List.mem_append_right _ List.mem_cons_self, (List.mem_filter.1 hlog).1⟩
  not_panicked := h.not_panicked
  sent_prefix := by
    rw [expected_concat]
    exact h.sent_prefix.trans (List.prefix_append _ _)
  running := by
    intro hrunning
    rw [expected_concat, ← h.running hrunning, List.filterMap_append, List.filterMap_map,
      ← filterMap_visible, ← filterMap_visible_filter, List.append_assoc]
    rfl

/-- A block that comes after the stream has ended brings nothing. -/
theorem Inv.commit_ended (h : Inv api accepts chain streamed rest tagged w)
    (hended : w.streamOpen = false) {b : ExecutedBlock} {chain' : Chain}
    (hpush : push w.chain b = some chain') :
    Inv api accepts chain streamed (rest ++ [b]) tagged { w with chain := chain' } where
  blocks := by
    show chain'.blocks = _
    rw [blocks_of_push hpush, h.blocks, List.append_assoc, List.append_assoc]
  rest_eq_nil := fun hopen ↦ nomatch hopen.symm.trans hended
  stream := h.stream
  held := by
    intro p hp
    show p.1 ∈ chain'.blocks ∧ _
    rw [blocks_of_push hpush]
    exact ⟨List.mem_append_left _ (h.held p hp).1, (h.held p hp).2⟩
  not_panicked := h.not_panicked
  sent_prefix := h.sent_prefix
  running := h.running

/-- The task ends, with or without having taken a log. -/
theorem Inv.ends (h : Inv api accepts chain streamed rest tagged w) {n : ℕ} {task : Task}
    (hrunning : task ≠ .running) (hpanicked : task ≠ .panicked) :
    Inv api accepts chain streamed rest (tagged.drop n)
      { w with stream := w.stream.drop n, task := task } where
  blocks := h.blocks
  rest_eq_nil := h.rest_eq_nil
  stream := by
    show w.stream.drop n = _
    rw [h.stream, List.map_drop]
  held := fun p hp ↦ h.held p (List.mem_of_mem_drop hp)
  not_panicked := hpanicked
  sent_prefix := h.sent_prefix
  running := fun h ↦ absurd h hrunning

/-- The task takes a log: it is renumbered as it should, and sent if anything is left of it. -/
theorem Inv.take {p : ExecutedBlock × RpcLog}
    (h : Inv api accepts chain streamed rest (p :: tagged) w) (hrunning : w.task = .running) :
    Inv api accepts chain streamed rest tagged
      { w with
        stream := w.stream.drop 1
        sent := w.sent ++ (visible p.1 p.2).toList } := by
  have hsent : w.sent ++ (visible p.1 p.2).toList ++
      tagged.filterMap (fun p ↦ visible p.1 p.2) = expected api accepts streamed := by
    rw [← h.running hrunning, List.append_assoc]
    rcases hvisible : visible p.1 p.2 with - | adjusted
    · rw [List.filterMap_cons, hvisible]
      rfl
    · rw [List.filterMap_cons, hvisible]
      rfl
  refine ⟨h.blocks, h.rest_eq_nil, ?_, fun q hq ↦ h.held q (List.mem_cons_of_mem _ hq),
    h.not_panicked, ⟨_, hsent⟩, fun _ ↦ hsent⟩
  show w.stream.drop 1 = _
  rw [h.stream]
  rfl

/-- What the task does with the next log: it hands on what is left of it to an open sink, or it
ends. It panics only if the renumbering does. -/
theorem take_cases {serializes : Bool} (hstep : step api accepts w (.take serializes) = some w') :
    w.task = .running ∧ ∃ log stream, w.stream = log :: stream ∧
      ((∃ adjusted, (adjustLog log).runAt (w.chain.state api.txHash) = .ok adjusted ∧
          (w.sinkOpen = true ∨ adjusted = none) ∧
          w' = { w with stream := stream, sent := w.sent ++ adjusted.toList }) ∨
        ∃ task, task ≠ .running ∧
          (task = .panicked →
            ∃ e, (adjustLog log).runAt (w.chain.state api.txHash) = .error e) ∧
          w' = { w with stream := stream, task := task }) := by
  by_cases hrunning : w.task = .running
  · refine ⟨hrunning, ?_⟩
    rw [step, if_pos hrunning] at hstep
    rcases hstream : w.stream with - | ⟨log, stream⟩
    · rw [hstream] at hstep
      exact nomatch hstep
    · refine ⟨log, stream, rfl, ?_⟩
      rw [hstream] at hstep
      simp only at hstep
      rcases hadjust : (adjustLog log).runAt (w.chain.state api.txHash) with e | (- | adjusted)
      · rw [hadjust] at hstep
        obtain rfl := Option.some.inj hstep
        exact Or.inr ⟨.panicked, nofun, fun _ ↦ ⟨e, rfl⟩, rfl⟩
      · rw [hadjust] at hstep
        obtain rfl := Option.some.inj hstep
        exact Or.inl ⟨none, rfl, Or.inr rfl, by rw [Option.toList_none, List.append_nil]⟩
      · rw [hadjust] at hstep
        simp only at hstep
        split_ifs at hstep with hserializes hopen
        · obtain rfl := Option.some.inj hstep
          exact Or.inl ⟨some adjusted, rfl, Or.inl hopen, rfl⟩
        · obtain rfl := Option.some.inj hstep
          exact Or.inr ⟨.returned, nofun, nofun, rfl⟩
        · obtain rfl := Option.some.inj hstep
          exact Or.inr ⟨.failed, nofun, nofun, rfl⟩
  · rw [step, if_neg hrunning] at hstep
    exact nomatch hstep

/-- A turn of the task in which it takes a log. -/
theorem Inv.step_take (h : Inv api accepts chain streamed rest tagged w) {serializes : Bool}
    (hstep : step api accepts w (.take serializes) = some w') :
    ∃ tagged', Inv api accepts chain streamed rest tagged' w' := by
  obtain ⟨hrunning, log, stream, hstream, hcases⟩ := take_cases hstep
  rcases tagged with - | ⟨p, tagged⟩
  · exact nomatch hstream.symm.trans h.stream
  · obtain ⟨hlog, htail⟩ := List.cons.inj (hstream.symm.trans h.stream)
    obtain ⟨hblock, hmem⟩ := h.held p List.mem_cons_self
    -- the log belongs to a block of the chain, so renumbering it does not fail
    have hadjust := runAt_adjustLog_of_mem hblock hmem
    rw [← hlog] at hadjust
    have hdrop : w.stream.drop 1 = stream := by rw [hstream]; rfl
    rcases hcases with ⟨adjusted, hadjusted, -, rfl⟩ | ⟨task, hne, hpanicked, rfl⟩
    · obtain rfl := Except.ok.inj (hadjust.symm.trans hadjusted)
      have htake := h.take hrunning
      rw [hdrop, ← hlog] at htake
      exact ⟨tagged, htake⟩
    · have hends := h.ends (n := 1) hne fun hpanic ↦ by
        obtain ⟨e, herror⟩ := hpanicked hpanic
        exact nomatch hadjust.symm.trans herror
      rw [hdrop] at hends
      exact ⟨tagged, hends⟩

/-- **Every move keeps the invariant.** -/
theorem Inv.step (h : Inv api accepts chain streamed rest tagged w) {action : Action}
    (hstep : step api accepts w action = some w') :
    ∃ streamed' rest' tagged', Inv api accepts chain streamed' rest' tagged' w' := by
  rcases action with b | - | - | - | - | serializes
  · obtain ⟨chain', hpush, rfl⟩ := Option.map_eq_some_iff.1 hstep
    by_cases hopen : w.streamOpen = true
    · rw [if_pos hopen]
      exact ⟨_, _, _, h.commit_open hopen hpush⟩
    · rw [if_neg hopen]
      exact ⟨_, _, _, h.commit_ended (Bool.eq_false_iff.2 hopen) hpush⟩
  · obtain rfl := Option.some.inj hstep
    exact ⟨_, _, _, { h with rest_eq_nil := nofun }⟩
  · obtain rfl := Option.some.inj hstep
    exact ⟨_, _, _, { h with }⟩
  · rw [Subscription.step] at hstep
    split_ifs at hstep
    obtain rfl := Option.some.inj hstep
    exact ⟨_, _, _, h.ends (n := 0) nofun nofun⟩
  · rw [Subscription.step] at hstep
    split_ifs at hstep
    obtain rfl := Option.some.inj hstep
    exact ⟨_, _, _, h.ends (n := 0) nofun nofun⟩
  · obtain ⟨tagged', h'⟩ := h.step_take hstep
    exact ⟨_, _, tagged', h'⟩

/-- **Nothing is sent to a closed sink.** -/
theorem sent_of_closed {action : Action} (hclosed : w.sinkOpen = false)
    (hstep : step api accepts w action = some w') :
    w'.sinkOpen = false ∧ w'.sent = w.sent := by
  rcases action with b | - | - | - | - | serializes
  · obtain ⟨chain', -, rfl⟩ := Option.map_eq_some_iff.1 hstep
    exact ⟨hclosed, rfl⟩
  · obtain rfl := Option.some.inj hstep
    exact ⟨hclosed, rfl⟩
  · obtain rfl := Option.some.inj hstep
    exact ⟨rfl, rfl⟩
  · rw [step] at hstep
    split_ifs at hstep
    obtain rfl := Option.some.inj hstep
    exact ⟨hclosed, rfl⟩
  · rw [step] at hstep
    split_ifs at hstep
    obtain rfl := Option.some.inj hstep
    exact ⟨hclosed, rfl⟩
  · obtain ⟨-, log, stream, -, hcases⟩ := take_cases hstep
    rcases hcases with ⟨adjusted, -, hopen, rfl⟩ | ⟨task, -, -, rfl⟩
    · obtain rfl := hopen.resolve_left fun hopen ↦ nomatch hopen.symm.trans hclosed
      exact ⟨hclosed, List.append_nil _⟩
    · exact ⟨hclosed, rfl⟩

end Runs

/-- **What a subscriber sees.** Along every run the chain grows by some blocks; the task does not
panic; what was sent is a prefix of the matching logs of their compliant receipts, and all of them
when the task is alive and has nothing left to take. After the sink was closed nothing more is
sent. -/
theorem subscription_sends {R F : Type} [Inhabited F] (api : EthApi R) (matchesLog : F → Log → Bool)
    (chain : Chain) (params : Option (SubscriptionParams F)) {actions : List Action} {w : World}
    (h : Machine.run (step api fun log ↦ (filterOf params).any (matchesLog · log))
      (subscribe chain params) actions = some w) :
    ∃ committed, w.chain.blocks = chain.blocks ++ committed ∧ w.task ≠ .panicked ∧
      w.sent <+: expected api (fun log ↦ (filterOf params).any (matchesLog · log)) committed ∧
      (w.task = .running → w.streamOpen = true → w.stream = [] →
        w.sent = expected api (fun log ↦ (filterOf params).any (matchesLog · log)) committed) ∧
      ∀ actions' w', w.sinkOpen = false →
        Machine.run (step api fun log ↦ (filterOf params).any (matchesLog · log)) w actions' =
          some w' → w'.sent = w.sent := by
  obtain ⟨streamed, rest, tagged, hinv⟩ := Machine.run_stable
    (P := fun w ↦ ∃ streamed rest tagged, Inv api _ chain streamed rest tagged w)
    (fun w action w' ⟨_, _, _, hinv⟩ hstep ↦ hinv.step hstep) ⟨[], [], [], inv_subscribe params⟩ h
  refine ⟨streamed ++ rest, hinv.blocks, hinv.not_panicked, ?_, fun hrunning hopen hstream ↦ ?_,
    fun actions' w' hclosed hrun ↦ ?_⟩
  · rw [expected, List.flatMap_append]
    exact hinv.sent_prefix.trans (List.prefix_append _ _)
  · obtain rfl := List.map_eq_nil_iff.1 (hinv.stream.symm.trans hstream)
    rw [hinv.rest_eq_nil hopen, List.append_nil, ← hinv.running hrunning]
    exact (List.append_nil _).symm
  · have hstable := Machine.run_stable
      (P := fun w₁ : World ↦ w₁.sinkOpen = false ∧ w₁.sent = w.sent)
      (fun w₁ action w₂ hw₁ hstep ↦
        ⟨(sent_of_closed hw₁.1 hstep).1, (sent_of_closed hw₁.1 hstep).2.trans hw₁.2⟩)
      ⟨hclosed, rfl⟩ hrun
    exact hstable.2

/-- A chain without blocks. -/
def emptyChain : Chain where
  blocks := []
  numbers_nodup := List.nodup_nil
  hashes_nodup := List.nodup_nil

/-- Two blocks are committed; the client leaves before the log of the second is taken. -/
def exampleRun : List Action :=
  [.commit exampleBlock, .commit exampleUserBlock, .take true, .take true, .close, .take true]

/-- The client has seen the log of the first user transaction, and nothing of the system
transaction before it. -/
theorem subscription_sends_exampleRun : ∃ w,
    Machine.run (step exampleApi fun _ ↦ (filterOf (none : Option (SubscriptionParams Unit))).any
        fun _ ↦ true) (subscribe emptyChain (none : Option (SubscriptionParams Unit))) exampleRun =
      some w ∧
    w.task = .returned ∧ w.sent.map RpcLog.transactionIndex = [some 0] ∧
    ∃ committed, w.chain.blocks = emptyChain.blocks ++ committed ∧
      w.sent <+: expected exampleApi (fun _ ↦
        (filterOf (none : Option (SubscriptionParams Unit))).any fun _ ↦ true) committed := by
  obtain ⟨w, hrun, htask, hsent⟩ : ∃ w,
      Machine.run (step exampleApi fun _ ↦
          (filterOf (none : Option (SubscriptionParams Unit))).any fun _ ↦ true)
        (subscribe emptyChain (none : Option (SubscriptionParams Unit))) exampleRun = some w ∧
      w.task = .returned ∧ w.sent.map RpcLog.transactionIndex = [some 0] :=
    ⟨_, rfl, rfl, rfl⟩
  obtain ⟨committed, hblocks, -, hprefix, -⟩ :=
    subscription_sends exampleApi (fun (_ : Unit) _ ↦ true) emptyChain none hrun
  exact ⟨w, hrun, htask, hsent, committed, hblocks, hprefix⟩

end RethHl.Compliance.Subscription
