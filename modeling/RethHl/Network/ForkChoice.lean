import Mathlib.Data.Prod.Lex
import RethHl.Network.BlockImport

/-!
# The head of the chain

The rule for the head is an order on blocks: the higher number wins, and between two blocks of the
same number the lower hash. Each fork-choice future applies it to its own block and to the head the
provider has *when the future reads it*, and sends the winner to the engine. What the provider says
then is not the whole story: earlier fork-choice messages may be in the engine's queue, and the
engine may move the provider between the two reads of the future.

So the head can go back. With a better block still queued, a future that compares its block with the
old head sends a message that the engine applies after the better one.

The invariant that is missing is that the head and the queued heads, in this order, are **sorted**.
A choice keeps them sorted if it is *timely*: when the hash is read, the head is still the one whose
number was read, and no queued head beats both the block and the head. In runs of timely choices the
head never goes back, and in the end it is the best of all blocks (`best_of_timely`).
-/

namespace RethHl

/-! ### The order on blocks -/

/-- The rank of a block: its number, then its hash, lower hashes first. -/
def rank (numberOf : B256 → ℕ) (hash : B256) : ℕ ×ₗ ℕᵒᵈ :=
  toLex (numberOf hash, OrderDual.toDual hash.toNat)

theorem rank_le_iff {numberOf : B256 → ℕ} {a b : B256} :
    rank numberOf a ≤ rank numberOf b ↔
      numberOf a < numberOf b ∨ numberOf a = numberOf b ∧ b.toNat ≤ a.toNat :=
  Prod.Lex.toLex_le_toLex

/-- **The choice of the head is the better of the two blocks**, when the current hash has the number
that was read. -/
theorem canonicalHead_spec {numberOf : B256 → ℕ} {hash currentHash : B256} {number currentHead : ℕ}
    (hnumber : numberOf hash = number) (hcurrent : numberOf currentHash = currentHead) :
    ((canonicalHead hash number currentHead currentHash).1 = hash ∨
        (canonicalHead hash number currentHead currentHash).1 = currentHash) ∧
      rank numberOf hash ≤
        rank numberOf (canonicalHead hash number currentHead currentHash).1 ∧
      rank numberOf currentHash ≤
        rank numberOf (canonicalHead hash number currentHead currentHash).1 := by
  rcases lt_trichotomy number currentHead with hlt | heq | hgt
  · have hchoice : (canonicalHead hash number currentHead currentHash).1 = currentHash := by
      rw [canonicalHead, compare_lt_iff_lt.2 hlt]
    rw [hchoice]
    exact ⟨Or.inr rfl, rank_le_iff.2 (Or.inl (by omega)), le_refl _⟩
  · have hchoice : (canonicalHead hash number currentHead currentHash).1 =
        if currentHash < hash then currentHash else hash := by
      rw [canonicalHead, compare_eq_iff_eq.2 heq]
    rw [hchoice]
    split_ifs with hhash
    · refine ⟨Or.inr rfl, rank_le_iff.2 (Or.inr ⟨by omega, ?_⟩), le_refl _⟩
      exact Nat.le_of_lt (BitVec.lt_def.1 hhash)
    · refine ⟨Or.inl rfl, le_refl _, rank_le_iff.2 (Or.inr ⟨by omega, ?_⟩)⟩
      exact Nat.le_of_not_lt fun h ↦ hhash (BitVec.lt_def.2 h)
  · have hchoice : (canonicalHead hash number currentHead currentHash).1 = hash := by
      rw [canonicalHead, compare_gt_iff_gt.2 hgt]
    rw [hchoice]
    exact ⟨Or.inl rfl, le_refl _, rank_le_iff.2 (Or.inl (by omega))⟩

namespace ImportService

variable (hashSlow : Header → B256) (numberOf : B256 → ℕ)

/-- The heads of the queued fork-choice messages. -/
def forkHeads (msgs : List EngineMsg) : List B256 :=
  msgs.filterMap fun
    | .forkChoiceUpdated head => some head
    | .newPayload _ => none

/-- The engine looks blocks up by their hash, accepts every payload, and applies every fork-choice
message. -/
def EngineAccepts : State → Action → Prop
  | _, .arrive block _ => numberOf (block.sealedHash hashSlow) = block.number
  | _, .reply reply => reply = .ok .valid
  | _, _ => True

/-- A choice is timely: its reads succeed, the head is still the one whose number was read, and no
queued head beats both the block and the head. -/
def Timely : State → Action → Prop
  | _, .providerError _ => False
  | s, .advance fut => ∀ currentHead, fut.kind = .updateForkChoice →
      fut.progress = .readHead currentHead →
      s.provider.bestBlockNumber = currentHead ∧
        ∀ queued ∈ forkHeads s.engine,
          rank numberOf queued ≤ rank numberOf (fut.block.sealedHash hashSlow) ∨
            ∃ head ∈ s.provider.head, rank numberOf queued ≤ rank numberOf head
  | _, _ => True

/-- The runs in which the engine accepts everything and every choice is timely. -/
def TimelyRuns : State → State → Prop :=
  Runs hashSlow numberOf fun s a ↦
    EngineAccepts hashSlow numberOf s a ∧ Timely hashSlow numberOf s a

/-- All futures have sent their messages and had their replies. -/
def Settled (s : State) : Prop :=
  s.engine = [] ∧ ∀ fut ∈ s.pendingImports, fut.complete

/-- The candidates for the head: the first one and every received block. -/
def candidates (start : B256) (s : State) : List B256 :=
  start :: s.received.map fun block ↦ block.1.sealedHash hashSlow

/-! ### The invariant -/

/-- The head and the queued heads are sorted candidates, and every received block is yet to be
compared or is beaten by one of them. -/
structure Ordered (start : B256) (s : State) (head : B256) : Prop where
  isHead : s.provider.head = some head
  number : numberOf head = s.provider.bestBlockNumber
  sorted : (head :: forkHeads s.engine).Pairwise fun a b ↦ rank numberOf a ≤ rank numberOf b
  known : ∀ hash ∈ head :: forkHeads s.engine, hash ∈ candidates hashSlow start s
  startLe : rank numberOf start ≤ rank numberOf head
  arrived : ∀ msg ∈ s.fromNetwork, numberOf (msg.1.sealedHash hashSlow) = msg.1.number
  received : ∀ msg ∈ s.received, numberOf (msg.1.sealedHash hashSlow) = msg.1.number
  pending : ∀ fut ∈ s.pendingImports, (fut.block, fut.peer) ∈ s.received
  covered : ∀ msg ∈ s.received, (∃ fut ∈ s.pendingImports, fut.block = msg.1 ∧ fut.reads) ∨
    ∃ hash ∈ head :: forkHeads s.engine,
      rank numberOf (msg.1.sealedHash hashSlow) ≤ rank numberOf hash

variable {hashSlow numberOf} {start head : B256} {s : State}

theorem ordered_new {provider : Provider} (hstart : provider.head = some start)
    (hnumber : numberOf start = provider.bestBlockNumber) :
    Ordered hashSlow numberOf start (.new provider) start where
  isHead := hstart
  number := hnumber
  sorted := List.pairwise_singleton _ _
  known := fun hash h ↦ by
    rw [List.mem_singleton.1 h]
    exact List.mem_cons_self
  startLe := le_refl _
  arrived := fun _ h ↦ absurd h List.not_mem_nil
  received := fun _ h ↦ absurd h List.not_mem_nil
  pending := fun _ h ↦ absurd h List.not_mem_nil
  covered := fun _ h ↦ absurd h List.not_mem_nil

/-- What leaves the provider, the queue and the received blocks alone, and no block without its
comparison. -/
theorem Ordered.frame {s' : State} (h : Ordered hashSlow numberOf start s head)
    (hprovider : s'.provider = s.provider) (hengine : forkHeads s'.engine = forkHeads s.engine)
    (hreceived : s'.received = s.received)
    (harrived : ∀ msg ∈ s'.fromNetwork, numberOf (msg.1.sealedHash hashSlow) = msg.1.number)
    (hpending : ∀ fut ∈ s'.pendingImports, (fut.block, fut.peer) ∈ s.received)
    (hreads : ∀ fut ∈ s.pendingImports, fut.reads →
      ∃ fut' ∈ s'.pendingImports, fut'.block = fut.block ∧ fut'.reads) :
    Ordered hashSlow numberOf start s' head where
  isHead := by rw [hprovider, h.isHead]
  number := by rw [hprovider, h.number]
  sorted := by rw [hengine]; exact h.sorted
  known := by
    rw [hengine, candidates, hreceived]
    exact h.known
  startLe := h.startLe
  arrived := harrived
  received := by rw [hreceived]; exact h.received
  pending := by rw [hreceived]; exact hpending
  covered := by
    intro msg hmsg
    rw [hreceived] at hmsg
    rw [hengine]
    rcases h.covered msg hmsg with ⟨fut, hfut, hblock, hfutReads⟩ | hbeaten
    · obtain ⟨fut', hfut', hblock', hreads'⟩ := hreads fut hfut hfutReads
      exact Or.inl ⟨fut', hfut', hblock'.trans hblock, hreads'⟩
    · exact Or.inr hbeaten

section Step

variable {front back : List ImportFut} {fut other : ImportFut}

/-- A future that is to be compared is another one than a future that is not. -/
theorem mem_of_reads (hother : other ∈ front ++ fut :: back) (hreads : other.reads)
    (hfut : fut.reads = false) : other ∈ front ++ back := by
  rcases mem_or_eq_of_mem_insert hother with rfl | hother
  · rw [hreads] at hfut
    cases hfut
  · exact hother

/-- A future that is not to be compared gets on or goes. -/
theorem Ordered.update (h : Ordered hashSlow numberOf start s head)
    (hfut : s.pendingImports = front ++ fut :: back) (hreads : fut.reads = false)
    {s' : State} (hprovider : s'.provider = s.provider)
    (hengine : forkHeads s'.engine = forkHeads s.engine) (hreceived : s'.received = s.received)
    (hnetwork : s'.fromNetwork = s.fromNetwork)
    (hpending : (∃ progress, s'.pendingImports = front ++ { fut with progress := progress } :: back)
      ∨ s'.pendingImports = front ++ back) : Ordered hashSlow numberOf start s' head := by
  refine h.frame hprovider hengine hreceived (by rw [hnetwork]; exact h.arrived) ?_ ?_
  · intro other hother
    rcases hpending with ⟨progress, hpending⟩ | hpending
    · rw [hpending] at hother
      exact mem_received_update (hfut ▸ h.pending) progress other hother
    · rw [hpending] at hother
      exact h.pending other (by rw [hfut]; exact mem_insert_of_mem hother)
  · intro other hother hotherReads
    rw [hfut] at hother
    have hmem := mem_of_reads hother hotherReads hreads
    refine ⟨other, ?_, rfl, hotherReads⟩
    rcases hpending with ⟨progress, hpending⟩ | hpending
    · rw [hpending]
      exact mem_insert_of_mem hmem
    · rw [hpending]
      exact hmem

/-- A new block is yet to be compared. -/
theorem Ordered.onNewBlock (h : Ordered hashSlow numberOf start s head) {msg : BlockMsg}
    {peer : PeerId} {rest : List (BlockMsg × PeerId)} (hmsg : s.fromNetwork = (msg, peer) :: rest) :
    Ordered hashSlow numberOf start (onNewBlock { s with fromNetwork := rest } msg peer) head where
  isHead := h.isHead
  number := h.number
  sorted := h.sorted
  known := by
    intro hash hhash
    have hknown := h.known hash hhash
    simp only [candidates, ImportService.onNewBlock, List.map_append, List.mem_cons,
      List.mem_append] at hknown ⊢
    exact hknown.imp id Or.inl
  startLe := h.startLe
  arrived := fun other hother ↦ h.arrived other (by rw [hmsg]; exact List.mem_cons_of_mem _ hother)
  received := by
    intro other hother
    rcases List.mem_append.1 hother with hother | hother
    · exact h.received other hother
    · rw [List.mem_singleton.1 hother]
      exact h.arrived (msg, peer) (by rw [hmsg]; exact List.mem_cons_self)
  pending := mem_received_onNewBlock h.pending msg peer
  covered := by
    intro other hother
    rcases List.mem_append.1 hother with hother | hother
    · refine (h.covered other hother).imp (fun hreads ↦ ?_) id
      obtain ⟨fut, hfut, hblock⟩ := hreads
      exact ⟨fut, List.mem_append_left _ hfut, hblock⟩
    · -- the new block is covered by its own choice, which has not read anything yet
      rw [List.mem_singleton.1 hother]
      refine Or.inl ⟨_, List.mem_append_right _ (List.mem_cons_of_mem _ List.mem_cons_self), ?_⟩
      exact ⟨rfl, rfl⟩

/-- **A timely choice keeps the queue sorted**: it sends the better of the block and the head, and
no queued head beats both. -/
theorem Ordered.choose (h : Ordered hashSlow numberOf start s head)
    (hfut : s.pendingImports = front ++ fut :: back)
    (htimely : ∀ queued ∈ forkHeads s.engine,
      rank numberOf queued ≤ rank numberOf (fut.block.sealedHash hashSlow) ∨
        ∃ head ∈ s.provider.head, rank numberOf queued ≤ rank numberOf head)
    {s' : State} {choice : B256}
    (hchoice : choice = (canonicalHead (fut.block.sealedHash hashSlow) fut.block.number
      s.provider.bestBlockNumber head).1)
    (hprovider : s'.provider = s.provider)
    (hengine : forkHeads s'.engine = forkHeads s.engine ++ [choice])
    (hreceived : s'.received = s.received) (hnetwork : s'.fromNetwork = s.fromNetwork)
    {progress : Progress}
    (hpending : s'.pendingImports = front ++ { fut with progress := progress } :: back) :
    Ordered hashSlow numberOf start s' head := by
  have hmem : (fut.block, fut.peer) ∈ s.received := h.pending fut (by simp [hfut])
  obtain ⟨hcases, hblock, hhead⟩ := canonicalHead_spec (h.received _ hmem) h.number
  rw [← hchoice] at hcases hblock hhead
  -- everything in the queue is at most the choice
  have hle : ∀ hash ∈ head :: forkHeads s.engine, rank numberOf hash ≤ rank numberOf choice := by
    intro hash hhash
    rcases List.mem_cons.1 hhash with rfl | hhash
    · exact hhead
    · rcases htimely hash hhash with hle | ⟨head', hhead', hle⟩
      · exact hle.trans hblock
      · obtain rfl : head = head' := Option.some.inj (h.isHead.symm.trans hhead')
        exact hle.trans hhead
  refine ⟨?_, ?_, ?_, ?_, h.startLe, ?_, ?_, ?_, ?_⟩
  · rw [hprovider, h.isHead]
  · rw [hprovider, h.number]
  · rw [hengine, ← List.cons_append]
    refine List.pairwise_append.2 ⟨h.sorted, List.pairwise_singleton _ _, ?_⟩
    intro hash hhash last hlast
    rw [List.mem_singleton.1 hlast]
    exact hle hash hhash
  · rw [hengine, candidates, hreceived, ← List.cons_append]
    intro hash hhash
    rcases List.mem_append.1 hhash with hhash | hhash
    · exact h.known hash hhash
    · rw [List.mem_singleton.1 hhash]
      rcases hcases with hcase | hcase
      · rw [hcase]
        exact List.mem_cons_of_mem _ (List.mem_map_of_mem hmem)
      · rw [hcase]
        exact h.known head List.mem_cons_self
  · rw [hnetwork]
    exact h.arrived
  · rw [hreceived]
    exact h.received
  · rw [hreceived, hpending]
    exact mem_received_update (hfut ▸ h.pending) progress
  · intro msg hmsg
    rw [hreceived] at hmsg
    rw [hengine, ← List.cons_append]
    rcases h.covered msg hmsg with ⟨other, hother, hotherBlock, hreads⟩ | ⟨hash, hhash, hbeaten⟩
    · rw [hfut] at hother
      rcases mem_or_eq_of_mem_insert hother with rfl | hother
      · -- this is the block that has just been compared
        refine Or.inr ⟨choice, List.mem_append_right _ List.mem_cons_self, ?_⟩
        rw [← hotherBlock]
        exact hblock
      · refine Or.inl ⟨other, ?_, hotherBlock, hreads⟩
        rw [hpending]
        exact mem_insert_of_mem hother
    · exact Or.inr ⟨hash, List.mem_append_left _ hhash, hbeaten⟩

/-- **The engine applies the first queued head**, which is at least the old one. -/
theorem Ordered.apply (h : Ordered hashSlow numberOf start s head) {queued : B256}
    {rest : List EngineMsg} {provider : Provider}
    (hengine : s.engine = .forkChoiceUpdated queued :: rest)
    (hfut : s.pendingImports = front ++ fut :: back) (hreads : fut.reads = false)
    (hprovider : provider.head = some queued) (hnumber : numberOf queued = provider.bestBlockNumber)
    {s' : State} (hprovider' : s'.provider = provider) (hengine' : s'.engine = rest)
    (hreceived : s'.received = s.received) (hnetwork : s'.fromNetwork = s.fromNetwork)
    {progress : Progress}
    (hpending : s'.pendingImports = front ++ { fut with progress := progress } :: back) :
    Ordered hashSlow numberOf start s' queued ∧ rank numberOf head ≤ rank numberOf queued := by
  have hqueue : forkHeads s.engine = queued :: forkHeads rest := by
    rw [hengine]
    rfl
  have hsorted := h.sorted
  rw [hqueue, List.pairwise_cons] at hsorted
  have hle : rank numberOf head ≤ rank numberOf queued := hsorted.1 queued List.mem_cons_self
  have hknown := h.known
  rw [hqueue] at hknown
  refine ⟨⟨?_, ?_, ?_, ?_, h.startLe.trans hle, ?_, ?_, ?_, ?_⟩, hle⟩
  · rw [hprovider', hprovider]
  · rw [hprovider', hnumber]
  · rw [hengine']
    exact hsorted.2
  · rw [hengine', candidates, hreceived]
    exact fun hash hhash ↦ hknown hash (List.mem_cons_of_mem _ hhash)
  · rw [hnetwork]
    exact h.arrived
  · rw [hreceived]
    exact h.received
  · rw [hreceived, hpending]
    exact mem_received_update (hfut ▸ h.pending) progress
  · -- a block that the applied head covered is now covered by the head itself
    intro msg hmsg
    rw [hreceived] at hmsg
    rw [hengine']
    rcases h.covered msg hmsg with ⟨other, hother, hblock, hotherReads⟩ | ⟨hash, hhash, hbeaten⟩
    · rw [hfut] at hother
      refine Or.inl ⟨other, ?_, hblock, hotherReads⟩
      rw [hpending]
      exact mem_insert_of_mem (mem_of_reads hother hotherReads hreads)
    · rw [hqueue] at hhash
      rcases List.mem_cons.1 hhash with rfl | hhash
      · exact Or.inr ⟨queued, List.mem_cons_self, hbeaten.trans hle⟩
      · exact Or.inr ⟨hash, hhash, hbeaten⟩

/-- What driving a future can do. -/
theorem advance_cases {provider : Provider} {progress : Progress} {msgs : List EngineMsg}
    (h : fut.advance hashSlow provider = some (progress, msgs)) :
    (fut.reads = false ∧ forkHeads msgs = []) ∨
    (fut.reads ∧ fut.progress = .created ∧ msgs = [] ∧
      ({ fut with progress := progress } : ImportFut).reads) ∨
    ∃ currentHead, fut.kind = .updateForkChoice ∧ fut.progress = .readHead currentHead ∧
      ∀ currentHash, provider.blockHash currentHead = some currentHash →
        forkHeads msgs = [(canonicalHead (fut.block.sealedHash hashSlow) fut.block.number
          currentHead currentHash).1] := by
  obtain ⟨kind, msg, peer, now⟩ := fut
  cases kind <;> cases now <;> simp only [ImportFut.advance, reduceCtorEq] at h
  · obtain ⟨-, rfl⟩ := Prod.mk.inj (Option.some.inj h)
    exact Or.inl ⟨rfl, rfl⟩
  · obtain ⟨rfl, rfl⟩ := Prod.mk.inj (Option.some.inj h)
    exact Or.inr (Or.inl ⟨rfl, rfl, rfl, rfl⟩)
  · rename_i currentHead
    refine Or.inr (Or.inr ⟨currentHead, rfl, rfl, fun currentHash hhash ↦ ?_⟩)
    rw [hhash] at h
    obtain ⟨-, rfl⟩ := Prod.mk.inj (Option.some.inj h)
    rfl

theorem reads_of_complete (h : fut.complete) : fut.reads = false := by
  unfold ImportFut.complete at h
  unfold ImportFut.reads
  split at h <;> simp_all

theorem reads_of_awaiting {msg : EngineMsg} (h : fut.progress = .awaiting msg) :
    fut.reads = false := by
  unfold ImportFut.reads
  split <;> simp_all

/-- **One move.** If the engine accepts everything and the choice is timely, the invariant is kept,
and the head only gets better. -/
theorem Ordered.step (h : Ordered hashSlow numberOf start s head) {a : Action} {s' : State}
    (haccepts : EngineAccepts hashSlow numberOf s a) (htimely : Timely hashSlow numberOf s a)
    (hstep : Step hashSlow numberOf s a s') :
    ∃ head', Ordered hashSlow numberOf start s' head' ∧
      rank numberOf head ≤ rank numberOf head' := by
  cases hstep with
  | arrive msg peer =>
    refine ⟨head, h.frame rfl rfl rfl (fun other hother ↦ ?_) h.pending
      fun fut hfut hreads ↦ ⟨fut, hfut, rfl, hreads⟩, le_refl _⟩
    rcases List.mem_append.1 hother with hother | hother
    · exact h.arrived other hother
    · rw [List.mem_singleton.1 hother]
      exact haccepts
  | closeNetwork | startPoll _ | received _ _ | noneReady _ _ =>
    exact ⟨head, h.frame rfl rfl rfl h.arrived h.pending
      fun fut hfut hreads ↦ ⟨fut, hfut, rfl, hreads⟩, le_refl _⟩
  | receive _ hmsg => exact ⟨head, h.onNewBlock hmsg, le_refl _⟩
  | @advance front back fut progress msgs _ hfut hadvance =>
    have hqueue : forkHeads (s.engine ++ msgs) = forkHeads s.engine ++ forkHeads msgs :=
      List.filterMap_append ..
    rcases advance_cases hadvance with ⟨hreads, hmsgs⟩ | ⟨hreads, -, rfl, hreads'⟩ |
      ⟨currentHead, hkind, hprogress, hmsgs⟩
    · refine ⟨head, h.update hfut hreads rfl ?_ rfl rfl (Or.inl ⟨progress, rfl⟩), le_refl _⟩
      exact hqueue.trans (by rw [hmsgs, List.append_nil])
    · -- the first read: the same block is still to be compared
      refine ⟨head, h.frame rfl ?_ rfl h.arrived
        (mem_received_update (hfut ▸ h.pending) progress) ?_, le_refl _⟩
      · exact hqueue.trans (List.append_nil _)
      · intro other hother hotherReads
        rw [hfut] at hother
        rcases mem_or_eq_of_mem_insert hother with rfl | hother
        · exact ⟨_, List.mem_append_right _ List.mem_cons_self, rfl, hreads'⟩
        · exact ⟨other, mem_insert_of_mem hother, rfl, hotherReads⟩
    · obtain ⟨rfl, hqueued⟩ := htimely currentHead hkind hprogress
      refine ⟨head, h.choose hfut hqueued rfl rfl ?_ rfl rfl rfl, le_refl _⟩
      exact hqueue.trans (by rw [hmsgs head h.isHead])
  | providerError _ _ _ => exact htimely.elim
  | takeSome _ hfut houtput _ =>
    exact ⟨head, h.update hfut (reads_of_complete (complete_of_output houtput)) rfl rfl rfl rfl
      (Or.inr rfl), le_refl _⟩
  | takeClosed _ hfut houtput _ =>
    exact ⟨head, h.update hfut (reads_of_complete (complete_of_output houtput)) rfl rfl rfl rfl
      (Or.inr rfl), le_refl _⟩
  | takeNone _ hfut hcomplete _ =>
    exact ⟨head, h.update hfut (reads_of_complete hcomplete) rfl rfl rfl rfl (Or.inr rfl),
      le_refl _⟩
  | reply reply hmsg hfut hawaits happlies =>
    have hreads := reads_of_awaiting hawaits
    cases happlies with
    | forkChoice hhash =>
      refine ⟨_, h.apply hmsg hfut hreads ?_ ?_ rfl rfl rfl rfl rfl⟩
      · exact hhash
      · rfl
    | payload =>
      refine ⟨head, h.update hfut hreads rfl ?_ rfl rfl (Or.inl ⟨_, rfl⟩), le_refl _⟩
      rw [hmsg]
      rfl
    | refused hrefused => exact absurd haccepts hrefused

end Step

/-! ### Runs -/

/-- **Runs only better the head.** -/
theorem Ordered.runs {s' : State} (h : Ordered hashSlow numberOf start s head)
    (hrun : TimelyRuns hashSlow numberOf s s') :
    ∃ head', Ordered hashSlow numberOf start s' head' ∧
      rank numberOf head ≤ rank numberOf head' := by
  refine Runs.invariant hrun (P := fun t ↦ ∃ head', Ordered hashSlow numberOf start t head' ∧
    rank numberOf head ≤ rank numberOf head') ?_ ⟨head, h, le_refl _⟩
  rintro t a t' ⟨head₁, h₁, hle⟩ ⟨haccepts, htimely⟩ hstep
  obtain ⟨head₂, h₂, hle'⟩ := h₁.step haccepts htimely hstep
  exact ⟨head₂, h₂, hle.trans hle'⟩

/-- The number of the best block is that of the head. -/
theorem number_le_of_rank_le {a b : B256} (h : rank numberOf a ≤ rank numberOf b) :
    numberOf a ≤ numberOf b := by
  rcases rank_le_iff.1 h with h | h
  · exact Nat.le_of_lt h
  · exact Nat.le_of_eq h.1

/-- **The head of the chain under timely choices.** In every run in which the engine accepts
everything and every choice is timely, the number of the best block never decreases; and once all
futures have had their replies, the head is the best candidate: no other has a higher number, or the
same number and a lower hash. -/
theorem best_of_timely {provider : Provider} {s' : State} (hstart : provider.head = some start)
    (hnumber : numberOf start = provider.bestBlockNumber)
    (hrun : TimelyRuns hashSlow numberOf (.new provider) s)
    (hrun' : TimelyRuns hashSlow numberOf s s') :
    s.provider.bestBlockNumber ≤ s'.provider.bestBlockNumber ∧
      (Settled s' → ∃ head ∈ s'.provider.head, head ∈ candidates hashSlow start s' ∧
        ∀ other ∈ candidates hashSlow start s', numberOf other < numberOf head ∨
          numberOf other = numberOf head ∧ head.toNat ≤ other.toNat) := by
  obtain ⟨head, h, -⟩ := (ordered_new hstart hnumber).runs hrun
  obtain ⟨head', h', hle⟩ := h.runs hrun'
  refine ⟨?_, fun hsettled ↦ ⟨head', h'.isHead, h'.known head' List.mem_cons_self, ?_⟩⟩
  · rw [← h.number, ← h'.number]
    exact number_le_of_rank_le hle
  · intro other hother
    refine rank_le_iff.1 ?_
    rcases List.mem_cons.1 hother with rfl | hother
    · exact h'.startLe
    · obtain ⟨msg, hmsg, rfl⟩ := List.mem_map.1 hother
      rcases h'.covered msg hmsg with ⟨fut, hfut, -, hreads⟩ | ⟨hash, hhash, hbeaten⟩
      · rw [reads_of_complete (hsettled.2 fut hfut)] at hreads
        cases hreads
      · rw [hsettled.1] at hhash
        obtain rfl := List.mem_singleton.1 hhash
        exact hbeaten

/-! ### Example runs -/

/-- Blocks that have been received and futures of theirs, with a chain up to a number. -/
def exampleState (number : ℕ) (received : List ℕ) (phase : Phase) (engine : List EngineMsg)
    (futs : List ImportFut) : State where
  fromNetwork := []
  toNetwork := []
  networkOpen := true
  pendingImports := futs
  phase := phase
  engine := engine
  provider := exampleProvider number
  received := received.map fun n ↦ (exampleMsg n, 7)
  completed := futs.filter ImportFut.complete

/-- The message of a payload, and that of a choice. -/
def examplePayload (number : ℕ) : EngineMsg := .newPayload (exampleHash (.zero number))

def exampleChoice (number : ℕ) : EngineMsg := .forkChoiceUpdated (exampleHash (.zero number))

/-- Two blocks whose messages have all been answered. -/
def exampleSettled : State :=
  exampleState 2 [2, 1] .draining []
    [exampleFut .newPayload 2 (.replied (.ok .valid)),
      exampleFut .updateForkChoice 2 (.replied (.ok .valid)),
      exampleFut .newPayload 1 (.replied (.ok .valid)),
      exampleFut .updateForkChoice 1 (.replied (.ok .valid))]

/-- The second block comes, is compared with the first head, and is applied. -/
theorem timelyRuns_second_block :
    TimelyRuns exampleHash exampleNumberOf (.new (exampleProvider 0))
      (exampleState 2 [2] .idle []
        [exampleFut .newPayload 2 (.replied (.ok .valid)),
          exampleFut .updateForkChoice 2 (.replied (.ok .valid))]) := by
  let payload := exampleFut .newPayload 2
  let choice := exampleFut .updateForkChoice 2
  exact Runs.refl
    |>.step (.arrive (exampleMsg 2) 7) ⟨rfl, trivial⟩
    |>.step (.startPoll rfl) ⟨trivial, trivial⟩
    |>.step (.receive rfl rfl) ⟨trivial, trivial⟩
    |>.step (.received rfl rfl) ⟨trivial, trivial⟩
    |>.step (@Step.advance _ _ _ [] [choice .created] (payload .created) _ _ rfl rfl rfl)
      ⟨trivial, fun _ h ↦ nomatch h⟩
    |>.step (@Step.advance _ _ _ [payload (.awaiting (examplePayload 2))] [] (choice .created) _ _
      rfl rfl rfl) ⟨trivial, fun _ _ h ↦ nomatch h⟩
    |>.step (@Step.advance _ _ _ [payload (.awaiting (examplePayload 2))] [] (choice (.readHead 0))
      _ _ rfl rfl rfl)
      ⟨trivial, fun _ _ h ↦ ⟨Progress.readHead.inj h, fun _ h ↦ nomatch h⟩⟩
    |>.step (.noneReady rfl (by decide)) ⟨trivial, trivial⟩
    |>.step (@Step.reply _ _ _ [] [choice (.awaiting (exampleChoice 2))]
      (payload (.awaiting (examplePayload 2))) _ _ _ (.ok .valid) rfl rfl rfl .payload)
      ⟨rfl, trivial⟩
    |>.step (@Step.reply _ _ _ [payload (.replied (.ok .valid))] []
      (choice (.awaiting (exampleChoice 2))) _ _ (exampleProvider 2) (.ok .valid) rfl rfl rfl
      (.forkChoice rfl)) ⟨rfl, trivial⟩

/-- Then the first block comes, is compared with the second, and loses. -/
theorem timelyRuns_exampleSettled :
    TimelyRuns exampleHash exampleNumberOf (.new (exampleProvider 0)) exampleSettled := by
  let payload := exampleFut .newPayload
  let choice := exampleFut .updateForkChoice
  let done := Progress.replied (.ok .valid)
  exact timelyRuns_second_block
    |>.step (.arrive (exampleMsg 1) 7) ⟨rfl, trivial⟩
    |>.step (.startPoll rfl) ⟨trivial, trivial⟩
    |>.step (.receive rfl rfl) ⟨trivial, trivial⟩
    |>.step (.received rfl rfl) ⟨trivial, trivial⟩
    |>.step (@Step.advance _ _ _ [payload 2 done, choice 2 done] [choice 1 .created]
      (payload 1 .created) _ _ rfl rfl rfl) ⟨trivial, fun _ h ↦ nomatch h⟩
    |>.step (@Step.advance _ _ _
      [payload 2 done, choice 2 done, payload 1 (.awaiting (examplePayload 1))] []
      (choice 1 .created) _ _ rfl rfl rfl) ⟨trivial, fun _ _ h ↦ nomatch h⟩
    |>.step (@Step.advance _ _ _
      [payload 2 done, choice 2 done, payload 1 (.awaiting (examplePayload 1))] []
      (choice 1 (.readHead 2)) _ _ rfl rfl rfl)
      ⟨trivial, fun _ _ h ↦ ⟨Progress.readHead.inj h, fun _ h ↦ nomatch h⟩⟩
    |>.step (@Step.reply _ _ _ [payload 2 done, choice 2 done]
      [choice 1 (.awaiting (exampleChoice 2))] (payload 1 (.awaiting (examplePayload 1))) _ _ _
      (.ok .valid) rfl rfl rfl .payload) ⟨rfl, trivial⟩
    |>.step (@Step.reply _ _ _ [payload 2 done, choice 2 done, payload 1 done] []
      (choice 1 (.awaiting (exampleChoice 2))) _ _ (exampleProvider 2) (.ok .valid) rfl rfl rfl
      (.forkChoice rfl)) ⟨rfl, trivial⟩

/-- In the end the second block is the head, and the best of the candidates. -/
theorem best_of_timely_late_block :
    ∃ head ∈ exampleSettled.provider.head,
      head ∈ candidates exampleHash (exampleHash (.zero 0)) exampleSettled ∧
      ∀ other ∈ candidates exampleHash (exampleHash (.zero 0)) exampleSettled,
        exampleNumberOf other < exampleNumberOf head ∨
          exampleNumberOf other = exampleNumberOf head ∧ head.toNat ≤ other.toNat :=
  (best_of_timely rfl rfl timelyRuns_exampleSettled .refl).2 ⟨rfl, by decide⟩

/-- Both blocks are compared with the old head: when the first one reads it, the second one is in
the engine's queue. -/
theorem runs_both_chosen :
    Runs exampleHash exampleNumberOf (EngineAccepts exampleHash exampleNumberOf)
      (.new (exampleProvider 0))
      (exampleState 0 [2, 1] .idle
        [examplePayload 2, exampleChoice 2, examplePayload 1, exampleChoice 1]
        [exampleFut .newPayload 2 (.awaiting (examplePayload 2)),
          exampleFut .updateForkChoice 2 (.awaiting (exampleChoice 2)),
          exampleFut .newPayload 1 (.awaiting (examplePayload 1)),
          exampleFut .updateForkChoice 1 (.awaiting (exampleChoice 1))]) := by
  let payload := exampleFut .newPayload
  let choice := exampleFut .updateForkChoice
  let sent n := payload n (.awaiting (examplePayload n))
  let chosen n := choice n (.awaiting (exampleChoice n))
  exact @Runs.refl exampleHash exampleNumberOf (EngineAccepts exampleHash exampleNumberOf)
      (.new (exampleProvider 0))
    |>.step (.arrive (exampleMsg 2) 7) rfl
    |>.step (.arrive (exampleMsg 1) 7) rfl
    |>.step (.startPoll rfl) trivial
    |>.step (.receive rfl rfl) trivial
    |>.step (.receive rfl rfl) trivial
    |>.step (.received rfl rfl) trivial
    |>.step (@Step.advance _ _ _ [] [choice 2 .created, payload 1 .created, choice 1 .created]
      (payload 2 .created) _ _ rfl rfl rfl) trivial
    -- both choices read the head before either is applied
    |>.step (@Step.advance _ _ _ [sent 2] [payload 1 .created, choice 1 .created]
      (choice 2 .created) _ _ rfl rfl rfl) trivial
    |>.step (@Step.advance _ _ _ [sent 2] [payload 1 .created, choice 1 .created]
      (choice 2 (.readHead 0)) _ _ rfl rfl rfl) trivial
    |>.step (@Step.advance _ _ _ [sent 2, chosen 2] [choice 1 .created] (payload 1 .created) _ _
      rfl rfl rfl) trivial
    |>.step (@Step.advance _ _ _ [sent 2, chosen 2, sent 1] [] (choice 1 .created) _ _
      rfl rfl rfl) trivial
    |>.step (@Step.advance _ _ _ [sent 2, chosen 2, sent 1] [] (choice 1 (.readHead 0)) _ _
      rfl rfl rfl) trivial
    |>.step (.noneReady rfl (by decide)) trivial

/-- The engine applies the second block and then the first one, and the head goes back. -/
theorem not_monotone_stale_head :
    ¬ ∀ s s', Runs exampleHash exampleNumberOf (EngineAccepts exampleHash exampleNumberOf)
        (.new (exampleProvider 0)) s →
      Runs exampleHash exampleNumberOf (EngineAccepts exampleHash exampleNumberOf) s s' →
      s.provider.bestBlockNumber ≤ s'.provider.bestBlockNumber := by
  intro h
  let payload := exampleFut .newPayload
  let choice := exampleFut .updateForkChoice
  let sent n := payload n (.awaiting (examplePayload n))
  let chosen n := choice n (.awaiting (exampleChoice n))
  let done := Progress.replied (.ok .valid)
  have hrun := runs_both_chosen
    |>.step (@Step.reply _ _ _ [] [chosen 2, sent 1, chosen 1] (sent 2) _ _ _ (.ok .valid)
      rfl rfl rfl .payload) rfl
    |>.step (@Step.reply _ _ _ [payload 2 done] [sent 1, chosen 1] (chosen 2) _ _
      (exampleProvider 2) (.ok .valid) rfl rfl rfl (.forkChoice rfl)) rfl
  have hback := h _ _ hrun <| Runs.refl
    |>.step (@Step.reply _ _ _ [payload 2 done, choice 2 done] [chosen 1] (sent 1) _ _ _
      (.ok .valid) rfl rfl rfl .payload) rfl
    |>.step (@Step.reply _ _ _ [payload 2 done, choice 2 done, payload 1 done] [] (chosen 1) _ _
      (exampleProvider 1) (.ok .valid) rfl rfl rfl (.forkChoice rfl)) rfl
  exact absurd (show 2 ≤ 1 from hback) (by decide)

end ImportService

end RethHl
