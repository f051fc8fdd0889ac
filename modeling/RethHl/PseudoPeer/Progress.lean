import RethHl.Node.RethCompat
import RethHl.PseudoPeer.Feed

/-!
# The poller is never stuck

Between the task, the channel and the network manager nobody waits for somebody who waits. When the
task waits for room, the network manager can take a block out; when it sleeps after an error, it
wakes up and asks for the same height again. So from every state in which the poller is at work it
can go on to announce all heights that the source holds (`pipeline_progress`), and it needs nobody
else for it: the main loop may be busy with a request the whole time.

Two things on the way of a block can stop the network manager in its poll. The conversion of the
system transactions may panic or look for a token forever, and a total difficulty of more than 128
bits is a panic. A `ConvertingStep` takes the conversion as the node makes it, with the shared map
of tokens, and the result assumes of the blocks that the source holds that their conversions return
and their difficulties fit.
-/

namespace RethHl.PseudoPeer

namespace Pipeline

/-- The poller is at work and has put a number of blocks into the channel. -/
structure Going {source : BlockSource} (s : Pipeline source) (start count : ℕ) : Prop where
  entries : ∀ entry ∈ s.poller.blockTx.queue, BlockPoller.Holds s.peer.world entry
  sending : ∀ n block, s.poller.task = .sending n block →
    BlockPoller.Holds s.peer.world (n, block)
  receiver : s.poller.blockTx.receiver = true
  next : s.poller.task.nextBlockNumber = some ((start + count) % u64Size)
  fed_eq : s.poller.fed source = source.feed start count

end Pipeline

/-! ### Polls that convert -/

/-- The conversion of a block returns the block that the source takes it for, and a map of tokens
for the next conversion. -/
def BlockSource.Converts (source : BlockSource) (post : String → ℕ → Except String SpotMeta)
    (chainId : ℕ) (block : BlockAndReceipts) (tokens tokens' : EvmMap) : Prop :=
  SpotM.Returns (fun fuel ↦ block.block.sealed.toRethBlock post chainId fuel
    block.readPrecompileCalls block.highestPrecompileAddress block.systemTxs) tokens
    (block.toRethBlock source.systemTxToRethTransaction) tokens'

section Converting

variable {source : BlockSource} (post : String → ℕ → Except String SpotMeta) (chainId : ℕ)

/-- A move with the map of tokens. A poll comes through only if the conversion of its block
returns. -/
inductive ConvertingStep : Pipeline source × EvmMap → Pipeline source × EvmMap → Prop
  | act {s s' : Pipeline source} {tokens : EvmMap} (action : PipelineAction)
      (hne : action ≠ .poll) (h : s.act action = some s') :
      ConvertingStep (s, tokens) (s', tokens)
  | poll {s s' : Pipeline source} {tokens tokens' : EvmMap} {entry : ℕ × BlockAndReceipts}
      {rest : List (ℕ × BlockAndReceipts)} (hqueue : s.poller.blockTx.queue = entry :: rest)
      (hconverts : source.Converts post chainId entry.2 tokens tokens')
      (h : s.act .poll = some s') : ConvertingStep (s, tokens) (s', tokens')

/-- The poller goes on: the main loop does not move, and the source holds what it did. -/
structure Advances (c c' : Pipeline source × EvmMap) : Prop where
  runs : Relation.ReflTransGen (ConvertingStep post chainId) c c'
  world : c'.1.peer.world = c.1.peer.world
  request : c'.1.request = c.1.request
  startTx : c'.1.startTx = c.1.startTx

variable {post chainId} {c c' c'' : Pipeline source × EvmMap}

theorem Advances.refl : Advances post chainId c c :=
  ⟨.refl, rfl, rfl, rfl⟩

theorem Advances.trans (h : Advances post chainId c c') (h' : Advances post chainId c' c'') :
    Advances post chainId c c'' :=
  ⟨h.runs.trans h'.runs, h'.world.trans h.world, h'.request.trans h.request,
    h'.startTx.trans h.startTx⟩

/-- An action of the poller besides a poll. -/
theorem Advances.of_act {s s' : Pipeline source} {tokens : EvmMap} (action : PipelineAction)
    (hne : action ≠ .poll) (h : s.act action = some s') (hworld : s'.peer.world = s.peer.world)
    (hrequest : s'.request = s.request) (hstartTx : s'.startTx = s.startTx) :
    Advances post chainId (s, tokens) (s', tokens) :=
  ⟨.single (.act action hne h), hworld, hrequest, hstartTx⟩

/-- It is a run of the pipeline. -/
theorem Advances.pipelineRuns (h : Advances post chainId c c') :
    PipelineRuns source c.1 c'.1 := by
  refine h.runs.lift Prod.fst fun c c' hstep ↦ ?_
  cases hstep with
  | act action _ h => exact .act action h
  | poll _ _ h => exact .act .poll h

variable (source post chainId) in
/-- The blocks that a world holds come through a poll: their difficulties fit, and from every map of
some kind their conversions return and leave a map of that kind. -/
structure ComesThrough (world : World source) (kind : EvmMap → Prop) : Prop where
  fits : ∀ n, world.held n = true → TdFits (source.block n)
  converts : ∀ n, world.held n = true → ∀ tokens, kind tokens →
    ∃ tokens', kind tokens' ∧ source.Converts post chainId (source.block n) tokens tokens'

end Converting

namespace Pipeline

section Progress

variable {source : BlockSource} {post : String → ℕ → Except String SpotMeta} {chainId : ℕ}
  {kind : EvmMap → Prop} {tokens : EvmMap}

variable {s : Pipeline source} {start count : ℕ}

/-- The next block of the channel is announced. -/
theorem Going.poll (hgoing : s.Going start count)
    (hcomes : ComesThrough source post chainId s.peer.world kind) (htokens : kind tokens)
    (hqueue : s.poller.blockTx.queue ≠ []) :
    ∃ s' tokens', Advances post chainId (s, tokens) (s', tokens') ∧ kind tokens' ∧
      s'.Going start count ∧
      s'.poller.blockTx.queue.length < s.poller.blockTx.queue.length := by
  obtain ⟨entry, blockTx, hpop⟩ := Channel.exists_pop hqueue
  obtain ⟨hcons, -, hreceiver⟩ := Channel.pop_eq_some hpop
  obtain ⟨hblock, hheld⟩ := hgoing.entries entry (hcons ▸ List.mem_cons_self)
  obtain ⟨tokens', htokens', hconverts⟩ := hcomes.converts _ hheld tokens htokens
  have hfits : TdFits entry.2 := hblock ▸ hcomes.fits _ hheld
  let poller : BlockPoller := { s.poller with
    blockTx := blockTx
    announced := s.poller.announced ++ [source.announcement entry.2] }
  have hpoll : s.poller.poll source =
      some (((source.announcement entry.2).hash, entry.1), poller) := by
    rw [BlockPoller.poll, hpop, Option.map_some]
    simp only [if_pos hfits]
    rfl
  have hact : s.act .poll = some { s with
      peer := { s.peer with
        blockhashCache := s.peer.blockhashCache.insert (source.announcement entry.2).hash entry.1 }
      poller := poller } := by
    rw [act, if_pos hgoing.receiver, Pipeline.poll, hpoll]
    rfl
  have hstep : ConvertingStep post chainId (s, tokens) (_, tokens') :=
    .poll hcons (hblock ▸ hconverts) hact
  refine ⟨_, tokens', ⟨.single hstep, rfl, rfl, rfl⟩, htokens', ?_, ?_⟩
  · refine ⟨fun e he ↦ ?_, hgoing.sending, hreceiver.trans hgoing.receiver, hgoing.next, ?_⟩
    · exact hgoing.entries e (hcons ▸ List.mem_cons_of_mem _ he)
    · rw [← hgoing.fed_eq, BlockPoller.fed, BlockPoller.fed, hcons, List.map_cons]
      exact List.append_assoc _ _ _
  · rw [hcons]
    exact Nat.lt_succ_self _

/-- All blocks of the channel are announced. -/
theorem Going.drain (hgoing : s.Going start count)
    (hcomes : ComesThrough source post chainId s.peer.world kind) (htokens : kind tokens) :
    ∃ s' tokens', Advances post chainId (s, tokens) (s', tokens') ∧ kind tokens' ∧
      s'.Going start count ∧ s'.poller.blockTx.queue = [] := by
  -- by the number of blocks in the channel
  induction hlength : s.poller.blockTx.queue.length using Nat.strong_induction_on
    generalizing s tokens with
  | _ length ih =>
    by_cases hqueue : s.poller.blockTx.queue = []
    · exact ⟨s, tokens, .refl, htokens, hgoing, hqueue⟩
    · obtain ⟨s₁, tokens₁, hadvances, htokens₁, hgoing₁, hlt⟩ :=
        hgoing.poll hcomes htokens hqueue
      obtain ⟨s₂, tokens₂, hadvances', htokens₂, hgoing₂, hempty⟩ :=
        ih _ (hlength ▸ hlt) hgoing₁ (hadvances.world ▸ hcomes) htokens₁ rfl
      exact ⟨s₂, tokens₂, hadvances.trans hadvances', htokens₂, hgoing₂, hempty⟩

/-- The pipeline with the task elsewhere. -/
def withTask {source : BlockSource} (s : Pipeline source) (task : PollerTask) : Pipeline source :=
  { s with poller := { s.poller with task := task } }

/-- The task moves within its height. -/
theorem Going.withTask (hgoing : s.Going start count) {task : PollerTask}
    (hnext : task.nextBlockNumber = some ((start + count) % u64Size))
    (hsending : ∀ n block, task = .sending n block →
      BlockPoller.Holds s.peer.world (n, block)) : (s.withTask task).Going start count :=
  ⟨hgoing.entries, hsending, hgoing.receiver, hnext, hgoing.fed_eq⟩

/-- The task that asks the source gets the block. -/
theorem Going.collect (hgoing : s.Going start count) {n : ℕ}
    (htask : s.poller.task = .collecting n) (hheld : s.peer.world.held n = true) :
    ∃ s', Advances post chainId (s, tokens) (s', tokens) ∧ s'.Going start count ∧
      s'.poller.blockTx = s.poller.blockTx ∧ ∃ block, s'.poller.task = .sending n block := by
  have hnext : some n = some ((start + count) % u64Size) := by
    rw [← hgoing.next, htask]
    rfl
  have hact : s.act (.collect true) = some (s.withTask (.sending n (source.block n))) := by
    rw [act, htask]
    show s.collect n true = _
    rw [Pipeline.collect, if_pos rfl, if_pos hheld]
    rfl
  refine ⟨_, .of_act _ (by decide) hact rfl rfl rfl, hgoing.withTask hnext fun m block hm ↦ ?_,
    rfl, _, rfl⟩
  obtain ⟨rfl, rfl⟩ := PollerTask.sending.inj hm
  exact ⟨rfl, hheld⟩

/-- Whatever the task does, it comes to send the block of its height. -/
theorem Going.fetch (hgoing : s.Going start count)
    (hheld : s.peer.world.held ((start + count) % u64Size) = true) :
    ∃ s', Advances post chainId (s, tokens) (s', tokens) ∧ s'.Going start count ∧
      s'.poller.blockTx = s.poller.blockTx ∧
      ∃ block, s'.poller.task = .sending ((start + count) % u64Size) block := by
  have hnext := hgoing.next
  cases htask : s.poller.task with
  | suspended =>
    rw [htask] at hnext
    cases hnext
  | starting =>
    rw [htask] at hnext
    cases hnext
  | ended error =>
    rw [htask] at hnext
    cases hnext
  | collecting n =>
    rw [htask] at hnext
    obtain rfl := Option.some.inj hnext
    exact hgoing.collect htask hheld
  | sleeping n =>
    rw [htask] at hnext
    -- it wakes up and asks again
    have hact : s.act .wake = some (s.withTask (.collecting n)) := by
      rw [act, htask]
      rfl
    have hwake : (s.withTask (.collecting n)).Going start count :=
      hgoing.withTask hnext fun m block hm ↦ by cases hm
    obtain rfl := Option.some.inj hnext
    obtain ⟨s', hadvances, hgoing', hsending⟩ := hwake.collect rfl hheld
    exact ⟨s', .trans (.of_act _ (by decide) hact rfl rfl rfl) hadvances, hgoing', hsending⟩
  | sending n block =>
    rw [htask] at hnext
    obtain rfl := Option.some.inj hnext
    exact ⟨s, .refl, hgoing, rfl, block, htask⟩

/-- There is room for the block. -/
theorem Going.send (hgoing : s.Going start count) {n : ℕ} {block : BlockAndReceipts}
    (htask : s.poller.task = .sending n block) (hempty : s.poller.blockTx.queue = []) :
    ∃ s', Advances post chainId (s, tokens) (s', tokens) ∧ s'.Going start (count + 1) := by
  obtain ⟨blockTx, hpush⟩ : ∃ blockTx, s.poller.blockTx.push (n, block) = some blockTx := by
    refine Channel.exists_push hgoing.receiver ?_ _
    rw [hempty]
    decide
  obtain ⟨hqueue, -, hreceiver⟩ := Channel.push_eq_some hpush
  obtain ⟨hblock, hheld⟩ := hgoing.sending n block htask
  have hn : n = (start + count) % u64Size := by
    have := hgoing.next
    rw [htask] at this
    exact Option.some.inj this
  let poller : BlockPoller := { s.poller with
    blockTx := blockTx
    task := .collecting ((n + 1) % u64Size) }
  have hact : s.act .send = some { s with poller := poller } := by
    rw [act, htask]
    show s.send n block = _
    rw [Pipeline.send, if_neg (by rw [hgoing.receiver]; decide), BlockPoller.send, hpush]
    rfl
  refine ⟨_, .of_act _ (by decide) hact rfl rfl rfl, fun entry hentry ↦ ?_, fun m b hm ↦ ?_, ?_, ?_,
    ?_⟩
  · rw [hqueue, hempty] at hentry
    obtain rfl := List.mem_singleton.1 hentry
    exact ⟨hblock, hheld⟩
  · cases hm
  · exact hreceiver.trans hgoing.receiver
  · show some ((n + 1) % u64Size) = _
    rw [hn, Nat.mod_add_mod, Nat.add_assoc]
  · rw [BlockSource.feed_succ, ← hgoing.fed_eq, ← hn, BlockPoller.fed, BlockPoller.fed, hqueue,
      List.map_append, ← List.append_assoc, show block = source.block n from hblock]
    rfl

/-- **One more block** goes into the channel. -/
theorem Going.succ (hgoing : s.Going start count)
    (hcomes : ComesThrough source post chainId s.peer.world kind) (htokens : kind tokens)
    (hheld : s.peer.world.held ((start + count) % u64Size) = true) :
    ∃ s' tokens', Advances post chainId (s, tokens) (s', tokens') ∧ kind tokens' ∧
      s'.Going start (count + 1) := by
  obtain ⟨s₁, tokens₁, hdrain, htokens₁, hgoing₁, hempty⟩ := hgoing.drain hcomes htokens
  obtain ⟨s₂, hfetch, hgoing₂, hsame, block, htask⟩ := hgoing₁.fetch (hdrain.world ▸ hheld)
  obtain ⟨s₃, hsend, hgoing₃⟩ := hgoing₂.send htask (hsame ▸ hempty)
  exact ⟨s₃, tokens₁, (hdrain.trans hfetch).trans hsend, htokens₁, hgoing₃⟩

/-- The blocks that the source holds, one after the other. -/
theorem Going.add (hgoing : s.Going start count)
    (hcomes : ComesThrough source post chainId s.peer.world kind) (htokens : kind tokens) (more : ℕ)
    (hheld : ∀ i < more, s.peer.world.held ((start + (count + i)) % u64Size) = true) :
    ∃ s' tokens', Advances post chainId (s, tokens) (s', tokens') ∧ kind tokens' ∧
      s'.Going start (count + more) := by
  induction more with
  | zero => exact ⟨s, tokens, .refl, htokens, hgoing⟩
  | succ more ih =>
    obtain ⟨s₁, tokens₁, hadvances, htokens₁, hgoing₁⟩ :=
      ih fun i hi ↦ hheld i (Nat.lt_succ_of_lt hi)
    obtain ⟨s₂, tokens₂, hadvances', htokens₂, hgoing₂⟩ :=
      hgoing₁.succ (hadvances.world ▸ hcomes) htokens₁
        (hadvances.world ▸ hheld more (Nat.lt_succ_self _))
    exact ⟨s₂, tokens₂, hadvances.trans hadvances', htokens₂, hgoing₂⟩

/-- A poller that has started and not ended is at work. -/
theorem Inv.going (hinv : s.Inv) (hfound : s.poller.found = some start)
    (htask : ∀ error, s.poller.task ≠ .ended error)
    (hreceiver : s.poller.blockTx.receiver = true) : ∃ count, s.Going start count := by
  obtain ⟨count, hfed⟩ := hinv.poller.found start hfound
  refine ⟨count, hinv.poller.entries, hinv.poller.sending, hreceiver, ?_,
    hfed.complete hreceiver⟩
  -- the task is not before its start
  have hearly : s.poller.task.early ≠ true := by
    intro hearly
    rw [hinv.poller.early hearly] at hfound
    cases hfound
  have hnext := hfed.next
  cases hcase : s.poller.task with
  | suspended =>
    rw [hcase] at hearly
    exact absurd rfl hearly
  | starting =>
    rw [hcase] at hearly
    exact absurd rfl hearly
  | collecting n =>
    rw [hcase] at hnext
    exact congrArg some (hnext n rfl)
  | sleeping n =>
    rw [hcase] at hnext
    exact congrArg some (hnext n rfl)
  | sending n block =>
    rw [hcase] at hnext
    exact congrArg some (hnext n rfl)
  | ended error => exact absurd hcase (htask error)

end Progress

end Pipeline

theorem BlockSource.feed_prefix (source : BlockSource) (start : ℕ) {count count' : ℕ}
    (h : count ≤ count') : source.feed start count <+: source.feed start count' := by
  induction count', h using Nat.le_induction with
  | base => exact List.prefix_rfl
  | succ count' _ ih =>
    rw [feed_succ]
    exact ih.trans (List.prefix_append _ _)

/-- **The poller is never stuck.** From every reachable state in which it is at work, whatever
happened before, it can announce all heights that the source holds from its start on, with no help
of the main loop, if the blocks that the source holds come through a poll. -/
theorem pipeline_progress {source : BlockSource} (world : World source) {s : Pipeline source}
    (h : PipelineRuns source (.new world) s) {start count : ℕ}
    (hfound : s.poller.found = some start) (htask : ∀ error, s.poller.task ≠ .ended error)
    (hreceiver : s.poller.blockTx.receiver = true)
    {post : String → ℕ → Except String SpotMeta} {chainId : ℕ} {kind : EvmMap → Prop}
    (hcomes : ComesThrough source post chainId s.peer.world kind) {tokens : EvmMap}
    (htokens : kind tokens)
    (hheld : ∀ i < count, s.peer.world.held ((start + i) % u64Size) = true) :
    ∃ s' tokens', Advances post chainId (s, tokens) (s', tokens') ∧ PipelineRuns source s s' ∧
      source.feed start count <+: s'.poller.announced := by
  obtain ⟨count₀, hgoing⟩ := ((Pipeline.inv_new world).runs h).going hfound htask hreceiver
  -- the blocks that are missing, and then whatever the channel holds
  obtain ⟨s₁, tokens₁, hadvances, htokens₁, hgoing₁⟩ :=
    hgoing.add hcomes htokens (count - count₀) fun i hi ↦ hheld (count₀ + i) (by omega)
  obtain ⟨s₂, tokens₂, hdrain, -, hgoing₂, hempty⟩ :=
    hgoing₁.drain (hadvances.world ▸ hcomes) htokens₁
  have hall := hadvances.trans hdrain
  refine ⟨s₂, tokens₂, hall, hall.pipelineRuns, ?_⟩
  have hfed := hgoing₂.fed_eq
  rw [BlockPoller.fed, hempty, List.map_nil, List.append_nil] at hfed
  rw [hfed]
  exact source.feed_prefix start (by omega)

/-- The blocks of the example come through a poll: they have no system transactions. -/
theorem comesThrough_exampleSource (post : String → ℕ → Except String SpotMeta) (chainId : ℕ)
    (world : World exampleSource) :
    ComesThrough exampleSource post chainId world (· = emptyEvmMap) where
  fits := by
    intro n _
    rw [TdFits, show exampleSource.block n = exampleSourceBlock n from rfl,
      header_exampleSourceBlock]
    exact Nat.two_pow_pos 128
  converts := by
    rintro n - _ rfl
    refine ⟨emptyEvmMap, rfl, ?_⟩
    exact @returns_toRethBlock_of_listed post chainId (exampleSource.block n)
      (fun _ h ↦ absurd h List.not_mem_nil) _ fun _ h ↦ absurd h List.not_mem_nil

/-- A poller that sleeps after an error of the source announces the block all the same. -/
theorem pipeline_progress_example : ∃ s s' : Pipeline exampleSource,
    s.poller.task = .sleeping 2 ∧ PipelineRuns exampleSource s s' ∧
      exampleSource.feed 2 1 <+: s'.poller.announced := by
  have hrun : (Machine.run Pipeline.act (.new exampleWorld) (exampleActions.take 4)).map
      (fun s ↦ (s.poller.task, s.poller.found, s.poller.blockTx.receiver, s.peer.world)) =
        some (.sleeping 2, some 2, true, exampleWorld) :=
    rfl
  obtain ⟨s, hrun, heq⟩ := Option.map_eq_some_iff.1 hrun
  simp only [Prod.mk.injEq] at heq
  obtain ⟨htask, hfound, hreceiver, hworld⟩ := heq
  have hheld : ∀ i < 1, s.peer.world.held ((2 + i) % u64Size) = true := by
    intro i hi
    obtain rfl := Nat.lt_one_iff.1 hi
    rw [hworld]
    decide
  have hcomes := comesThrough_exampleSource (fun _ _ ↦ .error "offline") mainnetChainId s.peer.world
  obtain ⟨s', -, -, hruns, hfeed⟩ := pipeline_progress exampleWorld (pipelineRuns_of_run hrun)
    hfound (fun error ↦ by rw [htask]; exact nofun) hreceiver hcomes
    (rfl : emptyEvmMap = emptyEvmMap) hheld
  exact ⟨s, s', htask, hruns, hfeed⟩

end RethHl.PseudoPeer
