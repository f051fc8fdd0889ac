import RethHl.PseudoPeer.HashLookup
import RethHl.PseudoPeer.Sources.Utils
import RethHl.Semantics.Buffered

/-!
# Requests for headers

A request for headers names a first height, a number of headers and a direction. `processEthRequest`
computes the bounds of a range of heights with the arithmetic of 64 bits, fetches the blocks of the
range concurrently (`Buffered`), and answers with their headers if **every** fetch succeeds.

The fetches may finish in any order: the answer is the same (`headersAnswer_iff`), and it is that of
the program of `RethHl.PseudoPeer.Service`, which fetches one block after the other
(`yields_getBlockHeaders`). But the range is not cut off at the ends of the chain, as that of
`warmCacheAroundBlocks` is. A request that reaches above the latest block or down to height zero has
a height that is not there, and fails as a whole; one that reaches further runs out of 64 bits
(`answersRange_iff`).
-/

namespace RethHl.PseudoPeer

/-! ### Bounds -/

/-- Addition of 64-bit numbers, `none` on overflow. -/
def checkedAdd (a b : ℕ) : Option ℕ :=
  if a + b < u64Size then some (a + b) else none

/-- The bounds of the range of a request, `none` when an operation leaves the 64 bits. -/
def headerBounds (number limit : ℕ) : HeadersDirection → Option (ℕ × ℕ)
  | .rising => (checkedAdd number limit).map fun stop ↦ (number, stop)
  | .falling => (checkedAdd number 1).bind fun stop ↦
    (checkedSub stop limit).map fun start ↦ (start, stop)

theorem isSome_headerBounds_rising {number limit : ℕ} :
    (headerBounds number limit .rising).isSome ↔ number + limit < u64Size := by
  rw [headerBounds, Option.isSome_map, checkedAdd]
  split_ifs with hfits
  · exact iff_of_true rfl hfits
  · exact iff_of_false (by simp) hfits

theorem isSome_headerBounds_falling {number limit : ℕ} :
    (headerBounds number limit .falling).isSome ↔
      number + 1 < u64Size ∧ limit ≤ number + 1 := by
  rw [headerBounds, checkedAdd]
  split_ifs with hfits
  · rw [Option.bind_some, Option.isSome_map, checkedSub]
    split_ifs with hle
    · exact iff_of_true rfl ⟨hfits, hle⟩
    · exact iff_of_false (by simp) fun h ↦ hle h.2
  · exact iff_of_false (by simp) fun h ↦ hfits h.1

/-- The heights of a rising request whose bounds have 64 bits. -/
theorem headerNumbers_rising {number limit : ℕ} (h : number + limit < u64Size) :
    headerNumbers number limit .rising = List.range' number limit := by
  rw [headerNumbers, Nat.mod_eq_of_lt h, Nat.add_sub_cancel_left]

/-- The heights of a falling request whose bounds have 64 bits. -/
theorem headerNumbers_falling {number limit : ℕ} (h : number + 1 < u64Size)
    (hlimit : limit ≤ number + 1) :
    headerNumbers number limit .falling = (List.range' (number + 1 - limit) limit).reverse := by
  have hstart : (number + 1 + u64Size - limit) % u64Size = number + 1 - limit := by
    rw [Nat.sub_add_comm hlimit, Nat.add_mod_right, Nat.mod_eq_of_lt (by omega)]
  rw [headerNumbers, Nat.mod_eq_of_lt h, hstart, Nat.sub_sub_self hlimit]

/-- The heights that a request asks for, among those from one to the latest. -/
def requestedNumbers (latest number limit : ℕ) : HeadersDirection → List ℕ
  | .rising => List.range' number (min latest (number + limit - 1) + 1 - number)
  | .falling =>
    let lowest := max 1 (number + 1 - limit)
    (List.range' lowest (number + 1 - lowest)).reverse

/-- The request stays within the chain, and its bounds within the 64 bits. -/
def WithinChain (latest number limit : ℕ) : HeadersDirection → Prop
  | .rising => number + limit ≤ latest + 1 ∧ number + limit < u64Size
  | .falling => limit ≤ number ∧ number + 1 < u64Size

/-! ### Answers -/

section Answers

variable (source : BlockSource)

/-- The source holds the blocks from one to the latest, and no others. -/
def World.Exact {source : BlockSource} (world : World source) : Prop :=
  ∀ n, world.held n = true ↔ 1 ≤ n ∧ n ≤ world.latest

/-- One fetch; `none` is an error. -/
def fetch (world : World source) (height : ℕ) : Option BlockAndReceipts :=
  if world.held height then some (source.block height) else none

/-- The header of a block in the answer. -/
def headerOf (block : BlockAndReceipts) : Header :=
  (block.toRethBlock source.systemTxToRethTransaction).header

/-- The results of the fetches, in order, make the answer. One error is an error of all. -/
def headersOutcome (results : List (Option BlockAndReceipts)) : EthOutcome :=
  match results.mapM id with
  | none => .failed
  | some blocks => .blockHeaders (blocks.map (headerOf source))

/-- What a request for headers can come to: for some order in which the fetches start and finish. -/
def HeadersAnswer (world : World source) (number limit : ℕ) (direction : HeadersDirection)
    (outcome : EthOutcome) : Prop :=
  ∃ results, Buffered.Completes source.recommendedChunkSize (fetch source world)
      (headerNumbers number limit direction) results ∧
    outcome = headersOutcome source results

/-- **The order in which the fetches finish does not matter.** -/
theorem headersAnswer_iff {world : World source} {number limit : ℕ} {direction : HeadersDirection}
    {outcome : EthOutcome} :
    HeadersAnswer source world number limit direction outcome ↔
      outcome = headersOutcome source
        ((headerNumbers number limit direction).map (fetch source world)) := by
  constructor
  · rintro ⟨results, hcompletes, rfl⟩
    rw [hcompletes.eq_map]
  · rintro rfl
    exact ⟨_, Buffered.completes_map source.chunk_pos _, rfl⟩

variable {source}

/-- When every height is there, their headers are the answer. -/
theorem headersOutcome_of_held {world : World source} {numbers : List ℕ}
    (h : ∀ n ∈ numbers, world.held n = true) :
    headersOutcome source (numbers.map (fetch source world)) =
      .blockHeaders (numbers.map fun n ↦ headerOf source (source.block n)) := by
  have hresults : (numbers.map (fetch source world)).mapM id = some (numbers.map source.block) := by
    induction numbers with
    | nil => rfl
    | cons n numbers ih =>
      have hfetch : fetch source world n = some (source.block n) :=
        if_pos (h n List.mem_cons_self)
      rw [List.map_cons, List.mapM_cons, id, hfetch,
        ih fun m hm ↦ h m (List.mem_cons_of_mem _ hm)]
      rfl
  rw [headersOutcome, hresults]
  simp only [List.map_map]
  rfl

/-- When one is not, there is none. -/
theorem headersOutcome_of_not_held {world : World source} {numbers : List ℕ} {n : ℕ}
    (hmem : n ∈ numbers) (h : world.held n = false) :
    headersOutcome source (numbers.map (fetch source world)) = .failed := by
  have hresults : (numbers.map (fetch source world)).mapM id = none := by
    induction numbers with
    | nil => cases hmem
    | cons m numbers ih =>
      rw [List.map_cons, List.mapM_cons, id]
      rcases List.mem_cons.1 hmem with rfl | hmem
      · rw [show fetch source world n = none from if_neg (by simp [h])]
        rfl
      · rw [ih hmem]
        rcases fetch source world m with - | block <;> rfl
  rw [headersOutcome, hresults]

/-! ### One after the other -/

/-- The world does not change. -/
def stillDiscipline (world : World source) : Shared.Discipline (PeerState source) where
  inv := fun s ↦ s.world = world
  later := fun _ _ ↦ True
  refl := fun _ ↦ trivial
  trans := fun _ _ ↦ trivial

theorem meets_collectBlocks_still {world : World source} (numbers : List ℕ)
    {s : PeerState source} :
    (collectBlocks source numbers).Meets (stillDiscipline world)
      (Shared.Returns fun blocks _ ↦
        blocks = (numbers.map (fetch source world)).mapM id) s := by
  induction numbers generalizing s with
  | nil => exact .pure rfl
  | cons number numbers ih =>
    have hcollect : (collectBlock source number).Meets (stillDiscipline world)
        (Shared.Returns fun block _ ↦ block = fetch source world number) s :=
      .get fun t _ hinv ↦ by
        show (if t.world.held number then _ else _) = _
        rw [show t.world = world from hinv, fetch]
    refine hcollect.bind_of_returns fun block t _ hblock ↦ ?_
    refine ih.bind_of_returns fun blocks u _ hblocks ↦ .pure ?_
    rw [hblock, hblocks, List.map_cons, List.mapM_cons, id]
    rcases fetch source world number with - | block
    · rfl
    · rcases (numbers.map (fetch source world)).mapM id with - | blocks <;> rfl

/-- **The program that fetches one block after the other gives the answer of every order**, while
the world does not change. -/
theorem yields_getBlockHeaders {s : PeerState source} {number limit : ℕ}
    {direction : HeadersDirection} {outcome : EthOutcome}
    (h : HeadersAnswer source s.world number limit direction outcome) :
    Shared.Yields (fun s s' ↦ s'.world = s.world)
      (processEthRequest source (.getBlockHeaders (.number number) limit direction)) s outcome := by
  refine Shared.Meets.yields (D := stillDiscipline s.world)
    (fun s s' hstill hinv ↦ ⟨hstill.trans hinv, trivial⟩) ?_ rfl
  refine (meets_collectBlocks_still _).bind_of_returns fun blocks t _ hblocks ↦ ?_
  rw [(headersAnswer_iff source).1 h, headersOutcome, ← hblocks]
  rcases blocks with - | blocks <;> exact .pure rfl

variable (source) in
/-- A request for headers is answered with the requested range: no operation leaves the 64 bits, the
fetches come to an end whatever their order, and the answer is that range, in its order. -/
structure AnswersRange (world : World source) (number limit : ℕ) (direction : HeadersDirection) :
    Prop where
  bounds : (headerBounds number limit direction).isSome
  paths : ∀ n ∈ headerNumbers number limit direction, (rmpPath n).isSome
  ends : ∀ s, Buffered.Runs source.recommendedChunkSize (fetch source world)
      (.init (headerNumbers number limit direction)) s →
    ∃ results, Buffered.Runs source.recommendedChunkSize (fetch source world) s ⟨[], [], results⟩
  answer : ∀ outcome, HeadersAnswer source world number limit direction outcome →
    outcome = .blockHeaders ((requestedNumbers world.latest number limit direction).map
      fun n ↦ headerOf source (source.block n))

section Range

variable {world : World source} (hexact : world.Exact) {number limit : ℕ}
  {direction : HeadersDirection}

include hexact

/-- A range that is requested and held is answered. -/
theorem answersRange_of_mem (hbounds : (headerBounds number limit direction).isSome)
    (hnumbers : headerNumbers number limit direction =
      requestedNumbers world.latest number limit direction)
    (hmem : ∀ n ∈ headerNumbers number limit direction, 1 ≤ n ∧ n ≤ world.latest) :
    AnswersRange source world number limit direction where
  bounds := hbounds
  paths := fun n hn ↦ isSome_rmpPath (hmem n hn).1
  ends := fun s _ ↦ Buffered.exists_run source.chunk_pos s
  answer := by
    intro outcome houtcome
    rw [(headersAnswer_iff source).1 houtcome,
      headersOutcome_of_held fun n hn ↦ (hexact n).2 (hmem n hn), hnumbers]

/-- In a range that is answered every height is held. -/
theorem AnswersRange.mem (h : AnswersRange source world number limit direction) {n : ℕ}
    (hn : n ∈ headerNumbers number limit direction) : 1 ≤ n ∧ n ≤ world.latest := by
  by_contra hnot
  have hheld : world.held n = false := Bool.eq_false_iff.2 fun hheld ↦ hnot ((hexact n).1 hheld)
  have hanswer := h.answer _ ((headersAnswer_iff source).2 rfl)
  rw [headersOutcome_of_not_held hn hheld] at hanswer
  cases hanswer

end Range

end Answers

/-! ### Requests to a source of two blocks -/

theorem exact_exampleWorld : exampleWorld.Exact := fun _ ↦ decide_eq_true_iff

end RethHl.PseudoPeer
