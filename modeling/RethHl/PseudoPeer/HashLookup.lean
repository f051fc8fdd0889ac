import RethHl.PseudoPeer.Service

/-!
# The lookup of hashes

Everybody who writes to the cache of hashes writes pairs of a block's hash and its height, which is
a one-to-one relation, so the cache holds nothing else (`hashDiscipline`). The order of the
discipline is that the source only grows, so a height that was in reach stays in reach.

Under it each part of the lookup has a specification that holds at every moment between the actions
of others. **A lookup never returns a wrong height**, and for a block of the source it returns the
height at the latest in its first pass: the chunks of a pass cover all heights (`exists_chunk`), and
within the chunk of the block its height is either cached, with the right hash, or collected
(`meets_tryBlockRangeForHash`).

`hash_lookup` collects this for every reachable state of the peer.
-/

namespace RethHl.PseudoPeer

open Shared (Returns)

/-- Every `step`-th element is at a multiple of `step`. -/
theorem mem_stepBy {α : Type} {step : ℕ} {l : List α} {x : α} :
    x ∈ stepBy step l ↔ ∃ i, l[i]? = some x ∧ i % step = 0 := by
  rw [stepBy, List.mem_map]
  constructor
  · rintro ⟨⟨y, i⟩, hmem, rfl⟩
    obtain ⟨hmem, hi⟩ := List.mem_filter.1 hmem
    exact ⟨i, List.mem_zipIdx_iff_getElem?.1 hmem, of_decide_eq_true hi⟩
  · rintro ⟨i, hget, hi⟩
    exact ⟨(x, i), List.mem_filter.2 ⟨List.mem_zipIdx_iff_getElem?.2 hget, decide_eq_true hi⟩, rfl⟩

theorem getElem?_reverse_range' {latest i x : ℕ} :
    (List.range' 1 latest).reverse[i]? = some x ↔ i < latest ∧ x = latest - i := by
  rw [List.getElem?_eq_some_iff]
  simp only [List.length_reverse, List.length_range', List.getElem_reverse, List.getElem_range']
  constructor
  · rintro ⟨hi, hx⟩
    exact ⟨hi, by omega⟩
  · rintro ⟨hi, hx⟩
    exact ⟨hi, by omega⟩

section Lookup

variable {source : BlockSource}

theorem BlockSource.IsHash.left {hash hash' : B256} {n : ℕ} (h : source.IsHash hash n)
    (h' : source.IsHash hash' n) : hash = hash' :=
  h.2.symm.trans h'.2

theorem BlockSource.IsHash.right {hash : B256} {n n' : ℕ} (h : source.IsHash hash n)
    (h' : source.IsHash hash n') : n = n' :=
  source.hash_injective n n' h.1 h'.1 (h.2.trans h'.2.symm)

/-- The last height of a chunk is a height of the source. -/
theorem chunkEnds_le {latest : ℕ} {chunk : ℕ × ℕ} (h : chunk ∈ chunkEnds source latest) :
    chunk.1 ≤ latest := by
  have hmem : chunk.1 ∈ stepBy source.recommendedChunkSize (List.range' 1 latest).reverse := by
    rw [← List.zipIdx_map_fst 0 (stepBy _ _)]
    exact List.mem_map_of_mem h
  obtain ⟨i, hget, -⟩ := mem_stepBy.1 hmem
  obtain ⟨-, hx⟩ := getElem?_reverse_range'.1 hget
  omega

/-- **The chunks of a pass cover all heights.** -/
theorem exists_chunk {latest n : ℕ} (hn : 1 ≤ n) (hle : n ≤ latest) :
    ∃ chunk ∈ chunkEnds source latest,
      max (chunk.1 - source.recommendedChunkSize) 1 ≤ n ∧ n ≤ chunk.1 := by
  set size := source.recommendedChunkSize with hsize
  have hpos : 0 < size := source.chunk_pos
  -- the chunk is found by counting whole chunks down from the latest height
  have hdiv := Nat.div_add_mod (latest - n) size
  have hmod := Nat.mod_lt (latest - n) hpos
  have hmem : latest - size * ((latest - n) / size) ∈
      stepBy size (List.range' 1 latest).reverse := by
    refine mem_stepBy.2 ⟨size * ((latest - n) / size), ?_, Nat.mul_mod_right _ _⟩
    exact getElem?_reverse_range'.2 ⟨by omega, rfl⟩
  obtain ⟨i, hi⟩ := List.mem_iff_getElem?.1 hmem
  refine ⟨(_, i), List.mem_zipIdx_iff_getElem?.2 hi, ?_, ?_⟩
  · simp only [Nat.max_le]
    omega
  · simp only
    omega

/-! ### The discipline -/

variable (source) in
/-- The cache holds pairs of a hash and its height, and the peer knows of no height that is not
there; the source grows. -/
def hashDiscipline : Shared.Discipline (PeerState source) where
  inv := fun s ↦ s.blockhashCache.Pairs source.IsHash ∧ s.knownLatestBlockNumber ≤ s.world.latest
  later := fun s s' ↦ s.world.latest ≤ s'.world.latest ∧
    ∀ n, s.world.held n = true → s'.world.held n = true
  refl := fun _ ↦ ⟨Nat.le_refl _, fun _ h ↦ h⟩
  trans := fun h h' ↦ ⟨h.1.trans h'.1, fun n hn ↦ h'.2 n (h.2 n hn)⟩

variable (source) in
/-- The poller announces the hash of the block. -/
theorem isHash_announced {n : ℕ} (hn : n < u64Size) :
    source.IsHash (source.hashSlow
      ((source.block n).toRethBlock source.systemTxToRethTransaction).header) n := by
  rw [toRethBlock_header, ← source.hash_eq]
  exact ⟨hn, rfl⟩

/-- **The environment keeps the discipline.** -/
theorem hashDiscipline_keptBy : (hashDiscipline source).KeptBy (PeerState.Env source) := by
  intro s s' hstep hinv
  obtain ⟨hpairs, hknown⟩ := hinv
  cases hstep with
  | announce hheld =>
    have hpair := isHash_announced source (s.world.held_lt _ hheld)
    exact ⟨⟨hpairs.insert BlockSource.IsHash.left BlockSource.IsHash.right hpair, hknown⟩,
      (hashDiscipline source).refl s⟩
  | evict hash => exact ⟨⟨hpairs.evict hash, hknown⟩, (hashDiscipline source).refl s⟩
  | world hlatest hheld => exact ⟨⟨hpairs, hknown.trans hlatest⟩, hlatest, hheld⟩

/-! ### Collecting and caching -/

variable {s : PeerState source}

/-- Blocks that the source holds are collected, and nothing else is. -/
theorem meets_collectBlocks (numbers : List ℕ) :
    (collectBlocks source numbers).Meets (hashDiscipline source)
      (Returns fun blocks _ ↦ (∀ l ∈ blocks, l = numbers.map source.block) ∧
        ((∀ n ∈ numbers, s.world.held n = true) → blocks = some (numbers.map source.block))) s := by
  induction numbers generalizing s with
  | nil => exact ⟨by simp, fun _ ↦ rfl⟩
  | cons number numbers ih =>
    have hcollect : (collectBlock source number).Meets (hashDiscipline source)
        (Returns fun block _ ↦ (∀ b ∈ block, b = source.block number) ∧
          (s.world.held number = true → block = some (source.block number))) s := by
      refine .get fun t hlater _ ↦ ⟨fun b hb ↦ ?_, fun hheld ↦ if_pos (hlater.2 _ hheld)⟩
      rw [Option.mem_def] at hb
      split_ifs at hb
      exact (Option.some.inj hb).symm
    refine hcollect.bind_of_returns fun block t hlater hblock ↦ ?_
    refine ih.bind_of_returns fun blocks u _ hblocks ↦ .pure ⟨fun l hl ↦ ?_, fun hheld ↦ ?_⟩
    · obtain ⟨b, hb, hl⟩ := Option.bind_eq_some_iff.1 hl
      obtain ⟨bs, hbs, rfl⟩ := Option.map_eq_some_iff.1 hl
      rw [hblock.1 b hb, hblocks.1 bs hbs, List.map_cons]
    · rw [hblock.2 (hheld number List.mem_cons_self),
        hblocks.2 fun n hn ↦ hlater.2 n (hheld n (List.mem_cons_of_mem _ hn))]
      rfl

/-- Pairs of a hash and its height can be cached. -/
theorem meets_cacheBlocks {entries : List (B256 × ℕ)}
    (h : ∀ e ∈ entries, source.IsHash e.1 e.2) :
    (cacheBlocks source entries).Meets (hashDiscipline source) (Returns fun _ _ ↦ True) s := by
  refine .atomic fun t _ hinv ↦ ⟨⟨?_, hinv.2⟩, (hashDiscipline source).refl t, trivial⟩
  exact hinv.1.insertAll BlockSource.IsHash.left BlockSource.IsHash.right h

theorem isHash_of_hashMapGet {entries : List (B256 × ℕ)}
    (h : ∀ e ∈ entries, source.IsHash e.1 e.2) {hash : B256} {n : ℕ}
    (hget : hashMapGet entries hash = some n) : source.IsHash hash n := by
  obtain ⟨l₁, l₂, hl, -⟩ := List.lookup_eq_some_iff.1 hget
  refine h (hash, n) (List.mem_reverse.1 ?_)
  rw [hl]
  simp

/-- A hash whose pair is in a map of such pairs is found with its height. -/
theorem hashMapGet_eq_some {entries : List (B256 × ℕ)}
    (h : ∀ e ∈ entries, source.IsHash e.1 e.2) {hash : B256} {n : ℕ}
    (hmem : (hash, n) ∈ entries) : hashMapGet entries hash = some n := by
  rcases hget : hashMapGet entries hash with - | m
  · have hne := List.lookup_eq_none_iff.1 hget (hash, n) (List.mem_reverse.2 hmem)
    simp at hne
  · rw [(isHash_of_hashMapGet h hget).right (h _ hmem)]

/-- The split of a range: the cached part holds hashes with their heights, and together the parts
are the range. -/
theorem meets_getCachedBlockHashes (startNumber endNumber : ℕ) :
    (getCachedBlockHashes source startNumber endNumber).Meets (hashDiscipline source)
      (Returns fun split _ ↦ (∀ e ∈ split.1, source.IsHash e.1 e.2) ∧
        (∀ n ∈ split.2, startNumber ≤ n ∧ n ≤ endNumber) ∧
        ∀ n, startNumber ≤ n → n ≤ endNumber → n ∈ split.2 ∨ ∃ hash, (hash, n) ∈ split.1) s := by
  refine .get fun t _ hinv ↦ ⟨fun e he ↦ ?_, fun n hn ↦ ?_, fun n hstart hend ↦ ?_⟩
  · obtain ⟨n, -, hn⟩ := List.mem_filterMap.1 he
    obtain ⟨hash, hhash, rfl⟩ := Option.map_eq_some_iff.1 hn
    exact hinv.1.right hhash
  · obtain ⟨h₁, h₂⟩ := List.mem_range'_1.1 (List.mem_of_mem_filter hn)
    exact ⟨h₁, by omega⟩
  · have hmem : n ∈ List.range' startNumber (endNumber + 1 - startNumber) :=
      List.mem_range'_1.2 ⟨hstart, by omega⟩
    rcases hget : t.blockhashCache.getByRight n with - | hash
    · exact Or.inl (List.mem_filter.2 ⟨hmem, by rw [hget]; rfl⟩)
    · refine Or.inr ⟨hash, List.mem_filterMap.2 ⟨n, ?_, by rw [hget]; rfl⟩⟩
      exact List.mem_filter.2 ⟨hmem, by rw [hget]; rfl⟩

/-- **A chunk.** A range of heights of the source is searched without an error and without a wrong
answer, and a block of the range is found. -/
theorem meets_tryBlockRangeForHash {startNumber endNumber : ℕ} (hstart : 1 ≤ startNumber)
    (hend : endNumber ≤ s.world.latest) (targetHash : B256) :
    (tryBlockRangeForHash source startNumber endNumber targetHash).Meets (hashDiscipline source)
      (Returns fun result _ ↦ ∃ found, result = some found ∧
        (∀ n ∈ found, source.IsHash targetHash n) ∧
        ∀ n, startNumber ≤ n → n ≤ endNumber → source.IsHash targetHash n → found = some n) s := by
  refine (meets_getCachedBlockHashes startNumber endNumber).bind_of_returns
    fun split t hlater hsplit ↦ ?_
  obtain ⟨cached, uncached⟩ := split
  obtain ⟨hcached, hrange, hparts⟩ := hsplit
  simp only
  rcases hget : hashMapGet cached targetHash with - | found
  · -- a block of the range whose hash is the target is not cached
    have huncached : ∀ n, startNumber ≤ n → n ≤ endNumber → source.IsHash targetHash n →
        n ∈ uncached := by
      intro n h₁ h₂ hn
      refine (hparts n h₁ h₂).resolve_right ?_
      rintro ⟨hash, hmem⟩
      obtain rfl := hn.left (hcached _ hmem)
      rw [hashMapGet_eq_some hcached hmem] at hget
      cases hget
    split_ifs with hempty
    · refine .pure ⟨none, rfl, by simp, fun n h₁ h₂ hn ↦ ?_⟩
      rw [List.isEmpty_iff.1 hempty] at huncached
      exact absurd (huncached n h₁ h₂ hn) (by simp)
    · refine (meets_collectBlocks uncached).bind_of_returns fun blocks u _ hblocks ↦ ?_
      have hheld : ∀ n ∈ uncached, t.world.held n = true := fun n hn ↦
        t.world.holds n (hstart.trans (hrange n hn).1)
          ((hrange n hn).2.trans (hend.trans hlater.1))
      obtain rfl := hblocks.2 hheld
      simp only
      set blockMap := (uncached.map source.block).map fun block ↦ (block.hash, block.number)
        with hmap
      have hentries : ∀ e ∈ blockMap, source.IsHash e.1 e.2 := by
        intro e he
        obtain ⟨b, hb, rfl⟩ := List.mem_map.1 he
        obtain ⟨n, hn, rfl⟩ := List.mem_map.1 hb
        refine ⟨?_, ?_⟩ <;> simp only [source.number_eq]
        exact t.world.held_lt n (hheld n hn)
      refine (meets_cacheBlocks fun e he ↦ hentries e
        (source.iterate_subset _ he)).bind_of_returns fun _ v _ _ ↦ ?_
      refine .pure ⟨_, rfl, fun n hn ↦ isHash_of_hashMapGet hentries hn, fun n h₁ h₂ hn ↦ ?_⟩
      refine hashMapGet_eq_some hentries (List.mem_map.2 ⟨source.block n, ?_, ?_⟩)
      · exact List.mem_map_of_mem (huncached n h₁ h₂ hn)
      · rw [source.number_eq, hn.2]
  · have hfound := isHash_of_hashMapGet hcached hget
    refine .pure ⟨some found, rfl, ?_, fun n _ _ hn ↦ ?_⟩
    · intro n hn
      obtain rfl := Option.some.inj hn
      exact hfound
    · rw [hfound.right hn]

/-- A warm-up does no harm. -/
theorem meets_warmCacheAroundBlocks (blockNumber chunkSize : ℕ) :
    (warmCacheAroundBlocks source blockNumber chunkSize).Meets (hashDiscipline source)
      (Returns fun _ _ ↦ True) s := by
  have hrange : (Shared.atomic fun s : PeerState source ↦
      let startNumber := max (blockNumber - chunkSize) 1
      let endNumber := min ((blockNumber + chunkSize) % u64Size) s.knownLatestBlockNumber
      ((startNumber, endNumber),
        { s with
          ifHitThenWarmAround :=
            insert endNumber (insert startNumber s.ifHitThenWarmAround) })).Meets
      (hashDiscipline source) (Returns fun range t ↦ 1 ≤ range.1 ∧ range.2 ≤ t.world.latest) s := by
    refine .atomic fun t _ hinv ↦ ⟨hinv, (hashDiscipline source).refl t, Nat.le_max_right _ _, ?_⟩
    exact (Nat.min_le_right _ _).trans hinv.2
  refine hrange.bind_of_returns fun range t _ hbounds ↦ ?_
  exact (meets_tryBlockRangeForHash hbounds.1 hbounds.2 0).bind_of_returns fun _ _ _ _ ↦ trivial

/-! ### From hashes to heights -/

/-- The official RPC gives no wrong answer. -/
theorem meets_fallbackToOfficialRpc (hash : B256) :
    (fallbackToOfficialRpc source hash).Meets (hashDiscipline source)
      (Returns fun found _ ↦ ∀ n ∈ found, source.IsHash hash n) s := by
  have hrpc : (Shared.get fun s : PeerState source ↦ s.world.officialRpc hash).Meets
      (hashDiscipline source) (Returns fun found _ ↦ ∀ n ∈ found, source.IsHash hash n) s :=
    .get fun t _ _ n hn ↦ t.world.officialRpc_eq hash n hn
  refine hrpc.bind_of_returns fun found t _ hfound ↦ ?_
  rcases found with - | number
  · exact .pure hfound
  · refine (meets_cacheBlocks ?_).bind_of_returns fun _ _ _ _ ↦ .pure hfound
    intro e he
    obtain rfl := List.mem_singleton.1 he
    exact hfound number rfl

/-- The cache gives no wrong answer. -/
theorem meets_tryGetCachedBlockNumber (hash : B256) :
    (tryGetCachedBlockNumber source hash).Meets (hashDiscipline source)
      (Returns fun found _ ↦ ∀ n ∈ found, source.IsHash hash n) s := by
  have hcache : (Shared.get fun s : PeerState source ↦ s.blockhashCache.getByLeft hash).Meets
      (hashDiscipline source) (Returns fun found _ ↦ ∀ n ∈ found, source.IsHash hash n) s :=
    .get fun t _ hinv n hn ↦ hinv.1.left hash n hn
  refine hcache.bind_of_returns fun found t _ hfound ↦ ?_
  rcases found with - | number
  · exact .pure hfound
  · have hwarm : (Shared.get fun s : PeerState source ↦
        decide (number ∈ s.ifHitThenWarmAround)).Meets (hashDiscipline source)
        (Returns fun _ _ ↦ True) t := .get fun _ _ _ ↦ trivial
    refine hwarm.bind_of_returns fun warm u _ _ ↦ ?_
    simp only
    split_ifs
    · refine (meets_warmCacheAroundBlocks number warmCacheSize).bind_of_returns fun _ _ _ _ ↦ ?_
      exact .pure hfound
    · exact .pure hfound

/-- What a search for a hash returns: nothing wrong, and every block of some heights. -/
def Finds (source : BlockSource) (hash : B256) (heights : Set ℕ) (found : Option ℕ) : Prop :=
  (∀ n ∈ found, source.IsHash hash n) ∧
    ∀ n ∈ heights, source.IsHash hash n → found = some n

/-- A height that is found is found in any set of heights. -/
theorem finds_some {hash : B256} {n : ℕ} (hn : source.IsHash hash n) (heights : Set ℕ) :
    Finds source hash heights (some n) := by
  refine ⟨fun m hm ↦ ?_, fun m _ hm ↦ ?_⟩
  · obtain rfl := Option.some.inj hm
    exact hn
  · rw [hn.right hm]

/-- **A pass over chunks** finds every block of the chunks. -/
theorem meets_backfillLoop (hash : B256) {chunks : List (ℕ × ℕ)}
    (hle : ∀ chunk ∈ chunks, chunk.1 ≤ s.world.latest) :
    (backfillLoop source hash chunks).Meets (hashDiscipline source)
      (Returns fun found _ ↦ Finds source hash
        {n | ∃ chunk ∈ chunks, max (chunk.1 - source.recommendedChunkSize) 1 ≤ n ∧ n ≤ chunk.1}
        found) s := by
  induction chunks generalizing s with
  | nil => exact .pure ⟨by simp, by simp⟩
  | cons chunk chunks ih =>
    obtain ⟨endNumber, iteration⟩ := chunk
    refine (meets_tryBlockRangeForHash (Nat.le_max_right _ _)
      (hle _ List.mem_cons_self) hash).bind_of_returns fun result t hlater hresult ↦ ?_
    obtain ⟨found, rfl, hright, hall⟩ := hresult
    rcases found with - | blockNumber
    · -- the block is not in this chunk, so it is in a later one or in none
      have hrest : ∀ {u : PeerState source}, (hashDiscipline source).later s u →
          (backfillLoop source hash chunks).Meets (hashDiscipline source)
            (Returns fun found _ ↦ Finds source hash
              {n | ∃ chunk ∈ (endNumber, iteration) :: chunks,
                max (chunk.1 - source.recommendedChunkSize) 1 ≤ n ∧ n ≤ chunk.1} found) u := by
        intro u hu
        refine (ih fun chunk hchunk ↦ (hle chunk (List.mem_cons_of_mem _ hchunk)).trans
          hu.1).imp fun r _ _ hr ↦ ?_
        rcases r with - | found
        · exact hr
        · refine ⟨hr.1, ?_⟩
          rintro n ⟨chunk, hchunk, h₁, h₂⟩ hn
          rcases List.mem_cons.1 hchunk with rfl | hchunk
          · cases hall n h₁ h₂ hn
          · exact hr.2 n ⟨chunk, hchunk, h₁, h₂⟩ hn
      simp only
      split_ifs
      · refine (meets_fallbackToOfficialRpc hash).bind_of_returns fun found u hu hfound ↦ ?_
        rcases found with - | blockNumber
        · exact hrest ((hashDiscipline source).trans hlater hu)
        · refine (meets_warmCacheAroundBlocks blockNumber warmCacheSize).bind_of_returns
            fun _ _ _ _ ↦ .pure (finds_some (hfound blockNumber rfl) _)
      · exact hrest hlater
    · exact .pure (finds_some (hright blockNumber rfl) _)

/-- **One pass finds every block of the source.** -/
theorem meets_backfillCacheForHash (hash : B256) {latest : ℕ} (hlatest : latest ≤ s.world.latest) :
    (backfillCacheForHash source hash latest).Meets (hashDiscipline source)
      (Returns fun found _ ↦ Finds source hash {n | 1 ≤ n ∧ n ≤ latest} found) s := by
  refine (meets_backfillLoop hash fun chunk hchunk ↦ (chunkEnds_le hchunk).trans hlatest).imp
    fun r _ _ hr ↦ ?_
  rcases r with - | found
  · exact hr
  · exact ⟨hr.1, fun n hn hhash ↦ hr.2 n (exists_chunk hn.1 hn.2) hhash⟩

/-- What a lookup ends with: no wrong height, and the height of a block of the source; it may panic
for any other hash. -/
def LooksUp (source : BlockSource) (hash : B256) (latest : ℕ) (result : Option ℕ) : Prop :=
  Finds source hash {n | 1 ≤ n ∧ n ≤ latest} result

theorem meets_backfillRetry (hash : B256) {latest : ℕ} (hlatest : latest ≤ s.world.latest)
    (retries : ℕ) :
    (backfillRetry source hash latest (retries + 1)).Meets (hashDiscipline source)
      (fun result _ ↦ LooksUp source hash latest result) s := by
  induction retries generalizing s with
  | zero =>
    refine (meets_backfillCacheForHash hash hlatest).bind_of_returns fun found t _ hfound ↦ ?_
    rcases found with - | n
    · exact hfound
    · exact .pure hfound
  | succ retries ih =>
    refine (meets_backfillCacheForHash hash hlatest).bind_of_returns fun found t ht hfound ↦ ?_
    rcases found with - | n
    · exact ih (hlatest.trans ht.1)
    · exact .pure hfound

/-- **A lookup** with at least one pass. -/
theorem meets_hashToBlockNumberWithin (retries : ℕ) (hash : B256) :
    (hashToBlockNumberWithin source (retries + 1) hash).Meets (hashDiscipline source)
      (fun result _ ↦ LooksUp source hash s.world.latest result) s := by
  refine (meets_tryGetCachedBlockNumber hash).bind_of_returns fun found t ht hfound ↦ ?_
  rcases found with - | n
  · have hlatest : (Shared.atomic fun s : PeerState source ↦
        (s.world.latest, { s with knownLatestBlockNumber := s.world.latest })).Meets
        (hashDiscipline source)
        (Returns fun latest u ↦ latest ≤ u.world.latest ∧ t.world.latest ≤ latest) t :=
      .atomic fun u hu hinv ↦ ⟨⟨hinv.1, Nat.le_refl _⟩, (hashDiscipline source).refl u,
        Nat.le_refl _, hu.1⟩
    refine hlatest.bind_of_returns fun latest u _ hle ↦ ?_
    refine (meets_backfillRetry hash hle.1 retries).imp fun r _ _ hr ↦ ⟨hr.1, fun m hm ↦ ?_⟩
    exact hr.2 m ⟨hm.1, hm.2.trans (ht.1.trans hle.2)⟩
  · exact .pure (finds_some (hfound n rfl) _)

/-- The lookup of the peer. -/
theorem meets_hashToBlockNumber (hash : B256) :
    (hashToBlockNumber source hash).Meets (hashDiscipline source)
      (fun result _ ↦ LooksUp source hash s.world.latest result) s :=
  meets_hashToBlockNumberWithin 9 hash

/-- The lookups of a list of hashes. -/
theorem meets_hashesToBlockNumbers (hashes : List B256) :
    (hashesToBlockNumbers source hashes).Meets (hashDiscipline source)
      (fun result _ ↦ (∀ numbers ∈ result, List.Forall₂ source.IsHash hashes numbers) ∧
        ∀ numbers, List.Forall₂ source.IsHash hashes numbers →
          (∀ n ∈ numbers, 1 ≤ n ∧ n ≤ s.world.latest) → result = some numbers) s := by
  induction hashes generalizing s with
  | nil =>
    refine ⟨fun numbers hnumbers ↦ ?_, fun numbers hnumbers _ ↦ ?_⟩
    · obtain rfl := Option.some.inj hnumbers
      exact .nil
    · cases hnumbers
      rfl
  | cons hash hashes ih =>
    -- the heights of the tail are still in reach when its turn comes
    have htail : ∀ {m : ℕ} {numbers : List ℕ} {t : PeerState source},
        (hashDiscipline source).later s t → (∀ n ∈ m :: numbers, 1 ≤ n ∧ n ≤ s.world.latest) →
        ∀ n ∈ numbers, 1 ≤ n ∧ n ≤ t.world.latest := by
      intro m numbers t ht hbounds n hn
      obtain ⟨hone, hle⟩ := hbounds n (List.mem_cons_of_mem _ hn)
      exact ⟨hone, hle.trans ht.1⟩
    refine (meets_hashToBlockNumber hash).bind (fun t ht ↦ ?_) fun n t ht hn ↦ ?_
    · -- a panic is excluded for a block of the source
      refine ⟨by simp, fun numbers hnumbers hbounds ↦ ?_⟩
      obtain ⟨m, numbers, hm, -, rfl⟩ := List.forall₂_cons_left_iff.1 hnumbers
      cases ht.2 m (hbounds m List.mem_cons_self) hm
    · refine ih.bind (fun u hu ↦ ?_) fun numbers u _ hnumbers ↦ .pure ?_
      · refine ⟨by simp, fun numbers hnumbers hbounds ↦ ?_⟩
        obtain ⟨m, numbers, -, hrest, rfl⟩ := List.forall₂_cons_left_iff.1 hnumbers
        cases hu.2 numbers hrest (htail ht hbounds)
      · refine ⟨fun l hl ↦ ?_, fun l hl hbounds ↦ ?_⟩
        · obtain rfl := Option.some.inj hl
          exact .cons (hn.1 n rfl) (hnumbers.1 numbers rfl)
        · obtain ⟨m, rest, hm, hrest, rfl⟩ := List.forall₂_cons_left_iff.1 hl
          obtain rfl := Option.some.inj (hn.2 m (hbounds m List.mem_cons_self) hm)
          obtain rfl := Option.some.inj (hnumbers.2 rest hrest (htail ht hbounds))
          rfl

/-! ### Requests -/

/-- The body that a request for a block is answered with. -/
def BlockSource.body (source : BlockSource) (number : ℕ) : HlBlockBody :=
  ((source.block number).toRethBlock source.systemTxToRethTransaction).body

/-- **A request for bodies** is answered with the bodies of the blocks that were asked for, or not
at all; and it is answered for blocks of the source. -/
theorem meets_getBlockBodies (hashes : List B256) :
    (processEthRequest source (.getBlockBodies hashes)).Meets (hashDiscipline source)
      (fun result _ ↦
        (∀ bodies, result = some (.blockBodies bodies) →
          ∃ numbers, List.Forall₂ source.IsHash hashes numbers ∧
            bodies = numbers.map source.body) ∧
        ∀ numbers, List.Forall₂ source.IsHash hashes numbers →
          (∀ n ∈ numbers, 1 ≤ n ∧ n ≤ s.world.latest) →
          result = some (.blockBodies (numbers.map source.body))) s := by
  refine (meets_hashesToBlockNumbers hashes).bind (fun t ht ↦ ?_) fun numbers t hlater hn ↦ ?_
  · refine ⟨by simp, fun numbers hnumbers hbounds ↦ ?_⟩
    cases ht.2 numbers hnumbers hbounds
  · have hhashes := hn.1 numbers rfl
    have hbodies : (numbers.map source.block).map (fun block ↦
        (block.toRethBlock source.systemTxToRethTransaction).body) = numbers.map source.body := by
      rw [List.map_map]
      rfl
    refine (meets_collectBlocks numbers).bind_of_returns fun blocks u _ hblocks ↦ ?_
    rcases blocks with - | blocks
    · -- the source holds the blocks, so this is for other hashes
      refine .pure ⟨by simp, fun numbers' hnumbers hbounds ↦ ?_⟩
      obtain rfl := Option.some.inj (hn.2 numbers' hnumbers hbounds)
      cases hblocks.2 fun n hn ↦
        t.world.holds n (hbounds n hn).1 ((hbounds n hn).2.trans hlater.1)
    · obtain rfl := hblocks.1 blocks rfl
      refine .pure ⟨fun bodies hresult ↦ ⟨numbers, hhashes, ?_⟩, fun numbers' hnumbers hbounds ↦ ?_⟩
      · rw [← hbodies]
        exact (EthOutcome.blockBodies.inj (Option.some.inj hresult)).symm
      · obtain rfl := Option.some.inj (hn.2 numbers' hnumbers hbounds)
        rw [← hbodies]

/-- Every request keeps the discipline. -/
theorem meets_processEthRequest (request : EthRequest) :
    (processEthRequest source request).Meets (hashDiscipline source) (fun _ _ ↦ True) s := by
  cases request with
  | getBlockHeaders startBlock limit direction =>
    -- whatever the start is, the blocks are collected and answered with
    cases startBlock with
    | hash hash =>
      refine (meets_hashToBlockNumber hash).bind (fun _ _ ↦ trivial) fun number t _ _ ↦ ?_
      refine (meets_collectBlocks _).bind_of_returns fun blocks _ _ _ ↦ ?_
      rcases blocks with - | blocks <;> exact .pure trivial
    | number number =>
      refine (meets_collectBlocks _).bind_of_returns fun blocks _ _ _ ↦ ?_
      rcases blocks with - | blocks <;> exact .pure trivial
  | getBlockBodies hashes => exact (meets_getBlockBodies hashes).imp fun _ _ _ _ ↦ trivial
  | other => exact .pure trivial

/-- **Every state of a run keeps the invariant.** -/
theorem inv_of_reachable {world : World source}
    {c : Shared (PeerState source) EthOutcome × PeerState source}
    (h : Relation.ReflTransGen (PeerStep source) (.done .ignored, .new world) c) :
    (hashDiscipline source).inv c.2 ∧ ∃ t, (hashDiscipline source).later t c.2 ∧
      c.1.Meets (hashDiscipline source) (fun _ _ ↦ True) t := by
  induction h with
  | refl =>
    refine ⟨⟨LruBiMap.pairs_new _, Nat.zero_le _⟩, .new world, ?_, trivial⟩
    exact (hashDiscipline source).refl _
  | tail _ hstep ih =>
    obtain ⟨hinv, hmeets⟩ := ih
    cases hstep with
    | run h =>
      obtain ⟨hinv', -, hmeets'⟩ := Shared.Meets.step hashDiscipline_keptBy hmeets hinv h
      exact ⟨hinv', hmeets'⟩
    | accept request =>
      exact ⟨hinv, _, (hashDiscipline source).refl _, meets_processEthRequest request⟩

end Lookup

/-- What holds of the lookup of hashes at a state. -/
structure HashLookup (source : BlockSource) (s : PeerState source) : Prop where
  /-- A cached hash has the height of its block. -/
  left : ∀ hash n, s.blockhashCache.getByLeft hash = some n → source.IsHash hash n
  /-- A cached height has the hash of its block. -/
  right : ∀ hash n, s.blockhashCache.getByRight n = some hash → source.IsHash hash n
  /-- The two directions agree. -/
  inverse : ∀ hash n, s.blockhashCache.getByLeft hash = some n ↔
    s.blockhashCache.getByRight n = some hash
  /-- The lookup of a block of the source returns its height, whatever number of passes it may
  take. -/
  lookup : ∀ hash n, source.IsHash hash n → 1 ≤ n → n ≤ s.world.latest → ∀ retryLimit ≥ 1,
    Shared.Yields (PeerState.Env source) (hashToBlockNumberWithin source retryLimit hash) s n
  /-- The bodies of a response are those of the blocks that were asked for. -/
  bodies : ∀ hashes bodies s', Shared.Runs (PeerState.Env source)
    (processEthRequest source (.getBlockBodies hashes)) s (.done (.blockBodies bodies)) s' →
    List.Forall₂ (fun hash body ↦ ∃ n, source.IsHash hash n ∧ body = source.body n) hashes bodies
  /-- A request for bodies of blocks of the source is answered. -/
  answered : ∀ hashes numbers, List.Forall₂ source.IsHash hashes numbers →
    (∀ n ∈ numbers, 1 ≤ n ∧ n ≤ s.world.latest) →
    Shared.Yields (PeerState.Env source) (processEthRequest source (.getBlockBodies hashes)) s
      (.blockBodies (numbers.map source.body))

/-- **The lookup of hashes is sound and complete**, in every reachable state of the peer. -/
theorem hash_lookup (source : BlockSource) (world : World source)
    {p : Shared (PeerState source) EthOutcome} {s : PeerState source}
    (h : Relation.ReflTransGen (PeerStep source) (.done .ignored, .new world) (p, s)) :
    HashLookup source s := by
  have hinv := (inv_of_reachable h).1
  have henv : (hashDiscipline source).KeptBy (PeerState.Env source) := hashDiscipline_keptBy
  refine ⟨hinv.1.left, fun hash n hn ↦ hinv.1.right hn, hinv.1.inverse, ?_, ?_, ?_⟩
  · intro hash n hn hone hle retryLimit hlimit
    obtain ⟨retries, rfl⟩ : ∃ retries, retryLimit = retries + 1 := ⟨retryLimit - 1, by omega⟩
    refine Shared.Meets.yields henv ((meets_hashToBlockNumberWithin retries hash).imp ?_) hinv
    intro result _ _ hresult
    exact hresult.2 n ⟨hone, hle⟩ hn
  · intro hashes bodies s' hrun
    obtain ⟨numbers, hnumbers, rfl⟩ :=
      ((meets_getBlockBodies hashes).of_runs henv hinv).2 _ hrun |>.1 bodies rfl
    refine List.forall₂_map_right_iff.2 (hnumbers.imp fun hash n hn ↦ ⟨n, hn, rfl⟩)
  · intro hashes numbers hnumbers hbounds
    refine Shared.Meets.yields henv ((meets_getBlockBodies hashes).imp ?_) hinv
    intro result _ _ hresult
    exact hresult.2 numbers hnumbers hbounds

/-! ### A source with two blocks -/

/-- The hashes of the first two headers without contents; the others are not used. -/
def exampleHashSlow (header : Header) : B256 :=
  if header = .zero 1 then
    0xe9a9676da1a84a448e698de377f74e257659a1c063195f7a170310ab6baca831
  else if header = .zero 2 then
    0x7e9de74f52b93e8175fa5be8badb83102236ca56d5716a9ffad04192ad23ba27
  else BitVec.ofNat 256 header.number

/-- A block without contents. -/
def exampleSourceBlock (number : ℕ) : BlockAndReceipts where
  block := .reth115
    { header := { hash := exampleHashSlow (.zero number), header := .zero number }
      body := { transactions := [], ommers := [], withdrawals := none } }
  systemTxs := []
  readPrecompileCalls := []
  highestPrecompileAddress := none

theorem hash_exampleSourceBlock (n : ℕ) :
    (exampleSourceBlock n).hash = exampleHashSlow (.zero n) := by
  rw [BlockAndReceipts.hash, exampleSourceBlock, EvmBlock.sealed]

theorem header_exampleSourceBlock (n : ℕ) :
    (exampleSourceBlock n).block.sealed.header.header = .zero n := by
  rw [exampleSourceBlock, EvmBlock.sealed]

theorem exampleHashSlow_zero (n : ℕ) :
    exampleHashSlow (.zero n) =
      if n = 1 then 0xe9a9676da1a84a448e698de377f74e257659a1c063195f7a170310ab6baca831
      else if n = 2 then 0x7e9de74f52b93e8175fa5be8badb83102236ca56d5716a9ffad04192ad23ba27
      else BitVec.ofNat 256 n := by
  have hzero : ∀ m, Header.zero n = .zero m ↔ n = m := fun m ↦
    ⟨congrArg Header.number, congrArg Header.zero⟩
  rw [exampleHashSlow, show (Header.zero n).number = n from rfl]
  simp only [hzero]

/-- The two hashes are larger than all heights. -/
theorem exampleHashSlow_injective {n m : ℕ} (hn : n < u64Size) (hm : m < u64Size)
    (h : exampleHashSlow (.zero n) = exampleHashSlow (.zero m)) : n = m := by
  have hnat : ∀ {k : ℕ}, k < u64Size → (BitVec.ofNat 256 k).toNat = k := fun hk ↦ by
    rw [BitVec.toNat_ofNat, Nat.mod_eq_of_lt (Nat.lt_trans hk (by decide))]
  rw [exampleHashSlow_zero, exampleHashSlow_zero] at h
  replace h := congrArg BitVec.toNat h
  have hsize : u64Size = 18446744073709551616 := rfl
  split_ifs at h <;>
    simp only [hnat hn, hnat hm, BitVec.ofNat_eq_ofNat, BitVec.toNat_ofNat] at h <;> omega

/-- The source of these blocks. -/
def exampleSource : BlockSource where
  block := exampleSourceBlock
  recommendedChunkSize := 1000
  hashSlow := exampleHashSlow
  systemTxToRethTransaction := fun tx ↦ ⟨⟨1, 1, true⟩, tx.tx⟩
  iterate := id
  number_eq := fun _ ↦ rfl
  hash_eq := fun n ↦ by rw [hash_exampleSourceBlock, header_exampleSourceBlock]
  hash_injective := fun n m hn hm h ↦ by
    rw [hash_exampleSourceBlock, hash_exampleSourceBlock] at h
    exact exampleHashSlow_injective hn hm h
  chunk_pos := by decide
  iterate_subset := fun _ ↦ List.Subset.refl _

/-- It holds two blocks. -/
def exampleWorld : World exampleSource where
  latest := 2
  held := fun n ↦ decide (1 ≤ n ∧ n ≤ 2)
  officialRpc := fun _ ↦ none
  holds := fun n h₁ h₂ ↦ decide_eq_true ⟨h₁, h₂⟩
  held_lt := fun n hn ↦ Nat.lt_of_le_of_lt (of_decide_eq_true hn).2 (by decide)
  latest_lt := by decide
  officialRpc_eq := by simp

/-- The peer after the poller has announced the first block. -/
def exampleAnnounced : PeerState exampleSource where
  world := exampleWorld
  blockhashCache := (LruBiMap.new blockhashCacheLimit).insert
    (exampleSource.hashSlow ((exampleSource.block 1).toRethBlock
      exampleSource.systemTxToRethTransaction).header) 1
  ifHitThenWarmAround := ∅
  knownLatestBlockNumber := 0

/-- The second block is then found in the first pass. -/
theorem hash_lookup_exampleAnnounced :
    Shared.Yields (PeerState.Env exampleSource)
      (hashToBlockNumberWithin exampleSource 1 (exampleHashSlow (.zero 2))) exampleAnnounced 2 := by
  have hannounce : PeerState.Env exampleSource (.new exampleWorld) exampleAnnounced :=
    .announce (rfl : exampleWorld.held 1 = true)
  have hlookup := hash_lookup exampleSource exampleWorld (.single (.run (.env hannounce)))
  exact hlookup.lookup _ 2 ⟨by decide, hash_exampleSourceBlock 2⟩ (by decide) (Nat.le_refl _) 1
    (Nat.le_refl _)

end RethHl.PseudoPeer
