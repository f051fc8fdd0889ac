import RethHl.PseudoPeer.HlNode.LocalSource

/-!
# Where the blocks come from

The cache of the local source is filled by the ingest loop, with what it read some time ago, and by
requests, which load the file of the height they look for. The backfill stores no blocks. As the
files only grow, a block that was read from a file is still in it: every block in the cache, or in
the scan that waits for the cache, is a block of a file (`LocalSource.Filled`), and so is every
block that a request returns (`CachedInFiles.tryCollectLocalBlock`).
-/

namespace RethHl.HlNode

section Origin

variable (fromStr : List Char → Option BlockAndReceipts)

/-- A block of a file. -/
def InFile (dir : HourlyDir) (b : BlockAndReceipts) : Prop :=
  ∃ path content, dir.contents path = some content ∧ b ∈ fileBlocks fromStr content

/-- The blocks of a cache are blocks of files. -/
def CachedInFiles (dir : HourlyDir) (c : LocalBlocksCache) : Prop :=
  ∀ e ∈ c.cache.entries, InFile fromStr dir e.2

/-- The blocks that the source holds are blocks of files. -/
structure LocalSource.Filled (s : LocalSource) : Prop where
  cached : CachedInFiles fromStr s.dir s.cache
  pending : ∀ scanResult ∈ s.phase.pending, ∀ b ∈ scanResult.newBlocks, InFile fromStr s.dir b

variable {fromStr} {dir dir' : HourlyDir} {c : LocalBlocksCache}

/-- A file keeps its blocks. -/
theorem InFile.grows {b : BlockAndReceipts} (h : InFile fromStr dir b)
    (hgrows : DirGrows fromStr dir dir') : InFile fromStr dir' b := by
  obtain ⟨path, content, hcontent, hb⟩ := h
  obtain ⟨content', hcontent', hgrow⟩ := hgrows.grows path content hcontent
  obtain ⟨j, hj⟩ := mem_fileBlocks.1 hb
  exact ⟨path, content', hcontent', mem_fileBlocks.2 ⟨j, hgrow.keeps j b hj⟩⟩

/-- A scan finds blocks of its file. -/
theorem inFile_of_mem_newBlocks {path : HourPath} {content : List Char}
    (hcontent : dir.contents path = some content) {options : ScanOptions} {lastLine : ℕ}
    {b : BlockAndReceipts}
    (hb : b ∈ (scanHourFile fromStr options path content lastLine).1.newBlocks) :
    InFile fromStr dir b := by
  rw [scanHourFile, newBlocks_scanLines] at hb
  split_ifs at hb
  · exact absurd hb List.not_mem_nil
  · obtain ⟨⟨j, b⟩, hmem, rfl⟩ := List.mem_map.1 hb
    have hline := (mem_parsedFrom_lines.1 (List.mem_of_mem_filter hmem)).2
    exact ⟨path, content, hcontent, mem_fileBlocks.2 ⟨j, hline⟩⟩

namespace CachedInFiles

theorem loadScanResult (h : CachedInFiles fromStr dir c) {scanResult : ScanResult}
    (hscan : ∀ b ∈ scanResult.newBlocks, InFile fromStr dir b) :
    CachedInFiles fromStr dir (c.loadScanResult scanResult) := by
  intro e he
  rcases LruMap.mem_entries_insertAll he with he | he
  · obtain ⟨b, hb, rfl⟩ := List.mem_map.1 he
    exact hscan b hb
  · exact h e he

theorem getBlock (h : CachedInFiles fromStr dir c) (height : ℕ) :
    CachedInFiles fromStr dir (c.getBlock height).2 :=
  fun e he ↦ h e (LruMap.mem_entries_of_mem_erase he)

theorem inFile_of_get (h : CachedInFiles fromStr dir c) {height : ℕ} {b : BlockAndReceipts}
    (hb : c.cache.get height = some b) : InFile fromStr dir b :=
  h _ (LruMap.mem_entries_of_get hb)

/-- **A request returns a block of a file.** -/
theorem tryCollectLocalBlock (h : CachedInFiles fromStr dir c) {height : ℕ}
    {r : Option BlockAndReceipts} {c' : LocalBlocksCache}
    (hcollect : tryCollectLocalBlock fromStr dir c height = some (r, c')) :
    CachedInFiles fromStr dir c' ∧ ∀ b ∈ r, InFile fromStr dir b := by
  rcases hget : c.cache.get height with - | b
  · rcases hpath : c.getPathForHeight height with - | path
    · rw [tryCollectLocalBlock_of_unknown hget hpath] at hcollect
      obtain ⟨rfl, rfl⟩ := Prod.mk.inj (Option.some.inj hcollect)
      exact ⟨h.getBlock height, fun b hb ↦ by cases hb⟩
    · rcases hcontent : dir.contents path with - | content
      · -- the file is gone: a panic
        have hblock : c.getBlock height = (none, (c.getBlock height).2) := Prod.ext hget rfl
        rw [HlNode.tryCollectLocalBlock, hblock] at hcollect
        simp only [LocalBlocksCache.getPathForHeight_getBlock, hpath, hcontent] at hcollect
        cases hcollect
      · rw [tryCollectLocalBlock_of_file hget hpath hcontent] at hcollect
        have hload : CachedInFiles fromStr dir ((c.getBlock height).2.loadScanResult
            (scanHourFile fromStr ⟨0, false⟩ path content 0).1) :=
          (h.getBlock height).loadScanResult fun b hb ↦ inFile_of_mem_newBlocks hcontent hb
        obtain ⟨rfl, rfl⟩ := Prod.mk.inj (Option.some.inj hcollect)
        exact ⟨hload.getBlock height, fun b hb ↦ hload.inFile_of_get hb⟩
  · rw [tryCollectLocalBlock_of_cached hget] at hcollect
    obtain ⟨rfl, rfl⟩ := Prod.mk.inj (Option.some.inj hcollect)
    refine ⟨h.getBlock height, fun b' hb' ↦ ?_⟩
    obtain rfl := Option.some.inj hb'
    exact h.inFile_of_get hget

end CachedInFiles

namespace LocalSource

variable {parseDate : String → Option ℕ} {formatDate : ℕ → String} {cutoffHeight : ℕ}
  {s s' : LocalSource}

theorem filled_start (clock : ℕ) : (start parseDate clock dir).Filled fromStr where
  cached := fun _ he ↦ absurd he List.not_mem_nil
  pending := fun _ hscan ↦ by cases hscan

/-- Only the cache matters where no scan waits for it. -/
theorem filled_of_pending_eq_none (hcached : CachedInFiles fromStr s.dir s.cache)
    (hpending : s.phase.pending = none) : s.Filled fromStr where
  cached := hcached
  pending := by
    intro scanResult hscan
    rw [hpending] at hscan
    cases hscan

theorem Filled.write (h : s.Filled fromStr) (hgrows : DirGrows fromStr s.dir dir') :
    Filled fromStr { s with dir := dir' } where
  cached := fun e he ↦ (h.cached e he).grows hgrows
  pending := fun scanResult hscan b hb ↦ (h.pending scanResult hscan b hb).grows hgrows

/-- **The source keeps to the blocks of files.** -/
theorem Filled.proceed (h : s.Filled fromStr) :
    Filled fromStr (s.proceed fromStr parseDate formatDate cutoffHeight) := by
  rcases hs : s.phase with (- | ⟨subfile, files⟩) | ⟨subfile, files⟩ | - |
    ⟨hour, tail, (- | scanResult | - | now)⟩ | - <;> rw [LocalSource.proceed, hs] <;> dsimp only
  · exact filled_of_pending_eq_none h.cached rfl
  · split
    · exact filled_of_pending_eq_none h.cached rfl
    · split_ifs
      · exact filled_of_pending_eq_none h.cached rfl
      · exact filled_of_pending_eq_none h.cached rfl
  · split
    · exact filled_of_pending_eq_none h.cached rfl
    · -- the backfill stores ranges
      refine filled_of_pending_eq_none (h.cached.loadScanResult fun b hb ↦ ?_) rfl
      exact absurd hb List.not_mem_nil
  · split
    · exact filled_of_pending_eq_none h.cached (congrArg SourcePhase.pending hs)
    · split
      · exact filled_of_pending_eq_none h.cached rfl
      · exact filled_of_pending_eq_none h.cached rfl
  · split
    · exact filled_of_pending_eq_none h.cached rfl
    · next content hcontent =>
      refine ⟨h.cached, fun scanResult hscan b hb ↦ ?_⟩
      obtain rfl := Option.some.inj hscan
      exact inFile_of_mem_newBlocks hcontent hb
  · refine filled_of_pending_eq_none (h.cached.loadScanResult fun b hb ↦ ?_) rfl
    exact h.pending scanResult (congrArg SourcePhase.pending hs) b hb
  · exact filled_of_pending_eq_none h.cached rfl
  · split_ifs
    · exact filled_of_pending_eq_none h.cached rfl
    · exact filled_of_pending_eq_none h.cached rfl
  · exact filled_of_pending_eq_none h.cached (congrArg SourcePhase.pending hs)

end LocalSource

end Origin

end RethHl.HlNode
