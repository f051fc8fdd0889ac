import RethHl.Data.LruMap
import RethHl.Data.RangeMap
import RethHl.PseudoPeer.HlNode.FileOps

/-!
# The cache of local blocks

`LocalBlocksCache` holds the blocks that scans found, up to a limit, and for every height the file
that it was last seen in. Reading a block takes it out of the cache; a block that is not there is
loaded again with its whole file (`tryCollectLocalBlock`).

`Linked` is the invariant between the cache and the directory: a block is stored under its own
height, and **the file of a height has a line of that height**. Loading the result of a scan keeps
it (`Linked.loadScanResult`) as long as the ranges of the result are heights of its file
(`ScannedFrom`), and growth of the files keeps both.

`tryCollectLocalBlock_eq` says what a request returns. A file with many blocks may evict the block
that it is loaded for: the request succeeds exactly when fewer distinct heights follow the block in
its file than the cache holds.
-/

namespace RethHl.HlNode

/-- The limit of the cache. -/
def cacheSize : ℕ := 8000

/-- The blocks that are loaded, and the file of every height. -/
structure LocalBlocksCache where
  cache : LruMap ℕ BlockAndReceipts
  ranges : RangeMap HourPath

namespace LocalBlocksCache

/-- A new cache with a limit. -/
def new (cacheSize : ℕ) : LocalBlocksCache where
  cache := .empty cacheSize
  ranges := .empty

/-- Store the blocks and the ranges of a scan. -/
def loadScanResult (c : LocalBlocksCache) (scanResult : ScanResult) : LocalBlocksCache where
  cache := c.cache.insertAll (scanResult.newBlocks.map fun blk ↦ (blk.number, blk))
  ranges := c.ranges.insertAll scanResult.newBlockRanges scanResult.path

/-- Take a block out. -/
def getBlock (c : LocalBlocksCache) (height : ℕ) : Option BlockAndReceipts × LocalBlocksCache :=
  ((c.cache.remove height).1, { c with cache := (c.cache.remove height).2 })

/-- The file of a height. -/
def getPathForHeight (c : LocalBlocksCache) (height : ℕ) : Option HourPath :=
  c.ranges.get height

@[simp] theorem getBlock_fst (c : LocalBlocksCache) (height : ℕ) :
    (c.getBlock height).1 = c.cache.get height :=
  rfl

@[simp] theorem getPathForHeight_getBlock (c : LocalBlocksCache) (height h : ℕ) :
    (c.getBlock height).2.getPathForHeight h = c.getPathForHeight h :=
  rfl

end LocalBlocksCache

section Cache

variable (fromStr : List Char → Option BlockAndReceipts)

/-- `HlNodeBlockSource::try_collect_local_block`. A file that cannot be opened is a panic. -/
def tryCollectLocalBlock (dir : HourlyDir) (cache : LocalBlocksCache) (height : ℕ) :
    Option (Option BlockAndReceipts × LocalBlocksCache) :=
  match cache.getBlock height with
  | (some block, cache) => some (some block, cache)
  | (none, cache) =>
    match cache.getPathForHeight height with
    | none => some (none, cache)
    | some path =>
      match dir.contents path with
      | none => none
      | some content =>
        let scanResult := (scanHourFile fromStr ⟨0, false⟩ path content 0).1
        some ((cache.loadScanResult scanResult).getBlock height)

/-- A file has a block of a height. -/
def HasHeight (content : List Char) (height : ℕ) : Prop :=
  ∃ b ∈ fileBlocks fromStr content, b.number = height

/-- How many distinct heights follow the last block of a height in a file. -/
def distinctHeightsAfter (content : List Char) (height : ℕ) : ℕ :=
  (((fileBlocks fromStr content).map BlockAndReceipts.number).reverse.takeWhile
    fun n ↦ n ≠ height).toFinset.card

/-- The files of a directory are hour files. -/
def HourFiles (dir : HourlyDir) : Prop :=
  ∀ path content, dir.contents path = some content → HourFile fromStr content

/-- The ranges of a scan are heights of its file. -/
def ScannedFrom (dir : HourlyDir) (scanResult : ScanResult) : Prop :=
  ∀ height, (∃ r ∈ scanResult.newBlockRanges, r.1 ≤ height ∧ height ≤ r.2) →
    ∃ content, dir.contents scanResult.path = some content ∧ HasHeight fromStr content height

/-- The invariant between the cache and the directory. -/
structure Linked (dir : HourlyDir) (c : LocalBlocksCache) : Prop where
  limit : c.cache.limit = cacheSize
  stored : ∀ e ∈ c.cache.entries, e.2.number = e.1
  path : ∀ height path, c.getPathForHeight height = some path →
    ∃ content, dir.contents path = some content ∧ HasHeight fromStr content height

variable {fromStr} {dir : HourlyDir} {c : LocalBlocksCache}

/-! ### The ranges and blocks of a scan -/

/-- A height lies in a range of a scan of the whole file exactly when the file has it. -/
theorem mem_ranges_scanHourFile_iff {content : List Char} (hfile : HourFile fromStr content)
    (options : ScanOptions) (path : HourPath) (height : ℕ) :
    (∃ r ∈ (scanHourFile fromStr options path content 0).1.newBlockRanges,
        r.1 ≤ height ∧ height ≤ r.2) ↔ HasHeight fromStr content height := by
  have hmem : ∀ b, b ∈ fileBlocks fromStr content ↔
      ∃ p ∈ parsedFrom fromStr (Text.lines content) 0, p.2 = b := by
    intro b
    rw [← map_snd_parsedFrom_zero, List.mem_map]
  rw [scanHourFile, mem_newBlockRanges_iff fun p hp ↦ hfile.below _ ((hmem _).2 ⟨p, hp, rfl⟩)]
  constructor
  · rintro ⟨p, hp, rfl⟩
    exact ⟨p.2, (hmem _).2 ⟨p, hp, rfl⟩, rfl⟩
  · rintro ⟨b, hb, rfl⟩
    obtain ⟨p, hp, rfl⟩ := (hmem b).1 hb
    exact ⟨p, hp, rfl⟩

/-- A scan from any line on has heights of its file. -/
theorem scannedFrom_scanHourFile {content : List Char} (hfile : HourFile fromStr content)
    {path : HourPath} (hcontent : dir.contents path = some content) (options : ScanOptions)
    (lastLine : ℕ) :
    ScannedFrom fromStr dir (scanHourFile fromStr options path content lastLine).1 := by
  have hmem : ∀ p ∈ parsedFrom fromStr (Text.lines content) lastLine,
      p.2 ∈ fileBlocks fromStr content := by
    rintro ⟨i, b⟩ hp
    exact mem_fileBlocks.2 ⟨i, (mem_parsedFrom_lines.1 hp).2⟩
  intro height hheight
  rw [scanHourFile, mem_newBlockRanges_iff fun p hp ↦ hfile.below _ (hmem p hp)] at hheight
  obtain ⟨p, hp, rfl⟩ := hheight
  exact ⟨content, hcontent, p.2, hmem p hp, rfl⟩

/-- A scan of the whole file from height zero finds all of its blocks. -/
theorem newBlocks_scanHourFile_zero (path : HourPath) (content : List Char) :
    (scanHourFile fromStr ⟨0, false⟩ path content 0).1.newBlocks = fileBlocks fromStr content := by
  have hall : delivered ⟨0, false⟩ (parsedFrom fromStr (Text.lines content) 0) =
      parsedFrom fromStr (Text.lines content) 0 :=
    List.filter_eq_self.2 fun p _ ↦ by simp
  rw [scanHourFile, newBlocks_scanLines, if_neg (by simp), hall, map_snd_parsedFrom_zero]

/-! ### The invariant -/

/-- A height that has a file keeps one, and those in the ranges get one. -/
theorem isSome_getPathForHeight_loadScanResult_iff (scanResult : ScanResult) (height : ℕ) :
    ((c.loadScanResult scanResult).getPathForHeight height).isSome ↔
      (c.getPathForHeight height).isSome ∨
        ∃ r ∈ scanResult.newBlockRanges, r.1 ≤ height ∧ height ≤ r.2 := by
  rw [LocalBlocksCache.getPathForHeight, LocalBlocksCache.loadScanResult, RangeMap.get_insertAll]
  split_ifs with hin
  · exact iff_of_true rfl (Or.inr hin)
  · exact ⟨Or.inl, fun h ↦ h.resolve_right hin⟩

/-- A new cache is linked to every directory. -/
theorem linked_new : Linked fromStr dir (.new cacheSize) where
  limit := rfl
  stored := by
    intro e he
    cases he
  path := by
    intro height path h
    cases h

theorem Linked.loadScanResult (h : Linked fromStr dir c) {scanResult : ScanResult}
    (hscan : ScannedFrom fromStr dir scanResult) :
    Linked fromStr dir (c.loadScanResult scanResult) where
  limit := (LruMap.limit_insertAll _ _).trans h.limit
  stored := by
    intro e he
    rcases LruMap.mem_entries_insertAll he with he | he
    · obtain ⟨b, -, rfl⟩ := List.mem_map.1 he
      rfl
    · exact h.stored e he
  path := by
    intro height path hpath
    rw [LocalBlocksCache.getPathForHeight, LocalBlocksCache.loadScanResult,
      RangeMap.get_insertAll] at hpath
    split_ifs at hpath with hin
    · obtain rfl := Option.some.inj hpath
      exact hscan height hin
    · exact h.path height path hpath

theorem Linked.getBlock (h : Linked fromStr dir c) (height : ℕ) :
    Linked fromStr dir (c.getBlock height).2 where
  limit := h.limit
  stored := fun e he ↦ h.stored e (LruMap.mem_entries_of_mem_erase he)
  path := h.path

/-- A block is stored under its own height. -/
theorem Linked.number_eq (h : Linked fromStr dir c) {height : ℕ} {b : BlockAndReceipts}
    (hb : c.cache.get height = some b) : b.number = height :=
  h.stored _ (LruMap.mem_entries_of_get hb)

/-! ### Requests -/

/-- A list is cut at the last element of a height; what follows has other heights. -/
theorem exists_split_last {height : ℕ} {l : List BlockAndReceipts}
    (h : ∃ b ∈ l, b.number = height) :
    ∃ front b rest, l = front ++ b :: rest ∧ b.number = height ∧
      height ∉ rest.map BlockAndReceipts.number ∧
      ((l.map BlockAndReceipts.number).reverse.takeWhile fun n ↦ n ≠ height) =
        (rest.map BlockAndReceipts.number).reverse := by
  induction l using List.reverseRecOn with
  | nil =>
    obtain ⟨b, hb, -⟩ := h
    cases hb
  | append_singleton l c ih =>
    by_cases hc : c.number = height
    · exact ⟨l, c, [], rfl, hc, by simp, by simp [hc]⟩
    · obtain ⟨b, hb, hheight⟩ := h
      have hmem : b ∈ l := by
        rcases List.mem_append.1 hb with hb | hb
        · exact hb
        · obtain rfl := List.mem_singleton.1 hb
          exact absurd hheight hc
      obtain ⟨front, b', rest, rfl, hb', hrest, htake⟩ := ih ⟨b, hmem, hheight⟩
      refine ⟨front, b', rest ++ [c], by simp, hb', ?_, ?_⟩
      · rw [List.map_append, List.mem_append, not_or]
        exact ⟨hrest, by simpa using Ne.symm hc⟩
      · rw [List.map_append, List.reverse_append, List.map_singleton, List.reverse_singleton,
          List.singleton_append, List.takeWhile_cons_of_pos (by simpa using hc), htake]
        simp

/-- **Loading a file for a block.** The block is there afterwards exactly when fewer distinct
heights than the cache holds follow it in the file. -/
theorem isSome_get_insertAll_fileBlocks_iff {m : LruMap ℕ BlockAndReceipts}
    (hlimit : m.limit = cacheSize) {content : List Char} {height : ℕ}
    (hheight : HasHeight fromStr content height) :
    ((m.insertAll ((fileBlocks fromStr content).map fun b ↦ (b.number, b))).get height).isSome ↔
      distinctHeightsAfter fromStr content height < cacheSize := by
  obtain ⟨front, b, rest, hsplit, rfl, hrest, htake⟩ := exists_split_last hheight
  have hkeys :
      (rest.map fun b ↦ (b.number, b)).map Prod.fst = rest.map BlockAndReceipts.number := by
    rw [List.map_map]
    rfl
  rw [distinctHeightsAfter, htake, hsplit, List.map_append, List.map_cons,
    LruMap.isSome_get_insertAll_iff (hlimit ▸ (by decide : 0 < cacheSize)) (hkeys ▸ hrest), hkeys,
    hlimit, List.toFinset_reverse]

/-- A cached block is taken from the cache. -/
theorem tryCollectLocalBlock_of_cached {height : ℕ} {b : BlockAndReceipts}
    (hget : c.cache.get height = some b) :
    tryCollectLocalBlock fromStr dir c height = some (some b, (c.getBlock height).2) := by
  have hblock : c.getBlock height = (some b, (c.getBlock height).2) := Prod.ext hget rfl
  rw [tryCollectLocalBlock, hblock]

/-- A height without a file is not found. -/
theorem tryCollectLocalBlock_of_unknown {height : ℕ} (hget : c.cache.get height = none)
    (hpath : c.getPathForHeight height = none) :
    tryCollectLocalBlock fromStr dir c height = some (none, (c.getBlock height).2) := by
  have hblock : c.getBlock height = (none, (c.getBlock height).2) := Prod.ext hget rfl
  rw [tryCollectLocalBlock, hblock]
  simp only [LocalBlocksCache.getPathForHeight_getBlock, hpath]

/-- Any other height is read after its file is loaded. -/
theorem tryCollectLocalBlock_of_file {height : ℕ} {path : HourPath} {content : List Char}
    (hget : c.cache.get height = none) (hpath : c.getPathForHeight height = some path)
    (hcontent : dir.contents path = some content) :
    tryCollectLocalBlock fromStr dir c height =
      some (((c.getBlock height).2.loadScanResult
        (scanHourFile fromStr ⟨0, false⟩ path content 0).1).getBlock height) := by
  have hblock : c.getBlock height = (none, (c.getBlock height).2) := Prod.ext hget rfl
  rw [tryCollectLocalBlock, hblock]
  simp only [LocalBlocksCache.getPathForHeight_getBlock, hpath, hcontent]

/-- **What a request returns**, for a height that has a file. -/
theorem tryCollectLocalBlock_eq (h : Linked fromStr dir c) {height : ℕ} {path : HourPath}
    {content : List Char} (hpath : c.getPathForHeight height = some path)
    (hcontent : dir.contents path = some content) (hheight : HasHeight fromStr content height) :
    ∃ r c', tryCollectLocalBlock fromStr dir c height = some (r, c') ∧
      (r.isSome ↔ (c.cache.get height).isSome ∨
        distinctHeightsAfter fromStr content height < cacheSize) ∧
      ∀ b ∈ r, c.cache.get height = some b ∨ b ∈ fileBlocks fromStr content := by
  rcases hget : c.cache.get height with - | b
  · have hcollect : tryCollectLocalBlock fromStr dir c height = _ :=
      tryCollectLocalBlock_of_file hget hpath hcontent
    generalize hload : ((c.getBlock height).2.loadScanResult
      (scanHourFile fromStr ⟨0, false⟩ path content 0).1).getBlock height = load at hcollect
    have hread : load.1 = ((c.getBlock height).2.cache.insertAll
        ((fileBlocks fromStr content).map fun b ↦ (b.number, b))).get height := by
      rw [← hload, ← newBlocks_scanHourFile_zero path]
      rfl
    refine ⟨load.1, load.2, hcollect, ?_, ?_⟩
    · rw [hread, isSome_get_insertAll_fileBlocks_iff (h.getBlock height).limit hheight]
      simp
    · intro b hb
      rw [hread] at hb
      rcases LruMap.mem_entries_insertAll (LruMap.mem_entries_of_get hb) with hmem | hmem
      · obtain ⟨b', hb', heq⟩ := List.mem_map.1 hmem
        obtain ⟨-, rfl⟩ := Prod.mk.inj heq
        exact Or.inr hb'
      · -- the height is not in the cache
        have hold := LruMap.isSome_get_iff.2
          (List.mem_map_of_mem (f := Prod.fst) (LruMap.mem_entries_of_mem_erase hmem))
        rw [hget] at hold
        cases hold
  · refine ⟨_, _, tryCollectLocalBlock_of_cached hget, iff_of_true rfl (Or.inl rfl), ?_⟩
    intro b' hb'
    exact Or.inl hb'

/-- **A request keeps the invariant**, does not panic, returns no block of another height, and
forgets the file of no height. -/
theorem Linked.tryCollectLocalBlock (h : Linked fromStr dir c) (hfiles : HourFiles fromStr dir)
    (height : ℕ) :
    ∃ r c', tryCollectLocalBlock fromStr dir c height = some (r, c') ∧ Linked fromStr dir c' ∧
      (∀ b ∈ r, b.number = height) ∧
      ∀ n, (c.getPathForHeight n).isSome → (c'.getPathForHeight n).isSome := by
  rcases hget : c.cache.get height with - | b
  · rcases hpath : c.getPathForHeight height with - | path
    · exact ⟨_, _, tryCollectLocalBlock_of_unknown hget hpath, h.getBlock height, by simp,
        fun n hn ↦ hn⟩
    · obtain ⟨content, hcontent, -⟩ := h.path height path hpath
      have hload := (h.getBlock height).loadScanResult
        (scannedFrom_scanHourFile (hfiles path content hcontent) hcontent ⟨0, false⟩ 0)
      refine ⟨_, _, tryCollectLocalBlock_of_file hget hpath hcontent, hload.getBlock height,
        fun b hb ↦ hload.number_eq hb, fun n hn ↦ ?_⟩
      exact (isSome_getPathForHeight_loadScanResult_iff _ n).2 (Or.inl hn)
  · refine ⟨_, _, tryCollectLocalBlock_of_cached hget, h.getBlock height, ?_, fun n hn ↦ hn⟩
    intro b' hb'
    obtain rfl := Option.some.inj hb'
    exact h.number_eq hget

end Cache

end RethHl.HlNode
