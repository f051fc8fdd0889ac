import Mathlib.Logic.Relation
import RethHl.PseudoPeer.HlNode.Cache
import RethHl.PseudoPeer.HlNode.LastLine

/-!
# Backfill and lazy loading

At the start the node records the ranges of all hour files that reach a cutoff height
(`tryBackfillLocalBlocks`), without loading a block. Afterwards requests take blocks out of the
cache and load files for those that are not there, while `hl-node` goes on writing and the ingest
loop scans the file of the current hour. The ingest loop scans before it waits for the cache, so a
scan is loaded into a later state than the one it was made in (`LocalState.Step.scan`,
`LocalState.Step.load`).

`ServesLocalBlocks` is about every state that is reachable after the backfill: **a height at or
above the cutoff that had a line in an hour file has a file with such a line**, and a request for it
succeeds exactly when its block is cached or when loading the file does not evict it again. No
request ever returns a block of another height.

`local_blocks_served` proves it for hour files with a block on each line that grow line by line
(`HourFiles`, `DirGrows`). Both conditions are needed (`not_servesLocalBlocks`): text that is
appended to an unfinished line can make the block of that line unreadable, and a block that is
spread over several lines can stand in for the last block of its file.
-/

namespace RethHl.HlNode

section Backfill

variable (fromStr : List Char → Option BlockAndReceipts) (parseDate : String → Option ℕ)

/-- One file of the backfill: it is skipped if its last block is below the cutoff, and otherwise its
ranges are stored. -/
def backfillFile (dir : HourlyDir) (cutoffHeight : ℕ) (cache : LocalBlocksCache)
    (subfile : HourPath) : Option LocalBlocksCache :=
  match readLastBlockFromFile fromStr dir subfile with
  | none => none
  | some last =>
    if (last.any fun result ↦ result.2 < cutoffHeight) then some cache
    else
      match dir.contents subfile with
      | none => none
      | some content =>
        let scanResult := (scanHourFile fromStr ⟨cutoffHeight, true⟩ subfile content 0).1
        -- only store ranges, load data lazily
        some (cache.loadScanResult { scanResult with newBlocks := [] })

/-- `HlNodeBlockSource::try_backfill_local_blocks`. -/
def tryBackfillLocalBlocks (dir : HourlyDir) (cache : LocalBlocksCache) (cutoffHeight : ℕ) :
    Option LocalBlocksCache :=
  (allHourlyFiles parseDate dir).foldlM (backfillFile fromStr dir cutoffHeight) cache

/-- The heights of every file increase, and none is the largest one. -/
def OrderedFiles (dir : HourlyDir) : Prop :=
  ∀ path content, dir.contents path = some content →
    StrictHeights fromStr content ∧ ∀ b ∈ fileBlocks fromStr content, b.number < u64Max

/-- The directory is appended to, at any character: files keep what they have and may be created. -/
structure DirAppends (dir dir' : HourlyDir) : Prop where
  ordered : OrderedFiles fromStr dir'
  appends : ∀ path content, dir.contents path = some content →
    ∃ content', dir'.contents path = some content' ∧ content <+: content'

/-- The directory grows: files are appended to, and a line that is a block stays as it is. -/
structure DirGrows (dir dir' : HourlyDir) : Prop where
  hour_files : HourFiles fromStr dir'
  grows : ∀ path content, dir.contents path = some content →
    ∃ content', dir'.contents path = some content' ∧ Grows fromStr content content'

/-- The directory, the cache, and the scan of the ingest loop that is not loaded yet. -/
structure LocalState where
  dir : HourlyDir
  cache : LocalBlocksCache
  pending : Option ScanResult

/-- What can happen after the backfill, when the directory changes in a given way. -/
inductive LocalState.Step (grows : HourlyDir → HourlyDir → Prop) : LocalState → LocalState → Prop
  /-- `hl-node` writes. -/
  | write {s : LocalState} {dir' : HourlyDir} (h : grows s.dir dir') :
    Step grows s { s with dir := dir' }
  /-- A request. -/
  | collect {s : LocalState} {height : ℕ} {r : Option BlockAndReceipts} {cache' : LocalBlocksCache}
    (h : tryCollectLocalBlock fromStr s.dir s.cache height = some (r, cache')) :
    Step grows s { s with cache := cache' }
  /-- The ingest loop scans a file, from any line and height on. -/
  | scan {s : LocalState} {path : HourPath} {content : List Char} (nextHeight lastLine : ℕ)
    (h : s.dir.contents path = some content) :
    Step grows s { s with
      pending := some (scanHourFile fromStr ⟨nextHeight, false⟩ path content lastLine).1 }
  /-- The ingest loop loads its scan. -/
  | load {s : LocalState} {scanResult : ScanResult} (h : s.pending = some scanResult) :
    Step grows s { s with cache := s.cache.loadScanResult scanResult, pending := none }

/-- Backfill and lazy loading serve every block that is in a directory at the start. -/
def ServesLocalBlocks (grows : HourlyDir → HourlyDir → Prop) (dir : HourlyDir)
    (cutoffHeight : ℕ) : Prop :=
  ∃ cache, tryBackfillLocalBlocks fromStr parseDate dir (.new cacheSize) cutoffHeight =
      some cache ∧
    ∀ s, Relation.ReflTransGen (LocalState.Step fromStr grows) ⟨dir, cache, none⟩ s →
      (∀ height, ∃ r cache', tryCollectLocalBlock fromStr s.dir s.cache height =
          some (r, cache') ∧ ∀ b ∈ r, b.number = height) ∧
      ∀ height, cutoffHeight ≤ height →
        (∃ path ∈ allHourlyFiles parseDate dir, ∃ content, dir.contents path = some content ∧
          HasHeight fromStr content height) →
        ∃ path content, s.cache.getPathForHeight height = some path ∧
          s.dir.contents path = some content ∧ HasHeight fromStr content height ∧
          ∃ r cache', tryCollectLocalBlock fromStr s.dir s.cache height = some (r, cache') ∧
            (r.isSome ↔ (s.cache.cache.get height).isSome ∨
              distinctHeightsAfter fromStr content height < cacheSize) ∧
            ∀ b ∈ r, b.number = height ∧
              (s.cache.cache.get height = some b ∨ b ∈ fileBlocks fromStr content)

/-- The invariant of a run: the cache is linked to the directory, so is the scan that is not loaded
yet, and the heights of a set have a file. -/
structure LocalState.Invariant (heights : Set ℕ) (s : LocalState) : Prop where
  hour_files : HourFiles fromStr s.dir
  linked : Linked fromStr s.dir s.cache
  scanned : ∀ scanResult ∈ s.pending, ScannedFrom fromStr s.dir scanResult
  covered : ∀ height ∈ heights, (s.cache.getPathForHeight height).isSome

variable {fromStr parseDate}

/-! ### The backfill -/

section Files

variable (hparser : LineParser fromStr) {dir : HourlyDir} (hfiles : HourFiles fromStr dir)

include hparser hfiles

/-- One file of the backfill: it keeps the invariant and the heights that have a file, and adds
those of the file at or above the cutoff. -/
theorem backfillFile_spec (cutoffHeight : ℕ) {cache : LocalBlocksCache}
    (h : Linked fromStr dir cache) {subfile : HourPath} {content : List Char}
    (hcontent : dir.contents subfile = some content) :
    ∃ cache', backfillFile fromStr dir cutoffHeight cache subfile = some cache' ∧
      Linked fromStr dir cache' ∧
      (∀ n, (cache.getPathForHeight n).isSome → (cache'.getPathForHeight n).isSome) ∧
      ∀ n, cutoffHeight ≤ n → HasHeight fromStr content n →
        (cache'.getPathForHeight n).isSome := by
  have hfile := hfiles subfile content hcontent
  obtain ⟨last, hread, hlast⟩ := readLastCompleteLine_eq hparser hfile
  have hread : readLastBlockFromFile fromStr dir subfile = some last := by
    rw [readLastBlockFromFile, hcontent]
    exact hread
  rw [backfillFile, hread]
  simp only
  split_ifs with hskip
  · -- the last block is the highest one, so no height of the file is wanted
    refine ⟨cache, rfl, h, fun n hn ↦ hn, ?_⟩
    rintro n hn ⟨b, hb, rfl⟩
    obtain ⟨result, hresult, hbelow⟩ := (Option.any_eq_true _ _).1 hskip
    obtain ⟨hgetLast, hnumber⟩ := hlast result hresult
    have hle := number_le_getLast hfile.increasing hgetLast hb
    have hlt : result.2 < cutoffHeight := of_decide_eq_true hbelow
    omega
  · simp only [hcontent]
    set scanResult := (scanHourFile fromStr ⟨cutoffHeight, true⟩ subfile content 0).1
    have hscan : ScannedFrom fromStr dir { scanResult with newBlocks := [] } :=
      scannedFrom_scanHourFile hfile hcontent ⟨cutoffHeight, true⟩ 0
    refine ⟨_, rfl, h.loadScanResult hscan, fun n hn ↦ ?_, fun n _ hn ↦ ?_⟩
    · exact (isSome_getPathForHeight_loadScanResult_iff _ n).2 (Or.inl hn)
    · refine (isSome_getPathForHeight_loadScanResult_iff _ n).2 (Or.inr ?_)
      exact (mem_ranges_scanHourFile_iff hfile ⟨cutoffHeight, true⟩ subfile n).2 hn

/-- The backfill over a list of files. -/
theorem foldlM_backfillFile (cutoffHeight : ℕ) {cache : LocalBlocksCache}
    (h : Linked fromStr dir cache) {files : List HourPath}
    (hmem : ∀ path ∈ files, path ∈ dir.files.map Prod.fst) :
    ∃ cache', files.foldlM (backfillFile fromStr dir cutoffHeight) cache = some cache' ∧
      Linked fromStr dir cache' ∧
      (∀ n, (cache.getPathForHeight n).isSome → (cache'.getPathForHeight n).isSome) ∧
      ∀ path ∈ files, ∀ content, dir.contents path = some content → ∀ n, cutoffHeight ≤ n →
        HasHeight fromStr content n → (cache'.getPathForHeight n).isSome := by
  induction files generalizing cache with
  | nil => exact ⟨cache, rfl, h, fun n hn ↦ hn, by simp⟩
  | cons path files ih =>
    obtain ⟨content, hcontent⟩ := HourlyDir.exists_contents (hmem path List.mem_cons_self)
    obtain ⟨next, hnext, hlinked, hkeep, hnew⟩ :=
      backfillFile_spec hparser hfiles cutoffHeight h hcontent
    obtain ⟨cache', hrest, hlinked', hkeep', hnew'⟩ :=
      ih hlinked fun p hp ↦ hmem p (List.mem_cons_of_mem _ hp)
    refine ⟨cache', ?_, hlinked', fun n hn ↦ hkeep' n (hkeep n hn), ?_⟩
    · rw [List.foldlM_cons, hnext]
      exact hrest
    · intro p hp content' hcontent' n hn hheight
      rcases List.mem_cons.1 hp with rfl | hp
      · obtain rfl := Option.some.inj (hcontent.symm.trans hcontent')
        exact hkeep' n (hnew n hn hheight)
      · exact hnew' p hp content' hcontent' n hn hheight

end Files

/-! ### Runs -/

/-- A file that has a height has it after growing. -/
theorem HasHeight.grows {content content' : List Char} {height : ℕ}
    (h : HasHeight fromStr content height) (hgrows : Grows fromStr content content') :
    HasHeight fromStr content' height := by
  obtain ⟨b, hb, hheight⟩ := h
  obtain ⟨j, hj⟩ := mem_fileBlocks.1 hb
  exact ⟨b, mem_fileBlocks.2 ⟨j, hgrows.keeps j b hj⟩, hheight⟩

/-- A height of a file of the directory stays one. -/
theorem DirGrows.hasHeight {dir dir' : HourlyDir} (hgrows : DirGrows fromStr dir dir')
    {path : HourPath} {height : ℕ}
    (h : ∃ content, dir.contents path = some content ∧ HasHeight fromStr content height) :
    ∃ content, dir'.contents path = some content ∧ HasHeight fromStr content height := by
  obtain ⟨content, hcontent, hheight⟩ := h
  obtain ⟨content', hcontent', hgrow⟩ := hgrows.grows path content hcontent
  exact ⟨content', hcontent', hheight.grows hgrow⟩

/-- **Every step keeps the invariant.** -/
theorem LocalState.Invariant.step {heights : Set ℕ} {s s' : LocalState}
    (h : s.Invariant fromStr heights)
    (hstep : LocalState.Step fromStr (DirGrows fromStr) s s') :
    s'.Invariant fromStr heights := by
  cases hstep with
  | write hgrows =>
    exact
      { hour_files := hgrows.hour_files
        linked :=
          { limit := h.linked.limit
            stored := h.linked.stored
            path := fun height path hpath ↦ hgrows.hasHeight (h.linked.path height path hpath) }
        scanned := fun scanResult hscan height hin ↦
          hgrows.hasHeight (h.scanned scanResult hscan height hin)
        covered := h.covered }
  | collect hcollect =>
    -- a lookup may evict blocks from the cache, but never a range
    obtain ⟨r, cache', hrun, hlinked, -, hkeep⟩ :=
      h.linked.tryCollectLocalBlock h.hour_files _
    obtain ⟨-, rfl⟩ := Prod.mk.inj (Option.some.inj (hrun.symm.trans hcollect))
    exact
      { hour_files := h.hour_files
        linked := hlinked
        scanned := h.scanned
        covered := fun height hheight ↦ hkeep height (h.covered height hheight) }
  | scan nextHeight lastLine hcontent =>
    -- the result of a scan waits for the lock, and the file may grow meanwhile
    refine { hour_files := h.hour_files, linked := h.linked, scanned := ?_, covered := h.covered }
    intro scanResult hscan
    obtain rfl := Option.some.inj hscan
    exact scannedFrom_scanHourFile (h.hour_files _ _ hcontent) hcontent _ _
  | load hpending =>
    exact
      { hour_files := h.hour_files
        linked := h.linked.loadScanResult (h.scanned _ hpending)
        scanned := by simp
        covered := fun height hheight ↦
          (isSome_getPathForHeight_loadScanResult_iff _ height).2
            (Or.inl (h.covered height hheight)) }

/-- So does every run. -/
theorem LocalState.Invariant.run {heights : Set ℕ} {s s' : LocalState}
    (h : s.Invariant fromStr heights)
    (hrun : Relation.ReflTransGen (LocalState.Step fromStr (DirGrows fromStr)) s s') :
    s'.Invariant fromStr heights := by
  induction hrun with
  | refl => exact h
  | tail _ hstep ih => exact ih.step hstep

end Backfill

/-- **Backfill and lazy loading serve every local block.** -/
theorem local_blocks_served {fromStr : List Char → Option BlockAndReceipts}
    (parseDate : String → Option ℕ) (hparser : LineParser fromStr) {dir : HourlyDir}
    (hfiles : HourFiles fromStr dir) (cutoffHeight : ℕ) :
    ServesLocalBlocks fromStr parseDate (DirGrows fromStr) dir cutoffHeight := by
  obtain ⟨cache, hcache, hlinked, -, hcovered⟩ := foldlM_backfillFile hparser hfiles cutoffHeight
    linked_new fun path hpath ↦ ((mem_allHourlyFiles parseDate).1 hpath).1
  refine ⟨cache, hcache, fun s hrun ↦ ?_⟩
  -- the heights whose range the backfill has recorded, and which every later step keeps
  set heights : Set ℕ := {height | cutoffHeight ≤ height ∧ ∃ path ∈ allHourlyFiles parseDate dir,
    ∃ content, dir.contents path = some content ∧ HasHeight fromStr content height} with hheights
  have hinv : s.Invariant fromStr heights := by
    refine LocalState.Invariant.run ⟨hfiles, hlinked, by simp, ?_⟩ hrun
    rintro height ⟨hcutoff, path, hpath, content, hcontent, hheight⟩
    exact hcovered path hpath content hcontent height hcutoff hheight
  have hanswer : ∀ height, ∃ r cache', tryCollectLocalBlock fromStr s.dir s.cache height =
      some (r, cache') ∧ ∀ b ∈ r, b.number = height := by
    intro height
    obtain ⟨r, cache', hcollect, -, hnumber, -⟩ :=
      hinv.linked.tryCollectLocalBlock hinv.hour_files height
    exact ⟨r, cache', hcollect, hnumber⟩
  refine ⟨hanswer, fun height hcutoff hline ↦ ?_⟩
  obtain ⟨path, hpath⟩ := Option.isSome_iff_exists.1 (hinv.covered height ⟨hcutoff, hline⟩)
  obtain ⟨content, hcontent, hheight⟩ := hinv.linked.path height path hpath
  obtain ⟨r, cache', hcollect, hiff, hfrom⟩ :=
    tryCollectLocalBlock_eq hinv.linked hpath hcontent hheight
  obtain ⟨r', cache'', hcollect', hnumber⟩ := hanswer height
  obtain ⟨rfl, -⟩ := Prod.mk.inj (Option.some.inj (hcollect.symm.trans hcollect'))
  exact ⟨path, content, hpath, hcontent, hheight, r, cache', hcollect, hiff,
    fun b hb ↦ ⟨hnumber b hb, hfrom b hb⟩⟩

/-! ### A directory with one file -/

/-- The file of one hour, with two blocks. -/
def exampleDir : HourlyDir where
  files := [(⟨"20250731", "4"⟩, emptyBlockFile [5, 6])]
  nodup := List.nodup_singleton _

/-- The date of the file, as the number of days since the first of January of the year one. -/
def exampleParseDate (text : String) : Option ℕ :=
  if text = "20250731" then some 739463 else none

/-- The same file with a block more. -/
def exampleGrownDir : HourlyDir where
  files := [(⟨"20250731", "4"⟩, emptyBlockFile [5, 6, 7])]
  nodup := List.nodup_singleton _

section OneFile

variable {dir : HourlyDir} {file : HourPath} {text : List Char} (hdir : dir.files = [(file, text)])

include hdir

/-- The text of the one file of a directory. -/
theorem eq_of_contents {path : HourPath} {content : List Char}
    (h : dir.contents path = some content) : path = file ∧ content = text := by
  rw [HourlyDir.contents, hdir] at h
  obtain ⟨l₁, l₂, hl, -⟩ := List.lookup_eq_some_iff.1 h
  have hmem : (path, content) ∈ [(file, text)] := hl ▸ by simp
  exact Prod.mk.inj (List.mem_singleton.1 hmem)

theorem contents_file : dir.contents file = some text := by
  rw [HourlyDir.contents, hdir, List.lookup_cons_self]

end OneFile

theorem hourFiles_exampleDir : HourFiles emptyBlockFromStr exampleDir := by
  intro path content h
  obtain ⟨-, rfl⟩ := eq_of_contents rfl h
  exact hourFile_emptyBlockFile (by decide) (by decide)

theorem dirGrows_exampleDir : DirGrows emptyBlockFromStr exampleDir exampleGrownDir where
  hour_files := by
    intro path content h
    obtain ⟨-, rfl⟩ := eq_of_contents rfl h
    exact hourFile_emptyBlockFile (by decide) (by decide)
  grows := by
    intro path content h
    obtain ⟨rfl, rfl⟩ := eq_of_contents rfl h
    exact ⟨_, contents_file rfl, @grows_emptyBlockFile [5, 6] [7] (by decide)⟩

/-- After the backfill `hl-node` writes another block, the ingest loop scans the file, and block
five is requested. It can be requested again. -/
theorem local_blocks_served_exampleDir :
    ∃ cache s, tryBackfillLocalBlocks emptyBlockFromStr exampleParseDate exampleDir
        (.new cacheSize) 5 = some cache ∧
      Relation.ReflTransGen (LocalState.Step emptyBlockFromStr (DirGrows emptyBlockFromStr))
        ⟨exampleDir, cache, none⟩ s ∧ s.dir = exampleGrownDir ∧ s.pending.isSome ∧
      ∃ b cache', tryCollectLocalBlock emptyBlockFromStr s.dir s.cache 5 = some (some b, cache') ∧
        b.number = 5 := by
  obtain ⟨cache, hcache, hserve⟩ :=
    local_blocks_served exampleParseDate lineParser_emptyBlockFromStr hourFiles_exampleDir 5
  -- the block is written, the file is scanned from its third line on, and block five is requested
  set scanned : LocalState := ⟨exampleGrownDir, cache, some (scanHourFile emptyBlockFromStr
    ⟨7, false⟩ ⟨"20250731", "4"⟩ (emptyBlockFile [5, 6, 7]) 2).1⟩ with hscanned
  have hrun : Relation.ReflTransGen
      (LocalState.Step emptyBlockFromStr (DirGrows emptyBlockFromStr))
      ⟨exampleDir, cache, none⟩ scanned :=
    .tail (.single (.write dirGrows_exampleDir)) (.scan 7 2 (contents_file rfl))
  obtain ⟨r, cache', hcollect, -⟩ := (hserve scanned hrun).1 5
  have hrun' := hrun.tail (.collect hcollect)
  refine ⟨cache, _, hcache, hrun', rfl, rfl, ?_⟩
  -- the same request again
  have hblocks := @fileBlocks_emptyBlockFile [5, 6] (by decide)
  obtain ⟨path, content, -, hcontent, -, r', cache'', hagain, hiff, hnumber⟩ :=
    (hserve _ hrun').2 5 le_rfl ⟨⟨"20250731", "4"⟩,
      (mem_allHourlyFiles _).2 ⟨List.mem_singleton_self _, by decide +kernel⟩,
      emptyBlockFile [5, 6], contents_file rfl, emptyBlock 5, by simp [hblocks], rfl⟩
  have hfew : distinctHeightsAfter emptyBlockFromStr content 5 < cacheSize := by
    obtain ⟨-, rfl⟩ := @eq_of_contents exampleGrownDir _ _ rfl _ _ hcontent
    rw [distinctHeightsAfter, fileBlocks_emptyBlockFile (by decide)]
    decide
  obtain ⟨b, rfl⟩ := Option.isSome_iff_exists.1 (hiff.2 (Or.inr hfew))
  exact ⟨b, cache'', hagain, (hnumber b rfl).1⟩

/-! ### Directories that are not served -/

/-- A file of one block, whose line is not finished. -/
def unfinishedDir : HourlyDir where
  files := [(⟨"20250731", "4"⟩, emptyBlockLine 5)]
  nodup := List.nodup_singleton _

/-- The same file, with a character appended. -/
def continuedDir : HourlyDir where
  files := [(⟨"20250731", "4"⟩, emptyBlockLine 5 ++ ['x'])]
  nodup := List.nodup_singleton _

/-- The line of block three, up to a field that is not known. -/
def spreadHead : List Char := (emptyBlockLine 3).dropLast.dropLast ++ ",\"extra\":".toList

/-- Block three spread over three lines. The line of block five is the value of a field that is not
known, and is skipped. -/
def spreadText : List Char :=
  spreadHead ++ '\n' :: emptyBlockLine 5 ++ '\n' :: "\x7d]".toList

/-- The parser on the lines of the empty blocks and on that text. -/
def spreadFromStr (text : List Char) : Option BlockAndReceipts :=
  if (text.rdropWhile fun c ↦ c = '\r') = spreadText then some (emptyBlock 3)
  else emptyBlockFromStr text

/-- A file with that text and a space in a line of its own. -/
def spreadDir : HourlyDir where
  files := [(⟨"20250731", "4"⟩, spreadText ++ '\n' :: [' '])]
  nodup := List.nodup_singleton _

/-- A file with at most one block has no two heights to compare. -/
theorem strictHeights_of_length_le_one {fromStr : List Char → Option BlockAndReceipts}
    {content : List Char} (h : (fileBlocks fromStr content).length ≤ 1) :
    StrictHeights fromStr content := by
  intro i j b b' hi hj hij
  rw [← map_snd_parsedFrom_zero, List.length_map] at h
  have hmem := mem_parsedFrom_lines.2 ⟨Nat.zero_le i, hi⟩
  have hmem' := mem_parsedFrom_lines.2 ⟨Nat.zero_le j, hj⟩
  rcases hparsed : parsedFrom fromStr (Text.lines content) 0 with - | ⟨p, - | ⟨q, rest⟩⟩
  · rw [hparsed] at hmem
    cases hmem
  · rw [hparsed, List.mem_singleton] at hmem hmem'
    have heq := congrArg Prod.fst (hmem.trans hmem'.symm)
    exact absurd heq (Nat.ne_of_lt hij)
  · rw [hparsed, List.length_cons, List.length_cons] at h
    omega

/-- Carriage returns apart, a text that ends with a bracket is itself. -/
theorem rdropWhile_of_getLast? {text : List Char} (h : text.getLast? = some ']') :
    (text.rdropWhile fun c ↦ c = '\r') = text := by
  obtain ⟨init, rfl⟩ := List.getLast?_eq_some_iff.1 h
  exact List.rdropWhile_concat_neg _ _ _ (by decide)

/-- A text that ends with anything else is no block. -/
theorem emptyBlockFromStr_of_getLast? {text : List Char} {c : Char} (h : text.getLast? = some c)
    (hcr : c ≠ '\r') (hne : c ≠ ']') : emptyBlockFromStr text = none := by
  rcases hparse : emptyBlockFromStr text with - | b
  · rfl
  · obtain ⟨n, -, heq⟩ := emptyBlockFromStr_eq_some hparse
    obtain ⟨init, rfl⟩ := List.getLast?_eq_some_iff.1 h
    have hlast := getLast?_emptyBlockLine n
    rw [← heq, List.rdropWhile_concat_neg _ _ _ (by simpa using hcr), List.getLast?_concat] at hlast
    exact absurd (Option.some.inj hlast) hne

/-! #### An unfinished line -/

theorem fileBlocks_emptyBlockLine :
    fileBlocks emptyBlockFromStr (emptyBlockLine 5) = [emptyBlock 5] := by
  rw [lineParser_emptyBlockFromStr.fileBlocks_line (isLine_emptyBlockLine (by decide)).1,
    emptyBlockFromStr_emptyBlockLine]
  rfl

/-- What is appended to the line makes it no block. -/
theorem fileBlocks_continued :
    fileBlocks emptyBlockFromStr (emptyBlockLine 5 ++ ['x']) = [] := by
  have hline : '\n' ∉ emptyBlockLine 5 ++ ['x'] := by
    rw [List.mem_append, not_or]
    exact ⟨(isLine_emptyBlockLine (by decide)).1, by decide⟩
  rw [lineParser_emptyBlockFromStr.fileBlocks_line hline,
    emptyBlockFromStr_of_getLast? List.getLast?_concat (by decide) (by decide)]
  rfl

theorem hourFiles_unfinishedDir : HourFiles emptyBlockFromStr unfinishedDir := by
  intro path content h
  obtain ⟨-, rfl⟩ := eq_of_contents rfl h
  refine ⟨strictHeights_of_length_le_one (by rw [fileBlocks_emptyBlockLine]; rfl), ?_, ?_⟩
  · rw [fileBlocks_emptyBlockLine]
    intro b hb
    obtain rfl := List.mem_singleton.1 hb
    decide
  · intro text b _ hmem htext
    exact absurd hmem (newline_notMem_of_emptyBlockFromStr htext)

theorem dirAppends_continuedDir : DirAppends emptyBlockFromStr unfinishedDir continuedDir where
  ordered := by
    intro path content h
    obtain ⟨-, rfl⟩ := eq_of_contents rfl h
    refine ⟨strictHeights_of_length_le_one (by rw [fileBlocks_continued]; exact Nat.zero_le 1), ?_⟩
    rw [fileBlocks_continued]
    intro b hb
    cases hb
  appends := by
    intro path content h
    obtain ⟨rfl, rfl⟩ := eq_of_contents rfl h
    exact ⟨_, contents_file rfl, List.prefix_append _ _⟩

/-! #### A block on several lines -/

theorem getLast?_spreadText : spreadText.getLast? = some ']' := by
  rw [spreadText, List.getLast?_append_of_ne_nil _ (by simp)]
  decide

theorem newline_mem_spreadText : '\n' ∈ spreadText := by
  rw [spreadText]
  simp

theorem spreadFromStr_of_ne {text : List Char}
    (h : (text.rdropWhile fun c ↦ c = '\r') ≠ spreadText) :
    spreadFromStr text = emptyBlockFromStr text :=
  if_neg h

/-- On a line the parser is that of the empty blocks. -/
theorem spreadFromStr_line {line : List Char} (hline : '\n' ∉ line) :
    spreadFromStr line = emptyBlockFromStr line :=
  spreadFromStr_of_ne fun h ↦
    hline ((List.rdropWhile_prefix _ _).subset (h ▸ newline_mem_spreadText))

theorem lineParser_spreadFromStr : LineParser spreadFromStr where
  blank := by
    intro line hblank
    have hne : (line.rdropWhile fun c ↦ c = '\r') ≠ spreadText := by
      intro h
      have hmem : ']' ∈ line.rdropWhile fun c ↦ c = '\r' := by
        rw [h]
        exact List.mem_of_getLast? getLast?_spreadText
      replace hmem := (List.rdropWhile_prefix _ _).subset hmem
      exact absurd (List.all_eq_true.1 hblank _ hmem) (by decide)
    rw [spreadFromStr_of_ne hne, lineParser_emptyBlockFromStr.blank line hblank]
  stripCr := by
    intro line
    rw [spreadFromStr, spreadFromStr, rdropWhile_stripCr,
      lineParser_emptyBlockFromStr.stripCr line]

theorem spreadFromStr_spreadText : spreadFromStr spreadText = some (emptyBlock 3) :=
  if_pos (rdropWhile_of_getLast? getLast?_spreadText)

theorem getLast?_spreadHead : spreadHead.getLast? = some ':' := by
  rw [spreadHead, List.getLast?_append_of_ne_nil _ (by simp)]
  decide

theorem newline_notMem_spreadHead : '\n' ∉ spreadHead := by
  rw [spreadHead, List.mem_append, not_or]
  refine ⟨fun h ↦ ?_, by decide⟩
  exact (isLine_emptyBlockLine (show 3 < 10 by decide)).1
    (List.mem_of_mem_dropLast (List.mem_of_mem_dropLast h))

/-- The last line of the text is no block: a block starts with a bracket. -/
theorem emptyBlockFromStr_spreadTail : emptyBlockFromStr "\x7d]".toList = none := by
  rcases h : emptyBlockFromStr "\x7d]".toList with - | b
  · rfl
  · obtain ⟨n, -, heq⟩ := emptyBlockFromStr_eq_some h
    rw [rdropWhile_of_getLast? (by decide)] at heq
    have hhead : (emptyBlockLine n).head? = some '[' := rfl
    rw [← heq] at hhead
    exact absurd hhead (by decide)

/-- Line by line, the file has block five only. -/
theorem fileBlocks_spread :
    fileBlocks spreadFromStr (spreadText ++ '\n' :: [' ']) = [emptyBlock 5] := by
  have hline := (isLine_emptyBlockLine (show 5 < 10 by decide)).1
  have htail : '\n' ∉ "\x7d]".toList := by decide
  rw [lineParser_spreadFromStr.fileBlocks_append_newline, spreadText,
    lineParser_spreadFromStr.fileBlocks_append_newline,
    lineParser_spreadFromStr.fileBlocks_append_newline,
    lineParser_spreadFromStr.fileBlocks_line newline_notMem_spreadHead,
    lineParser_spreadFromStr.fileBlocks_line hline,
    lineParser_spreadFromStr.fileBlocks_line htail,
    lineParser_spreadFromStr.fileBlocks_line (show '\n' ∉ [' '] by decide),
    spreadFromStr_line newline_notMem_spreadHead, spreadFromStr_line hline,
    spreadFromStr_line htail, spreadFromStr_line (show '\n' ∉ [' '] by decide),
    emptyBlockFromStr_of_getLast? getLast?_spreadHead (by decide) (by decide),
    emptyBlockFromStr_emptyBlockLine, emptyBlockFromStr_spreadTail,
    lineParser_emptyBlockFromStr.blank [' '] (by decide)]
  rfl

/-- Read backwards, block three is found: the whole rest of the file is tried as one text. -/
theorem readLastCompleteLine_spread :
    readLastCompleteLine spreadFromStr (spreadText ++ '\n' :: [' ']) =
      some (some (emptyBlock 3, 3)) := by
  have hsize : (Text.utf8 (spreadText ++ '\n' :: [' '])).length ≤ chunkSize := by
    decide +kernel
  have hpos : 0 < (Text.utf8 (spreadText ++ '\n' :: [' '])).length := by
    rw [Text.utf8_append, List.length_append]
    exact Nat.add_pos_right _ (by decide)
  rw [readLastCompleteLine_eq_tried, tried_short hpos hsize (by decide) (by decide), outcome,
    List.findSome?_singleton, spreadFromStr_line (by decide),
    lineParser_emptyBlockFromStr.blank [' '] (by decide), spreadFromStr_spreadText]
  rfl

theorem orderedFiles_spreadDir : OrderedFiles spreadFromStr spreadDir := by
  intro path content h
  obtain ⟨-, rfl⟩ := eq_of_contents rfl h
  refine ⟨strictHeights_of_length_le_one (by rw [fileBlocks_spread]; rfl), ?_⟩
  rw [fileBlocks_spread]
  intro b hb
  obtain rfl := List.mem_singleton.1 hb
  decide

/-- The backfill skips the file: block three is below the cutoff. -/
theorem tryBackfillLocalBlocks_spreadDir :
    tryBackfillLocalBlocks spreadFromStr exampleParseDate spreadDir (.new cacheSize) 5 =
      some (.new cacheSize) := by
  have hfiles : allHourlyFiles exampleParseDate spreadDir = [⟨"20250731", "4"⟩] := by
    have hmap : spreadDir.files.map Prod.fst = [⟨"20250731", "4"⟩] := rfl
    rw [allHourlyFiles, hmap]
    decide +kernel
  have hread : readLastBlockFromFile spreadFromStr spreadDir ⟨"20250731", "4"⟩ =
      some (some (emptyBlock 3, 3)) := by
    rw [readLastBlockFromFile, contents_file rfl]
    exact readLastCompleteLine_spread
  rw [tryBackfillLocalBlocks, hfiles, List.foldlM_cons, backfillFile, hread]
  rfl

/-- **What the conditions are for.** A block whose line is not finished is lost when something else
is appended to it; and a block is never found in a file that ends with a block on several lines. -/
theorem not_servesLocalBlocks :
    (HourFiles emptyBlockFromStr unfinishedDir ∧
      ¬ ServesLocalBlocks emptyBlockFromStr exampleParseDate (DirAppends emptyBlockFromStr)
        unfinishedDir 5) ∧
    (OrderedFiles spreadFromStr spreadDir ∧
      ¬ ServesLocalBlocks spreadFromStr exampleParseDate (DirGrows spreadFromStr) spreadDir 5) := by
  have hlisted : (datetimeFromPath exampleParseDate ⟨"20250731", "4"⟩).isSome := by
    decide +kernel
  refine ⟨⟨hourFiles_unfinishedDir, ?_⟩, orderedFiles_spreadDir, ?_⟩
  · rintro ⟨cache, -, hserve⟩
    obtain ⟨path, content, -, hcontent, ⟨b, hb, -⟩, -⟩ :=
      (hserve ⟨continuedDir, cache, none⟩ (.single (.write dirAppends_continuedDir))).2 5 le_rfl
        ⟨_, (mem_allHourlyFiles _).2 ⟨List.mem_singleton_self _, hlisted⟩, _, contents_file rfl,
          emptyBlock 5, by rw [fileBlocks_emptyBlockLine]; exact List.mem_singleton_self _, rfl⟩
    obtain ⟨-, rfl⟩ := @eq_of_contents continuedDir _ _ rfl _ _ hcontent
    rw [fileBlocks_continued] at hb
    cases hb
  · rintro ⟨cache, hcache, hserve⟩
    obtain rfl := Option.some.inj (tryBackfillLocalBlocks_spreadDir.symm.trans hcache)
    obtain ⟨path, content, hpath, -⟩ := (hserve _ .refl).2 5 le_rfl
      ⟨_, (mem_allHourlyFiles _).2 ⟨List.mem_singleton_self _, hlisted⟩, _, contents_file rfl,
        emptyBlock 5, by rw [fileBlocks_spread]; exact List.mem_singleton_self _, rfl⟩
    cases hpath

end RethHl.HlNode
