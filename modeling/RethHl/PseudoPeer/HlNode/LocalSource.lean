import RethHl.PseudoPeer.HlNode.Latest
import RethHl.PseudoPeer.HlNode.Rollover

/-!
# The local source as a whole

`HlNodeBlockSource::new` reads what the directory holds (`LocalSource.proceed` in the phases
`backfill` and `rescan`), looks for the newest file (`search`), and then follows the files hour by
hour (`follow`). Meanwhile `hl-node` writes, the clock goes on, and requests take blocks out of the
cache. The backfill reads a file twice, once for its last block and once for its ranges, and the
loop reads a file long before it stores what it found, so that the writer gets in between.

The invariant (`LocalSource.Invariant`) is about what the source **has read**. What it read of a
file is still in the file, and every block of it at or above the cutoff has a file in the cache, or
is in the scan that waits for the cache. The loop does not read a file from its beginning each time:
the lines that it passes over are those that appending cannot change (`Text.FixedBefore`), so that
they were read before.
-/

namespace RethHl.HlNode

/-- Where the source is. -/
inductive SourcePhase where
  /-- The backfill, with the files that are left. -/
  | backfill (files : List HourPath)
  /-- The backfill, after it has read the last block of a file and before it scans the file. -/
  | rescan (subfile : HourPath) (files : List HourPath)
  /-- The ingest loop, before there is a file. -/
  | search
  /-- The ingest loop, at a file. -/
  | follow (hour : ℕ) (tail : TailState) (phase : IngestPhase)
  | panicked
  deriving DecidableEq, Repr

namespace SourcePhase

/-- The hour whose file is followed. -/
def hour? : SourcePhase → Option ℕ
  | .follow hour _ _ => some hour
  | _ => none

/-- The scan that is not loaded yet. -/
def pending : SourcePhase → Option ScanResult
  | .follow _ _ (.record scanResult) => some scanResult
  | _ => none

/-- Requests come after the backfill only. -/
def IsReady : SourcePhase → Prop
  | .backfill _ => False
  | .rescan _ _ => False
  | _ => True

end SourcePhase

/-- The clock, the directory, the cache and the phase of the source. -/
structure LocalSource where
  clock : ℕ
  dir : HourlyDir
  cache : LocalBlocksCache
  phase : SourcePhase
  /-- The text of each file when the source last read it. No function looks at this. -/
  read : HourPath → Option (List Char)

namespace LocalSource

section Source

variable (fromStr : List Char → Option BlockAndReceipts) (parseDate : String → Option ℕ)
  (formatDate : ℕ → String) (cutoffHeight : ℕ)

/-- `HlNodeBlockSource::new`, up to the listing of the files. -/
def start (clock : ℕ) (dir : HourlyDir) : LocalSource where
  clock := clock
  dir := dir
  cache := .new cacheSize
  phase := .backfill (allHourlyFiles parseDate dir)
  read := fun _ ↦ none

/-- Note the text of a file. -/
def noteRead (s : LocalSource) (path : HourPath) : HourPath → Option (List Char) :=
  Function.update s.read path (s.dir.contents path)

/-- The next step of `HlNodeBlockSource::run`: of `try_backfill_local_blocks`, or of
`start_local_ingest_loop`. -/
def proceed (s : LocalSource) : LocalSource :=
  match s.phase with
  | .backfill [] => { s with phase := .search }
  | .backfill (subfile :: files) =>
    match readLastBlockFromFile fromStr s.dir subfile with
    | none => { s with phase := .panicked }
    | some last =>
      if last.any fun result ↦ result.2 < cutoffHeight then
        { s with phase := .backfill files, read := s.noteRead subfile }
      else { s with phase := .rescan subfile files }
  | .rescan subfile files =>
    match s.dir.contents subfile with
    | none => { s with phase := .panicked }
    | some content =>
      let scanResult := (scanHourFile fromStr ⟨cutoffHeight, true⟩ subfile content 0).1
      { s with
        cache := s.cache.loadScanResult { scanResult with newBlocks := [] }
        phase := .backfill files
        read := s.noteRead subfile }
  | .search =>
    match findLatestHourlyFile parseDate s.dir with
    | none => s
    | some path =>
      match datetimeFromPath parseDate path with
      | none => { s with phase := .panicked }
      | some (date, hour) => { s with phase := .follow (date * 24 + hour) ⟨0, cutoffHeight⟩ .read }
  | .follow hour tail .read =>
    match s.dir.contents (hourFile formatDate hour) with
    | none => { s with phase := .follow hour tail .readClock }
    | some content =>
      let result := poll fromStr (hourFile formatDate hour) tail content
      { s with
        phase := .follow hour result.2 (.record result.1)
        read := s.noteRead (hourFile formatDate hour) }
  | .follow hour tail (.record scanResult) =>
    { s with
      cache := s.cache.loadScanResult scanResult
      phase := .follow hour tail .readClock }
  | .follow hour tail .readClock => { s with phase := .follow hour tail (.decide s.clock) }
  | .follow hour tail (.decide now) =>
    if hour * oneHour + oneHour < now then
      { s with phase := .follow (hour + 1) { tail with lastLine := 0 } .read }
    else { s with phase := .follow hour tail .read }
  | .panicked => s

/-- One step of the clock, of `hl-node`, of a request or of the source. -/
inductive Step : LocalSource → LocalSource → Prop
  | tick {s : LocalSource} {clock : ℕ} (h : s.clock ≤ clock) : Step s { s with clock := clock }
  /-- `hl-node` writes to the file of the hour. -/
  | write {s : LocalSource} {dir' : HourlyDir} (h : DirGrows fromStr s.dir dir')
    (hcurrent : ∀ path ≠ hourFile formatDate (s.clock / oneHour),
      dir'.contents path = s.dir.contents path) :
    Step s { s with dir := dir' }
  /-- A request, which has the cache to itself. -/
  | collect {s : LocalSource} {height : ℕ} {r : Option BlockAndReceipts}
    {cache' : LocalBlocksCache} (hready : s.phase.IsReady)
    (h : tryCollectLocalBlock fromStr s.dir s.cache height = some (r, cache')) :
    Step s { s with cache := cache' }
  | proceed {s : LocalSource} : Step s (s.proceed fromStr parseDate formatDate cutoffHeight)

/-- The files are as the source last read them, those of an hour and of later hours apart. -/
def Settled (s : LocalSource) (hour : ℕ) : Prop :=
  ∀ path ∈ allHourlyFiles parseDate s.dir, (∀ h, hour ≤ h → path ≠ hourFile formatDate h) →
    s.read path = s.dir.contents path

/-- A step that comes to an hour only while the files of all other hours are as the source last
read them. -/
def QuietStep (s s' : LocalSource) : Prop :=
  Step fromStr parseDate formatDate cutoffHeight s s' ∧
    ∀ hour ∈ s'.phase.hour?, s.phase.hour? ≠ some hour → s.Settled parseDate formatDate hour

/-- A request for a height finds its file, and succeeds unless the file is so large that loading it
evicts the block again. -/
def Serves (s : LocalSource) (height : ℕ) : Prop :=
  ∃ path content, s.cache.getPathForHeight height = some path ∧
    s.dir.contents path = some content ∧ HasHeight fromStr content height ∧
    ∃ r cache', tryCollectLocalBlock fromStr s.dir s.cache height = some (r, cache') ∧
      (r.isSome ↔ (s.cache.cache.get height).isSome ∨
        distinctHeightsAfter fromStr content height < cacheSize) ∧
      ∀ b ∈ r, b.number = height ∧
        (s.cache.cache.get height = some b ∨ b ∈ fileBlocks fromStr content)

/-! ### The invariant -/

/-- A height has a file, or will have one when the scan of a file is loaded. -/
def Knows (s : LocalSource) (path : HourPath) (height : ℕ) : Prop :=
  (s.cache.getPathForHeight height).isSome ∨
    ∃ scanResult ∈ s.phase.pending, scanResult.path = path ∧
      ∃ r ∈ scanResult.newBlockRanges, r.1 ≤ height ∧ height ≤ r.2

/-- What holds while a file is followed. -/
structure FollowInvariant (clock : ℕ) (read : HourPath → Option (List Char)) (hour : ℕ)
    (tail : TailState) : Prop where
  hour_le : hour ≤ clock / oneHour
  passed : tail.lastLine = 0 ∨
    ∃ text, read (hourFile formatDate hour) = some text ∧ Text.FixedBefore text tail.lastLine

/-- What holds in each phase of an iteration. -/
def IngestInvariant (clock : ℕ) (dir : HourlyDir) (hour : ℕ) : IngestPhase → Prop
  | .record scanResult =>
    scanResult.path = hourFile formatDate hour ∧ ScannedFrom fromStr dir scanResult
  | .decide now => now ≤ clock
  | _ => True

/-- What holds in each phase. -/
def PhaseInvariant (clock : ℕ) (dir : HourlyDir) (read : HourPath → Option (List Char)) :
    SourcePhase → Prop
  | .backfill files => ∀ path ∈ files, path ∈ dir.files.map Prod.fst
  | .rescan subfile files => ∀ path ∈ subfile :: files, path ∈ dir.files.map Prod.fst
  | .search => True
  | .follow hour tail phase =>
    FollowInvariant formatDate clock read hour tail ∧
      IngestInvariant fromStr formatDate clock dir hour phase
  | .panicked => False

/-- The invariant of every run. -/
structure Invariant (s : LocalSource) : Prop where
  hour_files : HourFiles fromStr s.dir
  linked : Linked fromStr s.dir s.cache
  /-- No file is of an hour to come. -/
  timely : ∀ file ∈ timedFiles parseDate s.dir, file.1.1 * 24 + file.1.2 ≤ s.clock / oneHour
  /-- What was read of a file is still there. -/
  kept : ∀ path text, s.read path = some text →
    ∃ content, s.dir.contents path = some content ∧ Grows fromStr text content
  /-- What was read of a file is known. -/
  known : ∀ path text, s.read path = some text → ∀ height, cutoffHeight ≤ height →
    HasHeight fromStr text height → s.Knows path height
  phase : PhaseInvariant fromStr formatDate s.clock s.dir s.read s.phase

variable {fromStr parseDate formatDate cutoffHeight}

/-! ### Files and hours -/

theorem mem_files_iff {dir : HourlyDir} {path : HourPath} :
    path ∈ dir.files.map Prod.fst ↔ ∃ content, dir.contents path = some content := by
  refine ⟨HourlyDir.exists_contents, fun ⟨content, hcontent⟩ ↦ ?_⟩
  obtain ⟨before, after, hfiles, -⟩ := List.lookup_eq_some_iff.1 hcontent
  exact List.mem_map.2 ⟨(path, content), hfiles ▸ by simp, rfl⟩

/-- The hours of a day are read as they are written. -/
theorem parseU8_toString {hour : ℕ} (h : hour < 24) :
    parseU8 (toString hour).toList = some hour := by
  revert hour
  decide

/-- The file of an hour names the hour, if its date does. -/
theorem datetimeFromPath_hourFile {hour : ℕ}
    (hdate : parseDate (formatDate (hour / 24)) = some (hour / 24)) :
    datetimeFromPath parseDate (hourFile formatDate hour) = some (hour / 24, hour % 24) := by
  have hlt : hour % 24 < 24 := Nat.mod_lt hour (by decide)
  rw [datetimeFromPath, hourFile, hdate, parseU8_toString hlt]
  exact if_pos hlt

/-- A poll stays in front of the last line that it has seen. -/
theorem fixedBefore_poll {path : HourPath} {tail : TailState} {content : List Char}
    (h : tail.lastLine = 0 ∨ Text.FixedBefore content tail.lastLine) :
    (poll fromStr path tail content).2.lastLine = 0 ∨
      Text.FixedBefore content (poll fromStr path tail content).2.lastLine := by
  rcases lastLine_poll path tail content with heq | ⟨-, hlt⟩
  · rw [heq]
    exact h
  · exact Or.inr (Text.fixedBefore_of_lt hlt)

/-- **A poll finds every block of the file that it had not passed before.** -/
theorem poll_finds {path : HourPath} {tail : TailState} {content : List Char}
    (hfile : HourFile fromStr content) {height : ℕ} (h : HasHeight fromStr content height) :
    (∃ r ∈ (poll fromStr path tail content).1.newBlockRanges, r.1 ≤ height ∧ height ≤ r.2) ∨
      ∃ j < tail.lastLine, ∃ b, completeLine fromStr content j = some b ∧ b.number = height := by
  obtain ⟨b, hb, rfl⟩ := h
  obtain ⟨j, hj⟩ := mem_fileBlocks.1 hb
  rcases Nat.lt_or_ge j tail.lastLine with hlt | hge
  · exact Or.inr ⟨j, hlt, b, hj, rfl⟩
  · refine Or.inl ((mem_newBlockRanges_iff ?_ b.number).2
      ⟨(j, b), mem_parsedFrom_lines.2 ⟨hge, hj⟩, rfl⟩)
    rintro ⟨i, c⟩ hc
    exact hfile.below c (mem_fileBlocks.2 ⟨i, (mem_parsedFrom_lines.1 hc).2⟩)

/-- The file that a request for a height is answered from. -/
theorem serves_of_isSome {s : LocalSource} (hfiles : HourFiles fromStr s.dir)
    (hlinked : Linked fromStr s.dir s.cache) {height : ℕ}
    (h : (s.cache.getPathForHeight height).isSome) : s.Serves fromStr height := by
  obtain ⟨path, hpath⟩ := Option.isSome_iff_exists.1 h
  obtain ⟨content, hcontent, hheight⟩ := hlinked.path height path hpath
  obtain ⟨r, cache', hcollect, hiff, hfrom⟩ :=
    tryCollectLocalBlock_eq hlinked hpath hcontent hheight
  obtain ⟨r', cache'', hcollect', -, hnumber, -⟩ := hlinked.tryCollectLocalBlock hfiles height
  obtain ⟨rfl, -⟩ := Prod.mk.inj (Option.some.inj (hcollect.symm.trans hcollect'))
  exact ⟨path, content, hpath, hcontent, hheight, r, cache', hcollect, hiff,
    fun b hb ↦ ⟨hnumber b hb, hfrom b hb⟩⟩

/-! ### The steps of the others -/

theorem Invariant.tick {s : LocalSource}
    (h : s.Invariant fromStr parseDate formatDate cutoffHeight) {clock : ℕ}
    (hclock : s.clock ≤ clock) :
    Invariant fromStr parseDate formatDate cutoffHeight { s with clock := clock } where
  hour_files := h.hour_files
  linked := h.linked
  timely := fun file hfile ↦ (h.timely file hfile).trans (Nat.div_le_div_right hclock)
  kept := h.kept
  known := h.known
  phase := by
    have hphase := h.phase
    show PhaseInvariant fromStr formatDate clock s.dir s.read s.phase
    rcases hs : s.phase with files | ⟨subfile, files⟩ | - | ⟨hour, tail, phase⟩ | - <;>
      rw [hs] at hphase
    · exact hphase
    · exact hphase
    · trivial
    · refine ⟨⟨hphase.1.hour_le.trans (Nat.div_le_div_right hclock), hphase.1.passed⟩, ?_⟩
      rcases phase with - | scanResult | - | now
      · trivial
      · exact hphase.2
      · trivial
      · exact le_trans hphase.2 hclock
    · exact hphase

/-- The writer writes to the hour of the clock, and leaves what was read in place. -/
theorem Invariant.write {s : LocalSource}
    (h : s.Invariant fromStr parseDate formatDate cutoffHeight) {dir' : HourlyDir}
    (hdate : parseDate (formatDate (s.clock / oneHour / 24)) = some (s.clock / oneHour / 24))
    (hgrows : DirGrows fromStr s.dir dir')
    (hcurrent : ∀ path ≠ hourFile formatDate (s.clock / oneHour),
      dir'.contents path = s.dir.contents path) :
    Invariant fromStr parseDate formatDate cutoffHeight { s with dir := dir' } where
  hour_files := hgrows.hour_files
  linked :=
    { limit := h.linked.limit
      stored := h.linked.stored
      path := fun height path hpath ↦ hgrows.hasHeight (h.linked.path height path hpath) }
  timely := by
    rintro ⟨dt, path⟩ hfile
    obtain ⟨hmem, hdt⟩ := mem_timedFiles.1 hfile
    by_cases hpath : path = hourFile formatDate (s.clock / oneHour)
    · have hnow : datetimeFromPath parseDate path = _ :=
        (congrArg _ hpath).trans (datetimeFromPath_hourFile hdate)
      obtain rfl := Option.some.inj (hdt.symm.trans hnow)
      exact (Nat.div_add_mod' (s.clock / oneHour) 24).le
    · obtain ⟨content, hcontent⟩ := mem_files_iff.1 hmem
      refine h.timely (dt, path) (mem_timedFiles.2 ⟨mem_files_iff.2 ⟨content, ?_⟩, hdt⟩)
      rw [← hcurrent path hpath]
      exact hcontent
  kept := by
    intro path text hread
    obtain ⟨content, hcontent, hgrow⟩ := h.kept path text hread
    obtain ⟨content', hcontent', hgrow'⟩ := hgrows.grows path content hcontent
    exact ⟨content', hcontent', hgrow.appends.trans hgrow'.appends,
      fun j b hb ↦ hgrow'.keeps j b (hgrow.keeps j b hb)⟩
  known := h.known
  phase := by
    have hmem : ∀ path, path ∈ s.dir.files.map Prod.fst → path ∈ dir'.files.map Prod.fst := by
      intro path hpath
      obtain ⟨content, hcontent⟩ := mem_files_iff.1 hpath
      obtain ⟨content', hcontent', -⟩ := hgrows.grows path content hcontent
      exact mem_files_iff.2 ⟨content', hcontent'⟩
    have hphase := h.phase
    show PhaseInvariant fromStr formatDate s.clock dir' s.read s.phase
    rcases hs : s.phase with files | ⟨subfile, files⟩ | - | ⟨hour, tail, phase⟩ | - <;>
      rw [hs] at hphase
    · exact fun path hpath ↦ hmem path (hphase path hpath)
    · exact fun path hpath ↦ hmem path (hphase path hpath)
    · trivial
    · refine ⟨hphase.1, ?_⟩
      rcases phase with - | scanResult | - | now
      · trivial
      · exact ⟨hphase.2.1, fun height hin ↦ hgrows.hasHeight (hphase.2.2 height hin)⟩
      · trivial
      · exact hphase.2
    · exact hphase

/-- A request may take a block out of the cache, but forgets no file. -/
theorem Invariant.collect {s : LocalSource}
    (h : s.Invariant fromStr parseDate formatDate cutoffHeight) {height : ℕ}
    {r : Option BlockAndReceipts} {cache' : LocalBlocksCache}
    (hcollect : tryCollectLocalBlock fromStr s.dir s.cache height = some (r, cache')) :
    Invariant fromStr parseDate formatDate cutoffHeight { s with cache := cache' } := by
  obtain ⟨r', cache'', hrun, hlinked, -, hkeep⟩ :=
    h.linked.tryCollectLocalBlock h.hour_files height
  obtain ⟨-, rfl⟩ := Prod.mk.inj (Option.some.inj (hrun.symm.trans hcollect))
  exact
    { hour_files := h.hour_files
      linked := hlinked
      timely := h.timely
      kept := h.kept
      known := fun path text hread n hn hheight ↦
        (h.known path text hread n hn hheight).imp_left (hkeep n)
      phase := h.phase }

/-! ### The steps of the source -/

/-- Where no scan waits for the cache, the phase may change. -/
theorem Invariant.setPhase {s : LocalSource}
    (h : s.Invariant fromStr parseDate formatDate cutoffHeight) (hpending : s.phase.pending = none)
    (phase : SourcePhase)
    (hphase : PhaseInvariant fromStr formatDate s.clock s.dir s.read phase) :
    Invariant fromStr parseDate formatDate cutoffHeight { s with phase := phase } where
  hour_files := h.hour_files
  linked := h.linked
  timely := h.timely
  kept := h.kept
  known := by
    intro path text hread height hcutoff hheight
    rcases h.known path text hread height hcutoff hheight with hsome | ⟨scanResult, hscan, -⟩
    · exact Or.inl hsome
    · rw [hpending] at hscan
      exact nomatch hscan
  phase := hphase

theorem noteRead_eq_some {s : LocalSource} {path path' : HourPath} {text : List Char}
    (h : s.noteRead path path' = some text) :
    path' = path ∧ s.dir.contents path = some text ∨ path' ≠ path ∧ s.read path' = some text := by
  rw [noteRead, Function.update_apply] at h
  split_ifs at h with hpath
  · exact Or.inl ⟨hpath, h⟩
  · exact Or.inr ⟨hpath, h⟩

/-- A file is read: its blocks must be known afterwards. -/
theorem Invariant.readFile {s : LocalSource}
    (h : s.Invariant fromStr parseDate formatDate cutoffHeight) (hpending : s.phase.pending = none)
    (path : HourPath) (cache' : LocalBlocksCache) (phase' : SourcePhase)
    (hlinked : Linked fromStr s.dir cache')
    (hkeep : ∀ n, (s.cache.getPathForHeight n).isSome → (cache'.getPathForHeight n).isSome)
    (hknown : ∀ content, s.dir.contents path = some content → ∀ height, cutoffHeight ≤ height →
      HasHeight fromStr content height →
        Knows { s with cache := cache', phase := phase', read := s.noteRead path } path height)
    (hphase : PhaseInvariant fromStr formatDate s.clock s.dir (s.noteRead path) phase') :
    Invariant fromStr parseDate formatDate cutoffHeight
      { s with cache := cache', phase := phase', read := s.noteRead path } where
  hour_files := h.hour_files
  linked := hlinked
  timely := h.timely
  kept := by
    intro path' text hread
    rcases noteRead_eq_some hread with ⟨rfl, hcontent⟩ | ⟨-, hread⟩
    · exact ⟨text, hcontent, List.prefix_rfl, fun _ _ hb ↦ hb⟩
    · exact h.kept path' text hread
  known := by
    intro path' text hread height hcutoff hheight
    rcases noteRead_eq_some hread with ⟨rfl, hcontent⟩ | ⟨-, hread⟩
    · exact hknown text hcontent height hcutoff hheight
    · rcases h.known path' text hread height hcutoff hheight with hsome | ⟨scanResult, hscan, -⟩
      · exact Or.inl (hkeep height hsome)
      · rw [hpending] at hscan
        exact nomatch hscan
  phase := hphase

section Backfill

variable {s : LocalSource}
  (h : s.Invariant fromStr parseDate formatDate cutoffHeight) {subfile : HourPath}
  {files : List HourPath}

include h

/-- The backfill looks at the last block of a file. A file that is skipped has no height that is
wanted. -/
theorem Invariant.proceed_backfill (hparser : LineParser fromStr)
    (hs : s.phase = .backfill (subfile :: files)) :
    Invariant fromStr parseDate formatDate cutoffHeight
      (s.proceed fromStr parseDate formatDate cutoffHeight) := by
  have hphase := h.phase
  rw [hs] at hphase
  have hpending : s.phase.pending = none := congrArg SourcePhase.pending hs
  obtain ⟨content, hcontent⟩ := mem_files_iff.1 (hphase subfile List.mem_cons_self)
  have hfile := h.hour_files subfile content hcontent
  obtain ⟨last, hread, hlast⟩ := readLastCompleteLine_eq hparser hfile
  have hread : readLastBlockFromFile fromStr s.dir subfile = some last := by
    rw [readLastBlockFromFile, hcontent]
    exact hread
  rw [proceed, hs]
  simp only [hread]
  by_cases hskip : (last.any fun result ↦ result.2 < cutoffHeight) = true
  · rw [if_pos hskip]
    refine h.readFile hpending subfile _ (.backfill files) h.linked (fun n hn ↦ hn) ?_
      fun path hpath ↦ hphase path (List.mem_cons_of_mem _ hpath)
    rintro content' hcontent' height hcutoff ⟨b, hb, rfl⟩
    obtain rfl := Option.some.inj (hcontent.symm.trans hcontent')
    obtain ⟨result, hresult, hbelow⟩ := (Option.any_eq_true _ _).1 hskip
    obtain ⟨hgetLast, hnumber⟩ := hlast result hresult
    have hle := number_le_getLast hfile.increasing hgetLast hb
    have hlt : result.2 < cutoffHeight := of_decide_eq_true hbelow
    omega
  · rw [if_neg hskip]
    exact h.setPhase hpending (.rescan subfile files) hphase

/-- The backfill stores the ranges of a file. -/
theorem Invariant.proceed_rescan (hs : s.phase = .rescan subfile files) :
    Invariant fromStr parseDate formatDate cutoffHeight
      (s.proceed fromStr parseDate formatDate cutoffHeight) := by
  have hphase := h.phase
  rw [hs] at hphase
  obtain ⟨content, hcontent⟩ := mem_files_iff.1 (hphase subfile List.mem_cons_self)
  have hfile := h.hour_files subfile content hcontent
  rw [proceed, hs]
  simp only [hcontent]
  set scanResult := (scanHourFile fromStr ⟨cutoffHeight, true⟩ subfile content 0).1
  have hscan : ScannedFrom fromStr s.dir { scanResult with newBlocks := [] } :=
    scannedFrom_scanHourFile hfile hcontent ⟨cutoffHeight, true⟩ 0
  refine h.readFile (congrArg SourcePhase.pending hs) subfile _ (.backfill files)
    (h.linked.loadScanResult hscan)
    (fun n hn ↦ (isSome_getPathForHeight_loadScanResult_iff _ n).2 (Or.inl hn)) ?_
    fun path hpath ↦ hphase path (List.mem_cons_of_mem _ hpath)
  intro content' hcontent' height _ hheight
  obtain rfl := Option.some.inj (hcontent.symm.trans hcontent')
  exact Or.inl ((isSome_getPathForHeight_loadScanResult_iff _ height).2
    (Or.inr ((mem_ranges_scanHourFile_iff hfile ⟨cutoffHeight, true⟩ subfile height).2 hheight)))

end Backfill

/-- The newest file gives the hour to begin with. -/
theorem Invariant.proceed_search {s : LocalSource}
    (h : s.Invariant fromStr parseDate formatDate cutoffHeight) (hs : s.phase = .search) :
    Invariant fromStr parseDate formatDate cutoffHeight
      (s.proceed fromStr parseDate formatDate cutoffHeight) := by
  rw [proceed, hs]
  rcases hlatest : findLatestHourlyFile parseDate s.dir with - | path
  · exact h
  · obtain ⟨⟨date, hour⟩, hfile, -⟩ := notAfter_findLatestHourlyFile hlatest
    have hhour : date * 24 + hour ≤ s.clock / oneHour := h.timely ((date, hour), path) hfile
    have hdt : datetimeFromPath parseDate path = some (date, hour) := (mem_timedFiles.1 hfile).2
    simp only [hdt]
    exact h.setPhase (congrArg SourcePhase.pending hs)
      (.follow (date * 24 + hour) ⟨0, cutoffHeight⟩ .read) ⟨⟨hhour, Or.inl rfl⟩, trivial⟩

section Follow

variable {s : LocalSource} (h : s.Invariant fromStr parseDate formatDate cutoffHeight) {hour : ℕ}
  {tail : TailState}

include h

/-- The loop reads the file. What it has passed it knows from the reading before. -/
theorem Invariant.proceed_read (hs : s.phase = .follow hour tail .read) :
    Invariant fromStr parseDate formatDate cutoffHeight
      (s.proceed fromStr parseDate formatDate cutoffHeight) := by
  have hphase := h.phase
  rw [hs] at hphase
  obtain ⟨⟨hhour, htail⟩, -⟩ := hphase
  have hpending : s.phase.pending = none := congrArg SourcePhase.pending hs
  rw [proceed, hs]
  rcases hcontent : s.dir.contents (hourFile formatDate hour) with - | content
  · simp only [hcontent]
    exact h.setPhase hpending (.follow hour tail .readClock) ⟨⟨hhour, htail⟩, trivial⟩
  · have hfile := h.hour_files _ content hcontent
    have hnote : s.noteRead (hourFile formatDate hour) (hourFile formatDate hour) =
        some content := (Function.update_self _ _ _).trans hcontent
    have hfixed : tail.lastLine = 0 ∨ Text.FixedBefore content tail.lastLine := by
      rcases htail with hzero | ⟨text, hread, hbefore⟩
      · exact Or.inl hzero
      · obtain ⟨content', hcontent', hgrow⟩ := h.kept _ text hread
        obtain rfl := Option.some.inj (hcontent.symm.trans hcontent')
        obtain ⟨u, rfl⟩ := hgrow.appends
        exact Or.inr (hbefore.append u)
    simp only [hcontent]
    refine h.readFile hpending (hourFile formatDate hour) s.cache (.follow hour _ (.record _))
      h.linked (fun n hn ↦ hn) ?_ ⟨⟨hhour, (fixedBefore_poll hfixed).imp_right
        fun hfixed' ↦ ⟨content, hnote, hfixed'⟩⟩, rfl, scannedFrom_scanHourFile hfile hcontent _ _⟩
    intro content' hcontent' height hcutoff hheight
    obtain rfl := Option.some.inj (hcontent.symm.trans hcontent')
    rcases poll_finds hfile hheight with hrange | ⟨j, hj, b, hb, rfl⟩
    · exact Or.inr ⟨_, rfl, rfl, hrange⟩
    · rcases htail with hzero | ⟨text, hread, hbefore⟩
      · rw [hzero] at hj
        exact absurd hj (Nat.not_lt_zero j)
      · -- the line was there at the reading before
        obtain ⟨content', hcontent', hgrow⟩ := h.kept _ text hread
        obtain rfl := Option.some.inj (hcontent.symm.trans hcontent')
        obtain ⟨u, rfl⟩ := hgrow.appends
        have hold : completeLine fromStr text j = some b := by
          rw [completeLine, ← hbefore u j hj]
          exact hb
        rcases h.known _ text hread b.number hcutoff ⟨b, mem_fileBlocks.2 ⟨j, hold⟩, rfl⟩ with
          hsome | ⟨scanResult, hscan, -⟩
        · exact Or.inl hsome
        · rw [hpending] at hscan
          cases hscan

/-- The loop loads its scan. -/
theorem Invariant.proceed_record {scanResult : ScanResult}
    (hs : s.phase = .follow hour tail (.record scanResult)) :
    Invariant fromStr parseDate formatDate cutoffHeight
      (s.proceed fromStr parseDate formatDate cutoffHeight) := by
  have hphase := h.phase
  rw [hs] at hphase
  obtain ⟨hfollow, -, hscan⟩ := hphase
  rw [proceed, hs]
  exact
    { hour_files := h.hour_files
      linked := h.linked.loadScanResult hscan
      timely := h.timely
      kept := h.kept
      known := by
        intro path text hread height hcutoff hheight
        refine Or.inl ((isSome_getPathForHeight_loadScanResult_iff _ height).2 ?_)
        rcases h.known path text hread height hcutoff hheight with hsome | ⟨scan, hpending, -, hin⟩
        · exact Or.inl hsome
        · have hsame : some scanResult = some scan :=
            (congrArg SourcePhase.pending hs).symm.trans hpending
          rw [Option.some.inj hsame]
          exact Or.inr hin
      phase := ⟨hfollow, trivial⟩ }

theorem Invariant.proceed_readClock (hs : s.phase = .follow hour tail .readClock) :
    Invariant fromStr parseDate formatDate cutoffHeight
      (s.proceed fromStr parseDate formatDate cutoffHeight) := by
  have hphase := h.phase
  rw [hs] at hphase
  rw [proceed, hs]
  exact h.setPhase (congrArg SourcePhase.pending hs) (.follow hour tail (.decide s.clock))
    ⟨hphase.1, le_rfl⟩

/-- The loop goes on to the next hour only when the clock has come to it. -/
theorem Invariant.proceed_decide {now : ℕ} (hs : s.phase = .follow hour tail (.decide now)) :
    Invariant fromStr parseDate formatDate cutoffHeight
      (s.proceed fromStr parseDate formatDate cutoffHeight) := by
  have hphase := h.phase
  rw [hs] at hphase
  obtain ⟨hfollow, hnow⟩ := hphase
  rw [proceed, hs]
  by_cases hover : hour * oneHour + oneHour < now
  · simp only [if_pos hover]
    refine h.setPhase (congrArg SourcePhase.pending hs) (.follow (hour + 1) _ .read)
      ⟨⟨?_, Or.inl rfl⟩, trivial⟩
    rw [Nat.le_div_iff_mul_le (by decide), Nat.succ_mul]
    exact hover.le.trans hnow
  · simp only [if_neg hover]
    exact h.setPhase (congrArg SourcePhase.pending hs) (.follow hour tail .read)
      ⟨hfollow, trivial⟩

end Follow

/-! ### Runs -/

/-- **The source keeps the invariant.** -/
theorem Invariant.proceed (hparser : LineParser fromStr) {s : LocalSource}
    (h : s.Invariant fromStr parseDate formatDate cutoffHeight) :
    Invariant fromStr parseDate formatDate cutoffHeight
      (s.proceed fromStr parseDate formatDate cutoffHeight) := by
  rcases hs : s.phase with (- | ⟨subfile, files⟩) | ⟨subfile, files⟩ | - |
    ⟨hour, tail, (- | scanResult | - | now)⟩ | -
  · rw [LocalSource.proceed, hs]
    exact h.setPhase (congrArg SourcePhase.pending hs) .search trivial
  · exact h.proceed_backfill hparser hs
  · exact h.proceed_rescan hs
  · exact h.proceed_search hs
  · exact h.proceed_read hs
  · exact h.proceed_record hs
  · exact h.proceed_readClock hs
  · exact h.proceed_decide hs
  · have hphase := h.phase
    rw [hs] at hphase
    exact hphase.elim

theorem proceed_clock (s : LocalSource) :
    (s.proceed fromStr parseDate formatDate cutoffHeight).clock = s.clock := by
  rw [LocalSource.proceed]
  repeat' split
  all_goals rfl

theorem proceed_dir (s : LocalSource) :
    (s.proceed fromStr parseDate formatDate cutoffHeight).dir = s.dir := by
  rw [LocalSource.proceed]
  repeat' split
  all_goals rfl

/-- The clock does not go back. -/
theorem Step.clock_le {s s' : LocalSource}
    (h : Step fromStr parseDate formatDate cutoffHeight s s') : s.clock ≤ s'.clock := by
  rcases h with hclock | - | - | -
  · exact hclock
  · exact le_rfl
  · exact le_rfl
  · exact (proceed_clock s).ge

/-- **Every step keeps the invariant**, while dates are read as they are written. -/
theorem Invariant.step (hparser : LineParser fromStr) {s s' : LocalSource}
    (h : s.Invariant fromStr parseDate formatDate cutoffHeight)
    (hdate : parseDate (formatDate (s.clock / oneHour / 24)) = some (s.clock / oneHour / 24))
    (hstep : Step fromStr parseDate formatDate cutoffHeight s s') :
    s'.Invariant fromStr parseDate formatDate cutoffHeight := by
  rcases hstep with hclock | ⟨hgrows, hcurrent⟩ | ⟨-, hcollect⟩ | -
  · exact h.tick hclock
  · exact h.write hdate hgrows hcurrent
  · exact h.collect hcollect
  · exact h.proceed hparser

theorem invariant_start {clock : ℕ} {dir : HourlyDir} (hfiles : HourFiles fromStr dir)
    (htimely : ∀ file ∈ timedFiles parseDate dir,
      file.1.1 * 24 + file.1.2 ≤ clock / oneHour) :
    (start parseDate clock dir).Invariant fromStr parseDate formatDate cutoffHeight where
  hour_files := hfiles
  linked := linked_new
  timely := htimely
  kept := nofun
  known := nofun
  phase := fun _ hpath ↦ ((mem_allHourlyFiles parseDate).1 hpath).1

/-- **So does every run.** -/
theorem Invariant.run (hparser : LineParser fromStr) {s s' : LocalSource}
    (h : s.Invariant fromStr parseDate formatDate cutoffHeight)
    (hrun : Relation.ReflTransGen (Step fromStr parseDate formatDate cutoffHeight) s s')
    (hdates : ∀ day ≤ s'.clock / oneHour / 24, parseDate (formatDate day) = some day) :
    s'.Invariant fromStr parseDate formatDate cutoffHeight := by
  induction hrun with
  | refl => exact h
  | @tail mid last _ hstep ih =>
    have hle : mid.clock / oneHour / 24 ≤ last.clock / oneHour / 24 :=
      Nat.div_le_div_right (Nat.div_le_div_right hstep.clock_le)
    exact (ih fun day hday ↦ hdates day (hday.trans hle)).step hparser (hdates _ hle) hstep

end Source

end LocalSource

end RethHl.HlNode
