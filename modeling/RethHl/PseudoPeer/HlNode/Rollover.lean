import RethHl.PseudoPeer.HlNode.Backfill

/-!
# Moving to the next hour

The ingest loop follows the file of one hour until the clock has left the hour, and then moves to
the next file. It reads the file first, waits for the cache to store what it found, and reads the
clock last. `hl-node` writes whole lines to the file of the hour that the clock is in.

**The order matters.** A line that is written after the loop has read the file is in no scan of this
iteration, and if the clock leaves the hour before the loop reads it, there is no other iteration
for this file. `rollover_loses_line` is such a run, and `rollover_recorded` says that it is the only
way: in every run in which the loop leaves an hour only when the file is still as this iteration
read it, every line from the remembered one on is in the ranges of the cache when the loop leaves.

The steps of the writer, the clock and the loop interleave freely (`IngestState.Step`).
-/

namespace RethHl.HlNode

/-- The length of an hour, in nanoseconds. -/
def oneHour : ℕ := 3600 * 10 ^ 9

/-- Where the ingest loop is. -/
inductive IngestPhase where
  /-- At the start of an iteration. -/
  | read
  /-- Waiting for the cache with the result of a scan. -/
  | record (scanResult : ScanResult)
  /-- Before it reads the clock. -/
  | readClock
  /-- After it has read the clock. -/
  | decide (now : ℕ)
  deriving DecidableEq, Repr

/-- The clock, the hour files, the cache, and the variables of the loop. Hours count from the
epoch. -/
structure IngestState where
  clock : ℕ
  files : ℕ → Option (List Char)
  cache : LocalBlocksCache
  hour : ℕ
  tail : TailState
  phase : IngestPhase
  /-- The text that this iteration has read, if there was a file. -/
  seen : Option (List Char)

section Rollover

variable (fromStr : List Char → Option BlockAndReceipts) (formatDate : ℕ → String)

/-- The file of an hour. -/
def hourFile (hour : ℕ) : HourPath where
  date := formatDate (hour / 24)
  hour := toString (hour % 24)

/-- One step of the clock, of the writer or of the loop. -/
inductive IngestState.Step : IngestState → IngestState → Prop
  | tick {s : IngestState} {clock : ℕ} (h : s.clock ≤ clock) : Step s { s with clock := clock }
  /-- The writer appends a line to the file of the current hour. -/
  | write {s : IngestState} {line : List Char} (h : Text.IsLine line) :
    Step s { s with
      files := Function.update s.files (s.clock / oneHour)
        (some ((s.files (s.clock / oneHour)).getD [] ++ (line ++ ['\n']))) }
  /-- There is no file to read. -/
  | missing {s : IngestState} (hphase : s.phase = .read) (hfile : s.files s.hour = none) :
    Step s { s with phase := .readClock, seen := none }
  /-- The loop scans the file. -/
  | read {s : IngestState} {content : List Char} (hphase : s.phase = .read)
    (hfile : s.files s.hour = some content) :
    Step s { s with
      tail := (poll fromStr (hourFile formatDate s.hour) s.tail content).2
      phase := .record (poll fromStr (hourFile formatDate s.hour) s.tail content).1
      seen := some content }
  /-- The loop has the cache and loads the scan. -/
  | record {s : IngestState} {scanResult : ScanResult} (hphase : s.phase = .record scanResult) :
    Step s { s with cache := s.cache.loadScanResult scanResult, phase := .readClock }
  | readClock {s : IngestState} (hphase : s.phase = .readClock) :
    Step s { s with phase := .decide s.clock }
  /-- The hour is over: the loop moves to the next file. -/
  | advance {s : IngestState} {now : ℕ} (hphase : s.phase = .decide now)
    (h : s.hour * oneHour + oneHour < now) :
    Step s { s with
      hour := s.hour + 1
      tail := { s.tail with lastLine := 0 }
      phase := .read }
  /-- The hour is not over: the loop sleeps. -/
  | sleep {s : IngestState} {now : ℕ} (hphase : s.phase = .decide now)
    (h : ¬ s.hour * oneHour + oneHour < now) :
    Step s { s with phase := .read }

/-- Every line of a text from the remembered one on is in the ranges of the cache. -/
def IngestState.Recorded (s : IngestState) (content : List Char) : Prop :=
  ∀ j b, s.tail.lastLine ≤ j → completeLine fromStr content j = some b →
    s.cache.getPathForHeight b.number = some (hourFile formatDate s.hour)

/-- No line has the largest height. -/
def IngestState.HeightsBelow (s : IngestState) : Prop :=
  ∀ hour content, s.files hour = some content → ∀ b ∈ fileBlocks fromStr content, b.number < u64Max

/-- A step that leaves an hour only while its file is as this iteration has read it. -/
def IngestState.QuietStep (s s' : IngestState) : Prop :=
  s.Step fromStr formatDate s' ∧ s.HeightsBelow fromStr ∧
    (s'.hour ≠ s.hour → s.files s.hour = s.seen)

/-- The invariant: a text that was read is in the ranges of the scan, and after the scan is loaded
in those of the cache. -/
def IngestState.Invariant (s : IngestState) : Prop :=
  match s.phase with
  | .read => True
  | .record scanResult =>
    scanResult.path = hourFile formatDate s.hour ∧
      ∀ content ∈ s.seen, ∀ j b, s.tail.lastLine ≤ j → completeLine fromStr content j = some b →
        ∃ r ∈ scanResult.newBlockRanges, r.1 ≤ b.number ∧ b.number ≤ r.2
  | .readClock => ∀ content ∈ s.seen, s.Recorded fromStr formatDate content
  | .decide _ => ∀ content ∈ s.seen, s.Recorded fromStr formatDate content

variable {fromStr formatDate}

theorem fst_poll (path : HourPath) (st : TailState) (content : List Char) :
    (poll fromStr path st content).1 =
      (scanHourFile fromStr ⟨st.nextHeight, false⟩ path content st.lastLine).1 :=
  rfl

/-- A poll stays at its line or moves to a later one of the file. -/
theorem lastLine_poll (path : HourPath) (st : TailState) (content : List Char) :
    (poll fromStr path st content).2.lastLine = st.lastLine ∨
      st.lastLine ≤ (poll fromStr path st content).2.lastLine ∧
        (poll fromStr path st content).2.lastLine < (Text.lines content).length := by
  rw [show (poll fromStr path st content).2.lastLine =
    (scanHourFile fromStr ⟨st.nextHeight, false⟩ path content st.lastLine).2 from rfl,
    scanHourFile, lastLine_scanLines]
  rcases hlast : (delivered ⟨st.nextHeight, false⟩
    (parsedFrom fromStr (Text.lines content) st.lastLine)).getLast? with - | p
  · exact Or.inl rfl
  · obtain ⟨hle, line, hline, -⟩ :=
      mem_parsedFrom.1 (List.mem_of_mem_filter (List.mem_of_getLast? hlast))
    exact Or.inr ⟨hle, (List.getElem?_eq_some_iff.1 hline).1⟩

/-- A poll does not move back. -/
theorem lastLine_le_poll (path : HourPath) (st : TailState) (content : List Char) :
    st.lastLine ≤ (poll fromStr path st content).2.lastLine := by
  rcases lastLine_poll path st content with h | ⟨h, -⟩
  · exact Nat.le_of_eq h.symm
  · exact h

/-- **A poll has every line from the remembered one on in its ranges.** -/
theorem mem_ranges_poll {path : HourPath} {st : TailState} {content : List Char}
    (hbelow : ∀ b ∈ fileBlocks fromStr content, b.number < u64Max) {j : ℕ} {b : BlockAndReceipts}
    (hj : (poll fromStr path st content).2.lastLine ≤ j)
    (hb : completeLine fromStr content j = some b) :
    ∃ r ∈ (poll fromStr path st content).1.newBlockRanges, r.1 ≤ b.number ∧ b.number ≤ r.2 := by
  have hmem : ∀ p ∈ parsedFrom fromStr (Text.lines content) st.lastLine, p.2.number < u64Max := by
    rintro ⟨i, b⟩ hp
    exact hbelow b (mem_fileBlocks.2 ⟨i, (mem_parsedFrom_lines.1 hp).2⟩)
  refine (mem_newBlockRanges_iff hmem b.number).2 ⟨(j, b), mem_parsedFrom_lines.2 ⟨?_, hb⟩, rfl⟩
  exact (lastLine_le_poll path st content).trans hj

/-- **Every step keeps the invariant.** -/
theorem IngestState.Invariant.step {s s' : IngestState} (h : s.Invariant fromStr formatDate)
    (hbelow : s.HeightsBelow fromStr) (hstep : s.Step fromStr formatDate s') :
    s'.Invariant fromStr formatDate := by
  cases hstep with
  | tick => exact h
  | write => exact h
  | missing hphase hfile =>
    intro content hcontent
    cases hcontent
  | read hphase hfile =>
    refine ⟨rfl, fun content hcontent j b hj hb ↦ ?_⟩
    obtain rfl := Option.some.inj hcontent
    exact mem_ranges_poll (hbelow _ _ hfile) hj hb
  | record hphase =>
    rw [IngestState.Invariant, hphase] at h
    obtain ⟨hpath, hranges⟩ := h
    intro content hcontent j b hj hb
    obtain ⟨r, hr, hlo, hhi⟩ := hranges content hcontent j b hj hb
    rw [← hpath]
    exact RangeMap.get_insertAll_of_mem hr hlo hhi _ _
  | readClock hphase =>
    rw [IngestState.Invariant, hphase] at h
    exact h
  | advance hphase hover => trivial
  | sleep hphase hover => trivial

/-- So does every run. -/
theorem IngestState.Invariant.run {s s' : IngestState} (h : s.Invariant fromStr formatDate)
    (hrun : Relation.ReflTransGen (IngestState.QuietStep fromStr formatDate) s s') :
    s'.Invariant fromStr formatDate := by
  induction hrun with
  | refl => exact h
  | tail _ hstep ih => exact ih.step hstep.2.1 hstep.1

/-- Only one step leaves an hour. -/
theorem IngestState.Step.advance_of_hour_ne {s s' : IngestState}
    (hstep : s.Step fromStr formatDate s') (hleave : s'.hour ≠ s.hour) :
    ∃ now, s.phase = .decide now := by
  cases hstep with
  | advance hphase hover => exact ⟨_, hphase⟩
  | _ => exact absurd rfl hleave

end Rollover

/-- **No line is lost at the end of an hour**, in every run in which the loop leaves an hour only
while its file is as this iteration has read it. -/
theorem rollover_recorded {fromStr : List Char → Option BlockAndReceipts}
    {formatDate : ℕ → String} {s₀ s s' : IngestState} (hstart : s₀.phase = .read)
    (hrun : Relation.ReflTransGen (IngestState.QuietStep fromStr formatDate) s₀ s)
    (hstep : s.QuietStep fromStr formatDate s') (hleave : s'.hour ≠ s.hour) {content : List Char}
    (hcontent : s.files s.hour = some content) : s.Recorded fromStr formatDate content := by
  have hinv : s.Invariant fromStr formatDate := by
    refine IngestState.Invariant.run ?_ hrun
    rw [IngestState.Invariant, hstart]
    trivial
  obtain ⟨now, hphase⟩ := hstep.1.advance_of_hour_ne hleave
  rw [IngestState.Invariant, hphase] at hinv
  refine hinv content ?_
  rw [← hstep.2.2 hleave]
  exact hcontent

/-! ### The end of an hour -/

/-- The date of the first hours. -/
def exampleFormatDate (_ : ℕ) : String := "19700101"

/-- The first hour has a file of empty blocks. -/
def exampleFiles (numbers : List ℕ) : ℕ → Option (List Char) :=
  Function.update (fun _ ↦ none) 0 (some (emptyBlockFile numbers))

/-- What the loop reads from the file with block five. -/
def examplePoll : ScanResult × TailState :=
  poll emptyBlockFromStr (hourFile exampleFormatDate 0) ⟨0, 5⟩ (emptyBlockFile [5])

/-- The loop at the start of the first hour, whose file holds block five. -/
def exampleIngest : IngestState where
  clock := 0
  files := exampleFiles [5]
  cache := .new cacheSize
  hour := 0
  tail := ⟨0, 5⟩
  phase := .read
  seen := none

/-- The loop has read the file, and waits for the cache. -/
def exampleWaiting (clock : ℕ) (numbers : List ℕ) : IngestState where
  clock := clock
  files := exampleFiles numbers
  cache := .new cacheSize
  hour := 0
  tail := examplePoll.2
  phase := .record examplePoll.1
  seen := some (emptyBlockFile [5])

/-- The loop has loaded its scan. -/
def exampleLoaded (clock : ℕ) (numbers : List ℕ) (phase : IngestPhase) : IngestState where
  clock := clock
  files := exampleFiles numbers
  cache := (LocalBlocksCache.new cacheSize).loadScanResult examplePoll.1
  hour := 0
  tail := examplePoll.2
  phase := phase
  seen := some (emptyBlockFile [5])

theorem heightsBelow_of_exampleFiles {s : IngestState} {numbers : List ℕ}
    (hsmall : ∀ n ∈ numbers, n < 10) (h : s.files = exampleFiles numbers) :
    s.HeightsBelow emptyBlockFromStr := by
  intro hour content hcontent b hb
  rw [h, exampleFiles, Function.update_apply] at hcontent
  split_ifs at hcontent
  obtain rfl := Option.some.inj hcontent
  rw [fileBlocks_emptyBlockFile hsmall] at hb
  obtain ⟨n, hn, rfl⟩ := List.mem_map.1 hb
  exact Nat.lt_trans (hsmall n hn) (by decide)

theorem lastLine_examplePoll_le : examplePoll.2.lastLine ≤ 1 := by
  rcases lastLine_poll (hourFile exampleFormatDate 0) ⟨0, 5⟩ (emptyBlockFile [5]) with h | ⟨-, h⟩
  · rw [examplePoll, h]
    exact Nat.zero_le 1
  · rw [(lines_emptyBlockFile (by decide)).1] at h
    exact Nat.le_of_lt h

/-- The loop reads the file and leaves the hour, and the writer stays quiet. -/
theorem rollover_recorded_quiet :
    ∃ s s', Relation.ReflTransGen
        (IngestState.QuietStep emptyBlockFromStr exampleFormatDate) exampleIngest s ∧
      s.QuietStep emptyBlockFromStr exampleFormatDate s' ∧ s'.hour = 1 ∧
      s.Recorded emptyBlockFromStr exampleFormatDate (emptyBlockFile [5]) := by
  have hbelow : ∀ s : IngestState, s.files = exampleFiles [5] →
      s.HeightsBelow emptyBlockFromStr := fun s ↦ heightsBelow_of_exampleFiles (by decide)
  have hread : exampleIngest.QuietStep emptyBlockFromStr exampleFormatDate
      (exampleWaiting 0 [5]) := ⟨.read rfl rfl, hbelow _ rfl, fun h ↦ absurd rfl h⟩
  have htick : (exampleWaiting 0 [5]).QuietStep emptyBlockFromStr exampleFormatDate
      (exampleWaiting (oneHour + 1) [5]) :=
    ⟨.tick (Nat.zero_le _), hbelow _ rfl, fun h ↦ absurd rfl h⟩
  have hrecord : (exampleWaiting (oneHour + 1) [5]).QuietStep emptyBlockFromStr exampleFormatDate
      (exampleLoaded (oneHour + 1) [5] .readClock) :=
    ⟨.record rfl, hbelow _ rfl, fun h ↦ absurd rfl h⟩
  have hclock : (exampleLoaded (oneHour + 1) [5] .readClock).QuietStep emptyBlockFromStr
      exampleFormatDate (exampleLoaded (oneHour + 1) [5] (.decide (oneHour + 1))) :=
    ⟨.readClock rfl, hbelow _ rfl, fun h ↦ absurd rfl h⟩
  have hleave : (exampleLoaded (oneHour + 1) [5] (.decide (oneHour + 1))).QuietStep
      emptyBlockFromStr exampleFormatDate _ :=
    ⟨.advance rfl (by decide), hbelow _ rfl, fun _ ↦ rfl⟩
  have hrun := (((Relation.ReflTransGen.single hread).tail htick).tail hrecord).tail hclock
  exact ⟨_, _, hrun, hleave, rfl, rollover_recorded rfl hrun hleave (by decide) rfl⟩

/-- **A line is lost.** Block six is written after the loop has read the file and before the end of
the hour, and the loop leaves the file without it. -/
theorem rollover_loses_line :
    ∃ s s', Relation.ReflTransGen
        (IngestState.Step emptyBlockFromStr exampleFormatDate) exampleIngest s ∧
      s.Step emptyBlockFromStr exampleFormatDate s' ∧ s'.hour ≠ s.hour ∧
      ∃ content, s.files s.hour = some content ∧
        ¬ s.Recorded emptyBlockFromStr exampleFormatDate content := by
  have hread : exampleIngest.Step emptyBlockFromStr exampleFormatDate (exampleWaiting 0 [5]) :=
    .read rfl rfl
  have hwrite : (exampleWaiting 0 [5]).Step emptyBlockFromStr exampleFormatDate
      (exampleWaiting 0 [5, 6]) := by
    have hfiles : Function.update (exampleFiles [5]) (0 / oneHour)
        (some (((exampleFiles [5]) (0 / oneHour)).getD [] ++ (emptyBlockLine 6 ++ ['\n']))) =
        exampleFiles [5, 6] := by
      rw [Nat.zero_div, exampleFiles, Function.update_idem, Function.update_self]
      simp [exampleFiles, emptyBlockFile]
    have hstep : (exampleWaiting 0 [5]).Step emptyBlockFromStr exampleFormatDate _ :=
      .write (isLine_emptyBlockLine (by decide : 6 < 10))
    rw [exampleWaiting, hfiles] at hstep
    exact hstep
  have htick : (exampleWaiting 0 [5, 6]).Step emptyBlockFromStr exampleFormatDate
      (exampleWaiting (oneHour + 1) [5, 6]) := .tick (Nat.zero_le _)
  have hrecord : (exampleWaiting (oneHour + 1) [5, 6]).Step emptyBlockFromStr exampleFormatDate
      (exampleLoaded (oneHour + 1) [5, 6] .readClock) := .record rfl
  have hclock : (exampleLoaded (oneHour + 1) [5, 6] .readClock).Step emptyBlockFromStr
      exampleFormatDate (exampleLoaded (oneHour + 1) [5, 6] (.decide (oneHour + 1))) :=
    .readClock rfl
  have hrun := ((((Relation.ReflTransGen.single hread).tail hwrite).tail htick).tail
    hrecord).tail hclock
  refine ⟨_, _, hrun, .advance rfl (by decide), by decide, emptyBlockFile [5, 6], rfl, ?_⟩
  intro hrecorded
  have hline : completeLine emptyBlockFromStr (emptyBlockFile [5, 6]) 1 = some (emptyBlock 6) :=
    completeLine_emptyBlockFile (by decide) 1
  have hpath := hrecorded 1 (emptyBlock 6) lastLine_examplePoll_le hline
  -- the scan has seen block five only
  have hfile : HourFile emptyBlockFromStr (emptyBlockFile [5]) :=
    hourFile_emptyBlockFile (by decide) (by decide)
  rcases (isSome_getPathForHeight_loadScanResult_iff _ 6).1 (Option.isSome_of_eq_some hpath)
    with hnew | hrange
  · cases hnew
  · rw [examplePoll, fst_poll] at hrange
    obtain ⟨b, hb, hsix⟩ := (mem_ranges_scanHourFile_iff hfile _ _ 6).1 hrange
    rw [fileBlocks_emptyBlockFile (by decide)] at hb
    obtain rfl := List.mem_singleton.1 hb
    cases hsix

end RethHl.HlNode
