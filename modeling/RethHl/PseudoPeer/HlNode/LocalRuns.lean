import RethHl.PseudoPeer.HlNode.LocalSource

/-!
# Whole runs of the local source

`localSource_serves` is about every run from the start. **What the source has read it serves**: no
line that was in a file when the file was read last is lost again, however the requests empty the
cache and however far the expected height of the loop has drifted. And **it reads everything**, as
long as no file of an earlier hour has changed since it was read when the source goes on to an hour,
be it from the backfill or from the hour before (`LocalSource.QuietStep`). So the gap at the end of
an hour has a counterpart at the start of the source: a line that is appended to a file after the
backfill has read it is in no scan if the next hour begins before the source looks for the newest
file. Only a request for another block of that file, which loads all of it, may bring it back.

`localSource_catchesUp` adds that the loop does not lag behind: from the beginning of an iteration
on it gets, without any other move, to the hour of the clock with every file read.
-/

namespace RethHl.HlNode

namespace LocalSource

section Source

variable {fromStr : List Char → Option BlockAndReceipts} {parseDate : String → Option ℕ}
  {formatDate : ℕ → String} {cutoffHeight : ℕ}

/-! ### Quiet runs -/

theorem run_of_quiet {s s' : LocalSource}
    (h : Relation.ReflTransGen (QuietStep fromStr parseDate formatDate cutoffHeight) s s') :
    Relation.ReflTransGen (Step fromStr parseDate formatDate cutoffHeight) s s' :=
  h.lift id fun _ _ hstep ↦ hstep.1

/-- When the source reads a file: in the backfill, or as the file of the hour. -/
theorem exists_proceed (s : LocalSource) :
    ∃ s', s.proceed fromStr parseDate formatDate cutoffHeight = s' ∧
      (s'.read = s.read ∨ ∃ path, s'.read = s.noteRead path ∧
        ((∃ files, s'.phase = .backfill files) ∨
          ∃ hour tail phase, path = hourFile formatDate hour ∧
            s'.phase = .follow hour tail phase)) := by
  rw [LocalSource.proceed]
  repeat' split
  all_goals first
    | exact ⟨_, rfl, Or.inl rfl⟩
    | exact ⟨_, rfl, Or.inr ⟨_, rfl, Or.inl ⟨_, rfl⟩⟩⟩
    | exact ⟨_, rfl, Or.inr ⟨_, rfl, Or.inr ⟨_, _, _, rfl, rfl⟩⟩⟩

theorem proceed_read_of_ne {s : LocalSource} {hour : ℕ}
    (hhour : (s.proceed fromStr parseDate formatDate cutoffHeight).phase.hour? = some hour)
    {path : HourPath} (hpath : path ≠ hourFile formatDate hour) :
    (s.proceed fromStr parseDate formatDate cutoffHeight).read path = s.read path := by
  obtain ⟨s', hs', hread⟩ := @exists_proceed fromStr parseDate formatDate cutoffHeight s
  rw [hs'] at hhour ⊢
  rcases hread with heq | ⟨path', heq, ⟨files, hphase⟩ | ⟨hour', tail, phase, rfl, hphase⟩⟩
  · rw [heq]
  · rw [hphase] at hhour
    exact nomatch hhour
  · rw [hphase] at hhour
    obtain rfl : hour' = hour := Option.some.inj hhour
    rw [heq, noteRead, Function.update_of_ne hpath]

theorem Invariant.hour_le {s : LocalSource}
    (h : s.Invariant fromStr parseDate formatDate cutoffHeight) {hour : ℕ}
    (hhour : s.phase.hour? = some hour) : hour ≤ s.clock / oneHour := by
  have hphase := h.phase
  rcases hs : s.phase with files | ⟨subfile, files⟩ | - | ⟨hour', tail, phase⟩ | - <;>
    rw [hs] at hphase hhour
  · exact nomatch hhour
  · exact nomatch hhour
  · exact nomatch hhour
  · obtain rfl : hour' = hour := Option.some.inj hhour
    exact hphase.1.hour_le
  · exact hphase.elim

/-- **The files of earlier hours stay settled**: the writer does not come back to them. -/
theorem Settled.step {s s' : LocalSource}
    (hinv : s.Invariant fromStr parseDate formatDate cutoffHeight)
    (h : ∀ hour, s.phase.hour? = some hour → s.Settled parseDate formatDate hour)
    (hstep : QuietStep fromStr parseDate formatDate cutoffHeight s s') :
    ∀ hour, s'.phase.hour? = some hour → s'.Settled parseDate formatDate hour := by
  intro hour hhour
  have hsettled : s.Settled parseDate formatDate hour := by
    by_cases hsame : s.phase.hour? = some hour
    · exact h hour hsame
    · exact hstep.2 hour hhour hsame
  obtain ⟨hstep, -⟩ := hstep
  rcases hstep with - | ⟨hgrows, hcurrent⟩ | - | -
  · exact hsettled
  · intro path hpath hearlier
    have hne : path ≠ hourFile formatDate (s.clock / oneHour) :=
      hearlier _ (hinv.hour_le hhour)
    obtain ⟨hmem, hdt⟩ := (mem_allHourlyFiles parseDate).1 hpath
    obtain ⟨content, hcontent⟩ := mem_files_iff.1 hmem
    have hold := (hcurrent path hne).symm.trans hcontent
    rw [hsettled path ((mem_allHourlyFiles parseDate).2 ⟨mem_files_iff.2 ⟨content, hold⟩, hdt⟩)
      hearlier]
    exact (hcurrent path hne).symm
  · exact hsettled
  · intro path hpath hearlier
    rw [proceed_dir] at hpath ⊢
    rw [proceed_read_of_ne hhour (hearlier hour le_rfl)]
    exact hsettled path hpath hearlier

/-- A quiet run keeps both invariants. -/
theorem Invariant.quietRun (hparser : LineParser fromStr) {s s' : LocalSource}
    (h : s.Invariant fromStr parseDate formatDate cutoffHeight)
    (hsettled : ∀ hour, s.phase.hour? = some hour → s.Settled parseDate formatDate hour)
    (hrun : Relation.ReflTransGen (QuietStep fromStr parseDate formatDate cutoffHeight) s s')
    (hdates : ∀ day ≤ s'.clock / oneHour / 24, parseDate (formatDate day) = some day) :
    s'.Invariant fromStr parseDate formatDate cutoffHeight ∧
      ∀ hour, s'.phase.hour? = some hour → s'.Settled parseDate formatDate hour := by
  induction hrun with
  | refl => exact ⟨h, hsettled⟩
  | @tail mid last _ hstep ih =>
    have hle : mid.clock / oneHour / 24 ≤ last.clock / oneHour / 24 :=
      Nat.div_le_div_right (Nat.div_le_div_right hstep.1.clock_le)
    obtain ⟨hmid, hmidSettled⟩ := ih fun day hday ↦ hdates day (hday.trans hle)
    exact ⟨hmid.step hparser (hdates _ hle) hstep.1, Settled.step hmid hmidSettled hstep⟩

/-- What was read is served, once the scan is loaded. -/
theorem Invariant.serves {s : LocalSource}
    (h : s.Invariant fromStr parseDate formatDate cutoffHeight) {path : HourPath}
    {text : List Char} (hread : s.read path = some text)
    (hpending : ∀ scanResult ∈ s.phase.pending, scanResult.path ≠ path) {height : ℕ}
    (hcutoff : cutoffHeight ≤ height) (hheight : HasHeight fromStr text height) :
    s.Serves fromStr height := by
  rcases h.known path text hread height hcutoff hheight with hsome | ⟨scanResult, hscan, hpath, -⟩
  · exact serves_of_isSome h.hour_files h.linked hsome
  · exact absurd hpath (hpending scanResult hscan)

/-- Only the file of the hour waits for the cache. -/
theorem Invariant.pending_path {s : LocalSource}
    (h : s.Invariant fromStr parseDate formatDate cutoffHeight) {hour : ℕ}
    (hhour : s.phase.hour? = some hour) :
    ∀ scanResult ∈ s.phase.pending, scanResult.path = hourFile formatDate hour := by
  intro scanResult hscan
  have hphase := h.phase
  rcases hs : s.phase with files | ⟨subfile, files⟩ | - |
    ⟨hour', tail, (- | scanResult' | - | now)⟩ | - <;> rw [hs] at hphase hhour hscan
  · exact nomatch hscan
  · exact nomatch hscan
  · exact nomatch hscan
  · exact nomatch hscan
  · obtain rfl : hour' = hour := Option.some.inj hhour
    obtain rfl : scanResult' = scanResult := Option.some.inj hscan
    exact hphase.2.1
  · exact nomatch hscan
  · exact nomatch hscan
  · exact nomatch hscan

/-! ### Catching up -/

variable (fromStr parseDate formatDate cutoffHeight) in
/-- The source gets from one state to another without any other move. -/
def Reaches (s s' : LocalSource) : Prop :=
  (∃ n, (proceed fromStr parseDate formatDate cutoffHeight)^[n] s = s') ∧
    Relation.ReflTransGen (QuietStep fromStr parseDate formatDate cutoffHeight) s s' ∧
    s'.clock = s.clock ∧ s'.dir = s.dir

theorem Reaches.trans {s s' s'' : LocalSource}
    (h : Reaches fromStr parseDate formatDate cutoffHeight s s')
    (h' : Reaches fromStr parseDate formatDate cutoffHeight s' s'') :
    Reaches fromStr parseDate formatDate cutoffHeight s s'' := by
  obtain ⟨⟨n, rfl⟩, hrun, hclock, hdir⟩ := h
  obtain ⟨⟨m, rfl⟩, hrun', hclock', hdir'⟩ := h'
  exact ⟨⟨m + n, Function.iterate_add_apply _ m n s⟩, hrun.trans hrun', hclock'.trans hclock,
    hdir'.trans hdir⟩

theorem Reaches.single {s s' : LocalSource}
    (hproceed : s.proceed fromStr parseDate formatDate cutoffHeight = s')
    (hquiet : ∀ hour, s'.phase.hour? = some hour → s.phase.hour? ≠ some hour →
      s.Settled parseDate formatDate hour) :
    Reaches fromStr parseDate formatDate cutoffHeight s s' := by
  subst hproceed
  exact ⟨⟨1, rfl⟩, .single ⟨.proceed, hquiet⟩, proceed_clock s, proceed_dir s⟩

/-- A step of the source within an hour is quiet. -/
theorem Reaches.within {s s' : LocalSource}
    (hproceed : s.proceed fromStr parseDate formatDate cutoffHeight = s')
    (hhour : s'.phase.hour? = s.phase.hour?) :
    Reaches fromStr parseDate formatDate cutoffHeight s s' :=
  .single hproceed fun _ h hne ↦ absurd (hhour.symm.trans h) hne

/-- One file of the backfill is skipped or scanned, and noted in both cases. -/
theorem reaches_nextFile (hparser : LineParser fromStr) {s : LocalSource}
    (h : s.Invariant fromStr parseDate formatDate cutoffHeight) {subfile : HourPath}
    {files : List HourPath} (hs : s.phase = .backfill (subfile :: files)) :
    ∃ next, Reaches fromStr parseDate formatDate cutoffHeight s next ∧
      next.phase = .backfill files ∧ next.read = s.noteRead subfile ∧
      backfillFile fromStr s.dir cutoffHeight s.cache subfile = some next.cache ∧
      next.Invariant fromStr parseDate formatDate cutoffHeight := by
  have hhour : s.phase.hour? = none := congrArg SourcePhase.hour? hs
  have hphase := h.phase
  rw [hs] at hphase
  obtain ⟨content, hcontent⟩ := mem_files_iff.1 (hphase subfile List.mem_cons_self)
  obtain ⟨last, hread, -⟩ := readLastCompleteLine_eq hparser (h.hour_files _ _ hcontent)
  have hread : readLastBlockFromFile fromStr s.dir subfile = some last := by
    rw [readLastBlockFromFile, hcontent]
    exact hread
  by_cases hskip : (last.any fun result ↦ result.2 < cutoffHeight) = true
  · have hproceed : s.proceed fromStr parseDate formatDate cutoffHeight =
        { s with phase := .backfill files, read := s.noteRead subfile } := by
      rw [LocalSource.proceed, hs]
      simp only [hread, if_pos hskip]
    have hinv := h.proceed hparser
    rw [hproceed] at hinv
    refine ⟨_, .within hproceed hhour.symm, rfl, rfl, ?_, hinv⟩
    rw [backfillFile, hread]
    exact if_pos hskip
  · have hproceed : s.proceed fromStr parseDate formatDate cutoffHeight =
        { s with phase := .rescan subfile files } := by
      rw [LocalSource.proceed, hs]
      simp only [hread, if_neg hskip]
    have hmid := h.proceed hparser
    rw [hproceed] at hmid
    have hproceed' : proceed fromStr parseDate formatDate cutoffHeight
        { s with phase := .rescan subfile files } =
          { s with
            cache := s.cache.loadScanResult
              { (scanHourFile fromStr ⟨cutoffHeight, true⟩ subfile content 0).1 with
                newBlocks := [] }
            phase := .backfill files
            read := s.noteRead subfile } := by
      rw [LocalSource.proceed]
      simp only [hcontent]
      rfl
    have hinv := hmid.proceed hparser
    rw [hproceed'] at hinv
    refine ⟨_, (Reaches.within hproceed hhour.symm).trans (.within hproceed' rfl), rfl, rfl, ?_,
      hinv⟩
    rw [backfillFile, hread]
    simp only [if_neg hskip, hcontent]

/-- **The backfill alone** is `tryBackfillLocalBlocks`, and reads every file of its list. -/
theorem reaches_search (hparser : LineParser fromStr) {s : LocalSource}
    (h : s.Invariant fromStr parseDate formatDate cutoffHeight) {files : List HourPath}
    (hs : s.phase = .backfill files) :
    ∃ s', Reaches fromStr parseDate formatDate cutoffHeight s s' ∧ s'.phase = .search ∧
      files.foldlM (backfillFile fromStr s.dir cutoffHeight) s.cache = some s'.cache ∧
      ∀ path, s.read path = s.dir.contents path ∨ path ∈ files →
        s'.read path = s.dir.contents path := by
  induction files generalizing s with
  | nil =>
    have hproceed : s.proceed fromStr parseDate formatDate cutoffHeight =
        { s with phase := .search } := by
      rw [LocalSource.proceed, hs]
    exact ⟨_, .within hproceed (congrArg SourcePhase.hour? hs).symm, rfl, rfl,
      fun path hpath ↦ hpath.resolve_right List.not_mem_nil⟩
  | cons subfile files ih =>
    obtain ⟨next, hreaches, hphase, hread, hcache, hnext⟩ := reaches_nextFile hparser h hs
    obtain ⟨s', hreaches', hphase', hcache', hread'⟩ := ih hnext hphase
    have hdir : next.dir = s.dir := hreaches.2.2.2
    rw [hdir] at hcache' hread'
    refine ⟨s', hreaches.trans hreaches', hphase', ?_, fun path hpath ↦ hread' path ?_⟩
    · rw [List.foldlM_cons, hcache]
      exact hcache'
    · rw [hread, noteRead, Function.update_apply]
      by_cases heq : path = subfile
      · rw [if_pos heq, heq]
        exact Or.inl rfl
      · rw [if_neg heq]
        exact hpath.imp_right fun hmem ↦ (List.mem_cons.1 hmem).resolve_left heq

/-- The phases of an iteration, from the reading of the clock on. -/
theorem reaches_decide {s : LocalSource} {hour : ℕ} {tail : TailState}
    (hs : s.phase = .follow hour tail .readClock) :
    ∃ s', Reaches fromStr parseDate formatDate cutoffHeight s s' ∧ s'.read = s.read ∧
      s'.phase = .follow hour tail (.decide s.clock) := by
  have hproceed : s.proceed fromStr parseDate formatDate cutoffHeight =
      { s with phase := .follow hour tail (.decide s.clock) } := by
    rw [LocalSource.proceed, hs]
  exact ⟨_, .within hproceed (congrArg SourcePhase.hour? hs).symm, rfl, rfl⟩

/-- **One iteration reads the file of the hour.** -/
theorem reaches_iteration {s : LocalSource} {hour : ℕ} {tail : TailState}
    (hs : s.phase = .follow hour tail .read) (hsettled : s.Settled parseDate formatDate hour) :
    ∃ s' tail', Reaches fromStr parseDate formatDate cutoffHeight s s' ∧
      s'.phase = .follow hour tail' (.decide s.clock) ∧
      s'.Settled parseDate formatDate (hour + 1) := by
  have hhour : s.phase.hour? = some hour := congrArg SourcePhase.hour? hs
  have hsplit : ∀ {path}, (∀ h, hour + 1 ≤ h → path ≠ hourFile formatDate h) →
      path ≠ hourFile formatDate hour → ∀ h, hour ≤ h → path ≠ hourFile formatDate h := by
    intro path hlater hne h hle
    rcases Nat.eq_or_lt_of_le hle with rfl | hlt
    · exact hne
    · exact hlater h hlt
  rcases hcontent : s.dir.contents (hourFile formatDate hour) with - | content
  · -- there is no file
    have hproceed : s.proceed fromStr parseDate formatDate cutoffHeight =
        { s with phase := .follow hour tail .readClock } := by
      rw [LocalSource.proceed, hs]
      simp only [hcontent]
    have hfirst := Reaches.within hproceed hhour.symm
    obtain ⟨s', hreaches, hread, hphase⟩ :=
      @reaches_decide fromStr parseDate formatDate cutoffHeight
        { s with phase := .follow hour tail .readClock } hour tail rfl
    refine ⟨s', tail, hfirst.trans hreaches, hphase, fun path hpath hlater ↦ ?_⟩
    rw [hread]
    rw [hreaches.2.2.2] at hpath ⊢
    refine hsettled path hpath (hsplit hlater fun heq ↦ ?_)
    obtain ⟨content, hsome⟩ := mem_files_iff.1 ((mem_allHourlyFiles parseDate).1 hpath).1
    rw [heq] at hsome
    exact Option.some_ne_none _ (hsome.symm.trans hcontent)
  · set result := poll fromStr (hourFile formatDate hour) tail content with hresult
    set read : LocalSource :=
      { s with
        phase := .follow hour result.2 (.record result.1)
        read := s.noteRead (hourFile formatDate hour) } with hreadState
    set loaded : LocalSource :=
      { read with
        cache := s.cache.loadScanResult result.1
        phase := .follow hour result.2 .readClock } with hloaded
    have hproceed : s.proceed fromStr parseDate formatDate cutoffHeight = read := by
      rw [LocalSource.proceed, hs]
      simp only [hcontent]
      rfl
    have hproceed' : read.proceed fromStr parseDate formatDate cutoffHeight = loaded := rfl
    have hfirst := Reaches.within hproceed hhour.symm
    have hsecond := Reaches.within hproceed' rfl
    obtain ⟨s', hreaches, hread, hphase⟩ :=
      @reaches_decide fromStr parseDate formatDate cutoffHeight loaded hour result.2 rfl
    refine ⟨s', result.2, hfirst.trans (hsecond.trans hreaches), hphase,
      fun path hpath hlater ↦ ?_⟩
    rw [hread]
    rw [hreaches.2.2.2] at hpath ⊢
    show Function.update s.read (hourFile formatDate hour) _ path = s.dir.contents path
    by_cases heq : path = hourFile formatDate hour
    · rw [heq, Function.update_self]
    · rw [Function.update_of_ne heq]
      exact hsettled path hpath (hsplit hlater heq)

/-- **The loop comes to the hour of the clock**, with every file read that was begun before. -/
theorem reaches_settled {s : LocalSource} {hour : ℕ} {tail : TailState}
    (hs : s.phase = .follow hour tail .read) (hsettled : s.Settled parseDate formatDate hour) :
    ∃ s' hour' tail', Reaches fromStr parseDate formatDate cutoffHeight s s' ∧
      s'.phase = .follow hour' tail' (.decide s.clock) ∧
      s'.Settled parseDate formatDate (hour' + 1) ∧ s.clock ≤ (hour' + 1) * oneHour := by
  -- the hours that are left get less with every iteration
  induction hleft : s.clock - hour * oneHour using Nat.strong_induction_on
    generalizing s hour tail with
  | _ left ih =>
    obtain ⟨next, tail', hreaches, hphase, hnext⟩ :=
      @reaches_iteration fromStr parseDate formatDate cutoffHeight s hour tail hs hsettled
    by_cases hover : hour * oneHour + oneHour < s.clock
    · have hproceed : next.proceed fromStr parseDate formatDate cutoffHeight =
          { next with phase := .follow (hour + 1) { tail' with lastLine := 0 } .read } := by
        rw [LocalSource.proceed, hphase]
        simp only [if_pos hover]
      have hsingle := Reaches.single hproceed fun hour' hhour' _ ↦ by
        obtain rfl : hour + 1 = hour' := Option.some.inj hhour'
        exact hnext
      have hpos : 0 < oneHour := by decide
      have hclock : next.clock = s.clock := hreaches.2.2.1
      have hless : s.clock - (hour + 1) * oneHour < left := by
        rw [Nat.succ_mul]
        omega
      obtain ⟨s', hour', tail'', hreaches', hphase', hsettled', hclock'⟩ :=
        ih (s.clock - (hour + 1) * oneHour) hless
          (s := { next with phase := .follow (hour + 1) { tail' with lastLine := 0 } .read })
          rfl hnext (congrArg (· - (hour + 1) * oneHour) hclock)
      simp only [hclock] at hphase' hclock'
      exact ⟨s', hour', tail'', hreaches.trans (hsingle.trans hreaches'), hphase', hsettled',
        hclock'⟩
    · refine ⟨next, hour, tail', hreaches, hphase, hnext, ?_⟩
      rw [Nat.succ_mul]
      exact Nat.not_lt.1 hover

/-- **The start alone**: after the backfill the source begins with the newest file. -/
theorem reaches_follow (hparser : LineParser fromStr) {clock : ℕ} {dir : HourlyDir}
    (hfiles : HourFiles fromStr dir)
    (htimely : ∀ file ∈ timedFiles parseDate dir, file.1.1 * 24 + file.1.2 ≤ clock / oneHour)
    (hne : allHourlyFiles parseDate dir ≠ []) :
    ∃ s path date hour, findLatestHourlyFile parseDate dir = some path ∧
      datetimeFromPath parseDate path = some (date, hour) ∧
      Reaches fromStr parseDate formatDate cutoffHeight (start parseDate clock dir) s ∧
      tryBackfillLocalBlocks fromStr parseDate dir (.new cacheSize) cutoffHeight =
        some s.cache ∧
      s.phase = .follow (date * 24 + hour) ⟨0, cutoffHeight⟩ .read := by
  obtain ⟨s, hreaches, hs, hcache, hread⟩ := reaches_search hparser
    (@invariant_start fromStr parseDate formatDate cutoffHeight clock dir hfiles htimely) rfl
  have hdir : s.dir = dir := hreaches.2.2.2
  have hlatest : findLatestHourlyFile parseDate dir =
      some ((allHourlyFiles parseDate dir).getLast hne) :=
    List.getLast?_eq_some_getLast hne
  obtain ⟨⟨date, hour⟩, hfile, -⟩ := notAfter_findLatestHourlyFile hlatest
  have hdatetime := (mem_timedFiles.1 hfile).2
  have hproceed : s.proceed fromStr parseDate formatDate cutoffHeight =
      { s with phase := .follow (date * 24 + hour) ⟨0, cutoffHeight⟩ .read } := by
    rw [LocalSource.proceed, hs]
    simp only [hdir, hlatest, hdatetime]
  refine ⟨_, _, date, hour, hlatest, hdatetime,
    hreaches.trans (.single hproceed fun _ _ _ path hpath _ ↦ ?_), hcache, rfl⟩
  rw [hdir] at hpath ⊢
  exact hread path (Or.inr hpath)

end Source

end LocalSource

open LocalSource

/-- **The local source as a whole.** In every run from the start, nothing panics, a request is
answered with a block of its height or with none, and every block at or above the cutoff that was in
a file when the source last read it is served. If the run is quiet, this is every block in the files
of the hours before the one that is followed. -/
theorem localSource_serves {fromStr : List Char → Option BlockAndReceipts}
    {parseDate : String → Option ℕ} {formatDate : ℕ → String} (hparser : LineParser fromStr)
    {clock : ℕ} {dir : HourlyDir} (hfiles : HourFiles fromStr dir)
    (htimely : ∀ file ∈ timedFiles parseDate dir, file.1.1 * 24 + file.1.2 ≤ clock / oneHour)
    (cutoffHeight : ℕ) {s : LocalSource}
    (hrun : Relation.ReflTransGen (Step fromStr parseDate formatDate cutoffHeight)
      (start parseDate clock dir) s)
    (hdates : ∀ day ≤ s.clock / oneHour / 24, parseDate (formatDate day) = some day) :
    s.phase ≠ .panicked ∧
    (∀ height, ∃ r cache', tryCollectLocalBlock fromStr s.dir s.cache height = some (r, cache') ∧
      ∀ b ∈ r, b.number = height) ∧
    (∀ path text, s.read path = some text →
      (∀ scanResult ∈ s.phase.pending, scanResult.path ≠ path) →
      ∀ height, cutoffHeight ≤ height → HasHeight fromStr text height →
        s.Serves fromStr height) ∧
    (Relation.ReflTransGen (QuietStep fromStr parseDate formatDate cutoffHeight)
        (start parseDate clock dir) s →
      ∀ hour, s.phase.hour? = some hour → ∀ path ∈ allHourlyFiles parseDate s.dir,
        (∀ h, hour ≤ h → path ≠ hourFile formatDate h) →
        ∀ content, s.dir.contents path = some content → ∀ height, cutoffHeight ≤ height →
          HasHeight fromStr content height → s.Serves fromStr height) := by
  have hstart := @invariant_start fromStr parseDate formatDate cutoffHeight clock dir hfiles htimely
  have hinv := hstart.run hparser hrun hdates
  refine ⟨fun hpanicked ↦ ?_, fun height ↦ ?_, fun path text hread hpending height hcutoff hheight ↦
    hinv.serves hread hpending hcutoff hheight, ?_⟩
  · have hphase := hinv.phase
    rw [hpanicked] at hphase
    exact hphase
  · obtain ⟨r, cache', hcollect, -, hnumber, -⟩ :=
      hinv.linked.tryCollectLocalBlock hinv.hour_files height
    exact ⟨r, cache', hcollect, hnumber⟩
  · intro hquiet hour hhour path hpath hearlier content hcontent height hcutoff hheight
    obtain ⟨-, hsettled⟩ := hstart.quietRun hparser nofun hquiet hdates
    have hread := (hsettled hour hhour path hpath hearlier).trans hcontent
    refine hinv.serves hread (fun scanResult hscan heq ↦ ?_) hcutoff hheight
    exact hearlier hour le_rfl (heq.symm.trans (hinv.pending_path hhour scanResult hscan))

/-- **The local source catches up.** From the start it gets, without any other move, to the hour of
the newest file. And in every quiet run, whenever the loop is at the beginning of an iteration, it
gets in the same way to a state in which every block at or above the cutoff is served that is in the
file of an hour begun before now. -/
theorem localSource_catchesUp {fromStr : List Char → Option BlockAndReceipts}
    {parseDate : String → Option ℕ} {formatDate : ℕ → String} (hparser : LineParser fromStr)
    {clock : ℕ} {dir : HourlyDir} (hfiles : HourFiles fromStr dir)
    (htimely : ∀ file ∈ timedFiles parseDate dir, file.1.1 * 24 + file.1.2 ≤ clock / oneHour)
    (cutoffHeight : ℕ) :
    (allHourlyFiles parseDate dir ≠ [] → ∃ n s path date hour,
      findLatestHourlyFile parseDate dir = some path ∧
      datetimeFromPath parseDate path = some (date, hour) ∧
      (proceed fromStr parseDate formatDate cutoffHeight)^[n] (start parseDate clock dir) = s ∧
      Relation.ReflTransGen (QuietStep fromStr parseDate formatDate cutoffHeight)
        (start parseDate clock dir) s ∧
      s.clock = clock ∧ s.dir = dir ∧
      s.phase = .follow (date * 24 + hour) ⟨0, cutoffHeight⟩ .read) ∧
    ∀ s hour tail,
      Relation.ReflTransGen (QuietStep fromStr parseDate formatDate cutoffHeight)
        (start parseDate clock dir) s →
      (∀ day ≤ s.clock / oneHour / 24, parseDate (formatDate day) = some day) →
      s.phase = .follow hour tail .read → ∃ n s',
        (proceed fromStr parseDate formatDate cutoffHeight)^[n] s = s' ∧
        Relation.ReflTransGen (QuietStep fromStr parseDate formatDate cutoffHeight)
          (start parseDate clock dir) s' ∧
        s'.clock = s.clock ∧ s'.dir = s.dir ∧ ∀ path ∈ allHourlyFiles parseDate s.dir,
          (∀ h, s.clock ≤ h * oneHour → path ≠ hourFile formatDate h) →
          ∀ content, s.dir.contents path = some content → ∀ height, cutoffHeight ≤ height →
            HasHeight fromStr content height → s'.Serves fromStr height := by
  have hstart := @invariant_start fromStr parseDate formatDate cutoffHeight clock dir hfiles htimely
  refine ⟨fun hne ↦ ?_, fun s hour tail hrun hdates hphase ↦ ?_⟩
  · obtain ⟨s, path, date, hour, hlatest, hdatetime, ⟨⟨n, hn⟩, hrun, hclock, hdir⟩, -, hphase⟩ :=
      @reaches_follow fromStr parseDate formatDate cutoffHeight hparser clock dir hfiles htimely hne
    exact ⟨n, s, path, date, hour, hlatest, hdatetime, hn, hrun, hclock, hdir, hphase⟩
  · obtain ⟨-, hsettled⟩ := hstart.quietRun hparser nofun hrun hdates
    obtain ⟨s', hour', tail', ⟨⟨n, hn⟩, hreach, hclock, hdir⟩, hphase', hsettled', hhour'⟩ :=
      @reaches_settled fromStr parseDate formatDate cutoffHeight s hour tail hphase
        (hsettled hour (congrArg SourcePhase.hour? hphase))
    refine ⟨n, s', hn, hrun.trans hreach, hclock, hdir, ?_⟩
    intro path hpath hbegun content hcontent height hcutoff hheight
    obtain ⟨hinv, -⟩ := hstart.quietRun hparser nofun (hrun.trans hreach) (hclock ▸ hdates)
    rw [← hdir] at hpath hcontent
    have hread := hsettled' path hpath fun h hle ↦
      hbegun h (hhour'.trans (Nat.mul_le_mul_right oneHour hle))
    refine hinv.serves (hread.trans hcontent) ?_ hcutoff hheight
    rw [hphase']
    exact nofun

/-! ### The first hour -/

/-- The date of the first day. -/
def firstDay (day : ℕ) : String := if day = 0 then "19700101" else ""

/-- The number of the first day. -/
def parseFirstDay (text : String) : Option ℕ := if text = "19700101" then some 0 else none

/-- The file of the first hour, with two blocks. -/
def firstHourDir : HourlyDir where
  files := [(⟨"19700101", "0"⟩, emptyBlockFile [5, 6])]
  nodup := List.nodup_singleton _

theorem contents_firstHourDir {path : HourPath} {content : List Char}
    (h : firstHourDir.contents path = some content) :
    path = ⟨"19700101", "0"⟩ ∧ content = emptyBlockFile [5, 6] := by
  obtain ⟨before, after, hfiles, -⟩ := List.lookup_eq_some_iff.1 h
  have hmem : (path, content) ∈ firstHourDir.files := hfiles ▸ by simp
  exact Prod.mk.inj (List.mem_singleton.1 hmem)

theorem hourFiles_firstHourDir : HourFiles emptyBlockFromStr firstHourDir := by
  intro path content h
  rw [(contents_firstHourDir h).2]
  exact hourFile_emptyBlockFile (by decide) (by decide)

theorem datetimeFromPath_firstHour :
    datetimeFromPath parseFirstDay ⟨"19700101", "0"⟩ = some (0, 0) := by
  decide +kernel

theorem timely_firstHourDir (clock : ℕ) : ∀ file ∈ timedFiles parseFirstDay firstHourDir,
    file.1.1 * 24 + file.1.2 ≤ clock / oneHour := by
  rintro ⟨dt, path⟩ hfile
  obtain ⟨hmem, hdt⟩ := mem_timedFiles.1 hfile
  obtain rfl : path = ⟨"19700101", "0"⟩ := List.mem_singleton.1 hmem
  obtain rfl : (0, 0) = dt := Option.some.inj (datetimeFromPath_firstHour.symm.trans hdt)
  exact Nat.zero_le _

theorem mem_allHourlyFiles_firstHourDir :
    ⟨"19700101", "0"⟩ ∈ allHourlyFiles parseFirstDay firstHourDir :=
  (mem_allHourlyFiles _).2 ⟨List.mem_singleton_self _, by rw [datetimeFromPath_firstHour]; rfl⟩

theorem hasHeight_firstHour : HasHeight emptyBlockFromStr (emptyBlockFile [5, 6]) 5 :=
  ⟨emptyBlock 5, by rw [fileBlocks_emptyBlockFile (by decide)]; exact List.mem_cons_self, rfl⟩

/-- No later hour has the file of the first one. -/
theorem firstHour_ne_hourFile {h : ℕ} (hpos : 0 < h) :
    (⟨"19700101", "0"⟩ : HourPath) ≠ hourFile firstDay h := by
  intro heq
  rcases Nat.eq_zero_or_pos (h / 24) with hday | hday
  · have hdate : parseFirstDay (firstDay (h / 24)) = some (h / 24) := by
      rw [hday]
      decide
    have hdt := datetimeFromPath_hourFile hdate
    rw [← heq, datetimeFromPath_firstHour, hday] at hdt
    have hhour : 0 = h % 24 := (Prod.mk.inj (Option.some.inj hdt)).2
    omega
  · have hname : "19700101" = firstDay (h / 24) := congrArg HourPath.date heq
    rw [firstDay, if_neg hday.ne'] at hname
    exact absurd hname (by decide)

theorem parseFirstDay_firstDay {clock : ℕ} (hclock : clock < 24 * oneHour) :
    ∀ day ≤ clock / oneHour / 24, parseFirstDay (firstDay day) = some day := by
  intro day hday
  have hzero : clock / oneHour / 24 = 0 := by
    rw [Nat.div_div_eq_div_mul, Nat.mul_comm]
    exact Nat.div_eq_of_lt hclock
  obtain rfl : day = 0 := Nat.le_zero.1 (hzero ▸ hday)
  decide

/-- The source is started an hour after the first file was begun, and serves the blocks of that file
when it has come to the second hour. -/
theorem localSource_serves_firstHour :
    ∃ s, Relation.ReflTransGen (QuietStep emptyBlockFromStr parseFirstDay firstDay 5)
        (start parseFirstDay (oneHour + 1) firstHourDir) s ∧
      s.dir = firstHourDir ∧ s.phase.hour? = some 1 ∧ s.Serves emptyBlockFromStr 5 := by
  have htimely := timely_firstHourDir (oneHour + 1)
  obtain ⟨s, -, date, hour, -, -, hreaches, -, hs⟩ := @reaches_follow emptyBlockFromStr
    parseFirstDay firstDay 5 lineParser_emptyBlockFromStr (oneHour + 1) firstHourDir
    hourFiles_firstHourDir htimely (List.ne_nil_of_mem mem_allHourlyFiles_firstHourDir)
  have hinv := @invariant_start emptyBlockFromStr parseFirstDay firstDay 5 (oneHour + 1)
    firstHourDir hourFiles_firstHourDir htimely
  have hdates := @parseFirstDay_firstDay (oneHour + 1) (by decide)
  obtain ⟨-, hsettled⟩ := hinv.quietRun lineParser_emptyBlockFromStr nofun hreaches.2.1
    (hreaches.2.2.1 ▸ hdates)
  obtain ⟨s', hour', tail', hreaches', hphase', -, hclock'⟩ :=
    @reaches_settled emptyBlockFromStr parseFirstDay firstDay 5 s _ _ hs
      (hsettled _ (congrArg SourcePhase.hour? hs))
  have hrun := hreaches.2.1.trans hreaches'.2.1
  have hclock : s'.clock = oneHour + 1 := hreaches'.2.2.1.trans hreaches.2.2.1
  have hdir : s'.dir = firstHourDir := hreaches'.2.2.2.trans hreaches.2.2.2
  have hhour' : s'.phase.hour? = some hour' := congrArg SourcePhase.hour? hphase'
  have hone : hour' = 1 := by
    have hle := (hinv.quietRun lineParser_emptyBlockFromStr nofun hrun
      (hclock ▸ hdates)).1.hour_le hhour'
    rw [hclock, show (oneHour + 1) / oneHour = 1 by decide] at hle
    rw [hreaches.2.2.1] at hclock'
    have hpos : hour' ≠ 0 := by
      rintro rfl
      exact absurd hclock' (by decide)
    omega
  rw [hone] at hhour'
  refine ⟨s', hrun, hdir, hhour', ?_⟩
  obtain ⟨-, -, -, hserves⟩ := localSource_serves lineParser_emptyBlockFromStr
    hourFiles_firstHourDir htimely 5 (run_of_quiet hrun) (hclock ▸ hdates)
  exact hserves hrun 1 hhour' _ (hdir ▸ mem_allHourlyFiles_firstHourDir)
    (fun h hh ↦ firstHour_ne_hourFile hh) _ (hdir ▸ rfl) 5 le_rfl hasHeight_firstHour

/-- The source is started just after the first file was begun, and gets to a state in which the
blocks of that file are served. -/
theorem localSource_catchesUp_firstHour :
    ∃ s, Relation.ReflTransGen (QuietStep emptyBlockFromStr parseFirstDay firstDay 5)
        (start parseFirstDay 1 firstHourDir) s ∧
      s.clock = 1 ∧ s.dir = firstHourDir ∧ s.Serves emptyBlockFromStr 5 := by
  obtain ⟨hstart, hserves⟩ := @localSource_catchesUp emptyBlockFromStr parseFirstDay firstDay
    lineParser_emptyBlockFromStr 1 firstHourDir hourFiles_firstHourDir (timely_firstHourDir 1) 5
  obtain ⟨-, s, -, date, hour, -, -, -, hrun, hclock, hdir, hphase⟩ :=
    hstart (List.ne_nil_of_mem mem_allHourlyFiles_firstHourDir)
  have hdates := @parseFirstDay_firstDay 1 (by decide)
  obtain ⟨-, s', -, hrun', hclock', hdir', hserves'⟩ :=
    hserves s _ _ hrun (hclock ▸ hdates) hphase
  refine ⟨s', hrun', hclock'.trans hclock, hdir'.trans hdir, ?_⟩
  refine hserves' ⟨"19700101", "0"⟩ (hdir ▸ mem_allHourlyFiles_firstHourDir) (fun h hh ↦ ?_)
    _ (hdir ▸ rfl) 5 le_rfl hasHeight_firstHour
  rw [hclock] at hh
  exact firstHour_ne_hourFile (Nat.pos_of_mul_pos_right hh)

end RethHl.HlNode
