import RethHl.PseudoPeer.HlNode.Backfill

/-!
# The latest block of the hour files

`findLatestBlockNumber` takes the newest hour file, in the order of date and hour whatever the names
look like, and answers with the height of its last block. When no block is found **in that one
file** it gives the answer of another source instead, and does not look at the older files.

Heights that increase along the files and their lines make the last block of the newest file the
highest of all. So as long as that file has a block within reach, no block of any hour file is above
the answer; but at the beginning of an hour, when the newest file is still empty, the answer is the
other source's, however far behind that is (`findLatestBlockNumber_of_reaches`).
-/

namespace RethHl.HlNode

section Latest

variable (fromStr : List Char → Option BlockAndReceipts) (parseDate : String → Option ℕ)

/-- `HlNodeBlockSource::find_latest_block_number`, for what the `hourly` directory is and what the
other source answers; `none` is a panic. -/
def findLatestBlockNumber (dir : Option HourlyDir) (fallback : Option ℕ) : Option (Option ℕ) :=
  match dir with
  | none => some fallback
  | some dir =>
    match findLatestHourlyFile parseDate dir with
    | none => some fallback
    | some path =>
      match readLastBlockFromFile fromStr dir path with
      | none => none
      | some (some (_, height)) => some (some height)
      | some none => some fallback

/-! ### The newest file -/

/-- The files whose path names a time, with that time. -/
def timedFiles (dir : HourlyDir) : List ((ℕ × ℕ) × HourPath) :=
  (dir.files.map Prod.fst).filterMap fun path ↦
    (datetimeFromPath parseDate path).map fun dt ↦ (dt, path)

/-- By date, hour and path. -/
def fileOrder : (ℕ × ℕ) × HourPath → (ℕ × ℕ) × HourPath → Ordering :=
  compareLex (compareLex (compareLex (compareOn fun file ↦ file.1.1)
    (compareOn fun file ↦ file.1.2)) (compareOn fun file ↦ file.2.date))
    (compareOn fun file ↦ file.2.hour)

instance : Std.TransCmp fileOrder := by
  unfold fileOrder
  infer_instance

theorem notAfter_eq (a b : (ℕ × ℕ) × HourPath) : notAfter a b = (fileOrder a b).isLE := rfl

theorem notAfter_trans (a b c : (ℕ × ℕ) × HourPath) (hab : notAfter a b = true)
    (hbc : notAfter b c = true) : notAfter a c = true := by
  rw [notAfter_eq] at hab hbc ⊢
  exact Std.TransCmp.isLE_trans hab hbc

theorem notAfter_total (a b : (ℕ × ℕ) × HourPath) : (notAfter a b || notAfter b a) = true := by
  have hswap : fileOrder b a = (fileOrder a b).swap := Std.OrientedCmp.eq_swap
  rw [notAfter_eq, notAfter_eq, hswap]
  cases fileOrder a b <;> rfl

variable {fromStr parseDate}

theorem mem_timedFiles {dir : HourlyDir} {file : (ℕ × ℕ) × HourPath} :
    file ∈ timedFiles parseDate dir ↔
      file.2 ∈ dir.files.map Prod.fst ∧ datetimeFromPath parseDate file.2 = some file.1 := by
  rw [timedFiles, List.mem_filterMap]
  constructor
  · rintro ⟨path, hpath, hfile⟩
    obtain ⟨dt, hdt, rfl⟩ := Option.map_eq_some_iff.1 hfile
    exact ⟨hpath, hdt⟩
  · rintro ⟨hpath, hdt⟩
    exact ⟨file.2, hpath, by rw [hdt]; rfl⟩

/-- No file is after the newest one. -/
theorem notAfter_findLatestHourlyFile {dir : HourlyDir} {path : HourPath}
    (h : findLatestHourlyFile parseDate dir = some path) :
    ∃ dt, (dt, path) ∈ timedFiles parseDate dir ∧
      ∀ file ∈ timedFiles parseDate dir, notAfter file (dt, path) = true := by
  have hmap : (((timedFiles parseDate dir).mergeSort notAfter).map Prod.snd).getLast? =
      some path := h
  rw [List.getLast?_map] at hmap
  obtain ⟨⟨dt, path⟩, hlast, rfl⟩ := Option.map_eq_some_iff.1 hmap
  obtain ⟨front, hfront⟩ := List.getLast?_eq_some_iff.1 hlast
  have hsorted : (front ++ [(dt, path)]).Pairwise fun a b ↦ notAfter a b = true := by
    rw [← hfront]
    exact List.pairwise_mergeSort notAfter_trans notAfter_total _
  have hmem : ∀ file, file ∈ timedFiles parseDate dir ↔ file ∈ front ++ [(dt, path)] := by
    intro file
    rw [← hfront, List.mem_mergeSort]
  refine ⟨dt, (hmem _).2 (by simp), fun file hfile ↦ ?_⟩
  rcases List.mem_append.1 ((hmem file).1 hfile) with hfile | hfile
  · exact (List.pairwise_append.1 hsorted).2.2 file hfile _ (List.mem_singleton_self _)
  · rw [List.mem_singleton.1 hfile]
    exact (Bool.or_self _).symm.trans (notAfter_total _ _)

/-! ### Heights that increase -/

variable (fromStr) in
/-- The blocks of a file of the directory. -/
def blocksOf (dir : HourlyDir) (path : HourPath) : List BlockAndReceipts :=
  fileBlocks fromStr ((dir.contents path).getD [])

variable (fromStr parseDate) in
/-- Heights that increase along the hour files, by date and hour, and along the lines of each. -/
structure HeightsIncrease (dir : HourlyDir) : Prop where
  in_file : ∀ file ∈ timedFiles parseDate dir, ∀ content, dir.contents file.2 = some content →
    StrictHeights fromStr content
  across_files : ∀ file ∈ timedFiles parseDate dir, ∀ file' ∈ timedFiles parseDate dir,
    file ≠ file' → notAfter file file' = true →
    ∀ b ∈ blocksOf fromStr dir file.2, ∀ b' ∈ blocksOf fromStr dir file'.2, b.number < b'.number

/-- The last block of the newest file is the highest one. -/
theorem HeightsIncrease.number_le {dir : HourlyDir}
    (hincrease : HeightsIncrease fromStr parseDate dir) {path : HourPath} {content : List Char}
    (hnewest : findLatestHourlyFile parseDate dir = some path)
    (hcontent : dir.contents path = some content) {last : BlockAndReceipts}
    (hlast : (fileBlocks fromStr content).getLast? = some last) {path' : HourPath}
    (hpath' : path' ∈ allHourlyFiles parseDate dir) {b : BlockAndReceipts}
    (hb : b ∈ blocksOf fromStr dir path') : b.number ≤ last.number := by
  obtain ⟨dt, hmem, hafter⟩ := notAfter_findLatestHourlyFile hnewest
  obtain ⟨hlisted, hsome⟩ := (mem_allHourlyFiles parseDate).1 hpath'
  obtain ⟨dt', hdt'⟩ := Option.isSome_iff_exists.1 hsome
  have hmem' : (dt', path') ∈ timedFiles parseDate dir := mem_timedFiles.2 ⟨hlisted, hdt'⟩
  have hblocks : blocksOf fromStr dir path = fileBlocks fromStr content := by
    rw [blocksOf, hcontent]
    rfl
  by_cases heq : (dt', path') = (dt, path)
  · obtain ⟨-, rfl⟩ := Prod.mk.inj heq
    rw [hblocks] at hb
    exact number_le_getLast (hincrease.in_file _ hmem content hcontent) hlast hb
  · refine Nat.le_of_lt (hincrease.across_files _ hmem' _ hmem heq (hafter _ hmem') b hb last ?_)
    rw [hblocks]
    exact List.mem_of_getLast? hlast

/-- **What is answered**, when the last block of the newest file is within reach: its height, and no
block of any hour file is higher; and the other source's answer if that file has no block. -/
theorem findLatestBlockNumber_of_reaches (hparser : LineParser fromStr) {dir : HourlyDir}
    (hincrease : HeightsIncrease fromStr parseDate dir) {path : HourPath} {content : List Char}
    (hnewest : findLatestHourlyFile parseDate dir = some path)
    (hcontent : dir.contents path = some content) (hreaches : Reaches fromStr content)
    (fallback : Option ℕ) :
    (∀ last, (fileBlocks fromStr content).getLast? = some last →
      findLatestBlockNumber fromStr parseDate (some dir) fallback = some (some last.number) ∧
        ∀ path' ∈ allHourlyFiles parseDate dir, ∀ b ∈ blocksOf fromStr dir path',
          b.number ≤ last.number) ∧
      (fileBlocks fromStr content = [] →
        findLatestBlockNumber fromStr parseDate (some dir) fallback = some fallback) := by
  have hread : readLastBlockFromFile fromStr dir path =
      some ((fileBlocks fromStr content).getLast?.map withHeight) := by
    rw [readLastBlockFromFile, hcontent]
    exact (readLastCompleteLine_iff hparser content).2 hreaches
  constructor
  · intro last hlast
    rw [hlast] at hread
    refine ⟨?_, fun path' hpath' b hb ↦ hincrease.number_le hnewest hcontent hlast hpath' hb⟩
    simp only [findLatestBlockNumber, hnewest, hread]
    rfl
  · intro hnone
    rw [hnone] at hread
    simp only [findLatestBlockNumber, hnewest, hread]
    rfl

end Latest

/-! ### The turn of an hour -/

/-- The files of two hours, the newer one with the given blocks. -/
def turnOfHour (numbers : List ℕ) : HourlyDir where
  files := [(⟨"20250731", "4"⟩, emptyBlockFile [5, 6]),
    (⟨"20250731", "5"⟩, emptyBlockFile numbers)]
  nodup := show [(⟨"20250731", "4"⟩ : HourPath), ⟨"20250731", "5"⟩].Nodup by decide

section TurnOfHour

variable {numbers : List ℕ}

theorem timedFiles_turnOfHour (numbers : List ℕ) :
    timedFiles exampleParseDate (turnOfHour numbers) =
      [((739463, 4), ⟨"20250731", "4"⟩), ((739463, 5), ⟨"20250731", "5"⟩)] := by
  show List.filterMap _ [(⟨"20250731", "4"⟩ : HourPath), ⟨"20250731", "5"⟩] = _
  decide +kernel

theorem mem_timedFiles_turnOfHour {file : (ℕ × ℕ) × HourPath}
    (h : file ∈ timedFiles exampleParseDate (turnOfHour numbers)) :
    file = ((739463, 4), ⟨"20250731", "4"⟩) ∨ file = ((739463, 5), ⟨"20250731", "5"⟩) := by
  rw [timedFiles_turnOfHour] at h
  exact List.mem_pair.1 h

theorem findLatestHourlyFile_turnOfHour (numbers : List ℕ) :
    findLatestHourlyFile exampleParseDate (turnOfHour numbers) = some ⟨"20250731", "5"⟩ := by
  show (((timedFiles exampleParseDate (turnOfHour numbers)).mergeSort notAfter).map
    Prod.snd).getLast? = _
  rw [timedFiles_turnOfHour, List.mergeSort_of_pairwise (by decide +kernel)]
  rfl

/-- A file of one line is read as a whole. -/
theorem reaches_of_popLine {fromStr : List Char → Option BlockAndReceipts}
    (hparser : LineParser fromStr) {content : List Char} (h : '\n' ∉ Text.popLine content) :
    Reaches fromStr content := by
  refine reaches_of_single_line hparser ?_
  rcases Nat.eq_zero_or_pos (chunkCount (Text.utf8 content).length) with hzero | hpos
  · have hsize := chunkCount_le_iff.1 hzero.le
    rw [Nat.zero_mul, Nat.le_zero, List.length_eq_zero_iff, Text.utf8_eq_nil] at hsize
    rw [tried_of_le hzero.le, hsize]
    exact List.not_mem_nil
  · rw [tried_of_not_mem hpos h]
    exact h

theorem heightsIncrease_turnOfHour (hlt : numbers.Pairwise (· < ·))
    (hnumbers : ∀ n ∈ numbers, 6 < n ∧ n < 10) :
    HeightsIncrease emptyBlockFromStr exampleParseDate (turnOfHour numbers) := by
  have hsmall : ∀ n ∈ [5, 6], n < 10 := by decide
  have hsmall' : ∀ n ∈ numbers, n < 10 := fun n hn ↦ (hnumbers n hn).2
  constructor
  · intro file hfile content hcontent
    rcases mem_timedFiles_turnOfHour hfile with rfl | rfl
    · obtain rfl : emptyBlockFile [5, 6] = content := Option.some.inj hcontent
      exact strictHeights_emptyBlockFile hsmall (by decide)
    · obtain rfl : emptyBlockFile numbers = content := Option.some.inj hcontent
      exact strictHeights_emptyBlockFile hsmall' hlt
  · intro file hfile file' hfile' hne hafter b hb b' hb'
    rcases mem_timedFiles_turnOfHour hfile with rfl | rfl <;>
      rcases mem_timedFiles_turnOfHour hfile' with rfl | rfl
    · exact absurd rfl hne
    · have hblocks : b ∈ fileBlocks emptyBlockFromStr (emptyBlockFile [5, 6]) := hb
      have hblocks' : b' ∈ fileBlocks emptyBlockFromStr (emptyBlockFile numbers) := hb'
      rw [fileBlocks_emptyBlockFile hsmall] at hblocks
      rw [fileBlocks_emptyBlockFile hsmall'] at hblocks'
      obtain ⟨n, hn, rfl⟩ := List.mem_map.1 hblocks
      obtain ⟨n', hn', rfl⟩ := List.mem_map.1 hblocks'
      have hle : n ≤ 6 := by
        rcases List.mem_pair.1 hn with rfl | rfl <;> decide
      exact hle.trans_lt (hnumbers n' hn').1
    · exact absurd hafter (by decide +kernel)
    · exact absurd rfl hne

end TurnOfHour

/-- The newer file has one block, which is the latest. -/
theorem findLatestBlockNumber_of_reaches_seven :
    findLatestBlockNumber emptyBlockFromStr exampleParseDate (some (turnOfHour [7])) (some 3) =
        some (some 7) ∧
      ∀ path ∈ allHourlyFiles exampleParseDate (turnOfHour [7]),
        ∀ b ∈ blocksOf emptyBlockFromStr (turnOfHour [7]) path, b.number ≤ 7 := by
  have hblocks := fileBlocks_emptyBlockFile (show ∀ n ∈ [7], n < 10 by decide)
  have hreaches : Reaches emptyBlockFromStr (emptyBlockFile [7]) := by
    refine reaches_of_popLine lineParser_emptyBlockFromStr ?_
    rw [emptyBlockFile, List.flatMap_singleton, Text.popLine, if_pos List.getLast?_concat,
      List.dropLast_concat]
    exact (isLine_emptyBlockLine (by decide)).1
  exact (findLatestBlockNumber_of_reaches lineParser_emptyBlockFromStr
    (heightsIncrease_turnOfHour (by decide) (by decide)) (findLatestHourlyFile_turnOfHour [7]) rfl
      hreaches (some 3)).1 (emptyBlock 7) (by rw [hblocks]; rfl)

/-- **The newer file is still empty**: the other source's height three is answered, though the older
file has the blocks five and six. -/
theorem findLatestBlockNumber_empty_file :
    HeightsIncrease emptyBlockFromStr exampleParseDate (turnOfHour []) ∧
      ⟨"20250731", "4"⟩ ∈ allHourlyFiles exampleParseDate (turnOfHour []) ∧
      emptyBlock 6 ∈ blocksOf emptyBlockFromStr (turnOfHour []) ⟨"20250731", "4"⟩ ∧
      findLatestBlockNumber emptyBlockFromStr exampleParseDate (some (turnOfHour [])) (some 3) =
        some (some 3) := by
  have hsmall : ∀ n ∈ [5, 6], n < 10 := by decide
  refine ⟨heightsIncrease_turnOfHour List.Pairwise.nil (by decide), ?_, ?_, ?_⟩
  · exact (mem_allHourlyFiles _).2 ⟨List.mem_cons_self, by decide +kernel⟩
  · show emptyBlock 6 ∈ fileBlocks emptyBlockFromStr (emptyBlockFile [5, 6])
    rw [fileBlocks_emptyBlockFile hsmall]
    exact List.mem_map_of_mem (by decide)
  · have hread : readLastBlockFromFile emptyBlockFromStr (turnOfHour []) ⟨"20250731", "5"⟩ =
        some none :=
      (readLastCompleteLine_iff lineParser_emptyBlockFromStr []).2
        (reaches_of_popLine lineParser_emptyBlockFromStr List.not_mem_nil)
    simp only [findLatestBlockNumber, findLatestHourlyFile_turnOfHour, hread]

end RethHl.HlNode
