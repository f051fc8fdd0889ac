import RethHl.PseudoPeer.HlNode.Tail

/-!
# The hour files of a directory

`hl-node` keeps one file per hour below `hourly/<date>/<hour>`. `allHourlyFiles` lists those whose
path names a date and an hour, in the order of time, and `readLastBlockFromFile` finds the last
block of a file without reading all of it.

The latter reads the bytes of the file backwards in chunks. **It tries one line per chunk**: it cuts
the text it has at the last line feed, tries what follows as a block, drops it if it is none, and
goes on with the next chunk in front of the rest. What is left at the beginning of the file is tried
as one text, with whatever line feeds it has. So it may find nothing in a file that has blocks; but
**a block that it finds is the last block of the file** (`readLastCompleteLine_eq`), for a file in
which no block is spread over several lines (`HourFile`).

The invariant of the loop (`ReadsBack`) is that the bytes that are not dropped yet are a whole text,
that the dropped text starts with a line feed, and that it has no block.
-/

namespace RethHl.HlNode

/-- The `hourly` directory: the files of all days with their texts, as the file system lists
them. -/
structure HourlyDir where
  files : List (HourPath × List Char)
  nodup : (files.map Prod.fst).Nodup

/-- The text of a file. -/
def HourlyDir.contents (dir : HourlyDir) (path : HourPath) : Option (List Char) :=
  dir.files.lookup path

/-- Parse a number of eight bits: an optional sign and decimal digits. -/
def parseU8 (text : List Char) : Option ℕ :=
  let digits := if text.head? = some '+' then text.tail else text
  let value := digits.foldl (fun n c ↦ 10 * n + (c.toNat - '0'.toNat)) 0
  if digits ≠ [] ∧ digits.all Char.isDigit ∧ value < 256 then some value else none

section Paths

variable (parseDate : String → Option ℕ)

/-- `TimeUtils::datetime_from_path`: the day and the hour that a path names. -/
def datetimeFromPath (path : HourPath) : Option (ℕ × ℕ) := do
  let date ← parseDate path.date
  let hour ← parseU8 path.hour.toList
  if hour < 24 then some (date, hour) else none

/-- The order of the files: by time, then by path. -/
def notAfter (a b : (ℕ × ℕ) × HourPath) : Bool :=
  ((((compare a.1.1 b.1.1).then (compare a.1.2 b.1.2)).then
    (compare a.2.date b.2.date)).then (compare a.2.hour b.2.hour)).isLE

/-- `FileOperations::all_hourly_files`. -/
def allHourlyFiles (dir : HourlyDir) : List HourPath :=
  let files := (dir.files.map Prod.fst).filterMap fun path ↦
    (datetimeFromPath parseDate path).map fun dt ↦ (dt, path)
  (files.mergeSort notAfter).map Prod.snd

/-- `FileOperations::find_latest_hourly_file`. -/
def findLatestHourlyFile (dir : HourlyDir) : Option HourPath :=
  (allHourlyFiles parseDate dir).getLast?

/-- The listed files are the files whose path names a time. -/
theorem mem_allHourlyFiles {dir : HourlyDir} {path : HourPath} :
    path ∈ allHourlyFiles parseDate dir ↔
      path ∈ dir.files.map Prod.fst ∧ (datetimeFromPath parseDate path).isSome := by
  rw [allHourlyFiles, List.mem_map]
  constructor
  · rintro ⟨⟨dt, path⟩, hmem, rfl⟩
    rw [List.mem_mergeSort, List.mem_filterMap] at hmem
    obtain ⟨path', hpath, hdt⟩ := hmem
    obtain ⟨dt', hdt', heq⟩ := Option.map_eq_some_iff.1 hdt
    obtain ⟨-, rfl⟩ := Prod.mk.inj heq
    exact ⟨hpath, Option.isSome_iff_exists.2 ⟨dt', hdt'⟩⟩
  · rintro ⟨hpath, hdt⟩
    obtain ⟨dt, hdt⟩ := Option.isSome_iff_exists.1 hdt
    refine ⟨(dt, path), ?_, rfl⟩
    rw [List.mem_mergeSort, List.mem_filterMap]
    exact ⟨path, hpath, by rw [hdt]; rfl⟩

end Paths

/-- A listed file has a text. -/
theorem HourlyDir.exists_contents {dir : HourlyDir} {path : HourPath}
    (h : path ∈ dir.files.map Prod.fst) : ∃ content, dir.contents path = some content := by
  rcases hc : dir.contents path with - | content
  · obtain ⟨file, hfile, rfl⟩ := List.mem_map.1 h
    have hne := List.lookup_eq_none_iff.1 hc file hfile
    simp at hne
  · exact ⟨content, rfl⟩

/-! ### Reading the last block -/

/-- How much is read at a time. -/
def chunkSize : ℕ := 50000

/-- The last position of a byte. -/
def rposition (byte : UInt8) (bytes : List UInt8) : Option ℕ :=
  (bytes.reverse.idxOf? byte).map fun i ↦ bytes.length - 1 - i

/-- Drop a line feed at the end. -/
def popNewline (bytes : List UInt8) : List UInt8 :=
  if bytes.getLast? = some Text.newline then bytes.dropLast else bytes

section ReadBack

variable (fromStr : List Char → Option BlockAndReceipts)

/-- Parse bytes as a block. Bytes that are no text are a panic, here and below `none`. -/
def parseBytes (bytes : List UInt8) : Option (Option (BlockAndReceipts × ℕ)) :=
  (Text.fromUtf8 bytes).map (lineToEvmBlock fromStr)

/-- The loop of `FileOperations::read_last_complete_line`, at a position of the file. -/
def readBack (file : List UInt8) (pos : ℕ) (lastLine : List UInt8) :
    Option (Option (BlockAndReceipts × ℕ)) :=
  if hpos : 0 < pos then
    let readSize := min pos chunkSize
    let buf := (file.drop (pos - readSize)).take readSize
    let lastLine := popNewline (buf ++ lastLine)
    have hlt : pos - readSize < pos := Nat.sub_lt hpos (Nat.lt_min.2 ⟨hpos, by decide⟩)
    -- the loop would also end at `pos < readSize`, which never holds
    match rposition Text.newline lastLine with
    | some idx =>
      match parseBytes fromStr (lastLine.drop (idx + 1)) with
      | none => none
      | some (some result) => some (some result)
      | some none => readBack file (pos - readSize) (lastLine.take idx)
    | none => readBack file (pos - readSize) lastLine
  else parseBytes fromStr lastLine
termination_by pos
decreasing_by all_goals exact hlt

/-- `FileOperations::read_last_complete_line`. -/
def readLastCompleteLine (content : List Char) : Option (Option (BlockAndReceipts × ℕ)) :=
  readBack fromStr (Text.utf8 content) (Text.utf8 content).length []

/-- `FileOperations::read_last_block_from_file`. -/
def readLastBlockFromFile (dir : HourlyDir) (path : HourPath) :
    Option (Option (BlockAndReceipts × ℕ)) :=
  match dir.contents path with
  | none => some none
  | some content => readLastCompleteLine fromStr content

/-! ### The blocks of a file -/

/-- What is assumed of the parser: a blank line is no block, and a carriage return at the end of a
line does not matter. -/
structure LineParser : Prop where
  blank : ∀ line, Text.isBlank line = true → fromStr line = none
  stripCr : ∀ line, fromStr (Text.stripCr line) = fromStr line

/-- The blocks of a text, one a line. -/
def fileBlocks (content : List Char) : List BlockAndReceipts :=
  (Text.lines content).filterMap (lineBlock fromStr)

/-- An hour file: the heights increase, none is the largest one, and no block is spread over several
lines: a text with a line feed parses only if one of its lines does. -/
structure HourFile (content : List Char) : Prop where
  increasing : StrictHeights fromStr content
  below : ∀ b ∈ fileBlocks fromStr content, b.number < u64Max
  one_per_line : ∀ text b, text <+: content → '\n' ∈ text → fromStr text = some b →
    fileBlocks fromStr text = [b]

variable {fromStr}

theorem mem_fileBlocks {content : List Char} {b : BlockAndReceipts} :
    b ∈ fileBlocks fromStr content ↔ ∃ j, completeLine fromStr content j = some b := by
  simp only [completeLine, Option.bind_eq_some_iff]
  rw [fileBlocks, List.mem_filterMap]
  constructor
  · rintro ⟨line, hline, hb⟩
    obtain ⟨j, hj⟩ := List.mem_iff_getElem?.1 hline
    exact ⟨j, line, hj, hb⟩
  · rintro ⟨j, line, hj, hb⟩
    exact ⟨line, List.mem_of_getElem? hj, hb⟩

/-- The parsable lines of a whole file are its blocks. -/
theorem map_snd_parsedFrom_zero (content : List Char) :
    (parsedFrom fromStr (Text.lines content) 0).map Prod.snd = fileBlocks fromStr content := by
  rw [parsedFrom, fileBlocks, List.map_filterMap]
  conv_rhs => rw [← List.zipIdx_map_fst 0 (Text.lines content), List.filterMap_map]
  refine congrArg (List.filterMap · _) (funext fun p ↦ ?_)
  rw [if_neg (Nat.not_lt_zero _), Option.map_map]
  exact Option.map_id'

/-- In a file with increasing heights, the last block is the highest. -/
theorem number_le_getLast {content : List Char} (hstrict : StrictHeights fromStr content)
    {b last : BlockAndReceipts} (hlast : (fileBlocks fromStr content).getLast? = some last)
    (hb : b ∈ fileBlocks fromStr content) : b.number ≤ last.number := by
  have hpair : (fileBlocks fromStr content).Pairwise fun b b' ↦ b.number < b'.number := by
    rw [← map_snd_parsedFrom_zero, List.pairwise_map]
    refine (parsedFrom_pairwise (Text.lines content) 0).imp_of_mem ?_
    rintro ⟨i, b⟩ ⟨j, b'⟩ hi hj hij
    exact hstrict i j b b' (mem_parsedFrom_lines.1 hi).2 (mem_parsedFrom_lines.1 hj).2 hij
  obtain ⟨init, hinit⟩ := List.getLast?_eq_some_iff.1 hlast
  rw [hinit] at hpair hb
  rcases List.mem_append.1 hb with hb | hb
  · exact Nat.le_of_lt ((List.pairwise_append.1 hpair).2.2 b hb last (by simp))
  · obtain rfl := List.mem_singleton.1 hb
    exact Nat.le_refl _

section Blocks

variable (hparser : LineParser fromStr)

include hparser

theorem LineParser.lineBlock_eq (line : List Char) : lineBlock fromStr line = fromStr line := by
  rw [lineBlock]
  split_ifs with hblank
  · exact (hparser.blank line hblank).symm
  · rfl

/-- The blocks of a text, by the raw cut at the line feeds. -/
theorem LineParser.fileBlocks_eq (content : List Char) :
    fileBlocks fromStr content = (content.splitOn '\n').filterMap fromStr := by
  have hfun : lineBlock fromStr = fromStr := funext hparser.lineBlock_eq
  rw [fileBlocks, hfun, Text.filterMap_lines (hparser.blank [] rfl) hparser.stripCr]

theorem LineParser.fileBlocks_append_newline (a b : List Char) :
    fileBlocks fromStr (a ++ '\n' :: b) = fileBlocks fromStr a ++ fileBlocks fromStr b := by
  rw [hparser.fileBlocks_eq, hparser.fileBlocks_eq, hparser.fileBlocks_eq,
    List.splitOn_append_cons_self, List.filterMap_append]

theorem LineParser.fileBlocks_newline_cons (b : List Char) :
    fileBlocks fromStr ('\n' :: b) = fileBlocks fromStr b := by
  rw [← List.nil_append ('\n' :: b), hparser.fileBlocks_append_newline]
  rfl

/-- What starts with a line feed and has no block does not count. -/
theorem LineParser.fileBlocks_append_of_dropped {dropped : List Char}
    (hdropped : dropped = [] ∨ ∃ rest, dropped = '\n' :: rest)
    (hnone : fileBlocks fromStr dropped = []) (text : List Char) :
    fileBlocks fromStr (text ++ dropped) = fileBlocks fromStr text := by
  rcases hdropped with rfl | ⟨rest, rfl⟩
  · rw [List.append_nil]
  · rw [hparser.fileBlocks_newline_cons] at hnone
    rw [hparser.fileBlocks_append_newline, hnone, List.append_nil]

/-- A text without a line feed has the block it parses to. -/
theorem LineParser.fileBlocks_line {line : List Char} (hline : '\n' ∉ line) :
    fileBlocks fromStr line = (fromStr line).toList := by
  rw [hparser.fileBlocks_eq, List.splitOn_eq_singleton hline]
  rcases h : fromStr line with - | b <;> simp [h]

end Blocks

/-! ### What reading back finds -/

/-- The bytes from the start that are not dropped are a text, and the dropped text starts with a
line feed and has no block. -/
def ReadsBack (fromStr : List Char → Option BlockAndReceipts) (content : List Char)
    (kept : List UInt8) : Prop :=
  ∃ text dropped, content = text ++ dropped ∧ kept = Text.utf8 text ∧
    (dropped = [] ∨ ∃ rest, dropped = '\n' :: rest) ∧ fileBlocks fromStr dropped = []

theorem rposition_eq_some {byte : UInt8} {bytes : List UInt8} {idx : ℕ}
    (h : rposition byte bytes = some idx) :
    bytes = bytes.take idx ++ byte :: bytes.drop (idx + 1) ∧ byte ∉ bytes.drop (idx + 1) := by
  obtain ⟨i, hi, rfl⟩ := Option.map_eq_some_iff.1 h
  obtain ⟨hlt, hbyte, hbefore⟩ := List.idxOf?_eq_some_iff.1 hi
  rw [List.length_reverse] at hlt
  rw [List.getElem_reverse] at hbyte
  refine ⟨?_, fun hmem ↦ ?_⟩
  · conv_lhs => rw [← List.take_append_drop (bytes.length - 1 - i) bytes,
      List.drop_eq_getElem_cons (by omega), hbyte]
  · -- a later position is an earlier one from the end
    obtain ⟨k, hk, hget⟩ := List.mem_iff_getElem.1 hmem
    rw [List.length_drop] at hk
    rw [List.getElem_drop] at hget
    refine hbefore (i - 1 - k) (by omega) ?_
    rw [List.getElem_reverse, ← hget]
    congr 1
    omega

theorem rposition_eq_none {byte : UInt8} {bytes : List UInt8} (h : rposition byte bytes = none) :
    byte ∉ bytes := by
  rw [rposition, Option.map_eq_none_iff, List.idxOf?_eq_none_iff] at h
  simpa using h

/-- **What one turn of the loop does.** A chunk goes in front of what is there, and a line feed at
the end is dropped. Without another line feed the loop goes on with all of it; else the last line
is tried, and the loop goes on with what stands before that line. -/
theorem readBack_step (fromStr : List Char → Option BlockAndReceipts) (file : List UInt8) {pos : ℕ}
    (lastLine : List UInt8) (hpos : 0 < pos) :
    ∃ buf, file.take pos = file.take (pos - min pos chunkSize) ++ buf ∧
      ((Text.newline ∉ popNewline (buf ++ lastLine) ∧
        readBack fromStr file pos lastLine =
          readBack fromStr file (pos - min pos chunkSize) (popNewline (buf ++ lastLine))) ∨
      ∃ front rest, popNewline (buf ++ lastLine) = front ++ Text.newline :: rest ∧
        Text.newline ∉ rest ∧
        (∀ result, parseBytes fromStr rest = some (some result) →
          readBack fromStr file pos lastLine = some (some result)) ∧
        (parseBytes fromStr rest = some none → readBack fromStr file pos lastLine =
          readBack fromStr file (pos - min pos chunkSize) front)) := by
  refine ⟨(file.drop (pos - min pos chunkSize)).take (min pos chunkSize), ?_, ?_⟩
  · rw [← List.take_add, Nat.sub_add_cancel (Nat.min_le_left _ _)]
  · rw [readBack, dif_pos hpos]
    simp only
    set line := popNewline ((file.drop (pos - min pos chunkSize)).take (min pos chunkSize) ++
      lastLine)
    rcases hidx : rposition Text.newline line with - | idx
    · exact Or.inl ⟨rposition_eq_none hidx, rfl⟩
    · obtain ⟨hsplit, hnot⟩ := rposition_eq_some hidx
      refine Or.inr ⟨_, _, hsplit, hnot, fun result hparse ↦ ?_, fun hparse ↦ ?_⟩
      · simp only [hparse]
      · simp only [hparse]

theorem popNewline_cases (bytes : List UInt8) :
    popNewline bytes = bytes ∨ bytes = popNewline bytes ++ [Text.newline] := by
  rw [popNewline]
  split_ifs with hlast
  · obtain ⟨init, rfl⟩ := List.getLast?_eq_some_iff.1 hlast
    rw [List.dropLast_concat]
    exact Or.inr rfl
  · exact Or.inl rfl

section ReadsBack

variable {content : List Char} (hparser : LineParser fromStr)

include hparser

/-- A line feed at the end can be dropped. -/
theorem ReadsBack.popNewline {front bytes : List UInt8}
    (h : ReadsBack fromStr content (front ++ bytes)) :
    ReadsBack fromStr content (front ++ popNewline bytes) := by
  rcases popNewline_cases bytes with heq | heq
  · rwa [heq]
  · obtain ⟨text, dropped, rfl, hkept, -, hnone⟩ := h
    rw [heq, ← List.append_assoc] at hkept
    obtain ⟨u, v, rfl, hu, hv⟩ := Text.utf8_eq_append_newline hkept.symm
    obtain rfl : v = [] := Text.utf8_eq_nil.1 hv
    refine ⟨u, '\n' :: dropped, by simp, hu.symm, Or.inr ⟨_, rfl⟩, ?_⟩
    rw [hparser.fileBlocks_newline_cons, hnone]

/-- A last line that is cut off is a text, and together with what is dropped it has the block it
parses to. -/
theorem ReadsBack.cut {front line : List UInt8}
    (h : ReadsBack fromStr content (front ++ Text.newline :: line))
    (hline : Text.newline ∉ line) :
    ∃ u candidate dropped, content = u ++ '\n' :: (candidate ++ dropped) ∧
      Text.utf8 u = front ∧ Text.utf8 candidate = line ∧
      fileBlocks fromStr (candidate ++ dropped) = (fromStr candidate).toList := by
  obtain ⟨text, dropped, rfl, hkept, hdropped, hnone⟩ := h
  obtain ⟨u, candidate, rfl, rfl, rfl⟩ := Text.utf8_eq_append_newline hkept.symm
  refine ⟨u, candidate, dropped, by simp, rfl, rfl, ?_⟩
  have hnot : '\n' ∉ candidate := fun hmem ↦ hline (Text.newline_mem_utf8.2 hmem)
  rw [hparser.fileBlocks_append_of_dropped hdropped hnone, hparser.fileBlocks_line hnot]

/-- At the start of the file the whole rest is tried. -/
theorem ReadsBack.start (hfile : HourFile fromStr content) {lastLine : List UInt8}
    (h : ReadsBack fromStr content lastLine) :
    ∃ r, parseBytes fromStr lastLine = some r ∧
      ∀ result ∈ r, (fileBlocks fromStr content).getLast? = some result.1 ∧
        result.2 = result.1.number := by
  obtain ⟨text, dropped, rfl, rfl, hdropped, hnone⟩ := h
  rw [parseBytes, Text.fromUtf8_utf8]
  refine ⟨_, rfl, ?_⟩
  rintro ⟨b, height⟩ hresult
  obtain ⟨b', hb, heq⟩ := Option.map_eq_some_iff.1 hresult
  obtain ⟨rfl, rfl⟩ := Prod.mk.inj heq
  refine ⟨?_, rfl⟩
  rw [hparser.fileBlocks_append_of_dropped hdropped hnone]
  by_cases hmem : '\n' ∈ text
  · rw [hfile.one_per_line text b' (List.prefix_append _ _) hmem hb]
    rfl
  · rw [hparser.fileBlocks_line hmem, hb]
    rfl

/-- The loop keeps what it needs: it ends without a panic, and a block that it returns is the last
one of the file. -/
theorem readBack_spec (hfile : HourFile fromStr content) {pos : ℕ} {lastLine : List UInt8}
    (h : ReadsBack fromStr content ((Text.utf8 content).take pos ++ lastLine)) :
    ∃ r, readBack fromStr (Text.utf8 content) pos lastLine = some r ∧
      ∀ result ∈ r, (fileBlocks fromStr content).getLast? = some result.1 ∧
        result.2 = result.1.number := by
  induction pos using Nat.strongRecOn generalizing lastLine with
  | _ pos ih =>
    rcases Nat.eq_zero_or_pos pos with rfl | hpos
    · rw [List.take_zero, List.nil_append] at h
      rw [readBack, dif_neg (Nat.lt_irrefl 0)]
      exact h.start hparser hfile
    · have hlt : pos - min pos chunkSize < pos :=
        Nat.sub_lt hpos (Nat.lt_min.2 ⟨hpos, by decide⟩)
      obtain ⟨buf, hread, hstep⟩ := readBack_step fromStr (Text.utf8 content) lastLine hpos
      rw [hread, List.append_assoc] at h
      have hpop := h.popNewline hparser
      rcases hstep with ⟨-, hnext⟩ | ⟨front, rest, hsplit, hnot, hfound, hnext⟩
      · rw [hnext]
        exact ih _ hlt hpop
      · rw [hsplit, ← List.append_assoc] at hpop
        obtain ⟨u, candidate, dropped, hcontent, hu, hcandidate, hblocks⟩ := hpop.cut hparser hnot
        have hparse : parseBytes fromStr rest = some (lineToEvmBlock fromStr candidate) := by
          rw [parseBytes, ← hcandidate, Text.fromUtf8_utf8]
          rfl
        rcases hb : fromStr candidate with - | b
        · -- no block: the line is dropped
          rw [lineToEvmBlock, hb] at hparse
          rw [hnext hparse]
          refine ih _ hlt ⟨u, '\n' :: (candidate ++ dropped), hcontent, hu.symm,
            Or.inr ⟨_, rfl⟩, ?_⟩
          rw [hparser.fileBlocks_newline_cons, hblocks, hb]
          rfl
        · rw [lineToEvmBlock, hb] at hparse
          refine ⟨_, hfound _ hparse, ?_⟩
          intro result hresult
          obtain rfl := Option.some.inj hresult
          refine ⟨?_, rfl⟩
          rw [hcontent, hparser.fileBlocks_append_newline, hblocks, hb]
          exact List.getLast?_concat

/-- **A block that is found is the last one of the file**, and nothing panics. -/
theorem readLastCompleteLine_eq (hfile : HourFile fromStr content) :
    ∃ r, readLastCompleteLine fromStr content = some r ∧
      ∀ result ∈ r, (fileBlocks fromStr content).getLast? = some result.1 ∧
        result.2 = result.1.number := by
  refine readBack_spec hparser hfile ⟨content, [], ?_, ?_, Or.inl rfl, rfl⟩
  · rw [List.append_nil]
  · rw [List.take_length, List.append_nil]

end ReadsBack

end ReadBack

/-! ### The files of the empty blocks -/

/-- What the parser of the empty blocks accepts. -/
theorem emptyBlockFromStr_eq_some {text : List Char} {b : BlockAndReceipts}
    (h : emptyBlockFromStr text = some b) :
    ∃ n < 10, text.rdropWhile (fun c ↦ c = '\r') = emptyBlockLine n := by
  obtain ⟨n, hn, -⟩ := Option.map_eq_some_iff.1 h
  exact ⟨n, List.mem_range.1 (List.mem_of_find?_eq_some hn), by simpa using List.find?_some hn⟩

/-- No text with a line feed is accepted. -/
theorem newline_notMem_of_emptyBlockFromStr {text : List Char} {b : BlockAndReceipts}
    (h : emptyBlockFromStr text = some b) : '\n' ∉ text := by
  intro hmem
  obtain ⟨n, hn, hline⟩ := emptyBlockFromStr_eq_some h
  have happend : emptyBlockLine n ++ text.rtakeWhile (fun c ↦ c = '\r') = text := by
    rw [← hline, List.rdropWhile_append_rtakeWhile]
  rw [← happend] at hmem
  rcases List.mem_append.1 hmem with hmem | hmem
  · exact absurd hmem (isLine_emptyBlockLine hn).1
  · exact absurd (List.mem_rtakeWhile_imp hmem) (by decide)

/-- A carriage return at the end is dropped in either way. -/
theorem rdropWhile_stripCr (line : List Char) :
    ((Text.stripCr line).rdropWhile fun c ↦ c = '\r') = line.rdropWhile fun c ↦ c = '\r' := by
  rw [Text.stripCr]
  split_ifs with hlast
  · obtain ⟨init, rfl⟩ := List.getLast?_eq_some_iff.1 hlast
    rw [List.dropLast_concat, List.rdropWhile_concat_pos _ _ _ (by decide)]
  · rfl

theorem lineParser_emptyBlockFromStr : LineParser emptyBlockFromStr where
  blank := by
    intro line hblank
    rcases h : emptyBlockFromStr line with - | b
    · rfl
    · obtain ⟨n, -, hline⟩ := emptyBlockFromStr_eq_some h
      have hmem : ']' ∈ line.rdropWhile (fun c ↦ c = '\r') := by
        rw [hline]
        exact List.mem_of_getLast? (getLast?_emptyBlockLine n)
      replace hmem := (List.rdropWhile_prefix _ _).subset hmem
      exact absurd (List.all_eq_true.1 hblank _ hmem) (by decide)
  stripCr := by
    intro line
    rw [emptyBlockFromStr, emptyBlockFromStr, rdropWhile_stripCr]

theorem fileBlocks_emptyBlockFile {numbers : List ℕ} (h : ∀ n ∈ numbers, n < 10) :
    fileBlocks emptyBlockFromStr (emptyBlockFile numbers) = numbers.map emptyBlock := by
  rw [fileBlocks, (lines_emptyBlockFile h).1, List.filterMap_map]
  induction numbers with
  | nil => rfl
  | cons n numbers ih =>
    rw [List.filterMap_cons, Function.comp_apply, lineBlock_emptyBlockLine (h n List.mem_cons_self),
      ih fun m hm ↦ h m (List.mem_cons_of_mem _ hm), List.map_cons]

theorem hourFile_emptyBlockFile {numbers : List ℕ} (h : ∀ n ∈ numbers, n < 10)
    (hlt : numbers.Pairwise (· < ·)) : HourFile emptyBlockFromStr (emptyBlockFile numbers) where
  increasing := strictHeights_emptyBlockFile h hlt
  below := by
    rw [fileBlocks_emptyBlockFile h]
    intro b hb
    obtain ⟨n, hn, rfl⟩ := List.mem_map.1 hb
    exact Nat.lt_trans (h n hn) (by decide)
  one_per_line := by
    intro text b _ hmem htext
    exact absurd hmem (newline_notMem_of_emptyBlockFromStr htext)

end RethHl.HlNode
