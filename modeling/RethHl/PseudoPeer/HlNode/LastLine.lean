import RethHl.PseudoPeer.HlNode.FileOps

/-!
# Which lines are tried when a file is read backwards

`readLastCompleteLine` is meant to find the last block of a file. Each chunk that it reads gives it
**one** line to try, however many lines there are in the text it has: the line is cut off at the
last line feed, and when it is no block the loop goes on with the next chunk. When the chunks are
used up, what is left is tried as one text, with the line feeds it may have.

`tried` computes from the lengths of the lines which of them get a turn, and what is left. The line
in front of a given one is tried in the next chunk, or in the first chunk that reaches back to the
line feed before it, whichever is later. `readLastCompleteLine_eq_tried` says that the loop gives
the last block among the lines that get a turn or else the block that the rest parses to, and
`readLastCompleteLine_iff` from it when that is the last block of the file.

So two torn lines at the end of a short file hide every block before them
(`not_readLastCompleteLine_two_torn`).
-/

namespace RethHl.HlNode

/-! ### The lines that get a turn -/

/-- The number of chunks that some bytes take. -/
def chunkCount (bytes : ℕ) : ℕ :=
  bytes / chunkSize + if bytes % chunkSize = 0 then 0 else 1

/-- The lines at the end of a text that get a turn, last one first, and the text that is left, after
a number of chunks of a file of the given size. -/
def tried (size : ℕ) (chunk : ℕ) (text : List Char) : List (List Char) × List Char :=
  if chunk < chunkCount size then
    match h : Text.cutLast (Text.popLine text) with
    | none => ([], Text.popLine text)
    | some (before, line) =>
      have := Text.length_lt_of_cutLast h
      -- the chunk of this line: a later one than the last, and one that reaches back to it
      let later := tried size
        (max (chunk + 1) (chunkCount (size - (Text.utf8 before).length))) before
      (line :: later.1, later.2)
  else ([], text)
termination_by text.length
decreasing_by exact this

theorem length_le_popNewline (bytes : List UInt8) :
    bytes.length ≤ (popNewline bytes).length + 1 := by
  rcases popNewline_cases bytes with h | h
  · rw [h]
    omega
  · conv_lhs => rw [h]
    simp

/-- A line feed at the end of the text is one at the end of its last bytes. -/
theorem append_popNewline {text : List Char} {front bytes : List UInt8} (hne : bytes ≠ [])
    (h : front ++ bytes = Text.utf8 text) :
    front ++ popNewline bytes = Text.utf8 (Text.popLine text) := by
  rw [popNewline]
  split_ifs with hlast
  · obtain ⟨init, rfl⟩ := List.getLast?_eq_some_iff.1 hlast
    rw [← List.append_assoc] at h
    obtain ⟨u, v, rfl, hu, hv⟩ := Text.utf8_eq_append_newline h.symm
    obtain rfl : v = [] := Text.utf8_eq_nil.1 hv
    rw [List.dropLast_concat, Text.popLine, if_pos List.getLast?_concat, List.dropLast_concat, hu]
  · have hnot : text.getLast? ≠ some '\n' := by
      intro htext
      obtain ⟨u, rfl⟩ := List.getLast?_eq_some_iff.1 htext
      refine hlast ?_
      rw [← List.getLast?_append_of_ne_nil front hne, h]
      simp
    rw [Text.popLine, if_neg hnot, h]

/-- A byte that the back of a list does not have stands in its front. -/
theorem length_lt_of_append_eq {byte : UInt8} {front back u v : List UInt8}
    (h : front ++ back = u ++ byte :: v) (hback : byte ∉ back) : u.length < front.length := by
  rcases List.append_eq_append_iff.1 h with ⟨c, -, rfl⟩ | ⟨c, rfl, hc⟩
  · exact absurd (by simp) hback
  · rcases c with - | ⟨x, c⟩
    · rw [List.nil_append] at hc
      exact absurd (hc ▸ List.mem_cons_self) hback
    · simp

/-! ### Chunks -/

theorem chunkCount_le_iff {bytes n : ℕ} : chunkCount bytes ≤ n ↔ bytes ≤ n * chunkSize := by
  rw [chunkCount, chunkSize]
  split_ifs <;> omega

theorem lt_chunkCount_iff {bytes n : ℕ} : n < chunkCount bytes ↔ n * chunkSize < bytes := by
  rw [← not_le, chunkCount_le_iff, not_le]

/-! ### The schedule -/

section Tried

variable {size chunk : ℕ} {text : List Char}

theorem tried_of_le (h : chunkCount size ≤ chunk) : tried size chunk text = ([], text) := by
  rw [tried, if_neg (not_lt.2 h)]

theorem tried_of_not_mem (h : chunk < chunkCount size) (hmem : '\n' ∉ Text.popLine text) :
    tried size chunk text = ([], Text.popLine text) := by
  rw [tried, if_pos h]
  split
  · rfl
  · rename_i heq
    rw [Text.cutLast_eq_none hmem] at heq
    cases heq

theorem tried_of_append {before line : List Char} (h : chunk < chunkCount size)
    (htext : Text.popLine text = before ++ '\n' :: line) (hline : '\n' ∉ line) :
    tried size chunk text =
      (line :: (tried size (max (chunk + 1)
        (chunkCount (size - (Text.utf8 before).length))) before).1,
      (tried size (max (chunk + 1) (chunkCount (size - (Text.utf8 before).length))) before).2) := by
  have hcut : Text.cutLast (Text.popLine text) = some (before, line) := by
    rw [htext, Text.cutLast_append hline]
  rw [tried, if_pos h]
  split
  · rename_i heq
    rw [hcut] at heq
    cases heq
  · rename_i heq
    rw [hcut] at heq
    obtain ⟨rfl, rfl⟩ := Prod.mk.inj (Option.some.inj heq)
    rfl

/-- A chunk that does not reach back to the next line feed does not count. -/
theorem tried_succ (h : chunk < chunkCount size) (hpop : Text.popLine (Text.popLine text) =
    Text.popLine text) (hfar : ∀ before line, Text.popLine text = before ++ '\n' :: line →
      chunk + 1 < chunkCount (size - (Text.utf8 before).length)) :
    tried size (chunk + 1) (Text.popLine text) = tried size chunk text := by
  rcases Text.cutLast_cases (Text.popLine text) with
    ⟨hmem, -⟩ | ⟨before, line, heq, hline, -⟩
  · rw [tried_of_not_mem h hmem]
    rcases Nat.lt_or_ge (chunk + 1) (chunkCount size) with hlt | hge
    · rw [tried_of_not_mem hlt (hpop.symm ▸ hmem), hpop]
    · exact tried_of_le hge
  · have hlt := hfar before line heq
    have hle : chunkCount (size - (Text.utf8 before).length) ≤ chunkCount size := by
      rw [chunkCount_le_iff]
      exact (Nat.sub_le _ _).trans (chunkCount_le_iff.1 (Nat.le_refl _))
    rw [tried_of_append h heq hline, tried_of_append (hlt.trans_le hle) (hpop.trans heq) hline,
      max_eq_right hlt, max_eq_right (Nat.le_of_lt hlt)]

end Tried

/-! ### The loop follows the schedule -/

section Loop

variable (fromStr : List Char → Option BlockAndReceipts)

/-- The block among the lines that get a turn, else what the rest parses to. -/
def outcome (turns : List (List Char) × List Char) : Option BlockAndReceipts :=
  (turns.1.findSome? fromStr).or (fromStr turns.2)

theorem outcome_cons (line : List Char) (turns : List (List Char) × List Char) :
    outcome fromStr (line :: turns.1, turns.2) = (fromStr line).or (outcome fromStr turns) := by
  rw [outcome, List.findSome?_cons, outcome]
  rcases fromStr line with - | b <;> rfl

/-- A block with its height. -/
def withHeight (b : BlockAndReceipts) : BlockAndReceipts × ℕ := (b, b.number)

theorem parseBytes_utf8 (text : List Char) :
    parseBytes fromStr (Text.utf8 text) = some ((fromStr text).map withHeight) := by
  rw [parseBytes, Text.fromUtf8_utf8]
  rfl

variable {fromStr}

/-- A chunk that brings no line feed within reach does not change the schedule. -/
theorem tried_succ_of_notMem {size chunk : ℕ} {text : List Char} {front bytes : List UInt8}
    (h : chunk < chunkCount size) (hfront : front.length = size - (chunk + 1) * chunkSize)
    (hfull : front ≠ [] → chunkSize ≤ bytes.length)
    (hpop : front ++ popNewline bytes = Text.utf8 (Text.popLine text))
    (hnone : Text.newline ∉ popNewline bytes) :
    tried size (chunk + 1) (Text.popLine text) = tried size chunk text := by
  have hfar : ∀ before rest, Text.popLine text = before ++ '\n' :: rest →
      (Text.utf8 before).length < front.length := by
    intro before rest heq
    rw [heq, Text.utf8_append, Text.utf8_cons, Text.utf8EncodeChar_newline] at hpop
    exact length_lt_of_append_eq hpop hnone
  refine tried_succ h ?_ fun before rest heq ↦ ?_
  · rcases Text.popLine_cases (Text.popLine text) with hsame | hends
    · exact hsame
    · -- a full chunk without a line feed does not end with one
      have hshort := hfar _ [] hends
      have hbytes := congrArg List.length hpop
      rw [hends, List.length_append, Text.utf8_append, List.length_append,
        show (Text.utf8 ['\n']).length = 1 from rfl] at hbytes
      have hlong := length_le_popNewline bytes
      have hchunk := hfull (List.ne_nil_of_length_pos (by omega))
      rw [chunkSize] at hchunk
      omega
  · have hlt := hfar before rest heq
    rw [lt_chunkCount_iff]
    omega

/-- The loop, after a number of chunks, with the text that is not dropped yet. -/
theorem readBack_eq_tried {file : List UInt8} {chunk pos : ℕ} {lastLine : List UInt8}
    {text : List Char} (hchunk : chunk ≤ chunkCount file.length)
    (hpos : pos = file.length - chunk * chunkSize)
    (hkept : file.take pos ++ lastLine = Text.utf8 text) :
    readBack fromStr file pos lastLine =
      some ((outcome fromStr (tried file.length chunk text)).map withHeight) := by
  induction hleft : chunkCount file.length - chunk generalizing chunk pos lastLine text with
  | zero =>
    -- the start of the file
    have hzero : pos = 0 := by
      have := chunkCount_le_iff.1 (show chunkCount file.length ≤ chunk by omega)
      omega
    rw [hzero, List.take_zero, List.nil_append] at hkept
    rw [readBack, dif_neg (by omega), hkept, parseBytes_utf8, tried_of_le (by omega)]
    rfl
  | succ left ih =>
    have hlt : chunk < chunkCount file.length := by omega
    have hbefore := lt_chunkCount_iff.1 hlt
    obtain ⟨buf, hread, hstep⟩ :=
      readBack_step fromStr file lastLine (show 0 < pos by omega)
    set pos' := pos - min pos chunkSize with hpos'
    have hnext : pos' = file.length - (chunk + 1) * chunkSize := by
      rw [Nat.add_mul, one_mul]
      omega
    have htake : (file.take pos').length = pos' := by
      rw [List.length_take]
      omega
    have hlength : buf.length = min pos chunkSize := by
      have := congrArg List.length hread
      rw [List.length_append, htake, List.length_take] at this
      omega
    have hchunkPos : 0 < chunkSize := by decide
    rw [hread, List.append_assoc] at hkept
    have hpop := append_popNewline
      (List.ne_nil_of_length_pos (by rw [List.length_append]; omega)) hkept
    rcases hstep with ⟨hnone, hstep⟩ | ⟨front, rest, hsplit, hnot, hfound, hstep⟩
    · -- no line feed in reach: the next chunk goes in front
      rw [hstep, ih (by omega) hnext hpop (by omega),
        tried_succ_of_notMem hlt (htake.trans hnext) (fun hne ↦ ?_) hpop hnone]
      have := List.length_pos_iff_ne_nil.2 hne
      rw [List.length_append]
      omega
    · rw [hsplit, ← List.append_assoc] at hpop
      obtain ⟨before, line, htext, hfront, rfl⟩ := Text.utf8_eq_append_newline hpop.symm
      have hline : '\n' ∉ line := fun hmem ↦ hnot (Text.newline_mem_utf8.2 hmem)
      have hreach : chunkCount (file.length - (Text.utf8 before).length) ≤ chunk + 1 := by
        rw [chunkCount_le_iff, hfront, List.length_append, htake]
        omega
      have hparse := parseBytes_utf8 fromStr line
      rw [tried_of_append hlt htext hline, max_eq_left hreach, outcome_cons]
      rcases hblock : fromStr line with - | b
      · -- no block: the line is dropped
        rw [hblock] at hparse
        rw [hstep hparse, Option.none_or]
        exact ih (by omega) hnext hfront.symm (by omega)
      · rw [hblock] at hparse
        exact hfound _ hparse

/-- **What the loop returns**: the last block among the lines that get a turn, else what is left. -/
theorem readLastCompleteLine_eq_tried (content : List Char) :
    readLastCompleteLine fromStr content =
      some ((outcome fromStr (tried (Text.utf8 content).length 0 content)).map withHeight) := by
  refine readBack_eq_tried (Nat.zero_le _) ?_ ?_
  · rw [Nat.zero_mul, Nat.sub_zero]
  · rw [List.take_length, List.append_nil]

/-- A line feed at the end does not matter. -/
theorem LineParser.fileBlocks_popLine (hparser : LineParser fromStr) (text : List Char) :
    fileBlocks fromStr (Text.popLine text) = fileBlocks fromStr text := by
  rcases Text.popLine_cases text with h | h
  · rw [h]
  · conv_rhs => rw [h, hparser.fileBlocks_append_newline]
    rw [show fileBlocks fromStr [] = [] from rfl, List.append_nil]

/-- The last block of a text is the one of the lines that get a turn, or else it is left. -/
theorem LineParser.getLast?_fileBlocks (hparser : LineParser fromStr) (size chunk : ℕ)
    (text : List Char) :
    (fileBlocks fromStr text).getLast? = ((tried size chunk text).1.findSome? fromStr).or
      (fileBlocks fromStr (tried size chunk text).2).getLast? := by
  induction hlen : text.length using Nat.strongRecOn generalizing chunk text with
  | _ len ih =>
    rcases Nat.lt_or_ge chunk (chunkCount size) with hlt | hge
    · rw [← hparser.fileBlocks_popLine]
      rcases Text.cutLast_cases (Text.popLine text) with
        ⟨hmem, -⟩ | ⟨before, line, heq, hline, hcut⟩
      · rw [tried_of_not_mem hlt hmem]
        rfl
      · have hshort := Text.length_lt_of_cutLast hcut
        rw [tried_of_append hlt heq hline, heq, hparser.fileBlocks_append_newline,
          hparser.fileBlocks_line hline, List.findSome?_cons]
        rcases hblock : fromStr line with - | b
        · rw [Option.toList_none, List.append_nil]
          exact ih before.length (hlen ▸ hshort) _ before rfl
        · rw [Option.toList_some, List.getLast?_concat]
          rfl
    · rw [tried_of_le hge]
      rfl

variable (fromStr) in
/-- The last block is within reach: a line that gets a turn is a block, or the text that is left
parses, taken as one, to the last block of its lines. -/
def Reaches (content : List Char) : Prop :=
  (∃ line ∈ (tried (Text.utf8 content).length 0 content).1, fromStr line ≠ none) ∨
    fromStr (tried (Text.utf8 content).length 0 content).2 =
      (fileBlocks fromStr (tried (Text.utf8 content).length 0 content).2).getLast?

/-- If a single line is left, the last block is within reach. -/
theorem reaches_of_single_line (hparser : LineParser fromStr) {content : List Char}
    (h : '\n' ∉ (tried (Text.utf8 content).length 0 content).2) : Reaches fromStr content := by
  right
  rw [hparser.fileBlocks_line h]
  rcases fromStr (tried (Text.utf8 content).length 0 content).2 with - | b <;> rfl

/-- **When the last block of a file is found**, or its absence reported: exactly when it is within
reach. -/
theorem readLastCompleteLine_iff (hparser : LineParser fromStr) (content : List Char) :
    readLastCompleteLine fromStr content =
        some ((fileBlocks fromStr content).getLast?.map withHeight) ↔
      Reaches fromStr content := by
  have hinj : Function.Injective (Option.map withHeight) :=
    Option.map_injective fun b b' h ↦ (Prod.mk.inj h).1
  rw [readLastCompleteLine_eq_tried, Option.some.injEq, hinj.eq_iff, outcome, Reaches,
    hparser.getLast?_fileBlocks (Text.utf8 content).length 0 content]
  set turns := tried (Text.utf8 content).length 0 content
  rcases hfound : turns.1.findSome? fromStr with - | b
  · rw [List.findSome?_eq_none_iff] at hfound
    rw [Option.none_or, Option.none_or]
    refine ⟨Or.inr, fun h ↦ h.resolve_left ?_⟩
    rintro ⟨line, hline, hblock⟩
    exact hblock (hfound line hline)
  · obtain ⟨line, hline, hblock⟩ := List.exists_of_findSome?_eq_some hfound
    exact iff_of_true rfl (Or.inl ⟨line, hline, by rw [hblock]; simp⟩)

end Loop

/-! ### Torn lines -/

/-- In a file of one chunk one line gets a turn. -/
theorem tried_short {size : ℕ} {before line : List Char} (hpos : 0 < size)
    (hsize : size ≤ chunkSize) (hne : line ≠ []) (hline : '\n' ∉ line) :
    tried size 0 (before ++ '\n' :: line) = ([line], before) := by
  have hone : chunkCount size ≤ 1 := chunkCount_le_iff.2 (by rwa [one_mul])
  have hsome : 0 < chunkCount size := lt_chunkCount_iff.2 (by rwa [Nat.zero_mul])
  have hpop : Text.popLine (before ++ '\n' :: line) = before ++ '\n' :: line := by
    refine if_neg fun hlast ↦ hline ?_
    rw [List.getLast?_append_of_ne_nil _ (by simp), List.getLast?_cons_of_ne_nil hne] at hlast
    exact List.mem_of_getLast? hlast
  rw [tried_of_append hsome hpop hline, tried_of_le (by omega)]

theorem emptyBlockFromStr_emptyBlockLine :
    emptyBlockFromStr (emptyBlockLine 5) = some (emptyBlock 5) := by
  rw [← lineParser_emptyBlockFromStr.lineBlock_eq, lineBlock_emptyBlockLine (by decide)]

/-- A torn line: the first character of the next block. -/
def tornLine : List Char := ['[']

theorem emptyBlockFromStr_tornLine : emptyBlockFromStr tornLine = none := by
  rcases h : emptyBlockFromStr tornLine with - | b
  · rfl
  · obtain ⟨n, -, hline⟩ := emptyBlockFromStr_eq_some h
    have hlast := getLast?_emptyBlockLine n
    rw [← hline] at hlast
    exact absurd hlast (by decide)

theorem length_utf8_emptyBlockLine : (Text.utf8 (emptyBlockLine 5)).length ≤ 40000 := by
  decide +kernel

/-- The block and what stands behind it fit into one chunk. -/
theorem length_utf8_tornFile {torn : List Char} (h : (Text.utf8 torn).length ≤ 10000)
    (hne : torn ≠ []) :
    0 < (Text.utf8 (emptyBlockLine 5 ++ torn)).length ∧
      (Text.utf8 (emptyBlockLine 5 ++ torn)).length ≤ chunkSize := by
  have hpos : 0 < (Text.utf8 torn).length :=
    List.length_pos_iff_ne_nil.2 fun hnil ↦ hne (Text.utf8_eq_nil.1 hnil)
  have hline := length_utf8_emptyBlockLine
  rw [Text.utf8_append, List.length_append, chunkSize]
  omega

/-- Behind one torn line the block is found. -/
theorem readLastCompleteLine_one_torn :
    readLastCompleteLine emptyBlockFromStr (emptyBlockLine 5 ++ '\n' :: tornLine) =
      some (some (emptyBlock 5, 5)) := by
  have hline : '\n' ∉ emptyBlockLine 5 := (isLine_emptyBlockLine (by decide)).1
  have htried : tried (Text.utf8 (emptyBlockLine 5 ++ '\n' :: tornLine)).length 0
      (emptyBlockLine 5 ++ '\n' :: tornLine) = ([tornLine], emptyBlockLine 5) :=
    have hsize := length_utf8_tornFile (by decide) (List.cons_ne_nil _ _)
    tried_short hsize.1 hsize.2 (by decide) (by decide)
  have hblocks : fileBlocks emptyBlockFromStr (emptyBlockLine 5 ++ '\n' :: tornLine) =
      [emptyBlock 5] := by
    rw [lineParser_emptyBlockFromStr.fileBlocks_append_newline,
      lineParser_emptyBlockFromStr.fileBlocks_line hline, emptyBlockFromStr_emptyBlockLine,
      lineParser_emptyBlockFromStr.fileBlocks_line (by decide), emptyBlockFromStr_tornLine]
    rfl
  have hfound := (readLastCompleteLine_iff lineParser_emptyBlockFromStr
    (emptyBlockLine 5 ++ '\n' :: tornLine)).2
      (reaches_of_single_line lineParser_emptyBlockFromStr (by rw [htried]; exact hline))
  rw [hblocks] at hfound
  exact hfound

/-- Two torn lines at the end of a short file hide the block before them. -/
theorem not_readLastCompleteLine_two_torn :
    readLastCompleteLine emptyBlockFromStr
        (emptyBlockLine 5 ++ '\n' :: tornLine ++ '\n' :: tornLine) = some none ∧
      ¬ readLastCompleteLine emptyBlockFromStr
          (emptyBlockLine 5 ++ '\n' :: tornLine ++ '\n' :: tornLine) =
        some ((fileBlocks emptyBlockFromStr
          (emptyBlockLine 5 ++ '\n' :: tornLine ++ '\n' :: tornLine)).getLast?.map withHeight) := by
  have hline : '\n' ∉ emptyBlockLine 5 := (isLine_emptyBlockLine (by decide)).1
  have hrest : emptyBlockFromStr (emptyBlockLine 5 ++ '\n' :: tornLine) = none := by
    rcases h : emptyBlockFromStr (emptyBlockLine 5 ++ '\n' :: tornLine) with - | b
    · rfl
    · exact absurd (by simp) (newline_notMem_of_emptyBlockFromStr h)
  have hsize := length_utf8_tornFile
    (show (Text.utf8 ('\n' :: tornLine ++ '\n' :: tornLine)).length ≤ 10000 by decide) (by decide)
  rw [← List.append_assoc] at hsize
  have hnone : readLastCompleteLine emptyBlockFromStr
      (emptyBlockLine 5 ++ '\n' :: tornLine ++ '\n' :: tornLine) = some none := by
    rw [readLastCompleteLine_eq_tried, tried_short hsize.1 hsize.2 (by decide) (by decide), outcome,
      List.findSome?_singleton, emptyBlockFromStr_tornLine, hrest]
    rfl
  refine ⟨hnone, ?_⟩
  rw [hnone, lineParser_emptyBlockFromStr.fileBlocks_append_newline,
    lineParser_emptyBlockFromStr.fileBlocks_append_newline,
    lineParser_emptyBlockFromStr.fileBlocks_line hline, emptyBlockFromStr_emptyBlockLine,
    lineParser_emptyBlockFromStr.fileBlocks_line (by decide), emptyBlockFromStr_tornLine]
  simp

end RethHl.HlNode
