import Mathlib.Data.List.DropRight
import RethHl.Data.TextLines
import RethHl.Node.Types

/-!
# Scanning an hour file

`hl-node` writes its blocks as lines of text, one file per hour. `scanHourFile` reads a file from a
remembered line on and returns the blocks it has not delivered yet, the runs of consecutive heights
it met, and the height it expects next.

The loop carries four accumulators with different guards, and it tests and updates the remembered
line at once. It is modelled as the source has it (`scanStep`), and then shown to be a plain fold:
the line test is decided by the remembered line *at the start*, because the loop only ever raises it
to the index it is looking at (`foldl_scanStep_eq`). What is left is the list `parsedFrom` of the
parsable lines from the remembered one on, and each result of a scan is a function of that list:

* `newBlocks_scanLines` — the blocks at or above the start height, in file order;
* `nextExpectedHeight_scanLines` — one above the largest height, **or one above the start height**
  when no line is at or above it;
* `lastLine_scanLines` — the index of the last line at or above the start height, or unchanged;
* `newBlockRanges_scanLines` — the runs, whose union is the set of heights
  (`mem_newBlockRanges_iff`).

Parsing a line is the JSON library's work and is a parameter, `fromStr`.
-/

namespace RethHl.HlNode

/-- The place of an hour file below the `hourly` directory: the directory of the day and the file
name. -/
structure HourPath where
  date : String
  hour : String
  deriving DecidableEq, Repr

/-- What a scan returns. -/
structure ScanResult where
  path : HourPath
  nextExpectedHeight : ℕ
  newBlocks : List BlockAndReceipts
  newBlockRanges : List (ℕ × ℕ)
  deriving DecidableEq, Repr

/-- How to scan. -/
structure ScanOptions where
  startHeight : ℕ
  onlyLoadRanges : Bool
  deriving DecidableEq, Repr

/-- The variables of the scan loop. -/
structure ScanState where
  newBlocks : List BlockAndReceipts
  lastHeight : ℕ
  blockRanges : List (ℕ × ℕ)
  currentRange : Option (ℕ × ℕ)
  lastLine : ℕ
  deriving DecidableEq, Repr

section Scanner

variable (fromStr : List Char → Option BlockAndReceipts)

/-- Parse a line to its block and the block's height. -/
def lineToEvmBlock (line : List Char) : Option (BlockAndReceipts × ℕ) :=
  (fromStr line).map fun parsedBlock ↦ (parsedBlock, parsedBlock.number)

variable (options : ScanOptions)

/-- The first half of the bookkeeping: a block at or above the start height is delivered, and its
line is the one to remember. -/
def deliver (st : ScanState) (lineIdx : ℕ) (parsedBlock : BlockAndReceipts) (height : ℕ) :
    ScanState :=
  if options.startHeight ≤ height then
    { st with
      lastHeight := max st.lastHeight height
      newBlocks := if options.onlyLoadRanges then st.newBlocks else st.newBlocks ++ [parsedBlock]
      lastLine := lineIdx }
  else st

/-- The second half: the height extends the current run, or closes it and starts the next. -/
def extendRange (st : ScanState) (height : ℕ) : ScanState :=
  match st.currentRange with
  | some (start, last) =>
    if (last + 1) % u64Size = height then { st with currentRange := some (start, height) }
    else
      { st with
        blockRanges := st.blockRanges ++ [(start, last)]
        currentRange := some (height, height) }
  | none => { st with currentRange := some (height, height) }

/-- The bookkeeping of a parsed block. -/
def absorb (st : ScanState) (lineIdx : ℕ) (parsedBlock : BlockAndReceipts) (height : ℕ) :
    ScanState :=
  extendRange (deliver options st lineIdx parsedBlock height) height

/-- One turn of the loop. -/
def scanStep (st : ScanState) (lineIdx : ℕ) (line : List Char) : ScanState :=
  if lineIdx < st.lastLine ∨ Text.isBlank line then st
  else
    match lineToEvmBlock fromStr line with
    | some (parsedBlock, height) => absorb options st lineIdx parsedBlock height
    | none => st

/-- The variables before the loop. -/
def ScanState.init (lastLine : ℕ) : ScanState where
  newBlocks := []
  lastHeight := options.startHeight
  blockRanges := []
  currentRange := none
  lastLine := lastLine

/-- The loop over the lines of a file, from the line before the remembered one. -/
def scanLoop (lines : List (List Char)) (lastLine : ℕ) : ScanState :=
  let skip := if lastLine = 0 then 0 else lastLine - 1
  (lines.zipIdx.drop skip).foldl (fun st p ↦ scanStep fromStr options st p.2 p.1)
    (ScanState.init options lastLine)

/-- `Scanner::scan_hour_file` on the lines of the file: the result, and the remembered line. -/
def scanLines (path : HourPath) (lines : List (List Char)) (lastLine : ℕ) : ScanResult × ℕ :=
  let st := scanLoop fromStr options lines lastLine
  ({ path := path
     nextExpectedHeight := (st.lastHeight + 1) % u64Size
     newBlocks := st.newBlocks
     newBlockRanges := st.blockRanges ++ st.currentRange.toList },
    st.lastLine)

/-- `Scanner::scan_hour_file` on the contents of the file. -/
def scanHourFile (path : HourPath) (content : List Char) (lastLine : ℕ) : ScanResult × ℕ :=
  scanLines fromStr options path (Text.lines content) lastLine

/-! ### The lines a scan works on -/

/-- The block of a line: none for a blank line and for one that does not parse. -/
def lineBlock (line : List Char) : Option BlockAndReceipts :=
  if Text.isBlank line then none else fromStr line

/-- The parsable lines from index `lastLine` on, each with its index. -/
def parsedFrom (lines : List (List Char)) (lastLine : ℕ) : List (ℕ × BlockAndReceipts) :=
  lines.zipIdx.filterMap fun p ↦
    if p.2 < lastLine then none else (lineBlock fromStr p.1).map fun b ↦ (p.2, b)

/-- Those of them at or above the start height. -/
def delivered (parsed : List (ℕ × BlockAndReceipts)) : List (ℕ × BlockAndReceipts) :=
  parsed.filter fun p ↦ options.startHeight ≤ p.2.number

variable {fromStr}

theorem mem_parsedFrom {lines : List (List Char)} {lastLine i : ℕ} {b : BlockAndReceipts} :
    (i, b) ∈ parsedFrom fromStr lines lastLine ↔
      lastLine ≤ i ∧ ∃ line, lines[i]? = some line ∧ lineBlock fromStr line = some b := by
  rw [parsedFrom, List.mem_filterMap]
  constructor
  · rintro ⟨⟨line, j⟩, hmem, hsome⟩
    by_cases hj : j < lastLine
    · simp [hj] at hsome
    · obtain ⟨b', hb', heq⟩ : ∃ b', lineBlock fromStr line = some b' ∧ (j, b') = (i, b) := by
        simpa [hj] using hsome
      obtain ⟨rfl, rfl⟩ := Prod.mk.inj heq
      exact ⟨Nat.le_of_not_lt hj, line, List.mem_zipIdx_iff_getElem?.1 hmem, hb'⟩
  · rintro ⟨hle, line, hline, hb⟩
    exact ⟨(line, i), List.mem_zipIdx_iff_getElem?.2 hline, by simp [Nat.not_lt.2 hle, hb]⟩

/-- The indices of an indexed list increase. -/
theorem zipIdx_pairwise (lines : List (List Char)) :
    lines.zipIdx.Pairwise fun p q ↦ p.2 < q.2 := by
  rw [List.zipIdx_eq_zip_range', List.pairwise_iff_getElem]
  intro i j hi hj hij
  simp [hij]

/-- The indices of the parsable lines increase. -/
theorem parsedFrom_pairwise (lines : List (List Char)) (lastLine : ℕ) :
    (parsedFrom fromStr lines lastLine).Pairwise fun p q ↦ p.1 < q.1 := by
  refine List.Pairwise.filterMap _ ?_ (zipIdx_pairwise lines)
  intro p q hpq b hb c hc
  by_cases hp : p.2 < lastLine
  · simp [hp] at hb
  · by_cases hq : q.2 < lastLine
    · simp [hq] at hc
    · simp only [hp, hq, if_false, Option.map_eq_some_iff] at hb hc
      obtain ⟨-, -, rfl⟩ := hb
      obtain ⟨-, -, rfl⟩ := hc
      exact hpq

/-! ### The loop as a fold over the parsable lines -/

variable {options}

@[simp] theorem newBlocks_extendRange (st : ScanState) (h : ℕ) :
    (extendRange st h).newBlocks = st.newBlocks := by
  unfold extendRange
  split <;> [split_ifs <;> rfl; rfl]

@[simp] theorem lastHeight_extendRange (st : ScanState) (h : ℕ) :
    (extendRange st h).lastHeight = st.lastHeight := by
  unfold extendRange
  split <;> [split_ifs <;> rfl; rfl]

@[simp] theorem lastLine_extendRange (st : ScanState) (h : ℕ) :
    (extendRange st h).lastLine = st.lastLine := by
  unfold extendRange
  split <;> [split_ifs <;> rfl; rfl]

/-- The bookkeeping raises the remembered line to the current index or leaves it. -/
theorem lastLine_absorb (st : ScanState) (i : ℕ) (b : BlockAndReceipts) (h : ℕ) :
    (absorb options st i b h).lastLine = if options.startHeight ≤ h then i else st.lastLine := by
  rw [absorb, lastLine_extendRange, deliver]
  split_ifs <;> rfl

/-- **The line test is decided at the start.** The loop tests the index against a variable that it
also writes, but what it writes is the index of the line at hand, so no later line is affected. -/
theorem foldl_scanStep_eq {lastLine : ℕ} {l : List (List Char × ℕ)}
    (hidx : l.Pairwise fun p q ↦ p.2 < q.2) {st : ScanState} (hlow : lastLine ≤ st.lastLine)
    (hhigh : ∀ p ∈ l, lastLine ≤ p.2 → st.lastLine ≤ p.2) :
    l.foldl (fun st p ↦ scanStep fromStr options st p.2 p.1) st =
      (l.filterMap fun p ↦
          if p.2 < lastLine then none else (lineBlock fromStr p.1).map fun b ↦ (p.2, b)).foldl
        (fun st p ↦ absorb options st p.1 p.2 p.2.number) st := by
  induction l generalizing st with
  | nil => rfl
  | cons p l ih =>
    obtain ⟨hp, hl⟩ := List.pairwise_cons.1 hidx
    rw [List.foldl_cons, List.filterMap_cons]
    rcases Nat.lt_or_ge p.2 lastLine with hlt | hge
    · -- both sides skip the lines before the remembered one
      have hstep : scanStep fromStr options st p.2 p.1 = st :=
        if_pos (Or.inl (Nat.lt_of_lt_of_le hlt hlow))
      rw [hstep, if_pos hlt]
      exact ih hl hlow fun q hq ↦ hhigh q (List.mem_cons_of_mem _ hq)
    · have hle : st.lastLine ≤ p.2 := hhigh p List.mem_cons_self hge
      rw [if_neg (Nat.not_lt.2 hge)]
      rcases hb : lineBlock fromStr p.1 with - | b
      · have hstep : scanStep fromStr options st p.2 p.1 = st := by
          unfold lineBlock at hb
          unfold scanStep lineToEvmBlock
          split_ifs at hb with hblank
          · rw [if_pos (Or.inr hblank)]
          · rw [if_neg (by simp [hblank, Nat.not_lt.2 hle]), hb]
            rfl
        rw [hstep]
        exact ih hl hlow fun q hq ↦ hhigh q (List.mem_cons_of_mem _ hq)
      · have hstep : scanStep fromStr options st p.2 p.1 =
            absorb options st p.2 b b.number := by
          unfold lineBlock at hb
          unfold scanStep lineToEvmBlock
          split_ifs at hb with hblank
          rw [if_neg (by simp [hblank, Nat.not_lt.2 hle]), hb]
          rfl
        rw [hstep]
        -- the remembered line moves to this one at most, and all later ones are above it
        refine ih hl ?_ fun q hq _ ↦ ?_
        · rw [lastLine_absorb]
          split_ifs
          · exact hge
          · exact hlow
        · have hpq := hp q hq
          rw [lastLine_absorb]
          split_ifs <;> omega

/-- The loop is the fold of the bookkeeping over the parsable lines from the remembered one on. -/
theorem scanLoop_eq (lines : List (List Char)) (lastLine : ℕ) :
    scanLoop fromStr options lines lastLine =
      (parsedFrom fromStr lines lastLine).foldl
        (fun st p ↦ absorb options st p.1 p.2 p.2.number) (ScanState.init options lastLine) := by
  unfold scanLoop
  simp only
  set skip := if lastLine = 0 then 0 else lastLine - 1 with hskip
  have hle : skip ≤ lastLine := by
    rw [hskip]
    split_ifs <;> omega
  have hsplit : parsedFrom fromStr lines lastLine =
      (lines.zipIdx.drop skip).filterMap fun p ↦
        if p.2 < lastLine then none else (lineBlock fromStr p.1).map fun b ↦ (p.2, b) := by
    rw [parsedFrom]
    conv_lhs => rw [← List.take_append_drop skip lines.zipIdx]
    rw [List.filterMap_append]
    -- every line that is skipped unread lies before the remembered one
    have hnone : (lines.zipIdx.take skip).filterMap (fun p ↦
        if p.2 < lastLine then none else (lineBlock fromStr p.1).map fun b ↦ (p.2, b)) = [] := by
      rw [List.filterMap_eq_nil_iff]
      intro p hp
      obtain ⟨i, hi, hget⟩ := List.mem_take_iff_getElem.1 hp
      have hidx : p.2 = i := by
        rw [← hget, List.getElem_zipIdx]
        simp
      rw [if_pos (by omega)]
    rw [hnone, List.nil_append]
  rw [hsplit]
  exact foldl_scanStep_eq ((zipIdx_pairwise lines).sublist (List.drop_sublist _ _))
    (Nat.le_refl _) fun p _ h ↦ h

/-! ### The results of a scan -/

variable (options) in
/-- The variables that delivery writes, after a fold of the bookkeeping. -/
theorem foldl_absorb_delivery (parsed : List (ℕ × BlockAndReceipts)) (st : ScanState) :
    let st' := parsed.foldl (fun st p ↦ absorb options st p.1 p.2 p.2.number) st
    st'.newBlocks = st.newBlocks ++
        (if options.onlyLoadRanges then [] else (delivered options parsed).map Prod.snd) ∧
      st'.lastHeight =
        (delivered options parsed).foldl (fun m p ↦ max m p.2.number) st.lastHeight ∧
      st'.lastLine = ((delivered options parsed).getLast?.map Prod.fst).getD st.lastLine := by
  induction parsed generalizing st with
  | nil => simp [delivered]
  | cons p parsed ih =>
    obtain ⟨hblocks, hheight, hline⟩ := ih (absorb options st p.1 p.2 p.2.number)
    rw [List.foldl_cons]
    refine ⟨hblocks.trans ?_, hheight.trans ?_, hline.trans ?_⟩ <;>
      by_cases hp : options.startHeight ≤ p.2.number
    · cases honly : options.onlyLoadRanges <;> simp [absorb, deliver, delivered, hp, honly]
    · simp [absorb, deliver, delivered, hp]
    · simp [absorb, deliver, delivered, hp]
    · simp [absorb, deliver, delivered, hp]
    · simp [lastLine_absorb, delivered, hp, List.getLast?_cons]
    · simp [lastLine_absorb, delivered, hp]

section Results

variable (path : HourPath) (lines : List (List Char)) (lastLine : ℕ)

@[simp] theorem path_scanLines :
    (scanLines fromStr options path lines lastLine).1.path = path :=
  rfl

/-- The delivered blocks: those at or above the start height, in file order. -/
theorem newBlocks_scanLines :
    (scanLines fromStr options path lines lastLine).1.newBlocks =
      if options.onlyLoadRanges then []
      else (delivered options (parsedFrom fromStr lines lastLine)).map Prod.snd := by
  have h := (foldl_absorb_delivery options (parsedFrom fromStr lines lastLine)
    (ScanState.init options lastLine)).1
  rw [← scanLoop_eq] at h
  exact h.trans (List.nil_append _)

/-- The next expected height. Without a line at or above the start height it is **one above the
start height**, not the start height. -/
theorem nextExpectedHeight_scanLines :
    (scanLines fromStr options path lines lastLine).1.nextExpectedHeight =
      ((delivered options (parsedFrom fromStr lines lastLine)).foldl
        (fun m p ↦ max m p.2.number) options.startHeight + 1) % u64Size := by
  have h := (foldl_absorb_delivery options (parsedFrom fromStr lines lastLine)
    (ScanState.init options lastLine)).2.1
  rw [← scanLoop_eq] at h
  exact congrArg (fun n ↦ (n + 1) % u64Size) h

/-- The remembered line. -/
theorem lastLine_scanLines :
    (scanLines fromStr options path lines lastLine).2 =
      ((delivered options (parsedFrom fromStr lines lastLine)).getLast?.map Prod.fst).getD
        lastLine := by
  have h := (foldl_absorb_delivery options (parsedFrom fromStr lines lastLine)
    (ScanState.init options lastLine)).2.2
  rw [← scanLoop_eq] at h
  exact h

end Results

/-! ### The runs of consecutive heights -/

/-- The runs of a list of heights, with the run that is open before it. -/
def runsFrom : Option (ℕ × ℕ) → List ℕ → List (ℕ × ℕ)
  | current, [] => current.toList
  | none, h :: hs => runsFrom (some (h, h)) hs
  | some (start, last), h :: hs =>
    if (last + 1) % u64Size = h then runsFrom (some (start, h)) hs
    else (start, last) :: runsFrom (some (h, h)) hs

variable (options) in
/-- The ranges collected by a fold of the bookkeeping are the runs of the heights. -/
theorem foldl_absorb_ranges (parsed : List (ℕ × BlockAndReceipts)) (st : ScanState) :
    let st' := parsed.foldl (fun st p ↦ absorb options st p.1 p.2 p.2.number) st
    st'.blockRanges ++ st'.currentRange.toList =
      st.blockRanges ++ runsFrom st.currentRange (parsed.map fun p ↦ p.2.number) := by
  induction parsed generalizing st with
  | nil => simp [runsFrom]
  | cons p parsed ih =>
    have hranges : (deliver options st p.1 p.2 p.2.number).blockRanges = st.blockRanges := by
      unfold deliver
      split_ifs <;> rfl
    have hcurrent : (deliver options st p.1 p.2 p.2.number).currentRange = st.currentRange := by
      unfold deliver
      split_ifs <;> rfl
    rw [List.foldl_cons, List.map_cons]
    refine (ih _).trans ?_
    unfold absorb extendRange
    rw [hcurrent]
    rcases st.currentRange with - | ⟨start, last⟩
    · simp only [hranges, runsFrom]
    · by_cases hnext : (last + 1) % u64Size = p.2.number
      · simp only [hnext, if_true, hranges, runsFrom]
      · simp only [hnext, if_false, hranges, runsFrom, List.append_assoc, List.singleton_append]

/-- The ranges of a scan. -/
theorem newBlockRanges_scanLines (path : HourPath) (lines : List (List Char)) (lastLine : ℕ) :
    (scanLines fromStr options path lines lastLine).1.newBlockRanges =
      runsFrom none ((parsedFrom fromStr lines lastLine).map fun p ↦ p.2.number) := by
  have h := foldl_absorb_ranges options (parsedFrom fromStr lines lastLine)
    (ScanState.init options lastLine)
  rw [← scanLoop_eq] at h
  exact h.trans (List.nil_append _)

/-- **The union of the runs is the set of heights**, together with the run that was open. -/
theorem mem_runsFrom_iff {current : Option (ℕ × ℕ)} {hs : List ℕ} (hmax : ∀ h ∈ hs, h < u64Max)
    (hcur : ∀ r ∈ current, r.1 ≤ r.2 ∧ r.2 < u64Max) (n : ℕ) :
    (∃ r ∈ runsFrom current hs, r.1 ≤ n ∧ n ≤ r.2) ↔
      (∃ r ∈ current, r.1 ≤ n ∧ n ≤ r.2) ∨ n ∈ hs := by
  induction hs generalizing current with
  | nil => simp [runsFrom]
  | cons h hs ih =>
    have hh : h < u64Max := hmax h List.mem_cons_self
    have hhs : ∀ h ∈ hs, h < u64Max := fun x hx ↦ hmax x (List.mem_cons_of_mem _ hx)
    have hself : ∀ r ∈ some (h, h), r.1 ≤ r.2 ∧ r.2 < u64Max := by
      intro r hr
      obtain rfl := Option.mem_some_iff.1 hr
      exact ⟨Nat.le_refl h, hh⟩
    rcases current with - | ⟨start, last⟩
    · -- no run is open, so this height opens one
      rw [runsFrom, ih hhs hself]
      simp only [Option.mem_some_iff, exists_eq_left', Option.not_mem_none, false_and,
        exists_false, false_or, List.mem_cons]
      constructor <;> rintro (hn | hn)
      · exact Or.inl (by omega)
      · exact Or.inr hn
      · exact Or.inl (by omega)
      · exact Or.inr hn
    · obtain ⟨hle, hlast⟩ := hcur (start, last) rfl
      -- below the largest `u64` the successor does not wrap, so an open run only grows upwards
      have hnowrap : (last + 1) % u64Size = last + 1 :=
        Nat.mod_eq_of_lt (by unfold u64Max at hlast; omega)
      rw [runsFrom, hnowrap]
      by_cases hnext : last + 1 = h
      · rw [if_pos hnext, ih hhs (by
          intro r hr
          obtain rfl := Option.mem_some_iff.1 hr
          exact ⟨by simp only at hle ⊢; omega, hh⟩)]
        simp only [Option.mem_some_iff, exists_eq_left', List.mem_cons]
        simp only at hle
        constructor
        · rintro (hn | hn)
          · omega
          · exact Or.inr (Or.inr hn)
        · rintro (hn | hn | hn)
          · exact Or.inl (by omega)
          · exact Or.inl (by omega)
          · exact Or.inr hn
      · rw [if_neg hnext]
        simp only [List.mem_cons, exists_eq_or_imp, ih hhs hself, Option.mem_some_iff,
          exists_eq_left']
        constructor
        · rintro (hn | hn | hn)
          · exact Or.inl hn
          · exact Or.inr (Or.inl (by omega))
          · exact Or.inr (Or.inr hn)
        · rintro (hn | hn | hn)
          · exact Or.inl hn
          · exact Or.inr (Or.inl (by omega))
          · exact Or.inr (Or.inr hn)

/-- A height lies in a range of a scan exactly when one of the scanned lines has it. -/
theorem mem_newBlockRanges_iff {path : HourPath} {lines : List (List Char)} {lastLine : ℕ}
    (hmax : ∀ p ∈ parsedFrom fromStr lines lastLine, p.2.number < u64Max) (n : ℕ) :
    (∃ r ∈ (scanLines fromStr options path lines lastLine).1.newBlockRanges,
        r.1 ≤ n ∧ n ≤ r.2) ↔
      ∃ p ∈ parsedFrom fromStr lines lastLine, p.2.number = n := by
  rw [newBlockRanges_scanLines, mem_runsFrom_iff (List.forall_mem_map.2 hmax) (by simp)]
  simp

end Scanner

/-! ### A line of an hour file -/

/-- The empty block of the tests. -/
def emptyBlock (number : ℕ) : BlockAndReceipts where
  block := .reth115
    { header :=
        { hash := 0
          header :=
            { Header.zero number with
              timestamp := 1722633600
              extraData := [0x68, 0x6c, 0x2d, 0x6e, 0x6f, 0x64, 0x65] } }
      body := { transactions := [], ommers := [], withdrawals := none } }
  systemTxs := []
  readPrecompileCalls := []
  highestPrecompileAddress := none

@[simp] theorem number_emptyBlock (n : ℕ) : (emptyBlock n).number = n := rfl

/-- So many zeros. -/
def zeros (n : ℕ) : List Char := List.replicate n '0'

theorem newline_notMem_zeros (n : ℕ) : '\n' ∉ zeros n := fun h ↦
  absurd (List.eq_of_mem_replicate h) (by decide)

/-- The text of the empty block's line before its number. -/
def emptyBlockHead : List Char :=
  "[\"1722633600\",\x7b\"block\":\x7b\"Reth115\":\x7b\"header\":".toList ++
    "\x7b\"hash\":\"0x".toList ++ zeros 64 ++
    "\",\"header\":\x7b\"parentHash\":\"0x".toList ++ zeros 64 ++
    "\",\"sha3Uncles\":\"0x".toList ++ zeros 64 ++
    "\",\"miner\":\"0x".toList ++ zeros 40 ++
    "\",\"stateRoot\":\"0x".toList ++ zeros 64 ++
    "\",\"transactionsRoot\":\"0x".toList ++ zeros 64 ++
    "\",\"receiptsRoot\":\"0x".toList ++ zeros 64 ++
    "\",\"logsBloom\":\"0x".toList ++ zeros 512 ++
    "\",\"difficulty\":\"0x0\",\"number\":\"0x".toList

/-- The text after the number. -/
def emptyBlockTail : List Char :=
  "\",\"gasLimit\":\"0x0\",\"gasUsed\":\"0x0\",\"timestamp\":\"0x66ad4d80\",".toList ++
    "\"extraData\":\"0x686c2d6e6f6465\",\"mixHash\":\"0x".toList ++ zeros 64 ++
    "\",\"nonce\":\"0x".toList ++ zeros 16 ++
    "\"\x7d\x7d,\"body\":\x7b\"transactions\":[],\"ommers\":[],".toList ++
    "\"withdrawals\":null\x7d\x7d\x7d,\"receipts\":[],\"system_txs\":[],".toList ++
    "\"read_precompile_calls\":[],\"highest_precompile_address\":null\x7d]".toList

/-- The line of the empty block with a one-digit number. -/
def emptyBlockLine (number : ℕ) : List Char :=
  emptyBlockHead ++ Nat.digitChar number :: emptyBlockTail

/-- The parser on the lines of the empty blocks. It skips carriage returns at the end. -/
def emptyBlockFromStr (line : List Char) : Option BlockAndReceipts :=
  let text := line.rdropWhile fun c ↦ c = '\r'
  ((List.range 10).find? fun n ↦ text = emptyBlockLine n).map emptyBlock

/-- A string literal is its list of characters. -/
theorem notMem_toList_ofList {c : Char} {l : List Char} (h : c ∉ l) :
    c ∉ (String.ofList l).toList := by
  rwa [String.toList_ofList]

theorem newline_notMem_emptyBlockHead : '\n' ∉ emptyBlockHead := by
  unfold emptyBlockHead
  simp only [List.mem_append, not_or, newline_notMem_zeros, not_false_eq_true, and_true]
  and_intros <;> exact notMem_toList_ofList (by decide)

theorem newline_notMem_emptyBlockTail : '\n' ∉ emptyBlockTail := by
  unfold emptyBlockTail
  simp only [List.mem_append, not_or, newline_notMem_zeros, not_false_eq_true, and_true]
  and_intros <;> exact notMem_toList_ofList (by decide)

theorem getLast?_emptyBlockTail : emptyBlockTail.getLast? = some ']' := by
  have hlast : ∀ {l : List Char}, l.getLast? = some ']' →
      (String.ofList l).toList.getLast? = some ']' := by
    intro l h
    rwa [String.toList_ofList]
  unfold emptyBlockTail
  rw [List.getLast?_append, hlast (by decide), Option.some_or]

theorem getLast?_emptyBlockLine (n : ℕ) : (emptyBlockLine n).getLast? = some ']' := by
  rw [emptyBlockLine, List.getLast?_append, List.getLast?_cons, getLast?_emptyBlockTail]
  rfl

theorem isLine_emptyBlockLine {n : ℕ} (hn : n < 10) : Text.IsLine (emptyBlockLine n) := by
  have hdigit : ∀ n < 10, '\n' ≠ Nat.digitChar n := by decide
  refine ⟨?_, ?_⟩
  · rw [emptyBlockLine, List.mem_append, List.mem_cons, not_or, not_or]
    exact ⟨newline_notMem_emptyBlockHead, hdigit n hn, newline_notMem_emptyBlockTail⟩
  · rw [Text.stripCr, getLast?_emptyBlockLine]
    exact if_neg (by simp)

theorem isBlank_emptyBlockLine (n : ℕ) : Text.isBlank (emptyBlockLine n) = false := by
  have hmem : ']' ∈ emptyBlockLine n :=
    List.mem_append_right _ (List.mem_cons_of_mem _ (List.mem_of_getLast? getLast?_emptyBlockTail))
  rw [Text.isBlank, List.all_eq_false]
  exact ⟨']', hmem, by decide⟩

theorem emptyBlockLine_inj {n m : ℕ} (hn : n < 10) (hm : m < 10)
    (h : emptyBlockLine n = emptyBlockLine m) : n = m := by
  have hdigit : ∀ n < 10, ∀ m < 10, Nat.digitChar n = Nat.digitChar m → n = m := by decide
  exact hdigit n hn m hm (List.cons.inj (List.append_cancel_left h)).1

/-- The line of an empty block parses to it. -/
theorem lineBlock_emptyBlockLine {n : ℕ} (hn : n < 10) :
    lineBlock emptyBlockFromStr (emptyBlockLine n) = some (emptyBlock n) := by
  have htext : (emptyBlockLine n).rdropWhile (fun c ↦ c = '\r') = emptyBlockLine n := by
    obtain ⟨init, hinit⟩ := List.getLast?_eq_some_iff.1 (getLast?_emptyBlockLine n)
    rw [hinit, List.rdropWhile_concat_neg _ _ _ (by decide)]
  have hfind : ((List.range 10).find? fun k ↦ emptyBlockLine n = emptyBlockLine k) = some n := by
    rcases hfind : (List.range 10).find? fun k ↦ emptyBlockLine n = emptyBlockLine k with - | k
    · have hne := List.find?_eq_none.1 hfind n (List.mem_range.2 hn)
      simp at hne
    · have hk := List.mem_range.1 (List.mem_of_find?_eq_some hfind)
      rw [emptyBlockLine_inj hn hk (by simpa using List.find?_some hfind)]
  rw [lineBlock, isBlank_emptyBlockLine, if_neg (by simp), emptyBlockFromStr, htext, hfind]
  rfl

end RethHl.HlNode
