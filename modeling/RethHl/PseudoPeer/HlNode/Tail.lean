import Mathlib.Data.List.Induction
import Mathlib.Data.List.Nodup
import RethHl.PseudoPeer.HlNode.Scan

/-!
# Tailing an hour file

The ingest loop polls the file of the current hour. Each poll scans it from the line it remembers,
with the height it expects next, and takes both for the following poll from the scan's result.

A run is described by the list of the texts that the polls see. The file only grows (`Grows`): each
text continues the one before, and a line that is complete stays as it is. What the loop should do
is `DeliversOnce`: a line is delivered by the first poll that sees it complete and by no other, and
the expected height is one above what was delivered.

**An idle poll breaks this.** A scan that finds nothing returns one above its *start height*, so the
expected height drifts by one with every poll that brings no new block, and the block that was
really next is below it when it arrives. `deliversOnce_iff` says that this, and the wrap of the
largest height, are the only ways to lose a line: the loop delivers once exactly when every poll
sees a new line.

The argument is an invariant (`Tracks`) between the two carried variables and the lines of the text
seen last. Under it a scan returns exactly the lines that are `fresh`, because appending cannot
complete a line in front of one that is complete already (`lt_of_fresh`).
-/

namespace RethHl.HlNode

/-- The variables the ingest loop carries from one poll of a file to the next. -/
structure TailState where
  lastLine : ℕ
  nextHeight : ℕ
  deriving DecidableEq, Repr

section Tail

variable (fromStr : List Char → Option BlockAndReceipts) (path : HourPath)

/-- One poll of the ingest loop: the scan, and the variables after it. -/
def poll (st : TailState) (content : List Char) : ScanResult × TailState :=
  let scan := scanHourFile fromStr ⟨st.nextHeight, false⟩ path content st.lastLine
  (scan.1, ⟨scan.2, scan.1.nextExpectedHeight⟩)

/-- The variables after the polls that saw these texts, from a fresh file and the height `head`. -/
def tailState (head : ℕ) (contents : List (List Char)) : TailState :=
  contents.foldl (fun st content ↦ (poll fromStr path st content).2) ⟨0, head⟩

/-- The blocks that poll number `i` delivers. -/
def newBlocksAt (head : ℕ) (contents : List (List Char)) (i : ℕ) : List BlockAndReceipts :=
  match contents[i]? with
  | some content =>
    (poll fromStr path (tailState fromStr path head (contents.take i)) content).1.newBlocks
  | none => []

/-- The blocks that the first `n` polls deliver. -/
def deliveredBy (head : ℕ) (contents : List (List Char)) (n : ℕ) : List BlockAndReceipts :=
  (List.range n).flatMap (newBlocksAt fromStr path head contents)

/-! ### What a run should do -/

/-- The block of line `j` of a text, when the line is complete. -/
def completeLine (content : List Char) (j : ℕ) : Option BlockAndReceipts :=
  (Text.lines content)[j]?.bind (lineBlock fromStr)

/-- The growth of a file: text is appended, and a complete line stays as it is. -/
structure Grows (content content' : List Char) : Prop where
  appends : content <+: content'
  keeps : ∀ j b, completeLine fromStr content j = some b → completeLine fromStr content' j = some b

/-- The heights of the complete lines increase. -/
def StrictHeights (content : List Char) : Prop :=
  ∀ i j b b', completeLine fromStr content i = some b → completeLine fromStr content j = some b' →
    i < j → b.number < b'.number

/-- Poll `i` is the first to see line `j` complete, with block `b`. -/
def FirstComplete (contents : List (List Char)) (i j : ℕ) (b : BlockAndReceipts) : Prop :=
  (∃ content, contents[i]? = some content ∧ completeLine fromStr content j = some b) ∧
    ∀ i' < i, ∀ content, contents[i']? = some content → completeLine fromStr content j = none

/-- Every block from `head` on is delivered by the poll that first sees it complete and by no other,
and after each poll the expected height is the larger of `head` and one above the highest block
delivered so far. -/
structure DeliversOnce (head : ℕ) (contents : List (List Char)) : Prop where
  once : ∀ i j b, FirstComplete fromStr contents i j b → head ≤ b.number →
    ∀ i' < contents.length,
      (newBlocksAt fromStr path head contents i').count b = if i' = i then 1 else 0
  next : ∀ i < contents.length,
    (tailState fromStr path head (contents.take (i + 1))).nextHeight =
      (deliveredBy fromStr path head contents (i + 1)).foldl (fun m b ↦ max m (b.number + 1)) head

/-- Every poll sees a new line at or above `head`, and none of these has the largest height. -/
structure EveryPollAdvances (head : ℕ) (contents : List (List Char)) : Prop where
  sees : ∀ i < contents.length, ∃ j b, FirstComplete fromStr contents i j b ∧ head ≤ b.number
  bounded : ∀ i j b, FirstComplete fromStr contents i j b → head ≤ b.number → b.number < u64Max

variable {fromStr path}

/-! ### The lines from `head` on -/

/-- The complete lines at or above `head`, with their indices. -/
def linesAbove (fromStr : List Char → Option BlockAndReceipts) (head : ℕ) (content : List Char) :
    List (ℕ × BlockAndReceipts) :=
  (parsedFrom fromStr (Text.lines content) 0).filter fun p ↦ head ≤ p.2.number

theorem mem_parsedFrom_lines {content : List Char} {lastLine j : ℕ} {b : BlockAndReceipts} :
    (j, b) ∈ parsedFrom fromStr (Text.lines content) lastLine ↔
      lastLine ≤ j ∧ completeLine fromStr content j = some b := by
  rw [mem_parsedFrom, completeLine, Option.bind_eq_some_iff]

theorem mem_linesAbove {head : ℕ} {content : List Char} {j : ℕ} {b : BlockAndReceipts} :
    (j, b) ∈ linesAbove fromStr head content ↔
      completeLine fromStr content j = some b ∧ head ≤ b.number := by
  rw [linesAbove, List.mem_filter, mem_parsedFrom_lines]
  simp

@[simp] theorem completeLine_nil (j : ℕ) : completeLine fromStr [] j = none := by
  simp [completeLine]

theorem grows_nil (content : List Char) : Grows fromStr [] content :=
  ⟨List.nil_prefix, by simp⟩

/-- One above the largest height of a list of lines, or `head`. -/
def heightBound (head : ℕ) (l : List (ℕ × BlockAndReceipts)) : ℕ :=
  l.foldl (fun m p ↦ max m (p.2.number + 1)) head

theorem heightBound_le_iff {head n : ℕ} {l : List (ℕ × BlockAndReceipts)} :
    heightBound head l ≤ n ↔ head ≤ n ∧ ∀ p ∈ l, p.2.number + 1 ≤ n := by
  induction l generalizing head with
  | nil => simp [heightBound]
  | cons p l ih =>
    rw [heightBound, List.foldl_cons, ← heightBound, ih, List.forall_mem_cons, Nat.max_le,
      and_assoc]

/-- The bound depends on the members only. -/
theorem heightBound_eq_of_mem_iff {head : ℕ} {l l₁ l₂ : List (ℕ × BlockAndReceipts)}
    (h : ∀ p, p ∈ l ↔ p ∈ l₁ ∨ p ∈ l₂) :
    heightBound head l = heightBound (heightBound head l₁) l₂ := by
  refine Nat.le_antisymm ?_ ?_
  · have hle := heightBound_le_iff.1 (Nat.le_refl (heightBound (heightBound head l₁) l₂))
    have hle₁ := heightBound_le_iff.1 hle.1
    refine heightBound_le_iff.2 ⟨hle₁.1, fun p hp ↦ ?_⟩
    exact ((h p).1 hp).elim (hle₁.2 p) (hle.2 p)
  · have hle := heightBound_le_iff.1 (Nat.le_refl (heightBound head l))
    have hle₁ : heightBound head l₁ ≤ heightBound head l :=
      heightBound_le_iff.2 ⟨hle.1, fun p hp ↦ hle.2 p ((h p).2 (.inl hp))⟩
    exact heightBound_le_iff.2 ⟨hle₁, fun p hp ↦ hle.2 p ((h p).2 (.inr hp))⟩

/-- The largest height itself, for a list of lines at or above the bound it starts from. -/
theorem foldl_max_number {m : ℕ} {l : List (ℕ × BlockAndReceipts)} (hne : l ≠ [])
    (hle : ∀ p ∈ l, m ≤ p.2.number) :
    l.foldl (fun m p ↦ max m p.2.number) m + 1 = heightBound m l := by
  have hshift : ∀ (l : List (ℕ × BlockAndReceipts)) (m : ℕ),
      l.foldl (fun m p ↦ max m p.2.number) m + 1 = heightBound (m + 1) l := by
    intro l
    induction l with
    | nil => intro m; rfl
    | cons p l ih =>
      intro m
      rw [List.foldl_cons, ih, heightBound, heightBound, List.foldl_cons, Nat.add_max_add_right]
  obtain ⟨p, l, rfl⟩ := List.exists_cons_of_ne_nil hne
  have hp := hle p List.mem_cons_self
  rw [hshift, heightBound, heightBound, List.foldl_cons, List.foldl_cons,
    Nat.max_eq_right (by omega), Nat.max_eq_right (by omega)]

/-! ### One poll -/

/-- The lines that are new in a text compared to the one before. -/
def fresh (fromStr : List Char → Option BlockAndReceipts) (head : ℕ) (prev content : List Char) :
    List (ℕ × BlockAndReceipts) :=
  (linesAbove fromStr head content).filter fun p ↦ p ∉ linesAbove fromStr head prev

theorem mem_fresh {head : ℕ} {prev content : List Char} {p : ℕ × BlockAndReceipts} :
    p ∈ fresh fromStr head prev content ↔
      p ∈ linesAbove fromStr head content ∧ p ∉ linesAbove fromStr head prev := by
  simp [fresh]

/-- The lines of the grown text are the old ones and the fresh ones. -/
theorem mem_linesAbove_iff_of_grows {head : ℕ} {prev content : List Char}
    (hgrow : Grows fromStr prev content) (p : ℕ × BlockAndReceipts) :
    p ∈ linesAbove fromStr head content ↔
      p ∈ linesAbove fromStr head prev ∨ p ∈ fresh fromStr head prev content := by
  obtain ⟨j, b⟩ := p
  have hkeep : (j, b) ∈ linesAbove fromStr head prev → (j, b) ∈ linesAbove fromStr head content :=
    fun h ↦ mem_linesAbove.2 ⟨hgrow.keeps j b (mem_linesAbove.1 h).1, (mem_linesAbove.1 h).2⟩
  rw [mem_fresh]
  tauto

/-- **A fresh line comes after every line that was complete before.** Were it in front of one, it
would not be the last line of the old text, and appending could not have completed it. -/
theorem lt_of_fresh {head : ℕ} {prev content : List Char} (hgrow : Grows fromStr prev content)
    {i j : ℕ} {b b' : BlockAndReceipts} (hj : (j, b') ∈ linesAbove fromStr head prev)
    (hi : (i, b) ∈ fresh fromStr head prev content) : j < i := by
  obtain ⟨hib, hnew⟩ := mem_fresh.1 hi
  obtain ⟨hib, hhead⟩ := mem_linesAbove.1 hib
  have hjb := (mem_linesAbove.1 hj).1
  -- in the old text line `i` is not complete
  have hold : completeLine fromStr prev i ≠ some b := fun h ↦ hnew (mem_linesAbove.2 ⟨h, hhead⟩)
  rcases Nat.lt_trichotomy j i with hlt | rfl | hlt
  · exact hlt
  · have hbb := hgrow.keeps j b' hjb
    exact absurd (hjb.trans (hbb.symm.trans hib)) hold
  · obtain ⟨u, rfl⟩ := hgrow.appends
    have hlen : j < (Text.lines prev).length := by
      unfold completeLine at hjb
      by_contra hge
      rw [List.getElem?_eq_none (Nat.le_of_not_lt hge)] at hjb
      simp at hjb
    refine absurd ?_ hold
    rw [completeLine, ← Text.getElem?_lines_of_lt u hlt hlen]
    exact hib

/-- A block has one line. -/
theorem StrictHeights.line_unique {content : List Char} (h : StrictHeights fromStr content)
    {j j' : ℕ} {b : BlockAndReceipts} (hj : completeLine fromStr content j = some b)
    (hj' : completeLine fromStr content j' = some b) : j = j' := by
  rcases Nat.lt_trichotomy j j' with hlt | heq | hlt
  · exact absurd (h j j' b b hj hj' hlt) (Nat.lt_irrefl _)
  · exact heq
  · exact absurd (h j' j b b hj' hj hlt) (Nat.lt_irrefl _)

/-- The heights increase along the file, so no block is twice among the fresh ones. -/
theorem StrictHeights.nodup_fresh {content : List Char} (h : StrictHeights fromStr content)
    (head : ℕ) (prev : List Char) :
    ((fresh fromStr head prev content).map Prod.snd).Nodup := by
  refine List.Nodup.map_on ?_ ?_
  · rintro ⟨k, c⟩ hk ⟨k', c'⟩ hk' hcc
    obtain rfl : c = c' := hcc
    rw [h.line_unique (mem_linesAbove.1 (mem_fresh.1 hk).1).1
      (mem_linesAbove.1 (mem_fresh.1 hk').1).1]
  · have hsub : (fresh fromStr head prev content).Sublist
        (parsedFrom fromStr (Text.lines content) 0) :=
      List.filter_sublist.trans List.filter_sublist
    refine List.Nodup.sublist hsub ((parsedFrom_pairwise _ _).imp ?_)
    rintro p q hpq rfl
    exact Nat.lt_irrefl _ hpq

/-- The invariant between the carried variables and the text seen last. -/
structure Tracks (fromStr : List Char → Option BlockAndReceipts) (head : ℕ) (content : List Char)
    (st : TailState) : Prop where
  nextHeight : st.nextHeight = heightBound head (linesAbove fromStr head content)
  lastLine : st.lastLine = 0 ∨ ∃ b, (st.lastLine, b) ∈ linesAbove fromStr head content

/-- Under the invariant a scan returns exactly the fresh lines. -/
theorem delivered_eq_fresh {head : ℕ} {prev content : List Char} {st : TailState}
    (hst : Tracks fromStr head prev st) (hgrow : Grows fromStr prev content)
    (hstrict : StrictHeights fromStr content) :
    delivered ⟨st.nextHeight, false⟩ (parsedFrom fromStr (Text.lines content) st.lastLine) =
      fresh fromStr head prev content := by
  have hbound := heightBound_le_iff.1
    (Nat.le_refl (heightBound head (linesAbove fromStr head prev)))
  -- both sides filter the parsable lines of the text
  have hfrom : parsedFrom fromStr (Text.lines content) st.lastLine =
      (parsedFrom fromStr (Text.lines content) 0).filter fun p ↦ st.lastLine ≤ p.1 := by
    rw [parsedFrom, parsedFrom, List.filter_filterMap]
    refine List.filterMap_congr fun p _ ↦ ?_
    rcases hb : lineBlock fromStr p.1 with - | b <;> by_cases hp : p.2 < st.lastLine <;>
      simp [hp, Option.filter, Nat.not_le.2, Nat.not_lt.1]
  have hcontent : linesAbove fromStr head content =
      (parsedFrom fromStr (Text.lines content) 0).filter fun p ↦ head ≤ p.2.number := rfl
  rw [delivered, hfrom, List.filter_filter, fresh, hcontent, List.filter_filter]
  refine List.filter_congr fun p hp ↦ ?_
  obtain ⟨j, b⟩ := p
  have hjb := (mem_parsedFrom_lines.1 hp).2
  rw [← Bool.decide_and, ← Bool.decide_and, decide_eq_decide]
  constructor
  · rintro ⟨hnext, -⟩
    rw [hst.nextHeight] at hnext
    refine ⟨fun hmem ↦ ?_, Nat.le_trans hbound.1 hnext⟩
    have hlt := hbound.2 _ hmem
    simp only at hlt hnext
    omega
  · rintro ⟨hnew, hhead⟩
    have hfresh : (j, b) ∈ fresh fromStr head prev content :=
      mem_fresh.2 ⟨mem_linesAbove.2 ⟨hjb, hhead⟩, hnew⟩
    refine ⟨?_, ?_⟩
    · rw [hst.nextHeight]
      refine heightBound_le_iff.2 ⟨hhead, fun q hq ↦ ?_⟩
      obtain ⟨i, b'⟩ := q
      exact hstrict i j b' b (hgrow.keeps i b' (mem_linesAbove.1 hq).1) hjb
        (lt_of_fresh hgrow hq hfresh)
    · rcases hst.lastLine with hzero | ⟨b', hmem⟩
      · simp only [hzero]
        exact Nat.zero_le _
      · exact Nat.le_of_lt (lt_of_fresh hgrow hmem hfresh)

/-- What a poll delivers under the invariant. -/
theorem newBlocks_poll {head : ℕ} {prev content : List Char} {st : TailState}
    (hst : Tracks fromStr head prev st) (hgrow : Grows fromStr prev content)
    (hstrict : StrictHeights fromStr content) :
    (poll fromStr path st content).1.newBlocks =
      (fresh fromStr head prev content).map Prod.snd := by
  rw [← delivered_eq_fresh hst hgrow hstrict]
  exact (newBlocks_scanLines path _ _).trans (if_neg (by simp))

/-- The expected height after a poll that finds something. -/
theorem nextHeight_poll {head : ℕ} {prev content : List Char} {st : TailState}
    (hst : Tracks fromStr head prev st) (hgrow : Grows fromStr prev content)
    (hstrict : StrictHeights fromStr content) (hne : fresh fromStr head prev content ≠ []) :
    (poll fromStr path st content).2.nextHeight =
      heightBound head (linesAbove fromStr head content) % u64Size := by
  have hlow : ∀ p ∈ fresh fromStr head prev content, st.nextHeight ≤ p.2.number := by
    rw [← delivered_eq_fresh hst hgrow hstrict]
    intro p hp
    simpa using (List.mem_filter.1 hp).2
  refine (nextExpectedHeight_scanLines path _ _).trans ?_
  rw [delivered_eq_fresh hst hgrow hstrict, foldl_max_number hne hlow, hst.nextHeight,
    ← heightBound_eq_of_mem_iff (mem_linesAbove_iff_of_grows hgrow)]

/-- **An idle poll drifts.** -/
theorem nextHeight_poll_of_idle {head : ℕ} {prev content : List Char} {st : TailState}
    (hst : Tracks fromStr head prev st) (hgrow : Grows fromStr prev content)
    (hstrict : StrictHeights fromStr content) (hidle : fresh fromStr head prev content = []) :
    (poll fromStr path st content).2.nextHeight = (st.nextHeight + 1) % u64Size := by
  refine (nextExpectedHeight_scanLines path _ _).trans ?_
  rw [delivered_eq_fresh hst hgrow hstrict, hidle]
  rfl

/-- A poll that finds something below the largest height keeps the invariant. -/
theorem tracks_poll {head : ℕ} {prev content : List Char} {st : TailState}
    (hst : Tracks fromStr head prev st) (hgrow : Grows fromStr prev content)
    (hstrict : StrictHeights fromStr content) (hne : fresh fromStr head prev content ≠ [])
    (hmax : heightBound head (linesAbove fromStr head content) < u64Size) :
    Tracks fromStr head content (poll fromStr path st content).2 where
  nextHeight := by
    rw [nextHeight_poll hst hgrow hstrict hne, Nat.mod_eq_of_lt hmax]
  lastLine := by
    obtain ⟨init, p, hfresh⟩ := (List.eq_nil_or_concat' _).resolve_left hne
    have hp : p ∈ fresh fromStr head prev content := by
      rw [hfresh]
      simp
    have hlast : (poll fromStr path st content).2.lastLine = p.1 := by
      refine (lastLine_scanLines path _ _).trans ?_
      rw [delivered_eq_fresh hst hgrow hstrict, hfresh, List.getLast?_concat]
      rfl
    rw [hlast]
    exact Or.inr ⟨p.2, (mem_fresh.1 hp).1⟩

/-! ### Whole runs -/

/-- The text seen before poll number `i`. -/
def textBefore (contents : List (List Char)) : ℕ → List Char
  | 0 => []
  | i + 1 => contents[i]?.getD []

section Run

variable {head : ℕ} {contents : List (List Char)}

theorem tailState_take_succ {i : ℕ} {content : List Char} (hi : contents[i]? = some content) :
    tailState fromStr path head (contents.take (i + 1)) =
      (poll fromStr path (tailState fromStr path head (contents.take i)) content).2 := by
  rw [tailState, List.take_add_one, hi, Option.toList_some, List.foldl_append, ← tailState]
  rfl

theorem textBefore_succ {i : ℕ} {content : List Char} (hi : contents[i]? = some content) :
    textBefore contents (i + 1) = content := by
  rw [textBefore, hi, Option.getD_some]

variable (hgrow : contents.Pairwise (Grows fromStr))
  (hstrict : ∀ content ∈ contents, StrictHeights fromStr content)

include hgrow in
/-- A text grows from every text seen before. -/
theorem grows_textBefore {i i' : ℕ} {content : List Char} (hi : contents[i]? = some content)
    (hle : i' ≤ i) : Grows fromStr (textBefore contents i') content := by
  rcases i' with - | k
  · exact grows_nil content
  · obtain ⟨hlt, rfl⟩ := List.getElem?_eq_some_iff.1 hi
    have hk : contents[k]? = some contents[k] := List.getElem?_eq_getElem (by omega)
    rw [textBefore_succ hk]
    exact List.pairwise_iff_getElem.1 hgrow k i (by omega) hlt (by omega)

include hgrow in
/-- A line complete in one text is complete in every later one. -/
theorem completeLine_textBefore {k i j : ℕ} {b : BlockAndReceipts} (hki : k ≤ i)
    (hi : i ≤ contents.length) (hb : completeLine fromStr (textBefore contents k) j = some b) :
    completeLine fromStr (textBefore contents i) j = some b := by
  rcases Nat.lt_or_eq_of_le hki with hlt | rfl
  · obtain ⟨m, rfl⟩ : ∃ m, i = m + 1 := ⟨i - 1, by omega⟩
    have hm : contents[m]? = some contents[m] := List.getElem?_eq_getElem (by omega)
    rw [textBefore_succ hm]
    exact (grows_textBefore hgrow hm (Nat.le_of_lt_succ hlt)).keeps j b hb
  · exact hb

include hgrow in
/-- First complete means fresh. -/
theorem firstComplete_iff_mem_fresh {i j : ℕ} {b : BlockAndReceipts} {content : List Char}
    (hi : contents[i]? = some content) (hhead : head ≤ b.number) :
    FirstComplete fromStr contents i j b ↔
      (j, b) ∈ fresh fromStr head (textBefore contents i) content := by
  obtain ⟨hlen, -⟩ := List.getElem?_eq_some_iff.1 hi
  rw [mem_fresh, mem_linesAbove, mem_linesAbove]
  constructor
  · rintro ⟨⟨c, hc, hb⟩, hfirst⟩
    obtain rfl := Option.some.inj (hi.symm.trans hc)
    refine ⟨⟨hb, hhead⟩, fun hold ↦ ?_⟩
    rcases i with - | k
    · simp [textBefore] at hold
    · have hk : contents[k]? = some contents[k] := List.getElem?_eq_getElem (by omega)
      rw [textBefore_succ hk, hfirst k (by omega) _ hk] at hold
      exact absurd hold.1 (by simp)
  · rintro ⟨⟨hb, -⟩, hnew⟩
    refine ⟨⟨content, hi, hb⟩, fun i' hlt c hc ↦ ?_⟩
    rcases hold : completeLine fromStr c j with - | b'
    · rfl
    · rw [← textBefore_succ hc] at hold
      -- complete before, with the same block
      have hbefore := completeLine_textBefore hgrow (Nat.succ_le_of_lt hlt) (by omega) hold
      have hnow := completeLine_textBefore hgrow (Nat.le_succ_of_le (Nat.succ_le_of_lt hlt))
        (Nat.succ_le_of_lt hlen) hold
      rw [textBefore_succ hi, hb] at hnow
      obtain rfl := Option.some.inj hnow
      exact absurd ⟨hbefore, hhead⟩ hnew

/-- The lines that poll number `i` is the first to see complete. -/
def freshAt (fromStr : List Char → Option BlockAndReceipts) (head : ℕ)
    (contents : List (List Char)) (i : ℕ) : List (ℕ × BlockAndReceipts) :=
  fresh fromStr head (textBefore contents i) (textBefore contents (i + 1))

/-- Poll number `i` sees something new, below the largest height. -/
def AdvancesAt (fromStr : List Char → Option BlockAndReceipts) (head : ℕ)
    (contents : List (List Char)) (i : ℕ) : Prop :=
  freshAt fromStr head contents i ≠ [] ∧
    ∀ p ∈ freshAt fromStr head contents i, p.2.number < u64Max

include hgrow in
theorem everyPollAdvances_iff :
    EveryPollAdvances fromStr head contents ↔
      ∀ i < contents.length, AdvancesAt fromStr head contents i := by
  have hfresh : ∀ {i j b}, i < contents.length → head ≤ b.number →
      (FirstComplete fromStr contents i j b ↔ (j, b) ∈ freshAt fromStr head contents i) := by
    intro i j b hi hhead
    have hget : contents[i]? = some contents[i] := List.getElem?_eq_getElem hi
    rw [firstComplete_iff_mem_fresh hgrow hget hhead, freshAt, textBefore_succ hget]
  constructor
  · rintro ⟨hsees, hbounded⟩ i hi
    obtain ⟨j, b, hfirst, hhead⟩ := hsees i hi
    refine ⟨List.ne_nil_of_mem ((hfresh hi hhead).1 hfirst), ?_⟩
    rintro ⟨j', b'⟩ hmem
    have hhead' : head ≤ b'.number := (mem_linesAbove.1 (mem_fresh.1 hmem).1).2
    exact hbounded i j' b' ((hfresh hi hhead').2 hmem) hhead'
  · intro hadv
    refine ⟨fun i hi ↦ ?_, fun i j b hfirst hhead ↦ ?_⟩
    · obtain ⟨⟨j, b⟩, hmem⟩ := List.exists_mem_of_ne_nil _ (hadv i hi).1
      have hhead : head ≤ b.number := (mem_linesAbove.1 (mem_fresh.1 hmem).1).2
      exact ⟨j, b, (hfresh hi hhead).2 hmem, hhead⟩
    · obtain ⟨⟨content, hget, -⟩, -⟩ := id hfirst
      obtain ⟨hi, -⟩ := List.getElem?_eq_some_iff.1 hget
      exact (hadv i hi).2 _ ((hfresh hi hhead).1 hfirst)

include hgrow hstrict

/-- The invariant holds before a poll when all the earlier ones saw something new. -/
theorem tracks_tailState {n : ℕ} (hn : n ≤ contents.length)
    (hadv : ∀ i < n, AdvancesAt fromStr head contents i) :
    Tracks fromStr head (textBefore contents n)
      (tailState fromStr path head (contents.take n)) := by
  induction n with
  | zero => exact ⟨rfl, Or.inl rfl⟩
  | succ n ih =>
    have hst := ih (by omega) fun i hi ↦ hadv i (by omega)
    have hget : contents[n]? = some contents[n] := List.getElem?_eq_getElem (by omega)
    have hg := grows_textBefore hgrow hget (Nat.le_refl n)
    have hs := hstrict contents[n] (List.getElem_mem _)
    obtain ⟨hne, hbounded⟩ := hadv n (by omega)
    rw [freshAt, textBefore_succ hget] at hne hbounded
    -- the expected height is below one of the new heights, hence itself below the largest
    have hmax : heightBound head (linesAbove fromStr head contents[n]) ≤ u64Max := by
      rw [heightBound_eq_of_mem_iff (mem_linesAbove_iff_of_grows hg), heightBound_le_iff]
      refine ⟨?_, fun p hp ↦ hbounded p hp⟩
      obtain ⟨p, hp⟩ := List.exists_mem_of_ne_nil _ hne
      have hlow := hp
      rw [← delivered_eq_fresh hst hg hs] at hlow
      have hlow : (tailState fromStr path head (contents.take n)).nextHeight ≤ p.2.number := by
        simpa using (List.mem_filter.1 hlow).2
      rw [← hst.nextHeight]
      exact Nat.le_of_lt (Nat.lt_of_le_of_lt hlow (hbounded p hp))
    rw [tailState_take_succ hget, textBefore_succ hget]
    exact tracks_poll hst hg hs hne (Nat.lt_of_le_of_lt hmax (by decide))

/-- What a poll delivers when all the earlier ones saw something new. -/
theorem newBlocksAt_eq {n : ℕ} (hn : n < contents.length)
    (hadv : ∀ i < n, AdvancesAt fromStr head contents i) :
    newBlocksAt fromStr path head contents n =
      (freshAt fromStr head contents n).map Prod.snd := by
  have hget : contents[n]? = some contents[n] := List.getElem?_eq_getElem hn
  rw [newBlocksAt, hget, freshAt, textBefore_succ hget]
  exact newBlocks_poll (tracks_tailState hgrow hstrict (by omega) hadv)
    (grows_textBefore hgrow hget (Nat.le_refl n)) (hstrict _ (List.getElem_mem _))

/-- One above the highest block delivered so far, when all the earlier polls saw something new. -/
theorem foldl_deliveredBy {n : ℕ} (hn : n ≤ contents.length)
    (hadv : ∀ i < n, i + 1 < n → AdvancesAt fromStr head contents i) :
    (deliveredBy fromStr path head contents n).foldl (fun m b ↦ max m (b.number + 1)) head =
      heightBound head (linesAbove fromStr head (textBefore contents n)) := by
  induction n with
  | zero => rfl
  | succ n ih =>
    have hget : contents[n]? = some contents[n] := List.getElem?_eq_getElem (by omega)
    have hg : Grows fromStr (textBefore contents n) (textBefore contents (n + 1)) := by
      rw [textBefore_succ hget]
      exact grows_textBefore hgrow hget (Nat.le_refl n)
    rw [deliveredBy, List.range_succ, List.flatMap_append, List.foldl_append, ← deliveredBy,
      ih (by omega) fun i hi h ↦ hadv i (by omega) (by omega), List.flatMap_singleton,
      newBlocksAt_eq hgrow hstrict (by omega) fun i hi ↦ hadv i (by omega) (by omega),
      List.foldl_map, heightBound_eq_of_mem_iff (mem_linesAbove_iff_of_grows hg)]
    rfl

omit hgrow in
theorem strictHeights_textBefore {i : ℕ} (hi : i < contents.length) :
    StrictHeights fromStr (textBefore contents (i + 1)) := by
  rw [textBefore_succ (List.getElem?_eq_getElem hi)]
  exact hstrict contents[i] (List.getElem_mem _)

/-- A run in which every poll sees something new delivers each block once. -/
theorem count_newBlocksAt (hadv : ∀ i < contents.length, AdvancesAt fromStr head contents i)
    {i i' j : ℕ} {b : BlockAndReceipts} (hi : i < contents.length) (hi' : i' < contents.length)
    (hfresh : (j, b) ∈ freshAt fromStr head contents i) :
    (newBlocksAt fromStr path head contents i').count b = if i' = i then 1 else 0 := by
  have hs := strictHeights_textBefore hstrict hi
  have hs' := strictHeights_textBefore hstrict hi'
  obtain ⟨hmem, hnew⟩ := mem_fresh.1 hfresh
  obtain ⟨hjb, hhead⟩ := mem_linesAbove.1 hmem
  rw [newBlocksAt_eq hgrow hstrict hi' fun k hk ↦ hadv k (by omega)]
  split_ifs with hii
  · subst hii
    exact List.count_eq_one_of_mem (hs.nodup_fresh _ _) (List.mem_map_of_mem hfresh)
  · rw [List.count_eq_zero]
    intro hb
    obtain ⟨⟨j', b'⟩, hmem', hbb⟩ := List.mem_map.1 hb
    obtain rfl : b' = b := hbb
    obtain ⟨hmem', hnew'⟩ := mem_fresh.1 hmem'
    have hjb' := (mem_linesAbove.1 hmem').1
    rcases Nat.lt_or_gt_of_ne hii with hlt | hlt
    · -- delivered before: the line was complete in an earlier text
      have hnow := completeLine_textBefore hgrow (Nat.le_succ_of_le hlt) hi hjb'
      rw [← hs.line_unique hnow hjb] at hnew
      exact hnew (mem_linesAbove.2
        ⟨completeLine_textBefore hgrow hlt (Nat.le_of_lt hi) hjb', hhead⟩)
    · -- delivered again: it was complete already
      have hnow := completeLine_textBefore hgrow (Nat.le_succ_of_le hlt) hi' hjb
      rw [← hs'.line_unique hnow hjb'] at hnew'
      exact hnew' (mem_linesAbove.2
        ⟨completeLine_textBefore hgrow hlt (Nat.le_of_lt hi') hjb, hhead⟩)

/-- Before a poll that breaks it, the invariant tells what the expected height should be. -/
theorem advancesAt_of_next {n : ℕ} (hn : n < contents.length)
    (hadv : ∀ i < n, AdvancesAt fromStr head contents i)
    (hnext : (tailState fromStr path head (contents.take (n + 1))).nextHeight =
      heightBound head (linesAbove fromStr head (textBefore contents (n + 1)))) :
    AdvancesAt fromStr head contents n := by
  have hget : contents[n]? = some contents[n] := List.getElem?_eq_getElem hn
  set st := tailState fromStr path head (contents.take n) with hdef
  have hst : Tracks fromStr head (textBefore contents n) st :=
    tracks_tailState hgrow hstrict (Nat.le_of_lt hn) hadv
  have hg := grows_textBefore hgrow hget (Nat.le_refl n)
  have hs := hstrict contents[n] (List.getElem_mem _)
  rw [tailState_take_succ hget, textBefore_succ hget, ← hdef] at hnext
  rw [AdvancesAt, freshAt, textBefore_succ hget]
  by_cases hidle : fresh fromStr head (textBefore contents n) contents[n] = []
  · -- an idle poll raises the expected height although the bound is the same
    have hbound : heightBound head (linesAbove fromStr head contents[n]) = st.nextHeight := by
      rw [heightBound_eq_of_mem_iff (mem_linesAbove_iff_of_grows hg), hidle, hst.nextHeight]
      rfl
    rw [nextHeight_poll_of_idle hst hg hs hidle, hbound] at hnext
    have hmod := Nat.mod_lt (st.nextHeight + 1) (by decide : 0 < u64Size)
    rcases Nat.lt_or_ge (st.nextHeight + 1) u64Size with hlt | hge
    · rw [Nat.mod_eq_of_lt hlt] at hnext
      omega
    · have hwrap : st.nextHeight + 1 = u64Size := by omega
      rw [hwrap, Nat.mod_self] at hnext
      exact absurd hwrap (by rw [← hnext]; decide)
  · rw [nextHeight_poll hst hg hs hidle] at hnext
    have hlt : heightBound head (linesAbove fromStr head contents[n]) < u64Size :=
      hnext ▸ Nat.mod_lt _ (by decide)
    have hle := heightBound_le_iff.1 (Nat.le_sub_one_of_lt hlt)
    exact ⟨hidle, fun p hp ↦ hle.2 p (mem_fresh.1 hp).1⟩

end Run

end Tail

/-! ### Files of empty blocks -/

/-- A file with the lines of these empty blocks. -/
def emptyBlockFile (numbers : List ℕ) : List Char :=
  numbers.flatMap fun n ↦ emptyBlockLine n ++ ['\n']

theorem lines_emptyBlockFile {numbers : List ℕ} (h : ∀ n ∈ numbers, n < 10) :
    Text.lines (emptyBlockFile numbers) = numbers.map emptyBlockLine ∧
      Text.Finished (emptyBlockFile numbers) := by
  induction numbers using List.reverseRecOn with
  | nil => exact ⟨rfl, Or.inl rfl⟩
  | append_singleton numbers n ih =>
    obtain ⟨hlines, hfin⟩ := ih fun m hm ↦ h m (List.mem_append_left _ hm)
    have hline := isLine_emptyBlockLine (h n (by simp))
    have happ : emptyBlockFile (numbers ++ [n]) =
        emptyBlockFile numbers ++ (emptyBlockLine n ++ ['\n']) := by
      simp [emptyBlockFile]
    rw [happ, Text.lines_append_line hfin hline, hlines, List.map_append]
    exact ⟨rfl, Text.finished_append_line _ _⟩

theorem completeLine_emptyBlockFile {numbers : List ℕ} (h : ∀ n ∈ numbers, n < 10) (j : ℕ) :
    completeLine emptyBlockFromStr (emptyBlockFile numbers) j = numbers[j]?.map emptyBlock := by
  rw [completeLine, (lines_emptyBlockFile h).1, List.getElem?_map]
  rcases hj : numbers[j]? with - | n
  · rfl
  · rw [Option.map_some, Option.bind_some, Option.map_some,
      lineBlock_emptyBlockLine (h n (List.mem_of_getElem? hj))]

theorem strictHeights_emptyBlockFile {numbers : List ℕ} (h : ∀ n ∈ numbers, n < 10)
    (hlt : numbers.Pairwise (· < ·)) :
    StrictHeights emptyBlockFromStr (emptyBlockFile numbers) := by
  intro i j b b' hi hj hij
  rw [completeLine_emptyBlockFile h] at hi hj
  obtain ⟨n, hn, rfl⟩ := Option.map_eq_some_iff.1 hi
  obtain ⟨m, hm, rfl⟩ := Option.map_eq_some_iff.1 hj
  obtain ⟨hi', rfl⟩ := List.getElem?_eq_some_iff.1 hn
  obtain ⟨hj', rfl⟩ := List.getElem?_eq_some_iff.1 hm
  exact List.pairwise_iff_getElem.1 hlt i j hi' hj' hij

theorem grows_emptyBlockFile {numbers more : List ℕ} (h : ∀ n ∈ numbers ++ more, n < 10) :
    Grows emptyBlockFromStr (emptyBlockFile numbers) (emptyBlockFile (numbers ++ more)) where
  appends := ⟨emptyBlockFile more, by simp [emptyBlockFile]⟩
  keeps := by
    intro j b hb
    rw [completeLine_emptyBlockFile fun n hn ↦ h n (List.mem_append_left _ hn)] at hb
    obtain ⟨n, hn, rfl⟩ := Option.map_eq_some_iff.1 hb
    obtain ⟨hj, -⟩ := List.getElem?_eq_some_iff.1 hn
    rw [completeLine_emptyBlockFile h, List.getElem?_append_left hj, hn]
    rfl

/-! ### The run of a file -/

/-- **When tailing delivers every block once.** It does exactly when every poll sees a new line:
an idle poll makes the expected height run ahead of the file. -/
theorem deliversOnce_iff {fromStr : List Char → Option BlockAndReceipts} {path : HourPath}
    {head : ℕ} {contents : List (List Char)} (hgrow : contents.Pairwise (Grows fromStr))
    (hstrict : ∀ content ∈ contents, StrictHeights fromStr content) :
    DeliversOnce fromStr path head contents ↔ EveryPollAdvances fromStr head contents := by
  rw [everyPollAdvances_iff hgrow]
  constructor
  · rintro ⟨-, hnext⟩ n hn
    induction n using Nat.strongRecOn with
    | _ n ih =>
      have hadv : ∀ i < n, AdvancesAt fromStr head contents i := fun i hi ↦ ih i hi (by omega)
      refine advancesAt_of_next hgrow hstrict hn hadv ((hnext n hn).trans ?_)
      exact foldl_deliveredBy hgrow hstrict hn fun i _ hi ↦ hadv i (by omega)
  · intro hadv
    refine ⟨fun i j b hfirst hhead i' hi' ↦ ?_, fun i hi ↦ ?_⟩
    · obtain ⟨⟨content, hget, -⟩, -⟩ := id hfirst
      obtain ⟨hi, -⟩ := List.getElem?_eq_some_iff.1 hget
      have hfresh : (j, b) ∈ freshAt fromStr head contents i := by
        rw [freshAt, textBefore_succ hget]
        exact (firstComplete_iff_mem_fresh hgrow hget hhead).1 hfirst
      exact count_newBlocksAt hgrow hstrict hadv hi hi' hfresh
    · rw [foldl_deliveredBy hgrow hstrict hi fun k _ hk ↦ hadv k (by omega)]
      exact (tracks_tailState hgrow hstrict hi fun k hk ↦ hadv k (by omega)).nextHeight

/-- A run in which each of the two polls sees a new line. -/
theorem deliversOnce_five_six :
    DeliversOnce emptyBlockFromStr ⟨"20250731", "4"⟩ 5
      [emptyBlockFile [5], emptyBlockFile [5, 6]] := by
  have hgrow : Grows emptyBlockFromStr (emptyBlockFile [5]) (emptyBlockFile [5, 6]) :=
    grows_emptyBlockFile (by decide : ∀ n ∈ [5] ++ [6], n < 10)
  have hfive : ∀ j, completeLine emptyBlockFromStr (emptyBlockFile [5]) j =
      [5][j]?.map emptyBlock := completeLine_emptyBlockFile (by decide)
  have hsix : ∀ j, completeLine emptyBlockFromStr (emptyBlockFile [5, 6]) j =
      [5, 6][j]?.map emptyBlock := completeLine_emptyBlockFile (by decide)
  refine (deliversOnce_iff (List.pairwise_pair.2 hgrow) ?_).2 ⟨?_, ?_⟩
  · intro content hc
    rcases List.mem_pair.1 hc with rfl | rfl
    · exact strictHeights_emptyBlockFile (by decide) (by decide)
    · exact strictHeights_emptyBlockFile (by decide) (by decide)
  · intro i hi
    obtain rfl | rfl : i = 0 ∨ i = 1 := by
      simp at hi
      omega
    · exact ⟨0, emptyBlock 5, ⟨⟨_, rfl, hfive 0⟩, by simp⟩, by simp⟩
    · refine ⟨1, emptyBlock 6, ⟨⟨_, rfl, hsix 1⟩, ?_⟩, by simp⟩
      intro i' hi' content hc
      obtain rfl : i' = 0 := by omega
      obtain rfl := Option.some.inj hc
      exact hfive 1
  · rintro i j b ⟨⟨content, hc, hb⟩, -⟩ -
    rcases List.mem_pair.1 (List.mem_of_getElem? hc) with rfl | rfl
    · rw [hfive] at hb
      obtain ⟨n, hn, rfl⟩ := Option.map_eq_some_iff.1 hb
      obtain rfl := List.mem_singleton.1 (List.mem_of_getElem? hn)
      decide
    · rw [hsix] at hb
      obtain ⟨n, hn, rfl⟩ := Option.map_eq_some_iff.1 hb
      rcases List.mem_pair.1 (List.mem_of_getElem? hn) with rfl | rfl <;> decide

/-- **A block is lost to one idle poll.** The file is empty at the first poll and holds block 5, the
expected one, at the second; but the second poll expects block 6. -/
theorem not_deliversOnce_of_idle_poll :
    let contents := [emptyBlockFile [], emptyBlockFile [5]]
    contents.Pairwise (Grows emptyBlockFromStr) ∧
      (∀ content ∈ contents, StrictHeights emptyBlockFromStr content) ∧
      ¬ DeliversOnce emptyBlockFromStr ⟨"20250731", "4"⟩ 5 contents := by
  intro contents
  have hgrow : contents.Pairwise (Grows emptyBlockFromStr) :=
    List.pairwise_pair.2 (grows_nil _)
  have hstrict : ∀ content ∈ contents, StrictHeights emptyBlockFromStr content := by
    intro content hc
    rcases List.mem_pair.1 hc with rfl | rfl
    · exact strictHeights_emptyBlockFile (by decide) (by decide)
    · exact strictHeights_emptyBlockFile (by decide) (by decide)
  refine ⟨hgrow, hstrict, fun hdel ↦ ?_⟩
  have hnext := (hdel.next 0 (by decide)).trans
    (foldl_deliveredBy hgrow hstrict (by decide) (by omega))
  have hadv := advancesAt_of_next hgrow hstrict (by decide) (by omega) hnext
  exact hadv.1 rfl

end RethHl.HlNode
