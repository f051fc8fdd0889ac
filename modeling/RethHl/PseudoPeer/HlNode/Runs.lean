import Mathlib.Data.List.Chain
import RethHl.PseudoPeer.HlNode.Scan

/-!
# What one scan finds

Every lookup of a local block trusts the ranges of the scans, so it matters that a scan leaves no
line out and makes no height up, whatever the file looks like: blank lines, lines that do not parse,
heights that repeat or go back.

The heights that a scan works on are those of `parsedFrom`, the parsable lines from the remembered
one on. **Its ranges are the maximal runs of these heights** (`MaximalRuns`), in order, each by its
first and last height. The loop keeps one run open; `exists_maximalRuns_open` is the statement that
goes through its turns: what was open becomes the beginning of the first run.

`scanLines_exact` puts this together with what `RethHl.PseudoPeer.HlNode.Scan` says of the blocks
and of the remembered line.
-/

namespace RethHl.HlNode

/-! ### Runs -/

/-- The maximal runs of a list of heights: its parts in which each height is one above the height
before it, as long as they can be. -/
structure MaximalRuns (heights : List ℕ) (runs : List (List ℕ)) : Prop where
  flatten_eq : runs.flatten = heights
  nonempty : ∀ run ∈ runs, run ≠ []
  consecutive : ∀ run ∈ runs, run.IsChain fun h h' ↦ h + 1 = h'
  maximal : runs.IsChain fun run next ↦ ∀ h ∈ run.getLast?, ∀ h' ∈ next.head?, h + 1 ≠ h'

/-- The first and the last height of a run. -/
def IsRangeOf (run : List ℕ) (range : ℕ × ℕ) : Prop :=
  run.head? = some range.1 ∧ run.getLast? = some range.2

/-- A run goes up. -/
theorem IsRangeOf.le {run : List ℕ} {range : ℕ × ℕ} (h : IsRangeOf run range)
    (hchain : run.IsChain fun h h' ↦ h + 1 = h') : range.1 ≤ range.2 := by
  obtain ⟨hhead, hlast⟩ := h
  have hpairwise : run.Pairwise (· < ·) :=
    (hchain.imp fun h h' (hnext : h + 1 = h') ↦ show h < h' by omega).pairwise
  rcases run with - | ⟨first, run⟩
  · cases hhead
  · obtain rfl := Option.some.inj hhead
    rcases List.mem_cons.1 (List.mem_of_getLast? hlast) with heq | hmem
    · exact heq.ge
    · exact ((List.pairwise_cons.1 hpairwise).1 _ hmem).le

/-- No range of runs is reversed. -/
theorem le_of_forall₂_isRangeOf {runs : List (List ℕ)} {ranges : List (ℕ × ℕ)}
    (hranges : List.Forall₂ IsRangeOf runs ranges)
    (hchain : ∀ run ∈ runs, run.IsChain fun h h' ↦ h + 1 = h') :
    ∀ range ∈ ranges, range.1 ≤ range.2 := by
  induction hranges with
  | nil => simp
  | cons hrange _ ih =>
    obtain ⟨hrun, hruns⟩ := List.forall_mem_cons.1 hchain
    exact List.forall_mem_cons.2 ⟨hrange.le hrun, ih hruns⟩

/-- The runs of a list behind an open run, and their ranges. -/
theorem exists_maximalRuns_open {run : List ℕ} {start last : ℕ}
    (hrange : IsRangeOf run (start, last)) (hchain : run.IsChain fun h h' ↦ h + 1 = h')
    (hlast : last < u64Max) {hs : List ℕ} (hmax : ∀ h ∈ hs, h < u64Max) :
    ∃ first runs, run <+: first ∧ MaximalRuns (run ++ hs) (first :: runs) ∧
      List.Forall₂ IsRangeOf (first :: runs) (runsFrom (some (start, last)) hs) := by
  have hne : run ≠ [] := by
    rintro rfl
    cases hrange.1
  induction hs generalizing run start last with
  | nil =>
    refine ⟨run, [], List.prefix_rfl, ⟨by simp, ?_, ?_, List.IsChain.singleton _⟩,
      .cons hrange .nil⟩
    · exact fun r hr ↦ List.mem_singleton.1 hr ▸ hne
    · exact fun r hr ↦ List.mem_singleton.1 hr ▸ hchain
  | cons h hs ih =>
    have hh : h < u64Max := hmax h List.mem_cons_self
    have hhs : ∀ h ∈ hs, h < u64Max := fun x hx ↦ hmax x (List.mem_cons_of_mem _ hx)
    have hnowrap : (last + 1) % u64Size = last + 1 :=
      Nat.mod_eq_of_lt (by unfold u64Max at hlast; omega)
    rw [runsFrom, hnowrap]
    by_cases hnext : last + 1 = h
    · -- the height goes on with the open run
      rw [if_pos hnext]
      have hrange' : IsRangeOf (run ++ [h]) (start, h) :=
        ⟨by rw [List.head?_append, hrange.1]; rfl, List.getLast?_concat⟩
      have hchain' : (run ++ [h]).IsChain fun h h' ↦ h + 1 = h' := by
        refine List.isChain_append.2 ⟨hchain, List.IsChain.singleton _, ?_⟩
        intro x hx y hy
        obtain rfl := Option.some.inj (hrange.2.symm.trans hx)
        obtain rfl := Option.some.inj hy
        exact hnext
      obtain ⟨first, runs, hprefix, hruns, hranges⟩ := ih hrange' hchain' hh hhs (by simp)
      refine ⟨first, runs, (List.prefix_append _ _).trans hprefix, ?_, hranges⟩
      rwa [List.append_assoc] at hruns
    · -- the open run is closed
      rw [if_neg hnext]
      obtain ⟨first, runs, hprefix, hruns, hranges⟩ :=
        ih (show IsRangeOf [h] (h, h) from ⟨rfl, rfl⟩) (List.IsChain.singleton _) hh hhs (by simp)
      refine ⟨run, first :: runs, List.prefix_rfl, ⟨?_, ?_, ?_, ?_⟩, .cons hrange hranges⟩
      · rw [List.flatten_cons, hruns.flatten_eq]
        rfl
      · exact List.forall_mem_cons.2 ⟨hne, hruns.nonempty⟩
      · exact List.forall_mem_cons.2 ⟨hchain, hruns.consecutive⟩
      · refine List.IsChain.cons_cons ?_ hruns.maximal
        intro x hx y hy
        obtain rfl := Option.some.inj (hrange.2.symm.trans hx)
        obtain ⟨rest, rfl⟩ := hprefix
        obtain rfl := Option.some.inj hy
        exact hnext

/-- The runs of a list, and their ranges. -/
theorem exists_maximalRuns {hs : List ℕ} (hmax : ∀ h ∈ hs, h < u64Max) :
    ∃ runs, MaximalRuns hs runs ∧ List.Forall₂ IsRangeOf runs (runsFrom none hs) := by
  rcases hs with - | ⟨h, hs⟩
  · exact ⟨[], ⟨rfl, by simp, by simp, List.IsChain.nil⟩, .nil⟩
  · obtain ⟨first, runs, -, hruns, hranges⟩ :=
      exists_maximalRuns_open (show IsRangeOf [h] (h, h) from ⟨rfl, rfl⟩) (List.IsChain.singleton _)
        (hmax h List.mem_cons_self) fun x hx ↦ hmax x (List.mem_cons_of_mem _ hx)
    exact ⟨first :: runs, hruns, hranges⟩

/-! ### Scans -/

/-- **One scan is exact.** Let `parsed` be the parsable lines from the remembered one on, with their
indices. The ranges are the maximal runs of their heights, none is reversed, and together they have
these heights and no others. The new blocks are those at or above the start height in file order, or
none if only ranges are loaded; and the line that is remembered is the last one at or above the
start height, if there is one. -/
theorem scanLines_exact (fromStr : List Char → Option BlockAndReceipts) (options : ScanOptions)
    (path : HourPath) (lines : List (List Char)) (lastLine : ℕ)
    (hmax : ∀ p ∈ parsedFrom fromStr lines lastLine, p.2.number < u64Max) :
    let parsed := parsedFrom fromStr lines lastLine
    let wanted := parsed.filter fun p ↦ options.startHeight ≤ p.2.number
    let scan := scanLines fromStr options path lines lastLine
    (∃ runs, MaximalRuns (parsed.map fun p ↦ p.2.number) runs ∧
      List.Forall₂ IsRangeOf runs scan.1.newBlockRanges) ∧
    (∀ range ∈ scan.1.newBlockRanges, range.1 ≤ range.2) ∧
    (∀ height, (∃ range ∈ scan.1.newBlockRanges, range.1 ≤ height ∧ height ≤ range.2) ↔
      ∃ p ∈ parsed, p.2.number = height) ∧
    scan.1.newBlocks = (if options.onlyLoadRanges then [] else wanted.map Prod.snd) ∧
    scan.2 = (wanted.getLast?.map Prod.fst).getD lastLine := by
  intro parsed wanted scan
  obtain ⟨runs, hruns, hranges⟩ := exists_maximalRuns (List.forall_mem_map.2 hmax)
  rw [← show scan.1.newBlockRanges = _ from newBlockRanges_scanLines path lines lastLine] at hranges
  exact ⟨⟨runs, hruns, hranges⟩, le_of_forall₂_isRangeOf hranges hruns.consecutive,
    mem_newBlockRanges_iff hmax, newBlocks_scanLines path lines lastLine,
    lastLine_scanLines path lines lastLine⟩

/-- A file in which height five comes twice, around a blank line. -/
def exampleLines : List (List Char) :=
  [emptyBlockLine 5, emptyBlockLine 6, [], emptyBlockLine 5]

theorem parsedFrom_exampleLines : parsedFrom emptyBlockFromStr exampleLines 0 =
    [(0, emptyBlock 5), (1, emptyBlock 6), (3, emptyBlock 5)] := by
  have hfive := lineBlock_emptyBlockLine (show 5 < 10 by decide)
  have hsix := lineBlock_emptyBlockLine (show 6 < 10 by decide)
  have hblank : lineBlock emptyBlockFromStr [] = none := rfl
  simp [parsedFrom, exampleLines, hfive, hsix, hblank]

/-- A scan of it from height six on. -/
theorem scanLines_exact_exampleLines :
    let scan := scanLines emptyBlockFromStr ⟨6, false⟩ ⟨"20250731", "4"⟩ exampleLines 0
    (∃ runs, MaximalRuns [5, 6, 5] runs ∧
      List.Forall₂ IsRangeOf runs scan.1.newBlockRanges) ∧
      scan.1.newBlocks = [emptyBlock 6] ∧ scan.2 = 1 := by
  intro scan
  have hmax : ∀ p ∈ parsedFrom emptyBlockFromStr exampleLines 0, p.2.number < u64Max := by
    rw [parsedFrom_exampleLines]
    decide
  obtain ⟨hruns, -, -, hblocks, hline⟩ :=
    scanLines_exact emptyBlockFromStr ⟨6, false⟩ ⟨"20250731", "4"⟩ exampleLines 0 hmax
  rw [parsedFrom_exampleLines] at hruns hblocks hline
  exact ⟨hruns, hblocks, hline⟩

end RethHl.HlNode
