import Mathlib.Data.Char
import Mathlib.Data.Finset.Option
import Mathlib.Data.Finset.Sort
import Mathlib.Data.Finset.Union
import Mathlib.Data.List.Lex
import RethHl.PseudoPeer.Sources.Utils

/-!
# The latest block in a bucket

The keys of a bucket are flat. A listing with a delimiter shows the keys that start with a given
text, and **rolls up** those that have a slash after it: all keys that agree up to that slash are
one common prefix. Keys and common prefixes come in the order of their characters, at most a
thousand of them; of a longer listing only the beginning is answered (`IsListing`).

`findLatestBlockNumber` descends three levels by the largest number. It looks at the first page of
each listing only. That is enough: a directory of blocks has at most a thousand entries, so no
listing is cut off, and the largest entry of each level leads to the largest block
(`findLatestBlockNumber_eq`).
-/

namespace RethHl.PseudoPeer.S3

open SlashPath

/-! ### Listings -/

/-- What a request for a listing is answered with. A list without elements is absent. -/
structure ListObjectsOutput where
  contents : Option (List Path)
  commonPrefixes : Option (List Path)
  isTruncated : Bool
  deriving DecidableEq, Repr

/-- What a key is listed as. -/
def listedName (dir key : Path) : Path :=
  let rest := key.drop dir.length
  if '/' ∈ rest then dir ++ (rest.takeWhile (· ≠ '/') ++ ['/']) else key

/-- Whether a listed name is a common prefix. -/
def isCommonPrefix (dir name : Path) : Bool :=
  '/' ∈ name.drop dir.length

/-- A list, absent when it is empty. -/
def absentIfEmpty (l : List Path) : Option (List Path) :=
  if l = [] then none else some l

/-- How many names are answered at most. -/
def maxKeys : ℕ := 1000

/-- The answer to a request, from all names that there are to list. -/
def firstPage (dir : Path) (names : List Path) : ListObjectsOutput where
  contents := absentIfEmpty ((names.take maxKeys).filter fun name ↦ !isCommonPrefix dir name)
  commonPrefixes := absentIfEmpty ((names.take maxKeys).filter fun name ↦ isCommonPrefix dir name)
  isTruncated := maxKeys < names.length

/-- An answer to the request for the listing of a directory of a bucket: the first page of the names
in their order. -/
def IsListing (bucket : Finset Path) (dir : Path) (output : ListObjectsOutput) : Prop :=
  ∃ names : List Path, names.Pairwise (· < ·) ∧
    (∀ name, name ∈ names ↔ ∃ key ∈ bucket, dir <+: key ∧ listedName dir key = name) ∧
    output = firstPage dir names

/-- The client of a bucket: every request is answered with a listing. -/
def Serves (client : Path → Option ListObjectsOutput) (bucket : Finset Path) : Prop :=
  ∀ dir, ∃ output, client dir = some output ∧ IsListing bucket dir output

/-- The listing of a directory. -/
def listing (bucket : Finset Path) (dir : Path) : ListObjectsOutput :=
  firstPage dir (((bucket.filter fun key ↦ dir <+: key).image (listedName dir)).sort (· ≤ ·))

theorem serves_listing (bucket : Finset Path) :
    Serves (fun dir ↦ some (listing bucket dir)) bucket := by
  refine fun dir ↦ ⟨listing bucket dir, rfl, _, (Finset.sortedLT_sort _).pairwise, fun name ↦ ?_,
    rfl⟩
  rw [Finset.mem_sort, Finset.mem_image]
  simp only [Finset.mem_filter, and_assoc]

/-! ### The descent -/

/-- Requests, some of which may fail, with the answers received so far. -/
abbrev Requests := OptionT (StateM (List ListObjectsOutput))

/-- A request that succeeds, and what follows it. -/
theorem run_bind_of_some {α β : Type} {request : Requests α} {value : α}
    {outputs outputs' : List ListObjectsOutput}
    (h : request.run.run outputs = (some value, outputs')) (next : α → Requests β) :
    (request >>= next).run.run outputs = (next value).run.run outputs' := by
  rw [OptionT.run_bind, Option.elimM, StateT.run_bind, h]
  rfl

section Descent

variable (client : Path → Option ListObjectsOutput)

/-- A request for a listing. -/
def listObjects (dir : Path) : Requests ListObjectsOutput := do
  let output ← OptionT.mk (pure (client dir))
  modify fun outputs ↦ outputs ++ [output]
  return output

/-- `S3BlockSource::pick_path_with_highest_number`. -/
def pickPathWithHighestNumber (dir : Path) (isDir : Bool) : Requests (ℕ × Path) := do
  let output ← listObjects client dir
  let files ← OptionT.mk (pure (if isDir then output.commonPrefixes else output.contents))
  OptionT.mk (pure (nameWithLargestNumber files isDir))

/-- `S3BlockSource::find_latest_block_number`. -/
def findLatestBlockNumber : Requests ℕ := do
  let (_, firstLevel) ← pickPathWithHighestNumber client [] true
  let (_, secondLevel) ← pickPathWithHighestNumber client firstLevel true
  let (blockNumber, _) ← pickPathWithHighestNumber client secondLevel false
  return blockNumber

/-- One level of the descent. -/
theorem run_pickPathWithHighestNumber {dir : Path} {isDir : Bool} {output : ListObjectsOutput}
    {files : List Path} {entry : ℕ × Path} (houtput : client dir = some output)
    (hfiles : (if isDir then output.commonPrefixes else output.contents) = some files)
    (hentry : nameWithLargestNumber files isDir = some entry)
    (outputs : List ListObjectsOutput) :
    (pickPathWithHighestNumber client dir isDir).run.run outputs =
      (some entry, outputs ++ [output]) := by
  rw [pickPathWithHighestNumber, listObjects, houtput]
  show (((OptionT.mk (pure (if isDir then output.commonPrefixes else output.contents)) :
      Requests (List Path)) >>= fun files ↦
        OptionT.mk (pure (nameWithLargestNumber files isDir))).run.run (outputs ++ [output])) = _
  rw [hfiles]
  show ((OptionT.mk (pure (nameWithLargestNumber files isDir)) :
      Requests (ℕ × Path)).run.run (outputs ++ [output])) = _
  rw [hentry]
  rfl

/-- The descent, from its three levels. -/
theorem run_findLatestBlockNumber {first second third : ℕ × Path}
    {outputs₁ outputs₂ outputs₃ : List ListObjectsOutput}
    (hfirst : (pickPathWithHighestNumber client [] true).run.run [] = (some first, outputs₁))
    (hsecond : (pickPathWithHighestNumber client first.2 true).run.run outputs₁ =
      (some second, outputs₂))
    (hthird : (pickPathWithHighestNumber client second.2 false).run.run outputs₂ =
      (some third, outputs₃)) :
    (findLatestBlockNumber client).run.run [] = (some third.1, outputs₃) := by
  rw [findLatestBlockNumber, run_bind_of_some hfirst, run_bind_of_some hsecond,
    run_bind_of_some hthird]
  rfl

end Descent

/-! ### What a level lists -/

/-- The name of a number on a level, after that of the directory. -/
def levelName (isDir : Bool) (number : ℕ) : Path :=
  entryName isDir number ++ if isDir then ['/'] else []

theorem listedName_of_slash (dir : Path) {name : Path} (h : '/' ∉ name) (rest : Path) :
    listedName dir (dir ++ (name ++ '/' :: rest)) = dir ++ (name ++ ['/']) := by
  have htake : (name ++ '/' :: rest).takeWhile (· ≠ '/') = name := by
    rw [List.takeWhile_append_of_pos]
    · simp
    · intro c hc
      simp only [decide_eq_true_eq]
      rintro rfl
      exact h hc
  rw [listedName, List.drop_left, if_pos (by simp), htake]

theorem listedName_nil_of_slash {name : Path} (h : '/' ∉ name) (rest : Path) :
    listedName [] (name ++ '/' :: rest) = name ++ ['/'] :=
  listedName_of_slash [] h rest

theorem listedName_of_name (dir : Path) {name : Path} (h : '/' ∉ name) :
    listedName dir (dir ++ name) = dir ++ name := by
  rw [listedName, List.drop_left, if_neg h]

theorem isCommonPrefix_levelName (dir : Path) (isDir : Bool) (number : ℕ) :
    isCommonPrefix dir (dir ++ levelName isDir number) = isDir := by
  have hname := (isName_entryName isDir number).2
  rw [isCommonPrefix, List.drop_left, levelName]
  cases isDir
  · simpa using hname
  · simp

/-- A directory of a bucket: the whole of it, or a text that ends in a slash. -/
def IsDirectory (dir : Path) : Prop :=
  dir = [] ∨ dir.getLast? = some '/'

theorem lastComponent_entry {dir : Path} (hdir : IsDirectory dir) (isDir : Bool) (number : ℕ) :
    lastComponent (dir ++ entryName isDir number) = entryName isDir number := by
  have hname := (isName_entryName isDir number).2
  rcases hdir with rfl | hlast
  · exact lastComponent_of_notMem hname
  · obtain ⟨front, rfl⟩ := List.getLast?_eq_some_iff.1 hlast
    rw [List.append_assoc, List.singleton_append, lastComponent_append_cons,
      lastComponent_of_notMem hname]

theorem numberOfName_levelName {dir : Path} (hdir : IsDirectory dir) (isDir : Bool) {number : ℕ}
    (h : number < u64Size) :
    numberOfName isDir (dir ++ levelName isDir number) = some number := by
  cases isDir
  · rw [levelName, if_neg (by decide), List.append_nil,
      numberOfName_append_name _ _ (isName_entryName _ _), lastComponent_entry hdir,
      stemNumber_entryName _ h]
  · rw [levelName, if_pos rfl, ← List.append_assoc, numberOfName_append_slash,
      lastComponent_entry hdir, stemNumber_entryName _ h]

section Level

variable {bucket : Finset Path} {dir : Path} {isDir : Bool} {numbers : Finset ℕ} {top : ℕ}
  (hdir : IsDirectory dir) (hcard : numbers.card ≤ maxKeys)
  (hnames : ∀ name, (∃ key ∈ bucket, dir <+: key ∧ listedName dir key = name) ↔
    ∃ number ∈ numbers, name = dir ++ levelName isDir number)

include hcard hnames

/-- A level with at most a thousand numbers is listed as a whole. -/
theorem length_le_of_isListing {names : List Path} (hsorted : names.Pairwise (· < ·))
    (hmem : ∀ name, name ∈ names ↔ ∃ key ∈ bucket, dir <+: key ∧ listedName dir key = name) :
    names.length ≤ maxKeys := by
  have hnodup : names.Nodup := hsorted.imp ne_of_lt
  have hsub : names.toFinset ⊆ numbers.image fun number ↦ dir ++ levelName isDir number := by
    intro name hname
    obtain ⟨number, hnumber, rfl⟩ := (hnames name).1 ((hmem name).1 (List.mem_toFinset.1 hname))
    exact Finset.mem_image_of_mem _ hnumber
  calc names.length = names.toFinset.card := (List.toFinset_card_of_nodup hnodup).symm
    _ ≤ (numbers.image fun number ↦ dir ++ levelName isDir number).card :=
        Finset.card_le_card hsub
    _ ≤ numbers.card := Finset.card_image_le
    _ ≤ maxKeys := hcard

include hdir

/-- **A level of the descent**: the listing is complete, and its largest number is taken. -/
theorem run_pickPathWithHighestNumber_level {client : Path → Option ListObjectsOutput}
    (hserves : Serves client bucket) (htop : IsGreatest (numbers : Set ℕ) top)
    (hbound : top < u64Size) :
    ∃ output, output.isTruncated = false ∧ ∀ outputs,
      (pickPathWithHighestNumber client dir isDir).run.run outputs =
        (some (top, dir ++ levelName isDir top), outputs ++ [output]) := by
  obtain ⟨output, houtput, names, hsorted, hmem, rfl⟩ := hserves dir
  have hlength := length_le_of_isListing hcard hnames hsorted hmem
  have hiff : ∀ name, name ∈ names ↔ ∃ number ∈ numbers, name = dir ++ levelName isDir number :=
    fun name ↦ (hmem name).trans (hnames name)
  -- a level has only directories or only files, so one half of the answer has all its names
  have hall : ∀ name ∈ names, isCommonPrefix dir name = isDir := by
    intro name hname
    obtain ⟨number, -, rfl⟩ := (hiff name).1 hname
    exact isCommonPrefix_levelName dir isDir number
  have hne : names ≠ [] := List.ne_nil_of_mem ((hiff _).2 ⟨top, htop.1, rfl⟩)
  have hfiles : (if isDir then (firstPage dir names).commonPrefixes
      else (firstPage dir names).contents) = some names := by
    cases isDir
    · have hfilter : (names.filter fun name ↦ !isCommonPrefix dir name) = names :=
        List.filter_eq_self.2 fun name hname ↦ by rw [hall name hname]; rfl
      rw [if_neg (by decide), firstPage, List.take_of_length_le hlength, hfilter]
      exact if_neg hne
    · have hfilter : (names.filter fun name ↦ isCommonPrefix dir name) = names :=
        List.filter_eq_self.2 hall
      rw [if_pos rfl, firstPage, List.take_of_length_le hlength, hfilter]
      exact if_neg hne
  refine ⟨firstPage dir names, decide_eq_false (Nat.not_lt.2 hlength), fun outputs ↦ ?_⟩
  refine run_pickPathWithHighestNumber client houtput hfiles ?_ outputs
  exact nameWithLargestNumber_eq htop (fun number ↦ dir ++ levelName isDir number)
    (fun number hnumber ↦ numberOfName_levelName hdir isDir ((htop.2 hnumber).trans_lt hbound))
    (fun number hnumber ↦ (hiff _).2 ⟨number, hnumber, rfl⟩)
    (fun file hfile _ ↦ (hiff file).1 hfile)

end Level

/-! ### The levels of a bucket of blocks -/

/-- A bucket that holds the blocks of some heights, and nothing else. -/
def HoldsBlocks (bucket : Finset Path) (heights : Finset ℕ) : Prop :=
  ∀ key, key ∈ bucket ↔ ∃ height ∈ heights, (rmpPath height).map String.toList = some key

/-- The bucket of some heights. -/
def bucketOf (heights : Finset ℕ) : Finset Path :=
  heights.biUnion fun height ↦ ((rmpPath height).map String.toList).toFinset

theorem holdsBlocks_bucketOf (heights : Finset ℕ) : HoldsBlocks (bucketOf heights) heights := by
  intro key
  rw [bucketOf, Finset.mem_biUnion]
  simp only [Option.mem_toFinset, Option.mem_def]

/-- The first directory of a block. -/
def firstDir (height : ℕ) : Path := levelName true (millionOf height)

/-- The second directory of a block. -/
def secondDir (height : ℕ) : Path := firstDir height ++ levelName true (thousandOf height)

theorem levelName_true (number : ℕ) : levelName true number = entryName true number ++ ['/'] :=
  rfl

theorem levelName_false (number : ℕ) : levelName false number = entryName false number :=
  List.append_nil _

theorem isDirectory_append_levelName (dir : Path) (number : ℕ) :
    IsDirectory (dir ++ levelName true number) :=
  .inr (by rw [levelName_true, ← List.append_assoc, List.getLast?_concat])

theorem isDirectory_firstDir (height : ℕ) : IsDirectory (firstDir height) := by
  rw [firstDir, ← List.nil_append (levelName true _)]
  exact isDirectory_append_levelName [] _

theorem entryName_true_inj {a b : ℕ} : entryName true a = entryName true b ↔ a = b := by
  rw [entryName, entryName, if_pos rfl, List.append_nil, List.append_nil, toDigits_inj]

theorem firstDir_isPrefix_iff {height other : ℕ} (rest : Path) :
    firstDir height <+: firstDir other ++ rest ↔ millionOf other = millionOf height := by
  have hname : ∀ number, '/' ∉ entryName true number := fun number ↦ (isName_entryName _ _).2
  rw [firstDir, firstDir, levelName_true, levelName_true, List.append_assoc,
    List.singleton_append, append_slash_isPrefix_iff (hname _) (hname _), entryName_true_inj]
  exact ⟨fun h ↦ h.1.symm, fun h ↦ ⟨h.symm, List.nil_prefix⟩⟩

theorem secondDir_isPrefix_iff {height other : ℕ} (rest : Path) :
    secondDir height <+: secondDir other ++ rest ↔ thousandOf other = thousandOf height := by
  have hname : ∀ number, '/' ∉ entryName true number := fun number ↦ (isName_entryName _ _).2
  rw [secondDir, secondDir, firstDir, firstDir]
  simp only [levelName_true, List.append_assoc, List.cons_append, List.nil_append]
  rw [append_slash_isPrefix_iff (hname _) (hname _),
    append_slash_isPrefix_iff (hname _) (hname _), entryName_true_inj, entryName_true_inj]
  refine ⟨fun h ↦ h.2.1.symm, fun h ↦ ⟨?_, h.symm, List.nil_prefix⟩⟩
  exact (millionOf_eq_of_thousandOf_eq h).symm

section Levels

variable {bucket : Finset Path} {heights : Finset ℕ} (hbucket : HoldsBlocks bucket heights)
  (hpos : ∀ height ∈ heights, 1 ≤ height)

include hbucket hpos

/-- The keys of the bucket, cut after a directory. -/
theorem HoldsBlocks.mem_iff {key : Path} :
    key ∈ bucket ↔ ∃ height ∈ heights,
      key = firstDir height ++ (entryName true (thousandOf height) ++ '/' ::
        entryName false height) := by
  have hkey : ∀ height, entryName true (millionOf height) ++ '/' ::
      (entryName true (thousandOf height) ++ '/' :: entryName false height) =
        firstDir height ++ (entryName true (thousandOf height) ++ '/' ::
          entryName false height) := by
    intro height
    rw [firstDir, levelName_true, List.append_assoc, List.singleton_append]
  rw [hbucket key]
  refine exists_congr fun height ↦ and_congr_right fun hheight ↦ ?_
  rw [toList_rmpPath (hpos height hheight), hkey, Option.some.injEq]
  exact eq_comm

/-- The first level: the millions. -/
theorem HoldsBlocks.firstLevel (name : Path) :
    (∃ key ∈ bucket, [] <+: key ∧ listedName [] key = name) ↔
      ∃ number ∈ heights.image millionOf, name = [] ++ levelName true number := by
  have hlisted : ∀ height, listedName [] (firstDir height ++
      (entryName true (thousandOf height) ++ '/' :: entryName false height)) =
        [] ++ levelName true (millionOf height) := by
    intro height
    rw [List.nil_append, firstDir, levelName_true, List.append_assoc, List.singleton_append,
      listedName_nil_of_slash (isName_entryName _ _).2]
  constructor
  · rintro ⟨key, hkey, -, rfl⟩
    obtain ⟨height, hheight, rfl⟩ := (hbucket.mem_iff hpos).1 hkey
    exact ⟨_, Finset.mem_image_of_mem _ hheight, hlisted height⟩
  · rintro ⟨number, hnumber, rfl⟩
    obtain ⟨height, hheight, rfl⟩ := Finset.mem_image.1 hnumber
    exact ⟨_, (hbucket.mem_iff hpos).2 ⟨height, hheight, rfl⟩, List.nil_prefix, hlisted height⟩

/-- The second level: the thousands of a million. -/
theorem HoldsBlocks.secondLevel (height : ℕ) (name : Path) :
    (∃ key ∈ bucket, firstDir height <+: key ∧ listedName (firstDir height) key = name) ↔
      ∃ number ∈ (heights.filter fun other ↦ millionOf other = millionOf height).image thousandOf,
        name = firstDir height ++ levelName true number := by
  have hlisted : ∀ other, millionOf other = millionOf height →
      listedName (firstDir height) (firstDir other ++
        (entryName true (thousandOf other) ++ '/' :: entryName false other)) =
        firstDir height ++ levelName true (thousandOf other) := by
    intro other hother
    rw [firstDir, firstDir, hother]
    exact listedName_of_slash _ (isName_entryName _ _).2 _
  constructor
  · rintro ⟨key, hkey, hstarts, rfl⟩
    obtain ⟨other, hother, rfl⟩ := (hbucket.mem_iff hpos).1 hkey
    have hmillion := (firstDir_isPrefix_iff _).1 hstarts
    exact ⟨_, Finset.mem_image_of_mem _ (Finset.mem_filter.2 ⟨hother, hmillion⟩),
      hlisted other hmillion⟩
  · rintro ⟨number, hnumber, rfl⟩
    obtain ⟨other, hother, rfl⟩ := Finset.mem_image.1 hnumber
    obtain ⟨hother, hmillion⟩ := Finset.mem_filter.1 hother
    exact ⟨_, (hbucket.mem_iff hpos).2 ⟨other, hother, rfl⟩, (firstDir_isPrefix_iff _).2 hmillion,
      hlisted other hmillion⟩

/-- The third level: the blocks of a thousand. -/
theorem HoldsBlocks.thirdLevel (height : ℕ) (name : Path) :
    (∃ key ∈ bucket, secondDir height <+: key ∧ listedName (secondDir height) key = name) ↔
      ∃ number ∈ heights.filter fun other ↦ thousandOf other = thousandOf height,
        name = secondDir height ++ levelName false number := by
  have hkey : ∀ other, firstDir other ++
      (entryName true (thousandOf other) ++ '/' :: entryName false other) =
        secondDir other ++ entryName false other := by
    intro other
    rw [secondDir, levelName_true, List.append_assoc, List.append_assoc, List.singleton_append]
  -- blocks of one thousand are of one million, so both directories are the same
  have hlisted : ∀ other, thousandOf other = thousandOf height →
      listedName (secondDir height) (secondDir other ++ entryName false other) =
        secondDir height ++ levelName false other := by
    intro other hother
    have hdir : secondDir other = secondDir height := by
      rw [secondDir, secondDir, firstDir, firstDir, hother, millionOf_eq_of_thousandOf_eq hother]
    rw [hdir, levelName_false]
    exact listedName_of_name _ (isName_entryName _ _).2
  constructor
  · rintro ⟨key, hmem, hstarts, rfl⟩
    obtain ⟨other, hother, rfl⟩ := (hbucket.mem_iff hpos).1 hmem
    rw [hkey] at hstarts ⊢
    have hthousand := (secondDir_isPrefix_iff _).1 hstarts
    exact ⟨other, Finset.mem_filter.2 ⟨hother, hthousand⟩, hlisted other hthousand⟩
  · rintro ⟨other, hother, rfl⟩
    obtain ⟨hother, hthousand⟩ := Finset.mem_filter.1 hother
    refine ⟨_, (hbucket.mem_iff hpos).2 ⟨other, hother, rfl⟩, ?_, ?_⟩
    · rw [hkey]
      exact (secondDir_isPrefix_iff _).2 hthousand
    · rw [hkey]
      exact hlisted other hthousand

end Levels

/-! ### The sizes of the levels -/

theorem card_le_of_subset_image {numbers : Finset ℕ} (f : ℕ → ℕ)
    (h : ∀ number ∈ numbers, ∃ i < maxKeys, f i = number) : numbers.card ≤ maxKeys := by
  have hsub : numbers ⊆ (Finset.range maxKeys).image f := by
    intro number hnumber
    obtain ⟨i, hi, rfl⟩ := h number hnumber
    exact Finset.mem_image_of_mem _ (Finset.mem_range.2 hi)
  calc numbers.card ≤ ((Finset.range maxKeys).image f).card := Finset.card_le_card hsub
    _ ≤ (Finset.range maxKeys).card := Finset.card_image_le
    _ = maxKeys := Finset.card_range _

/-- Up to a billion there are a thousand millions. -/
theorem card_firstLevel {heights : Finset ℕ} (hle : ∀ height ∈ heights, height ≤ 1000000000)
    (hpos : ∀ height ∈ heights, 1 ≤ height) : (heights.image millionOf).card ≤ maxKeys := by
  refine card_le_of_subset_image (fun i ↦ i * 1000000) fun number hnumber ↦ ?_
  obtain ⟨height, hheight, rfl⟩ := Finset.mem_image.1 hnumber
  have hle := hle height hheight
  have hpos := hpos height hheight
  exact ⟨(height - 1) / 1000000, by rw [maxKeys]; omega, rfl⟩

/-- A million has a thousand thousands. -/
theorem card_secondLevel (heights : Finset ℕ) (height : ℕ) :
    ((heights.filter fun other ↦ millionOf other = millionOf height).image thousandOf).card ≤
      maxKeys := by
  refine card_le_of_subset_image (fun i ↦ millionOf height + i * 1000) fun number hnumber ↦ ?_
  obtain ⟨other, hother, rfl⟩ := Finset.mem_image.1 hnumber
  have hmillion := (Finset.mem_filter.1 hother).2
  have hlt : (other - 1) / 1000 % 1000 < 1000 := Nat.mod_lt _ (by decide)
  refine ⟨(other - 1) / 1000 % 1000, hlt, ?_⟩
  show millionOf height + (other - 1) / 1000 % 1000 * 1000 = thousandOf other
  rw [← hmillion, millionOf, thousandOf]
  omega

/-- A thousand has a thousand blocks. -/
theorem card_thirdLevel {heights : Finset ℕ} (hpos : ∀ height ∈ heights, 1 ≤ height)
    (height : ℕ) :
    (heights.filter fun other ↦ thousandOf other = thousandOf height).card ≤ maxKeys := by
  refine card_le_of_subset_image (fun i ↦ thousandOf height + i + 1) fun other hother ↦ ?_
  obtain ⟨hmem, hthousand⟩ := Finset.mem_filter.1 hother
  have hpos := hpos other hmem
  have hlt : (other - 1) % 1000 < 1000 := Nat.mod_lt _ (by decide)
  refine ⟨(other - 1) % 1000, hlt, ?_⟩
  show thousandOf height + (other - 1) % 1000 + 1 = other
  rw [← hthousand, thousandOf]
  omega

/-- **The descent finds the latest block.** A bucket holds the blocks of some heights up to a
billion: the three listings of the descent are complete, and it ends at the largest height. -/
theorem findLatestBlockNumber_eq {client : Path → Option ListObjectsOutput}
    {bucket : Finset Path} {heights : Finset ℕ} (hne : heights.Nonempty)
    (hpos : ∀ height ∈ heights, 1 ≤ height) (hle : ∀ height ∈ heights, height ≤ 1000000000)
    (hbucket : HoldsBlocks bucket heights) (hserves : Serves client bucket) :
    ∃ outputs : List ListObjectsOutput,
      (findLatestBlockNumber client).run.run [] = (some (heights.max' hne), outputs) ∧
        outputs.length = 3 ∧ ∀ output ∈ outputs, output.isTruncated = false := by
  set top := heights.max' hne
  have htop : top ∈ heights := heights.max'_mem hne
  have hbound : top < u64Size := (hle top htop).trans_lt (by decide)
  -- the directories of the highest block are the largest ones of their levels
  have hgreatest : IsGreatest (heights : Set ℕ) top := heights.isGreatest_max' hne
  have hgreatest₁ : IsGreatest (heights.image millionOf : Set ℕ) (millionOf top) := by
    rw [Finset.coe_image]
    exact Monotone.map_isGreatest (fun _ _ ↦ millionOf_mono) hgreatest
  have hgreatest₂ : IsGreatest ((heights.filter fun other ↦
      millionOf other = millionOf top).image thousandOf : Set ℕ) (thousandOf top) := by
    rw [Finset.coe_image, Finset.coe_filter]
    exact Monotone.map_isGreatest (fun _ _ ↦ thousandOf_mono)
      ⟨⟨htop, rfl⟩, fun other hother ↦ hgreatest.2 hother.1⟩
  have hgreatest₃ : IsGreatest (heights.filter fun other ↦
      thousandOf other = thousandOf top : Set ℕ) top := by
    rw [Finset.coe_filter]
    exact ⟨⟨htop, rfl⟩, fun other hother ↦ hgreatest.2 hother.1⟩
  obtain ⟨output₁, htruncated₁, hrun₁⟩ := run_pickPathWithHighestNumber_level (.inl rfl)
    (card_firstLevel hle hpos) (hbucket.firstLevel hpos) hserves hgreatest₁
    ((millionOf_le top).trans_lt hbound)
  rw [List.nil_append, ← firstDir] at hrun₁
  obtain ⟨output₂, htruncated₂, hrun₂⟩ := run_pickPathWithHighestNumber_level
    (isDirectory_firstDir top) (card_secondLevel heights top) (hbucket.secondLevel hpos top)
    hserves hgreatest₂ ((thousandOf_le top).trans_lt hbound)
  obtain ⟨output₃, htruncated₃, hrun₃⟩ := run_pickPathWithHighestNumber_level
    (isDirectory_append_levelName _ _) (card_thirdLevel hpos top) (hbucket.thirdLevel hpos top)
    hserves hgreatest₃ hbound
  rw [← secondDir] at hrun₂
  refine ⟨[output₁, output₂, output₃], ?_, rfl, by simp [htruncated₁, htruncated₂, htruncated₃]⟩
  exact run_findLatestBlockNumber client (hrun₁ _) (hrun₂ _) (hrun₃ _)

/-- Names that the order of the characters puts differently: `1000` comes before `999`. -/
theorem findLatestBlockNumber_eq_mixedNames :
    ∃ outputs : List ListObjectsOutput,
      (findLatestBlockNumber fun dir ↦
        some (listing (bucketOf {999, 1000, 999999, 1000001}) dir)).run.run [] =
          (some 1000001, outputs) ∧
        outputs.length = 3 ∧ ∀ output ∈ outputs, output.isTruncated = false :=
  findLatestBlockNumber_eq ⟨999, by decide⟩ (by decide) (by decide) (holdsBlocks_bucketOf _)
    (serves_listing _)

end RethHl.PseudoPeer.S3
