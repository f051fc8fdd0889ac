import Mathlib.Data.List.Sort
import Mathlib.Order.Bounds.Basic
import RethHl.Data.SlashPath
import RethHl.Node.Types

/-!
# Where the sources keep their blocks

The file of a block lies two directories deep: the first one is named by the million that the height
before the block is in, the second one by the thousand. `rmpPath` is the path of the file. To find
the latest block, a source lists a directory and takes the entry with the largest **number** in its
name, whatever the order of the names (`nameWithLargestNumber`).

A listing whose numbered entries are the names of some numbers gives the largest of them
(`nameWithLargestNumber_eq`), and the largest directories contain the largest block, since both
numbers of the directories grow with the height (`millionOf_mono`, `thousandOf_mono`).
-/

namespace RethHl.PseudoPeer

open SlashPath

/-- Subtraction of 64-bit numbers, `none` on underflow. -/
def checkedSub (a b : ℕ) : Option ℕ :=
  if b ≤ a then some (a - b) else none

/-- `rmp_path`: where a source keeps the block of a height, `none` on underflow. -/
def rmpPath (height : ℕ) : Option String :=
  (checkedSub height 1).map fun before ↦
    toString (before / 1000000 * 1000000) ++ "/" ++ toString (before / 1000 * 1000) ++ "/" ++
      toString height ++ ".rmp.lz4"

theorem isSome_rmpPath {height : ℕ} (h : 1 ≤ height) : (rmpPath height).isSome := by
  rw [rmpPath, checkedSub, if_pos h]
  rfl

/-- The end of the name of a block file. -/
def rmpSuffix : List Char := ".rmp.lz4".toList

/-- The number that the name of a directory is, or that of a block file starts with. -/
def stemNumber (isDir : Bool) (file : Path) : Option ℕ :=
  (if isDir then some file else file.dropSuffix? rmpSuffix).bind (parse u64Size)

/-- The number of a path: that of its last component. A slash at the end is ignored. -/
def numberOfName (isDir : Bool) (fileRaw : Path) : Option ℕ :=
  let file := (fileRaw.dropSuffix? ['/']).getD fileRaw
  stemNumber isDir (lastComponent file)

/-- `name_with_largest_number`. -/
def nameWithLargestNumber (files : List Path) (isDir : Bool) : Option (ℕ × Path) :=
  let files := files.filterMap fun fileRaw ↦
    (numberOfName isDir fileRaw).map fun number ↦ (number, fileRaw)
  (files.mergeSort fun a b ↦ a.1 ≤ b.1).getLast?

/-! ### The largest number -/

theorem mem_numbered {files : List Path} {isDir : Bool} {entry : ℕ × Path} :
    (entry ∈ files.filterMap fun fileRaw ↦
        (numberOfName isDir fileRaw).map fun number ↦ (number, fileRaw)) ↔
      entry.2 ∈ files ∧ numberOfName isDir entry.2 = some entry.1 := by
  rw [List.mem_filterMap]
  constructor
  · rintro ⟨file, hfile, hentry⟩
    obtain ⟨number, hnumber, rfl⟩ := Option.map_eq_some_iff.1 hentry
    exact ⟨hfile, hnumber⟩
  · rintro ⟨hfile, hnumber⟩
    exact ⟨entry.2, hfile, by rw [hnumber]; rfl⟩

/-- The entry that is taken is numbered, and no entry has a larger number. -/
theorem nameWithLargestNumber_spec {files : List Path} {isDir : Bool} {entry : ℕ × Path}
    (h : nameWithLargestNumber files isDir = some entry) :
    entry.2 ∈ files ∧ numberOfName isDir entry.2 = some entry.1 ∧
      ∀ file ∈ files, ∀ number, numberOfName isDir file = some number → number ≤ entry.1 := by
  obtain ⟨front, hfront⟩ := List.getLast?_eq_some_iff.1 h
  have hmem : ∀ other : ℕ × Path, other ∈ front ++ [entry] ↔
      other.2 ∈ files ∧ numberOfName isDir other.2 = some other.1 := by
    intro other
    rw [← hfront, List.mem_mergeSort, mem_numbered]
  have hsorted : (front ++ [entry]).Pairwise fun a b : ℕ × Path ↦ decide (a.1 ≤ b.1) = true := by
    rw [← hfront]
    refine List.pairwise_mergeSort (fun a b c hab hbc ↦ ?_) (fun a b ↦ ?_) _
    · simp only [decide_eq_true_eq] at hab hbc ⊢
      exact hab.trans hbc
    · simp only [Bool.or_eq_true, decide_eq_true_eq]
      exact Nat.le_total _ _
  obtain ⟨hfile, hnumber⟩ := (hmem entry).1 (by simp)
  refine ⟨hfile, hnumber, fun file hfile number hnumber ↦ ?_⟩
  rcases List.mem_append.1 ((hmem (number, file)).2 ⟨hfile, hnumber⟩) with hother | hother
  · exact of_decide_eq_true
      ((List.pairwise_append.1 hsorted).2.2 _ hother entry (List.mem_singleton_self _))
  · rw [← List.mem_singleton.1 hother]

/-- Some entry is taken as soon as one is numbered. -/
theorem isSome_nameWithLargestNumber {files : List Path} {isDir : Bool} {file : Path} {number : ℕ}
    (hfile : file ∈ files) (hnumber : numberOfName isDir file = some number) :
    (nameWithLargestNumber files isDir).isSome := by
  have hmem : (number, file) ∈ (files.filterMap fun fileRaw ↦
      (numberOfName isDir fileRaw).map fun number ↦ (number, fileRaw)).mergeSort
        fun a b ↦ a.1 ≤ b.1 :=
    List.mem_mergeSort.2 (mem_numbered.2 ⟨hfile, hnumber⟩)
  rw [nameWithLargestNumber, Option.isSome_iff_ne_none]
  exact fun hnone ↦ List.ne_nil_of_mem hmem (List.getLast?_eq_none_iff.1 hnone)

/-- **The numbered entries are the names of a set of numbers**: the largest of them is taken. -/
theorem nameWithLargestNumber_eq {files : List Path} {isDir : Bool} {numbers : Set ℕ} {top : ℕ}
    (htop : IsGreatest numbers top) (name : ℕ → Path)
    (hname : ∀ number ∈ numbers, numberOfName isDir (name number) = some number)
    (hmem : ∀ number ∈ numbers, name number ∈ files)
    (honly : ∀ file ∈ files, (numberOfName isDir file).isSome →
      ∃ number ∈ numbers, file = name number) :
    nameWithLargestNumber files isDir = some (top, name top) := by
  obtain ⟨⟨number, file⟩, hentry⟩ := Option.isSome_iff_exists.1
    (isSome_nameWithLargestNumber (hmem _ htop.1) (hname _ htop.1))
  obtain ⟨hfile, hnumber, hle⟩ := nameWithLargestNumber_spec hentry
  obtain ⟨number', hnumber', rfl⟩ := honly file hfile (by rw [hnumber]; rfl)
  obtain rfl : number' = number := Option.some.inj ((hname _ hnumber').symm.trans hnumber)
  have heq : number' = top :=
    le_antisymm (htop.2 hnumber') (hle _ (hmem _ htop.1) _ (hname _ htop.1))
  rw [hentry, heq]

/-! ### Names of numbers -/

/-- The name of a directory or of a block file. -/
def entryName (isDir : Bool) (number : ℕ) : Path :=
  Nat.toDigits 10 number ++ if isDir then [] else rmpSuffix

theorem isName_entryName (isDir : Bool) (number : ℕ) : IsName (entryName isDir number) := by
  refine ⟨List.append_ne_nil_of_left_ne_nil Nat.toDigits_ne_nil _, fun hmem ↦ ?_⟩
  rcases List.mem_append.1 hmem with hmem | hmem
  · exact (isName_toDigits number).2 hmem
  · revert hmem
    cases isDir <;> decide

theorem stemNumber_entryName (isDir : Bool) {number : ℕ} (h : number < u64Size) :
    stemNumber isDir (entryName isDir number) = some number := by
  have hsuffix : (Nat.toDigits 10 number ++ rmpSuffix).dropSuffix? rmpSuffix =
      some (Nat.toDigits 10 number) :=
    List.dropSuffix?_eq_some_iff.2 ⟨rmpSuffix, rfl, beq_self_eq_true _⟩
  cases isDir
  · rw [stemNumber, entryName, if_neg (by decide), if_neg (by decide), hsuffix]
    exact parse_toDigits h
  · rw [stemNumber, entryName, if_pos rfl, if_pos rfl, List.append_nil]
    exact parse_toDigits h

theorem numberOfName_append_slash (isDir : Bool) (path : Path) :
    numberOfName isDir (path ++ ['/']) = stemNumber isDir (lastComponent path) := by
  have hdrop : (path ++ ['/']).dropSuffix? ['/'] = some path :=
    List.dropSuffix?_eq_some_iff.2 ⟨['/'], rfl, beq_self_eq_true _⟩
  rw [numberOfName, hdrop]
  rfl

theorem numberOfName_append_name (isDir : Bool) (path : Path) {name : Path} (h : IsName name) :
    numberOfName isDir (path ++ name) = stemNumber isDir (lastComponent (path ++ name)) := by
  have hdrop : (path ++ name).dropSuffix? ['/'] = none := by
    rw [Option.eq_none_iff_forall_ne_some]
    intro front hfront
    obtain ⟨slash, happend, hslash⟩ := List.dropSuffix?_eq_some_iff.1 hfront
    obtain rfl : slash = ['/'] := beq_iff_eq.1 hslash
    have hlast := congrArg List.getLast? happend
    rw [List.getLast?_append_of_ne_nil _ h.1, List.getLast?_concat] at hlast
    exact h.2 (List.mem_of_getLast? hlast)
  rw [numberOfName, hdrop]
  rfl

/-! ### The directories of a block -/

/-- The first directory of a block. -/
def millionOf (height : ℕ) : ℕ := (height - 1) / 1000000 * 1000000

/-- The second directory of a block. -/
def thousandOf (height : ℕ) : ℕ := (height - 1) / 1000 * 1000

theorem millionOf_mono {a b : ℕ} (h : a ≤ b) : millionOf a ≤ millionOf b := by
  rw [millionOf, millionOf]
  omega

theorem thousandOf_mono {a b : ℕ} (h : a ≤ b) : thousandOf a ≤ thousandOf b := by
  rw [thousandOf, thousandOf]
  omega

/-- The second directory decides on the first one. -/
theorem millionOf_eq_of_thousandOf_eq {a b : ℕ} (h : thousandOf a = thousandOf b) :
    millionOf a = millionOf b := by
  have hthousand : (a - 1) / 1000 = (b - 1) / 1000 := Nat.eq_of_mul_eq_mul_right (by decide) h
  have hdiv : ∀ n : ℕ, n / 1000000 = n / 1000 / 1000 := fun n ↦ by rw [Nat.div_div_eq_div_mul]
  rw [millionOf, millionOf, hdiv, hdiv, hthousand]

theorem millionOf_le (height : ℕ) : millionOf height ≤ height := by
  rw [millionOf]
  omega

theorem thousandOf_le (height : ℕ) : thousandOf height ≤ height := by
  rw [thousandOf]
  omega

theorem toList_rmpPath {height : ℕ} (h : 1 ≤ height) :
    (rmpPath height).map String.toList = some (entryName true (millionOf height) ++ '/' ::
      (entryName true (thousandOf height) ++ '/' :: entryName false height)) := by
  have htoList : ∀ n : ℕ, (toString n).toList = Nat.toDigits 10 n := fun n ↦ by
    rw [Nat.toString_eq_repr, Nat.toList_repr]
  rw [rmpPath, checkedSub, if_pos h, Option.map_some, Option.map_some]
  simp only [String.toList_append, htoList]
  simp only [entryName, millionOf, thousandOf, List.append_assoc, if_pos]
  rfl

end RethHl.PseudoPeer
