import Mathlib.Data.Finset.Max
import RethHl.Data.FileSystem
import RethHl.PseudoPeer.Sources.Utils

/-!
# The latest block in a directory

`LocalBlockSource` reads the block of a height from the ingest directory joined with `rmpPath`. To
find the latest block it lists directories, and an entry of a listing comes with the **whole** path
of the directory before it. That path is joined to the ingest directory again.

For an absolute ingest directory this changes nothing. A relative one is followed once more for each
level of the descent: `data` becomes `data/data/0`, which is not there, and to list it panics
(`findLatestBlockNumber_panics`). So the latest block is found exactly when the ingest directory is
absolute, or is not empty and leads, from where it is, to the same directories of blocks again
(`findsLatest_iff`).
-/

namespace RethHl.PseudoPeer.Local

open SlashPath

/-- What stops the descent: a directory that cannot be listed. -/
inductive Panic where
  | readDir (dir : Path)
  deriving DecidableEq, Repr

/-- A descent, with the directories that were listed. -/
abbrev Descent := OptionT (StateT (List Path) (Except Panic))

section Descent

variable {Node : Type} (fs : FileSystem Node)

/-- List a directory. -/
def readDir (dir : Path) : Descent (List Path) :=
  match fs.readDir dir with
  | none => throwThe Panic (.readDir dir)
  | some files => do
    modify fun listed ↦ listed ++ [dir]
    return files

/-- `LocalBlockSource::pick_path_with_highest_number`. -/
def pickPathWithHighestNumber (dir : Path) (isDir : Bool) : Descent (ℕ × Path) := do
  let files ← readDir fs dir
  let files := files.filter fun path ↦ fs.isDir path == isDir
  OptionT.mk (pure (nameWithLargestNumber files isDir))

/-- `LocalBlockSource::find_latest_block_number`. -/
def findLatestBlockNumber (dir : Path) : Descent ℕ := do
  let (_, firstLevel) ← pickPathWithHighestNumber fs dir true
  let (_, secondLevel) ← pickPathWithHighestNumber fs (join dir firstLevel) true
  let (blockNumber, _) ← pickPathWithHighestNumber fs (join dir secondLevel) false
  return blockNumber

/-- The path that `LocalBlockSource::collect_block` reads. -/
def blockPath (dir : Path) (height : ℕ) : Option Path :=
  (rmpPath height).map fun path ↦ join dir path.toList

theorem run_pickPathWithHighestNumber_of_none {dir : Path} (h : fs.readDir dir = none)
    (isDir : Bool) (listed : List Path) :
    (pickPathWithHighestNumber fs dir isDir).run.run listed = .error (.readDir dir) := by
  rw [pickPathWithHighestNumber, readDir, h]
  rfl

theorem run_pickPathWithHighestNumber_of_some {dir : Path} {files : List Path}
    (h : fs.readDir dir = some files) (isDir : Bool) (listed : List Path) :
    (pickPathWithHighestNumber fs dir isDir).run.run listed =
      .ok (nameWithLargestNumber (files.filter fun path ↦ fs.isDir path == isDir) isDir,
        listed ++ [dir]) := by
  rw [pickPathWithHighestNumber, readDir, h]
  rfl

/-- A step that succeeds, and what follows it. -/
theorem run_bind_of_ok {α β : Type} {step : Descent α} {value : α} {listed listed' : List Path}
    (h : step.run.run listed = .ok (some value, listed')) (next : α → Descent β) :
    (step >>= next).run.run listed = (next value).run.run listed' := by
  rw [OptionT.run_bind, Option.elimM, StateT.run_bind, h]
  rfl

/-- A step of a descent that succeeds has succeeded. -/
theorem exists_of_run_bind_ok {α β : Type} {step : Descent α} {next : α → Descent β} {result : β}
    {listed listed' : List Path}
    (h : (step >>= next).run.run listed = .ok (some result, listed')) :
    ∃ value listed₁, step.run.run listed = .ok (some value, listed₁) ∧
      (next value).run.run listed₁ = .ok (some result, listed') := by
  rw [OptionT.run_bind, Option.elimM, StateT.run_bind] at h
  rcases hstep : step.run.run listed with panic | ⟨value | value, listed₁⟩
  · rw [hstep] at h
    cases h
  · rw [hstep] at h
    cases h
  · rw [hstep] at h
    exact ⟨value, listed₁, rfl, h⟩

/-- The descent, from its three levels. -/
theorem run_findLatestBlockNumber {dir : Path} {first second third : ℕ × Path}
    {listed₁ listed₂ listed₃ : List Path}
    (hfirst : (pickPathWithHighestNumber fs dir true).run.run [] = .ok (some first, listed₁))
    (hsecond : (pickPathWithHighestNumber fs (join dir first.2) true).run.run listed₁ =
      .ok (some second, listed₂))
    (hthird : (pickPathWithHighestNumber fs (join dir second.2) false).run.run listed₂ =
      .ok (some third, listed₃)) :
    (findLatestBlockNumber fs dir).run.run [] = .ok (some third.1, listed₃) := by
  rw [findLatestBlockNumber, run_bind_of_ok hfirst, run_bind_of_ok hsecond,
    run_bind_of_ok hthird]
  rfl

/-- Every level lists its directory. -/
theorem listed_of_pickPathWithHighestNumber {dir : Path} {isDir : Bool} {listed listed' : List Path}
    {result : Option (ℕ × Path)}
    (h : (pickPathWithHighestNumber fs dir isDir).run.run listed = .ok (result, listed')) :
    listed' = listed ++ [dir] := by
  rcases hread : fs.readDir dir with - | files
  · rw [run_pickPathWithHighestNumber_of_none fs hread] at h
    cases h
  · rw [run_pickPathWithHighestNumber_of_some fs hread] at h
    cases h
    rfl

end Descent

/-! ### Directories of blocks -/

section Level

variable {Node : Type} {fs : FileSystem Node}

/-- Whether an entry of a directory is a directory. -/
def childIsDir (fs : FileSystem Node) (node : Node) (name : Path) : Bool :=
  ((fs.walk node name).bind fs.entries).isSome

/-- An entry of a directory whose name has a number. -/
structure Numbered (fs : FileSystem Node) (node : Node) (isDir : Bool) (name : Path) : Prop where
  mem : ∃ names, fs.entries node = some names ∧ name ∈ names
  childIsDir_eq : childIsDir fs node name = isDir
  isSome_stemNumber : (stemNumber isDir name).isSome

/-- A directory whose numbered entries are the names of some numbers. -/
structure IsLevel (fs : FileSystem Node) (node : Node) (isDir : Bool) (numbers : Set ℕ) : Prop where
  isSome_entries : (fs.entries node).isSome
  numbered : ∀ number ∈ numbers, Numbered fs node isDir (entryName isDir number)
  only : ∀ name, Numbered fs node isDir name → ∃ number ∈ numbers, name = entryName isDir number

/-- The number of an entry is that of its name. -/
theorem numberOfName_join (isDir : Bool) (dir : Path) {name : Path} (h : IsName name) :
    numberOfName isDir (join dir name) = stemNumber isDir name := by
  have hlast : lastComponent (join dir name) = name := by
    rw [lastComponent_join dir h.not_isAbsolute, lastComponent_of_notMem h.2]
  obtain ⟨front, hfront⟩ : ∃ front, join dir name = front ++ name := by
    rcases join_eq_or dir h.not_isAbsolute with ⟨-, hjoin⟩ | ⟨front, -, hjoin⟩ | ⟨-, hjoin⟩
    · exact ⟨[], hjoin⟩
    · exact ⟨front ++ ['/'], by rw [hjoin, List.append_assoc, List.singleton_append]⟩
    · exact ⟨dir ++ ['/'], by rw [hjoin, List.append_assoc, List.singleton_append]⟩
  rw [hfront, numberOfName_append_name isDir front h, ← hfront, hlast]

theorem isDir_join {dir : Path} {node : Node} (hnode : fs.locate dir = some node) {name : Path}
    (h : IsName name) : fs.isDir (join dir name) = childIsDir fs node name := by
  rw [FileSystem.isDir, fs.lookup_of_ne_nil (join_ne_nil dir h.1), fs.locate_join_name dir h,
    hnode]
  rfl

/-- **A level of the descent**: the entry with the largest number is taken. -/
theorem IsLevel.run_pickPathWithHighestNumber {dir : Path} {node : Node} {isDir : Bool}
    {numbers : Set ℕ} {top : ℕ} (hlevel : IsLevel fs node isDir numbers)
    (hnode : fs.lookup dir = some node) (htop : IsGreatest numbers top) (hbound : top < u64Size)
    (listed : List Path) :
    (pickPathWithHighestNumber fs dir isDir).run.run listed =
      .ok (some (top, join dir (entryName isDir top)), listed ++ [dir]) := by
  have hlocate : fs.locate dir = some node := by
    rw [FileSystem.lookup] at hnode
    split_ifs at hnode
    exact hnode
  obtain ⟨names, hnames⟩ := Option.isSome_iff_exists.1 hlevel.isSome_entries
  have hread : fs.readDir dir = some (names.map (join dir)) := by
    rw [FileSystem.readDir, hnode, Option.bind_some, hnames]
    rfl
  -- the whole path of an entry is parsed, and its last component alone has the number
  have hentry : nameWithLargestNumber
      ((names.map (join dir)).filter fun path ↦ fs.isDir path == isDir) isDir =
        some (top, join dir (entryName isDir top)) := by
    refine nameWithLargestNumber_eq htop (fun number ↦ join dir (entryName isDir number))
      (fun number hnumber ↦ ?_) (fun number hnumber ↦ ?_) fun file hfile hnumber ↦ ?_
    · rw [numberOfName_join isDir dir (isName_entryName _ _),
        stemNumber_entryName isDir ((htop.2 hnumber).trans_lt hbound)]
    · obtain ⟨⟨names', hnames', hmem⟩, hchild, -⟩ := hlevel.numbered number hnumber
      obtain rfl : names = names' := Option.some.inj (hnames.symm.trans hnames')
      rw [List.mem_filter, isDir_join hlocate (isName_entryName _ _), hchild]
      exact ⟨List.mem_map_of_mem hmem, beq_self_eq_true isDir⟩
    · obtain ⟨hfile, hdir⟩ := List.mem_filter.1 hfile
      obtain ⟨name, hmem, rfl⟩ := List.mem_map.1 hfile
      have hname := fs.isName_of_mem hnames hmem
      rw [isDir_join hlocate hname, beq_iff_eq] at hdir
      rw [numberOfName_join isDir dir hname] at hnumber
      obtain ⟨number, hin, rfl⟩ := hlevel.only name ⟨⟨names, hnames, hmem⟩, hdir, hnumber⟩
      exact ⟨number, hin, rfl⟩
  rw [run_pickPathWithHighestNumber_of_some fs hread, hentry]

end Level

/-! ### The ingest directory -/

/-- The name of the first directory of a block. -/
def firstName (height : ℕ) : Path := entryName true (millionOf height)

/-- The name of the second directory of a block. -/
def secondName (height : ℕ) : Path := entryName true (thousandOf height)

/-- The directories on the path of a block. -/
def blockDirs (dir : Path) (height : ℕ) : List Path :=
  [dir, join dir (firstName height), join (join dir (firstName height)) (secondName height)]

/-- A directory that holds the blocks of some heights: their files are there, and nothing else has a
number in its name. -/
structure HoldsBlocks {Node : Type} (fs : FileSystem Node) (dir : Path) (heights : Finset ℕ) :
    Prop where
  files : ∀ height ∈ heights, ∃ path node, blockPath dir height = some path ∧
    fs.lookup path = some node ∧ fs.entries node = none
  first : ∀ node, fs.locate dir = some node → ∀ name, Numbered fs node true name →
    ∃ height ∈ heights, name = firstName height
  second : ∀ height ∈ heights, ∀ node, fs.locate (join dir (firstName height)) = some node →
    ∀ name, Numbered fs node true name →
      ∃ other ∈ heights, millionOf other = millionOf height ∧ name = secondName other
  third : ∀ height ∈ heights, ∀ node,
    fs.locate (join (join dir (firstName height)) (secondName height)) = some node →
    ∀ name, Numbered fs node false name →
      ∃ other ∈ heights, thousandOf other = thousandOf height ∧ name = entryName false other

theorem isName_firstName (height : ℕ) : IsName (firstName height) := isName_entryName _ _

theorem isName_secondName (height : ℕ) : IsName (secondName height) := isName_entryName _ _

/-- The name of a number is none of the two names that are not listed. -/
theorem entryName_ne_dots (isDir : Bool) (number : ℕ) :
    entryName isDir number ≠ ['.'] ∧ entryName isDir number ≠ ['.', '.'] := by
  have hhead : (entryName isDir number).head? ≠ some '.' := by
    rw [entryName, List.head?_append_of_ne_nil _ Nat.toDigits_ne_nil]
    intro hhead
    exact notMem_toDigits (by decide) number (List.mem_of_head? hhead)
  constructor
  · intro h
    rw [h] at hhead
    exact hhead rfl
  · intro h
    rw [h] at hhead
    exact hhead rfl

section HoldsBlocks

variable {Node : Type} {fs : FileSystem Node} {dir : Path} {heights : Finset ℕ} {height : ℕ}

/-- An entry that a number leads to is listed. -/
theorem mem_entries_of_walk {node node' : Node} {isDir : Bool} {number : ℕ}
    (h : fs.walk node (entryName isDir number) = some node') :
    ∃ names, fs.entries node = some names ∧ entryName isDir number ∈ names :=
  fs.mem_of_walk h (entryName_ne_dots isDir number).1 (entryName_ne_dots isDir number).2

theorem pos_of_blockPath {path : Path} (h : blockPath dir height = some path) : 1 ≤ height := by
  by_contra hlt
  rw [blockPath, rmpPath, checkedSub, if_neg hlt] at h
  cases h

/-- Where the path of a block leads. -/
theorem lookup_blockPath {path : Path} (h : blockPath dir height = some path) :
    fs.lookup path = (fs.locate dir).bind fun node ↦
      (fs.walk node (firstName height)).bind fun first ↦
        (fs.walk first (secondName height)).bind fun second ↦
          fs.walk second (entryName false height) := by
  have hpath : ((rmpPath height).map String.toList).map (join dir) = some path := by
    rw [Option.map_map]
    exact h
  rw [toList_rmpPath (pos_of_blockPath h), Option.map_some, Option.some.injEq] at hpath
  have hnames := isName_entryName true (millionOf height)
  have hcomponents : components (entryName true (millionOf height) ++ '/' ::
      (entryName true (thousandOf height) ++ '/' :: entryName false height)) =
        [firstName height, secondName height, entryName false height] := by
    rw [components_append_cons, components_append_cons, components_name hnames,
      components_name (isName_entryName _ _), components_name (isName_entryName _ _)]
    rfl
  rw [← hpath, fs.lookup_of_ne_nil (join_ne_nil dir (by simp)),
    fs.locate_join dir (hnames.not_isAbsolute_append _), hcomponents]
  simp only [FileSystem.follow_cons, FileSystem.follow_nil, Option.bind_fun_some]

/-- The nodes on the path of a block. -/
theorem HoldsBlocks.exists_walk (hblocks : HoldsBlocks fs dir heights) {node : Node}
    (hnode : fs.locate dir = some node) (hheight : height ∈ heights) :
    ∃ first second file, fs.walk node (firstName height) = some first ∧
      fs.walk first (secondName height) = some second ∧
      fs.walk second (entryName false height) = some file ∧ fs.entries file = none := by
  obtain ⟨path, file, hpath, hfile, hentries⟩ := hblocks.files height hheight
  rw [lookup_blockPath hpath, hnode, Option.bind_some] at hfile
  obtain ⟨first, hfirst, hfile⟩ := Option.bind_eq_some_iff.1 hfile
  obtain ⟨second, hsecond, hfile⟩ := Option.bind_eq_some_iff.1 hfile
  exact ⟨first, second, file, hfirst, hsecond, hfile, hentries⟩

/-- An entry of a directory of blocks that is a directory, or one that is not. -/
theorem numbered_of_walk {node node' : Node} {isDir : Bool} {number : ℕ}
    (hwalk : fs.walk node (entryName isDir number) = some node')
    (hdir : (fs.entries node').isSome = isDir) (hbound : number < u64Size) :
    Numbered fs node isDir (entryName isDir number) where
  mem := mem_entries_of_walk hwalk
  childIsDir_eq := by
    rw [childIsDir, hwalk, Option.bind_some, hdir]
  isSome_stemNumber := by
    rw [stemNumber_entryName isDir hbound]
    rfl

theorem isSome_entries_of_walk {node node' : Node} {isDir : Bool} {number : ℕ}
    (hwalk : fs.walk node (entryName isDir number) = some node') : (fs.entries node).isSome := by
  obtain ⟨names, hnames, -⟩ := mem_entries_of_walk hwalk
  rw [hnames]
  rfl

section Levels

variable (hblocks : HoldsBlocks fs dir heights) (hbound : ∀ height ∈ heights, height < u64Size)
  {node : Node} (hnode : fs.locate dir = some node) (hheight : height ∈ heights)

include hblocks hbound hnode hheight

/-- The first level: the millions. -/
theorem HoldsBlocks.firstLevel : IsLevel fs node true (millionOf '' heights) where
  isSome_entries := by
    obtain ⟨first, -, -, hfirst, -⟩ := hblocks.exists_walk hnode hheight
    exact isSome_entries_of_walk hfirst
  numbered := by
    rintro _ ⟨other, hother, rfl⟩
    obtain ⟨first, second, -, hfirst, hsecond, -⟩ := hblocks.exists_walk hnode hother
    exact numbered_of_walk hfirst (isSome_entries_of_walk hsecond)
      ((millionOf_le other).trans_lt (hbound other hother))
  only := by
    intro name hname
    obtain ⟨other, hother, rfl⟩ := hblocks.first node hnode name hname
    exact ⟨millionOf other, ⟨other, hother, rfl⟩, rfl⟩

/-- The second level: the thousands of a million. -/
theorem HoldsBlocks.secondLevel {first : Node}
    (hfirst : fs.walk node (firstName height) = some first) :
    IsLevel fs first true
      (thousandOf '' {other | other ∈ heights ∧ millionOf other = millionOf height}) where
  isSome_entries := by
    obtain ⟨first', second, -, hfirst', hsecond, -⟩ := hblocks.exists_walk hnode hheight
    obtain rfl : first = first' := Option.some.inj (hfirst.symm.trans hfirst')
    exact isSome_entries_of_walk hsecond
  numbered := by
    rintro _ ⟨other, ⟨hother, hmillion⟩, rfl⟩
    obtain ⟨first', second, file, hfirst', hsecond, hfile, -⟩ := hblocks.exists_walk hnode hother
    rw [firstName, hmillion, ← firstName] at hfirst'
    obtain rfl : first = first' := Option.some.inj (hfirst.symm.trans hfirst')
    exact numbered_of_walk hsecond (isSome_entries_of_walk hfile)
      ((thousandOf_le other).trans_lt (hbound other hother))
  only := by
    intro name hname
    have hlocate : fs.locate (join dir (firstName height)) = some first := by
      rw [fs.locate_join_name dir (isName_firstName height), hnode, Option.bind_some, hfirst]
    obtain ⟨other, hother, hmillion, rfl⟩ := hblocks.second height hheight first hlocate name hname
    exact ⟨thousandOf other, ⟨other, ⟨hother, hmillion⟩, rfl⟩, rfl⟩

/-- The third level: the blocks of a thousand. -/
theorem HoldsBlocks.thirdLevel {first second : Node}
    (hfirst : fs.walk node (firstName height) = some first)
    (hsecond : fs.walk first (secondName height) = some second) :
    IsLevel fs second false {other | other ∈ heights ∧ thousandOf other = thousandOf height} where
  isSome_entries := by
    obtain ⟨first', second', file, hfirst', hsecond', hfile, -⟩ :=
      hblocks.exists_walk hnode hheight
    obtain rfl : first = first' := Option.some.inj (hfirst.symm.trans hfirst')
    obtain rfl : second = second' := Option.some.inj (hsecond.symm.trans hsecond')
    exact isSome_entries_of_walk hfile
  numbered := by
    rintro other ⟨hother, hthousand⟩
    obtain ⟨first', second', file, hfirst', hsecond', hfile, hentries⟩ :=
      hblocks.exists_walk hnode hother
    rw [firstName, millionOf_eq_of_thousandOf_eq hthousand, ← firstName] at hfirst'
    obtain rfl : first = first' := Option.some.inj (hfirst.symm.trans hfirst')
    rw [secondName, hthousand, ← secondName] at hsecond'
    obtain rfl : second = second' := Option.some.inj (hsecond.symm.trans hsecond')
    exact numbered_of_walk hfile (by rw [hentries]; rfl) (hbound other hother)
  only := by
    intro name hname
    have hlocate : fs.locate (join (join dir (firstName height)) (secondName height)) =
        some second := by
      rw [fs.locate_join_name _ (isName_secondName height),
        fs.locate_join_name dir (isName_firstName height), hnode, Option.bind_some, hfirst,
        Option.bind_some, hsecond]
    obtain ⟨other, hother, hthousand, rfl⟩ :=
      hblocks.third height hheight second hlocate name hname
    exact ⟨other, ⟨hother, hthousand⟩, rfl⟩

end Levels

end HoldsBlocks

/-! ### When the latest block is found -/

section FindsLatest

variable {Node : Type} (fs : FileSystem Node) (dir : Path) (height : ℕ)

/-- The descent ends at a height, through the directories that its block is read from. -/
def FindsLatest : Prop :=
  ∃ listed, (findLatestBlockNumber fs dir).run.run [] = .ok (some height, listed) ∧
    listed.map fs.lookup = (blockDirs dir height).map fs.lookup

/-- A path that leads back to the directories of a block: followed again from where it leads, and
once more from there, it comes to the same first and to the same second directory. -/
def LeadsBack : Prop :=
  ∃ node once twice first second,
    fs.locate dir = some node ∧ fs.follow node (components dir) = some once ∧
      fs.follow once (components dir) = some twice ∧
      fs.walk node (firstName height) = some first ∧
      fs.walk once (firstName height) = some first ∧
      fs.walk first (secondName height) = some second ∧
      fs.follow twice [firstName height, secondName height] = some second

/-- The second directory that is listed. -/
def secondListed : Path := join dir (join dir (firstName height))

/-- The third directory that is listed. -/
def thirdListed : Path := join dir (join (secondListed dir height) (secondName height))

end FindsLatest

section Main

variable {Node : Type} {fs : FileSystem Node} {dir : Path} {heights : Finset ℕ} {top : ℕ}

theorem run_pickPathWithHighestNumber_nil (isDir : Bool) (listed : List Path) :
    (pickPathWithHighestNumber fs [] isDir).run.run listed = .error (.readDir []) :=
  run_pickPathWithHighestNumber_of_none fs rfl isDir listed

section Nodes

variable {node first second : Node} (hnode : fs.locate dir = some node)
  (hfirst : fs.walk node (firstName top) = some first)
  (hsecond : fs.walk first (secondName top) = some second)

include hnode hfirst hsecond

/-- Where the directories of a block are. -/
theorem map_lookup_blockDirs (hdir : dir ≠ []) :
    (blockDirs dir top).map fs.lookup = [some node, some first, some second] := by
  have hlocate : fs.locate (join dir (firstName top)) = some first := by
    rw [fs.locate_join_name dir (isName_firstName top), hnode, Option.bind_some, hfirst]
  rw [blockDirs, List.map_cons, List.map_cons, List.map_cons, List.map_nil,
    fs.lookup_of_ne_nil hdir, fs.lookup_of_ne_nil (join_ne_nil _ (isName_firstName top).1),
    fs.lookup_of_ne_nil (join_ne_nil _ (isName_secondName top).1), hnode, hlocate,
    fs.locate_join_name _ (isName_secondName top), hlocate, Option.bind_some, hsecond]

/-- From an absolute path the directories of the block are listed. -/
theorem lookup_listed_of_isAbsolute (h : isAbsolute dir = true) :
    fs.lookup (secondListed dir top) = some first ∧
      fs.lookup (thirdListed dir top) = some second := by
  have hdir : dir ≠ [] := by
    rintro rfl
    cases h
  have hlisted₂ : secondListed dir top = join dir (firstName top) := by
    refine join_of_isAbsolute dir ?_
    rw [isAbsolute_join dir (isName_firstName top).not_isAbsolute, h]
  have hlisted₃ : thirdListed dir top =
      join (join dir (firstName top)) (secondName top) := by
    rw [thirdListed, hlisted₂]
    refine join_of_isAbsolute dir ?_
    rw [isAbsolute_join _ (isName_secondName top).not_isAbsolute,
      isAbsolute_join dir (isName_firstName top).not_isAbsolute, h]
  have hdirs := map_lookup_blockDirs hnode hfirst hsecond hdir
  simp only [blockDirs, List.map_cons, List.map_nil, List.cons.injEq] at hdirs
  rw [hlisted₂, hlisted₃]
  exact ⟨hdirs.2.1, hdirs.2.2.1⟩

/-- From a relative path they are listed when it leads back to them. -/
theorem lookup_listed_iff (h : isAbsolute dir = false) :
    fs.lookup (secondListed dir top) = some first ∧
        fs.lookup (thirdListed dir top) = some second ↔ LeadsBack fs dir top := by
  have hrelative : isAbsolute (join dir (firstName top)) = false := by
    rw [isAbsolute_join dir (isName_firstName top).not_isAbsolute, h]
  -- each level of the descent follows the ingest directory once more
  have hlookup₂ : fs.lookup (secondListed dir top) =
      (fs.follow node (components dir)).bind fun once ↦ fs.walk once (firstName top) := by
    rw [secondListed, fs.lookup_of_ne_nil (join_ne_nil _ (join_ne_nil _ (isName_firstName top).1)),
      fs.locate_join dir hrelative, hnode, Option.bind_some,
      components_join dir (isName_firstName top).not_isAbsolute, fs.follow_append,
      components_name (isName_firstName top)]
    simp only [FileSystem.follow_singleton]
  have hlookup₃ : fs.lookup (thirdListed dir top) =
      (fs.follow node (components dir)).bind fun once ↦
        (fs.follow once (components dir)).bind fun twice ↦
          fs.follow twice [firstName top, secondName top] := by
    have hrelative' : isAbsolute (join (secondListed dir top) (secondName top)) = false := by
      rw [isAbsolute_join _ (isName_secondName top).not_isAbsolute, secondListed,
        isAbsolute_join dir hrelative, h]
    rw [thirdListed,
      fs.lookup_of_ne_nil (join_ne_nil _ (join_ne_nil _ (isName_secondName top).1)),
      fs.locate_join dir hrelative', hnode, Option.bind_some,
      components_join _ (isName_secondName top).not_isAbsolute, secondListed,
      components_join dir hrelative, components_join dir (isName_firstName top).not_isAbsolute,
      components_name (isName_firstName top), components_name (isName_secondName top),
      List.append_assoc, List.append_assoc, fs.follow_append]
    simp only [FileSystem.follow_append, List.singleton_append]
  rw [hlookup₂, hlookup₃]
  constructor
  · rintro ⟨hagain, htwice⟩
    obtain ⟨once, honce, hagain⟩ := Option.bind_eq_some_iff.1 hagain
    rw [honce, Option.bind_some] at htwice
    obtain ⟨twice, htwice, hthird⟩ := Option.bind_eq_some_iff.1 htwice
    exact ⟨node, once, twice, first, second, hnode, honce, htwice, hfirst, hagain, hsecond, hthird⟩
  · rintro ⟨node', once, twice, first', second', hnode', honce, htwice, hfirst', hagain, hsecond',
      hthird⟩
    obtain rfl : node = node' := Option.some.inj (hnode.symm.trans hnode')
    obtain rfl : first = first' := Option.some.inj (hfirst.symm.trans hfirst')
    obtain rfl : second = second' := Option.some.inj (hsecond.symm.trans hsecond')
    rw [honce, Option.bind_some, Option.bind_some, hagain, htwice, Option.bind_some]
    exact ⟨rfl, hthird⟩

end Nodes

/-- The latest block is found exactly when the second and the third directory that are listed are
those of the block. -/
theorem HoldsBlocks.findsLatest_iff_lookup (hblocks : HoldsBlocks fs dir heights)
    (hbound : ∀ height ∈ heights, height < u64Size) (htop : IsGreatest (heights : Set ℕ) top)
    {node first second : Node} (hnode : fs.locate dir = some node)
    (hfirst : fs.walk node (firstName top) = some first)
    (hsecond : fs.walk first (secondName top) = some second) :
    FindsLatest fs dir top ↔ dir ≠ [] ∧ fs.lookup (secondListed dir top) = some first ∧
      fs.lookup (thirdListed dir top) = some second := by
  have hlt := hbound top htop.1
  have hlevel₁ : dir ≠ [] → ∀ listed, (pickPathWithHighestNumber fs dir true).run.run listed =
      .ok (some (millionOf top, join dir (firstName top)), listed ++ [dir]) := fun hdir listed ↦
    (hblocks.firstLevel hbound hnode htop.1).run_pickPathWithHighestNumber
      ((fs.lookup_of_ne_nil hdir).trans hnode)
      (Monotone.map_isGreatest (fun _ _ ↦ millionOf_mono) htop)
      ((millionOf_le top).trans_lt hlt) listed
  have hlevel₂ : ∀ path listed, fs.lookup path = some first →
      (pickPathWithHighestNumber fs path true).run.run listed =
        .ok (some (thousandOf top, join path (secondName top)), listed ++ [path]) :=
    fun path listed hpath ↦
      (hblocks.secondLevel hbound hnode htop.1 hfirst).run_pickPathWithHighestNumber hpath
        (Monotone.map_isGreatest (fun _ _ ↦ thousandOf_mono)
          ⟨⟨htop.1, rfl⟩, fun other hother ↦ htop.2 hother.1⟩)
        ((thousandOf_le top).trans_lt hlt) listed
  have hlevel₃ : ∀ path listed, fs.lookup path = some second →
      (pickPathWithHighestNumber fs path false).run.run listed =
        .ok (some (top, join path (entryName false top)), listed ++ [path]) :=
    fun path listed hpath ↦
      (hblocks.thirdLevel hbound hnode htop.1 hfirst hsecond).run_pickPathWithHighestNumber hpath
        ⟨⟨htop.1, rfl⟩, fun other hother ↦ htop.2 hother.1⟩ hlt listed
  constructor
  · rintro ⟨listed, hrun, hlisted⟩
    have hdir : dir ≠ [] := by
      rintro rfl
      obtain ⟨value, listed₁, hstep, -⟩ := exists_of_run_bind_ok hrun
      rw [run_pickPathWithHighestNumber_nil] at hstep
      cases hstep
    rw [findLatestBlockNumber, run_bind_of_ok (hlevel₁ hdir [])] at hrun
    obtain ⟨⟨number₂, path₂⟩, listed₂, hstep₂, hrun⟩ := exists_of_run_bind_ok hrun
    obtain ⟨⟨number₃, path₃⟩, listed₃, hstep₃, hrun⟩ := exists_of_run_bind_ok hrun
    obtain rfl := listed_of_pickPathWithHighestNumber fs hstep₂
    obtain rfl := listed_of_pickPathWithHighestNumber fs hstep₃
    cases hrun
    rw [map_lookup_blockDirs hnode hfirst hsecond hdir] at hlisted
    simp only [List.map_cons, List.map_nil, List.nil_append, List.cons_append,
      List.cons.injEq] at hlisted
    obtain ⟨-, hlookup₂, hlookup₃, -⟩ := hlisted
    -- the second listing is that of the block's first directory, which decides on the third
    have hstep₂' := hlevel₂ _ [dir] hlookup₂
    rw [show [dir] = [] ++ [dir] from rfl, hstep₂] at hstep₂'
    obtain ⟨rfl, rfl⟩ : number₂ = thousandOf top ∧
        path₂ = join (join dir (join dir (firstName top))) (secondName top) := by
      simpa using hstep₂'
    exact ⟨hdir, hlookup₂, hlookup₃⟩
  · rintro ⟨hdir, hlookup₂, hlookup₃⟩
    refine ⟨[dir, secondListed dir top, thirdListed dir top], ?_, ?_⟩
    · exact run_findLatestBlockNumber fs (hlevel₁ hdir []) (hlevel₂ _ _ hlookup₂)
        (hlevel₃ _ _ hlookup₃)
    · rw [map_lookup_blockDirs hnode hfirst hsecond hdir]
      simp only [List.map_cons, List.map_nil, hlookup₂, hlookup₃,
        fs.lookup_of_ne_nil hdir, hnode]

/-- **When the latest block is found.** -/
theorem findsLatest_iff (hne : heights.Nonempty) (hbound : ∀ height ∈ heights, height < u64Size)
    (hblocks : HoldsBlocks fs dir heights) :
    FindsLatest fs dir (heights.max' hne) ↔
      isAbsolute dir = true ∨ dir ≠ [] ∧ LeadsBack fs dir (heights.max' hne) := by
  have htop := heights.isGreatest_max' hne
  obtain ⟨path, file, hpath, hfile, -⟩ := hblocks.files _ htop.1
  rw [lookup_blockPath hpath] at hfile
  obtain ⟨node, hnode, -⟩ := Option.bind_eq_some_iff.1 hfile
  obtain ⟨first, second, -, hfirst, hsecond, -⟩ := hblocks.exists_walk hnode htop.1
  rw [hblocks.findsLatest_iff_lookup hbound htop hnode hfirst hsecond]
  rcases h : isAbsolute dir with - | -
  · rw [lookup_listed_iff hnode hfirst hsecond h]
    simp
  · have hdir : dir ≠ [] := by
      rintro rfl
      cases h
    exact iff_of_true ⟨hdir, lookup_listed_of_isAbsolute hnode hfirst hsecond h⟩ (.inl rfl)

end Main

/-! ### A relative directory -/

/-- The entries of the directories `/`, `/data`, `/data/0` and `/data/0/0`, which are numbered from
zero. -/
def exampleChildren : ℕ → List (Path × ℕ)
  | 0 => [("data".toList, 1)]
  | 1 => [("0".toList, 2)]
  | 2 => [("0".toList, 3)]
  | 3 => [("1.rmp.lz4".toList, 4)]
  | _ => []

theorem isName_exampleChildren (node : ℕ) : ∀ child ∈ exampleChildren node, IsName child.1 := by
  intro child hchild
  rcases node with - | - | - | - | node
  · rw [List.mem_singleton.1 hchild]
    exact ⟨by decide, by decide⟩
  · rw [List.mem_singleton.1 hchild]
    exact ⟨by decide, by decide⟩
  · rw [List.mem_singleton.1 hchild]
    exact ⟨by decide, by decide⟩
  · rw [List.mem_singleton.1 hchild]
    exact ⟨by decide, by decide⟩
  · cases hchild

/-- The directory `/data` with the block of height one. -/
def exampleFs (cwd : ℕ) : FileSystem ℕ where
  root := 0
  cwd := cwd
  entries := fun node ↦ if node < 4 then some ((exampleChildren node).map Prod.fst) else none
  walk := fun node name ↦
    if name = ['.'] then some node
    else if name = ['.', '.'] then some (node - 1)
    else (exampleChildren node).lookup name
  isName_of_mem := by
    intro node names name hnames hname
    split_ifs at hnames
    rw [← Option.some.inj hnames] at hname
    obtain ⟨child, hchild, rfl⟩ := List.mem_map.1 hname
    exact isName_exampleChildren node child hchild
  mem_of_walk := by
    intro node name node' hwalk hdot hdots
    rw [if_neg hdot, if_neg hdots] at hwalk
    obtain ⟨child, hchild, hname⟩ : ∃ child ∈ exampleChildren node, child.1 = name := by
      obtain ⟨front, back, heq, -⟩ := List.lookup_eq_some_iff.1 hwalk
      exact ⟨(name, node'), by rw [heq]; simp, rfl⟩
    have hlt : node < 4 := by
      by_contra hge
      obtain ⟨k, rfl⟩ := Nat.exists_eq_add_of_le' (Nat.not_lt.1 hge)
      cases hchild
    exact ⟨_, if_pos hlt, List.mem_map.2 ⟨child, hchild, hname⟩⟩

theorem mem_exampleChildren {cwd node : ℕ} {isDir : Bool} {name : Path}
    (h : Numbered (exampleFs cwd) node isDir name) :
    name ∈ (exampleChildren node).map Prod.fst := by
  obtain ⟨names, hnames, hname⟩ := h.mem
  simp only [exampleFs] at hnames
  split_ifs at hnames
  rwa [← Option.some.inj hnames] at hname

theorem holdsBlocks_exampleFs {cwd : ℕ} {dir : Path} (h : (exampleFs cwd).locate dir = some 1) :
    HoldsBlocks (exampleFs cwd) dir {1} := by
  have hfirst : (exampleFs cwd).locate (join dir (firstName 1)) = some 2 := by
    rw [FileSystem.locate_join_name _ _ (isName_firstName 1), h]
    rfl
  have hsecond : (exampleFs cwd).locate (join (join dir (firstName 1)) (secondName 1)) =
      some 3 := by
    rw [FileSystem.locate_join_name _ _ (isName_secondName 1), hfirst]
    rfl
  refine ⟨fun height hheight ↦ ?_, fun node hnode name hname ↦ ?_,
    fun height hheight node hnode name hname ↦ ?_, fun height hheight node hnode name hname ↦ ?_⟩
  · obtain rfl := Finset.mem_singleton.1 hheight
    obtain ⟨path, hpath⟩ : ∃ path, blockPath dir 1 = some path := ⟨_, rfl⟩
    refine ⟨path, 4, hpath, ?_, rfl⟩
    rw [lookup_blockPath hpath, h]
    rfl
  · obtain rfl : 1 = node := Option.some.inj (h.symm.trans hnode)
    exact ⟨1, by decide, List.mem_singleton.1 (mem_exampleChildren hname)⟩
  · obtain rfl := Finset.mem_singleton.1 hheight
    obtain rfl : 2 = node := Option.some.inj (hfirst.symm.trans hnode)
    exact ⟨1, by decide, rfl, List.mem_singleton.1 (mem_exampleChildren hname)⟩
  · obtain rfl := Finset.mem_singleton.1 hheight
    obtain rfl : 3 = node := Option.some.inj (hsecond.symm.trans hnode)
    exact ⟨1, by decide, rfl, List.mem_singleton.1 (mem_exampleChildren hname)⟩

/-- **A relative directory**: `data` is listed, and then `data/data/0`, which does not exist. -/
theorem findLatestBlockNumber_panics :
    HoldsBlocks (exampleFs 0) "data".toList {1} ∧
      (findLatestBlockNumber (exampleFs 0) "data".toList).run.run [] =
        .error (.readDir "data/data/0".toList) ∧
      ¬ FindsLatest (exampleFs 0) "data".toList 1 := by
  have hrun : (findLatestBlockNumber (exampleFs 0) "data".toList).run.run [] =
      .error (.readDir "data/data/0".toList) := by decide +kernel
  refine ⟨holdsBlocks_exampleFs (by decide), hrun, ?_⟩
  rintro ⟨listed, hok, -⟩
  rw [hrun] at hok
  cases hok

/-- The same directory by its absolute path. -/
theorem findsLatest_iff_absolute : FindsLatest (exampleFs 0) "/data".toList 1 :=
  (findsLatest_iff ⟨1, by decide⟩ (by decide) (holdsBlocks_exampleFs (by decide))).2 (.inl rfl)

/-- From inside the directory its name `.` leads back to it. -/
example : LeadsBack (exampleFs 1) ".".toList 1 :=
  ⟨1, 1, 1, 2, 3, by decide⟩

end RethHl.PseudoPeer.Local
