import RethHl.Data.SlashPath

/-!
# A file system, as paths see it

A file system is a graph. From a directory a component of a path leads to another node; a link leads
to where it points, so a node may be reached in several ways, and nothing is assumed about the
components `.` and `..`. A path is followed component by component, from the root if it is absolute
and from the current directory if it is not.

Following a joined path is following the one path and then the other, **unless the second one is
absolute** (`locate_join`). The empty path is followed to where it starts, but it names nothing: to
look it up fails.
-/

open SlashPath

/-- A file system. Components lead from a directory to a node, with links followed. -/
structure FileSystem (Node : Type) where
  root : Node
  cwd : Node
  /-- The names in a directory; `none` when the node is no directory. -/
  entries : Node → Option (List Path)
  walk : Node → Path → Option Node
  isName_of_mem : ∀ {node names name}, entries node = some names → name ∈ names → IsName name
  mem_of_walk : ∀ {node name node'}, walk node name = some node' → name ≠ ['.'] →
    name ≠ ['.', '.'] → ∃ names, entries node = some names ∧ name ∈ names

namespace FileSystem

variable {Node : Type} (fs : FileSystem Node)

/-- Where a path starts. -/
def start (path : Path) : Node :=
  if isAbsolute path then fs.root else fs.cwd

/-- Follow components. -/
def follow (node : Node) (path : List Path) : Option Node :=
  path.foldlM fs.walk node

/-- Where a path leads. -/
def locate (path : Path) : Option Node :=
  fs.follow (fs.start path) (components path)

/-- What a path names. -/
def lookup (path : Path) : Option Node :=
  if path = [] then none else fs.locate path

/-- The entries of a directory, each as the path of the directory joined with its name. -/
def readDir (dir : Path) : Option (List Path) :=
  ((fs.lookup dir).bind fs.entries).map fun names ↦ names.map (join dir)

/-- Whether a path names a directory. -/
def isDir (path : Path) : Bool :=
  ((fs.lookup path).bind fs.entries).isSome

@[simp] theorem follow_nil (node : Node) : fs.follow node [] = some node := rfl

theorem follow_cons (node : Node) (name : Path) (path : List Path) :
    fs.follow node (name :: path) =
      (fs.walk node name).bind fun node' ↦ fs.follow node' path := by
  rw [follow, List.foldlM_cons]
  rfl

theorem follow_singleton (node : Node) (name : Path) :
    fs.follow node [name] = fs.walk node name := by
  rw [follow_cons]
  exact Option.bind_fun_some _

theorem follow_append (node : Node) (path path' : List Path) :
    fs.follow node (path ++ path') =
      (fs.follow node path).bind fun node' ↦ fs.follow node' path' := by
  rw [follow, List.foldlM_append]
  rfl

theorem start_join (base : Path) {path : Path} (h : isAbsolute path = false) :
    fs.start (join base path) = fs.start base := by
  rw [start, start, isAbsolute_join base h]

/-- **Following a joined path.** -/
theorem locate_join (base : Path) {path : Path} (h : isAbsolute path = false) :
    fs.locate (join base path) =
      (fs.locate base).bind fun node ↦ fs.follow node (components path) := by
  rw [locate, fs.start_join base h, components_join base h, follow_append]
  rfl

theorem locate_join_name (base : Path) {name : Path} (h : IsName name) :
    fs.locate (join base name) = (fs.locate base).bind fun node ↦ fs.walk node name := by
  rw [fs.locate_join base h.not_isAbsolute, components_name h]
  simp only [follow_singleton]

theorem lookup_of_ne_nil {path : Path} (h : path ≠ []) : fs.lookup path = fs.locate path :=
  if_neg h

end FileSystem
