import Mathlib.Data.List.Basic

/-!
# Paths with slashes, and numbers as their names

A path is a text that slashes cut into components. `join` appends a path to another one as a path
buffer does: a slash is put between them unless the first one ends in one, and a path that starts
with a slash **replaces** the first one. For every other path, the components of a joined path are
those of the one and then those of the other (`components_join`), and its last component is that of
the appended path (`lastComponent_join`).

A decimal number is a name without a slash, and reads back as itself (`parse_toDigits`).
-/

namespace SlashPath

/-- A path, as its characters. -/
abbrev Path := List Char

/-- A path that starts with a slash. -/
def isAbsolute (path : Path) : Bool :=
  path.head? == some '/'

/-- Append a path to a path. -/
def join (base path : Path) : Path :=
  if isAbsolute path then path
  else if base = [] ∨ base.getLast? = some '/' then base ++ path
  else base ++ '/' :: path

/-- The components of a path. Slashes in a row count as one. -/
def components (path : Path) : List Path :=
  (path.splitOn '/').filter fun component ↦ component ≠ []

/-- What follows the last slash. -/
def lastComponent (path : Path) : Path :=
  (path.splitOn '/').getLastD []

/-- A name of an entry of a directory: not empty, and without a slash. -/
def IsName (name : Path) : Prop :=
  name ≠ [] ∧ '/' ∉ name

/-- A path that starts with a name. -/
theorem IsName.not_isAbsolute_append {name : Path} (h : IsName name) (path : Path) :
    isAbsolute (name ++ path) = false := by
  rw [isAbsolute, beq_eq_false_iff_ne, List.head?_append_of_ne_nil _ h.1]
  intro hhead
  exact h.2 (List.mem_of_head? hhead)

theorem IsName.not_isAbsolute {name : Path} (h : IsName name) : isAbsolute name = false := by
  simpa using h.not_isAbsolute_append []

/-- A path that is joined to one that ends in a slash. -/
theorem join_eq_or (base : Path) {path : Path} (h : isAbsolute path = false) :
    (base = [] ∧ join base path = path) ∨
      (∃ front, base = front ++ ['/'] ∧ join base path = front ++ '/' :: path) ∨
      (base ≠ [] ∧ join base path = base ++ '/' :: path) := by
  rw [join, h, if_neg (by decide)]
  split_ifs with hbase
  · rcases hbase with rfl | hlast
    · exact .inl ⟨rfl, rfl⟩
    · obtain ⟨front, rfl⟩ := List.getLast?_eq_some_iff.1 hlast
      exact .inr (.inl ⟨front, rfl, by simp⟩)
  · exact .inr (.inr ⟨fun hnil ↦ hbase (.inl hnil), rfl⟩)

theorem join_of_isAbsolute (base : Path) {path : Path} (h : isAbsolute path = true) :
    join base path = path :=
  if_pos h

theorem isAbsolute_join (base : Path) {path : Path} (h : isAbsolute path = false) :
    isAbsolute (join base path) = isAbsolute base := by
  rcases join_eq_or base h with ⟨rfl, hjoin⟩ | ⟨front, rfl, hjoin⟩ | ⟨hbase, hjoin⟩
  · rw [hjoin, h]
    rfl
  · rw [hjoin]
    cases front <;> rfl
  · obtain ⟨first, base, rfl⟩ := List.exists_cons_of_ne_nil hbase
    rw [hjoin]
    rfl

theorem join_ne_nil (base : Path) {path : Path} (h : path ≠ []) : join base path ≠ [] := by
  rw [join]
  split_ifs
  · exact h
  · exact List.append_ne_nil_of_right_ne_nil base h
  · exact List.append_ne_nil_of_right_ne_nil base (List.cons_ne_nil _ _)

theorem components_append_cons (front path : Path) :
    components (front ++ '/' :: path) = components front ++ components path := by
  rw [components, List.splitOn_append_cons_self, List.filter_append]
  rfl

/-- **The components of a joined path.** -/
theorem components_join (base : Path) {path : Path} (h : isAbsolute path = false) :
    components (join base path) = components base ++ components path := by
  rcases join_eq_or base h with ⟨rfl, hjoin⟩ | ⟨front, rfl, hjoin⟩ | ⟨-, hjoin⟩
  · rw [hjoin]
    rfl
  · rw [hjoin, components_append_cons, components_append_cons, List.append_assoc]
    rfl
  · rw [hjoin, components_append_cons]

theorem components_name {name : Path} (h : IsName name) : components name = [name] := by
  rw [components, List.splitOn_eq_singleton h.2]
  simp [h.1]

theorem lastComponent_append_cons (front path : Path) :
    lastComponent (front ++ '/' :: path) = lastComponent path := by
  have hne : path.splitOn '/' ≠ [] := List.splitOn_ne_nil _ _
  rw [lastComponent, List.splitOn_append_cons_self, List.getLastD_eq_getLast?,
    List.getLast?_append_of_ne_nil _ hne, ← List.getLastD_eq_getLast?, lastComponent]

theorem lastComponent_of_notMem {name : Path} (h : '/' ∉ name) : lastComponent name = name := by
  rw [lastComponent, List.splitOn_eq_singleton h]
  rfl

/-- **The last component of a joined path.** -/
theorem lastComponent_join (base : Path) {path : Path} (h : isAbsolute path = false) :
    lastComponent (join base path) = lastComponent path := by
  rcases join_eq_or base h with ⟨-, hjoin⟩ | ⟨front, -, hjoin⟩ | ⟨-, hjoin⟩
  · rw [hjoin]
  · rw [hjoin, lastComponent_append_cons]
  · rw [hjoin, lastComponent_append_cons]

/-- Names before a slash are compared by themselves. -/
theorem append_slash_inj {name name' path path' : Path} (h : '/' ∉ name) (h' : '/' ∉ name') :
    name ++ '/' :: path = name' ++ '/' :: path' ↔ name = name' ∧ path = path' := by
  constructor
  · intro heq
    have hsplit := congrArg (List.splitOn '/') heq
    rw [List.splitOn_append_cons_self, List.splitOn_append_cons_self,
      List.splitOn_eq_singleton h, List.splitOn_eq_singleton h'] at hsplit
    obtain rfl : name = name' := (List.cons.inj hsplit).1
    exact ⟨rfl, (List.cons.inj (List.append_cancel_left heq)).2⟩
  · rintro ⟨rfl, rfl⟩
    rfl

theorem append_slash_isPrefix_iff {name name' path path' : Path} (h : '/' ∉ name)
    (h' : '/' ∉ name') :
    name ++ '/' :: path <+: name' ++ '/' :: path' ↔ name = name' ∧ path <+: path' := by
  constructor
  · rintro ⟨rest, heq⟩
    rw [List.append_assoc, List.cons_append, append_slash_inj h h'] at heq
    exact ⟨heq.1, rest, heq.2⟩
  · rintro ⟨rfl, rest, rfl⟩
    exact ⟨rest, by simp⟩

/-! ### Decimal numbers -/

/-- Parse a number below a bound: an optional sign and decimal digits. -/
def parse (size : ℕ) (text : List Char) : Option ℕ :=
  let digits := if text.head? = some '+' then text.tail else text
  let value := Nat.ofDigitChars 10 digits 0
  if digits ≠ [] ∧ digits.all Char.isDigit ∧ value < size then some value else none

/-- A character that is no digit is in no number. -/
theorem notMem_toDigits {c : Char} (h : c.isDigit = false) (n : ℕ) : c ∉ Nat.toDigits 10 n := by
  intro hmem
  rw [Nat.isDigit_of_mem_toDigits (by decide) (by decide) hmem] at h
  cases h

theorem isName_toDigits (n : ℕ) : IsName (Nat.toDigits 10 n) :=
  ⟨Nat.toDigits_ne_nil, notMem_toDigits (by decide) n⟩

/-- **A number reads back as itself.** -/
theorem parse_toDigits {size n : ℕ} (h : n < size) : parse size (Nat.toDigits 10 n) = some n := by
  have hsign : (Nat.toDigits 10 n).head? ≠ some '+' := fun hhead ↦
    notMem_toDigits (by decide) n (List.mem_of_head? hhead)
  have hall : (Nat.toDigits 10 n).all Char.isDigit = true := by
    rw [List.all_eq_true]
    exact fun c hc ↦ Nat.isDigit_of_mem_toDigits (by decide) (by decide) hc
  have hvalue : Nat.ofDigitChars 10 (Nat.toDigits 10 n) 0 = n := Nat.ofDigitChars_ten_toDigits
  simp only [parse, if_neg hsign, hvalue]
  exact if_pos ⟨Nat.toDigits_ne_nil, hall, h⟩

theorem toDigits_inj {m n : ℕ} : Nat.toDigits 10 m = Nat.toDigits 10 n ↔ m = n := by
  refine ⟨fun h ↦ ?_, fun h ↦ by rw [h]⟩
  have hvalue := congrArg (fun digits ↦ Nat.ofDigitChars 10 digits 0) h
  simpa using hvalue

end SlashPath
