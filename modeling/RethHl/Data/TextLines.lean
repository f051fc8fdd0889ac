import Mathlib.Data.List.Basic
import Mathlib.Data.List.DropRight

/-!
# Lines of a text, and its bytes

Text is a list of characters. `lines` reads it the way a buffered reader does: the text is cut at
every line feed, a carriage return directly before a line feed belongs to the line break, and what
follows the last line feed is a line of its own only when it is not empty.

Two views of the same cut are kept apart. `lines` is what a line-by-line reader sees;
`List.splitOn` is the raw cut, which also has the empty piece after a final line feed and keeps the
carriage returns. A caller that only collects what some of the lines parse to need not choose:
`filterMap_lines` says that both cuts give the same results for a parser that ignores a trailing
carriage return and rejects the empty line.

`utf8` is the encoding of a text as bytes and `fromUtf8` the checked decoding. A line feed is a
single byte that occurs in no other character's encoding, so cutting the bytes at that byte is
cutting the text at its line feeds (`utf8_eq_append_newline`).
-/

namespace Text

/-! ### Lines -/

/-- Drop one trailing carriage return. -/
def stripCr (l : List Char) : List Char :=
  if l.getLast? = some '\r' then l.dropLast else l

/-- The lines of a text. -/
def lines (t : List Char) : List (List Char) :=
  (t.splitOn '\n').dropLast.map stripCr ++
    ((t.splitOn '\n').getLast?.filter fun l ↦ l ≠ []).toList

@[simp] theorem lines_nil : lines [] = [] := rfl

/-- A line feed ends every line before it. -/
theorem lines_append_cons (a b : List Char) :
    lines (a ++ '\n' :: b) = (a.splitOn '\n').map stripCr ++ lines b := by
  have hne : b.splitOn '\n' ≠ [] := List.splitOn_ne_nil _ _
  rw [lines, lines, List.splitOn_append_cons_self, List.dropLast_append_of_ne_nil hne,
    List.getLast?_append_of_ne_nil _ hne, List.map_append, List.append_assoc]

/-- A text without a line feed is at most one line. -/
theorem length_lines_le_one {t : List Char} (ht : '\n' ∉ t) : (lines t).length ≤ 1 := by
  rw [lines, List.splitOn_eq_singleton ht]
  by_cases hnil : t = [] <;> simp [Option.filter, hnil]

/-- A line feed in a text has a last occurrence. -/
theorem exists_last_newline {t : List Char} (h : '\n' ∈ t) :
    ∃ before line, t = before ++ '\n' :: line ∧ '\n' ∉ line := by
  obtain ⟨b, a, hrev, hb⟩ := List.eq_append_cons_of_mem (List.mem_reverse.2 h)
  refine ⟨a.reverse, b.reverse, ?_, by simpa using hb⟩
  rw [← List.reverse_reverse t, hrev]
  simp

/-- **Appending leaves every line but the last one alone.** -/
theorem getElem?_lines_of_lt {t : List Char} (u : List Char) {i j : ℕ} (hij : i < j)
    (hj : j < (lines t).length) : (lines (t ++ u))[i]? = (lines t)[i]? := by
  by_cases hmem : '\n' ∈ t
  · -- cut at the last line feed: the lines before it do not depend on what follows
    obtain ⟨before, line, rfl, hline⟩ := exists_last_newline hmem
    rw [List.append_assoc, List.cons_append, lines_append_cons, lines_append_cons]
    rw [lines_append_cons, List.length_append] at hj
    have hlast := length_lines_le_one hline
    rw [List.getElem?_append_left (by omega), List.getElem?_append_left (by omega)]
  · have hone := length_lines_le_one hmem
    omega

/-- The first `n` lines of a text stay as they are when text is appended. -/
def FixedBefore (t : List Char) (n : ℕ) : Prop :=
  ∀ u, ∀ i < n, (lines (t ++ u))[i]? = (lines t)[i]?

theorem fixedBefore_of_lt {t : List Char} {n : ℕ} (h : n < (lines t).length) : FixedBefore t n :=
  fun u _ hi ↦ getElem?_lines_of_lt u hi h

theorem FixedBefore.append {t : List Char} {n : ℕ} (h : FixedBefore t n) (u : List Char) :
    FixedBefore (t ++ u) n := by
  intro v i hi
  rw [List.append_assoc, h (u ++ v) i hi, h u i hi]

/-- A text whose last line is finished: it is empty or ends with a line feed. -/
def Finished (t : List Char) : Prop :=
  t = [] ∨ ∃ a, t = a ++ ['\n']

/-- A line that a writer can append whole: no line feed inside, no carriage return at its end. -/
def IsLine (l : List Char) : Prop :=
  '\n' ∉ l ∧ stripCr l = l

/-- Appending a whole line to a finished text adds exactly that line. -/
theorem lines_append_line {t l : List Char} (ht : Finished t) (hl : IsLine l) :
    lines (t ++ (l ++ ['\n'])) = lines t ++ [l] := by
  have hone : lines (l ++ ['\n']) = [l] := by
    rw [lines_append_cons, List.splitOn_eq_singleton hl.1]
    simp [hl.2]
  rcases ht with rfl | ⟨a, rfl⟩
  · exact hone
  · have hcut : lines (a ++ ['\n']) = (a.splitOn '\n').map stripCr ++ lines [] :=
      lines_append_cons a []
    rw [List.append_assoc, List.singleton_append, lines_append_cons, hone, hcut, lines_nil,
      List.append_nil]

theorem finished_append_line (t l : List Char) : Finished (t ++ (l ++ ['\n'])) :=
  Or.inr ⟨t ++ l, by rw [List.append_assoc]⟩

/-- A parser that ignores a trailing carriage return and rejects the empty line collects the same
results from the lines and from the raw pieces. -/
theorem filterMap_lines {β : Type*} {f : List Char → Option β} (hnil : f [] = none)
    (hcr : ∀ l, f (stripCr l) = f l) (t : List Char) :
    (lines t).filterMap f = (t.splitOn '\n').filterMap f := by
  obtain ⟨init, last, hsplit⟩ : ∃ init last, t.splitOn '\n' = init ++ [last] :=
    ⟨_, _, (List.dropLast_append_getLast (List.splitOn_ne_nil '\n' t)).symm⟩
  have hmap : (init.map stripCr).filterMap f = init.filterMap f := by
    rw [List.filterMap_map]
    exact congrArg (init.filterMap ·) (funext hcr)
  rw [lines, hsplit, List.dropLast_concat, List.getLast?_concat, List.filterMap_append, hmap,
    List.filterMap_append]
  congr 1
  by_cases hlast : last = []
  · simp [hlast, hnil]
  · simp [Option.filter, hlast]

/-! ### The last line -/

/-- Drop a line feed at the end of a text. -/
def popLine (text : List Char) : List Char :=
  if text.getLast? = some '\n' then text.dropLast else text

/-- Cut a text at its last line feed. -/
def cutLast (text : List Char) : Option (List Char × List Char) :=
  if '\n' ∈ text then
    some ((text.rdropWhile fun c ↦ c ≠ '\n').dropLast, text.rtakeWhile fun c ↦ c ≠ '\n')
  else none

theorem cutLast_append {before line : List Char} (hline : '\n' ∉ line) :
    cutLast (before ++ '\n' :: line) = some (before, line) := by
  have hall : ∀ c ∈ line.reverse, decide (c ≠ '\n') = true := by
    intro c hc
    rw [List.mem_reverse] at hc
    exact decide_eq_true fun h ↦ hline (h ▸ hc)
  rw [cutLast, if_pos (by simp), List.rdropWhile, List.rtakeWhile, List.reverse_append,
    List.reverse_cons, List.append_assoc, List.dropWhile_append_of_pos hall,
    List.takeWhile_append_of_pos hall]
  simp

theorem cutLast_eq_none {text : List Char} (h : '\n' ∉ text) : cutLast text = none :=
  if_neg h

/-- A text has no line feed or is cut at its last one. -/
theorem cutLast_cases (text : List Char) :
    ('\n' ∉ text ∧ cutLast text = none) ∨
      ∃ before line, text = before ++ '\n' :: line ∧ '\n' ∉ line ∧
        cutLast text = some (before, line) := by
  by_cases hmem : '\n' ∈ text
  · obtain ⟨before, line, rfl, hline⟩ := exists_last_newline hmem
    exact Or.inr ⟨before, line, rfl, hline, cutLast_append hline⟩
  · exact Or.inl ⟨hmem, cutLast_eq_none hmem⟩

theorem popLine_cases (text : List Char) :
    popLine text = text ∨ text = popLine text ++ ['\n'] := by
  rw [popLine]
  split_ifs with hlast
  · obtain ⟨init, rfl⟩ := List.getLast?_eq_some_iff.1 hlast
    rw [List.dropLast_concat]
    exact Or.inr rfl
  · exact Or.inl rfl

theorem length_popLine_le (text : List Char) : (popLine text).length ≤ text.length := by
  rcases popLine_cases text with h | h
  · rw [h]
  · conv_rhs => rw [h]
    simp

theorem length_lt_of_cutLast {text before line : List Char}
    (h : cutLast (popLine text) = some (before, line)) : before.length < text.length := by
  have hle := length_popLine_le text
  rcases cutLast_cases (popLine text) with ⟨-, hnone⟩ | ⟨before', line', heq, -, hcut⟩
  · rw [hnone] at h
    cases h
  · obtain ⟨rfl, rfl⟩ := Prod.mk.inj (Option.some.inj (hcut.symm.trans h))
    rw [heq, List.length_append, List.length_cons] at hle
    omega

/-! ### White space -/

/-- The Unicode white space characters. -/
def isWhitespace (c : Char) : Bool :=
  (9 ≤ c.toNat && c.toNat ≤ 13) || c.toNat == 0x20 || c.toNat == 0x85 || c.toNat == 0xA0 ||
    c.toNat == 0x1680 || (0x2000 ≤ c.toNat && c.toNat ≤ 0x200A) || c.toNat == 0x2028 ||
    c.toNat == 0x2029 || c.toNat == 0x202F || c.toNat == 0x205F || c.toNat == 0x3000

/-- Nothing is left after trimming: every character is white space. -/
def isBlank (l : List Char) : Bool :=
  l.all isWhitespace

/-! ### Bytes -/

/-- The UTF-8 encoding of a text. -/
def utf8 (t : List Char) : List UInt8 :=
  t.flatMap String.utf8EncodeChar

/-- The checked decoding of bytes. -/
def fromUtf8 (bytes : List UInt8) : Option (List Char) :=
  bytes.toByteArray.utf8Decode?.map Array.toList

@[simp] theorem utf8_nil : utf8 [] = [] := rfl

@[simp] theorem utf8_append (a b : List Char) : utf8 (a ++ b) = utf8 a ++ utf8 b :=
  List.flatMap_append

@[simp] theorem utf8_cons (c : Char) (t : List Char) :
    utf8 (c :: t) = String.utf8EncodeChar c ++ utf8 t :=
  List.flatMap_cons

/-- Decoding undoes encoding. -/
@[simp] theorem fromUtf8_utf8 (t : List Char) : fromUtf8 (utf8 t) = some t := by
  rw [fromUtf8, utf8, show (t.flatMap String.utf8EncodeChar).toByteArray = t.utf8Encode from rfl,
    List.utf8Decode?_utf8Encode]
  rfl

/-- The byte of a line feed. -/
def newline : UInt8 := 10

@[simp] theorem utf8EncodeChar_newline : String.utf8EncodeChar '\n' = [newline] := by decide

/-- The line feed byte occurs in the encoding of the line feed only. -/
theorem newline_notMem_utf8EncodeChar {c : Char} (hc : c ≠ '\n') :
    newline ∉ String.utf8EncodeChar c := by
  have hval : c.val.toNat ≠ 10 := by
    intro h
    exact hc (Char.ext (UInt32.toNat_inj.1 h))
  have hbyte : ∀ n : ℕ, n < 256 → n ≠ 10 → newline ≠ UInt8.ofNat n := by
    intro n hn hne heq
    have h := congrArg UInt8.toNat heq
    rw [newline, UInt8.toNat_ofNat', Nat.mod_eq_of_lt hn] at h
    exact hne h.symm
  unfold String.utf8EncodeChar
  simp only
  split_ifs with h₁ h₂ h₃ <;> simp only [List.mem_cons, List.not_mem_nil, or_false, not_or]
  · exact hbyte _ (by omega) hval
  · exact ⟨hbyte _ (by omega) (by omega), hbyte _ (by omega) (by omega)⟩
  · exact ⟨hbyte _ (by omega) (by omega), hbyte _ (by omega) (by omega),
      hbyte _ (by omega) (by omega)⟩
  · exact ⟨hbyte _ (by omega) (by omega), hbyte _ (by omega) (by omega),
      hbyte _ (by omega) (by omega), hbyte _ (by omega) (by omega)⟩

theorem newline_mem_utf8 {t : List Char} : newline ∈ utf8 t ↔ '\n' ∈ t := by
  rw [utf8, List.mem_flatMap]
  constructor
  · rintro ⟨c, hc, hmem⟩
    by_cases heq : c = '\n'
    · exact heq ▸ hc
    · exact absurd hmem (newline_notMem_utf8EncodeChar heq)
  · intro h
    exact ⟨'\n', h, by simp⟩

theorem utf8_eq_nil {t : List Char} : utf8 t = [] ↔ t = [] := by
  constructor
  · intro h
    have hdecode := fromUtf8_utf8 t
    rw [h] at hdecode
    exact (Option.some.inj (hdecode.symm.trans (fromUtf8_utf8 [])))
  · rintro rfl
    rfl

/-- **A line feed byte cuts the text.** The bytes before and after it are whole texts. -/
theorem utf8_eq_append_newline {t : List Char} {a b : List UInt8}
    (h : utf8 t = a ++ newline :: b) :
    ∃ u v, t = u ++ '\n' :: v ∧ utf8 u = a ∧ utf8 v = b := by
  induction t generalizing a with
  | nil => cases a <;> cases h
  | cons c t ih =>
    rw [utf8_cons] at h
    rcases List.append_eq_append_iff.1 h with ⟨a', rfl, hrest⟩ | ⟨c', hc, hrest⟩
    · obtain ⟨u, v, rfl, rfl, rfl⟩ := ih hrest
      exact ⟨c :: u, v, rfl, utf8_cons c u, rfl⟩
    · rcases c' with - | ⟨x, c'⟩
      · -- the first character ends where the line feed begins
        obtain ⟨u, v, rfl, hu, rfl⟩ := ih (a := []) hrest.symm
        rw [List.append_nil] at hc
        exact ⟨c :: u, v, rfl, by rw [utf8_cons, hu, List.append_nil, hc], rfl⟩
      · obtain ⟨rfl, rfl⟩ := List.cons.inj hrest
        have hnewline : c = '\n' := by
          by_contra hne
          exact newline_notMem_utf8EncodeChar hne (hc ▸ by simp)
        subst hnewline
        rw [utf8EncodeChar_newline] at hc
        obtain ⟨rfl, hc'⟩ := (List.append_eq_singleton_iff.1 hc.symm).resolve_right (by simp)
        obtain rfl := (List.cons.inj hc').2
        exact ⟨[], t, rfl, rfl, rfl⟩

end Text
