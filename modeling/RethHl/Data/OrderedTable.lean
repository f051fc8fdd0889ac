import Mathlib.Data.List.Basic
import Mathlib.Order.Lattice

/-!
# An ordered table that is written at its end

The table of a key-value database as a cursor sees it: rows in increasing order of their keys. A row
is **appended** behind the last one, and an append whose key is not above the last key is refused; a
row is found by its exact key; **unwinding** to a key removes every row above it.

The three operations are what a log of numbered records needs. Abstractly such a log is a partial
function of the key, which a batch of records extends (`Records.write`) and an unwinding restricts
(`Records.removeAbove`). A batch is **admissible** when its keys are increasing and above every key
on record. `Represents` ties a table to the records it stands for, and its rules say that appending
an admissible record succeeds and that both operations keep the table in step.
-/

universe u v w

/-- Rows in strictly increasing order of their keys. -/
structure OrderedTable (K : Type u) (V : Type v) [LinearOrder K] where
  /-- The rows, smallest key first. -/
  rows : List (K × V)
  /-- The order of the keys. -/
  sorted : rows.Pairwise fun row row' ↦ row.1 < row'.1

namespace OrderedTable

variable {K : Type u} {V : Type v} [LinearOrder K]

/-- The table without rows. -/
def empty : OrderedTable K V where
  rows := []
  sorted := List.Pairwise.nil

/-- A key above the last one is above them all. -/
theorem lt_of_mem_rows {rows : List (K × V)} {key : K}
    (hsorted : rows.Pairwise fun row row' ↦ row.1 < row'.1)
    (hlast : ∀ row ∈ rows.getLast?, row.1 < key) {row : K × V} (hrow : row ∈ rows) :
    row.1 < key := by
  rcases List.eq_nil_or_concat rows with rfl | ⟨front, last, rfl⟩
  · cases hrow
  · rw [List.concat_eq_append] at *
    have hkey : last.1 < key := hlast last (by simp)
    rcases List.mem_append.1 hrow with h | h
    · exact (List.pairwise_append.1 hsorted |>.2.2 row h last List.mem_cons_self).trans hkey
    · rwa [List.mem_singleton.1 h]

/-- Write a row behind the last one. Refused unless the key is above the last key. -/
def append (t : OrderedTable K V) (key : K) (value : V) : Option (OrderedTable K V) :=
  if h : ∀ row ∈ t.rows.getLast?, row.1 < key then
    some
      { rows := t.rows ++ [(key, value)]
        sorted := by
          refine List.pairwise_append.2 ⟨t.sorted, List.pairwise_singleton _ _, ?_⟩
          intro row hrow row' hrow'
          rw [List.mem_singleton.1 hrow']
          exact lt_of_mem_rows t.sorted h hrow }
  else none

/-- The row with exactly this key. -/
def seekExact (t : OrderedTable K V) (key : K) : Option (K × V) :=
  t.rows.find? fun row ↦ row.1 = key

/-- Remove every row above a key. -/
def unwindAbove (t : OrderedTable K V) (key : K) : OrderedTable K V where
  rows := t.rows.filter fun row ↦ row.1 ≤ key
  sorted := t.sorted.filter _

@[simp] theorem seekExact_empty (key : K) : (empty : OrderedTable K V).seekExact key = none := rfl

/-- A row that is found is there. -/
theorem isSome_seekExact_iff {t : OrderedTable K V} {key : K} :
    (t.seekExact key).isSome ↔ ∃ row ∈ t.rows, row.1 = key := by
  rw [seekExact, List.find?_isSome]
  simp

/-- **An append is accepted** when every row is below the key. -/
theorem exists_append {t : OrderedTable K V} {key : K} (value : V)
    (h : ∀ other, (t.seekExact other).isSome → other < key) :
    ∃ t', t.append key value = some t' := by
  have hlast : ∀ row ∈ t.rows.getLast?, row.1 < key := fun row hrow ↦
    h row.1 (isSome_seekExact_iff.2 ⟨row, List.mem_of_getLast? hrow, rfl⟩)
  rw [append, dif_pos hlast]
  exact ⟨_, rfl⟩

/-- **An append writes its row** and leaves the others. -/
theorem seekExact_append {t t' : OrderedTable K V} {key : K} {value : V}
    (h : t.append key value = some t') (other : K) :
    t'.seekExact other = if other = key then some (key, value) else t.seekExact other := by
  rw [append] at h
  split at h
  · rename_i hlast
    rw [← Option.some.inj h, seekExact, List.find?_append]
    split_ifs with hother
    · subst hother
      have hnone : t.rows.find? (fun row ↦ row.1 = other) = none := by
        refine List.find?_eq_none.2 fun row hrow ↦ ?_
        simpa using ne_of_lt (lt_of_mem_rows t.sorted hlast hrow)
      rw [hnone]
      simp
    · have hne : ¬ key = other := fun heq ↦ hother heq.symm
      simp [seekExact, hne]
  · cases h

/-- **Unwinding removes the rows above the key**, and no others. -/
theorem seekExact_unwindAbove (t : OrderedTable K V) (key other : K) :
    (t.unwindAbove key).seekExact other = if other ≤ key then t.seekExact other else none := by
  rw [seekExact, unwindAbove, List.find?_filter]
  split_ifs with hle
  · refine congrArg (t.rows.find? ·) (funext fun row ↦ ?_)
    by_cases hrow : row.1 = other
    · simp [hrow, hle]
    · simp [hrow]
  · refine List.find?_eq_none.2 fun row _ h ↦ hle ?_
    simp only [decide_eq_true_eq] at h
    exact h.2 ▸ h.1

end OrderedTable

/-! ### Records by key -/

/-- What is on record under each key. -/
abbrev Records (K : Type u) (V : Type v) := K → Option V

namespace Records

variable {K : Type u} {V : Type v} {W : Type w} [LinearOrder K]

/-- Put a batch on record; within the batch and against earlier records the batch comes first. -/
def write (records : Records K V) (batch : List (K × V)) : Records K V :=
  fun key ↦ (batch.lookup key).or (records key)

/-- Drop the records above a key. -/
def removeAbove (records : Records K V) (bound : K) : Records K V :=
  fun key ↦ if key ≤ bound then records key else none

/-- The keys of a batch are increasing, and above everything on record. -/
structure Accepts (records : Records K V) (batch : List (K × V)) : Prop where
  sorted : batch.Pairwise fun row row' ↦ row.1 < row'.1
  above : ∀ key, (records key).isSome → ∀ row ∈ batch, key < row.1

/-- Read every record through a function. -/
def map (f : V → W) (records : Records K V) : Records K W :=
  fun key ↦ (records key).map f

theorem lookup_map_values (f : V → W) (batch : List (K × V)) (key : K) :
    (batch.map fun row ↦ (row.1, f row.2)).lookup key = (batch.lookup key).map f := by
  induction batch with
  | nil => rfl
  | cons row batch ih =>
    rw [List.map_cons, List.lookup_cons, List.lookup_cons]
    split
    · rfl
    · exact ih

theorem map_write (f : V → W) (records : Records K V) (batch : List (K × V)) :
    (records.write batch).map f =
      (records.map f).write (batch.map fun row ↦ (row.1, f row.2)) := by
  funext key
  rw [map, write, write, map, lookup_map_values, Option.map_or]

theorem map_removeAbove (f : V → W) (records : Records K V) (bound : K) :
    (records.removeAbove bound).map f = (records.map f).removeAbove bound := by
  funext key
  rw [map, removeAbove, removeAbove, map]
  split_ifs <;> rfl

theorem Accepts.map {records : Records K V} {batch : List (K × V)} (h : records.Accepts batch)
    (f : V → W) : (records.map f).Accepts (batch.map fun row ↦ (row.1, f row.2)) where
  sorted := List.pairwise_map.2 h.sorted
  above := by
    intro key hkey row hrow
    obtain ⟨old, hold, rfl⟩ := List.mem_map.1 hrow
    exact h.above key (by simpa [Records.map] using hkey) old hold

/-- A batch is put on record row by row. -/
theorem write_cons {records : Records K V} {row : K × V} {batch : List (K × V)}
    (h : records.Accepts (row :: batch)) :
    records.write (row :: batch) = write (Function.update records row.1 (some row.2)) batch := by
  funext key
  rw [write, write, List.lookup_cons, Function.update_apply]
  by_cases hkey : key = row.1
  · -- the rest of the batch is above this key
    have hnone : batch.lookup key = none := by
      refine List.lookup_eq_none_iff.2 fun other hother ↦ ?_
      have hlt := (List.pairwise_cons.1 h.sorted).1 other hother
      simpa [hkey] using ne_of_lt hlt
    simp [hkey, hkey ▸ hnone]
  · rw [beq_eq_false_iff_ne.2 hkey, if_neg hkey]

theorem Accepts.tail {records : Records K V} {row : K × V} {batch : List (K × V)}
    (h : records.Accepts (row :: batch)) :
    Accepts (Function.update records row.1 (some row.2)) batch where
  sorted := (List.pairwise_cons.1 h.sorted).2
  above := by
    intro key hkey other hother
    rw [Function.update_apply] at hkey
    split_ifs at hkey with heq
    · exact heq ▸ (List.pairwise_cons.1 h.sorted).1 other hother
    · exact h.above key hkey other (List.mem_cons_of_mem _ hother)

end Records

namespace OrderedTable

variable {K : Type u} {V : Type v} [LinearOrder K]

/-- The table holds exactly the records. -/
def Represents (t : OrderedTable K V) (records : Records K V) : Prop :=
  ∀ key, t.seekExact key = (records key).map (Prod.mk key)

theorem represents_empty : (empty : OrderedTable K V).Represents fun _ ↦ none :=
  fun _ ↦ rfl

namespace Represents

variable {t : OrderedTable K V} {records : Records K V}

/-- **An admissible record is accepted.** -/
theorem append (h : t.Represents records) {key : K}
    (habove : ∀ other, (records other).isSome → other < key) (value : V) :
    ∃ t', t.append key value = some t' ∧
      t'.Represents (Function.update records key (some value)) := by
  obtain ⟨t', ht'⟩ := exists_append value (t := t) fun other hother ↦
    habove other (by simpa [h other] using hother)
  refine ⟨t', ht', fun other ↦ ?_⟩
  rw [seekExact_append ht', Function.update_apply]
  split_ifs with hother
  · rw [hother]
    rfl
  · exact h other

/-- **Unwinding drops the records above the key.** -/
theorem unwindAbove (h : t.Represents records) (bound : K) :
    (t.unwindAbove bound).Represents (records.removeAbove bound) := by
  intro key
  rw [seekExact_unwindAbove, Records.removeAbove]
  split_ifs
  · exact h key
  · rfl

end Represents

end OrderedTable
