import Mathlib.Data.List.Basic

/-!
# A last-write-wins map over inclusive ranges of naturals

A map from natural numbers to values that is written a whole inclusive range at a time. A later
write overrides earlier ones where they overlap, and nothing is ever removed. The state is the list
of writes, newest first; a lookup takes the first range that contains the key.

`get_insertAll` is the form a caller uses: after a batch of ranges with one value, a key inside any
of them reads as that value and every other key reads as before.
-/

universe v

/-- The writes, newest first: lower bound, upper bound, value. -/
structure RangeMap (V : Type v) where
  /-- The writes, newest first. -/
  writes : List ((ℕ × ℕ) × V)

namespace RangeMap

variable {V : Type v}

/-- The map without writes. -/
def empty : RangeMap V := ⟨[]⟩

/-- Write a value to every key of the range. -/
def insert (m : RangeMap V) (range : ℕ × ℕ) (v : V) : RangeMap V :=
  ⟨(range, v) :: m.writes⟩

/-- The value of the newest range that contains the key. -/
def get (m : RangeMap V) (n : ℕ) : Option V :=
  (m.writes.find? fun w ↦ w.1.1 ≤ n ∧ n ≤ w.1.2).map Prod.snd

/-- Write one value to every range of a list, in order. -/
def insertAll (m : RangeMap V) (ranges : List (ℕ × ℕ)) (v : V) : RangeMap V :=
  ranges.foldl (fun m range ↦ m.insert range v) m

@[simp] theorem get_empty (n : ℕ) : (empty : RangeMap V).get n = none := rfl

@[simp] theorem insertAll_nil (m : RangeMap V) (v : V) : m.insertAll [] v = m := rfl

@[simp] theorem insertAll_cons (m : RangeMap V) (range : ℕ × ℕ) (ranges : List (ℕ × ℕ)) (v : V) :
    m.insertAll (range :: ranges) v = (m.insert range v).insertAll ranges v :=
  rfl

theorem get_insert (m : RangeMap V) (range : ℕ × ℕ) (v : V) (n : ℕ) :
    (m.insert range v).get n =
      if range.1 ≤ n ∧ n ≤ range.2 then some v else m.get n := by
  by_cases h : range.1 ≤ n ∧ n ≤ range.2 <;> simp [get, insert, h]

/-- A key inside one of the ranges of a batch reads as the batch's value. -/
theorem get_insertAll_of_mem {ranges : List (ℕ × ℕ)} {range : ℕ × ℕ} {n : ℕ}
    (hmem : range ∈ ranges) (hlo : range.1 ≤ n) (hhi : n ≤ range.2) (m : RangeMap V) (v : V) :
    (m.insertAll ranges v).get n = some v := by
  have keep : ∀ (rs : List (ℕ × ℕ)) (m : RangeMap V), m.get n = some v →
      (m.insertAll rs v).get n = some v := by
    intro rs
    induction rs with
    | nil => exact fun m h ↦ h
    | cons r rs ih =>
      intro m h
      refine ih _ ?_
      rw [get_insert, h, ite_self]
  induction ranges generalizing m with
  | nil => exact absurd hmem List.not_mem_nil
  | cons r rs ih =>
    rcases List.mem_cons.1 hmem with rfl | hmem'
    · exact keep rs _ (by rw [get_insert, if_pos ⟨hlo, hhi⟩])
    · exact ih hmem' _

/-- A key outside every range of a batch reads as before. -/
theorem get_insertAll_of_notMem {ranges : List (ℕ × ℕ)} {n : ℕ}
    (h : ∀ range ∈ ranges, ¬(range.1 ≤ n ∧ n ≤ range.2)) (m : RangeMap V) (v : V) :
    (m.insertAll ranges v).get n = m.get n := by
  induction ranges generalizing m with
  | nil => rfl
  | cons r rs ih =>
    rw [insertAll_cons, ih fun range hr ↦ h range (List.mem_cons_of_mem _ hr), get_insert,
      if_neg (h r List.mem_cons_self)]

open Classical in
/-- **A batch of ranges.** A key inside any of them reads as the batch's value, every other key
reads as before. -/
theorem get_insertAll (m : RangeMap V) (ranges : List (ℕ × ℕ)) (v : V) (n : ℕ) :
    (m.insertAll ranges v).get n =
      if ∃ range ∈ ranges, range.1 ≤ n ∧ n ≤ range.2 then some v else m.get n := by
  split_ifs with h
  · obtain ⟨range, hmem, hlo, hhi⟩ := h
    exact get_insertAll_of_mem hmem hlo hhi m v
  · exact get_insertAll_of_notMem (fun range hmem hin ↦ h ⟨range, hmem, hin⟩) m v

end RangeMap
