import Mathlib.Logic.Function.Basic
import RethHl.Data.LruMap

/-!
# A map in two directions

`LruBiMap` keeps a map and its inverse as two separate maps, and bounds both by a list of the keys
that drops the oldest one when a new key comes into a full list. Nothing in the structure ties the
two maps together. What does is how it is used: if all pairs that are inserted come from one
**one-to-one relation**, then every entry of either map is in the relation, and the maps are inverse
to each other (`LruBiMap.Pairs`). Insertion and eviction keep this.
-/

namespace RethHl

/-- A bounded list of keys: the map of the library without values. -/
abbrev LruCache (K : Type) := LruMap K Unit

/-- Insert a key: whether it is new, and the key that had to go. -/
def LruCache.insertAndGetEvicted {K : Type} [DecidableEq K] (c : LruCache K) (entry : K) :
    (Bool × Option K) × LruCache K :=
  let isNew := entry ∉ c.keys
  let evicted := if isNew ∧ c.limit ≤ c.keys.length then c.keys.getLast? else none
  ((isNew, evicted), c.insert entry ())

/-- Two maps in opposite directions, and the keys of the first. -/
structure LruBiMap (K V : Type) where
  leftToRight : K → Option V
  rightToLeft : V → Option K
  lruKeys : LruCache K

namespace LruBiMap

variable {K V : Type}

/-- The empty map with a limit. -/
def new (limit : ℕ) : LruBiMap K V where
  leftToRight := fun _ ↦ none
  rightToLeft := fun _ ↦ none
  lruKeys := .empty limit

def getByLeft (m : LruBiMap K V) (key : K) : Option V :=
  m.leftToRight key

def getByRight (m : LruBiMap K V) (value : V) : Option K :=
  m.rightToLeft value

variable [DecidableEq K] [DecidableEq V]

/-- Take a key out of both maps. -/
def evict (m : LruBiMap K V) (key : K) : LruBiMap K V :=
  match m.leftToRight key with
  | none => m
  | some value =>
    { m with
      leftToRight := Function.update m.leftToRight key none
      rightToLeft := Function.update m.rightToLeft value none }

/-- Insert a pair, after making room for it. -/
def insert (m : LruBiMap K V) (key : K) (value : V) : LruBiMap K V :=
  let (evicted, lruKeys) := m.lruKeys.insertAndGetEvicted key
  let m :=
    match evicted with
    | (true, some evicted) => { m.evict evicted with lruKeys := lruKeys }
    | _ => { m with lruKeys := lruKeys }
  { m with
    leftToRight := Function.update m.leftToRight key (some value)
    rightToLeft := Function.update m.rightToLeft value (some key) }

/-- Insert pairs in order. -/
def insertAll (m : LruBiMap K V) (pairs : List (K × V)) : LruBiMap K V :=
  pairs.foldl (fun m pair ↦ m.insert pair.1 pair.2) m

omit [DecidableEq K] [DecidableEq V] in
/-- The entries of both maps are pairs of a relation, and the maps are inverse to each other. -/
structure Pairs (R : K → V → Prop) (m : LruBiMap K V) : Prop where
  left : ∀ k v, m.getByLeft k = some v → R k v
  inverse : ∀ k v, m.getByLeft k = some v ↔ m.getByRight v = some k

section Pairs

variable {R : K → V → Prop} {m : LruBiMap K V}

omit [DecidableEq K] [DecidableEq V] in
theorem Pairs.right (h : m.Pairs R) {k : K} {v : V} (hget : m.getByRight v = some k) : R k v :=
  h.left k v ((h.inverse k v).2 hget)

omit [DecidableEq K] [DecidableEq V] in
theorem pairs_new (limit : ℕ) : (new limit : LruBiMap K V).Pairs R where
  left := by
    intro k v h
    cases h
  inverse := by
    intro k v
    refine iff_of_false (fun h ↦ ?_) (fun h ↦ ?_) <;> cases h

omit [DecidableEq K] [DecidableEq V] in
/-- Only the two maps count. -/
theorem Pairs.congr {m' : LruBiMap K V} (h : m.Pairs R) (hleft : m'.leftToRight = m.leftToRight)
    (hright : m'.rightToLeft = m.rightToLeft) : m'.Pairs R where
  left := by
    intro k v hget
    rw [getByLeft, hleft] at hget
    exact h.left k v hget
  inverse := by
    intro k v
    rw [getByLeft, getByRight, hleft, hright]
    exact h.inverse k v

/-- **Eviction keeps the pairs.** -/
theorem Pairs.evict (h : m.Pairs R) (key : K) : (m.evict key).Pairs R := by
  rcases hkey : m.leftToRight key with - | value
  · rw [LruBiMap.evict, hkey]
    exact h
  · have hmapLeft : (m.evict key).leftToRight = Function.update m.leftToRight key none := by
      rw [LruBiMap.evict, hkey]
    have hmapRight : (m.evict key).rightToLeft = Function.update m.rightToLeft value none := by
      rw [LruBiMap.evict, hkey]
    refine ⟨fun k v hget ↦ ?_, fun k v ↦ ?_⟩
    · rw [getByLeft, hmapLeft, Function.update_apply] at hget
      split_ifs at hget
      exact h.left k v hget
    · rw [getByLeft, getByRight, hmapLeft, hmapRight, Function.update_apply,
        Function.update_apply]
      split_ifs with hk hv hv
      · simp
      · -- the key has one value only
        subst hk
        refine iff_of_false (by simp) fun hget ↦ hv ?_
        exact Option.some.inj (((h.inverse k v).2 hget).symm.trans hkey)
      · refine iff_of_false (fun hget ↦ hk ?_) (by simp)
        have hright := (h.inverse key v).1 (hv ▸ hkey)
        exact Option.some.inj (((h.inverse k v).1 hget).symm.trans hright)
      · exact h.inverse k v

/-- **Insertion of a pair of a one-to-one relation keeps the pairs.** -/
theorem Pairs.insert (h : m.Pairs R) (hleft : ∀ {k k' v}, R k v → R k' v → k = k')
    (hright : ∀ {k v v'}, R k v → R k v' → v = v') {key : K} {value : V} (hR : R key value) :
    (m.insert key value).Pairs R := by
  -- room is made by eviction, or not at all
  have hroom : ∃ m' : LruBiMap K V, m'.Pairs R ∧
      (m.insert key value).leftToRight = Function.update m'.leftToRight key (some value) ∧
      (m.insert key value).rightToLeft = Function.update m'.rightToLeft value (some key) := by
    rw [LruBiMap.insert]
    simp only
    split
    · exact ⟨_, (h.evict _).congr rfl rfl, rfl, rfl⟩
    · exact ⟨_, h.congr rfl rfl, rfl, rfl⟩
  obtain ⟨m', h, hmapLeft, hmapRight⟩ := hroom
  refine ⟨fun k v hget ↦ ?_, fun k v ↦ ?_⟩
  · rw [getByLeft, hmapLeft, Function.update_apply] at hget
    split_ifs at hget with hk
    · rw [hk, ← Option.some.inj hget]
      exact hR
    · exact h.left k v hget
  · rw [getByLeft, getByRight, hmapLeft, hmapRight, Function.update_apply, Function.update_apply]
    split_ifs with hk hv hv
    · simp [hk, hv]
    · subst hk
      refine iff_of_false (fun hget ↦ hv (Option.some.inj hget).symm) fun hget ↦ hv ?_
      exact hright (h.right hget) hR
    · subst hv
      refine iff_of_false (fun hget ↦ hk ?_) fun hget ↦ hk (Option.some.inj hget).symm
      exact hleft (h.left k v hget) hR
    · exact h.inverse k v

theorem Pairs.insertAll (h : m.Pairs R) (hleft : ∀ {k k' v}, R k v → R k' v → k = k')
    (hright : ∀ {k v v'}, R k v → R k v' → v = v') {pairs : List (K × V)}
    (hR : ∀ pair ∈ pairs, R pair.1 pair.2) : (m.insertAll pairs).Pairs R := by
  induction pairs generalizing m with
  | nil => exact h
  | cons pair pairs ih =>
    refine ih (h.insert hleft hright (hR pair List.mem_cons_self)) fun q hq ↦ ?_
    exact hR q (List.mem_cons_of_mem _ hq)

end Pairs

end LruBiMap

end RethHl
