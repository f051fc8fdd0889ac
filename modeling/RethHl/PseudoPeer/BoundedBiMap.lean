import Mathlib.Data.Set.Card
import RethHl.PseudoPeer.LruBiMap

/-!
# When the two directions stay in step

What a bidirectional map with a limit is *for* is a set of **live pairs**: the pairs of the `limit`
keys that were inserted last, each with the last value it was given. That set is an `LruMap`, and
`LruBiMap` is meant to be it, readable from both sides.

The key list of the code does follow the live pairs, insertion by insertion (`lruKeys_insertAll`).
The two hash maps follow them as long as no insertion **conflicts** with a live pair: the same key
under another value, or the same value under another key. `insert` overwrites the entry of the key
and the entry of the value, but leaves the other half of a pair it overwrites where it is. From then
on one direction answers what the other denies, and a stale half is never evicted.

The condition is exact. The first conflicting insertion breaks the inverse law at once, and a
sequence without one keeps the code equal to the live pairs (`inSync_insertAll_iff`).
-/

namespace RethHl

namespace LruBiMap

variable {K V : Type} [DecidableEq K] [DecidableEq V]

@[simp] theorem insertAll_nil (m : LruBiMap K V) : m.insertAll [] = m := rfl

theorem insertAll_concat (m : LruBiMap K V) (pairs : List (K × V)) (pair : K × V) :
    m.insertAll (pairs ++ [pair]) = (m.insertAll pairs).insert pair.1 pair.2 := by
  rw [insertAll, List.foldl_append]
  rfl

/-! ### What one insertion does -/

/-- The key list takes every key. -/
theorem lruKeys_insert (m : LruBiMap K V) (key : K) (value : V) :
    (m.insert key value).lruKeys = m.lruKeys.insert key () := by
  rw [insert]
  simp only
  split <;> rfl

/-- With room, or for a known key, the two entries are written. -/
theorem insert_of_room {m : LruBiMap K V} {key : K} (value : V)
    (h : key ∉ m.lruKeys.keys → ¬ m.lruKeys.limit ≤ m.lruKeys.keys.length) :
    m.insert key value =
      { leftToRight := Function.update m.leftToRight key (some value)
        rightToLeft := Function.update m.rightToLeft value (some key)
        lruKeys := m.lruKeys.insert key () } := by
  have hnone : ¬ (key ∉ m.lruKeys.keys ∧ m.lruKeys.limit ≤ m.lruKeys.keys.length) :=
    fun hfull ↦ h hfull.1 hfull.2
  simp only [insert, LruCache.insertAndGetEvicted]
  rw [if_neg hnone]
  rcases decide (key ∉ m.lruKeys.keys) with - | - <;> rfl

/-- A new key in a full map is written after the oldest one has gone. -/
theorem insert_of_full {m : LruBiMap K V} {key oldest : K} (value : V)
    (hnew : key ∉ m.lruKeys.keys) (hfull : m.lruKeys.limit ≤ m.lruKeys.keys.length)
    (hlast : m.lruKeys.keys.getLast? = some oldest) :
    m.insert key value =
      { leftToRight := Function.update (m.evict oldest).leftToRight key (some value)
        rightToLeft := Function.update (m.evict oldest).rightToLeft value (some key)
        lruKeys := m.lruKeys.insert key () } := by
  simp only [insert, LruCache.insertAndGetEvicted]
  rw [if_pos ⟨hnew, hfull⟩, hlast]
  simp only [hnew, not_false_eq_true, decide_true]

theorem leftToRight_evict_of_ne (m : LruBiMap K V) {key k : K} (hne : k ≠ key) :
    (m.evict key).leftToRight k = m.leftToRight k := by
  rw [evict]
  split
  · rfl
  · exact Function.update_of_ne hne _ _

/-- **Another key keeps its value** unless it has to go. -/
theorem getByLeft_insert_of_ne {m : LruBiMap K V} {key k : K} (value : V) (hne : k ≠ key)
    (hpos : 0 < m.lruKeys.limit)
    (hstays : key ∉ m.lruKeys.keys → m.lruKeys.limit ≤ m.lruKeys.keys.length →
      m.lruKeys.keys.getLast? ≠ some k) :
    (m.insert key value).getByLeft k = m.getByLeft k := by
  by_cases hfull : key ∉ m.lruKeys.keys ∧ m.lruKeys.limit ≤ m.lruKeys.keys.length
  · have hnonempty : m.lruKeys.keys ≠ [] :=
      List.ne_nil_of_length_pos (Nat.lt_of_lt_of_le hpos hfull.2)
    have hlast := List.getLast?_eq_some_getLast hnonempty
    have hk : k ≠ m.lruKeys.keys.getLast hnonempty := by
      rintro rfl
      exact hstays hfull.1 hfull.2 hlast
    rw [insert_of_full value hfull.1 hfull.2 hlast]
    exact (Function.update_of_ne hne _ _).trans (leftToRight_evict_of_ne m hk)
  · rw [insert_of_room value fun hnew hle ↦ hfull ⟨hnew, hle⟩]
    exact Function.update_of_ne hne _ _

/-- The pair just inserted can be read from both sides. -/
theorem getBy_insert (m : LruBiMap K V) (key : K) (value : V) :
    (m.insert key value).getByLeft key = some value ∧
      (m.insert key value).getByRight value = some key := by
  rw [insert]
  exact ⟨Function.update_self .., Function.update_self ..⟩

/-! ### The live pairs -/

/-- The pairs a bounded map of the given limit holds after a sequence of insertions. -/
def live (limit : ℕ) (inserts : List (K × V)) : LruMap K V :=
  (LruMap.empty limit).insertAll inserts

omit [DecidableEq V] in
theorem live_concat (limit : ℕ) (inserts : List (K × V)) (pair : K × V) :
    live limit (inserts ++ [pair]) = (live limit inserts).insert pair.1 pair.2 := by
  rw [live, LruMap.insertAll_append]
  rfl

omit [DecidableEq V] in
@[simp] theorem limit_live (limit : ℕ) (inserts : List (K × V)) :
    (live limit inserts).limit = limit := by
  rw [live, LruMap.limit_insertAll, LruMap.limit_empty]

/-- **The key list holds the live keys**, in the same order. -/
theorem lruKeys_insertAll (limit : ℕ) (inserts : List (K × V)) :
    ((new limit : LruBiMap K V).insertAll inserts).lruKeys.keys = (live limit inserts).keys ∧
      ((new limit : LruBiMap K V).insertAll inserts).lruKeys.limit = limit := by
  induction inserts using List.reverseRecOn with
  | nil => exact ⟨rfl, rfl⟩
  | append_singleton inserts pair ih =>
    rw [insertAll_concat, live_concat, lruKeys_insert, LruMap.keys_insert, LruMap.keys_insert,
      limit_live, ih.1, ih.2]
    exact ⟨rfl, ih.2⟩

/-! ### Both maps hold the same pairs -/

/-- Both maps hold exactly the pairs of a relation. -/
structure Holds (m : LruBiMap K V) (P : K → V → Prop) : Prop where
  left : ∀ k v, m.getByLeft k = some v ↔ P k v
  right : ∀ k v, m.getByRight v = some k ↔ P k v

namespace Holds

variable {m : LruBiMap K V} {P Q : K → V → Prop}

omit [DecidableEq K] [DecidableEq V] in
theorem congr (h : m.Holds P) (hPQ : ∀ k v, P k v ↔ Q k v) : m.Holds Q where
  left := fun k v ↦ (h.left k v).trans (hPQ k v)
  right := fun k v ↦ (h.right k v).trans (hPQ k v)

/-- **Eviction takes the pair of a key out of both maps.** -/
theorem evict (h : m.Holds P) (key : K) : (m.evict key).Holds fun k v ↦ P k v ∧ k ≠ key := by
  rcases hkey : m.leftToRight key with - | value
  · rw [LruBiMap.evict, hkey]
    refine h.congr fun k v ↦ ⟨fun hP ↦ ⟨hP, ?_⟩, fun hP ↦ hP.1⟩
    rintro rfl
    have hget : m.leftToRight k = some v := (h.left k v).2 hP
    rw [hkey] at hget
    cases hget
  · have hvalue : P key value := (h.left key value).1 hkey
    have hevict : m.evict key =
        { m with
          leftToRight := Function.update m.leftToRight key none
          rightToLeft := Function.update m.rightToLeft value none } := by
      rw [LruBiMap.evict, hkey]
    rw [hevict]
    refine ⟨fun k v ↦ ?_, fun k v ↦ ?_⟩
    · show Function.update m.leftToRight key none k = some v ↔ _
      rw [Function.update_apply]
      split_ifs with hk
      · simp [hk]
      · simpa [hk, getByLeft] using h.left k v
    · show Function.update m.rightToLeft value none v = some k ↔ _
      rw [Function.update_apply]
      split_ifs with hv
      · -- the value belongs to the evicted key alone
        subst hv
        refine iff_of_false (by simp) fun hP ↦ hP.2 ?_
        exact Option.some.inj (((h.right k v).2 hP.1).symm.trans ((h.right key v).2 hvalue))
      · refine (h.right k v).trans ⟨fun hP ↦ ⟨hP, ?_⟩, fun hP ↦ hP.1⟩
        rintro rfl
        exact hv (Option.some.inj (((h.left k v).2 hP).symm.trans hkey))

/-- **Writing a pair that agrees with the pairs held.** -/
theorem put (h : m.Holds P) {key : K} {value : V} (hkey : ∀ v, P key v → v = value)
    (hvalue : ∀ k, P k value → k = key) (lruKeys : LruCache K) :
    Holds
      { leftToRight := Function.update m.leftToRight key (some value)
        rightToLeft := Function.update m.rightToLeft value (some key)
        lruKeys := lruKeys }
      fun k v ↦ (k = key ∧ v = value) ∨ P k v := by
  refine ⟨fun k v ↦ ?_, fun k v ↦ ?_⟩
  · show Function.update m.leftToRight key (some value) k = some v ↔ _
    rw [Function.update_apply]
    split_ifs with hk
    · subst hk
      refine ⟨fun hv ↦ Or.inl ⟨rfl, (Option.some.inj hv).symm⟩, ?_⟩
      rintro (⟨-, rfl⟩ | hP)
      · rfl
      · rw [hkey v hP]
    · simpa [hk, getByLeft] using h.left k v
  · show Function.update m.rightToLeft value (some key) v = some k ↔ _
    rw [Function.update_apply]
    split_ifs with hv
    · subst hv
      refine ⟨fun hk ↦ Or.inl ⟨(Option.some.inj hk).symm, rfl⟩, ?_⟩
      rintro (⟨rfl, -⟩ | hP)
      · rfl
      · rw [hvalue k hP]
    · simpa [hv, getByRight] using h.right k v

end Holds

/-- A pair that does not conflict with the pairs of a bounded map: its key is new or has this value,
and no other key that stays has the value. -/
structure Compatible (m : LruMap K V) (pair : K × V) : Prop where
  key : ∀ value ∈ m.get pair.1, value = pair.2
  value : ∀ other ∈ (m.insert pair.1 pair.2).entries, other.2 = pair.2 → other.1 = pair.1

/-- Every insertion is compatible with the pairs that are live when it comes. -/
def NoConflict (limit : ℕ) (inserts : List (K × V)) : Prop :=
  ∀ front pair, front ++ [pair] <+: inserts → Compatible (live limit front) pair

omit [DecidableEq V] in
theorem noConflict_nil (limit : ℕ) : NoConflict limit ([] : List (K × V)) := by
  intro front pair h
  have hnil := List.prefix_nil.1 h
  simp at hnil

omit [DecidableEq V] in
theorem noConflict_concat {limit : ℕ} {inserts : List (K × V)} {pair : K × V} :
    NoConflict limit (inserts ++ [pair]) ↔
      NoConflict limit inserts ∧ Compatible (live limit inserts) pair := by
  constructor
  · intro h
    exact ⟨fun front other hother ↦ h front other (hother.trans (List.prefix_append _ _)),
      h inserts pair List.prefix_rfl⟩
  · rintro ⟨hinserts, hpair⟩ front other h
    rcases List.prefix_concat_iff.1 h with heq | hprefix
    · obtain ⟨rfl, rfl⟩ := List.append_inj' heq rfl |>.imp id (by simpa using ·)
      exact hpair
    · exact hinserts front other hprefix

/-- **One compatible insertion.** If the maps hold the live pairs, they hold them after it. -/
theorem Holds.insert {m : LruBiMap K V} {lru : LruMap K V} {pair : K × V}
    (h : m.Holds fun k v ↦ (k, v) ∈ lru.entries) (hkeys : m.lruKeys.keys = lru.keys)
    (hlimit : m.lruKeys.limit = lru.limit) (hpos : 0 < lru.limit) (hpair : Compatible lru pair) :
    (m.insert pair.1 pair.2).Holds fun k v ↦ (k, v) ∈ (lru.insert pair.1 pair.2).entries := by
  obtain ⟨key, value⟩ := pair
  have hget : ∀ v, (key, v) ∈ lru.entries → v = value :=
    fun v hv ↦ hpair.key v (LruMap.get_of_mem_entries hv)
  -- the oldest key goes exactly when a new one meets a full map
  by_cases hfull : key ∉ lru.keys ∧ lru.limit ≤ lru.keys.length
  · obtain ⟨oldest, hlast⟩ : ∃ oldest, lru.keys.getLast? = some oldest := by
      have hne : lru.keys ≠ [] := List.ne_nil_of_length_pos (Nat.lt_of_lt_of_le hpos hfull.2)
      exact ⟨_, List.getLast?_eq_some_getLast hne⟩
    have hmem : ∀ k v, (k, v) ∈ (lru.insert key value).entries ↔
        (k = key ∧ v = value) ∨ (k, v) ∈ lru.entries ∧ k ≠ oldest := by
      intro k v
      rw [LruMap.mem_entries_insert_iff hpos, Prod.mk.injEq]
      refine or_congr_right ⟨fun hold ↦ ⟨hold.1, ?_⟩, fun hold ↦ ⟨hold.1, ?_, fun _ _ hk ↦ ?_⟩⟩
      · rintro rfl
        exact hold.2.2 hfull.1 hfull.2 hlast
      · rintro rfl
        exact hfull.1 (List.mem_map_of_mem hold.1)
      · exact hold.2 (Option.some.inj (hk.symm.trans hlast))
    rw [insert_of_full value (hkeys ▸ hfull.1) (hkeys ▸ hlimit ▸ hfull.2) (hkeys ▸ hlast)]
    refine ((h.evict oldest).put (fun v hv ↦ hget v hv.1) (fun k hk ↦ ?_) _).congr
      fun k v ↦ (hmem k v).symm
    exact hpair.value (k, value) ((hmem k value).2 (Or.inr hk)) rfl
  · have hroom : key ∉ lru.keys → ¬ lru.limit ≤ lru.keys.length :=
      fun hnew hle ↦ hfull ⟨hnew, hle⟩
    have hmem : ∀ k v, (k, v) ∈ (lru.insert key value).entries ↔
        (k = key ∧ v = value) ∨ (k, v) ∈ lru.entries := by
      intro k v
      rw [LruMap.mem_entries_insert_iff hpos, Prod.mk.injEq]
      refine ⟨fun hk ↦ hk.imp id (·.1), ?_⟩
      rintro (hnew | hold)
      · exact Or.inl hnew
      · by_cases hk : k = key
        · subst hk
          exact Or.inl ⟨rfl, hget v hold⟩
        · exact Or.inr ⟨hold, hk, fun hnew hle ↦ absurd hle (hroom hnew)⟩
    rw [insert_of_room value (hkeys ▸ hlimit ▸ hroom)]
    refine (h.put hget (fun k hk ↦ ?_) _).congr fun k v ↦ (hmem k v).symm
    exact hpair.value (k, value) ((hmem k value).2 (Or.inr hk)) rfl

/-- **Without a conflict the code holds the live pairs.** -/
theorem holds_insertAll {limit : ℕ} (hlimit : 1 ≤ limit) {inserts : List (K × V)}
    (h : NoConflict limit inserts) :
    ((new limit).insertAll inserts).Holds fun k v ↦ (k, v) ∈ (live limit inserts).entries := by
  induction inserts using List.reverseRecOn with
  | nil =>
    refine ⟨fun k v ↦ ?_, fun k v ↦ ?_⟩ <;> exact iff_of_false (fun h ↦ nomatch h) List.not_mem_nil
  | append_singleton inserts pair ih =>
    obtain ⟨hinserts, hpair⟩ := noConflict_concat.1 h
    obtain ⟨hkeys, hlim⟩ := lruKeys_insertAll limit inserts
    rw [insertAll_concat, live_concat]
    refine (ih hinserts).insert hkeys ?_ ?_ hpair
    · rw [hlim, limit_live]
    · rw [limit_live]
      exact hlimit

/-! ### The contract of the map -/

/-- What a bounded bidirectional map promises right after a pair has been inserted. -/
structure InSync (m : LruBiMap K V) (limit : ℕ) (pair : K × V) : Prop where
  inverse : ∀ k v, m.getByLeft k = some v ↔ m.getByRight v = some k
  leftLe : { k | (m.getByLeft k).isSome }.encard ≤ limit
  rightLe : { v | (m.getByRight v).isSome }.encard ≤ limit
  leftLast : m.getByLeft pair.1 = some pair.2
  rightLast : m.getByRight pair.2 = some pair.1

omit [DecidableEq K] [DecidableEq V] in
/-- A set whose elements occur in a list is no larger than the list. -/
theorem encard_le_of_mem_list {α : Type} {s : Set α} {l : List α} {n : ℕ} (hs : ∀ a ∈ s, a ∈ l)
    (hl : l.length ≤ n) : s.encard ≤ n := by
  classical
  calc s.encard ≤ (l.toFinset : Set α).encard := Set.encard_le_encard fun a ha ↦ by
        simpa using hs a ha
    _ = l.toFinset.card := Set.encard_coe_eq_coe_finsetCard _
    _ ≤ n := Nat.cast_le.2 ((List.toFinset_card_le l).trans hl)

omit [DecidableEq K] [DecidableEq V] in
/-- Holding the pairs of a bounded map is keeping the contract. -/
theorem Holds.inSync {m : LruBiMap K V} {lru : LruMap K V} {pair : K × V}
    (h : m.Holds fun k v ↦ (k, v) ∈ lru.entries) (hpair : m.getByLeft pair.1 = some pair.2) :
    m.InSync lru.limit pair where
  inverse := fun k v ↦ (h.left k v).trans (h.right k v).symm
  leftLe := by
    refine encard_le_of_mem_list (l := lru.entries.map Prod.fst) (fun k hk ↦ ?_)
      ((List.length_map _).trans_le lru.length_le)
    obtain ⟨v, hv⟩ := Option.isSome_iff_exists.1 hk
    exact List.mem_map_of_mem ((h.left k v).1 hv)
  rightLe := by
    refine encard_le_of_mem_list (l := lru.entries.map Prod.snd) (fun v hv ↦ ?_)
      ((List.length_map _).trans_le lru.length_le)
    obtain ⟨k, hk⟩ := Option.isSome_iff_exists.1 hv
    exact List.mem_map_of_mem ((h.right k v).1 hk)
  leftLast := hpair
  rightLast := (h.right _ _).2 ((h.left _ _).1 hpair)

/-- **A conflict shows at once**: if the maps held the live pairs before an insertion and are
inverse to each other after it, the insertion was compatible. -/
theorem Holds.compatible {m : LruBiMap K V} {lru : LruMap K V} {pair : K × V}
    (h : m.Holds fun k v ↦ (k, v) ∈ lru.entries) (hkeys : m.lruKeys.keys = lru.keys)
    (hlimit : m.lruKeys.limit = lru.limit) (hpos : 0 < lru.limit)
    (hinverse : ∀ k v, (m.insert pair.1 pair.2).getByLeft k = some v ↔
      (m.insert pair.1 pair.2).getByRight v = some k) : Compatible lru pair := by
  obtain ⟨key, value⟩ := pair
  obtain ⟨hleft, hright⟩ := getBy_insert m key value
  refine ⟨fun value' hvalue' ↦ ?_, fun other hother heq ↦ ?_⟩
  · -- a known key is not evicted, so the entry of its old value stays
    have hmem : (key, value') ∈ lru.entries := LruMap.mem_entries_of_get hvalue'
    have hkey : key ∈ lru.keys := List.mem_map_of_mem hmem
    by_contra hne
    have hstale : (m.insert key value).getByRight value' = some key := by
      rw [insert_of_room value fun hnew ↦ absurd (hkeys ▸ hkey) hnew]
      exact (Function.update_of_ne hne _ _).trans ((h.right key value').2 hmem)
    exact hne (Option.some.inj (((hinverse key value').2 hstale).symm.trans hleft))
  · rcases (LruMap.mem_entries_insert_iff hpos).1 hother with rfl | ⟨hold, hne, hstays⟩
    · rfl
    · have hget := getByLeft_insert_of_ne value hne (hlimit ▸ hpos)
        (by rw [hkeys, hlimit]; exact hstays)
      have hother : m.getByLeft other.1 = some value := by
        rw [← show other.2 = value from heq]
        exact (h.left _ _).2 hold
      have hback := (hinverse other.1 value).1 (hget.trans hother)
      exact Option.some.inj (hback.symm.trans hright)

/-- **When a bidirectional map is one.** After every insertion of a sequence the two maps are
inverse to each other, respect the limit and hold the pair just inserted exactly when no insertion
gives a live key another value or a live value another key. -/
theorem inSync_insertAll_iff {limit : ℕ} (hlimit : 1 ≤ limit) (inserts : List (K × V)) :
    (∀ front pair, front ++ [pair] <+: inserts →
      ((new limit).insertAll (front ++ [pair])).InSync limit pair) ↔
    NoConflict limit inserts := by
  induction inserts using List.reverseRecOn with
  | nil =>
    refine iff_of_true (fun front pair h ↦ ?_) (noConflict_nil limit)
    simpa using List.prefix_nil.1 h
  | append_singleton inserts last ih =>
    constructor
    · intro h
      have hinserts := ih.1 fun front pair hpair ↦
        h front pair (hpair.trans (List.prefix_append _ _))
      refine noConflict_concat.2 ⟨hinserts, ?_⟩
      have hlast := h inserts last List.prefix_rfl
      obtain ⟨hkeys, hlim⟩ := lruKeys_insertAll limit inserts
      rw [insertAll_concat] at hlast
      -- up to here the map holds what is live, and then the last insertion can be judged by it
      refine (holds_insertAll hlimit hinserts).compatible hkeys ?_ ?_ hlast.inverse
      · rw [hlim, limit_live]
      · rw [limit_live]
        exact hlimit
    · intro h front pair hpair
      have hfront : NoConflict limit (front ++ [pair]) :=
        fun front' pair' hpair' ↦ h front' pair' (hpair'.trans hpair)
      have hlast : ((new limit).insertAll (front ++ [pair])).getByLeft pair.1 = some pair.2 := by
        rw [insertAll_concat]
        exact (getBy_insert _ _ _).1
      have hsync := (holds_insertAll hlimit hfront).inSync hlast
      rwa [limit_live] at hsync

/-- A key inserted again and a value that passes on to a new key as its old one is evicted. -/
theorem inSync_reinsert_and_evict :
    ((new 2 : LruBiMap ℕ ℕ).insertAll ([(1, 5), (2, 6)] ++ [(1, 5)])).InSync 2 (1, 5) ∧
      ((new 2 : LruBiMap ℕ ℕ).insertAll ([(1, 5), (2, 6), (1, 5)] ++ [(3, 6)])).InSync 2
        (3, 6) := by
  have h₁ : NoConflict 2 [(1, 5)] :=
    noConflict_concat.2 ⟨noConflict_nil 2, by decide, by decide⟩
  have h₂ : NoConflict 2 ([(1, 5)] ++ [(2, 6)]) :=
    noConflict_concat.2 ⟨h₁, by decide, by decide⟩
  have h₃ : NoConflict 2 ([(1, 5), (2, 6)] ++ [(1, 5)]) :=
    noConflict_concat.2 ⟨h₂, by decide, by decide⟩
  have h₄ : NoConflict 2 ([(1, 5), (2, 6), (1, 5)] ++ [(3, 6)]) :=
    noConflict_concat.2 ⟨h₃, by decide, by decide⟩
  have hsync := (inSync_insertAll_iff (by decide) _).2 h₄
  exact ⟨hsync _ _ (List.prefix_append _ _), hsync _ _ List.prefix_rfl⟩

/-- Two keys with one value: the first still reads the value, the value reads the second. -/
theorem not_inSync_shared_value :
    ¬ ((new 2 : LruBiMap ℕ ℕ).insertAll ([(1, 5)] ++ [(2, 5)])).InSync 2 (2, 5) := by
  intro h
  have hback := (h.inverse 1 5).1 (by decide)
  revert hback
  decide

end LruBiMap

end RethHl
