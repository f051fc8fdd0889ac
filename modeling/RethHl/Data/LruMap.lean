import Mathlib.Data.Finset.Card
import Mathlib.Data.List.Dedup
import Mathlib.Data.List.Nodup

/-!
# A bounded map that evicts the least recently inserted key

A map of at most `limit` entries, kept as a list with the **most recently inserted entry first**.
Inserting a key moves it to the front and cuts the list at the limit, so an insertion of a new key
into a full map drops exactly the entry at the back. Reading does not move an entry; `remove` takes
one out.

The order of the list is the whole state of the eviction policy, and it gives the one fact a caller
needs: a key survives a batch of later insertions exactly when fewer than `limit` *distinct* other
keys were inserted after it (`isSome_get_insertAll_iff`). The map's earlier contents play no part in
that, because everything in them is older.

Both bounds are fields of the structure: no key occurs twice, and the list is never longer than the
limit.
-/

universe u v

/-- A map of at most `limit` entries, most recently inserted first. -/
structure LruMap (K : Type u) (V : Type v) where
  /-- The capacity. -/
  limit : ℕ
  /-- The entries, most recently inserted first. -/
  entries : List (K × V)
  /-- No key occurs twice. -/
  nodup_keys : (entries.map Prod.fst).Nodup
  /-- The capacity is respected. -/
  length_le : entries.length ≤ limit

namespace LruMap

variable {K : Type u} {V : Type v}

/-- The empty map of the given capacity. -/
def empty (limit : ℕ) : LruMap K V where
  limit := limit
  entries := []
  nodup_keys := List.nodup_nil
  length_le := Nat.zero_le limit

/-- The keys, most recently inserted first. -/
def keys (m : LruMap K V) : List K :=
  m.entries.map Prod.fst

variable [DecidableEq K]

/-- Insert at the front, dropping an older entry of the same key, and cut at the limit. -/
def insert (m : LruMap K V) (k : K) (v : V) : LruMap K V where
  limit := m.limit
  entries := ((k, v) :: m.entries.filter fun e ↦ e.1 ≠ k).take m.limit
  nodup_keys := by
    refine List.Nodup.sublist ((List.take_sublist _ _).map _) ?_
    rw [List.map_cons, List.nodup_cons]
    refine ⟨?_, List.Nodup.sublist ((List.filter_sublist).map _) m.nodup_keys⟩
    rw [List.mem_map]
    rintro ⟨e, he, rfl⟩
    simp at he
  length_le := by
    rw [List.length_take]
    exact Nat.min_le_left _ _

/-- The value stored under a key. -/
def get (m : LruMap K V) (k : K) : Option V :=
  m.entries.lookup k

/-- Take the entry of a key out of the map. -/
def erase (m : LruMap K V) (k : K) : LruMap K V where
  limit := m.limit
  entries := m.entries.filter fun e ↦ e.1 ≠ k
  nodup_keys := List.Nodup.sublist ((List.filter_sublist).map _) m.nodup_keys
  length_le := (List.length_filter_le _ _).trans m.length_le

/-- The destructive read: the value of a key, and the map without it. -/
def remove (m : LruMap K V) (k : K) : Option V × LruMap K V :=
  (m.get k, m.erase k)

/-- The read that counts as a use: the value of a key, and the map with its entry at the front. -/
def getMut (m : LruMap K V) (k : K) : Option V × LruMap K V :=
  match m.get k with
  | some v => (some v, m.insert k v)
  | none => (none, m)

/-- Insert a list of entries in order. -/
def insertAll (m : LruMap K V) (kvs : List (K × V)) : LruMap K V :=
  kvs.foldl (fun m kv ↦ m.insert kv.1 kv.2) m

omit [DecidableEq K] in
@[simp] theorem limit_empty (n : ℕ) : (empty n : LruMap K V).limit = n := rfl

@[simp] theorem limit_insert (m : LruMap K V) (k : K) (v : V) :
    (m.insert k v).limit = m.limit :=
  rfl

@[simp] theorem limit_erase (m : LruMap K V) (k : K) : (m.erase k).limit = m.limit := rfl

@[simp] theorem get_empty (n : ℕ) (k : K) : (empty n : LruMap K V).get k = none := rfl

@[simp] theorem insertAll_nil (m : LruMap K V) : m.insertAll [] = m := rfl

@[simp] theorem insertAll_cons (m : LruMap K V) (kv : K × V) (kvs : List (K × V)) :
    m.insertAll (kv :: kvs) = (m.insert kv.1 kv.2).insertAll kvs :=
  rfl

theorem insertAll_append (m : LruMap K V) (xs ys : List (K × V)) :
    m.insertAll (xs ++ ys) = (m.insertAll xs).insertAll ys :=
  List.foldl_append

@[simp] theorem limit_insertAll (m : LruMap K V) (kvs : List (K × V)) :
    (m.insertAll kvs).limit = m.limit := by
  induction kvs generalizing m with
  | nil => rfl
  | cons kv kvs ih => rw [insertAll_cons, ih, limit_insert]

/-! ### Membership -/

/-- A stored value is stored in an entry. -/
theorem mem_entries_of_get {m : LruMap K V} {k : K} {v : V} (h : m.get k = some v) :
    (k, v) ∈ m.entries := by
  obtain ⟨l₁, l₂, hl, -⟩ := List.lookup_eq_some_iff.1 h
  rw [hl]
  exact List.mem_append_right _ List.mem_cons_self

/-- And an entry is what its key reads, as no key occurs twice. -/
theorem get_of_mem_entries {m : LruMap K V} {k : K} {v : V} (h : (k, v) ∈ m.entries) :
    m.get k = some v := by
  obtain ⟨l₁, l₂, hl⟩ := List.append_of_mem h
  refine List.lookup_eq_some_iff.2 ⟨l₁, l₂, hl, fun e he ↦ ?_⟩
  have hnd := m.nodup_keys
  rw [hl, List.map_append, List.nodup_append] at hnd
  have hne : e.1 ≠ k := hnd.2.2 _ (List.mem_map_of_mem he) _ List.mem_cons_self
  simpa using hne.symm

/-- A key reads as present exactly when it is one of the keys. -/
theorem isSome_get_iff {m : LruMap K V} {k : K} : (m.get k).isSome ↔ k ∈ m.keys := by
  constructor
  · intro h
    obtain ⟨v, hv⟩ := Option.isSome_iff_exists.1 h
    exact List.mem_map_of_mem (mem_entries_of_get hv)
  · intro h
    obtain ⟨e, he, rfl⟩ := List.mem_map.1 h
    rw [Option.isSome_iff_ne_none]
    intro hnone
    have hne := List.lookup_eq_none_iff.1 hnone e he
    simp at hne

/-- Taking one key out leaves the others where they are. -/
theorem mem_entries_of_mem_erase {m : LruMap K V} {k : K} {e : K × V}
    (h : e ∈ (m.erase k).entries) : e ∈ m.entries :=
  List.mem_of_mem_filter h

/-- An entry after an insertion is the inserted one or an older one. -/
theorem mem_entries_insert {m : LruMap K V} {k : K} {v : V} {e : K × V}
    (h : e ∈ (m.insert k v).entries) : e = (k, v) ∨ e ∈ m.entries := by
  rcases List.mem_cons.1 (List.mem_of_mem_take h) with h | h
  · exact Or.inl h
  · exact Or.inr (List.mem_of_mem_filter h)

/-- A key that is there already needs no room. -/
theorem entries_insert_of_mem {m : LruMap K V} {k : K} (hk : k ∈ m.keys) (v : V) :
    (m.insert k v).entries = (k, v) :: m.entries.filter fun e ↦ e.1 ≠ k := by
  refine List.take_of_length_le ?_
  obtain ⟨e, he, hek⟩ := List.mem_map.1 hk
  have hlt : (m.entries.filter fun e ↦ e.1 ≠ k).length < m.entries.length :=
    List.length_filter_lt_length_iff_exists.2 ⟨e, he, by simp [hek]⟩
  rw [List.length_cons]
  exact Nat.lt_of_lt_of_le hlt m.length_le

/-- A new key goes to the front, and a full map drops its last entry. -/
theorem entries_insert_of_notMem {m : LruMap K V} {k : K} (hk : k ∉ m.keys) (v : V) :
    (m.insert k v).entries = ((k, v) :: m.entries).take m.limit := by
  have hfilter : (m.entries.filter fun e ↦ e.1 ≠ k) = m.entries := by
    refine List.filter_eq_self.2 fun e he ↦ ?_
    simpa using fun h : e.1 = k ↦ hk (h ▸ List.mem_map_of_mem he)
  rw [← hfilter]
  rfl

/-- **The entries after an insertion**: the new one, and every older one except one of the same key
and, when a new key comes into a full map, the oldest one. -/
theorem mem_entries_insert_iff {m : LruMap K V} (hlimit : 0 < m.limit) {k : K} {v : V}
    {e : K × V} :
    e ∈ (m.insert k v).entries ↔ e = (k, v) ∨ e ∈ m.entries ∧ e.1 ≠ k ∧
      (k ∉ m.keys → m.limit ≤ m.keys.length → m.keys.getLast? ≠ some e.1) := by
  by_cases hk : k ∈ m.keys
  · rw [entries_insert_of_mem hk]
    simp [hk]
  rw [entries_insert_of_notMem hk]
  have hne : e ∈ m.entries → e.1 ≠ k := fun he h ↦ hk (h ▸ List.mem_map_of_mem he)
  have hlen : m.keys.length = m.entries.length := List.length_map _
  rcases Nat.lt_or_ge m.entries.length m.limit with hroom | hfull
  · rw [List.take_of_length_le hroom]
    have hfalse : ¬ m.limit ≤ m.keys.length := by omega
    simp only [List.mem_cons, hfalse, false_implies, implies_true, and_true]
    exact or_congr_right ⟨fun he ↦ ⟨he, hne he⟩, fun he ↦ he.1⟩
  · -- the map is full, and what the cut removes is the last entry
    have hlim : m.limit = m.entries.length := Nat.le_antisymm hfull m.length_le
    have hne_nil : m.entries ≠ [] := List.ne_nil_of_length_pos (hlim ▸ hlimit)
    obtain ⟨front, last, hsplit⟩ : ∃ front last, m.entries = front ++ [last] :=
      ⟨_, _, (List.dropLast_append_getLast hne_nil).symm⟩
    have hkeys : m.keys = front.map Prod.fst ++ [last.1] := by
      rw [keys, hsplit, List.map_append, List.map_singleton]
    have hlast : last.1 ∉ front.map Prod.fst := by
      have hnd : m.keys.Nodup := m.nodup_keys
      rw [hkeys, List.nodup_append] at hnd
      exact fun h ↦ hnd.2.2 _ h _ List.mem_cons_self rfl
    rw [hlim, hsplit, List.length_append, List.length_singleton, List.take_succ_cons,
      List.take_left, List.mem_cons, List.mem_append, List.mem_singleton, hkeys,
      List.getLast?_append]
    refine or_congr_right ⟨fun he ↦ ⟨Or.inl he, ?_, fun _ _ h ↦ ?_⟩, fun he ↦ ?_⟩
    · exact hne (hsplit ▸ List.mem_append_left _ he)
    · have h : last.1 = e.1 := Option.some.inj h
      exact hlast (h ▸ List.mem_map_of_mem he)
    · refine he.1.resolve_right fun h ↦ ?_
      refine he.2.2 ?_ ?_ (by simp [h])
      · exact hkeys ▸ hk
      · simp

/-- An entry after a batch is one of the batch or an older one. -/
theorem mem_entries_insertAll {m : LruMap K V} {kvs : List (K × V)} {e : K × V}
    (h : e ∈ (m.insertAll kvs).entries) : e ∈ kvs ∨ e ∈ m.entries := by
  induction kvs generalizing m with
  | nil => exact Or.inr h
  | cons kv kvs ih =>
    rcases ih h with h | h
    · exact Or.inl (List.mem_cons_of_mem _ h)
    · rcases mem_entries_insert h with rfl | h
      · exact Or.inl List.mem_cons_self
      · exact Or.inr h

/-! ### Survival of a key

The position of a key is the number of keys inserted after it, so the invariant is about the list of
those: `keys = newer ++ k :: older`. -/

omit [DecidableEq K] in
theorem keys_nodup (m : LruMap K V) : m.keys.Nodup :=
  m.nodup_keys

theorem keys_insert (m : LruMap K V) (k : K) (v : V) :
    (m.insert k v).keys = (k :: m.keys.filter fun k' ↦ k' ≠ k).take m.limit := by
  simp only [keys, insert, List.map_take, List.map_cons]
  rw [List.filter_map]
  rfl

/-- A key that is out stays out while other keys come in. -/
theorem notMem_keys_insertAll {m : LruMap K V} {k : K} {kvs : List (K × V)}
    (hk : k ∉ kvs.map Prod.fst) (hm : k ∉ m.keys) : k ∉ (m.insertAll kvs).keys := by
  rw [keys, List.mem_map]
  rintro ⟨e, he, rfl⟩
  rcases mem_entries_insertAll he with h | h
  · exact hk (List.mem_map_of_mem h)
  · exact hm (List.mem_map_of_mem h)

/-- One insertion of another key: the key of interest survives exactly when the keys inserted since
still fit, and then they are the old newer keys with the inserted one in front. -/
theorem keys_insert_of_split {m : LruMap K V} {k k' : K} {v : V} {newer older : List K}
    (hsplit : m.keys = newer ++ k :: older) (hne : k' ≠ k) :
    (m.insert k' v).keys =
      ((k' :: newer.filter fun x ↦ x ≠ k') ++
        k :: older.filter fun x ↦ x ≠ k').take m.limit := by
  rw [keys_insert, hsplit, List.filter_append, List.filter_cons_of_pos (by simpa using hne.symm)]
  rfl

/-- The number of distinct keys among the newer ones after an insertion. -/
theorem length_cons_filter_eq_card {newer : List K} (hnd : newer.Nodup) (k' : K) :
    (k' :: newer.filter fun x ↦ x ≠ k').length = (k' :: newer).toFinset.card := by
  have hnd' : (k' :: newer.filter fun x ↦ x ≠ k').Nodup :=
    List.nodup_cons.2 ⟨by simp, hnd.filter _⟩
  rw [← List.toFinset_card_of_nodup hnd']
  congr 1
  ext x
  by_cases hx : x = k' <;> simp [hx]

/-- **Survival of a batch of other keys.** With `newer` in front of `k`, the key survives exactly
when the distinct keys among `newer` and the batch number fewer than the limit. -/
theorem mem_keys_insertAll_of_split {m : LruMap K V} {k : K} {newer older : List K}
    {kvs : List (K × V)} (hsplit : m.keys = newer ++ k :: older)
    (hk : k ∉ kvs.map Prod.fst) :
    k ∈ (m.insertAll kvs).keys ↔ (newer ++ kvs.map Prod.fst).toFinset.card < m.limit := by
  induction kvs generalizing m newer older with
  | nil =>
    have hnd : newer.Nodup := (List.nodup_append.1 (hsplit ▸ m.keys_nodup)).1
    have hlen : newer.length < m.limit := by
      have h := m.length_le
      have h' : m.keys.length = m.entries.length := List.length_map _
      rw [hsplit, List.length_append, List.length_cons] at h'
      omega
    simp only [insertAll_nil, List.map_nil, List.append_nil, List.toFinset_card_of_nodup hnd, hlen,
      hsplit, List.mem_append, List.mem_cons, true_or, or_true]
  | cons kv kvs ih =>
    have hnd : newer.Nodup := (List.nodup_append.1 (hsplit ▸ m.keys_nodup)).1
    have hne : kv.1 ≠ k := fun h ↦ hk (by simp [h])
    have hk' : k ∉ kvs.map Prod.fst := fun h ↦ hk (List.mem_cons_of_mem _ h)
    have hkeys := keys_insert_of_split (v := kv.2) hsplit hne
    have hcard := length_cons_filter_eq_card hnd kv.1
    have hperm : (newer ++ (kv :: kvs).map Prod.fst).toFinset =
        ((kv.1 :: newer.filter fun x ↦ x ≠ kv.1) ++ kvs.map Prod.fst).toFinset := by
      ext x
      by_cases hx : x = kv.1 <;> simp [hx]
    rw [insertAll_cons, hperm]
    rcases Nat.lt_or_ge (kv.1 :: newer.filter fun x ↦ x ≠ kv.1).length m.limit with hlt | hge
    · -- the key keeps its place behind one more distinct newer key
      have hsplit' : (m.insert kv.1 kv.2).keys = (kv.1 :: newer.filter fun x ↦ x ≠ kv.1) ++
          k :: (older.filter fun x ↦ x ≠ kv.1).take
            (m.limit - (kv.1 :: newer.filter fun x ↦ x ≠ kv.1).length - 1) := by
        rw [hkeys, List.take_append, List.take_of_length_le (Nat.le_of_lt hlt),
          show m.limit - (kv.1 :: newer.filter fun x ↦ x ≠ kv.1).length =
            (m.limit - (kv.1 :: newer.filter fun x ↦ x ≠ kv.1).length - 1) + 1 by omega,
          List.take_succ_cons]
        rfl
      rw [ih hsplit' hk', limit_insert]
    · -- the newer keys already fill the map, so the key is gone for good
      have hout : k ∉ (m.insert kv.1 kv.2).keys := by
        rw [hkeys, List.take_append_of_le_length hge]
        intro hmem
        rcases List.mem_cons.1 (List.mem_of_mem_take hmem) with h | h
        · exact hne h.symm
        · have hnd2 : (newer ++ k :: older).Nodup := hsplit ▸ m.keys_nodup
          exact (List.disjoint_of_nodup_append hnd2) (List.mem_of_mem_filter h) List.mem_cons_self
      have hle : (kv.1 :: newer.filter fun x ↦ x ≠ kv.1).length ≤
          ((kv.1 :: newer.filter fun x ↦ x ≠ kv.1) ++ kvs.map Prod.fst).toFinset.card := by
        rw [hcard]
        refine Finset.card_le_card fun x hx ↦ ?_
        by_cases hx' : x = kv.1 <;> simp_all
      refine iff_of_false (notMem_keys_insertAll hk' hout) ?_
      omega

/-- **Survival.** After a batch whose last entry for `k` is followed by `post`, the key is present
exactly when fewer than `limit` distinct other keys were inserted after it — whatever the map held
before. -/
theorem isSome_get_insertAll_iff {m : LruMap K V} (hlimit : 0 < m.limit) {k : K} {v : V}
    {pre post : List (K × V)} (hpost : k ∉ post.map Prod.fst) :
    ((m.insertAll (pre ++ (k, v) :: post)).get k).isSome ↔
      (post.map Prod.fst).toFinset.card < m.limit := by
  rw [isSome_get_iff, insertAll_append, insertAll_cons]
  have hsplit : ((m.insertAll pre).insert k v).keys =
      [] ++ k :: (((m.insertAll pre).keys.filter fun k' ↦ k' ≠ k).take (m.limit - 1)) := by
    rw [keys_insert, limit_insertAll, List.nil_append]
    obtain ⟨n, hn⟩ : ∃ n, m.limit = n + 1 := ⟨m.limit - 1, by omega⟩
    rw [hn]
    rfl
  rw [mem_keys_insertAll_of_split hsplit hpost, limit_insert, limit_insertAll, List.nil_append]

/-- The key was used, and fewer than `limit` distinct other keys after it. -/
def Recent (limit : ℕ) (kvs : List (K × V)) (k : K) : Prop :=
  ∃ pre v post, kvs = pre ++ (k, v) :: post ∧ k ∉ post.map Prod.fst ∧
    (post.map Prod.fst).toFinset.card < limit

omit [DecidableEq K] in
/-- A key that occurs has a last occurrence. -/
theorem exists_last_of_mem {k : K} {kvs : List (K × V)} (h : k ∈ kvs.map Prod.fst) :
    ∃ pre v post, kvs = pre ++ (k, v) :: post ∧ k ∉ post.map Prod.fst := by
  induction kvs with
  | nil => cases h
  | cons kv kvs ih =>
    by_cases hrest : k ∈ kvs.map Prod.fst
    · obtain ⟨pre, v, post, rfl, hpost⟩ := ih hrest
      exact ⟨kv :: pre, v, post, rfl, hpost⟩
    · rw [List.map_cons, List.mem_cons] at h
      obtain rfl := h.resolve_right hrest
      exact ⟨[], kv.2, kvs, rfl, hrest⟩

/-- **A map holds what was used recently**, from the empty map on. -/
theorem isSome_get_insertAll_empty_iff {limit : ℕ} (hlimit : 0 < limit) {kvs : List (K × V)}
    {k : K} : (((empty limit : LruMap K V).insertAll kvs).get k).isSome ↔ Recent limit kvs k := by
  by_cases hmem : k ∈ kvs.map Prod.fst
  · obtain ⟨pre, v, post, rfl, hpost⟩ := exists_last_of_mem hmem
    rw [isSome_get_insertAll_iff hlimit hpost]
    refine ⟨fun hcard ↦ ⟨pre, v, post, rfl, hpost, hcard⟩, ?_⟩
    rintro ⟨pre', v', post', heq, hpost', hcard⟩
    -- the last occurrence is the only one with nothing of the key behind it
    have hsome : (((empty limit : LruMap K V).insertAll (pre ++ (k, v) :: post)).get k).isSome := by
      rw [heq]
      exact (isSome_get_insertAll_iff hlimit hpost').2 hcard
    exact (isSome_get_insertAll_iff hlimit hpost).1 hsome
  · refine iff_of_false ?_ ?_
    · rw [isSome_get_iff]
      exact notMem_keys_insertAll hmem (by simp [keys, empty])
    · rintro ⟨pre, v, post, rfl, -⟩
      exact hmem (by simp)

end LruMap
