import RethHl.Evm.Precompiles
import RethHl.Node.BlockRlp

/-!
# Preparing the precompile table in place

`applyPrecompiles` of the source goes over the table three times and changes it in place: it removes
the addresses `0x08xx` that are **in the table**, installs a precompile for every recorded address,
and from a certain block on goes over a range of addresses and fills those that are still empty. The
table keeps the set of its addresses beside its entries, and the first loop runs over that set.

`PrecompileTable` is such a table, with the agreement of the two as a field. Each loop is a fold
over `applyPrecompile`, and one lemma for each says what it leaves at an address. Together they give
what the whole function leaves there (`applyPrecompiles_prepared`), and that it is the function of
`RethHl.Evm.Precompiles` that the executor works with (`map_applyPrecompiles`).
-/

namespace RethHl

/-- The precompiles, and the set of their addresses. -/
structure PrecompileTable where
  map : PrecompilesMap
  addresses : List Address
  mem_addresses : ∀ address, address ∈ addresses ↔ (map address).isSome

namespace PrecompileTable

/-- `PrecompilesMap::apply_precompile`: put a function of the precompile at an address in its
place. -/
def applyPrecompile (t : PrecompileTable) (address : Address)
    (f : Option DynPrecompile → Option DynPrecompile) : PrecompileTable where
  map := t.map.applyPrecompile address f
  addresses :=
    if (f (t.map address)).isSome then t.addresses.insert address
    else t.addresses.filter fun other ↦ other ≠ address
  mem_addresses := by
    intro other
    rw [PrecompilesMap.applyPrecompile]
    by_cases heq : other = address
    · subst heq
      rw [Function.update_self]
      split_ifs with hsome
      · simp [hsome]
      · simp [hsome]
    · rw [Function.update_of_ne heq]
      split_ifs with hsome
      · simp [heq, t.mem_addresses]
      · simp [heq, t.mem_addresses]

@[simp] theorem map_applyPrecompile (t : PrecompileTable) (address : Address)
    (f : Option DynPrecompile → Option DynPrecompile) :
    (t.applyPrecompile address f).map = t.map.applyPrecompile address f :=
  rfl

/-- An address `0x00..08xx`: eighteen zero bytes, then eight. -/
def isReadAddress (address : Address) : Bool :=
  (addressBytes address).take 18 == List.replicate 18 0 && (addressBytes address)[18]? == some 8

/-- The first loop: clear the addresses `0x08xx` of the table. -/
def clearRead (t : PrecompileTable) : PrecompileTable :=
  t.addresses.foldl
    (fun t address ↦ if isReadAddress address then t.applyPrecompile address fun _ ↦ none else t) t

/-- The second loop: install the recorded precompiles. -/
def installRecorded (t : PrecompileTable) (calls : ReadPrecompileCalls) : PrecompileTable :=
  calls.foldl (fun t call ↦ t.applyPrecompile call.1 fun _ ↦ some (runPrecompile call.2)) t

/-- Keep a precompile that is there, and put one that is out of gas where there is none. -/
def fillEntry : Option DynPrecompile → Option DynPrecompile
  | some precompile => some precompile
  | none => some PrecompilesMap.outOfGas

/-- The third loop, over the addresses from `0x800` to the highest one. -/
def fillRange (t : PrecompileTable) (highestAddress : ℕ) : PrecompileTable :=
  (List.range' 0x800 (highestAddress + 1 - 0x800)).foldl
    (fun t n ↦ t.applyPrecompile (BitVec.ofNat 160 n) fillEntry) t

/-- The highest address to be filled, `none` when it does not fit in 64 bits. -/
def highestAddress (extras : HlExtras) : Option ℕ :=
  match extras.highestPrecompileAddress with
  | none => some 0x80D
  | some address => addressToU64 address

/-- `apply_precompiles`, loop by loop; `none` is a panic. -/
def applyPrecompiles (blockNumber : ℕ) (extras : HlExtras) (t : PrecompileTable) :
    Option PrecompileTable :=
  let t := t.clearRead.installRecorded (extras.readPrecompileCalls.getD [])
  if warmPrecompilesBlockNumber ≤ blockNumber then (highestAddress extras).map t.fillRange
  else some t

/-! ### What each loop leaves at an address -/

theorem isReadAddress_iff (address : Address) :
    isReadAddress address = true ↔ address.toNat / 256 = 8 := by
  have hbytes : addressBytes address = BigEndian.toBeBytes 18 (address.toNat / 256 ^ 2) ++
      [UInt8.ofNat (address.toNat / 256 % 256), UInt8.ofNat (address.toNat % 256)] := by
    rw [addressBytes, show 20 = 18 + 2 from rfl, BigEndian.toBeBytes_add]
    rfl
  have htake : (addressBytes address).take 18 =
      BigEndian.toBeBytes 18 (address.toNat / 256 ^ 2) := by
    rw [hbytes, List.take_left' (BigEndian.length_toBeBytes _ _)]
  have hget : (addressBytes address)[18]? = some (UInt8.ofNat (address.toNat / 256 % 256)) := by
    rw [hbytes, List.getElem?_append_right (BigEndian.length_toBeBytes _ _).le,
      BigEndian.length_toBeBytes]
    rfl
  have hbyte : UInt8.ofNat (address.toNat / 256 % 256) = 8 ↔ address.toNat / 256 % 256 = 8 := by
    rw [← UInt8.toNat_inj, UInt8.toNat_ofNat', Nat.mod_eq_of_lt (by omega)]
    rfl
  have hzero : BigEndian.toBeBytes 18 (address.toNat / 256 ^ 2) = List.replicate 18 0 ↔
      address.toNat / 256 ^ 2 = 0 := by
    rw [← BigEndian.toBeBytes_zero]
    refine ⟨fun h ↦ BigEndian.toBeBytes_inj ?_ (by decide) h, fun h ↦ by rw [h]⟩
    exact Nat.div_lt_of_lt_mul (address.isLt.trans_eq (by decide))
  rw [isReadAddress, htake, hget, Bool.and_eq_true, beq_iff_eq, beq_iff_eq, Option.some.injEq,
    hbyte, hzero]
  omega

/-- Clearing a list of addresses. -/
theorem map_foldl_clear (t : PrecompileTable) (l : List Address) (address : Address) :
    (l.foldl (fun t address ↦
        if isReadAddress address then t.applyPrecompile address fun _ ↦ none else t) t).map
          address =
      if isReadAddress address = true ∧ address ∈ l then none else t.map address := by
  induction l generalizing t with
  | nil => simp
  | cons first l ih =>
    rw [List.foldl_cons, ih]
    by_cases heq : address = first
    · subst heq
      by_cases hread : isReadAddress address = true
      · simp [hread, PrecompilesMap.applyPrecompile]
      · simp [hread]
    · by_cases hread : isReadAddress first = true
      · simp [hread, heq, PrecompilesMap.applyPrecompile]
      · simp [hread, heq]

/-- The first loop clears all addresses `0x08xx`: those that are not in the table have nothing to
be cleared. -/
theorem map_clearRead (t : PrecompileTable) : t.clearRead.map = t.map.clearRead := by
  funext address
  rw [clearRead, map_foldl_clear, PrecompilesMap.clearRead]
  simp only [isReadAddress_iff, t.mem_addresses]
  by_cases hread : address.toNat / 256 = 8
  · rcases t.map address with - | precompile <;> simp [hread]
  · simp [hread]

theorem map_installRecorded (t : PrecompileTable) (calls : ReadPrecompileCalls) :
    (t.installRecorded calls).map = t.map.installRecorded calls := by
  induction calls generalizing t with
  | nil => rfl
  | cons call calls ih =>
    rw [installRecorded, List.foldl_cons, ← installRecorded, ih]
    rfl

/-- Filling a list of addresses. -/
theorem map_foldl_fill (t : PrecompileTable) {l : List ℕ} (hl : ∀ n ∈ l, n < 2 ^ 160)
    (address : Address) :
    (l.foldl (fun t n ↦ t.applyPrecompile (BitVec.ofNat 160 n) fillEntry) t).map address =
      if address.toNat ∈ l then some ((t.map address).getD PrecompilesMap.outOfGas)
      else t.map address := by
  induction l generalizing t with
  | nil => simp
  | cons n l ih =>
    obtain ⟨hn, hl⟩ := List.forall_mem_cons.1 hl
    rw [List.foldl_cons, ih _ hl, map_applyPrecompile, PrecompilesMap.applyPrecompile]
    by_cases heq : address.toNat = n
    · obtain rfl : address = BitVec.ofNat 160 n := by
        rw [← heq, BitVec.ofNat_toNat, BitVec.setWidth_eq]
      rw [Function.update_self, heq, if_pos List.mem_cons_self]
      rcases t.map (BitVec.ofNat 160 n) with - | precompile <;> split_ifs <;> rfl
    · have hne : address ≠ BitVec.ofNat 160 n := by
        rintro rfl
        exact heq (by rw [BitVec.toNat_ofNat, Nat.mod_eq_of_lt hn])
      simp [heq, hne]

/-- The third loop fills the range. -/
theorem map_fillRange (t : PrecompileTable) {highest : ℕ} (h : highest < u64Size) :
    (t.fillRange highest).map = t.map.fillAll highest := by
  funext address
  have hrange : ∀ n ∈ List.range' 0x800 (highest + 1 - 0x800), n < 2 ^ 160 := by
    intro n hn
    rw [List.mem_range'_1] at hn
    have : u64Size < 2 ^ 160 := by decide
    omega
  have hmem : address.toNat ∈ List.range' 0x800 (highest + 1 - 0x800) ↔
      0x800 ≤ address.toNat ∧ address.toNat ≤ highest := by
    rw [List.mem_range'_1]
    omega
  rw [fillRange, map_foldl_fill t hrange, PrecompilesMap.fillAll]
  exact if_congr hmem rfl rfl

/-- **The loops compute the function the executor works with.** -/
theorem map_applyPrecompiles (blockNumber : ℕ) (extras : HlExtras) (t : PrecompileTable) :
    (t.applyPrecompiles blockNumber extras).map PrecompileTable.map =
      RethHl.applyPrecompiles blockNumber extras t.map := by
  have hprepared : (t.clearRead.installRecorded (extras.readPrecompileCalls.getD [])).map =
      t.map.clearRead.installRecorded (extras.readPrecompileCalls.getD []) := by
    rw [map_installRecorded, map_clearRead]
  rw [applyPrecompiles, RethHl.applyPrecompiles]
  split_ifs
  · rw [highestAddress]
    rcases extras.highestPrecompileAddress with - | address
    · simp [map_fillRange _ (show 0x80D < u64Size by decide), hprepared]
    · by_cases hfits : address.toNat < u64Size
      · simp [addressToU64, hfits, map_fillRange _ hfits, hprepared]
      · simp [addressToU64, hfits]
  · rw [Option.map_some, hprepared]

end PrecompileTable

/-! ### What a prepared table should be -/

/-- The last entry for a key. -/
def IsLast {α β : Type} (l : List (α × β)) (key : α) (value : β) : Prop :=
  ∃ front back, l = front ++ (key, value) :: back ∧ key ∉ back.map Prod.fst

section IsLast

variable {α β : Type} [DecidableEq α] {l : List (α × β)} {key : α}

theorem lookup_reverse_of_notMem (h : key ∉ l.map Prod.fst) : l.reverse.lookup key = none := by
  rw [List.lookup_eq_none_iff]
  intro entry hentry
  rw [bne_iff_ne]
  rintro rfl
  exact h (List.mem_map_of_mem (List.mem_reverse.1 hentry))

theorem IsLast.lookup_reverse {value : β} (h : IsLast l key value) :
    l.reverse.lookup key = some value := by
  obtain ⟨front, back, rfl, hback⟩ := h
  rw [List.reverse_append, List.reverse_cons, List.append_assoc, List.lookup_append,
    lookup_reverse_of_notMem hback]
  simp

end IsLast

/-- What a recorded result answers. -/
def ReadPrecompileResult.answer : ReadPrecompileResult → PrecompileResult
  | .ok gasUsed bytes => .ok gasUsed bytes false
  | .outOfGas => .outOfGas
  | .error => .outOfGas
  | .unexpectedError => .panic

/-- A precompile answers every recorded call as it was recorded last, and is out of gas for any
other. -/
structure AnswersFrom (precompile : DynPrecompile)
    (calls : List (ReadPrecompileInput × ReadPrecompileResult)) : Prop where
  recorded : ∀ data gas result, IsLast calls ⟨data, gas⟩ result →
    precompile data gas = result.answer
  unrecorded : ∀ data gas, ⟨data, gas⟩ ∉ calls.map Prod.fst → precompile data gas = .outOfGas

theorem answersFrom_runPrecompile
    (calls : List (ReadPrecompileInput × ReadPrecompileResult)) :
    AnswersFrom (runPrecompile calls) calls where
  recorded := by
    intro data gas result h
    rw [runPrecompile, h.lookup_reverse]
    cases result <;> rfl
  unrecorded := by
    intro data gas h
    rw [runPrecompile, lookup_reverse_of_notMem h]

/-- The addresses `0x800` to `0x8FF`. -/
def InReadRange (address : Address) : Prop :=
  0x800 ≤ address.toNat ∧ address.toNat ≤ 0x8FF

instance (address : Address) : Decidable (InReadRange address) :=
  inferInstanceAs (Decidable (_ ∧ _))

/-- The addresses that are filled, from a certain block on. -/
def IsWarm (blockNumber highest : ℕ) (address : Address) : Prop :=
  8197684 ≤ blockNumber ∧ 0x800 ≤ address.toNat ∧ address.toNat ≤ highest

instance (blockNumber highest : ℕ) (address : Address) :
    Decidable (IsWarm blockNumber highest address) :=
  inferInstanceAs (Decidable (_ ∧ _ ∧ _))

/-- The table `m'` that a table `m` should become: a listed address answers from its last record; an
address that is not listed is filled, cleared or kept. -/
structure Prepared (blockNumber highest : ℕ) (calls : ReadPrecompileCalls)
    (m m' : PrecompilesMap) : Prop where
  listed : ∀ address record, IsLast calls address record →
    ∃ precompile, m' address = some precompile ∧ AnswersFrom precompile record
  filled : ∀ address, address ∉ calls.map Prod.fst → IsWarm blockNumber highest address →
    m' address = some (if InReadRange address then PrecompilesMap.outOfGas
      else (m address).getD PrecompilesMap.outOfGas)
  cleared : ∀ address, address ∉ calls.map Prod.fst → ¬ IsWarm blockNumber highest address →
    InReadRange address → m' address = none
  kept : ∀ address, address ∉ calls.map Prod.fst → ¬ IsWarm blockNumber highest address →
    ¬ InReadRange address → m' address = m address

theorem clearRead_eq (m : PrecompilesMap) (address : Address) :
    m.clearRead address = if InReadRange address then none else m address := by
  have hiff : address.toNat / 256 = 8 ↔ InReadRange address := by
    rw [InReadRange]
    omega
  exact if_congr hiff rfl rfl

/-- What preparing leaves at an address. -/
def preparedAt (blockNumber highest : ℕ) (calls : ReadPrecompileCalls) (m : PrecompilesMap)
    (address : Address) : Option DynPrecompile :=
  (PrecompilesMap.recorded calls address).or
    (if IsWarm blockNumber highest address then
      some ((m.clearRead address).getD PrecompilesMap.outOfGas)
    else m.clearRead address)

/-- The highest address that is filled, with its default. -/
def HlExtras.highest (extras : HlExtras) : ℕ :=
  (extras.highestPrecompileAddress.map BitVec.toNat).getD 0x80D

/-- Preparing a table, address by address. -/
theorem applyPrecompiles_eq (blockNumber : ℕ) {extras : HlExtras}
    (hfits : ∀ address ∈ extras.highestPrecompileAddress, address.toNat < u64Size)
    (m : PrecompilesMap) :
    applyPrecompiles blockNumber extras m = some (preparedAt blockNumber extras.highest
      (extras.readPrecompileCalls.getD []) m) := by
  set calls := extras.readPrecompileCalls.getD []
  have hfill : ∀ highest, warmPrecompilesBlockNumber ≤ blockNumber →
      (m.clearRead.installRecorded calls).fillAll highest =
        preparedAt blockNumber highest calls m := by
    intro highest hwarm
    funext address
    have hiff : IsWarm blockNumber highest address ↔
        0x800 ≤ address.toNat ∧ address.toNat ≤ highest := and_iff_right hwarm
    rw [preparedAt, PrecompilesMap.fillAll, PrecompilesMap.installRecorded_apply]
    simp only [hiff]
    split_ifs
    · rcases PrecompilesMap.recorded calls address with - | precompile <;> rfl
    · rfl
  have hcold : ¬ warmPrecompilesBlockNumber ≤ blockNumber → ∀ highest,
      m.clearRead.installRecorded calls = preparedAt blockNumber highest calls m := by
    intro hwarm highest
    funext address
    rw [preparedAt, if_neg fun h ↦ hwarm h.1, PrecompilesMap.installRecorded_apply]
  -- the default of the source stands in when the block names no highest address
  rw [applyPrecompiles, HlExtras.highest]
  split_ifs with hwarm
  · rcases hhighest : extras.highestPrecompileAddress with - | address
    · exact congrArg some (hfill 0x80D hwarm)
    · have haddress : addressToU64 address = some address.toNat := if_pos (hfits address hhighest)
      show (addressToU64 address).map _ = _
      rw [haddress]
      exact congrArg some (hfill address.toNat hwarm)
  · exact congrArg some (hcold hwarm _)

theorem prepared_preparedAt (blockNumber highest : ℕ) (calls : ReadPrecompileCalls)
    (m : PrecompilesMap) :
    Prepared blockNumber highest calls m (preparedAt blockNumber highest calls m) := by
  have hnone : ∀ address, address ∉ calls.map Prod.fst →
      PrecompilesMap.recorded calls address = none := by
    intro address h
    rw [PrecompilesMap.recorded, lookup_reverse_of_notMem h]
    rfl
  refine ⟨fun address record h ↦ ?_, fun address h hwarm ↦ ?_, fun address h hwarm hread ↦ ?_,
    fun address h hwarm hread ↦ ?_⟩
  · refine ⟨runPrecompile record, ?_, answersFrom_runPrecompile record⟩
    rw [preparedAt, PrecompilesMap.recorded, h.lookup_reverse]
    rfl
  · rw [preparedAt, hnone address h, Option.none_or, if_pos hwarm, clearRead_eq]
    split_ifs <;> rfl
  · rw [preparedAt, hnone address h, Option.none_or, if_neg hwarm, clearRead_eq, if_pos hread]
  · rw [preparedAt, hnone address h, Option.none_or, if_neg hwarm, clearRead_eq, if_neg hread]

/-- In the read range the starting table does not matter. -/
theorem preparedAt_congr {blockNumber highest : ℕ} {calls : ReadPrecompileCalls}
    (m m' : PrecompilesMap) {address : Address} (h : InReadRange address) :
    preparedAt blockNumber highest calls m address =
      preparedAt blockNumber highest calls m' address := by
  rw [preparedAt, preparedAt, clearRead_eq, clearRead_eq, if_pos h, if_pos h]

/-- **Preparing a table**, from whatever it was: the result is the specified one, preparing it again
changes nothing, and at the addresses `0x800` to `0x8FF` it is the same for every table. -/
theorem applyPrecompiles_prepared (blockNumber : ℕ) (extras : HlExtras)
    (hfits : ∀ address ∈ extras.highestPrecompileAddress, address.toNat < u64Size)
    (t : PrecompileTable) :
    ∃ t', t.applyPrecompiles blockNumber extras = some t' ∧
      Prepared blockNumber extras.highest (extras.readPrecompileCalls.getD []) t.map t'.map ∧
      (∃ t'', t'.applyPrecompiles blockNumber extras = some t'' ∧ t''.map = t'.map) ∧
      ∀ u : PrecompileTable, ∃ u', u.applyPrecompiles blockNumber extras = some u' ∧
        ∀ address, InReadRange address → u'.map address = t'.map address := by
  have hrun : ∀ u : PrecompileTable, ∃ u', u.applyPrecompiles blockNumber extras = some u' ∧
      applyPrecompiles blockNumber extras u.map = some u'.map ∧
      u'.map =
        preparedAt blockNumber extras.highest (extras.readPrecompileCalls.getD []) u.map := by
    intro u
    have heq := applyPrecompiles_eq blockNumber hfits u.map
    have hmap := u.map_applyPrecompiles blockNumber extras
    rw [heq] at hmap
    obtain ⟨u', hu', hmap'⟩ := Option.map_eq_some_iff.1 hmap
    exact ⟨u', hu', by rw [heq, hmap'], hmap'⟩
  obtain ⟨t', ht', hmap, hprepared⟩ := hrun t
  refine ⟨t', ht', ?_, ?_, fun u ↦ ?_⟩
  · rw [hprepared]
    exact prepared_preparedAt _ _ _ _
  · -- a second run clears what the first one has installed, and installs it again
    obtain ⟨t'', ht'', hmap', -⟩ := hrun t'
    rw [applyPrecompiles_idem hmap] at hmap'
    exact ⟨t'', ht'', (Option.some.inj hmap').symm⟩
  · obtain ⟨u', hu', -, hu⟩ := hrun u
    refine ⟨u', hu', fun address hread ↦ ?_⟩
    rw [hu, hprepared]
    exact preparedAt_congr _ _ hread

/-- Two records for one address, and a highest address of its own. -/
def exampleExtras : HlExtras where
  readPrecompileCalls := some [
    (0x801, [(⟨[1], 100⟩, .outOfGas)]),
    (0x801, [(⟨[1], 100⟩, .error), (⟨[1], 100⟩, .ok 60 [7])])]
  highestPrecompileAddress := some 0x902

/-- A precompile inside the read range that was left there, and one above it. -/
def exampleTable : PrecompileTable where
  map := fun address ↦ if address = 0x805 ∨ address = 0x901 then some fun _ _ ↦ .ok 1 [] false
    else none
  addresses := [0x805, 0x901]
  mem_addresses := by
    intro address
    simp

theorem applyPrecompiles_prepared_exampleTable :
    ∃ t', exampleTable.applyPrecompiles 8197684 exampleExtras = some t' ∧
      Prepared 8197684 exampleExtras.highest (exampleExtras.readPrecompileCalls.getD [])
        exampleTable.map t'.map ∧
      (∃ t'', t'.applyPrecompiles 8197684 exampleExtras = some t'' ∧ t''.map = t'.map) ∧
      ∀ u : PrecompileTable, ∃ u', u.applyPrecompiles 8197684 exampleExtras = some u' ∧
        ∀ address, InReadRange address → u'.map address = t'.map address :=
  applyPrecompiles_prepared 8197684 exampleExtras
    (fun _ h ↦ Option.mem_some_iff.1 h ▸ by decide +kernel) exampleTable

end RethHl
