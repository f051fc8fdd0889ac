import Mathlib.Logic.Function.Basic
import RethHl.Node.Types

/-!
# The read precompiles of a block

Before a block is executed, the precompile table of the EVM is prepared from what was recorded with
the block: the addresses `0x08xx` are cleared, every recorded address gets a precompile that answers
from the recorded calls, and from a certain block on every address of a range that is still empty
gets one that is out of gas.

The table is a function from addresses. `applyPrecompiles_idem` says that **preparing a table twice
is preparing it once**: the executor does it when it is created and again before it starts.
-/

namespace RethHl

/-- What a call of a precompile gives. -/
inductive PrecompileResult where
  | ok (gasUsed : ℕ) (bytes : Bytes) (reverted : Bool)
  | outOfGas
  | fatal
  /-- The call panics. -/
  | panic
  deriving DecidableEq, Repr

/-- A precompile: a function of the input data and the gas. -/
abbrev DynPrecompile := Bytes → ℕ → PrecompileResult

/-- The precompile table. -/
abbrev PrecompilesMap := Address → Option DynPrecompile

/-- Answer a call from the recorded ones. A record that is repeated counts as its last entry. -/
def runPrecompile (precompileCalls : List (ReadPrecompileInput × ReadPrecompileResult)) :
    DynPrecompile := fun data gasLimit ↦
  match precompileCalls.reverse.lookup ⟨data, gasLimit⟩ with
  | none => .outOfGas
  | some (.ok gasUsed bytes) => .ok gasUsed bytes false
  | some .outOfGas => .outOfGas
  | some .error => .outOfGas
  | some .unexpectedError => .panic

namespace PrecompilesMap

/-- Replace the precompile at an address by a function of the one that is there. -/
def applyPrecompile (m : PrecompilesMap) (address : Address)
    (f : Option DynPrecompile → Option DynPrecompile) : PrecompilesMap :=
  Function.update m address (f (m address))

/-- Clear the addresses `0x08xx`. -/
def clearRead (m : PrecompilesMap) : PrecompilesMap := fun address ↦
  if address.toNat / 256 = 8 then none else m address

/-- Install the recorded precompiles, one after the other. -/
def installRecorded (m : PrecompilesMap) (calls : ReadPrecompileCalls) : PrecompilesMap :=
  calls.foldl (fun m call ↦ m.applyPrecompile call.1 fun _ ↦ some (runPrecompile call.2)) m

/-- A precompile that is always out of gas. -/
def outOfGas : DynPrecompile := fun _ _ ↦ .outOfGas

/-- Fill the addresses from `0x800` to the highest one that have no precompile. -/
def fillAll (m : PrecompilesMap) (highestAddress : ℕ) : PrecompilesMap := fun address ↦
  if 0x800 ≤ address.toNat ∧ address.toNat ≤ highestAddress then
    some ((m address).getD outOfGas)
  else m address

/-- The recorded precompile of an address: the last one, when it is recorded more than once. -/
def recorded (calls : ReadPrecompileCalls) (address : Address) : Option DynPrecompile :=
  (calls.reverse.lookup address).map runPrecompile

theorem installRecorded_apply (m : PrecompilesMap) (calls : ReadPrecompileCalls)
    (address : Address) :
    m.installRecorded calls address = (recorded calls address).or (m address) := by
  induction calls generalizing m with
  | nil => rfl
  | cons call calls ih =>
    have hcons : recorded (call :: calls) address =
        (recorded calls address).or
          (if call.1 = address then some (runPrecompile call.2) else none) := by
      rw [recorded, recorded, List.reverse_cons, List.lookup_append, Option.map_or]
      congr 1
      obtain ⟨a, c⟩ := call
      by_cases h : a = address
      · subst h
        simp
      · simp [h, Ne.symm h]
    rw [installRecorded, List.foldl_cons, ← installRecorded, ih, hcons, Option.or_assoc]
    congr 1
    by_cases h : call.1 = address
    · subst h
      simp [applyPrecompile]
    · simp [applyPrecompile, h, Function.update_of_ne (Ne.symm h)]

end PrecompilesMap

/-- The number of an address; a panic when it does not fit in 64 bits. -/
def addressToU64 (address : Address) : Option ℕ :=
  if address.toNat < u64Size then some address.toNat else none

/-- The block from which on the whole range of read precompiles is filled. -/
def warmPrecompilesBlockNumber : ℕ := 8197684

/-- Prepare the precompile table for a block; `none` is a panic. -/
def applyPrecompiles (blockNumber : ℕ) (extras : HlExtras) (m : PrecompilesMap) :
    Option PrecompilesMap :=
  let m := m.clearRead.installRecorded (extras.readPrecompileCalls.getD [])
  if warmPrecompilesBlockNumber ≤ blockNumber then
    match extras.highestPrecompileAddress with
    | none => some (m.fillAll 0x80D)
    | some address => (addressToU64 address).map m.fillAll
  else some m

/-- Installing over a table that agrees with the prepared one outside the cleared addresses. -/
theorem clearRead_installRecorded_apply {m m' : PrecompilesMap} {calls : ReadPrecompileCalls}
    {address : Address}
    (h : address.toNat / 256 ≠ 8 → m' address = m.clearRead.installRecorded calls address) :
    m'.clearRead.installRecorded calls address = m.clearRead.installRecorded calls address := by
  rw [PrecompilesMap.installRecorded_apply] at h ⊢
  rw [PrecompilesMap.installRecorded_apply]
  rcases hrec : PrecompilesMap.recorded calls address with - | precompile
  · by_cases hread : address.toNat / 256 = 8
    · simp [PrecompilesMap.clearRead, hread]
    · rw [hrec, Option.none_or] at h
      rw [Option.none_or, Option.none_or, ← h hread, PrecompilesMap.clearRead, if_neg hread]
  · rfl

/-- Preparing a filled table again, with the same highest address. -/
theorem fillAll_idem (m : PrecompilesMap) (calls : ReadPrecompileCalls) (highest : ℕ) :
    (((m.clearRead.installRecorded calls).fillAll highest).clearRead.installRecorded
        calls).fillAll highest =
      (m.clearRead.installRecorded calls).fillAll highest := by
  funext address
  by_cases hrange : 0x800 ≤ address.toNat ∧ address.toNat ≤ highest
  · by_cases hread : address.toNat / 256 = 8
    · rw [PrecompilesMap.fillAll, if_pos hrange,
        clearRead_installRecorded_apply fun h ↦ absurd hread h, PrecompilesMap.fillAll,
        if_pos hrange]
    · -- an entry that was filled in is there the second time
      rw [PrecompilesMap.fillAll, if_pos hrange, PrecompilesMap.installRecorded_apply]
      rcases hrec : PrecompilesMap.recorded calls address with - | precompile
      · simp [PrecompilesMap.clearRead, hread, PrecompilesMap.fillAll, hrange,
          PrecompilesMap.installRecorded_apply, hrec]
      · simp [PrecompilesMap.fillAll, hrange, PrecompilesMap.installRecorded_apply, hrec]
  · have hkeep : (m.clearRead.installRecorded calls).fillAll highest address =
        m.clearRead.installRecorded calls address := if_neg hrange
    rw [hkeep, PrecompilesMap.fillAll, if_neg hrange,
      clearRead_installRecorded_apply fun _ ↦ hkeep]

/-- **Preparing a table twice is preparing it once.** -/
theorem applyPrecompiles_idem {blockNumber : ℕ} {extras : HlExtras} {m m' : PrecompilesMap}
    (h : applyPrecompiles blockNumber extras m = some m') :
    applyPrecompiles blockNumber extras m' = some m' := by
  unfold applyPrecompiles at h ⊢
  simp only at h ⊢
  split_ifs at h ⊢ with hwarm
  · rcases hhighest : extras.highestPrecompileAddress with - | address
    · rw [hhighest] at h
      obtain rfl := Option.some.inj h
      exact congrArg some (fillAll_idem _ _ _)
    · rw [hhighest] at h
      obtain ⟨highest, hu64, rfl⟩ := Option.map_eq_some_iff.1 h
      simp only [hu64, Option.map_some]
      exact congrArg some (fillAll_idem _ _ _)
  · obtain rfl := Option.some.inj h
    exact congrArg some (funext fun _ ↦ clearRead_installRecorded_apply fun _ ↦ rfl)

end RethHl
