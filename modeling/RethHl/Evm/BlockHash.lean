import RethHl.Data.SlashPath
import RethHl.Data.TextLines
import RethHl.Node.RethCompat

/-!
# The instruction `BLOCKHASH` of the early blocks

The first blocks of the main network were produced without their hashes at hand: a contract that
asked for the hash of a block got a placeholder, the hash of the number of the block written in
decimal. To execute these blocks again, the interpreter is made with another instruction at
`BLOCKHASH`, for the main network and for blocks below a fixed number only.

The instruction works on words of 256 bits and cuts two of them to 64 bits on the way, the distance
to the block and the number of the block. `blockhash_instruction` says what this comes to:
**it is the `BLOCKHASH` of a chain whose block number `n` has the hash of the text of `n`**, and
cutting the number would show from the block number `2 ^ 64 + 1` on only. All other instructions,
and all instructions of all other blocks, are those of the library.
-/

namespace RethHl

/-- What an instruction does to the stack, top first, in a block with a number. It halts with
`none` when the stack is too short. -/
structure Instruction where
  execute : B256 → List B256 → Option (List B256)
  staticGas : ℕ

/-- The instructions by their opcodes. -/
abbrev InstructionTable := BitVec 8 → Instruction

/-- The opcode of `BLOCKHASH`. -/
def blockhashOpcode : BitVec 8 := 0x40

/-- How many blocks back a hash can be asked for. -/
def blockHashHistory : ℕ := 256

/-- From this block on the real hashes are used. -/
def nonPlaceholderBlockHashHeight : ℕ := 243538

/-- `as_u64_saturated!` -/
def asU64Saturated (word : B256) : ℕ := min word.toNat u64Max

/-- The text of a number, as bytes. -/
def decimalBytes (n : ℕ) : Bytes := Text.utf8 (Nat.toDigits 10 n)

/-- `checked_sub` of words. -/
def checkedSubWord (a b : B256) : Option B256 := if b ≤ a then some (a - b) else none

section Instructions

variable (keccak256 : Bytes → B256)

/-- What replaces the top of the stack. -/
def placeholderHash (blockNumber requestedNumber : B256) : B256 :=
  match checkedSubWord blockNumber requestedNumber with
  | none => 0
  | some diff =>
    let diff := asU64Saturated diff
    if diff = 0 then 0
    else if diff ≤ blockHashHistory then keccak256 (decimalBytes (asU64Saturated requestedNumber))
    else 0

/-- `blockhash_returning_placeholder` -/
def blockhashReturningPlaceholder (blockNumber : B256) : List B256 → Option (List B256)
  | [] => none
  | number :: stack => some (placeholderHash keccak256 blockNumber number :: stack)

/-- The instructions that `HlEvmInner::new` makes, from those of the library. -/
def hlInstructions (mainnet : InstructionTable) (chainId : ℕ) (blockNumber : B256) :
    InstructionTable :=
  if chainId = mainnetChainId ∧ blockNumber.toNat < nonPlaceholderBlockHashHeight then
    Function.update mainnet blockhashOpcode
      { execute := blockhashReturningPlaceholder keccak256, staticGas := 20 }
  else mainnet

end Instructions

/-- The instruction `BLOCKHASH` of a chain whose blocks have these hashes: the hash of one of the
last 256 blocks, and zero for every other number. -/
def blockhashOf (hashes : ℕ → B256) (blockNumber : ℕ) : List B256 → Option (List B256)
  | [] => none
  | number :: stack =>
    some ((if number.toNat < blockNumber ∧ blockNumber ≤ number.toNat + blockHashHistory then
      hashes number.toNat else 0) :: stack)

/-! ### The words -/

theorem decimalBytes_injective : Function.Injective decimalBytes := by
  intro n m h
  have htext := congrArg Text.fromUtf8 h
  rw [decimalBytes, decimalBytes, Text.fromUtf8_utf8, Text.fromUtf8_utf8] at htext
  exact SlashPath.toDigits_inj.1 (Option.some.inj htext)

theorem checkedSubWord_of_le {a b : B256} (h : b ≤ a) : checkedSubWord a b = some (a - b) :=
  if_pos h

theorem checkedSubWord_of_lt {a b : B256} (h : a < b) : checkedSubWord a b = none :=
  if_neg (BitVec.not_le.2 h)

/-- A word is cut only if it is large, and then it stays large. -/
theorem asU64Saturated_le_iff {word : B256} {n : ℕ} (hn : n < u64Max) :
    asU64Saturated word ≤ n ↔ word.toNat ≤ n := by
  rw [asU64Saturated, min_le_iff]
  exact or_iff_left (Nat.not_le.2 hn)

theorem asU64Saturated_of_le {word : B256} (h : word.toNat ≤ u64Max) :
    asU64Saturated word = word.toNat :=
  min_eq_left h

/-- The placeholder in terms of numbers: the distance is never cut, the number may be. -/
theorem placeholderHash_eq (keccak256 : Bytes → B256) (blockNumber number : B256) :
    placeholderHash keccak256 blockNumber number =
      if number.toNat < blockNumber.toNat ∧
          blockNumber.toNat ≤ number.toNat + blockHashHistory then
        keccak256 (decimalBytes (asU64Saturated number))
      else 0 := by
  by_cases hge : number ≤ blockNumber
  · have hle : number.toNat ≤ blockNumber.toNat := BitVec.le_def.1 hge
    have hdiff : (blockNumber - number).toNat = blockNumber.toNat - number.toNat :=
      BitVec.toNat_sub_of_le hge
    have hzero : asU64Saturated (blockNumber - number) = 0 ↔
        blockNumber.toNat - number.toNat = 0 := by
      rw [← Nat.le_zero, asU64Saturated_le_iff (by decide), hdiff, Nat.le_zero]
    have hwindow : asU64Saturated (blockNumber - number) ≤ blockHashHistory ↔
        blockNumber.toNat - number.toNat ≤ blockHashHistory := by
      rw [asU64Saturated_le_iff (by decide), hdiff]
    simp only [placeholderHash, checkedSubWord_of_le hge, hzero, hwindow]
    have hhistory : blockHashHistory = 256 := rfl
    split_ifs <;> first | rfl | omega
  · have hlt : blockNumber < number := BitVec.not_le.1 hge
    have hlt' : blockNumber.toNat < number.toNat := BitVec.lt_def.1 hlt
    rw [placeholderHash, checkedSubWord_of_lt hlt, if_neg fun h ↦ absurd h.1 (by omega)]

/-! ### The instruction -/

/-- The placeholder instruction is the instruction of a chain, as long as no number of a block that
can be asked for has more than 64 bits. -/
theorem blockhashReturningPlaceholder_eq {keccak256 : Bytes → B256} {blockNumber : B256}
    (h : blockNumber.toNat ≤ u64Size) (stack : List B256) :
    blockhashReturningPlaceholder keccak256 blockNumber stack =
      blockhashOf (fun n ↦ keccak256 (decimalBytes n)) blockNumber.toNat stack := by
  rcases stack with - | ⟨number, stack⟩
  · rfl
  · have hsize : u64Max = u64Size - 1 := rfl
    rw [blockhashReturningPlaceholder, blockhashOf, placeholderHash_eq]
    split_ifs with hwindow
    · rw [asU64Saturated_of_le (by omega)]
    · rfl

/-- From then on it answers for one block with the placeholder of another. -/
theorem le_of_blockhashReturningPlaceholder_eq {blockNumber : B256}
    (h : ∀ (keccak256 : Bytes → B256) (stack : List B256),
      blockhashReturningPlaceholder keccak256 blockNumber stack =
        blockhashOf (fun n ↦ keccak256 (decimalBytes n)) blockNumber.toNat stack) :
    blockNumber.toNat ≤ u64Size := by
  by_contra hlarge
  -- the block before this one is asked for, with a hash that tells its number from the cut one
  have hnumber : (BitVec.ofNat 256 (blockNumber.toNat - 1)).toNat = blockNumber.toNat - 1 := by
    rw [BitVec.toNat_ofNat, Nat.mod_eq_of_lt (Nat.lt_of_le_of_lt (Nat.sub_le _ _)
      blockNumber.isLt)]
  have hstack := h (fun bytes ↦ if bytes = decimalBytes u64Max then 1 else 0)
    [BitVec.ofNat 256 (blockNumber.toNat - 1)]
  have hsize : u64Max = u64Size - 1 := rfl
  have hpos : 0 < u64Size := by decide
  have hhistory : blockHashHistory = 256 := rfl
  have hcut : asU64Saturated (BitVec.ofNat 256 (blockNumber.toNat - 1)) = u64Max := by
    rw [asU64Saturated, hnumber]
    exact min_eq_right (by omega)
  have hne : decimalBytes (blockNumber.toNat - 1) ≠ decimalBytes u64Max := fun heq ↦ by
    have hnumber' : blockNumber.toNat - 1 = u64Max := decimalBytes_injective heq
    omega
  have hwindow : blockNumber.toNat - 1 < blockNumber.toNat ∧
      blockNumber.toNat ≤ blockNumber.toNat - 1 + blockHashHistory := by
    omega
  rw [blockhashReturningPlaceholder, blockhashOf, placeholderHash_eq, hnumber, hcut,
    if_pos hwindow, if_pos hwindow, if_pos rfl, if_neg hne] at hstack
  exact absurd (List.cons.inj (Option.some.inj hstack)).1 (by decide)

/-- **`BLOCKHASH` before the real hashes.** In every block and for every opcode, the interpreter
runs the instruction of the library, except for `BLOCKHASH` in the early blocks of the main network:
there it runs the instruction of a chain whose blocks have placeholders for hashes, no two of them
made from the same text. The same instruction would serve up to the block number `2 ^ 64`, and no
further. -/
theorem blockhash_instruction (mainnet : InstructionTable) (chainId : ℕ) :
    (∀ (keccak256 : Bytes → B256) (blockNumber : B256) (opcode : BitVec 8) (stack : List B256),
      (hlInstructions keccak256 mainnet chainId blockNumber opcode).execute blockNumber stack =
        if opcode = blockhashOpcode ∧ chainId = mainnetChainId ∧
            blockNumber.toNat < nonPlaceholderBlockHashHeight then
          blockhashOf (fun n ↦ keccak256 (decimalBytes n)) blockNumber.toNat stack
        else (mainnet opcode).execute blockNumber stack) ∧
    (∀ n m, n ≠ m → decimalBytes n ≠ decimalBytes m) ∧
    ∀ blockNumber : B256,
      (∀ (keccak256 : Bytes → B256) (stack : List B256),
        blockhashReturningPlaceholder keccak256 blockNumber stack =
          blockhashOf (fun n ↦ keccak256 (decimalBytes n)) blockNumber.toNat stack) ↔
        blockNumber.toNat ≤ u64Size := by
  refine ⟨fun keccak256 blockNumber opcode stack ↦ ?_,
    fun n m hne heq ↦ hne (decimalBytes_injective heq), fun blockNumber ↦
      ⟨le_of_blockhashReturningPlaceholder_eq, fun h _ stack ↦
        blockhashReturningPlaceholder_eq h stack⟩⟩
  rw [hlInstructions]
  by_cases hearly : chainId = mainnetChainId ∧ blockNumber.toNat < nonPlaceholderBlockHashHeight
  · have hbound : blockNumber.toNat ≤ u64Size := hearly.2.le.trans (by decide)
    rw [if_pos hearly]
    by_cases hopcode : opcode = blockhashOpcode
    · rw [if_pos ⟨hopcode, hearly⟩, hopcode, Function.update_self]
      exact blockhashReturningPlaceholder_eq hbound stack
    · rw [if_neg fun h ↦ hopcode h.1, Function.update_of_ne hopcode]
  · rw [if_neg hearly, if_neg fun h ↦ hearly h.2]

end RethHl
