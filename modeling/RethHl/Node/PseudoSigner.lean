import RethHl.Data.BigEndian
import RethHl.Node.BlockRlp

/-!
# Pseudo signers

A system transaction is not signed by anyone. Its sender is a **system address**, and the node
carries that address in the `s` value of the signature: the value `1` is reserved for the address
`0x2222...22`, and any other value stands for the address in its low 20 bytes (`sToAddress`). A
token of the spot market is written at its own offset of the word (`SpotId.toS`), so that the
decoder, which lives in another module of the source, reads back the system address of the token.

The three recovery functions of a transaction answer with the decoded address when the transaction
is a system transaction, and leave every other transaction to the recovery of the inner envelope,
which is a parameter.
-/

namespace RethHl

open BigEndian

/-! ### Words and bytes -/

/-- The function `U256::from_be_bytes`. -/
def u256FromBeBytes (bytes : Bytes) : B256 := BitVec.ofNat 256 (fromBeBytes bytes)

/-- The function `U256::to_be_bytes` at 32 bytes. -/
def u256ToBeBytes (word : B256) : Bytes := toBeBytes 32 word.toNat

/-- The function `Address::from_slice`. -/
def addressFromSlice (bytes : Bytes) : Address := BitVec.ofNat 160 (fromBeBytes bytes)

/-- Overwrite the bytes from a position on. -/
def copyFromSlice (buf : Bytes) (start : ℕ) (src : Bytes) : Bytes :=
  buf.take start ++ src ++ buf.drop (start + src.length)

theorem u256ToBeBytes_fromBeBytes {bytes : Bytes} (h : bytes.length = 32) :
    u256ToBeBytes (u256FromBeBytes bytes) = bytes := by
  have hlt : fromBeBytes bytes < 2 ^ 256 := by
    have hlt := fromBeBytes_lt bytes
    rwa [h, show 256 ^ 32 = 2 ^ 256 from (pow_mul 2 8 32).symm] at hlt
  rw [u256ToBeBytes, u256FromBeBytes, BitVec.toNat_ofNat, Nat.mod_eq_of_lt hlt, ← h,
    toBeBytes_fromBeBytes]

theorem addressBytes_fromSlice {bytes : Bytes} (h : bytes.length = 20) :
    addressBytes (addressFromSlice bytes) = bytes := by
  have hlt : fromBeBytes bytes < 2 ^ 160 := by
    have hlt := fromBeBytes_lt bytes
    rwa [h, show 256 ^ 20 = 2 ^ 160 from (pow_mul 2 8 20).symm] at hlt
  rw [addressBytes, addressFromSlice, BitVec.toNat_ofNat, Nat.mod_eq_of_lt hlt, ← h,
    toBeBytes_fromBeBytes]

/-! ### The encoder -/

/-- The index of a token of the spot market, a `u64`. -/
structure SpotId where
  index : BitVec 64
  deriving DecidableEq, Repr

/-- The bytes of an index. -/
def SpotId.indexBytes (spot : SpotId) : Bytes := toBeBytes 8 spot.index.toNat

/-- The method `SpotId::to_s`: the byte `0x20` at offset 12 and the index in the last 8 bytes. -/
def SpotId.toS (spot : SpotId) : B256 :=
  let addr : Bytes := List.replicate 32 0
  let addr := addr.set 12 0x20
  let addr := copyFromSlice addr 24 spot.indexBytes
  u256FromBeBytes addr

/-! ### The decoder -/

/-- The address that stands for the reserved value. -/
def nativeSystemAddress : Address := 0x2222222222222222222222222222222222222222

/-- The function `s_to_address`. -/
def sToAddress (s : B256) : Address :=
  if s = 1 then nativeSystemAddress
  else addressFromSlice (((u256ToBeBytes s).drop 12).take 20)

/-- The system address of a token, byte by byte. -/
def SpotId.systemAddressBytes (spot : SpotId) : Bytes :=
  0x20 :: (List.replicate 11 0 ++ spot.indexBytes)

theorem length_indexBytes (spot : SpotId) : spot.indexBytes.length = 8 :=
  length_toBeBytes _ _

theorem length_systemAddressBytes (spot : SpotId) : spot.systemAddressBytes.length = 20 := by
  rw [SpotId.systemAddressBytes, List.length_cons, List.length_append, length_indexBytes]
  rfl

/-- The bytes of an encoded word: twelve zeros, then the system address. -/
theorem u256ToBeBytes_toS (spot : SpotId) :
    u256ToBeBytes spot.toS = List.replicate 12 0 ++ spot.systemAddressBytes := by
  have hbuf : copyFromSlice ((List.replicate 32 0).set 12 0x20) 24 spot.indexBytes =
      List.replicate 12 0 ++ spot.systemAddressBytes := by
    rw [copyFromSlice, length_indexBytes, List.drop_eq_nil_of_le (by simp), List.append_nil]
    rfl
  rw [SpotId.toS, hbuf, u256ToBeBytes_fromBeBytes]
  rw [List.length_append, length_systemAddressBytes]
  rfl

/-- **The reserved value is never an encoded one.** -/
theorem toS_ne_one (spot : SpotId) : spot.toS ≠ 1 := by
  intro h
  have hbytes := u256ToBeBytes_toS spot
  rw [h] at hbytes
  -- the byte at offset 12 is `0x20` in one word and zero in the other
  have hbyte := congrArg (fun bytes ↦ bytes[12]?) hbytes
  rw [List.getElem?_append_right (by simp)] at hbyte
  exact absurd hbyte (show some 0 ≠ some 0x20 by decide)

/-- **The decoder undoes the encoder.** -/
theorem addressBytes_sToAddress_toS (spot : SpotId) :
    addressBytes (sToAddress spot.toS) = spot.systemAddressBytes := by
  have hlow : ((u256ToBeBytes spot.toS).drop 12).take 20 = spot.systemAddressBytes := by
    rw [u256ToBeBytes_toS, List.drop_left' (List.length_replicate ..),
      List.take_of_length_le (length_systemAddressBytes spot).le]
  rw [sToAddress, if_neg (toS_ne_one spot), hlow,
    addressBytes_fromSlice (length_systemAddressBytes spot)]

theorem indexBytes_injective {spot spot' : SpotId} (h : spot.indexBytes = spot'.indexBytes) :
    spot = spot' := by
  have hlt : ∀ i : BitVec 64, i.toNat < 256 ^ 8 := fun i ↦ i.isLt.trans_eq (pow_mul 2 8 8)
  have hindex : spot.index.toNat = spot'.index.toNat := toBeBytes_inj (hlt _) (hlt _) h
  cases spot
  cases spot'
  rw [SpotId.mk.injEq]
  exact BitVec.eq_of_toNat_eq hindex

/-- **Tokens have different system addresses.** -/
theorem sToAddress_toS_injective {spot spot' : SpotId}
    (h : sToAddress spot.toS = sToAddress spot'.toS) : spot = spot' := by
  have hbytes := congrArg addressBytes h
  rw [addressBytes_sToAddress_toS, addressBytes_sToAddress_toS] at hbytes
  exact indexBytes_injective (List.append_cancel_left (List.cons.inj hbytes).2)

/-- **No token has the reserved address.** -/
theorem sToAddress_toS_ne (spot : SpotId) : sToAddress spot.toS ≠ nativeSystemAddress := by
  intro h
  have hbytes := congrArg addressBytes h
  rw [addressBytes_sToAddress_toS] at hbytes
  -- the first bytes differ: `0x20` and `0x22`
  exact absurd (congrArg List.head? hbytes) (show some 0x20 ≠ some 0x22 by decide)

/-- The decoder in terms of the word: all but the reserved value is cut to its low 160 bits. -/
theorem sToAddress_eq (s : B256) :
    sToAddress s = if s = 1 then nativeSystemAddress else s.setWidth 160 := by
  rw [sToAddress]
  split_ifs with hs
  · rfl
  · have hlow : ((u256ToBeBytes s).drop 12).take 20 = toBeBytes 20 s.toNat := by
      rw [u256ToBeBytes, toBeBytes_add 12 20, List.drop_left' (length_toBeBytes ..),
        List.take_of_length_le (length_toBeBytes ..).le]
    refine BitVec.eq_of_toNat_eq ?_
    rw [hlow, addressFromSlice, fromBeBytes_toBeBytes_mod, BitVec.toNat_ofNat,
      BitVec.toNat_setWidth, show 256 ^ 20 = 2 ^ 160 from (pow_mul 2 8 20).symm, Nat.mod_mod]

/-! ### Recovery -/

/-- The error of a failed recovery; it carries nothing. -/
inductive RecoveryError where
  | mk
  deriving DecidableEq, Repr

/-- The recovery functions of the inner envelope. The last one also writes to a buffer. -/
structure InnerRecovery where
  recoverSigner : TransactionSigned → Except RecoveryError Address
  recoverSignerUnchecked : TransactionSigned → Except RecoveryError Address
  recoverUncheckedWithBuf : TransactionSigned → Bytes → Except RecoveryError Address × Bytes

namespace TransactionSigned

variable (inner : InnerRecovery) (tx : TransactionSigned)

/-- The method `recover_signer`. -/
def recoverSigner : Except RecoveryError Address :=
  if tx.isSystemTransaction then .ok (sToAddress tx.signature.s)
  else inner.recoverSigner tx

/-- The method `recover_signer_unchecked`. -/
def recoverSignerUnchecked : Except RecoveryError Address :=
  if tx.isSystemTransaction then .ok (sToAddress tx.signature.s)
  else inner.recoverSignerUnchecked tx

/-- The method `recover_unchecked_with_buf`, with the buffer it leaves. -/
def recoverUncheckedWithBuf (buf : Bytes) : Except RecoveryError Address × Bytes :=
  if tx.isSystemTransaction then (.ok (sToAddress tx.signature.s), buf)
  else inner.recoverUncheckedWithBuf tx buf

/-- All three recovery functions give this address, and the buffer is left as it is. -/
structure RecoversTo (signer : Address) : Prop where
  recoverSigner : tx.recoverSigner inner = .ok signer
  recoverSignerUnchecked : tx.recoverSignerUnchecked inner = .ok signer
  recoverUncheckedWithBuf : ∀ buf, tx.recoverUncheckedWithBuf inner buf = (.ok signer, buf)

end TransactionSigned

/-- **System transactions are never handed to the inner recovery.** -/
theorem recoversTo_of_isSystemTransaction (inner : InnerRecovery) {tx : TransactionSigned}
    (h : tx.isSystemTransaction) : tx.RecoversTo inner (sToAddress tx.signature.s) where
  recoverSigner := if_pos h
  recoverSignerUnchecked := if_pos h
  recoverUncheckedWithBuf := fun _ ↦ if_pos h

/-- An envelope that recovers nobody. -/
def exampleInner : InnerRecovery where
  recoverSigner := fun _ ↦ .error .mk
  recoverSignerUnchecked := fun _ ↦ .error .mk
  recoverUncheckedWithBuf := fun _ buf ↦ (.error .mk, buf)

end RethHl
