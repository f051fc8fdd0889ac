import RethHl.Data.Rlp
import RethHl.Node.Types

/-!
# Blocks on the wire

Three values travel in RLP: the body of a block, the block, and the message that announces one. Each
is written through a helper record whose last fields are optional. `HlBlockBody` and `HlBlock` put
withdrawals, sidecars, recorded calls and the highest precompile address behind the required fields.
The announcement keeps the withdrawals inside the nested Ethereum block and puts the other three
behind the total difficulty.

The recorded calls are the odd one out: they are a MessagePack message in an RLP string. An empty
message would be written as the byte that stands for an absent field; a MessagePack message is never
empty, and that is what keeps the formats unambiguous.

The codecs of the elements — transactions, headers, withdrawals, sidecars, 128-bit numbers and the
MessagePack of the calls — are parameters, with their own round trips as laws at the elements that
occur.
-/

namespace RethHl

open Rlp

/-- A 128-bit number. -/
abbrev U128 := BitVec 128

/-- The codecs of the elements of a block. -/
structure ElementCodecs where
  transaction : Codec TransactionSigned
  header : Codec Header
  withdrawal : Codec Withdrawal
  sidecar : Codec BlobTransactionSidecar
  u128 : Codec U128
  toVec : ReadPrecompileCalls → Bytes
  fromSlice : Bytes → Option ReadPrecompileCalls

/-- A new block as a peer announces it. -/
structure NewBlock where
  block : HlBlock
  td : U128
  deriving DecidableEq, Repr

/-- The announcement of an HL block. -/
structure HlNewBlock where
  value : NewBlock
  deriving DecidableEq, Repr

/-! ### The two element codecs of this program -/

/-- The bytes of an address. -/
def addressBytes (address : Address) : Bytes :=
  BigEndian.toBeBytes 20 address.toNat

/-- An address is a string of exactly 20 bytes. -/
def addressCodec : Codec Address where
  encode := fun address ↦ Codec.bytes.encode (addressBytes address)
  length := fun address ↦ Codec.bytes.length (addressBytes address)
  decode := fun buf ↦ do
    let (bytes, buf) ← Codec.bytes.decode buf
    if bytes.length ≠ 20 then .error .unexpectedLength
    else .ok (BitVec.ofNat 160 (BigEndian.fromBeBytes bytes), buf)

/-- Recorded calls are a message in a string. The length is measured by writing it. -/
def readPrecompileCallsCodec (c : ElementCodecs) : Codec ReadPrecompileCalls where
  encode := fun calls ↦ Codec.bytes.encode (c.toVec calls)
  length := fun calls ↦ (Codec.bytes.encode (c.toVec calls)).length
  decode := fun buf ↦ do
    let (bytes, buf) ← Codec.bytes.decode buf
    match c.fromSlice bytes with
    | none => .error (.custom "Failed to decode ReadPrecompileCalls")
    | some calls => .ok (calls, buf)

theorem length_addressBytes (address : Address) : (addressBytes address).length = 20 :=
  BigEndian.length_toBeBytes _ _

theorem ofNat_fromBeBytes_addressBytes (address : Address) :
    BitVec.ofNat 160 (BigEndian.fromBeBytes (addressBytes address)) = address := by
  rw [addressBytes, BigEndian.fromBeBytes_toBeBytes (address.isLt.trans_eq (pow_mul 2 8 20)),
    BitVec.ofNat_toNat, BitVec.setWidth_eq]

/-- An address is read back, and seen. -/
theorem addressCodec_sound (address : Address) :
    addressCodec.Lawful address ∧ addressCodec.Visible address := by
  have hlen := length_addressBytes address
  have hmax : (addressBytes address).length < maxLength := by
    rw [hlen]
    decide
  have hbytes := Codec.lawful_bytes hmax
  refine ⟨⟨fun rest ↦ ?_, ?_, ?_⟩, ?_⟩
  · have hread := hbytes.decode_encode_append rest
    simp only [addressCodec, hread, bind, Except.bind]
    rw [if_neg (fun hne ↦ hne hlen), ofNat_fromBeBytes_addressBytes]
  · simp only [addressCodec]
    exact hbytes.length_eq
  · simp only [addressCodec]
    exact hbytes.encode_ne_nil
  · simp only [Codec.Visible, addressCodec]
    exact Codec.visible_bytes hmax (List.ne_nil_of_length_pos (by rw [hlen]; decide))

/-- The calls come back when their message does, and are seen when it is not empty. -/
theorem readPrecompileCallsCodec_sound {c : ElementCodecs} {calls : ReadPrecompileCalls}
    (hround : c.fromSlice (c.toVec calls) = some calls) (hne : c.toVec calls ≠ [])
    (hlen : ((readPrecompileCallsCodec c).encode calls).length < maxLength) :
    (readPrecompileCallsCodec c).Lawful calls ∧ (readPrecompileCallsCodec c).Visible calls := by
  have hmax : (c.toVec calls).length < maxLength :=
    (Codec.length_le_length_encode_bytes _).trans_lt hlen
  have hbytes := Codec.lawful_bytes hmax
  refine ⟨⟨fun rest ↦ ?_, rfl, hbytes.encode_ne_nil⟩, Codec.visible_bytes hmax hne⟩
  have hread := hbytes.decode_encode_append rest
  simp only [readPrecompileCallsCodec, hread, bind, Except.bind, hround]

/-! ### The helper records -/

/-- The fields of a body, in the order they are written. -/
structure BlockBodyHelper where
  transactions : List TransactionSigned
  ommers : List Header
  withdrawals : Option (List Withdrawal)
  sidecars : Option (List BlobTransactionSidecar)
  readPrecompileCalls : Option ReadPrecompileCalls
  highestPrecompileAddress : Option Address
  deriving DecidableEq, Repr

/-- The fields of a block. -/
structure BlockHelper where
  header : Header
  transactions : List TransactionSigned
  ommers : List Header
  withdrawals : Option (List Withdrawal)
  sidecars : Option (List BlobTransactionSidecar)
  readPrecompileCalls : Option ReadPrecompileCalls
  highestPrecompileAddress : Option Address
  deriving DecidableEq, Repr

/-- The Ethereum fields of an announced block. -/
structure NewBlockHelper where
  header : Header
  transactions : List TransactionSigned
  ommers : List Header
  withdrawals : Option (List Withdrawal)
  deriving DecidableEq, Repr

/-- The fields of an announcement. -/
structure HlNewBlockHelper where
  block : NewBlockHelper
  td : U128
  sidecars : Option (List BlobTransactionSidecar)
  readPrecompileCalls : Option ReadPrecompileCalls
  highestPrecompileAddress : Option Address
  deriving DecidableEq, Repr

section Codecs

variable (c : ElementCodecs)

/-- The optional fields that HyperCore adds. -/
def hlFields : Trailing (Option (List BlobTransactionSidecar) ×
    Option ReadPrecompileCalls × Option Address × Unit) :=
  .cons c.sidecar.vec (.cons (readPrecompileCallsCodec c) (.cons addressCodec .nil))

def BlockBodyHelper.codec : Codec BlockBodyHelper :=
  (Trailing.record (c.transaction.vec.seq c.header.vec) (.cons c.withdrawal.vec (hlFields c))).via
    (fun helper ↦ ((helper.transactions, helper.ommers),
      (helper.withdrawals, helper.sidecars, helper.readPrecompileCalls,
        helper.highestPrecompileAddress, ())))
    (fun fields ↦
      { transactions := fields.1.1
        ommers := fields.1.2
        withdrawals := fields.2.1
        sidecars := fields.2.2.1
        readPrecompileCalls := fields.2.2.2.1
        highestPrecompileAddress := fields.2.2.2.2.1 })

def BlockHelper.codec : Codec BlockHelper :=
  (Trailing.record (c.header.seq (c.transaction.vec.seq c.header.vec))
      (.cons c.withdrawal.vec (hlFields c))).via
    (fun helper ↦ ((helper.header, helper.transactions, helper.ommers),
      (helper.withdrawals, helper.sidecars, helper.readPrecompileCalls,
        helper.highestPrecompileAddress, ())))
    (fun fields ↦
      { header := fields.1.1
        transactions := fields.1.2.1
        ommers := fields.1.2.2
        withdrawals := fields.2.1
        sidecars := fields.2.2.1
        readPrecompileCalls := fields.2.2.2.1
        highestPrecompileAddress := fields.2.2.2.2.1 })

def NewBlockHelper.codec : Codec NewBlockHelper :=
  (Trailing.record (c.header.seq (c.transaction.vec.seq c.header.vec))
      (.cons c.withdrawal.vec .nil)).via
    (fun helper ↦ ((helper.header, helper.transactions, helper.ommers), (helper.withdrawals, ())))
    (fun fields ↦
      { header := fields.1.1
        transactions := fields.1.2.1
        ommers := fields.1.2.2
        withdrawals := fields.2.1 })

def HlNewBlockHelper.codec : Codec HlNewBlockHelper :=
  (Trailing.record ((NewBlockHelper.codec c).seq c.u128) (hlFields c)).via
    (fun helper ↦ ((helper.block, helper.td),
      (helper.sidecars, helper.readPrecompileCalls, helper.highestPrecompileAddress, ())))
    (fun fields ↦
      { block := fields.1.1
        td := fields.1.2
        sidecars := fields.2.1
        readPrecompileCalls := fields.2.2.1
        highestPrecompileAddress := fields.2.2.2.1 })

/-! ### The three formats -/

/-- The helper of a body. -/
def BlockBodyHelper.of (value : HlBlockBody) : BlockBodyHelper where
  transactions := value.inner.transactions
  ommers := value.inner.ommers
  withdrawals := value.inner.withdrawals
  sidecars := value.sidecars
  readPrecompileCalls := value.readPrecompileCalls
  highestPrecompileAddress := value.highestPrecompileAddress

/-- The helper of a block. -/
def BlockHelper.of (header : Header) (body : HlBlockBody) : BlockHelper where
  header := header
  transactions := body.inner.transactions
  ommers := body.inner.ommers
  withdrawals := body.inner.withdrawals
  sidecars := body.sidecars
  readPrecompileCalls := body.readPrecompileCalls
  highestPrecompileAddress := body.highestPrecompileAddress

/-- The helper of an announcement. -/
def HlNewBlockHelper.of (value : HlNewBlock) : HlNewBlockHelper where
  block :=
    { header := value.value.block.header
      transactions := value.value.block.body.inner.transactions
      ommers := value.value.block.body.inner.ommers
      withdrawals := value.value.block.body.inner.withdrawals }
  td := value.value.td
  sidecars := value.value.block.body.sidecars
  readPrecompileCalls := value.value.block.body.readPrecompileCalls
  highestPrecompileAddress := value.value.block.body.highestPrecompileAddress

/-- Bodies in RLP. -/
def HlBlockBody.codec : Codec HlBlockBody :=
  (BlockBodyHelper.codec c).via BlockBodyHelper.of fun helper ↦
    { inner :=
        { transactions := helper.transactions
          ommers := helper.ommers
          withdrawals := helper.withdrawals }
      sidecars := helper.sidecars
      readPrecompileCalls := helper.readPrecompileCalls
      highestPrecompileAddress := helper.highestPrecompileAddress }

/-- Blocks in RLP. -/
def HlBlock.codec : Codec HlBlock :=
  (BlockHelper.codec c).via (fun block ↦ BlockHelper.of block.header block.body) fun helper ↦
    { header := helper.header
      body :=
        { inner :=
            { transactions := helper.transactions
              ommers := helper.ommers
              withdrawals := helper.withdrawals }
          sidecars := helper.sidecars
          readPrecompileCalls := helper.readPrecompileCalls
          highestPrecompileAddress := helper.highestPrecompileAddress } }

/-- Announcements in RLP. -/
def HlNewBlock.codec : Codec HlNewBlock :=
  (HlNewBlockHelper.codec c).via HlNewBlockHelper.of fun helper ↦
    { value :=
        { block :=
            { header := helper.block.header
              body :=
                { inner :=
                    { transactions := helper.block.transactions
                      ommers := helper.block.ommers
                      withdrawals := helper.block.withdrawals }
                  sidecars := helper.sidecars
                  readPrecompileCalls := helper.readPrecompileCalls
                  highestPrecompileAddress := helper.highestPrecompileAddress } }
          td := helper.td } }

/-- The length of a block that is not put together. -/
def HlBlock.rlpLength (header : Header) (body : HlBlockBody) : ℕ :=
  (BlockHelper.codec c).length (BlockHelper.of header body)

/-! ### Round trips -/

/-- The element codecs are lawful at the elements of a body, and its calls have a message, which is
read back. -/
structure ElementCodecs.LawfulAt (body : HlBlockBody) : Prop where
  transactions : ∀ tx ∈ body.inner.transactions, c.transaction.Lawful tx
  ommers : ∀ header ∈ body.inner.ommers, c.header.Lawful header
  withdrawals : ∀ list ∈ body.inner.withdrawals, ∀ withdrawal ∈ list, c.withdrawal.Lawful withdrawal
  sidecars : ∀ list ∈ body.sidecars, ∀ sidecar ∈ list, c.sidecar.Lawful sidecar
  fromSlice_toVec : ∀ calls ∈ body.readPrecompileCalls, c.fromSlice (c.toVec calls) = some calls
  toVec_ne_nil : ∀ calls ∈ body.readPrecompileCalls, c.toVec calls ≠ []

variable {c} {body : HlBlockBody}

/-- The fields that HyperCore adds are read back, whichever of them are there. -/
theorem hlFields_sound (h : c.LawfulAt body) :
    (hlFields c).Sound (body.sidecars, body.readPrecompileCalls, body.highestPrecompileAddress,
      ()) := by
  refine Trailing.Sound.cons (fun sidecars hsidecars hlen ↦ ?_) (Trailing.Sound.cons
    (fun calls hcalls hlen ↦ ?_) (Trailing.Sound.cons (fun address _ _ ↦ addressCodec_sound address)
      fun _ ↦ Trailing.lawful_nil))
  · exact ⟨Codec.sound_vec (h.sidecars sidecars hsidecars) hlen,
      Codec.visible_vec (h.sidecars sidecars hsidecars) hlen⟩
  · exact readPrecompileCallsCodec_sound (h.fromSlice_toVec calls hcalls)
      (h.toVec_ne_nil calls hcalls) hlen

/-- And so are withdrawals before any further fields. -/
theorem withdrawals_sound {β : Type} {t : Trailing β} {others : β} (h : c.LawfulAt body)
    (ht : t.Sound others) :
    (Trailing.cons c.withdrawal.vec t).Sound (body.inner.withdrawals, others) := by
  refine Trailing.Sound.cons (fun list hlist hlen ↦ ?_) ht
  exact ⟨Codec.sound_vec (h.withdrawals list hlist) hlen,
    Codec.visible_vec (h.withdrawals list hlist) hlen⟩

/-- The required fields of a body. -/
theorem transactions_ommers_sound (h : c.LawfulAt body) :
    (c.transaction.vec.seq c.header.vec).Sound (body.inner.transactions, body.inner.ommers) :=
  (Codec.sound_vec h.transactions).seq (Codec.sound_vec h.ommers)

/-- **Bodies are read back.** -/
theorem HlBlockBody.codec_sound (h : c.LawfulAt body) : (HlBlockBody.codec c).Sound body :=
  Codec.Sound.via (Codec.Sound.via (Trailing.Sound.record (transactions_ommers_sound h)
    (withdrawals_sound h (hlFields_sound h))) rfl) rfl

/-- **Blocks are read back.** -/
theorem HlBlock.codec_sound {block : HlBlock} (h : c.LawfulAt block.body)
    (hheader : c.header.Lawful block.header) : (HlBlock.codec c).Sound block :=
  Codec.Sound.via (Codec.Sound.via (Trailing.Sound.record
    (Codec.Sound.seq (fun _ ↦ hheader) (transactions_ommers_sound h))
    (withdrawals_sound h (hlFields_sound h))) rfl) rfl

/-- The Ethereum part of an announcement is read back. -/
theorem NewBlockHelper.codec_sound {block : HlBlock} (h : c.LawfulAt block.body)
    (hheader : c.header.Lawful block.header) :
    (NewBlockHelper.codec c).Sound
      { header := block.header
        transactions := block.body.inner.transactions
        ommers := block.body.inner.ommers
        withdrawals := block.body.inner.withdrawals } :=
  Codec.Sound.via (Trailing.Sound.record
    (Codec.Sound.seq (fun _ ↦ hheader) (transactions_ommers_sound h))
    (withdrawals_sound h fun _ ↦ Trailing.lawful_nil)) rfl

/-- **Announcements are read back.** -/
theorem HlNewBlock.codec_sound {new : HlNewBlock} (h : c.LawfulAt new.value.block.body)
    (hheader : c.header.Lawful new.value.block.header) (htd : c.u128.Lawful new.value.td) :
    (HlNewBlock.codec c).Sound new :=
  Codec.Sound.via (Codec.Sound.via (Trailing.Sound.record
    (Codec.Sound.seq (NewBlockHelper.codec_sound h hheader) fun _ ↦ htd)
    (hlFields_sound h)) rfl) rfl

/-- **Round trips of the whole block format.** For every body, block and announcement, whichever of
their optional fields are there: what is written is read back and nothing behind it is touched, the
computed length is the number of bytes written, and the length of a block can be computed from its
header and body alone. -/
theorem rlp_lawful (c : ElementCodecs) :
    (∀ body : HlBlockBody, c.LawfulAt body →
      ((HlBlockBody.codec c).encode body).length < maxLength →
      (HlBlockBody.codec c).Lawful body) ∧
    (∀ block : HlBlock, c.LawfulAt block.body → c.header.Lawful block.header →
      ((HlBlock.codec c).encode block).length < maxLength →
      (HlBlock.codec c).Lawful block ∧
        HlBlock.rlpLength c block.header block.body = ((HlBlock.codec c).encode block).length) ∧
    (∀ new : HlNewBlock, c.LawfulAt new.value.block.body →
      c.header.Lawful new.value.block.header → c.u128.Lawful new.value.td →
      ((HlNewBlock.codec c).encode new).length < maxLength →
      (HlNewBlock.codec c).Lawful new) := by
  refine ⟨fun body h ↦ HlBlockBody.codec_sound h, fun block h hheader hlen ↦ ?_,
    fun new h hheader htd ↦ HlNewBlock.codec_sound h hheader htd⟩
  have hlawful := HlBlock.codec_sound h hheader hlen
  exact ⟨hlawful, hlawful.length_eq⟩

end Codecs

/-! ### An example announcement -/

/-- The codec of a single value. -/
def literalCodec {α : Type} (v : α) (bytes : Bytes) : Codec α where
  encode := fun _ ↦ bytes
  length := fun _ ↦ bytes.length
  decode := fun buf ↦
    if bytes <+: buf then .ok (v, buf.drop bytes.length) else .error .inputTooShort

theorem literalCodec_lawful {α : Type} (v : α) {bytes : Bytes} (hbytes : bytes ≠ []) :
    (literalCodec v bytes).Lawful v where
  decode_encode_append := by
    intro rest
    simp [literalCodec]
  length_eq := rfl
  encode_ne_nil := hbytes

/-- The element codecs at the elements of the example. -/
def exampleCodecs : ElementCodecs where
  transaction := literalCodec exampleUserTx.tx
    ([0xe1, 0x80, 0x01, 0x82, 0x52, 0x08, 0x94] ++ List.replicate 20 0x11 ++
      [0x01, 0x80, 0x82, 0x07, 0xf1, 0x01, 0x02])
  header := literalCodec (.zero 0)
    ([0xf9, 0x01, 0xed] ++ (0xa0 :: List.replicate 32 0) ++ (0xa0 :: List.replicate 32 0) ++
      (0x94 :: List.replicate 20 0) ++ (0xa0 :: List.replicate 32 0) ++
      (0xa0 :: List.replicate 32 0) ++ (0xa0 :: List.replicate 32 0) ++
      ([0xb9, 0x01, 0x00] ++ List.replicate 256 0) ++ List.replicate 6 0x80 ++
      (0xa0 :: List.replicate 32 0) ++ (0x88 :: List.replicate 8 0))
  withdrawal := literalCodec { index := 0, validatorIndex := 0, address := 0, amount := 0 }
    ([0xd8, 0x80, 0x80, 0x94] ++ List.replicate 20 0 ++ [0x80])
  sidecar := literalCodec { blobs := [], commitments := [], proofs := [] } [0xc3, 0xc0, 0xc0, 0xc0]
  u128 := literalCodec 0 [0x80]
  toVec := fun _ ↦ [0x90]
  fromSlice := fun bytes ↦ if bytes = [0x90] then some [] else none

/-- One transaction, no sidecars, and a present but empty list of calls. -/
def exampleNewBlock : HlNewBlock where
  value :=
    { block :=
        { header := .zero 0
          body :=
            { inner :=
                { transactions := [exampleUserTx.tx], ommers := [], withdrawals := some [] }
              sidecars := none
              readPrecompileCalls := some []
              highestPrecompileAddress := some 0x811 } }
      td := 0 }

/-- The example is read back in all three formats. -/
theorem rlp_lawful_exampleNewBlock :
    (HlBlockBody.codec exampleCodecs).Lawful exampleNewBlock.value.block.body ∧
      (HlBlock.codec exampleCodecs).Lawful exampleNewBlock.value.block ∧
      (HlNewBlock.codec exampleCodecs).Lawful exampleNewBlock := by
  have hlaw : exampleCodecs.LawfulAt exampleNewBlock.value.block.body := by
    refine ⟨?_, ?_, ?_, ?_, ?_, ?_⟩
    · exact List.forall_mem_singleton.2 (literalCodec_lawful _ (by decide))
    · exact fun _ h ↦ absurd h List.not_mem_nil
    · rintro _ ⟨⟩ _ h
      exact absurd h List.not_mem_nil
    · exact fun _ h ↦ nomatch h
    · rintro _ ⟨⟩
      rfl
    · rintro _ ⟨⟩
      exact List.cons_ne_nil _ _
  have hheader : exampleCodecs.header.Lawful exampleNewBlock.value.block.header :=
    literalCodec_lawful _ (by decide)
  have htd : exampleCodecs.u128.Lawful exampleNewBlock.value.td :=
    literalCodec_lawful _ (by decide)
  obtain ⟨hbody, hblock, hnew⟩ := rlp_lawful exampleCodecs
  exact ⟨hbody _ hlaw (by decide +kernel), (hblock _ hlaw hheader (by decide +kernel)).1,
    hnew _ hlaw hheader htd (by decide +kernel)⟩

end RethHl
