import RethHl.Data.BigEndian

/-!
# Recursive length prefix

The serialization format: an item is a byte string or a list of items, and is written as a header
with the length of its payload, followed by the payload. A single byte below `0x80` is its own
encoding. The decoder refuses what an encoder would not write: a header for such a byte, a long form
for a short length, a leading zero in a length.

A `Codec` bundles the three functions that a type of items has: `encode`, the `length` that is
computed without encoding, and a `decode` that takes an item off the front of a buffer. It is
**lawful** at a value when the three fit together there (`Codec.Lawful`). The combinators of the
format keep this: byte strings, homogeneous lists, and records whose last fields are optional.

**Trailing optional fields.** A record is a list item of its fields. Absent fields at its end are
not written at all; an absent field *before* a present one is written as the empty string `0x80`,
and a reader takes that byte for absence. So what may stand in an optional place must never begin
with that byte (`Codec.Visible`), which holds for a list and for a non-empty string.
-/

namespace Rlp

/-- What a decoder reports. -/
inductive Error where
  | leadingZero
  | inputTooShort
  | nonCanonicalSingleByte
  | nonCanonicalSize
  | unexpectedLength
  | unexpectedString
  | unexpectedList
  | listLengthMismatch (expected got : ℕ)
  | custom (message : String)
  /-- A list whose element decoder takes nothing off its payload would never end. -/
  | diverges
  deriving DecidableEq, Repr

/-- The header of an item. -/
structure Header where
  list : Bool
  payloadLength : ℕ
  deriving DecidableEq, Repr

/-- The code of the empty string. -/
def emptyStringCode : UInt8 := 0x80

/-- Lengths are 64-bit numbers. -/
def maxLength : ℕ := 256 ^ 8

/-- The number of leading zero bits of a 64-bit length. -/
def leadingZeros (n : ℕ) : ℕ := 64 - n.size

/-- The length of the header for a payload. -/
def lengthOfLength (payloadLength : ℕ) : ℕ :=
  if payloadLength < 56 then 1 else 1 + 8 - leadingZeros payloadLength / 8

/-- Write a header. -/
def Header.encode (h : Header) : List UInt8 :=
  if h.payloadLength < 56 then
    [UInt8.ofNat ((if h.list then 0xC0 else 0x80) + h.payloadLength)]
  else
    let len := BigEndian.toBeBytesTrimmed 8 h.payloadLength
    UInt8.ofNat ((if h.list then 0xF7 else 0xB7) + len.length) :: len

/-- The payload must be there. -/
def Header.checkRemaining (h : Header) (buf : List UInt8) :
    Except Error (Header × List UInt8) :=
  if buf.length < h.payloadLength then .error .inputTooShort else .ok (h, buf)

/-- Read the length of a long item. -/
def Header.decodeLong (list : Bool) (lenOfLen : ℕ) (buf : List UInt8) :
    Except Error (Header × List UInt8) :=
  if buf.length < lenOfLen then .error .inputTooShort
  else if (buf.take lenOfLen).head? = some 0 then .error .leadingZero
  else
    let payloadLength := BigEndian.fromBeBytes (buf.take lenOfLen)
    if payloadLength < 56 then .error .nonCanonicalSize
    else Header.checkRemaining ⟨list, payloadLength⟩ (buf.drop lenOfLen)

/-- A short string; a single byte that is its own encoding may not have a header. -/
def Header.decodeShort (payloadLength : ℕ) (buf : List UInt8) :
    Except Error (Header × List UInt8) :=
  match payloadLength, buf with
  | 1, [] => .error .inputTooShort
  | 1, c :: buf =>
    if c < emptyStringCode then .error .nonCanonicalSingleByte
    else Header.checkRemaining ⟨false, 1⟩ (c :: buf)
  | payloadLength, buf => Header.checkRemaining ⟨false, payloadLength⟩ buf

/-- Read a header. A byte that is its own encoding stays in the buffer. -/
def Header.decode : List UInt8 → Except Error (Header × List UInt8)
  | [] => .error .inputTooShort
  | b :: buf =>
    if b.toNat < 0x80 then Header.checkRemaining ⟨false, 1⟩ (b :: buf)
    else if b.toNat ≤ 0xB7 then Header.decodeShort (b.toNat - 0x80) buf
    else if b.toNat ≤ 0xBF then Header.decodeLong false (b.toNat - 0xB7) buf
    else if b.toNat ≤ 0xF7 then Header.checkRemaining ⟨true, b.toNat - 0xC0⟩ buf
    else Header.decodeLong true (b.toNat - 0xF7) buf

/-- The payload of the next item, which must be of the expected kind. -/
def Header.decodeBytes (buf : List UInt8) (isList : Bool) :
    Except Error (List UInt8 × List UInt8) := do
  let (h, buf) ← Header.decode buf
  if h.list ≠ isList then
    .error (if isList then .unexpectedString else .unexpectedList)
  else
    .ok (buf.take h.payloadLength, buf.drop h.payloadLength)

/-! ### Headers read back -/

section Header

open BigEndian

theorem encode_short {list : Bool} {n : ℕ} (hn : n < 56) :
    Header.encode ⟨list, n⟩ = [UInt8.ofNat ((if list then 0xC0 else 0x80) + n)] :=
  if_pos hn

theorem encode_long {list : Bool} {n : ℕ} (hn : ¬ n < 56) :
    Header.encode ⟨list, n⟩ =
      UInt8.ofNat ((if list then 0xF7 else 0xB7) + (toBeBytesTrimmed 8 n).length) ::
        toBeBytesTrimmed 8 n :=
  if_neg hn

theorem toNat_ofNat_of_lt {n : ℕ} (hn : n < 256) : (UInt8.ofNat n).toNat = n := by
  rw [UInt8.toNat_ofNat']
  omega

/-- How many bytes the length of a long payload takes. -/
theorem length_trimmed_bounds {n : ℕ} (hn : n < maxLength) (hlong : ¬ n < 56) :
    1 ≤ (toBeBytesTrimmed 8 n).length ∧ (toBeBytesTrimmed 8 n).length ≤ 8 := by
  refine ⟨?_, length_toBeBytesTrimmed_le 8 n⟩
  rw [length_toBeBytesTrimmed hn]
  have hpos : 0 < n.size := Nat.size_pos.2 (by omega)
  omega

/-- The computed length of a header. -/
theorem length_encode_header {list : Bool} {n : ℕ} (hn : n < maxLength) :
    (Header.encode ⟨list, n⟩).length = lengthOfLength n := by
  by_cases hlong : n < 56
  · rw [encode_short hlong, lengthOfLength, if_pos hlong]
    rfl
  · have hsize : n.size ≤ 64 := Nat.size_le.2 hn
    rw [encode_long hlong, lengthOfLength, if_neg hlong, List.length_cons,
      length_toBeBytesTrimmed hn, leadingZeros]
    omega

theorem checkRemaining_of_le {h : Header} {buf : List UInt8} (hlen : h.payloadLength ≤ buf.length) :
    h.checkRemaining buf = .ok (h, buf) :=
  if_neg (Nat.not_lt.2 hlen)

/-- **A long length is read back.** -/
theorem decodeLong_append {list : Bool} {n : ℕ} {buf : List UInt8} (hn : n < maxLength)
    (hlong : ¬ n < 56) (hbuf : n ≤ buf.length) :
    Header.decodeLong list (toBeBytesTrimmed 8 n).length (toBeBytesTrimmed 8 n ++ buf) =
      .ok (⟨list, n⟩, buf) := by
  have hhead : (toBeBytesTrimmed 8 n).head? ≠ some 0 := by
    intro hhead
    obtain ⟨bytes, hbytes⟩ := List.head?_eq_some_iff.1 hhead
    exact head_toBeBytesTrimmed hbytes rfl
  rw [Header.decodeLong, List.take_left, List.drop_left, if_neg (by simp), if_neg hhead,
    fromBeBytes_toBeBytesTrimmed hn]
  simp only [if_neg hlong]
  exact checkRemaining_of_le hbuf

/-- **A short string is read back**, unless it is a byte that needs no header. -/
theorem decodeShort_of_le {n : ℕ} {buf : List UInt8} (hbuf : n ≤ buf.length)
    (hbyte : n = 1 → ∀ b ∈ buf.head?, ¬ b < emptyStringCode) :
    Header.decodeShort n buf = .ok (⟨false, n⟩, buf) := by
  unfold Header.decodeShort
  split
  · simp at hbuf
  · rw [if_neg (hbyte rfl _ rfl)]
    exact checkRemaining_of_le hbuf
  · exact checkRemaining_of_le hbuf

/-- **The header of a list is read back.** -/
theorem decode_encode_list {n : ℕ} {buf : List UInt8} (hn : n < maxLength)
    (hbuf : n ≤ buf.length) :
    Header.decode (Header.encode ⟨true, n⟩ ++ buf) = .ok (⟨true, n⟩, buf) := by
  by_cases hlong : n < 56
  · rw [encode_short hlong, List.singleton_append, Header.decode, if_pos rfl,
      toNat_ofNat_of_lt (by omega), if_neg (by omega), if_neg (by omega), if_neg (by omega),
      if_pos (by omega), Nat.add_sub_cancel_left]
    exact checkRemaining_of_le hbuf
  · obtain ⟨hge, hle⟩ := length_trimmed_bounds hn hlong
    rw [encode_long hlong, List.cons_append, Header.decode, if_pos rfl,
      toNat_ofNat_of_lt (by omega), if_neg (by omega), if_neg (by omega), if_neg (by omega),
      if_neg (by omega), Nat.add_sub_cancel_left]
    exact decodeLong_append hn hlong hbuf

/-- **The header of a string is read back**, unless it is a byte that needs none. -/
theorem decode_encode_string {n : ℕ} {buf : List UInt8} (hn : n < maxLength)
    (hbuf : n ≤ buf.length)
    (hbyte : n = 1 → ∀ b ∈ buf.head?, ¬ b < emptyStringCode) :
    Header.decode (Header.encode ⟨false, n⟩ ++ buf) = .ok (⟨false, n⟩, buf) := by
  by_cases hlong : n < 56
  · rw [encode_short hlong, List.singleton_append, Header.decode, if_neg Bool.false_ne_true,
      toNat_ofNat_of_lt (by omega), if_neg (by omega), if_pos (by omega),
      Nat.add_sub_cancel_left]
    exact decodeShort_of_le hbuf hbyte
  · obtain ⟨hge, hle⟩ := length_trimmed_bounds hn hlong
    rw [encode_long hlong, List.cons_append, Header.decode, if_neg Bool.false_ne_true,
      toNat_ofNat_of_lt (by omega), if_neg (by omega), if_neg (by omega), if_pos (by omega),
      Nat.add_sub_cancel_left]
    exact decodeLong_append hn hlong hbuf

/-- A header starts with the code of the empty string only for the empty string. -/
theorem head_encode (list : Bool) {n : ℕ} (hn : n < maxLength) (h : list ∨ n ≠ 0) :
    ∃ b bytes, Header.encode ⟨list, n⟩ = b :: bytes ∧ b ≠ emptyStringCode := by
  by_cases hlong : n < 56
  · refine ⟨_, _, encode_short hlong, fun hb ↦ ?_⟩
    have hnat := congrArg UInt8.toNat hb
    rw [toNat_ofNat_of_lt (by split_ifs <;> omega), show emptyStringCode.toNat = 0x80 from rfl]
      at hnat
    split_ifs at hnat with hlist
    · omega
    · exact (h.resolve_left hlist) (by omega)
  · obtain ⟨hge, hle⟩ := length_trimmed_bounds hn hlong
    refine ⟨_, _, encode_long hlong, fun hb ↦ ?_⟩
    have hnat := congrArg UInt8.toNat hb
    rw [toNat_ofNat_of_lt (by split_ifs <;> omega), show emptyStringCode.toNat = 0x80 from rfl]
      at hnat
    split_ifs at hnat <;> omega

end Header

/-! ### Codecs -/

/-- How items of a type are written, measured and read. -/
structure Codec (α : Type) where
  encode : α → List UInt8
  length : α → ℕ
  decode : List UInt8 → Except Error (α × List UInt8)

namespace Codec

variable {α β : Type}

/-- The three functions fit together at a value: what is written is read back and nothing behind it
is touched, the length is the number of bytes written, and at least one byte is. -/
structure Lawful (c : Codec α) (v : α) : Prop where
  decode_encode_append : ∀ rest, c.decode (c.encode v ++ rest) = .ok (v, rest)
  length_eq : c.length v = (c.encode v).length
  encode_ne_nil : c.encode v ≠ []

/-- Lawful at a value whose encoding is not too long for a header. -/
def Sound (c : Codec α) (v : α) : Prop :=
  (c.encode v).length < maxLength → c.Lawful v

/-- The encoding of a value can be told from an absent field. -/
def Visible (c : Codec α) (v : α) : Prop :=
  ∃ b bytes, c.encode v = b :: bytes ∧ b ≠ emptyStringCode

/-- The same items under another type. -/
def via (c : Codec α) (into : β → α) (back : α → β) : Codec β where
  encode := fun v ↦ c.encode (into v)
  length := fun v ↦ c.length (into v)
  decode := fun buf ↦ (c.decode buf).map fun result ↦ (back result.1, result.2)

theorem Sound.via {c : Codec α} {into : β → α} {back : α → β} {v : β} (h : c.Sound (into v))
    (hv : back (into v) = v) : (c.via into back).Sound v := by
  intro hlen
  refine ⟨fun rest ↦ ?_, (h hlen).length_eq, (h hlen).encode_ne_nil⟩
  show (c.decode (c.encode (into v) ++ rest)).map _ = _
  rw [(h hlen).decode_encode_append, Except.map, hv]

/-- Two items in a row. -/
def seq (c : Codec α) (d : Codec β) : Codec (α × β) where
  encode := fun v ↦ c.encode v.1 ++ d.encode v.2
  length := fun v ↦ c.length v.1 + d.length v.2
  decode := fun buf ↦ do
    let (fst, buf) ← c.decode buf
    let (snd, buf) ← d.decode buf
    pure ((fst, snd), buf)

theorem Sound.seq {c : Codec α} {d : Codec β} {v : α × β} (hc : c.Sound v.1)
    (hd : d.Sound v.2) : (c.seq d).Sound v := by
  intro hlen
  rw [Codec.seq, List.length_append] at hlen
  replace hc := hc (by omega)
  replace hd := hd (by omega)
  refine ⟨fun rest ↦ ?_, ?_, List.append_ne_nil_of_left_ne_nil hc.encode_ne_nil _⟩
  · simp only [Codec.seq, List.append_assoc, hc.decode_encode_append, hd.decode_encode_append,
      bind, Except.bind]
    rfl
  · simp only [Codec.seq, List.length_append, hc.length_eq, hd.length_eq]

/-! ### Byte strings -/

/-- A byte string. -/
def bytes : Codec (List UInt8) where
  encode := fun v ↦
    if v.length ≠ 1 ∨ v.head?.all (emptyStringCode ≤ ·) then
      Header.encode ⟨false, v.length⟩ ++ v
    else v
  length := fun v ↦
    if v.length ≠ 1 ∨ v.head?.all (emptyStringCode ≤ ·) then
      v.length + lengthOfLength v.length
    else v.length
  decode := fun buf ↦ Header.decodeBytes buf false

/-- A string is written behind a header, except for a single byte below the string codes. -/
theorem encode_bytes_cases (v : List UInt8) :
    ((v.length = 1 → ∀ b ∈ v.head?, emptyStringCode ≤ b) ∧
      bytes.encode v = Header.encode ⟨false, v.length⟩ ++ v ∧
      bytes.length v = v.length + lengthOfLength v.length) ∨
    ∃ c, v = [c] ∧ c < emptyStringCode ∧ bytes.encode v = v ∧ bytes.length v = v.length := by
  by_cases hv : v.length ≠ 1 ∨ v.head?.all (emptyStringCode ≤ ·)
  · refine Or.inl ⟨fun hone b hb ↦ ?_, if_pos hv, if_pos hv⟩
    have hall := hv.resolve_left (fun hne ↦ hne hone)
    rw [Option.mem_def.1 hb] at hall
    exact of_decide_eq_true hall
  · have hencode : bytes.encode v = v := if_neg hv
    have hlength : bytes.length v = v.length := if_neg hv
    rw [not_or, not_not] at hv
    obtain ⟨c, rfl⟩ := List.length_eq_one_iff.1 hv.1
    refine Or.inr ⟨c, rfl, UInt8.not_le.1 fun hle ↦ hv.2 ?_, hencode, hlength⟩
    exact decide_eq_true hle

theorem decodeBytes_of_decode {buf payload rest : List UInt8} {list : Bool}
    (h : Header.decode buf = .ok (⟨list, payload.length⟩, payload ++ rest)) :
    Header.decodeBytes buf list = .ok (payload, rest) := by
  rw [Header.decodeBytes, h]
  simp only [bind, Except.bind]
  rw [if_neg (by simp), List.take_left, List.drop_left]

/-- **A byte string is read back.** -/
theorem lawful_bytes {v : List UInt8} (hlen : v.length < maxLength) : bytes.Lawful v := by
  rcases encode_bytes_cases v with ⟨hcode, hencode, hlength⟩ | ⟨c, rfl, hlt, hencode, hlength⟩
  · refine ⟨fun rest ↦ ?_, ?_, ?_⟩
    · rw [hencode, List.append_assoc]
      refine decodeBytes_of_decode (decode_encode_string hlen (by simp) fun hone b hb ↦ ?_)
      rw [UInt8.not_lt]
      refine hcode hone b ?_
      rcases v with - | ⟨c, v⟩
      · simp at hone
      · exact hb
    · rw [hencode, hlength, List.length_append, length_encode_header hlen, Nat.add_comm]
    · obtain ⟨b, bytes, hb⟩ : ∃ b bytes, Header.encode ⟨false, v.length⟩ = b :: bytes := by
        by_cases hlong : v.length < 56
        · exact ⟨_, _, encode_short hlong⟩
        · exact ⟨_, _, encode_long hlong⟩
      rw [hencode, hb]
      exact List.cons_ne_nil _ _
  · -- a single byte below the string codes is its own encoding
    have hlow : c.toNat < 0x80 := UInt8.lt_iff_toNat_lt.1 hlt
    refine ⟨fun rest ↦ ?_, ?_, ?_⟩
    · rw [hencode]
      have hread : Header.decode ([c] ++ rest) = .ok (⟨false, [c].length⟩, [c] ++ rest) := by
        rw [List.singleton_append, Header.decode, if_pos hlow]
        exact checkRemaining_of_le (by simp)
      exact decodeBytes_of_decode hread
    · rw [hencode, hlength]
    · rw [hencode]
      exact List.cons_ne_nil _ _

theorem length_le_length_encode_bytes (v : List UInt8) : v.length ≤ (bytes.encode v).length := by
  rcases encode_bytes_cases v with ⟨-, hencode, -⟩ | ⟨c, rfl, -, hencode, -⟩
  · rw [hencode, List.length_append]
    exact Nat.le_add_left _ _
  · rw [hencode]

/-- A non-empty string can be told from an absent field. -/
theorem visible_bytes {v : List UInt8} (hlen : v.length < maxLength) (hne : v ≠ []) :
    bytes.Visible v := by
  rcases encode_bytes_cases v with ⟨-, hencode, -⟩ | ⟨c, rfl, hlt, hencode, -⟩
  · obtain ⟨b, bytes, hb, hcode⟩ := head_encode false hlen
      (Or.inr (List.length_pos_iff.2 hne).ne')
    exact ⟨b, bytes ++ v, by rw [hencode, hb, List.cons_append], hcode⟩
  · refine ⟨c, [], hencode, ?_⟩
    rintro rfl
    exact UInt8.lt_irrefl _ hlt

/-! ### Lists -/

/-- Read items until the payload is used up. A reader that takes nothing would go on forever, and
the fuel, which is the length of the payload, only runs out for such a one. -/
def decodeItems (c : Codec α) : ℕ → List UInt8 → Except Error (List α)
  | _, [] => .ok []
  | 0, _ :: _ => .error .diverges
  | fuel + 1, b :: payload => do
    let (v, payload) ← c.decode (b :: payload)
    let vs ← decodeItems c fuel payload
    pure (v :: vs)

/-- A list of items of one type. -/
def vec (c : Codec α) : Codec (List α) where
  encode := fun vs ↦ Header.encode ⟨true, (vs.map c.length).sum⟩ ++ vs.flatMap c.encode
  length := fun vs ↦ (vs.map c.length).sum + lengthOfLength (vs.map c.length).sum
  decode := fun buf ↦ do
    let (payload, buf) ← Header.decodeBytes buf true
    let vs ← decodeItems c payload.length payload
    pure (vs, buf)

/-- The computed length of a payload. -/
theorem sum_length_eq {c : Codec α} {vs : List α} (h : ∀ v ∈ vs, c.Lawful v) :
    (vs.map c.length).sum = (vs.flatMap c.encode).length := by
  induction vs with
  | nil => rfl
  | cons v vs ih =>
    obtain ⟨hv, hvs⟩ := List.forall_mem_cons.1 h
    rw [List.map_cons, List.sum_cons, List.flatMap_cons, List.length_append, ih hvs, hv.length_eq]

/-- **The items of a payload are read back.** -/
theorem decodeItems_flatMap {c : Codec α} {vs : List α} (h : ∀ v ∈ vs, c.Lawful v) {fuel : ℕ}
    (hfuel : (vs.flatMap c.encode).length ≤ fuel) :
    decodeItems c fuel (vs.flatMap c.encode) = .ok vs := by
  induction vs generalizing fuel with
  | nil => cases fuel <;> rfl
  | cons v vs ih =>
    obtain ⟨hv, hvs⟩ := List.forall_mem_cons.1 h
    have hread := hv.decode_encode_append (vs.flatMap c.encode)
    rw [List.flatMap_cons] at hfuel ⊢
    obtain ⟨b, payload, hcons⟩ := List.exists_cons_of_ne_nil hv.encode_ne_nil
    rw [hcons, List.cons_append] at hfuel hread ⊢
    rcases fuel with - | fuel
    · simp at hfuel
    · rw [List.length_cons, List.length_append] at hfuel
      rw [decodeItems, hread]
      simp only [bind, Except.bind]
      rw [ih hvs (by omega)]
      rfl

/-- Reading a list, step by step. -/
theorem decode_vec {c : Codec α} {buf payload rest : List UInt8} {vs : List α}
    (hbytes : Header.decodeBytes buf true = .ok (payload, rest))
    (hitems : decodeItems c payload.length payload = .ok vs) :
    c.vec.decode buf = .ok (vs, rest) := by
  simp only [vec, hbytes, bind, Except.bind, hitems]
  rfl

/-- **A list is read back.** -/
theorem sound_vec {c : Codec α} {vs : List α} (h : ∀ v ∈ vs, c.Lawful v) : c.vec.Sound vs := by
  intro hlen
  have hsum := sum_length_eq h
  have hencode : c.vec.encode vs =
      Header.encode ⟨true, (vs.flatMap c.encode).length⟩ ++ vs.flatMap c.encode := by
    rw [← hsum]
    rfl
  have hpayload : (vs.flatMap c.encode).length < maxLength := by
    rw [hencode, List.length_append] at hlen
    omega
  refine ⟨fun rest ↦ ?_, ?_, ?_⟩
  · have hbytes : Header.decodeBytes (c.vec.encode vs ++ rest) true =
        .ok (vs.flatMap c.encode, rest) := by
      rw [hencode, List.append_assoc]
      exact decodeBytes_of_decode (decode_encode_list hpayload (by simp))
    exact decode_vec hbytes (decodeItems_flatMap h (Nat.le_refl _))
  · rw [hencode, List.length_append, length_encode_header hpayload]
    show (vs.map c.length).sum + lengthOfLength (vs.map c.length).sum = _
    rw [hsum, Nat.add_comm]
  · obtain ⟨b, bytes, hb, -⟩ := head_encode true hpayload (Or.inl rfl)
    rw [hencode, hb]
    exact List.cons_ne_nil _ _

/-- A list can be told from an absent field. -/
theorem visible_vec {c : Codec α} {vs : List α} (h : ∀ v ∈ vs, c.Lawful v)
    (hlen : (c.vec.encode vs).length < maxLength) : c.vec.Visible vs := by
  have hsum : (vs.map c.length).sum < maxLength := by
    have hle : (vs.map c.length).sum ≤ c.vec.length vs := Nat.le_add_right _ _
    rw [(sound_vec h hlen).length_eq] at hle
    omega
  obtain ⟨b, bytes, hb, hcode⟩ := head_encode true hsum (Or.inl rfl)
  exact ⟨b, bytes ++ vs.flatMap c.encode, congrArg (· ++ vs.flatMap c.encode) hb, hcode⟩

end Codec

/-! ### Records with trailing optional fields -/

/-- The optional fields at the end of a record. Reading knows how much of the buffer there was at
the start of the payload, and how long the payload is. -/
structure Trailing (α : Type) where
  encode : α → List UInt8
  length : α → ℕ
  isSome : α → Bool
  decode : ℕ → ℕ → List UInt8 → Except Error (α × List UInt8)

namespace Trailing

variable {α β ρ : Type}

/-- No more fields. -/
def nil : Trailing Unit where
  encode := fun _ ↦ []
  length := fun _ ↦ 0
  isSome := fun _ ↦ false
  decode := fun _ _ buf ↦ .ok ((), buf)

/-- An optional field before the others. When it is absent and one of the others is not, the empty
string stands in its place. -/
def cons (c : Codec α) (t : Trailing β) : Trailing (Option α × β) where
  encode := fun
    | (some v, others) => c.encode v ++ t.encode others
    | (none, others) =>
      (if t.isSome others then [emptyStringCode] else []) ++ t.encode others
  length := fun
    | (some v, others) => c.length v + t.length others
    | (none, others) => (if t.isSome others then 1 else 0) + t.length others
  isSome := fun v ↦ v.1.isSome || t.isSome v.2
  decode := fun startedLen payloadLength buf ↦ do
    let (v, buf) ←
      if startedLen - buf.length < payloadLength then
        if buf.head? = some emptyStringCode then .ok (none, buf.drop 1)
        else (c.decode buf).map fun result ↦ (some result.1, result.2)
      else .ok (none, buf)
    let (others, buf) ← t.decode startedLen payloadLength buf
    pure ((v, others), buf)

/-- The functions fit together at a value, for every length of what was read before. -/
structure Lawful (t : Trailing α) (v : α) : Prop where
  decode_encode_append : ∀ consumed rest,
    t.decode (consumed + (t.encode v ++ rest).length) (consumed + (t.encode v).length)
      (t.encode v ++ rest) = .ok (v, rest)
  length_eq : t.length v = (t.encode v).length
  encode_eq_nil : t.isSome v = false → t.encode v = []

theorem lawful_nil : nil.Lawful () where
  decode_encode_append := fun _ _ ↦ rfl
  length_eq := rfl
  encode_eq_nil := fun _ ↦ rfl

/-- A present field is read back if it cannot be taken for an absent one. -/
theorem Lawful.cons_some {c : Codec α} {t : Trailing β} {v : α} {others : β} (hc : c.Lawful v)
    (hvisible : c.Visible v) (ht : t.Lawful others) : (cons c t).Lawful (some v, others) where
  decode_encode_append := by
    intro consumed rest
    obtain ⟨b, bytes, hb, hcode⟩ := hvisible
    have hread := hc.decode_encode_append (t.encode others ++ rest)
    have hhead : (c.encode v ++ (t.encode others ++ rest)).head? ≠ some emptyStringCode := by
      rw [hb]
      simpa using hcode
    have hpos : 0 < (c.encode v).length := List.length_pos_iff.2 hc.encode_ne_nil
    have hothers := ht.decode_encode_append (consumed + (c.encode v).length) rest
    simp only [cons, List.append_assoc]
    rw [if_pos (by simp only [List.length_append]; omega), if_neg hhead, hread]
    simp only [Except.map, bind, Except.bind, List.length_append, ← Nat.add_assoc] at hothers ⊢
    rw [hothers]
    rfl
  length_eq := by
    simp only [cons, List.length_append, hc.length_eq, ht.length_eq]
  encode_eq_nil := by
    intro h
    simp [cons] at h

/-- An absent field is read back as absent, whether it was written or not. -/
theorem Lawful.cons_none {c : Codec α} {t : Trailing β} {others : β} (ht : t.Lawful others) :
    (cons c t).Lawful (none, others) where
  decode_encode_append := by
    intro consumed rest
    rcases hsome : t.isSome others with - | -
    · -- nothing was written for this field or any after it
      have hnil := ht.encode_eq_nil hsome
      have hothers := ht.decode_encode_append consumed rest
      rw [hnil] at hothers
      simp only [cons, hsome, hnil]
      simp only [Bool.false_eq_true, if_false, List.nil_append, List.length_nil, Nat.add_zero]
        at hothers ⊢
      rw [if_neg (by omega)]
      simp only [bind, Except.bind, hothers]
      rfl
    · have hothers := ht.decode_encode_append (consumed + 1) rest
      simp only [cons, hsome, if_true, List.cons_append, List.nil_append]
      rw [if_pos (by simp only [List.length_cons, List.length_append]; omega), if_pos (by rfl)]
      simp only [bind, Except.bind, List.drop_one, List.tail_cons, List.length_cons]
      rw [show consumed + ((t.encode others ++ rest).length + 1) =
        consumed + 1 + (t.encode others ++ rest).length by omega,
        show consumed + ((t.encode others).length + 1) =
          consumed + 1 + (t.encode others).length by omega, hothers]
      rfl
  length_eq := by
    rcases hsome : t.isSome others with - | - <;>
      simp [cons, hsome, ht.length_eq, Nat.add_comm]
  encode_eq_nil := by
    intro h
    have hsome : t.isSome others = false := by simpa [cons] using h
    simp [cons, hsome, ht.encode_eq_nil hsome]

/-- Lawful at a value whose encoding is not too long for a header. -/
def Sound (t : Trailing α) (v : α) : Prop :=
  (t.encode v).length < maxLength → t.Lawful v

/-- **An optional field is read back** if what may stand in it cannot be taken for absence. -/
theorem Sound.cons {c : Codec α} {t : Trailing β} {v : Option α × β}
    (hc : ∀ a ∈ v.1, (c.encode a).length < maxLength → c.Lawful a ∧ c.Visible a)
    (ht : t.Sound v.2) : (cons c t).Sound v := by
  intro hlen
  rcases v with ⟨- | a, others⟩
  · simp only [Trailing.cons, List.length_append] at hlen
    exact Lawful.cons_none (ht (by show (t.encode others).length < _; omega))
  · simp only [Trailing.cons, List.length_append] at hlen
    obtain ⟨hlawful, hvisible⟩ := hc a rfl (by omega)
    exact Lawful.cons_some hlawful hvisible (ht (by show (t.encode others).length < _; omega))

/-- A record: a list item of its required fields and the optional ones behind them. -/
def record (required : Codec ρ) (t : Trailing α) : Codec (ρ × α) where
  encode := fun v ↦
    Header.encode ⟨true, required.length v.1 + t.length v.2⟩ ++
      (required.encode v.1 ++ t.encode v.2)
  length := fun v ↦
    required.length v.1 + t.length v.2 + lengthOfLength (required.length v.1 + t.length v.2)
  decode := fun buf ↦ do
    let (h, buf) ← Header.decode buf
    if !h.list then .error .unexpectedString
    else if buf.length < h.payloadLength then .error .inputTooShort
    else
      let startedLen := buf.length
      let (fields, buf) ← required.decode buf
      let (others, buf) ← t.decode startedLen h.payloadLength buf
      let consumed := startedLen - buf.length
      if consumed ≠ h.payloadLength then .error (.listLengthMismatch h.payloadLength consumed)
      else .ok ((fields, others), buf)

/-- Reading a record, step by step. -/
theorem decode_record {required : Codec ρ} {t : Trailing α} {buf payload rest : List UInt8}
    {n : ℕ} {fields : ρ} {others : α} {buf' : List UInt8}
    (hheader : Header.decode buf = .ok (⟨true, n⟩, payload))
    (hfields : required.decode payload = .ok (fields, buf'))
    (hothers : t.decode payload.length n buf' = .ok (others, rest))
    (hconsumed : payload.length = n + rest.length) :
    (record required t).decode buf = .ok ((fields, others), rest) := by
  simp only [record, hheader, bind, Except.bind, Bool.not_true, Bool.false_eq_true, if_false]
  rw [if_neg (by omega), hfields]
  simp only [hothers]
  rw [if_neg (by omega)]

/-- The encoding of a record whose parts are lawful. -/
theorem encode_record {required : Codec ρ} {t : Trailing α} {v : ρ × α}
    (hrequired : required.Lawful v.1) (ht : t.Lawful v.2) :
    (record required t).encode v =
      Header.encode ⟨true, (required.encode v.1 ++ t.encode v.2).length⟩ ++
        (required.encode v.1 ++ t.encode v.2) := by
  simp only [record, hrequired.length_eq, ht.length_eq, List.length_append]

/-- **A record is read back.** -/
theorem Sound.record {required : Codec ρ} {t : Trailing α} {v : ρ × α}
    (hrequired : required.Sound v.1) (ht : t.Sound v.2) : (record required t).Sound v := by
  intro hlen
  have hparts : (required.encode v.1).length + (t.encode v.2).length < maxLength := by
    simp only [Trailing.record, List.length_append] at hlen
    omega
  replace hrequired := hrequired (by omega)
  replace ht := ht (by omega)
  have hencode := encode_record hrequired ht
  have hpayload : (required.encode v.1 ++ t.encode v.2).length < maxLength := by
    rwa [List.length_append]
  refine ⟨fun rest ↦ ?_, ?_, ?_⟩
  · have hheader : Header.decode ((Trailing.record required t).encode v ++ rest) =
        .ok (⟨true, (required.encode v.1 ++ t.encode v.2).length⟩,
          required.encode v.1 ++ (t.encode v.2 ++ rest)) := by
      rw [hencode, List.append_assoc, List.append_assoc]
      exact decode_encode_list hpayload (by simp)
    have hothers := ht.decode_encode_append (required.encode v.1).length rest
    rw [← List.length_append, ← List.length_append] at hothers
    refine decode_record hheader (hrequired.decode_encode_append _) hothers ?_
    simp only [List.length_append]
    omega
  · rw [hencode, List.length_append, length_encode_header hpayload, List.length_append]
    simp only [Trailing.record, hrequired.length_eq, ht.length_eq]
    omega
  · obtain ⟨b, bytes, hb, -⟩ := head_encode true hpayload (Or.inl rfl)
    rw [hencode, hb]
    exact List.cons_ne_nil _ _

end Trailing

end Rlp
