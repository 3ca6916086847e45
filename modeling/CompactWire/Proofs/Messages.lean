import Mathlib
import CompactWire.Message
import CompactWire.Proofs.RoundTrip
import CompactWire.Proofs.Utf8

/-!
# CompactWire.Proofs.Messages — a message there and back

A header is written as `MessageHeader.bytes`, if its kind has two bits and its name a length of 32 bits, and read from
these bytes (`writes_messageBegin`, `messageBegin_bytes`).  So a message is written exactly if it is `Sendable`
(`Message.writes`, `Message.of_write`), from any state of a writer and leaving no trace but its bytes, and it is read
from these bytes as it was, but for the types of empty maps (`Message.read_bytes`).
-/

namespace CompactWire

open Outcome

/-! ### Headers -/

namespace MessageHeader

/-- The second byte: the version and the kind. -/
def second (h : MessageHeader) : UInt8 := UInt8.ofNat (version + 32 * h.kind)

/-- The bytes of the name. -/
abbrev nameBytes (h : MessageHeader) : Bytes := Utf8.encode h.name

/-- The bytes of a header. -/
def bytes (h : MessageHeader) : Bytes :=
  [protocolId, h.second] ++ (Varint.encode h.seqId.toUInt32.toNat ++ (Varint.encode h.nameBytes.length ++ h.nameBytes))

theorem second_eq {h : MessageHeader} (hk : h.kind ≤ 3) :
    h.second.toNat % 32 = version ∧ h.second.toNat / 32 % 4 = h.kind := by
  have hsecond : h.second.toNat = 1 + 32 * h.kind := UInt8.toNat_ofNat_of_lt' (by show 1 + 32 * h.kind < 256; omega)
  have hversion : version = 1 := rfl
  rw [hsecond, hversion]
  omega

end MessageHeader

namespace Writer

variable {header : MessageHeader} {w w' : Writer}

theorem writes_messageBegin (hk : header.kind ≤ 3) (hn : header.nameBytes.length < UInt32.size) :
    Writes (messageBegin header) header.bytes := by
  unfold messageBegin
  rw [if_neg (by omega)]
  exact (Writes.put _).bind ((Writes.put _).bind (writes_binary hn))

/-- A kind of more than two bits is refused, and nothing is written. -/
theorem messageBegin_of_lt (hk : 3 < header.kind) (w : Writer) :
    messageBegin header w = .error (.invalidData (.kindTooWide header.kind)) w := by
  unfold messageBegin
  rw [if_pos hk]
  rfl

theorem of_messageBegin (h : messageBegin header w = .ok () w') :
    header.kind ≤ 3 ∧ header.nameBytes.length < UInt32.size := by
  have hk : header.kind ≤ 3 := by
    by_contra hk
    rw [messageBegin_of_lt (by omega)] at h
    cases h
  unfold messageBegin at h
  rw [if_neg (by omega)] at h
  obtain ⟨_, _, -, h⟩ := bind_eq_ok.1 h
  obtain ⟨_, _, -, h⟩ := bind_eq_ok.1 h
  exact ⟨hk, size_lt_of_binary h⟩

end Writer

namespace Reader

variable {r : Reader Bytes} {text : String} {header : MessageHeader}

/-- A text is read from its length and its bytes. -/
theorem string_encode (hsize : (Utf8.encode text).length < UInt32.size)
    (hallowed : (Utf8.encode text).length ≤ r.limits.maxString) (rest : Bytes) :
    string { r with input := Varint.encode (Utf8.encode text).length ++ Utf8.encode text ++ rest } =
      .ok text { r with input := rest } := by
  have hlength : readLength { r with input := Varint.encode (Utf8.encode text).length ++ Utf8.encode text ++ rest } =
      .ok (Utf8.encode text).length { r with input := Utf8.encode text ++ rest } :=
    (parses_readLength _ _ _ (Nat.le_refl _)).2 ⟨_, _, List.append_assoc .., ⟨Varint.admits_size hsize, by simpa⟩, rfl⟩
  refine (bind_of_ok hlength).trans ?_
  by_cases h0 : (Utf8.encode text).length = 0
  · have hnil := List.eq_nil_of_length_eq_zero h0
    have hempty : text = "" := by
      have hdecode := Utf8.decode_text text
      rw [hnil] at hdecode
      exact (Except.ok.inj hdecode).symm
    rw [if_pos h0, hnil, hempty]
    rfl
  · have hspan : onInput (Input.withSpan (Utf8.encode text).length) { r with input := Utf8.encode text ++ rest } =
        .ok (Utf8.encode text) { r with input := rest } :=
      (parses_withSpan _ _ _ _ (Nat.le_refl _)).2 ⟨_, rest, rfl, ⟨rfl, rfl⟩, rfl⟩
    rw [if_neg h0]
    refine (bind_of_ok hspan).trans ?_
    rw [Utf8.decode_text]
    rfl

/-- A header is read from its bytes. -/
theorem messageBegin_bytes (hk : header.kind ≤ 3) (hsize : header.nameBytes.length < UInt32.size)
    (hallowed : header.nameBytes.length ≤ r.limits.maxString) (rest : Bytes) :
    messageBegin { r with input := header.bytes ++ rest } = .ok header { r with input := rest } := by
  obtain ⟨hversion, hkind⟩ := MessageHeader.second_eq hk
  let name : Bytes := Varint.encode header.nameBytes.length ++ header.nameBytes ++ rest
  let seqId : Bytes := Varint.encode header.seqId.toUInt32.toNat
  have hinput : header.bytes ++ rest = MessageHeader.protocolId :: header.second :: (seqId ++ name) := by
    simp [MessageHeader.bytes, seqId, name]
  have hfirst : readByte { r with input := MessageHeader.protocolId :: header.second :: (seqId ++ name) } =
      .ok MessageHeader.protocolId { r with input := header.second :: (seqId ++ name) } := rfl
  have hsecond : readByte { r with input := header.second :: (seqId ++ name) } =
      .ok header.second { r with input := seqId ++ name } := rfl
  have hseqId : onInput (Varint.read .w32) { r with input := seqId ++ name } =
      .ok header.seqId.toUInt32.toNat { r with input := name } :=
    (parses_varint (by decide) _ _ _ (Nat.le_refl _)).2
      ⟨seqId, name, rfl, Varint.admits_size header.seqId.toUInt32.toNat_lt, rfl⟩
  rw [hinput]
  refine (bind_of_ok hfirst).trans ?_
  rw [if_neg (not_not_intro rfl)]
  refine (bind_of_ok hsecond).trans ?_
  rw [if_neg (not_not_intro hversion)]
  refine (bind_of_ok hseqId).trans ((bind_of_ok (string_encode hsize hallowed rest)).trans ?_)
  rw [hkind, ofNat_toUInt32]
  rfl

end Reader

/-! ### Messages -/

namespace Message

variable {m : Message} {limits : Limits}

/-- A message that can be written. -/
structure Sendable (m : Message) : Prop where
  kind : m.1.kind ≤ 3
  name : m.1.nameBytes.length < UInt32.size
  record : ∃ b, m.2.encode = .ok b

/-- The name and the record keep to the limits. -/
structure Fits (limits : Limits) (m : Message) : Prop where
  name : m.1.nameBytes.length ≤ limits.maxString
  parts : ∀ p ∈ m.2.parts, p.Fits limits
  height : m.2.height ≤ limits.maxDepth
  structHeight : m.2.structHeight ≤ limits.maxDepth

/-- The message as it is read back. -/
def normal (m : Message) : Message := (m.1, m.2.normal)

/-- The header is written, and the encoding of the record behind it. -/
theorem writes_encoded (h : m.Sendable) {b : Bytes} (hb : m.2.encode = .ok b) :
    Writer.Writes m.write (m.1.bytes ++ b) :=
  (Writer.writes_messageBegin h.kind h.name).bind (Record.writes_of_encode hb)

theorem bytes_of_writes {bs : Bytes} (h : Writer.Writes m.write bs) : m.bytes = bs := by
  unfold bytes
  rw [h {} rfl]
  simp [Writer.add]

theorem writes (h : m.Sendable) : Writer.Writes m.write m.bytes := by
  obtain ⟨b, hb⟩ := h.record
  have hw := writes_encoded h hb
  rwa [bytes_of_writes hw]

/-- Nothing but a message that can be written is written in full. -/
theorem of_write {w w' : Writer} (hp : w.pendingBool = none) (h : m.write w = .ok () w') :
    m.Sendable ∧ w'.pendingBool = none := by
  obtain ⟨_, w₁, hbegin, hrecord⟩ := bind_eq_ok.1 h
  obtain ⟨hk, hn⟩ := Writer.of_messageBegin hbegin
  have hp₁ := (Writer.writes_messageBegin hk hn).pendingBool hp hbegin
  obtain ⟨henc, hp'⟩ := Writer.onlyEncodable (.struct m.2) w₁ w' hp₁ hrecord
  refine ⟨⟨hk, hn, Record.exists_encode_iff.2 ?_⟩, hp'⟩
  exact Value.forall_mem_fieldParts.2 (Writer.encodable_struct.1 henc)

/-- A new reader takes just the bytes of the message. -/
theorem read_bytes (h : m.Sendable) (hfits : m.Fits limits) (rest : Bytes) :
    read { input := m.bytes ++ rest, limits } = .ok m.normal ({ input := rest, limits } : Reader Bytes) := by
  obtain ⟨b, hb⟩ := h.record
  have hheader : Reader.messageBegin { input := m.1.bytes ++ (b ++ rest), limits } =
      .ok m.1 ({ input := b ++ rest, limits } : Reader Bytes) :=
    Reader.messageBegin_bytes (r := { input := [], limits }) h.kind h.name hfits.name (b ++ rest)
  have hrecord := Record.read_encoded hb hfits.parts hfits.height hfits.structHeight rest
  rw [bytes_of_writes (writes_encoded h hb), List.append_assoc]
  refine (bind_of_ok hheader).trans ?_
  exact bind_of_ok hrecord

end Message

end CompactWire
