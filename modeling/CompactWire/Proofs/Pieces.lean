import CompactWire.Proofs.Messages
import CompactWire.Proofs.Steps

/-!
# CompactWire.Proofs.Pieces — what a writer appends, piece by piece

The bytes of a session fall into pieces: headers of fields, and whatever else the calls write.  `Step.pieces` lists what
a single call comes to, by what is asked for and how it ends, and `Step.out_after` says that just the bytes of these
pieces are appended.  So the bytes of a session are those of its pieces one after the other (`out_final`), and the
headers among them can be counted.

A header of a field is one of a boolean field if its code says so, whoever wrote it.
-/

namespace CompactWire.Writer

open Outcome

/-- A piece of what a writer appends. -/
inductive Piece
  /-- The header of a field, behind a field with id `last`. -/
  | field (last id : Int16) (code : Nat)
  /-- A header of another kind, a mark, or a number or text. -/
  | plain (bytes : Bytes)

namespace Piece

/-- The bytes of a piece. -/
def bytes : Piece → Bytes
  | field last id code => fieldHead last id code
  | plain bytes => bytes

/-- Whether the piece is the header of a boolean field. -/
def isBool : Piece → Bool
  | field _ _ code => code = WireType.boolCode true ∨ code = WireType.boolCode false
  | plain _ => false

theorem isBool_field_boolCode (last id : Int16) (b : Bool) : (field last id (WireType.boolCode b)).isBool = true := by
  cases b <;> rfl

/-- Only a boolean has the code of one. -/
theorem isBool_field_code (last id : Int16) {type : WireType} (h : type ≠ .bool) :
    (field last id type.code).isBool = false := by
  cases type <;> first | rfl | exact absurd rfl h

end Piece

/-- The bytes of a single call that writes no header of a field. -/
def Call.bytes : Call → Bytes
  | .messageBegin header => header.bytes
  | .fieldStop => [0]
  | .mapBegin header => header.canonical
  | .listBegin header | .setBegin header => header.canonical
  | .bool b => (Value.bool b).canonical
  | .byte n => (Value.byte n).canonical
  | .i16 n => (Value.i16 n).canonical
  | .i32 n => (Value.i32 n).canonical
  | .i64 n => (Value.i64 n).canonical
  | .double bits => (Value.double bits).canonical
  | .string text => (Value.binary (Utf8.encode text)).canonical
  | .binary bytes => (Value.binary bytes).canonical
  | _ => []

/-- The bytes that stand before a size or length. -/
def Call.announced : Call → Bytes
  | .messageBegin header =>
    [MessageHeader.protocolId, header.second] ++ Varint.encode header.seqId.toUInt32.toNat
  | .listBegin header | .setBegin header => [nibbles 15 header.element.code]
  | _ => []

/-- The bytes that are out when a single call is rejected.  One whose size is refused has announced it. -/
def Call.leftBy (call : Call) : Error → Bytes
  | .lengthExceeded _ _ => call.announced
  | _ => []

/-- What a single call comes to that the writer `w` accepts. -/
def Call.pieces (w : Writer) : Call → List Piece
  | .fieldBegin header => if header.type = .bool then [] else [.field w.lastId header.id header.type.code]
  | .bool b =>
    match w.pendingBool with
    | some id => [.field w.lastId id (WireType.boolCode b)]
    | none => [.plain (Call.bool b).bytes]
  | call => [.plain call.bytes]

/-- What a single call comes to. -/
def Step.pieces (s : Step) : List Piece :=
  match s.outcome with
  | .ok _ _ => s.call.pieces s.before
  | .error e _ => [.plain (s.call.leftBy e)]

variable {w : Writer} {s : Step}

/-! ### Bytes that are appended -/

/-- Where the call succeeds it has appended `bs`. -/
def Appends {α : Type} (x : Writing α) (bs : Bytes) : Prop :=
  ∀ w a w', x w = .ok a w' → w'.out.toList = w.out.toList ++ bs

namespace Appends

variable {α β : Type} {x : Writing α} {f : α → Writing β} {bs cs : Bytes}

theorem pure (a : α) : Appends (pure a) [] := by
  intro w b w' h
  obtain ⟨-, rfl⟩ := pure_eq_ok.1 h
  exact (List.append_nil _).symm

theorem throw (e : Error) (bs : Bytes) : Appends (throw e : Writing α) bs := fun _ _ _ h => nomatch h

theorem bind (hx : Appends x bs) (hf : ∀ a, Appends (f a) cs) : Appends (x >>= f) (bs ++ cs) := by
  intro w b w' h
  obtain ⟨a, t, hfirst, hsecond⟩ := bind_eq_ok.1 h
  rw [hf a t b w' hsecond, hx w a t hfirst, List.append_assoc]

theorem put (bs : Bytes) : Appends (put bs) bs := by
  intro w a w' h
  cases h
  simp

theorem checkPending : Appends checkPending [] := by
  intro w a w' h
  cases hp : w.pendingBool with
  | some id => cases (checkPending_of_some hp).symm.trans h
  | none =>
    cases (checkPending_eq hp).symm.trans h
    exact (List.append_nil _).symm

theorem checked (hx : Appends x bs) : Appends (do Writer.checkPending; x) bs := checkPending.bind fun _ => hx

theorem putSize (size : Nat) : Appends (putSize size) (Varint.encode size) := by
  unfold Writer.putSize
  split
  · exact .throw _ _
  · exact .put _

theorem binary (bytes : Bytes) : Appends (binary bytes) (Varint.encode bytes.length ++ bytes) :=
  (putSize _).bind fun _ => .put bytes

theorem messageBegin (header : MessageHeader) : Appends (messageBegin header) header.bytes := by
  unfold Writer.messageBegin
  split
  · exact .throw (α := Unit) _ _
  · exact (put _).bind fun _ => (put _).bind fun _ => binary _

theorem collectionBegin (header : CollectionHeader) : Appends (collectionBegin header) header.canonical := by
  refine .checked ?_
  unfold CollectionHeader.canonical
  split
  · exact .put _
  · exact (put _).bind fun _ => putSize _

theorem mapBegin (header : MapHeader) : Appends (mapBegin header) header.canonical := by
  obtain ⟨key, val, size⟩ := header
  refine .checked ?_
  unfold MapHeader.canonical
  split
  · exact .put _
  · cases key with
    | none => exact .throw _ _
    | some key => cases val with
      | none => exact .throw _ _
      | some val => exact (putSize _).bind fun _ => .put _

theorem structEnd : Appends structEnd [] := by
  intro w a w' h
  cases hp : w.pendingBool with
  | some id => cases (structEnd_of_some hp).symm.trans h
  | none =>
    cases hparents : w.parents with
    | nil => cases (structEnd_of_nil hp hparents).symm.trans h
    | cons id parents =>
      cases (structEnd_of_cons hp hparents).symm.trans h
      exact (List.append_nil _).symm

theorem structBegin : Appends structBegin [] := by
  intro w a w' h
  cases h
  exact (List.append_nil _).symm

end Appends

/-! ### What a single call appends -/

theorem Call.Rejected.left_eq {call : Call} {e : Error} {left : Bytes} (h : call.Rejected w e left) :
    left = call.leftBy e := by
  cases h <;> rfl

theorem fieldBegin_eq_ok {header : FieldHeader} {w' : Writer} (h : fieldBegin header w = .ok () w') :
    w' = if header.type = .bool then { w with pendingBool := some header.id }
      else w.addFields (fieldHead w.lastId header.id header.type.code) header.id := by
  obtain ⟨id, type⟩ := header
  cases hp : w.pendingBool with
  | some waiting => cases (fieldBegin_of_some ⟨id, type⟩ hp).symm.trans h
  | none =>
    by_cases hbool : type = .bool
    · subst hbool
      cases (fieldBegin_bool id hp).symm.trans h
      rfl
    by_cases hstop : type = .stop
    · subst hstop
      have hrejected : fieldBegin ⟨id, .stop⟩ w = .error (.invalidFieldType .stop) w := bind_of_ok (checkPending_eq hp)
      cases hrejected.symm.trans h
    · have hbegin := (fieldBegin_eq hstop hbool hp).trans (putFieldHeader_eq id type.code rfl)
      cases hbegin.symm.trans h
      exact (if_neg hbool).symm

/-- A call that has to do with no header of a field. -/
theorem Call.appends_bytes {call : Call} (hsingle : call.Single) (hfield : ∀ header, call ≠ .fieldBegin header)
    (hbool : ∀ b, call ≠ .bool b) : Appends call.run call.bytes := by
  cases call with
  | messageBegin header => exact .messageBegin header
  | structBegin => exact .structBegin
  | structEnd => exact .structEnd
  | fieldBegin header => exact absurd rfl (hfield header)
  | fieldStop => exact .checked (.put _)
  | mapBegin header => exact .mapBegin header
  | listBegin header | setBegin header => exact .collectionBegin header
  | messageEnd | fieldEnd | mapEnd | listEnd | setEnd => exact .pure ()
  | bool b => exact absurd rfl (hbool b)
  | byte _ | i16 _ | i32 _ | i64 _ | double _ => exact .put _
  | string _ | binary _ => exact .binary _
  | value _ | record _ => exact hsingle.elim

/-- **Just the bytes of its pieces** are appended in a single call. -/
theorem Step.out_after (hsingle : s.call.Single) :
    (s.call.after s.before).out.toList = s.before.out.toList ++ s.pieces.flatMap Piece.bytes := by
  obtain ⟨w, call⟩ := s
  unfold pieces outcome
  dsimp only at hsingle ⊢
  rw [call.after_eq]
  cases hrun : call.run w with
  | error e w' =>
    obtain ⟨left, hrejected, rfl⟩ := (Call.run_eq_error_iff hsingle).1 hrun
    show (w.out ++ left).toList = w.out.toList ++ [Piece.plain (call.leftBy e)].flatMap Piece.bytes
    rw [← hrejected.left_eq]
    simp [Piece.bytes]
  | ok _ w' =>
    show w'.out.toList = w.out.toList ++ (call.pieces w).flatMap Piece.bytes
    by_cases hfield : ∃ header, call = .fieldBegin header
    · obtain ⟨header, rfl⟩ := hfield
      rw [fieldBegin_eq_ok hrun]
      unfold Call.pieces
      by_cases htype : header.type = .bool
      · simp [htype]
      · simp [htype, Writer.addFields, Writer.add, Piece.bytes]
    by_cases hbool : ∃ b, call = .bool b
    · obtain ⟨b, rfl⟩ := hbool
      unfold Call.pieces
      cases hp : w.pendingBool with
      | some id =>
        cases (bool_of_some b hp).symm.trans hrun
        simp [Writer.addFields, Writer.add, Piece.bytes]
      | none =>
        cases (bool_of_none b hp).symm.trans hrun
        simp [Writer.add, Piece.bytes, Call.bytes, Value.canonical]
    have hbytes := Call.appends_bytes hsingle (not_exists.1 hfield) (not_exists.1 hbool) w () w' hrun
    have hpieces : call.pieces w = [.plain call.bytes] := by
      cases call <;> first | rfl | exact absurd ⟨_, rfl⟩ hfield | exact absurd ⟨_, rfl⟩ hbool
    rw [hbytes, hpieces, List.flatMap_singleton]
    rfl

/-- What a session has written are the pieces of its steps, one after the other. -/
theorem out_final (calls : List Call) :
    (final calls {}).out.toList = ((steps calls {}).flatMap Step.pieces).flatMap Piece.bytes := by
  refine (holds_along (w := {})
    (P := fun earlier w => w.out.toList = (earlier.flatMap Step.pieces).flatMap Piece.bytes) rfl ?_ calls).2
  intro earlier s hsingle hout
  rw [Step.out_after hsingle, hout, List.flatMap_append, List.flatMap_append, List.flatMap_singleton]

end CompactWire.Writer
