import CompactWire.Proofs.ReadGrammar
import CompactWire.Proofs.Skipping

/-!
# CompactWire.Proofs.ContextFree — a value is read the same wherever it stands

The header of a field is read as a step from the field before, and the boolean of a field waits in the session.  Values
are read through both, struct inside struct, and still neither shows outside: a value leaves the open structs and the
last field id as they were, and what is read depends on the input and the limits alone, as long as the depth is not
exceeded (`ContextFree`).

`Frames` is the rule behind this, with a pre- and a postcondition on the pending boolean.  It holds in two scopes.
Between the fields of a struct the last field id may be looked at and changed; outside it may not, and what takes a
struct from one to the other is that opening it sets the id to zero and closing it restores the one before.
-/

namespace CompactWire.Reader

open Outcome

variable {ι span α β : Type}

/-- The reader inside a struct it has opened. -/
def opened (r : Reader ι) : Reader ι := { r with parents := r.lastId :: r.parents, lastId := 0 }

theorem structEnd_eq {r : Reader ι} {id : Int16} {parents : List Int16} (hr : r.parents = id :: parents) :
    structEnd r = .ok () { r with parents, lastId := id } := by
  refine (bind_of_ok (x := get) (a := r) rfl).trans ?_
  rw [hr]
  rfl

/-! ### Frames -/

/-- The reader `s`, gone on to where `r` is: with the input and the pending boolean of `r`, and between the fields of a
struct with its last field id. -/
def goneTo (inside : Bool) (r s : Reader ι) : Reader ι :=
  { s with input := r.input, pendingBool := r.pendingBool, lastId := if inside then r.lastId else s.lastId }

/-- The reader `s` is where `r` is, with the same limits and no more structs open. -/
structure Beside (inside : Bool) (r s : Reader ι) : Prop where
  place : s = goneTo inside r s
  limits : s.limits = r.limits
  depth : s.depth ≤ r.depth

/-- Where `P` holds of the pending boolean and the call succeeds, `Q` holds of its result and the boolean behind it.
Nothing but the place of the reader has changed, and a reader beside it reads the same. -/
def Frames (inside : Bool) (P : Option Bool → Prop) (Q : α → Option Bool → Prop) (x : Reading ι α) : Prop :=
  ∀ r a r', P r.pendingBool → x r = .ok a r' → Q a r'.pendingBool ∧ r' = goneTo inside r' r ∧
    ∀ s, Beside inside r s → x s = .ok a (goneTo inside r' s)

/-- No boolean is pending. -/
def Idle (p : Option Bool) : Prop := p = none

/-- A boolean is pending for a value of the boolean type only. -/
def Awaits (type : WireType) (p : Option Bool) : Prop := type ≠ .bool → Idle p

/-- A call that is made while no boolean is pending and leaves none. -/
abbrev Framed (inside : Bool) (x : Reading ι α) : Prop := Frames inside Idle (fun _ => Idle) x

theorem goneTo_goneTo (inside : Bool) (u t s : Reader ι) : goneTo inside u (goneTo inside t s) = goneTo inside u s := by
  cases inside <;> rfl

theorem Beside.input {inside : Bool} {r s : Reader ι} (h : Beside inside r s) : s.input = r.input := by
  rw [h.place]
  rfl

theorem Beside.pendingBool {inside : Bool} {r s : Reader ι} (h : Beside inside r s) :
    s.pendingBool = r.pendingBool := by
  rw [h.place]
  rfl

theorem Beside.goneTo {inside : Bool} {r s t : Reader ι} (h : Beside inside r s) (ht : t = goneTo inside t r) :
    Beside inside t (goneTo inside t s) where
  place := (goneTo_goneTo inside t t s).symm
  limits := by
    rw [ht]
    exact h.limits
  depth := by
    rw [ht]
    exact h.depth

/-- Structs opened on both sides have the same last field id, whatever stood around them. -/
theorem Beside.opened {inside : Bool} {r s : Reader ι} (h : Beside inside r s) : Beside true r.opened s.opened where
  place := by
    rw [h.place]
    rfl
  limits := h.limits
  depth := Nat.succ_le_succ h.depth

namespace Frames

variable {inside : Bool} {P P' : Option Bool → Prop} {Q : α → Option Bool → Prop} {R : β → Option Bool → Prop}
  {x : Reading ι α} {f : α → Reading ι β}

theorem pure {a : α} (h : ∀ p, P p → Q a p) : Frames (ι := ι) inside P Q (pure a) := by
  rintro r _ _ hP ⟨⟩
  refine ⟨h _ hP, ?_, fun s hs => ?_⟩
  · cases inside <;> rfl
  · rw [← hs.place]
    rfl

theorem throw (e : Error) : Frames (ι := ι) inside P Q (throw e) := by
  rintro r a r' _ ⟨⟩

theorem bind (hx : Frames inside P Q x) (hf : ∀ a, Frames inside (Q a) R (f a)) : Frames inside P R (x >>= f) := by
  intro r b r' hP h
  obtain ⟨a, t, h₁, h₂⟩ := bind_eq_ok.1 h
  obtain ⟨hQ, ht, hbeside⟩ := hx r a t hP h₁
  obtain ⟨hR, hr', hbeside'⟩ := hf a t b r' hQ h₂
  refine ⟨hR, ?_, fun s hs => ?_⟩
  · calc r' = goneTo inside r' t := hr'
      _ = goneTo inside r' (goneTo inside t r) := congrArg (goneTo inside r') ht
      _ = goneTo inside r' r := goneTo_goneTo inside r' t r
  · rw [bind_of_ok (hbeside s hs), hbeside' _ (hs.goneTo ht), goneTo_goneTo]

theorem mono (hx : Frames inside P Q x) (h : ∀ p, P' p → P p) : Frames inside P' Q x :=
  fun r a r' hP' => hx r a r' (h _ hP')

theorem map (hx : Frames inside P Q x) (g : α → β) (h : ∀ a p, Q a p → R (g a) p) :
    Frames inside P R (do return g (← x)) :=
  hx.bind fun a => Frames.pure (h a)

/-- A look at the input and the limits. -/
theorem get {f : Reader ι → Reading ι β} (hf : ∀ r, Frames inside P R (f r))
    (hsame : ∀ r s, s.input = r.input → s.limits = r.limits → f s = f r) : Frames inside P R (get >>= f) := by
  intro r b r' hP h
  obtain ⟨hR, hr', hbeside⟩ := hf r r b r' hP h
  refine ⟨hR, hr', fun s hs => ?_⟩
  show f s s = _
  rw [hsame r s hs.input hs.limits]
  exact hbeside s hs

/-- A call that does not fail. -/
theorem step {g : Reader ι → α} {u : Reader ι → Reader ι} (hx : ∀ r, x r = .ok (g r) (u r))
    (hQ : ∀ r, P r.pendingBool → Q (g r) (u r).pendingBool) (hu : ∀ r, u r = goneTo inside (u r) r)
    (hbeside : ∀ r s, Beside inside r s → g s = g r ∧ u s = goneTo inside (u r) s) : Frames inside P Q x := by
  intro r a r' hP h
  rw [hx r] at h
  cases h
  refine ⟨hQ r hP, hu r, fun s hs => ?_⟩
  obtain ⟨hg, hu'⟩ := hbeside r s hs
  rw [hx s, hg, hu']

theorem onInput (x : EStateM Error ι α) : Framed inside (onInput x) := by
  intro r a r' hidle h
  unfold Reader.onInput at h
  cases hx : x r.input with
  | error e i =>
    rw [hx] at h
    cases h
  | ok b i =>
    rw [hx] at h
    cases h
    refine ⟨hidle, ?_, fun s hs => ?_⟩
    · cases inside <;> rfl
    · unfold Reader.onInput
      rw [hs.input, hx]
      dsimp only
      rw [hs.place]
      cases inside <;> rfl

/-- A struct: between opening and closing it the last field id may be used. -/
theorem struct (hx : Framed true x) : Framed inside (do structBegin; let a ← x; structEnd; return a) := by
  intro r a r' hidle h
  obtain ⟨⟨⟩, u, hbegin, h⟩ := bind_eq_ok.1 h
  obtain ⟨hdepth, hu⟩ := structBegin_eq_ok.1 hbegin
  change u = r.opened at hu
  subst hu
  obtain ⟨b, t, hin, h⟩ := bind_eq_ok.1 h
  obtain ⟨hidle', ht, hbeside⟩ := hx r.opened b t hidle hin
  have hparents : t.parents = r.lastId :: r.parents := by rw [ht]; rfl
  have hlimits : t.limits = r.limits := by rw [ht]; rfl
  rw [bind_of_ok (structEnd_eq hparents)] at h
  cases h
  refine ⟨hidle', ?_, fun s hs => ?_⟩
  · cases inside <;> simp [goneTo, hlimits]
  · have hbegin' : structBegin s = .ok () s.opened :=
      structBegin_eq_ok.2 ⟨by rw [hs.limits]; exact Nat.lt_of_le_of_lt hs.depth hdepth, rfl⟩
    have hparents' : (goneTo true t s.opened).parents = s.lastId :: s.parents := rfl
    rw [bind_of_ok hbegin', bind_of_ok (hbeside _ hs.opened), bind_of_ok (structEnd_eq hparents')]
    -- the id that comes back is the one from before, on either side
    rw [hs.place]
    cases inside <;> rfl

end Frames

/-! ### Headers and single values -/

variable {inside : Bool} [Input ι span]

theorem framed_checked (max : Reader ι → Nat) (hmax : ∀ r s : Reader ι, s.limits = r.limits → max s = max r) :
    Framed inside (do
      let m ← onInput (Varint.read .w32)
      let r ← get
      if max r < m then throw (.lengthExceeded m (max r)) else return m) := by
  refine (Frames.onInput _).bind fun m => Frames.get (fun r => ?_) fun r s _ hlimits => ?_
  · split
    · exact Frames.throw _
    · exact Frames.pure fun _ h => h
  · rw [hmax r s hlimits]

theorem framed_readLength : Framed (ι := ι) inside readLength :=
  framed_checked (fun r => r.limits.maxString) fun r s h => by rw [h]

theorem framed_readSize : Framed (ι := ι) inside readSize :=
  framed_checked (fun r => r.limits.maxContainer) fun r s h => by rw [h]

theorem framed_typeOf (code : Nat) : Framed (ι := ι) inside (typeOf code) := by
  unfold typeOf
  split
  · exact Frames.pure fun _ h => h
  · exact Frames.throw _

/-- A boolean is the pending one or a byte, and none is pending behind it. -/
theorem frames_bool : Frames (ι := ι) inside (fun _ => True) (fun _ => Idle) bool := by
  intro r b r' _ h
  cases hp : r.pendingBool with
  | none =>
    have hbyte : Framed (ι := ι) inside (do return decide ((← readByte) = 1)) :=
      (Frames.onInput _).map _ fun _ _ h => h
    rw [bool_of_idle hp] at h
    obtain ⟨hidle, hr', hbeside⟩ := hbyte r b r' hp h
    exact ⟨hidle, hr', fun s hs => (bool_of_idle (hs.pendingBool.trans hp)).trans (hbeside s hs)⟩
  | some c =>
    rw [bool_of_pending hp] at h
    cases h
    refine ⟨rfl, by cases inside <;> rfl, fun s hs => ?_⟩
    rw [bool_of_pending (hs.pendingBool.trans hp), hs.place]
    cases inside <;> rfl

theorem framed_i32 : Framed (ι := ι) inside i32 := (Frames.onInput _).map _ fun _ _ h => h

theorem framed_i16 : Framed (ι := ι) inside i16 := framed_i32.map _ fun _ _ h => h

theorem framed_double : Framed (ι := ι) inside double := by
  refine (Frames.onInput _).bind fun bytes => ?_
  split
  · exact Frames.throw (α := UInt64) _
  · exact Frames.pure fun _ h => h

theorem framed_binaryBytes : Framed (ι := ι) inside binaryBytes :=
  framed_readLength.bind fun _ => Frames.onInput _

theorem framed_collectionBegin : Framed (ι := ι) inside collectionBegin := by
  refine (Frames.onInput _).bind fun b => (framed_typeOf _).bind fun element => ?_
  have hsize : Framed (ι := ι) inside (collectionSize (b.toNat / 16)) := by
    unfold collectionSize
    split
    · exact framed_readSize
    · exact Frames.pure fun _ h => h
  exact hsize.map _ fun _ _ h => h

theorem framed_mapBegin : Framed (ι := ι) inside mapBegin := by
  refine framed_readSize.bind fun size => ?_
  split
  · exact Frames.pure fun _ h => h
  · exact (Frames.onInput _).bind fun b => (framed_typeOf _).bind fun key => (framed_typeOf _).map _ fun _ _ h => h

/-- The boolean of a field is pending behind its header. -/
theorem frames_fieldBegin : Frames (ι := ι) true Idle
    (fun o p => match o with | none => Idle p | some field => Awaits field.type p) fieldBegin := by
  refine (Frames.onInput _).bind fun b => ?_
  dsimp only
  split
  · exact Frames.pure fun _ h => h
  refine (framed_typeOf _).bind fun type => ?_
  split
  · exact Frames.throw (α := Option FieldHeader) _
  have hid : Framed (ι := ι) true (fieldId (b.toNat / 16)) := by
    unfold fieldId
    split
    · exact framed_i16
    · refine Frames.step (u := id) (fun r => rfl) (fun r h => h) (fun r => rfl) fun r s hs => ?_
      rw [hs.place]
      exact ⟨rfl, rfl⟩
  refine hid.bind fun id => Frames.step (g := fun _ => some ⟨id, type⟩) (fun r => rfl) ?_ (fun r => rfl) ?_
  · intro r hidle hbool
    show (if type = .bool then _ else r.pendingBool) = none
    rw [if_neg hbool]
    exact hidle
  · intro r s hs
    refine ⟨rfl, ?_⟩
    rw [hs.place]
    rfl

/-! ### Values -/

theorem framed_replicate {item : Reading ι α} (h : Framed inside item) : ∀ count, Framed inside (replicate item count)
  | 0 => Frames.pure fun _ h => h
  | count + 1 => h.bind fun a => (framed_replicate h count).map (a :: ·) fun _ _ h => h

/-- A reading of values of which each may take the boolean of its field. -/
def FramesValues (inside : Bool) (value : WireType → Reading ι Value) : Prop :=
  ∀ type, Frames inside (Awaits type) (fun _ => Idle) (value type)

namespace FramesValues

variable {value : WireType → Reading ι Value}

theorem framed (h : FramesValues inside value) (type : WireType) : Framed inside (value type) :=
  (h type).mono fun _ hidle _ => hidle

theorem fields (h : FramesValues true value) : ∀ rounds, Framed true (fields value rounds)
  | 0 => Frames.throw _
  | rounds + 1 => frames_fieldBegin.bind fun o => by
    cases o with
    | none => exact Frames.pure fun _ h => h
    | some field => exact (h field.type).bind fun v => (h.fields rounds).map ((field.id, v) :: ·) fun _ _ h => h

theorem structOf (h : FramesValues true value) (rounds : Nat) : Framed inside (structOf value rounds) :=
  (h.fields rounds).struct

theorem collectionOf (h : FramesValues inside value) (make : WireType → List Value → Value) :
    Framed inside (collectionOf make value) :=
  framed_collectionBegin.bind fun header =>
    (framed_replicate (h.framed header.element) header.size).map (make header.element) fun _ _ h => h

theorem entryOf (h : FramesValues inside value) (key val : WireType) : Framed inside (entryOf value key val) :=
  (h.framed key).bind fun k => (h.framed val).map (Prod.mk k) fun _ _ h => h

theorem mapOf (h : FramesValues inside value) : Framed inside (mapOf value) := by
  refine framed_mapBegin.bind fun header => ?_
  unfold entriesOf
  split
  · exact (framed_replicate (h.entryOf _ _) header.size).map _ fun _ _ h => h
  · exact Frames.pure fun _ h => h

end FramesValues

theorem framesValues_valueWithin (rounds : Nat) :
    ∀ levels inside, FramesValues (ι := ι) inside (valueWithin rounds levels)
  | 0, _, _ => Frames.get (fun _ => Frames.throw _) fun _ _ _ hlimits => by rw [hlimits]
  | levels + 1, inside, type => by
    have ih := framesValues_valueWithin rounds levels
    have other : ∀ {α : Type} {type : WireType} {x : Reading ι α} {mk : α → Value}, Framed inside x → type ≠ .bool →
        Frames inside (Awaits type) (fun _ => Idle) (do return mk (← x)) :=
      fun hx htype => (hx.map _ fun _ _ h => h).mono fun _ hawaits => hawaits htype
    unfold valueWithin
    cases type with
    | stop => exact Frames.throw _
    | bool => exact (frames_bool.map Value.bool fun _ _ h => h).mono fun _ _ => trivial
    | byte => exact other ((Frames.onInput _).map _ fun _ _ h => h) (by decide)
    | i16 => exact other framed_i16 (by decide)
    | i32 => exact other framed_i32 (by decide)
    | i64 => exact other ((Frames.onInput _).map _ fun _ _ h => h) (by decide)
    | double => exact other framed_double (by decide)
    | binary => exact other framed_binaryBytes (by decide)
    | list => exact ((ih inside).collectionOf .list).mono fun _ h => h (by decide)
    | set => exact ((ih inside).collectionOf .set).mono fun _ h => h (by decide)
    | map => exact (ih inside).mapOf.mono fun _ h => h (by decide)
    | struct => exact other ((ih true).structOf rounds) (by decide)

/-! ### Passing over values -/

theorem Frames.discard {P : Option Bool → Prop} {x : Reading ι α} (hx : Frames inside P (fun _ => Idle) x) :
    Frames inside P (fun _ => Idle) (discard x) := by
  rw [discard_eq]
  exact hx.bind fun _ => Frames.pure fun _ h => h

/-- Passes over a value and gives another one in its place. -/
def standIn (skip : WireType → Reading ι Unit) (type : WireType) : Reading ι Value := do
  skip type
  return .bool true

/-- What holds with any reading of the values inside holds with passing over them. -/
theorem discard_standIn (skip : WireType → Reading ι Unit) : (fun type => discard (standIn skip type)) = skip := by
  funext type
  unfold standIn
  rw [discard_eq, bind_assoc]
  simp only [pure_bind, bind_pure_unit]

theorem frames_skipWithin (rounds : Nat) : ∀ levels inside type,
    Frames (ι := ι) inside (Awaits type) (fun _ => Idle) (skipWithin rounds levels type)
  | 0, _, _ => Frames.get (fun _ => Frames.throw _) fun _ _ _ hlimits => by rw [hlimits]
  | levels + 1, inside, type => by
    have ih : ∀ inside, FramesValues (ι := ι) inside (standIn (skipWithin rounds levels)) := fun inside type =>
      (frames_skipWithin rounds levels inside type).bind fun _ => Frames.pure fun _ h => h
    have other : ∀ {α : Type} {type : WireType} {x : Reading ι α}, Framed inside x → type ≠ .bool →
        Frames inside (Awaits type) (fun _ => Idle) (discard x) :=
      fun hx htype => hx.discard.mono fun _ hawaits => hawaits htype
    unfold skipWithin
    rw [← discard_standIn (skipWithin rounds levels)]
    cases type with
    | stop => exact Frames.throw _
    | bool => exact frames_bool.discard.mono fun _ _ => trivial
    | byte => exact other ((Frames.onInput _).map _ fun _ _ h => h) (by decide)
    | i16 | i32 => exact other framed_i32 (by decide)
    | i64 => exact other ((Frames.onInput _).map _ fun _ _ h => h) (by decide)
    | double => exact other (Frames.onInput _) (by decide)
    | binary => exact other framed_binaryBytes (by decide)
    | list | set =>
      dsimp only
      rw [skip_collectionOf .list]
      exact other ((ih inside).collectionOf .list) (by decide)
    | map =>
      have hmap : Frames inside (Awaits .map) (fun _ => Idle) (discard (mapOf _)) :=
        other (ih inside).mapOf (by decide)
      rw [← skip_mapOf] at hmap
      exact hmap
    | struct =>
      dsimp only
      rw [skip_structOf]
      exact other ((ih true).structOf rounds) (by decide)

/-! ### Wherever a value stands -/

/-- Where no boolean is pending, what the call reads depends on the input and the limits alone, as long as the depth is
not exceeded, and but for the input it leaves the reader as it was. -/
def ContextFree (x : Reading ι α) : Prop :=
  ∀ r a r', r.pendingBool = none → x r = .ok a r' → r' = { r with input := r'.input } ∧
    ∀ s : Reader ι, s.input = r.input → s.limits = r.limits → s.pendingBool = none → s.depth ≤ r.depth →
      x s = .ok a { s with input := r'.input }

theorem ContextFree.of_framed {x : Reading ι α} (h : Framed false x) : ContextFree x := by
  intro r a r' hidle hx
  obtain ⟨hidle', hr', hbeside⟩ := h r a r' hidle hx
  have hplace : ∀ s : Reader ι, s.pendingBool = none → goneTo false r' s = { s with input := r'.input } := by
    intro s hs
    show { s with input := r'.input, pendingBool := r'.pendingBool } = { s with input := r'.input }
    rw [show r'.pendingBool = none from hidle', ← hs]
  refine ⟨hr'.trans (hplace r hidle), fun s hinput hlimits hs hdepth => ?_⟩
  rw [← hplace s hs]
  refine hbeside s ⟨?_, hlimits, hdepth⟩
  show s = { s with input := r.input, pendingBool := r.pendingBool }
  rw [← hinput, hidle, ← hs]

theorem contextFree_value (type : WireType) : ContextFree (ι := ι) (value type) := by
  refine .of_framed (Frames.get (fun r => (framesValues_valueWithin r.rounds _ false).framed type) ?_)
  intro r s hinput hlimits
  unfold rounds
  rw [hinput, hlimits]

theorem contextFree_record : ContextFree (ι := ι) record := by
  refine .of_framed (Frames.get (fun r => (framesValues_valueWithin r.rounds _ true).structOf _) ?_)
  intro r s hinput hlimits
  unfold rounds
  rw [hinput, hlimits]

theorem contextFree_skip (type : WireType) : ContextFree (ι := ι) (skip type) := by
  refine .of_framed (Frames.get (fun r => (frames_skipWithin r.rounds _ false type).mono fun _ h _ => h) ?_)
  intro r s hinput hlimits
  unfold rounds
  rw [hinput, hlimits]

/-- **Values are read the same wherever they stand**: behind a value, a record or a value passed over, the open
structs and the last field id are as before and no boolean is pending, and in any session over the same input with the
same limits and no more open structs, a new one among them, the call gives the same and takes as much.  A pending
boolean is what a boolean is read as, without a look at the input, and nothing else is changed by it. -/
theorem context_free (type : WireType) :
    ContextFree (ι := ι) (value type) ∧ ContextFree (ι := ι) record ∧ ContextFree (ι := ι) (skip type) ∧
    ∀ (r : Reader ι) (b : Bool), r.pendingBool = some b →
      bool r = .ok b { r with pendingBool := none } ∧
      value .bool r = .ok (.bool b) { r with pendingBool := none } ∧
      skip .bool r = .ok () { r with pendingBool := none } := by
  refine ⟨contextFree_value type, contextFree_record, contextFree_skip type, fun r b hb => ?_⟩
  have hbool := bool_of_pending hb
  refine ⟨hbool, bind_of_ok hbool, ?_⟩
  show discard bool r = _
  exact discard_eq_ok_iff.2 ⟨b, hbool⟩

/-- A struct with a struct and two booleans inside, in the middle of another struct and in a session of its own. -/
theorem context_free_amid :
    let amid : Reader Bytes := { input := [28, 17, 0, 34, 0, 9], limits := {}, parents := [7], lastId := 300 }
    let v : Value := .struct [(1, .struct [(1, .bool true)]), (3, .bool false)]
    value .struct amid = .ok v { amid with input := [9] } ∧
      value .struct { input := amid.input, limits := {} } = .ok v ({ input := [9], limits := {} } : Reader Bytes) := by
  intro amid v
  have hread : value .struct amid = .ok v { amid with input := [9] } := by cbv
  obtain ⟨-, hanywhere⟩ := (context_free .struct).1 amid v _ rfl hread
  exact ⟨hread, hanywhere { input := amid.input, limits := {} } rfl rfl rfl (Nat.zero_le _)⟩

end CompactWire.Reader
