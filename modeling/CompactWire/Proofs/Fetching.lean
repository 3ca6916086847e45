import CompactWire.Fetch
import CompactWire.Message
import CompactWire.Proofs.Outcome
import CompactWire.Proofs.Steady
import CompactWire.Proofs.Transports
import CompactWire.Trailer

/-!
# CompactWire.Proofs.Fetching — what is fetched from a source is what its bytes hold

Every function that reads one thing from a source has a counterpart that reads it from the front of a byte string:
`failing` for an operation of an input, `alone` for calls of a reader.  Over a source that rewinds, with its transport
closed each time, the two give the same result and leave the same bytes ahead, or they fail in the same way
(`tracks_withTransport`, `tracks_withReader`).  So a sequence of them goes along with its counterpart, whatever the size
of the chunks and the state of the pool, and all that a file source can contribute is the bytes of its range
(`Trailer.tracks_within`).  Only a span of more than `Transport.sureOf` bytes, for the size of the chunks, with as many to
come, may break off what is fetched (`Fetch.Stops`).
-/

namespace CompactWire

open Outcome

namespace Fetch

variable {ι α : Type}

/-! ### The same on bytes -/

/-- An operation of an input, whose errors become failures. -/
def failing (onError : Error → Failure) (x : EStateM Error ι α) : EStateM Failure ι α := fun i =>
  match x i with
  | .ok a i => .ok a i
  | .error e i => .error (.naming onError e) i

/-- Calls of a reader that is there for them alone. -/
def alone {ε : Type} (limits : Limits) (x : EStateM ε (Reader ι) α) : EStateM ε ι α := fun i =>
  match x { input := i, limits } with
  | .ok a r => .ok a r.input
  | .error e r => .error e r.input

/-- The calls for a message. -/
def messageCalls {span : Type} [Input ι span] : EStateM Failure (Reader ι) Message := do
  let header ← about .messageHeader Reader.messageBegin
  let record ← about .messageBody Reader.record
  return (header, record)

theorem failing_withSpan (onError : Error → Failure) {d : Bytes} {length : Nat} (h : length ≤ d.length) :
    failing onError (Input.withSpan length) d = .ok (d.take length) (d.drop length) := by
  have hspan : Input.readSpan length d = .ok (d.take length) (d.drop length) := if_neg (Nat.not_lt.2 h)
  have hread : Input.withSpan length d = .ok (d.take length) (d.drop length) := bind_of_ok hspan
  unfold failing
  rw [hread]

theorem alone_eq_ok {ε : Type} {limits : Limits} {x : EStateM ε (Reader ι) α} {a : α} {i rest : ι} :
    alone limits x i = .ok a rest ↔ ∃ r', x { input := i, limits } = .ok a r' ∧ r'.input = rest := by
  unfold alone
  cases x { input := i, limits } with
  | ok b r' =>
    constructor
    · intro h
      cases h
      exact ⟨r', rfl, rfl⟩
    · rintro ⟨_, h, rfl⟩
      cases h
      rfl
  | error e r' =>
    constructor
    · intro h
      cases h
    · rintro ⟨_, h, -⟩
      cases h

theorem about_eq_ok {subject : Subject} {x : Reading ι α} {r r' : Reader ι} {a : α} :
    about subject x r = .ok a r' ↔ x r = .ok a r' := by
  unfold about
  cases x r with
  | ok b t =>
    constructor
    · intro h
      cases h
      rfl
    · intro h
      cases h
      rfl
  | error e t =>
    constructor
    · intro h
      cases h
    · intro h
      cases h

theorem error_of_alone {ε : Type} {limits : Limits} {x : EStateM ε (Reader ι) α} {e : ε} {i rest : ι}
    (h : alone limits x i = .error e rest) : ∃ r', x { input := i, limits } = .error e r' := by
  unfold alone at h
  cases hx : x { input := i, limits } with
  | ok a r' =>
    rw [hx] at h
    cases h
  | error e' r' =>
    rw [hx] at h
    cases h
    exact ⟨r', rfl⟩

theorem naming_of_reported {name : Error → Failure} {e : Error} (h : e.Reported) : Failure.naming name e = name e := by
  cases e <;> first | rfl | exact absurd rfl (h _)

/-- What is read of a byte string and reports its errors fails with one of them. -/
theorem undecodable_of_about {subject : Subject} {x : Reading Bytes α}
    (hx : ∀ {r r' : Reader Bytes} {cause : Error}, x r = .error cause r' → cause.Reported) {r r' : Reader Bytes}
    {e : Failure} (h : about subject x r = .error e r') : ∃ cause, e = .undecodable subject cause := by
  unfold about at h
  cases hread : x r with
  | ok a t =>
    rw [hread] at h
    cases h
  | error cause t =>
    rw [hread] at h
    cases h
    exact ⟨cause, naming_of_reported (hx hread)⟩

theorem undecodable_of_messageCalls {r r' : Reader Bytes} {e : Failure} (h : messageCalls r = .error e r') :
    ∃ subject cause, e = .undecodable subject cause := by
  rcases bind_eq_error.1 h with hheader | ⟨_, _, -, h⟩
  · exact ⟨_, undecodable_of_about Reader.reported_of_messageBegin hheader⟩
  · rcases bind_eq_error.1 h with hbody | ⟨_, _, -, hpure⟩
    · exact ⟨_, undecodable_of_about Reader.reported_of_record hbody⟩
    · cases hpure

/-- What a message is about matters to its errors only. -/
theorem messageCalls_eq_ok {span : Type} [Input ι span] {r r' : Reader ι} {m : Message} :
    messageCalls r = .ok m r' ↔ Message.read r = .ok m r' := by
  unfold messageCalls Message.read
  simp only [bind_eq_ok, about_eq_ok, pure_eq_ok]

/-! ### A transport for each thing -/

variable {σ : Type} [Source σ] {At : σ → Bytes → Bytes → Prop} {least : Nat → Nat} (hs : Source.Rewinds At)
  (hfills : Source.Fills At least) (options : FetchOptions)

/-- The source has the bytes `d` ahead, at most `total` of them, and the pool is sound. -/
def Ahead (At : σ → Bytes → Bytes → Prop) (total : Nat) (d : Bytes) (state : σ × Pool) : Prop :=
  d.length ≤ total ∧ At state.1 [] d ∧ state.2.Sound

/-- What is fetched may be broken off, with chunks of `portion` bytes, spans of at most `longest` bytes and at most
`total` to come. -/
def Stops (portion longest total : Nat) (e : Failure) : Prop :=
  e = .aborted .overflow ∧ Transport.sureOf portion < longest ∧ Transport.sureOf portion < total

/-- Readers of a byte string and of a transport that has it to come. -/
def Readers (c : Pool.Config) (size : PosSize) (longest total : Nat) (r : Reader Bytes) (r' : Reader (Transport σ)) :
    Prop :=
  ∃ n, ((Transport.presents hs.toDelivers hfills c size).link longest total).readers.states n r r'

variable {portion longest total : Nat} {stops : Failure → Prop}

omit [Source σ] in
/-- With short spans, or with little to come, nothing is broken off. -/
theorem not_stops (hpos : 0 < portion) (h : longest ≤ Transport.sure ∨ total ≤ Transport.sure) (e : Failure) :
    ¬Stops portion longest total e := by
  rintro ⟨-, hlong, hahead⟩
  have hsure : Transport.sure ≤ Transport.sureOf portion := Nat.succ_le_succ (Nat.mul_le_mul_right maxCount hpos)
  omega

include hs hfills

theorem tracks_withTransport (onError : Error → Failure) {x : EStateM Error Bytes α}
    {y : EStateM Error (Transport σ) α}
    (hxy : ∀ c n, Agrees ((Transport.presents hs.toDelivers hfills c options.chunkSize).link longest total).toSides n 0
      x y Eq) :
    Tracks (Stops (least options.chunkSize.val) longest total) (Ahead At total) (failing onError x)
      (withTransport options onError y) := by
  rintro d ⟨s, pool⟩ ⟨htotal, hat, hpool⟩
  have hoffers := Transport.offersIn_opened options.chunkSize hpool hat
  have hends := hxy pool.config d.length d _ ⟨rfl, htotal, hoffers⟩
  unfold failing withTransport
  dsimp only
  generalize x d = o at hends ⊢
  generalize y { source := s, pool, chunkSize := options.chunkSize } = o' at hends ⊢
  cases hends with
  | gaveUp hgave =>
    obtain ⟨rfl, hlong, hahead⟩ := hgave
    exact .stopped ⟨rfl, (Transport.sureOf_lt_longest (hfills.least_pos options.chunkSize.property)).1 hlong, hahead⟩
  | error _ => exact .error
  | ok hgood =>
    obtain ⟨rfl, _, -, -, htotal', hoffers'⟩ := hgood
    obtain ⟨hat', hkept⟩ := hoffers'.offers.close hs
    exact .ok ⟨htotal', hat', hkept.sound⟩

theorem tracks_about {c : Pool.Config} {size : PosSize} (subject : Subject) {x : Reading Bytes α}
    {y : Reading (Transport σ) α}
    (hxy : ∀ n, ((Transport.presents hs.toDelivers hfills c size).link longest total).SameReading n 0 x y) :
    Tracks (Stops (least size.val) longest total) (Readers hs hfills c size longest total) (about subject x)
      (about subject y) := by
  rintro r r' ⟨n, hr⟩
  have hends := hxy n r r' hr
  unfold about
  generalize x r = o at hends ⊢
  generalize y r' = o' at hends ⊢
  cases hends with
  | gaveUp hgave =>
    obtain ⟨rfl, hlong, hahead⟩ := hgave
    exact .stopped ⟨rfl, (Transport.sureOf_lt_longest (hfills.least_pos size.property)).1 hlong, hahead⟩
  | error _ => exact .error
  | ok hgood =>
    obtain ⟨rfl, m, -, hr'⟩ := hgood
    exact .ok ⟨m, hr'⟩

theorem tracks_withReader {x : EStateM Failure (Reader Bytes) α} {y : EStateM Failure (Reader (Transport σ)) α}
    (hxy : ∀ c, Tracks stops (Readers hs hfills c options.chunkSize options.limits.longest total) x y) :
    Tracks stops (Ahead At total) (alone options.limits x) (withReader options y) := by
  rintro d ⟨s, pool⟩ ⟨htotal, hat, hpool⟩
  have hoffers := Transport.offersIn_opened options.chunkSize hpool hat
  have hpresents := Transport.presents hs.toDelivers hfills pool.config options.chunkSize
  have halike := hxy pool.config { input := d, limits := options.limits } { input := _, limits := options.limits }
    ⟨d.length, hpresents.linked_new htotal hoffers⟩
  unfold alone withReader
  dsimp only
  generalize x { input := d, limits := options.limits } = o at halike ⊢
  generalize y { input := _, limits := options.limits } = o' at halike ⊢
  cases halike with
  | error => exact .error
  | stopped he => exact .stopped he
  | ok hr =>
    obtain ⟨_, hr⟩ := hr
    obtain ⟨-, htotal', hoffers'⟩ := hr.input
    obtain ⟨hat', hkept⟩ := hoffers'.offers.close hs
    exact .ok ⟨htotal', hat', hkept.sound⟩

/-! ### What is fetched -/

theorem tracks_bytes (length : Nat) : Tracks (Stops (least options.chunkSize.val) length total) (Ahead At total)
    (failing .codec (Input.withSpan length)) (bytes options length) :=
  tracks_withTransport hs hfills options .codec fun c _ =>
    ((Transport.presents hs.toDelivers hfills c options.chunkSize).link length total).agrees_span
      (Nat.le_max_right 8 length)

/-- A short span is never broken off. -/
theorem tracks_short {length : Nat} (h : length ≤ Transport.sure) : Tracks stops (Ahead At total)
    (failing .codec (Input.withSpan length)) (bytes options length) :=
  (tracks_bytes hs hfills options length).mono fun e hstops =>
    absurd hstops (not_stops (hfills.least_pos options.chunkSize.property) (Or.inl h) e)

theorem tracks_int32 : Tracks stops (Ahead At total)
    (do return Int32.ofNat (← failing .codec (Input.withSpan 4)).ofLittleEndian) (int32 options) :=
  (tracks_short hs hfills options (by decide)).map fun bytes : Bytes => Int32.ofNat bytes.ofLittleEndian

theorem tracks_record : Tracks (Stops (least options.chunkSize.val) options.limits.longest total) (Ahead At total)
    (alone options.limits (about .record Reader.record)) (record options) :=
  tracks_withReader hs hfills options fun c => tracks_about hs hfills .record fun _ =>
    ((Transport.presents hs.toDelivers hfills c options.chunkSize).link _ total).agrees_record

theorem tracks_message : Tracks (Stops (least options.chunkSize.val) options.limits.longest total) (Ahead At total)
    (alone options.limits messageCalls) (message options) := by
  refine tracks_withReader hs hfills options fun c => ?_
  let L := (Transport.presents hs.toDelivers hfills c options.chunkSize).link options.limits.longest total
  have hheader := tracks_about hs hfills .messageHeader fun n => (L.agrees_messageBegin (n := n)).weaken
  have hbody := tracks_about hs hfills .messageBody fun n => L.agrees_record (n := n)
  exact hheader.bind fun header => hbody.map fun record => (header, record)

end Fetch

/-! ### A range of a file -/

namespace Trailer

variable {α : Type} {contents : Bytes} {offset length : Nat}

/-- Reading from the front of the bytes `d`, of which nothing is kept but the result. -/
def fromBytes (d : Bytes) (x : EStateM Failure Bytes α) : EStateM Failure Unit α := fun _ =>
  match x d with
  | .ok a _ => .ok a ()
  | .error e _ => .error e ()

/-- Nothing has to be known of a pool but that it is sound. -/
def SoundPool (_ : Unit) (pool : Pool) : Prop := pool.Sound

/-- Reading from a range of a file goes along with reading from the bytes in it. -/
theorem tracks_within (hinside : offset + length ≤ contents.length) (hlength : contents.length ≤ 1 <<< 63)
    {stops : Failure → Prop} {x : EStateM Failure Bytes α} {y : Fetching FileSource α}
    (hxy : Tracks stops (Fetch.Ahead (FileSource.At contents offset (offset + length)) length) x y) :
    Tracks stops SoundPool (fromBytes ((contents.drop offset).take length) x)
      (within (FileSource.range contents offset length) y) := by
  intro _ pool hpool
  have hin := FileSource.inside_range hinside hlength
  have hstop : (FileSource.range contents offset length).stop = offset + length := by
    show min (offset + length) FileSource.maxOffset = offset + length
    have hmax : FileSource.maxOffset = 18446744073709551615 := rfl
    omega
  have hahead : (FileSource.range contents offset length).ahead = (contents.drop offset).take length := by
    unfold FileSource.ahead
    rw [hstop]
    show (contents.take (offset + length)).drop offset = _
    rw [List.drop_take, Nat.add_sub_cancel_left]
  have hat := FileSource.at_ahead hin
  rw [hahead, hstop] at hat
  have halike := hxy _ (FileSource.range contents offset length, pool) ⟨List.length_take_le _ _, hat, hpool⟩
  unfold fromBytes within
  generalize x ((contents.drop offset).take length) = o at halike ⊢
  generalize y (FileSource.range contents offset length, pool) = o' at halike ⊢
  cases halike with
  | error => exact .error
  | stopped he => exact .stopped he
  | ok h => exact .ok h.2.2

end Trailer

end CompactWire
