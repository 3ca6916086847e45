import CompactWire.Proofs.Portions
import CompactWire.Proofs.Steady
import CompactWire.Proofs.Transports

/-!
# CompactWire.Proofs.Transparent — no reader can tell a transport from the bytes that it serves

A reader over a transport makes the same calls as a reader over the byte string that the source serves, while other
users of the pool change it before every call.  Up to the first call that finds the end of the input, both give the same
results, take the same number of bytes and have the same depth after each call (`reads_as`).

There is one call in which they can differ: a span for which more chunks have to be read than can be counted is broken
off, and with it the session.  It takes chunks of one byte, and a stream and a limit on strings of more than
`Transport.sure` bytes (`Transport.Overlong`), and up to there both sessions look the same (`Reader.SeenAlike`).

It is so for every source that delivers the bytes in chunks which are not empty (`Source.Serves`): bytes in memory, a
range within a file, and scripts of chunks.
-/

namespace CompactWire

/-! ### Sessions -/

namespace Reader

variable {ι span ω τ : Type} [Input ι span]

/-- Makes the calls as `session` does, where before each of them the input is changed from outside. -/
def sessionAmid (change : ω → ι → ι) : List (ω × Call) → Reader ι → List (Except Error Reply × Reader ι)
  | [], _ => []
  | (outside, call) :: steps, r =>
    match call.run { r with input := change outside r.input } with
    | .ok reply r => (.ok reply, r) :: sessionAmid change steps r
    | .error e r => (.error e, r) :: sessionAmid change steps r

/-- What is seen of a call. -/
structure Seen (τ : Type) where
  result : Except Error Reply
  /-- What was taken from the input so far.  At its end nothing is promised about it. -/
  taken : Option τ
  depth : Nat

/-- What is seen of a session up to the first call that finds the end of the input, or that is broken off, of which
nothing is seen.  The input tells what was taken. -/
def seen (taken : ι → τ) : List (Except Error Reply × Reader ι) → List (Seen τ)
  | [] => []
  | (.ok reply, r) :: steps => ⟨.ok reply.unmarked, some (taken r.input), r.depth⟩ :: seen taken steps
  | (.error .endOfInput, r) :: _ => [⟨.error .endOfInput, none, r.depth⟩]
  | (.error (.aborted _), _) :: _ => []
  | (.error e, r) :: steps => ⟨.error e, some (taken r.input), r.depth⟩ :: seen taken steps

/-- Whether a session is broken off before it finds the end of the input. -/
def brokenOff : List (Except Error Reply × Reader ι) → Bool
  | [] => false
  | (.ok _, _) :: steps => brokenOff steps
  | (.error .endOfInput, _) :: _ => false
  | (.error (.aborted _), _) :: _ => true
  | (.error _, _) :: steps => brokenOff steps

theorem seen_error {taken : ι → τ} {e : Error} (he : e ≠ .endOfInput) (hreported : e.Reported) (r : Reader ι)
    (steps : List (Except Error Reply × Reader ι)) :
    seen taken ((.error e, r) :: steps) = ⟨.error e, some (taken r.input), r.depth⟩ :: seen taken steps := by
  cases e <;> first | rfl | exact absurd rfl he | exact absurd rfl (hreported _)

theorem brokenOff_error {e : Error} (he : e ≠ .endOfInput) (hreported : e.Reported) (r : Reader ι)
    (steps : List (Except Error Reply × Reader ι)) : brokenOff ((.error e, r) :: steps) = brokenOff steps := by
  cases e <;> first | rfl | exact absurd rfl he | exact absurd rfl (hreported _)

/-- A session over a byte string is never broken off. -/
theorem brokenOff_session : ∀ (calls : List Call) (r : Reader Bytes), brokenOff (session calls r) = false
  | [], _ => rfl
  | call :: calls, r => by
    unfold session
    cases hrun : call.run r with
    | ok reply r' => exact brokenOff_session calls r'
    | error e r' =>
      dsimp only
      by_cases he : e = .endOfInput
      · subst he
        rfl
      · rw [brokenOff_error he (reported_of_run hrun)]
        exact brokenOff_session calls r'

/-- The second session looks as the first one.  If it is broken off, which takes what `may` says, it does up to there. -/
structure SeenAlike {κ : Type} (may : Prop) (taken : ι → τ) (taken' : κ → τ)
    (plain : List (Except Error Reply × Reader ι)) (steps : List (Except Error Reply × Reader κ)) : Prop where
  upTo : seen taken' steps <+: seen taken plain
  all : brokenOff steps = false → seen taken' steps = seen taken plain
  rare : brokenOff steps = true → may

namespace SeenAlike

variable {κ : Type} {may may' : Prop} {taken : ι → τ} {taken' : κ → τ} {plain : List (Except Error Reply × Reader ι)}
  {steps : List (Except Error Reply × Reader κ)}

theorem of_eq (h : seen taken' steps = seen taken plain) (hwhole : brokenOff steps = false) :
    SeenAlike may taken taken' plain steps := ⟨h ▸ List.prefix_rfl, fun _ => h, fun hb => by rw [hwhole] at hb; cases hb⟩

theorem mono (h : SeenAlike may taken taken' plain steps) (hmay : may → may') :
    SeenAlike may' taken taken' plain steps := { h with rare := fun hb => hmay (h.rare hb) }

/-- A call with the same result on both sides comes before. -/
theorem cons (h : SeenAlike may taken taken' plain steps) {p : Except Error Reply × Reader ι}
    {q : Except Error Reply × Reader κ} {one : Seen τ} (hp : seen taken (p :: plain) = one :: seen taken plain)
    (hq : seen taken' (q :: steps) = one :: seen taken' steps) (hb : brokenOff (q :: steps) = brokenOff steps) :
    SeenAlike may taken taken' (p :: plain) (q :: steps) where
  upTo := by
    rw [hp, hq]
    exact (List.prefix_cons_inj one).2 h.upTo
  all hall := by
    rw [hp, hq, h.all (hb ▸ hall)]
  rare hrare := h.rare (hb ▸ hrare)

end SeenAlike

end Reader

open Reader in
/-- A session looks as one over the bytes that the input presents, if changes from outside keep them. -/
theorem Input.Presents.seenAlike_session {κ span ω τ : Type} [Input κ span] {sure total : Nat} {P : κ → Bytes → Prop}
    (h : Presents sure P) {change : ω → κ → κ} (allowed : ω → Prop) {taken : Bytes → τ} {taken' : κ → τ}
    (hchange : ∀ outside k d, allowed outside → P k d → P (change outside k) d)
    (htaken : ∀ k d, P k d → taken' k = taken d) (limits : Limits) :
    ∀ (steps : List (ω × Call)) {r : Reader Bytes} {r' : Reader κ}, (∀ step ∈ steps, allowed step.1) →
      (h.link limits.longest total).readers.states r.input.length r r' →
      Reader.SeenAlike (sure < max 8 limits.longest ∧ sure < total) taken taken' (session (steps.map Prod.snd) r)
        (sessionAmid change steps r')
  | [], _, _, _, _ => .of_eq rfl rfl
  | (outside, call) :: steps, r, r', hsteps, hr => by
    rw [List.forall_mem_cons] at hsteps
    let L := h.link limits.longest total
    have hinput := hchange outside r'.input r.input hsteps.1 hr.input.2.2
    have hagrees := L.agrees_run (fun _ _ hl => hl.1) call r { r' with input := change outside r'.input }
      { hr with input := ⟨rfl, hr.input.2.1, hinput⟩ }
    rw [List.map_cons]
    unfold sessionAmid session
    generalize ho : call.run r = o at hagrees ⊢
    generalize call.run { r' with input := change outside r'.input } = o' at hagrees ⊢
    cases hagrees with
    | ok hgood =>
      obtain ⟨hreply, m, -, hs⟩ := hgood
      refine (seenAlike_session h allowed hchange htaken limits steps hsteps.2
        { hs with input := ⟨rfl, hs.input.2⟩ }).cons rfl ?_ rfl
      dsimp only [seen]
      rw [hreply, htaken _ _ hs.input.2.2, hs.depth]
    | @error e s t hfailed =>
      by_cases he : e = .endOfInput
      · subst he
        refine .of_eq ?_ rfl
        dsimp only [seen]
        rw [hfailed.depth]
      · have hreported := reported_of_run ho
        obtain ⟨htotal, hP⟩ := hfailed.input he
        refine (seenAlike_session h allowed hchange htaken limits steps hsteps.2
          { hfailed with input := ⟨rfl, htotal, hP⟩ }).cons (seen_error he hreported _ _) ?_
          (brokenOff_error he hreported _ _)
        rw [seen_error he hreported, htaken _ _ hP, hfailed.depth]
    | gaveUp hgave =>
      obtain ⟨rfl, hlong⟩ := hgave
      exact ⟨List.nil_prefix, fun hall => (by cases hall), fun _ => hlong⟩

/-! ### Sources -/

/-- A source that serves `data` delivers it in chunks that are not empty, and then it ends.  Of the `max` bytes that it
may have, a chunk holds `least max`, or all that is left; one byte is never too much to say. -/
def Source.Serves {σ : Type} [Source σ] (s : σ) (data : Bytes) (least : Nat → Nat) : Prop :=
  ∃ At, Delivers At ∧ Fills At least ∧ At s [] data

theorem MemorySource.serves (s : MemorySource) : Source.Serves s s.ahead fun max => min max s.chunkSize.val :=
  ⟨_, rewinds.toDelivers, fills, s.at_ahead⟩

theorem FileSource.serves {s : FileSource} (h : s.Inside) : Source.Serves s s.ahead fun max => max :=
  ⟨_, (rewinds h.stop_le h.length_le).toDelivers, fills h.stop_le h.length_le, at_ahead h⟩

theorem ScriptSource.serves (chunks : List Bytes) (h : ∀ b ∈ chunks, b ≠ []) :
    Source.Serves (ScriptSource.mk (chunks.map .chunk) []) chunks.flatten fun _ => 1 :=
  ⟨_, delivers, delivers.fills, chunks, h, rfl, Or.inl rfl⟩

namespace Transport

open Reader

/-- With chunks of one byte, a string that keeps to the limits may lie in more chunks of `data` than can be counted. -/
def Overlong (least : Nat) (limits : Limits) (data : Bytes) : Prop :=
  least = 1 ∧ sure < limits.maxString ∧ sure < data.length

theorem overlong_of_lt {least : Nat} (hpos : 0 < least) (limits : Limits) (data : Bytes)
    (h : sureOf least < max 8 limits.longest ∧ sureOf least < data.length) : Overlong least limits data := by
  obtain ⟨rfl, hlong⟩ := eq_one_of_lt_longest hpos ((sureOf_lt_longest hpos).1 h.1)
  exact ⟨rfl, hlong, h.2⟩

/-- Readers over the source and over `data` look the same, however the source is asked for chunks and whatever other
users do with the pool, but for a session that is broken off: that takes chunks of one byte, and a limit on strings and
data of more than `sure` bytes, and it does not happen over `data`.  The transport is read as it is, and then with a
record of what it delivers. -/
def ReadsAs {σ : Type} [Source σ] (s : σ) (data : Bytes) (least : Nat → Nat) : Prop :=
  ∀ (chunkSize : PosSize) (limits : Limits) (pool : Pool) (steps : List (Pool × Call)), pool.Sound →
    (∀ step ∈ steps, step.1.Sound ∧ step.1.config = pool.config) →
    let transport : Transport σ := { source := s, pool, chunkSize }
    let plain := session (steps.map Prod.snd) { input := data, limits }
    let overlong := Overlong (least chunkSize.val) limits data
    brokenOff plain = false ∧
    SeenAlike overlong (fun _ => ()) (fun _ => ()) plain (sessionAmid withPool steps { input := transport, limits }) ∧
    SeenAlike overlong (fun rest => data.length - rest.length) (·.delivered.length) plain
      (sessionAmid (Recorded.change ∘ withPool) steps { input := ⟨transport, []⟩, limits })

theorem readsAs_of_serves {σ : Type} [Source σ] {s : σ} {data : Bytes} {least : Nat → Nat}
    (h : Source.Serves s data least) : ReadsAs s data least := by
  obtain ⟨At, hs, hfills, hat⟩ := h
  intro chunkSize limits pool steps hpool hsteps transport plain overlong
  have hoffers : OffersIn At pool.config chunkSize transport data := offersIn_opened chunkSize hpool hat
  have hpresents := presents hs hfills pool.config chunkSize
  have hmay := overlong_of_lt (hfills.least_pos chunkSize.property) limits data
  let allowed (p : Pool) : Prop := p.Sound ∧ p.config = pool.config
  refine ⟨brokenOff_session _ _, ?_, ?_⟩
  · refine SeenAlike.mono (hpresents.seenAlike_session allowed (fun p t d hp ht => ht.withPool hp.1 hp.2)
      (fun _ _ _ => rfl) limits steps hsteps ?_) hmay
    exact hpresents.linked_new (Nat.le_refl _) hoffers
  · have hrecorded := hpresents.recorded data
    refine SeenAlike.mono (hrecorded.seenAlike_session allowed ?_ ?_ limits steps hsteps
      (hrecorded.linked_new (Nat.le_refl _) ⟨hoffers, rfl⟩)) hmay
    · exact fun p k d hp hk => ⟨hk.1.withPool hp.1 hp.2, hk.2⟩
    · rintro k d ⟨-, rfl⟩
      rw [List.length_append, Nat.add_sub_cancel]

/-- A record in a script of two chunks. -/
def splitRecord : ScriptSource := { items := [.chunk [20], .chunk [2, 0]] }

end Transport

end CompactWire
