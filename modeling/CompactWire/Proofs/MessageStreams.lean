import Mathlib
import CompactWire.Proofs.Fetching
import CompactWire.Proofs.Messages
import CompactWire.Proofs.Transparent

/-!
# CompactWire.Proofs.MessageStreams — messages in a row

A writer that is given messages one after the other has written what new writers write for each, and is as it was but
for that (`Message.writes_row`): no field id and no boolean goes over from one message to the next.  The messages are
read back from the row in one session or in a session for each, from a byte string, from a transport over any source
that serves the bytes, and with a transport for each message over a source that rewinds (`Message.ReadsBack`).  A byte
string is never broken off; a transport may be, with chunks of one byte, where names or binaries of more than
`Transport.sure` bytes keep to the limits and the row has as many (`Transport.Overlong`).

For reading it is enough that an input presents the row (`Input.Presents`); each message takes its bytes from the front.
-/

namespace CompactWire

open Outcome

/-! ### Inputs that present a message -/

namespace Input.Presents

variable {κ span : Type} [Input κ span] {sure total : Nat} {P : κ → Bytes → Prop} {rest : Bytes} {k : κ} {limits : Limits}

theorem agrees_message (h : Presents sure P) (longest n : Nat) :
    (h.link longest total).SameReading n 0 Message.read Message.read :=
  (h.link longest total).agrees_messageBegin.weaken.andThen fun _ header _ =>
    (h.link longest total).agrees_record.map fun record => (header, record)

/-- A message is read in front of what is presented, unless it is broken off. -/
theorem read_message (h : Presents sure P) {m : Message} (hm : m.Sendable) (hfits : m.Fits limits)
    (htotal : (m.bytes ++ rest).length ≤ total) (hk : P k (m.bytes ++ rest)) :
    ((sure < max 8 limits.longest ∧ sure < total) ∧
      ∃ r', Message.read { input := k, limits } = .error (.aborted .overflow) r') ∨
    ∃ k', Message.read { input := k, limits } = .ok m.normal { input := k', limits } ∧ P k' rest :=
  h.ok_of_bytes (h.agrees_message limits.longest) (Message.read_bytes hm hfits rest) htotal hk

end Input.Presents

namespace Message

variable {m : Message} {ms : List Message} {limits : Limits}

/-! ### Writing a row -/

theorem writes_row : ∀ {ms : List Message}, (∀ m ∈ ms, m.Sendable) → Writer.Writes (ms.forM write) (ms.flatMap bytes)
  | [], _ => Writer.Writes.nil
  | m :: ms, h => by
    rw [List.forall_mem_cons] at h
    exact (writes h.1).bind (writes_row h.2)

theorem sendable_of_row : ∀ {ms : List Message} {w w' : Writer}, w.pendingBool = none →
    ms.forM write w = .ok () w' → ∀ m ∈ ms, m.Sendable
  | [], _, _, _, _ => List.forall_mem_nil _
  | m :: ms, w, w', hp, h => by
    obtain ⟨_, w₁, hfirst, hothers⟩ := bind_eq_ok.1 h
    obtain ⟨hm, hp₁⟩ := of_write hp hfirst
    exact List.forall_mem_cons.2 ⟨hm, sendable_of_row hp₁ hothers⟩

/-! ### Reading a row -/

section

variable {κ span : Type} [Input κ span]

/-- From `k` the messages are read back, in one session and in a session for each, and what is left is `Done`; or it is
broken off, if it `may` be. -/
def BackFrom (limits : Limits) (ms : List Message) (may : Prop) (k : κ) (Done : κ → Prop) : Prop :=
  ((may ∧ ∃ r, (ms.mapM fun _ => read) { input := k, limits } = .error (.aborted .overflow) r) ∨
    ∃ k', (ms.mapM fun _ => read) { input := k, limits } = .ok (ms.map normal) { input := k', limits } ∧ Done k') ∧
  ((may ∧ ∃ k', (ms.mapM fun _ => readAlone limits) k = .error (.aborted .overflow) k') ∨
    ∃ k', (ms.mapM fun _ => readAlone limits) k = .ok (ms.map normal) k' ∧ Done k')

theorem BackFrom.mono {may may' : Prop} {k : κ} {Done Done' : κ → Prop} (h : BackFrom limits ms may k Done)
    (hmay : may → may') (hd : ∀ k', Done k' → Done' k') : BackFrom limits ms may' k Done' :=
  ⟨h.1.imp (fun hb => ⟨hmay hb.1, hb.2⟩) fun ⟨k', hk'⟩ => ⟨k', hk'.1, hd k' hk'.2⟩,
    h.2.imp (fun hb => ⟨hmay hb.1, hb.2⟩) fun ⟨k', hk'⟩ => ⟨k', hk'.1, hd k' hk'.2⟩⟩

variable {sure total : Nat} {P : κ → Bytes → Prop} {rest : Bytes}

/-- Between two messages a reader is as new but for its input, so this is what one step has to keep. -/
theorem mapM_read_of_presents (h : Input.Presents sure P) (hms : ∀ m ∈ ms, m.Sendable ∧ m.Fits limits) {k : κ}
    (htotal : (ms.flatMap bytes ++ rest).length ≤ total) (hk : P k (ms.flatMap bytes ++ rest)) :
    (∃ e r, (ms.mapM fun _ => read) { input := k, limits } = .error e r ∧
      e = .aborted .overflow ∧ sure < max 8 limits.longest ∧ sure < total) ∨
    ∃ r, (ms.mapM fun _ => read) { input := k, limits } = .ok (ms.map normal) r ∧
      ∃ k', r = { input := k', limits } ∧ rest.length ≤ total ∧ P k' rest := by
  refine mapM_of_steps_or
    (P := fun (r : Reader κ) d => ∃ k, r = { input := k, limits } ∧ d.length ≤ total ∧ P k d) ?_ ⟨k, rfl, htotal, hk⟩
  rintro m hm _ rest ⟨k, rfl, htotal, hk⟩
  rcases h.read_message (hms m hm).1 (hms m hm).2 htotal hk with ⟨hlong, r', hread⟩ | ⟨k', hread, hk'⟩
  · exact Or.inl ⟨_, r', hread, rfl, hlong⟩
  · rw [List.length_append] at htotal
    exact Or.inr ⟨_, hread, k', rfl, by omega, hk'⟩

theorem mapM_readAlone_of_presents (h : Input.Presents sure P) (hms : ∀ m ∈ ms, m.Sendable ∧ m.Fits limits) {k : κ}
    (htotal : (ms.flatMap bytes ++ rest).length ≤ total) (hk : P k (ms.flatMap bytes ++ rest)) :
    (∃ e k', (ms.mapM fun _ => readAlone limits) k = .error e k' ∧
      e = .aborted .overflow ∧ sure < max 8 limits.longest ∧ sure < total) ∨
    ∃ k', (ms.mapM fun _ => readAlone limits) k = .ok (ms.map normal) k' ∧ rest.length ≤ total ∧ P k' rest := by
  refine mapM_of_steps_or (P := fun k d => d.length ≤ total ∧ P k d) ?_ ⟨htotal, hk⟩
  rintro m hm k rest ⟨htotal, hk⟩
  unfold readAlone
  rcases h.read_message (hms m hm).1 (hms m hm).2 htotal hk with ⟨hlong, r', hread⟩ | ⟨k', hread, hk'⟩
  · rw [hread]
    exact Or.inl ⟨_, _, rfl, rfl, hlong⟩
  · rw [hread]
    rw [List.length_append] at htotal
    exact Or.inr ⟨k', rfl, by omega, hk'⟩

theorem backFrom_of_presents (h : Input.Presents sure P) (hms : ∀ m ∈ ms, m.Sendable ∧ m.Fits limits) {k : κ}
    (hk : P k (ms.flatMap bytes)) :
    BackFrom limits ms (sure < max 8 limits.longest ∧ sure < (ms.flatMap bytes).length) k fun k' => P k' [] := by
  have htotal : (ms.flatMap bytes ++ []).length ≤ (ms.flatMap bytes).length := by rw [List.append_nil]
  rw [← List.append_nil (ms.flatMap bytes)] at hk
  constructor
  · rcases mapM_read_of_presents h hms htotal hk with ⟨_, r, hread, rfl, hlong⟩ | ⟨_, hread, k', rfl, -, hk'⟩
    · exact Or.inl ⟨hlong, r, hread⟩
    · exact Or.inr ⟨k', hread, hk'⟩
  · rcases mapM_readAlone_of_presents h hms htotal hk with ⟨_, k', hread, rfl, hlong⟩ | ⟨k', hread, -, hk'⟩
    · exact Or.inl ⟨hlong, k', hread⟩
    · exact Or.inr ⟨k', hread, hk'⟩

end

/-! ### A transport for each message -/

section

variable {σ : Type} [Source σ] {At : σ → Bytes → Bytes → Prop}

/-- From `s` the messages are fetched one by one, each with chunks of another size, and what is left is `Done`; or it is
broken off, if it `may` be with one of these sizes. -/
def FetchedFrom (limits : Limits) (ms : List Message) (may : PosSize → Prop) (s : σ) (Done : σ → Prop) : Prop :=
  ∀ (pool : Pool) (chunkSizes : List PosSize), pool.Sound → chunkSizes.length = ms.length →
    ((∃ chunkSize ∈ chunkSizes, may chunkSize) ∧
      ∃ state, (chunkSizes.mapM fun chunkSize => Fetch.message { chunkSize, limits }) (s, pool) =
        .error (.aborted .overflow) state) ∨
    ∃ s' pool', (chunkSizes.mapM fun chunkSize => Fetch.message { chunkSize, limits }) (s, pool) =
      .ok (ms.map normal) (s', pool') ∧ Done s'

theorem FetchedFrom.mono {may : PosSize → Prop} {s : σ} {Done Done' : σ → Prop} (h : FetchedFrom limits ms may s Done)
    (hd : ∀ s', Done s' → Done' s') : FetchedFrom limits ms may s Done' := by
  intro pool chunkSizes hpool hlength
  refine (h pool chunkSizes hpool hlength).imp_right ?_
  rintro ⟨s', pool', hfetch, hdone⟩
  exact ⟨s', pool', hfetch, hd s' hdone⟩

/-- Each transport leaves its source right behind its message. -/
theorem fetchedFrom_of_rewinds {least : Nat → Nat} (hs : Source.Rewinds At) (hfills : Source.Fills At least)
    (hms : ∀ m ∈ ms, m.Sendable ∧ m.Fits limits) {s : σ} (hat : At s [] (ms.flatMap bytes)) :
    let may (chunkSize : PosSize) := Transport.Overlong (least chunkSize.val) limits (ms.flatMap bytes)
    FetchedFrom limits ms may s fun s' => At s' [] [] := by
  intro may pool chunkSizes hpool hlength
  -- a step has a size and the message that is to be found with it
  let sizes := chunkSizes.zip ms
  let total := (ms.flatMap bytes).length
  have hfst : sizes.map Prod.fst = chunkSizes := List.map_fst_zip (Nat.le_of_eq hlength)
  have hsnd : sizes.map Prod.snd = ms := List.map_snd_zip (Nat.le_of_eq hlength.symm)
  have hsteps : ∀ q ∈ sizes, ∀ (t : σ × Pool) (rest : Bytes), Fetch.Ahead At total (q.2.bytes ++ rest) t →
      (∃ e t', Fetch.message { chunkSize := q.1, limits } t = .error e t' ∧
        e = .aborted .overflow ∧ ∃ chunkSize ∈ chunkSizes, may chunkSize) ∨
      ∃ t', Fetch.message { chunkSize := q.1, limits } t = .ok q.2.normal t' ∧ Fetch.Ahead At total rest t' := by
    rintro ⟨chunkSize, m⟩ hq t rest ht
    have hm := hms m (hsnd ▸ List.mem_map_of_mem hq)
    have hread := Fetch.messageCalls_eq_ok.2 (Message.read_bytes hm.1 hm.2 rest)
    rcases (Fetch.tracks_message hs hfills { chunkSize, limits }).of_ok ht (Fetch.alone_eq_ok.2 ⟨_, hread, rfl⟩) with
      ⟨e, t', hfetch, hstops, hlong, hahead⟩ | hfetched
    · have hoverlong := Transport.overlong_of_lt (hfills.least_pos chunkSize.property) limits (ms.flatMap bytes)
        ⟨Nat.lt_of_lt_of_le hlong (Nat.le_max_right 8 _), hahead⟩
      exact Or.inl ⟨e, t', hfetch, hstops, chunkSize, hfst ▸ List.mem_map_of_mem hq, hoverlong⟩
    · exact Or.inr hfetched
  have hrow : Fetch.Ahead At total (sizes.flatMap (fun q => q.2.bytes) ++ []) (s, pool) := by
    rw [List.append_nil, ← List.flatMap_map, hsnd]
    exact ⟨Nat.le_refl _, hat, hpool⟩
  rw [← hfst, List.mapM_map, ← hsnd, List.map_map]
  rcases mapM_of_steps_or (P := fun t d => Fetch.Ahead At total d t) (s := (s, pool)) hsteps hrow with
    ⟨_, state, hfetch, rfl, hlong⟩ | ⟨⟨s', pool'⟩, hfetch, -, hat', -⟩
  · exact Or.inl ⟨hfst ▸ hlong, state, hfetch⟩
  · exact Or.inr ⟨s', pool', hfetch, hat'⟩

end

/-! ### Streams of messages -/

/-- Wherever the row `d` of the messages comes from, they are read back, and nothing of it is left; only over a transport
with chunks of one byte they may be broken off, if the row is too long. -/
structure ReadsBack (limits : Limits) (ms : List Message) (d : Bytes) : Prop where
  slice : BackFrom limits ms False d (· = [])
  /-- A transport is at the end of its stream then, and it has delivered all of it. -/
  transport {σ : Type} [Source σ] {s : σ} {least : Nat → Nat} (pool : Pool) (chunkSize : PosSize) :
    Source.Serves s d least → pool.Sound →
    let t : Transport σ := { source := s, pool, chunkSize }
    let overlong := Transport.Overlong (least chunkSize.val) limits d
    BackFrom limits ms overlong t (fun t' => ∃ u, Input.readByte t' = .error .endOfInput u) ∧
      BackFrom limits ms overlong (Recorded.mk t []) (·.delivered = d)
  memory {s : MemorySource} : s.ahead = d → FetchedFrom limits ms
    (fun chunkSize => Transport.Overlong (min chunkSize.val s.chunkSize.val) limits d) s (·.ahead = [])
  file {s : FileSource} : s.Inside → s.ahead = d → FetchedFrom limits ms
    (fun chunkSize => Transport.Overlong chunkSize.val limits d) s (·.ahead = [])

theorem readsBack (hms : ∀ m ∈ ms, m.Sendable ∧ m.Fits limits) : ReadsBack limits ms (ms.flatMap bytes) where
  slice :=
    -- nothing that is as long as the row itself is broken off
    (backFrom_of_presents (Bytes.presents (ms.flatMap bytes).length) hms rfl).mono
      (fun hlong => Nat.lt_irrefl _ hlong.2) fun _ => id
  transport := by
    rintro σ _ s least pool chunkSize ⟨At, hs, hfills, hat⟩ hpool t overlong
    have hoffers := Transport.offersIn_opened chunkSize hpool hat
    have hpresents := Transport.presents hs hfills pool.config chunkSize
    have hmay := Transport.overlong_of_lt (hfills.least_pos chunkSize.property) limits (ms.flatMap bytes)
    constructor
    · exact (backFrom_of_presents hpresents hms hoffers).mono hmay fun _ => hpresents.readByte_nil
    · refine (backFrom_of_presents (hpresents.recorded (ms.flatMap bytes)) hms ⟨hoffers, rfl⟩).mono hmay ?_
      rintro k ⟨-, hdelivered⟩
      rwa [List.append_nil] at hdelivered
  memory hd := (fetchedFrom_of_rewinds MemorySource.rewinds MemorySource.fills hms (hd ▸ MemorySource.at_ahead _)).mono
    fun _ hat => MemorySource.ahead_eq hat
  file hinside hd := (fetchedFrom_of_rewinds (FileSource.rewinds hinside.stop_le hinside.length_le)
    (FileSource.fills hinside.stop_le hinside.length_le) hms (hd ▸ FileSource.at_ahead hinside)).mono
      fun _ hat => FileSource.ahead_eq hat

end Message

end CompactWire
