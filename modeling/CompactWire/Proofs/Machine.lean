import CompactWire.Proofs.Coupling
import CompactWire.Proofs.SourceSteps
import CompactWire.Proofs.Transports
import CompactWire.Transport.Machine

/-!
# CompactWire.Proofs.Machine — a transport whose checks are written out is the transport

A machine shows a transport if it stands where the transport stands and all checks have held so far (`Shows`).  Every
step of the machine ends as that of the transport does, with no check failing, and it shows the transport that this one
leaves; so a machine can take the place of the transport under every reader (`coupling`).  Errors complain of anything
but the length of an assembled span: a span that is delivered has the length that was asked for.  The count of the
chunks goes too far only in a span of more than `Transport.sure` bytes (`Error.Expected`).
-/

namespace CompactWire

open Outcome (bind_of_ok bind_of_error)

/-- The error is not about a span that came with another length. -/
def Error.LengthKept (e : Error) : Prop := ∀ expected actual, e ≠ .assembledLength expected actual

/-- An error that may come where spans of lengths `Q` are asked for: only for a long one a call is broken off. -/
structure Error.Expected (Q : Nat → Prop) (e : Error) : Prop where
  lengthKept : e.LengthKept
  long {reason : Abort} : e = .aborted reason → ∃ length, Q length ∧ Transport.sure < length

theorem Error.Own.expected {Q : Nat → Prop} {e : Error} (h : e.Own) : e.Expected Q :=
  ⟨h.1, fun {reason} he => absurd he (h.2 reason)⟩

namespace Machine

variable {σ α β γ δ : Type} [Source σ] {c : Pool.Config} {P Q : Nat → Prop} {m : Machine σ} {t : Transport σ} {b : Buffer}

/-- The machine stands where the transport stands.  Its checks have held, and so they will. -/
structure Shows (c : Pool.Config) (P : Nat → Prop) (m : Machine σ) (t : Transport σ) : Prop where
  faithful : m.steps.Faithful c m.chunkSize.val P
  keeps : m.account.Keeps c P
  source : m.source = t.source
  pool : m.account.pool = t.pool
  chunkSize : m.chunkSize = t.chunkSize
  held : m.held = t.held.map Cells.of
  housed : ∀ chunk, t.held = some chunk → chunk.Housed c
  breach : m.breach = none

/-- A step of the machine ends as one of the transport does. -/
inductive Ended (c : Pool.Config) (P Q : Nat → Prop) (V : α → β → Transport σ → Prop) :
    EStateM.Result (Stop Error) (Machine σ) α → EStateM.Result Error (Transport σ) β → Prop
  | ok {a : α} {b : β} {m : Machine σ} {t : Transport σ} (shows : Shows c P m t) (value : V a b t) :
    Ended c P Q V (.ok a m) (.ok b t)
  | error {e : Error} {m : Machine σ} {t : Transport σ} (shows : Shows c P m t) (expected : e.Expected Q) :
    Ended c P Q V (.error (.error e) m) (.error e t)

theorem Ended.bind {V : α → β → Transport σ → Prop} {W : γ → δ → Transport σ → Prop} {x : Running σ α}
    {y : EStateM Error (Transport σ) β} {f : α → Running σ γ} {g : β → EStateM Error (Transport σ) δ}
    (hx : Ended c P Q V (x m) (y t)) (hf : ∀ a b m t, Shows c P m t → V a b t → Ended c P Q W (f a m) (g b t)) :
    Ended c P Q W ((x >>= f) m) ((y >>= g) t) := by
  show Ended c P Q W (EStateM.bind x f m) (EStateM.bind y g t)
  unfold EStateM.bind
  generalize x m = o at hx ⊢
  generalize y t = o' at hx ⊢
  cases hx with
  | ok h hV => exact hf _ _ _ _ h hV
  | error h he => exact .error h he

/-- A step of the machine that succeeds makes way for what follows. -/
theorem Ended.left {V : γ → β → Transport σ → Prop} {x : Running σ α} {f : α → Running σ γ} {m' : Machine σ} {a : α}
    {o : EStateM.Result Error (Transport σ) β} (hx : x m = .ok a m') (h : Ended c P Q V (f a m') o) :
    Ended c P Q V ((x >>= f) m) o := by
  rw [bind_of_ok hx]
  exact h

/-- A step of the transport that succeeds makes way for what follows. -/
theorem Ended.right {V : α → δ → Transport σ → Prop} {y : EStateM Error (Transport σ) β}
    {g : β → EStateM Error (Transport σ) δ} {t' : Transport σ} {b : β} {o : EStateM.Result (Stop Error) (Machine σ) α}
    (hy : y t = .ok b t') (h : Ended c P Q V o (g b t')) : Ended c P Q V o ((y >>= g) t) := by
  rw [bind_of_ok hy]
  exact h

/-! ### Buffers come and go -/

theorem alloc_of (h : Shows c P m t) {n : Nat} (hn : P n) :
    ∃ m', alloc n m = .ok (Cells.of (t.pool.alloc n).1) m' ∧ Shows c P m' { t with pool := (t.pool.alloc n).2 } := by
  have halloc := Account.alloc_eq h.keeps.intact n
  have hkeeps := h.keeps.alloc hn
  rw [h.pool] at halloc hkeeps
  refine ⟨{ m with account := ⟨(t.pool.alloc n).2, n :: m.account.requests⟩ }, ?_, ?_⟩
  · exact (bind_of_ok (x := get) (a := m) rfl).trans (check_bind halloc)
  · exact { h with keeps := hkeeps, pool := rfl }

theorem giveBack_of (h : Shows c P m t) (hb : b.Housed c) :
    ∃ m', giveBack (Cells.of b) m = .ok () m' ∧ Shows c P m' (t.giveBack b) := by
  have hback := Account.giveBack_eq h.keeps.intact hb
  have hkeeps := h.keeps.release hb
  refine ⟨{ m with account := { m.account with pool := m.account.pool.release b } }, ?_, ?_⟩
  · exact (bind_of_ok (x := get) (a := m) rfl).trans (check_bind hback)
  · exact { h with keeps := hkeeps, pool := congrArg (Pool.release · b) h.pool }

theorem fail_of (h : Shows c P m t) (hb : b.Housed c) (e : Error) :
    ∃ m', (fail (Cells.of b) e : Running σ α) m = .error (.error e) m' ∧ Shows c P m' (t.giveBack b) := by
  obtain ⟨m', hback, hshows⟩ := giveBack_of h hb
  exact ⟨m', bind_of_ok hback, hshows⟩

theorem handBack_of (h : Shows c P m t) (hb : b.Housed c) :
    ∃ m', handBack (Cells.of b) m = .ok () m' ∧ Shows c P m' (t.handBack b) := by
  have hrelease := h.faithful.release b m.source
  have hshows : Shows c P { m with source := Source.release b m.source } { t with source := Source.release b t.source } :=
    { h with source := congrArg (Source.release b) h.source }
  obtain ⟨m', hback, hshows'⟩ := giveBack_of hshows hb
  refine ⟨m', ?_, hshows'⟩
  exact (bind_of_ok (x := get) (a := m) rfl).trans ((check_bind hrelease).trans hback)

theorem close_of (h : Shows c P m t) : ∃ m', close m = .ok () m' ∧ Shows c P m' t.close := by
  have hheld := h.held
  unfold Transport.close
  cases ht : t.held with
  | none =>
    rw [ht] at hheld
    refine ⟨m, (bind_of_ok (x := get) (a := m) rfl).trans ?_, h⟩
    rw [hheld]
    rfl
  | some chunk =>
    rw [ht] at hheld
    have hshows : Shows c P { m with held := none } { t with held := none } :=
      { h with held := rfl, housed := fun _ hn => nomatch hn }
    obtain ⟨m', hback, hshows'⟩ := handBack_of hshows (h.housed chunk ht)
    refine ⟨m', (bind_of_ok (x := get) (a := m) rfl).trans ?_, hshows'⟩
    rw [hheld]
    exact hback

/-! ### Chunks -/

theorem Shows.hold (h : Shows c P m t) (hb : b.Housed c) :
    Shows c P { m with held := some (Cells.of b) } { t with held := some b } :=
  { h with
    held := rfl
    housed := fun chunk hchunk => by
      cases hchunk
      exact hb }

theorem cursor_eq_len (b : Buffer) : (Cells.of b).cursor = (Cells.of b).len ↔ b.length = 0 := by
  show b.cursor = b.cursor + b.length ↔ _
  omega

/-- Behind a chunk that was read there is a byte. -/
theorem refill_of (h : Shows c P m t) :
    Ended c P Q (fun _ _ t => t.unread ≠ []) (refill m) (t.refill) := by
  obtain ⟨m', hclose, h'⟩ := close_of h
  have hpulled := h'.faithful.readChunk m'.source m'.account h'.keeps
  refine Ended.left hclose ?_
  unfold Transport.refill
  dsimp only
  generalize hsteps : m'.steps.readChunk m'.chunkSize.val (m'.source, m'.account) = o at hpulled
  rw [h'.source, h'.pool, h'.chunkSize] at hpulled
  generalize Source.readChunk t.close.chunkSize.val (t.close.source, t.close.pool) = o' at hpulled ⊢
  cases hpulled with
  | @error fault s a hkeeps =>
    have hread : readChunk m' = .error (.error (.io fault)) { m' with source := s, account := a } := by
      unfold readChunk
      rw [hsteps]
    rw [bind_of_error hread]
    exact .error { h' with keeps := hkeeps, source := rfl, pool := rfl } (Error.Own.expected (by simp))
  | @ok chunk s a hkeeps hhoused =>
    have hread : readChunk m' = .ok (chunk.map Cells.of) { m' with source := s, account := a } := by
      unfold readChunk
      rw [hsteps]
    have hshows : Shows c P { m' with source := s, account := a } { t.close with source := s, pool := a.pool } :=
      { h' with keeps := hkeeps, source := rfl, pool := rfl }
    rw [bind_of_ok hread]
    cases chunk with
    | none => exact .error hshows (Error.Own.expected (by simp))
    | some chunk =>
      dsimp only [Option.map]
      by_cases h0 : chunk.length = 0
      · obtain ⟨m'', hback, hshows'⟩ := handBack_of hshows (hhoused chunk rfl)
        rw [if_pos ((cursor_eq_len chunk).2 h0), if_pos h0, bind_of_ok hback]
        exact .error hshows' (Error.Own.expected (by simp))
      · rw [if_neg (mt (cursor_eq_len chunk).1 h0), if_neg h0]
        exact .ok (hshows.hold (hhoused chunk rfl)) fun hnil => h0 (congrArg List.length hnil)

theorem buffered_of (h : Shows c P m t) : buffered m = .ok t.buffered m := by
  refine (bind_of_ok (x := get) (a := m) rfl).trans ?_
  rw [h.held]
  unfold Transport.buffered
  cases t.held with
  | none => rfl
  | some chunk => exact check_of_ok (Cells.length_of chunk)

theorem fill_of (h : Shows c P m t) : Ended c P Q (fun _ _ t => t.unread ≠ []) (fill m) t.fill := by
  have hfill : fill m = (if t.buffered = 0 then refill else pure () : Running σ Unit) m := bind_of_ok (buffered_of h)
  rw [hfill]
  unfold Transport.fill
  by_cases h0 : t.buffered = 0
  · rw [if_pos h0, if_pos h0]
    exact refill_of h
  · rw [if_neg h0, if_neg h0]
    refine .ok h fun hnil => h0 ?_
    rw [Transport.buffered_eq, hnil]
    rfl

/-! ### Spans -/

omit [Source σ] in
/-- A round of copying takes bytes over, and at least one. -/
theorem copy_of (m : Machine σ) {length missing n : Nat} {chunk b b' : Buffer} (hb : b.Lacks c length missing)
    (hn : min (length - b.length) (min chunk.length b.room) = n) (hpos : 0 < n)
    (hput : b.put (chunk.ready.take n) = (n, b')) :
    copy length b.length (Cells.of b) (Cells.of chunk) m =
      .ok (Cells.of b') { m with held := some (Cells.of (chunk.skip n)) } := by
  have hle : n ≤ chunk.ready.length := by
    have : chunk.length = chunk.ready.length := rfl
    omega
  have hlength := hb.length_eq
  have hsub : Checked.sub length b.length = .ok (length - b.length) := Checked.sub_eq (by omega)
  have hslice : Checked.slice chunk.ready 0 n = .ok (chunk.ready.take n) := Checked.slice_eq (Nat.zero_le n) hle
  have hput' := Cells.put_of b (chunk.ready.take n)
  rw [hput] at hput'
  unfold copy
  refine (check_bind hsub).trans ((check_bind (Cells.length_of chunk)).trans ((check_bind (Cells.room_of b)).trans ?_))
  rw [hn, if_neg (Nat.ne_of_gt hpos)]
  refine (check_bind (Cells.chunk_of chunk)).trans ?_
  refine (check_bind hslice).trans ((check_bind hput').trans ?_)
  exact check_bind (Cells.advance_of chunk hle)

omit [Source σ] in
/-- A buffer that takes over some of what it lacks stays with its size class. -/
theorem housed_put (hhoused : b.Housed c) {bytes : Bytes} {n : Nat} {b' : Buffer} (hput : b.put bytes = (n, b'))
    (happended : b.Appended bytes b') : b'.Housed c := by
  have hcapacity := Buffer.capacity_after b (.put bytes)
  rw [Buffer.Call.after, hput] at hcapacity
  exact hhoused.of_eq happended.sizeClass hcapacity

/-- Behind a byte at hand the machine counts what was due to the transport. -/
theorem fillCounted_of (h : Shows c P m t) (chunks : Nat) {m' : Machine σ} (hm : fill m = .ok () m') :
    fillCounted chunks m =
      if maxCount < chunks + t.due then .error (.error (.aborted .overflow)) m' else .ok (chunks + t.due) m' := by
  have hcounted : fillCounted chunks m = (if maxCount < chunks + t.due then throw (.error (.aborted .overflow))
      else pure (chunks + t.due) : Running σ Nat) m' := (bind_of_ok (buffered_of h)).trans (bind_of_ok hm)
  rw [hcounted]
  split <;> rfl

/-- Assembling goes on until nothing is missing, and has rounds left then.  The chunks counted so far, with the one that is
due, are no more than the bytes copied so far. -/
theorem assembleInto_of {length : Nat} (hlength : Q length) : ∀ (rounds missing chunks : Nat) {b : Buffer}
    {m : Machine σ} {t : Transport σ}, Shows c P m t → b.Lacks c length missing → b.Housed c → missing ≤ rounds →
    chunks + t.due ≤ b.length →
    Ended c P Q (fun cells b _ => cells = Cells.of b ∧ b.length = length ∧ b.Housed c)
      (assembleInto length (rounds + 1) chunks (Cells.of b) m) (t.assembleInto length rounds chunks b)
  | rounds, 0, chunks, b, m, t, h, hb, hhoused, _, _ => by
    have hfull : length ≤ b.length := Nat.le_of_eq hb.length_eq.symm
    rw [Transport.assembleInto_full rounds chunks t hfull]
    unfold assembleInto
    refine Ended.left (check_of_ok (Cells.length_of b)) ?_
    rw [if_pos hfull]
    exact .ok h ⟨rfl, hb.length_eq, hhoused⟩
  | 0, missing + 1, _, _, _, _, _, _, _, hm, _ => absurd hm (Nat.not_succ_le_zero missing)
  | rounds + 1, missing + 1, chunks, b, m, t, h, hb, hhoused, hm, hchunks => by
    have hbytes := hb.length_eq
    have hmissing : b.length < length := by omega
    have hfill := fill_of (Q := Q) h
    refine Ended.left (check_of_ok (Cells.length_of b)) ?_
    rw [if_neg (Nat.not_le.2 hmissing)]
    generalize hm' : fill m = o at hfill
    generalize ht' : t.fill = o' at hfill
    cases hfill with
    | @error e m' t' h' he =>
      have hcounted : fillCounted chunks m = .error (.error e) m' :=
        (bind_of_ok (buffered_of h)).trans (bind_of_error hm')
      obtain ⟨m'', hfail, h''⟩ := fail_of (α := Nat) h' hhoused e
      have hfirst : fillFor chunks (Cells.of b) m = .error (.error e) m'' := by
        unfold fillFor
        rw [hcounted]
        exact hfail
      rw [bind_of_error hfirst, Transport.round_error rounds chunks ht' hmissing]
      exact .error h'' he
    | @ok _ _ m' t' h' hunread =>
      have hcounted := fillCounted_of h chunks hm'
      by_cases hcount : maxCount < chunks + t.due
      · -- more chunks than can be counted lie in more bytes than are sure
        have hsure : Transport.sure = maxCount + 1 := rfl
        have hlong : Transport.sure < length := by omega
        rw [if_pos hcount] at hcounted
        obtain ⟨m'', hfail, h''⟩ := fail_of (α := Nat) h' hhoused (.aborted .overflow)
        have hfirst : fillFor chunks (Cells.of b) m = .error (.error (.aborted .overflow)) m'' := by
          unfold fillFor
          rw [hcounted]
          exact hfail
        rw [bind_of_error hfirst, Transport.round_overflow rounds ht' hmissing hcount]
        exact .error h'' ⟨by simp [Error.LengthKept], fun _ => ⟨length, hlength, hlong⟩⟩
      rw [if_neg hcount] at hcounted
      obtain ⟨chunk, hheld, hready⟩ := Transport.exists_held hunread
      obtain ⟨n, b', hpos, hn, -, hmin, hput, happended, hlacks, hround'⟩ :=
        Transport.round_eq rounds ht' (Nat.not_lt.1 hcount) hheld hready hb (Nat.succ_pos _)
      have hfirst : fillFor chunks (Cells.of b) m = .ok (chunks + t.due) m' := by
        unfold fillFor
        rw [hcounted]
      have hheld' : m'.held = some (Cells.of chunk) := by rw [h'.held, hheld]; rfl
      rw [bind_of_ok hfirst, hround']
      refine Ended.left (x := get) (a := m') rfl ?_
      rw [hheld']
      refine Ended.left (copy_of m' hb hmin hpos hput) ?_
      have hbytes' := hlacks.length_eq
      have hdue := Transport.due_le { t' with held := some (chunk.skip n) }
      exact assembleInto_of hlength rounds (missing + 1 - n) (chunks + t.due)
        (h'.hold ((h'.housed chunk hheld).skip n)) hlacks (housed_put hhoused hput happended) (by omega) (by omega)

theorem assemble_of (h : Shows c P m t) {length : Nat} (hlength : P length) (hspan : Q length) (hunread : t.unread ≠ []) :
    Ended c P Q (fun cells b _ => cells = Cells.of b ∧ b.length = length ∧ b.Housed c) (assemble length m)
      (t.assemble length) := by
  obtain ⟨m', halloc, h'⟩ := alloc_of h hlength
  obtain ⟨hlent, hhoused, -⟩ := h.keeps.intact.alloc length
  rw [h.pool] at hlent hhoused
  have hdue : Transport.due { t with pool := (t.pool.alloc length).2 } = 0 := Transport.due_of_unread hunread
  have hinto := assembleInto_of hspan length length 0 h' hlent.lacks hhoused (Nat.le_refl length) (by omega)
  have hmachine : assemble length m = (assembleInto length (length + 1) 0 (Cells.of (t.pool.alloc length).1) >>=
      fun buffer => do
        let filled ← check buffer.length
        if filled ≠ length then fail buffer (.assembledLength length filled) else return buffer) m' :=
    bind_of_ok halloc
  rw [hmachine]
  unfold Transport.assemble
  dsimp only
  generalize hm : assembleInto length (length + 1) 0 (Cells.of (t.pool.alloc length).1) m' = o at hinto
  generalize Transport.assembleInto length length 0 (t.pool.alloc length).1 { t with pool := (t.pool.alloc length).2 } = o'
    at hinto ⊢
  cases hinto with
  | error h'' he =>
    rw [bind_of_error hm]
    exact .error h'' he
  | ok h'' hV =>
    obtain ⟨rfl, hfull, hhoused'⟩ := hV
    rw [bind_of_ok hm, check_bind (Cells.length_of _)]
    dsimp only
    rw [if_neg (not_not.2 hfull), if_pos hfull]
    exact .ok h'' ⟨rfl, hfull, hhoused'⟩

theorem readByte_of (h : Shows c P m t) : Ended c P Q (fun a b _ => a = b) (readByte m) (t.readByte) := by
  refine (fill_of h).bind fun _ _ m t h hunread => ?_
  obtain ⟨chunk, hheld, hready⟩ := Transport.exists_held hunread
  obtain ⟨byte, tail, hready⟩ := List.exists_cons_of_ne_nil hready
  have hheld' : m.held = some (Cells.of chunk) := by rw [h.held, hheld]; rfl
  refine Ended.left (x := get) (a := m) rfl ?_
  refine Ended.right (y := get) (b := t) rfl ?_
  rw [hheld', hheld]
  dsimp only
  rw [Buffer.next_eq hready, check_bind (Cells.next_of chunk hready)]
  exact .ok (h.hold ((h.housed chunk hheld).skip 1)) rfl

/-- Spans with the same bytes, as many as were asked for. -/
inductive Spanned (c : Pool.Config) (length : Nat) : MachineSpan → TransportSpan → Prop
  | borrowed {bytes : Bytes} (hlength : bytes.length = length) : Spanned c length (.borrowed bytes) (.borrowed bytes)
  | assembled {b : Buffer} (hlength : b.length = length) (housed : b.Housed c) :
    Spanned c length (.assembled (Cells.of b) b.ready) (.assembled b)

theorem readSpan_of (h : Shows c P m t) {length : Nat} (hlength : P length) (hspan : Q length) :
    Ended c P Q (fun a b _ => Spanned c length a b) (readSpan length m) (t.readSpan length) := by
  unfold readSpan Transport.readSpan
  by_cases h0 : length = 0
  · subst h0
    exact .ok h (.borrowed rfl)
  rw [if_neg h0, if_neg h0]
  refine (fill_of h).bind fun _ _ m t h hunread => ?_
  obtain ⟨chunk, hheld, hready⟩ := Transport.exists_held hunread
  have hheld' : m.held = some (Cells.of chunk) := by rw [h.held, hheld]; rfl
  refine Ended.left (buffered_of h) ?_
  refine Ended.right (y := get) (b := t) rfl ?_
  by_cases hlt : t.buffered < length
  · rw [if_pos hlt, if_pos hlt]
    refine (assemble_of h hlength hspan hunread).bind fun cells b m t h hV => ?_
    obtain ⟨rfl, hfull, hhoused⟩ := hV
    rw [check_bind (Cells.chunk_of b)]
    exact .ok h (.assembled hfull hhoused)
  · rw [if_neg hlt, if_neg hlt]
    have hn : length ≤ chunk.length := by
      rw [Transport.buffered_of_held hheld] at hlt
      exact Nat.not_lt.1 hlt
    refine Ended.left (x := get) (a := m) rfl ?_
    rw [hheld', hheld]
    dsimp only
    rw [Buffer.consume_eq hn, check_bind (Cells.consume_of chunk hn)]
    exact .ok (h.hold ((h.housed chunk hheld).skip length)) (.borrowed (List.length_take_of_le hn))

/-! ### As inputs -/

theorem run_of {V : α → β → Transport σ → Prop} {x : Running σ α} {y : EStateM Error (Transport σ) β}
    (h : Ended c P Q V (x m) (y t)) :
    BothEnd (fun a m b t => V a b t ∧ Shows c P m t) (fun e m t => e.Expected Q ∧ Shows c P m t) (fun _ => False) (run x m)
      (y t) := by
  unfold run
  generalize x m = o at h ⊢
  generalize y t = o' at h ⊢
  cases h with
  | ok h hV => exact .ok ⟨hV, h⟩
  | error h he => exact .error ⟨he, h⟩

theorem release_of (h : Shows c P m t) {length : Nat} {a : MachineSpan} {b : TransportSpan} (hab : Spanned c length a b) :
    Shows c P (Input.release a m) (Input.release b t) := by
  cases hab with
  | borrowed => exact h
  | @assembled b hlength hhoused =>
    obtain ⟨m', hback, h'⟩ := giveBack_of h hhoused
    have hrun : run (release (MachineSpan.assembled (Cells.of b) b.ready)) m = .ok () m' := by
      unfold run
      rw [release, hback]
    have hrelease : Input.release (MachineSpan.assembled (Cells.of b) b.ready) m = m' := by
      dsimp only [Input.release]
      rw [hrun]
    rw [hrelease]
    exact h'

theorem bytes_of {length : Nat} {a : MachineSpan} {b : TransportSpan} (hab : Spanned c length a b) :
    Input.bytes (Machine σ) a = Input.bytes (Transport σ) b ∧
      Input.borrowed (Machine σ) a = Input.borrowed (Transport σ) b ∧ (Input.bytes (Transport σ) b).length = length := by
  cases hab with
  | borrowed hlength => exact ⟨rfl, rfl, hlength⟩
  | assembled hlength => exact ⟨rfl, rfl, hlength⟩

theorem remaining_of (h : Shows c P m t) : Input.remaining m = Input.remaining t := by
  show m.held.elim 0 (fun chunk => chunk.len - chunk.cursor) + Source.remaining m.source =
    t.held.elim 0 Buffer.length + Source.remaining t.source
  rw [h.held, h.source]
  congr 1
  cases t.held with
  | none => rfl
  | some chunk => exact Nat.add_sub_cancel_left _ _

/-- **A machine takes the place of the transport that it shows**, where readers ask for what it may ask the pool for. -/
def coupling (c : Pool.Config) {P Q : Nat → Prop} (hP : ∀ n, Q n → P n) {limits : Limits}
    (hQ : ∀ n ≤ max 8 limits.maxString, Q n) : Coupling limits (Machine σ) (Transport σ) where
  inputs _ := Shows c P
  failed := Error.Expected Q
  failed_own := Error.Own.expected
  remaining := remaining_of
  readByte h := run_of (readByte_of h)
  readSpan hlength h := by
    refine (run_of (readSpan_of h (hP _ (hQ _ hlength)) (hQ _ hlength))).imp ?_
    rintro a m b t ⟨hab, h⟩
    obtain ⟨hbytes, hborrowed, hkept⟩ := bytes_of (σ := σ) hab
    exact ⟨hbytes, hborrowed, fun hne => absurd hkept hne, release_of h hab⟩

end Machine

end CompactWire
