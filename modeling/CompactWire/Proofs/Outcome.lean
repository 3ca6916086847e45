/-!
# CompactWire.Proofs.Outcome — what a sequence of steps gives

Readers, writers, transports and sources all take steps that end in a result or an error and leave a state.  The rules
here take a sequence of two steps apart; everything else about such steps is said of one step at a time.  `Ends` says
what holds of either outcome, and `EndsWith` looks at the error, too; `mapM_of_steps` takes a row of steps that succeed
together, and `onState` looks at an outcome through a view of the state.  `Tracks` says of two steps that they end with
the same result or the same error, wherever their states belong together; the second side may also stop with an error
that it alone can meet.
-/

namespace CompactWire.Outcome

variable {ε σ α β : Type} {x : EStateM ε σ α} {f : α → EStateM ε σ β} {s : σ}

/-! ### Forwards: from the outcome of the first step -/

theorem bind_of_ok {a : α} {t : σ} (h : x s = .ok a t) : (x >>= f) s = f a t := by
  show EStateM.bind x f s = f a t
  simp only [EStateM.bind, h]

theorem bind_of_error {e : ε} {t : σ} (h : x s = .error e t) : (x >>= f) s = .error e t := by
  show EStateM.bind x f s = .error e t
  simp only [EStateM.bind, h]

/-! ### Backwards: from the outcome of both -/

theorem pure_eq_ok {a b : α} {t : σ} : (pure a : EStateM ε σ α) s = .ok b t ↔ a = b ∧ s = t := by
  show EStateM.Result.ok a s = .ok b t ↔ _
  rw [EStateM.Result.ok.injEq]

theorem bind_eq_ok {b : β} {u : σ} : (x >>= f) s = .ok b u ↔ ∃ a t, x s = .ok a t ∧ f a t = .ok b u := by
  constructor
  · intro h
    cases hx : x s with
    | ok a t => exact ⟨a, t, rfl, (bind_of_ok hx).symm.trans h⟩
    | error e t => cases (bind_of_error hx).symm.trans h
  · rintro ⟨a, t, hx, hf⟩
    exact (bind_of_ok hx).trans hf

theorem map_eq_ok {h : α → β} {b : β} {t : σ} :
    (do return h (← x)) s = .ok b t ↔ ∃ a, x s = .ok a t ∧ b = h a := by
  rw [bind_eq_ok]
  constructor
  · rintro ⟨a, _, hx, hpure⟩
    obtain ⟨rfl, rfl⟩ := pure_eq_ok.1 hpure
    exact ⟨a, hx, rfl⟩
  · rintro ⟨a, hx, rfl⟩
    exact ⟨a, t, hx, rfl⟩

theorem bind_eq_error {e : ε} {u : σ} :
    (x >>= f) s = .error e u ↔ x s = .error e u ∨ ∃ a t, x s = .ok a t ∧ f a t = .error e u := by
  constructor
  · intro h
    cases hx : x s with
    | ok a t => exact Or.inr ⟨a, t, rfl, (bind_of_ok hx).symm.trans h⟩
    | error e' t =>
      cases (bind_of_error hx).symm.trans h
      exact Or.inl rfl
  · rintro (hx | ⟨a, t, hx, hf⟩)
    · exact bind_of_error hx
    · exact (bind_of_ok hx).trans hf

/-! ### Whatever the outcome -/

/-- A step ends in `Q`, or fails in `E`. -/
def Ends (Q : α → σ → Prop) (E : σ → Prop) : EStateM.Result ε σ α → Prop
  | .ok a t => Q a t
  | .error _ t => E t

theorem Ends.mono {Q Q' : α → σ → Prop} {E E' : σ → Prop} {o : EStateM.Result ε σ α} (h : Ends Q E o)
    (hQ : ∀ a t, Q a t → Q' a t) (hE : ∀ t, E t → E' t) : Ends Q' E' o := by
  cases o with
  | ok a t => exact hQ a t h
  | error e t => exact hE t h

/-- The state that an outcome leaves. -/
def left : EStateM.Result ε σ α → σ
  | .ok _ s | .error _ s => s

theorem Ends.left {P : σ → Prop} {o : EStateM.Result ε σ α} (h : Ends (fun _ => P) P o) : P (left o) := by
  cases o <;> exact h

theorem ends_bind {Q : β → σ → Prop} {R : α → σ → Prop} {E : σ → Prop} (hx : Ends R E (x s))
    (hf : ∀ a t, R a t → Ends Q E (f a t)) : Ends Q E ((x >>= f) s) := by
  cases h : x s with
  | ok a t =>
    rw [h] at hx
    rw [bind_of_ok h]
    exact hf a t hx
  | error e t =>
    rw [h] at hx
    rw [bind_of_error h]
    exact hx

theorem ends_get {Q : β → σ → Prop} {E : σ → Prop} {f : σ → EStateM ε σ β} (h : Ends Q E (f s s)) :
    Ends Q E ((get >>= f) s) := h

/-- A step ends in `Q`, or with an error and a state in `E`. -/
def EndsWith (Q : α → σ → Prop) (E : ε → σ → Prop) : EStateM.Result ε σ α → Prop
  | .ok a t => Q a t
  | .error e t => E e t

theorem EndsWith.mono {Q Q' : α → σ → Prop} {E E' : ε → σ → Prop} {o : EStateM.Result ε σ α} (h : EndsWith Q E o)
    (hQ : ∀ a t, Q a t → Q' a t) (hE : ∀ e t, E e t → E' e t) : EndsWith Q' E' o := by
  cases o with
  | ok a t => exact hQ a t h
  | error e t => exact hE e t h

theorem EndsWith.ends {Q : α → σ → Prop} {E : ε → σ → Prop} {E' : σ → Prop} {o : EStateM.Result ε σ α}
    (h : EndsWith Q E o) (hE : ∀ e t, E e t → E' t) : Ends Q E' o := by
  cases o with
  | ok a t => exact h
  | error e t => exact hE e t h

theorem endsWith_bind {Q : β → σ → Prop} {R : α → σ → Prop} {E : ε → σ → Prop} (hx : EndsWith R E (x s))
    (hf : ∀ a t, R a t → EndsWith Q E (f a t)) : EndsWith Q E ((x >>= f) s) := by
  cases h : x s with
  | ok a t =>
    rw [h] at hx
    rw [bind_of_ok h]
    exact hf a t hx
  | error e t =>
    rw [h] at hx
    rw [bind_of_error h]
    exact hx

theorem endsWith_get {Q : β → σ → Prop} {E : ε → σ → Prop} {f : σ → EStateM ε σ β} (h : EndsWith Q E (f s s)) :
    EndsWith Q E ((get >>= f) s) := h

/-! ### One step after the other -/

/-- Every step uses up its part of what the states hold, and so do all of them, unless one of them stops. -/
theorem mapM_of_steps_or {γ : Type} {P : σ → List γ → Prop} {stops : ε → Prop} {result : α → β} {part : α → List γ} :
    ∀ {as : List α} {s : σ} {rest : List γ},
      (∀ a ∈ as, ∀ s rest, P s (part a ++ rest) →
        (∃ e t, f a s = .error e t ∧ stops e) ∨ ∃ t, f a s = .ok (result a) t ∧ P t rest) →
      P s (as.flatMap part ++ rest) →
      (∃ e t, as.mapM f s = .error e t ∧ stops e) ∨ ∃ t, as.mapM f s = .ok (as.map result) t ∧ P t rest
  | [], s, _, _, hs => Or.inr ⟨s, rfl, hs⟩
  | a :: as, s, rest, hsteps, hs => by
    rw [List.forall_mem_cons] at hsteps
    rw [List.flatMap_cons, List.append_assoc] at hs
    rw [List.mapM_cons]
    rcases hsteps.1 s _ hs with ⟨e, t, hfirst, he⟩ | ⟨t, hfirst, ht⟩
    · exact Or.inl ⟨e, t, bind_of_error hfirst, he⟩
    rcases mapM_of_steps_or hsteps.2 ht with ⟨e, u, hothers, he⟩ | ⟨u, hothers, hu⟩
    · exact Or.inl ⟨e, u, (bind_of_ok hfirst).trans (bind_of_error hothers), he⟩
    · exact Or.inr ⟨u, (bind_of_ok hfirst).trans (bind_of_ok hothers), hu⟩

theorem mapM_of_steps {γ : Type} {P : σ → List γ → Prop} {result : α → β} {part : α → List γ} {as : List α} {s : σ}
    {rest : List γ} (hsteps : ∀ a ∈ as, ∀ s rest, P s (part a ++ rest) → ∃ t, f a s = .ok (result a) t ∧ P t rest)
    (hs : P s (as.flatMap part ++ rest)) : ∃ t, as.mapM f s = .ok (as.map result) t ∧ P t rest := by
  have hor : (∃ e t, as.mapM f s = .error e t ∧ False) ∨ ∃ t, as.mapM f s = .ok (as.map result) t ∧ P t rest :=
    mapM_of_steps_or (fun a ha s rest h => Or.inr (hsteps a ha s rest h)) hs
  exact hor.resolve_left fun ⟨_, _, _, hnever⟩ => hnever

/-! ### Through a view of the state -/

variable {τ : Type} {v : σ → τ}

/-- An outcome of which the state is looked at through `v`. -/
def onState (v : σ → τ) : EStateM.Result ε σ α → EStateM.Result ε τ α
  | .ok a s => .ok a (v s)
  | .error e s => .error e (v s)

theorem left_onState (o : EStateM.Result ε σ α) : left (onState v o) = v (left o) := by
  cases o <;> rfl

theorem onState_bind {y : EStateM ε τ α} {g : α → EStateM ε τ β} (hx : y (v s) = onState v (x s))
    (hf : ∀ a t, g a (v t) = onState v (f a t)) : (y >>= g) (v s) = onState v ((x >>= f) s) := by
  cases h : x s with
  | ok a t =>
    rw [h] at hx
    rw [bind_of_ok h, bind_of_ok hx]
    exact hf a t
  | error e t =>
    rw [h] at hx
    rw [bind_of_error h, bind_of_error hx]
    rfl

theorem onState_get {f : σ → EStateM ε σ β} {g : τ → EStateM ε τ β} (h : g (v s) (v s) = onState v (f s s)) :
    (get >>= g) (v s) = onState v ((get >>= f) s) := h

/-! ### On two sides -/

variable {R : σ → τ → Prop} {y : EStateM ε τ α} {g : α → EStateM ε τ β}

/-- What an outcome tells, without the state it leaves. -/
def answer : EStateM.Result ε σ α → Except ε α
  | .ok a _ => .ok a
  | .error e _ => .error e

theorem answer_eq_ok {o : EStateM.Result ε σ α} {a : α} : answer o = .ok a ↔ ∃ s, o = .ok a s := by
  constructor
  · intro h
    cases o <;> cases h
    exact ⟨_, rfl⟩
  · rintro ⟨s, rfl⟩
    rfl

theorem answer_eq_error {o : EStateM.Result ε σ α} {e : ε} : answer o = .error e ↔ ∃ s, o = .error e s := by
  constructor
  · intro h
    cases o <;> cases h
    exact ⟨_, rfl⟩
  · rintro ⟨s, rfl⟩
    rfl

/-- Two outcomes are the same result, in states that belong together, or the same error, or the second side stops. -/
inductive Alike (stops : ε → Prop) (R : σ → τ → Prop) : EStateM.Result ε σ α → EStateM.Result ε τ α → Prop
  | ok {a : α} {s : σ} {t : τ} (h : R s t) : Alike stops R (.ok a s) (.ok a t)
  | error {e : ε} {s : σ} {t : τ} : Alike stops R (.error e s) (.error e t)
  | stopped {o : EStateM.Result ε σ α} {e : ε} {t : τ} (h : stops e) : Alike stops R o (.error e t)

variable {stops stops' : ε → Prop}

theorem Alike.answer_eq {o : EStateM.Result ε σ α} {o' : EStateM.Result ε τ α} (h : Alike stops R o o') :
    (∃ e, answer o' = .error e ∧ stops e) ∨ answer o' = answer o := by
  cases h with
  | ok | error => exact Or.inr rfl
  | stopped he => exact Or.inl ⟨_, rfl, he⟩

/-- From states that belong together both steps end alike. -/
def Tracks (stops : ε → Prop) (R : σ → τ → Prop) (x : EStateM ε σ α) (y : EStateM ε τ α) : Prop :=
  ∀ s t, R s t → Alike stops R (x s) (y t)

namespace Tracks

/-- A result of the first side is one of the second, unless this one stops. -/
theorem of_ok {s s' : σ} {t : τ} {a : α} (h : Tracks stops R x y) (hst : R s t) (hx : x s = .ok a s') :
    (∃ e t', y t = .error e t' ∧ stops e) ∨ ∃ t', y t = .ok a t' ∧ R s' t' := by
  have hxy := h s t hst
  rw [hx] at hxy
  generalize y t = o at hxy ⊢
  cases hxy with
  | ok hst' => exact Or.inr ⟨_, rfl, hst'⟩
  | stopped he => exact Or.inl ⟨_, _, rfl, he⟩

/-- Where the second side never stops by itself, both give the same answer. -/
theorem answer_eq (h : Tracks (fun _ => False) R x y) {s : σ} {t : τ} (hst : R s t) : answer (y t) = answer (x s) :=
  (h s t hst).answer_eq.resolve_left fun ⟨_, _, hnever⟩ => hnever

theorem mono (h : Tracks stops R x y) (hstops : ∀ e, stops e → stops' e) : Tracks stops' R x y := by
  intro s t hst
  have hxy := h s t hst
  generalize x s = o at hxy ⊢
  generalize y t = o' at hxy ⊢
  cases hxy with
  | ok h => exact .ok h
  | error => exact .error
  | stopped he => exact .stopped (hstops _ he)

theorem pure (a : α) : Tracks stops R (pure a) (pure a) := fun _ _ h => .ok h

theorem throw (e : ε) : Tracks stops R (throw e : EStateM ε σ α) (throw e : EStateM ε τ α) := fun _ _ _ => .error

/-- The second steps need to end alike only behind a result that the first step can give. -/
theorem bind_of (hx : Tracks stops R x y) (hf : ∀ a, (∃ s s', x s = .ok a s') → Tracks stops R (f a) (g a)) :
    Tracks stops R (x >>= f) (y >>= g) := by
  intro s t hst
  have hxy := hx s t hst
  cases hs : x s with
  | ok a s' =>
    rcases hx.of_ok hst hs with ⟨e, t', ht, he⟩ | ⟨t', ht, hst'⟩
    · rw [bind_of_error ht]
      exact .stopped he
    · rw [bind_of_ok hs, bind_of_ok ht]
      exact hf a ⟨s, s', hs⟩ s' t' hst'
  | error e s' =>
    rw [hs] at hxy
    rw [bind_of_error hs]
    generalize ht : y t = o at hxy
    cases hxy with
    | error =>
      rw [bind_of_error ht]
      exact .error
    | stopped he =>
      rw [bind_of_error ht]
      exact .stopped he

theorem bind (hx : Tracks stops R x y) (hf : ∀ a, Tracks stops R (f a) (g a)) :
    Tracks stops R (x >>= f) (y >>= g) := hx.bind_of fun a _ => hf a

theorem map (hx : Tracks stops R x y) (h : α → β) : Tracks stops R (do return h (← x)) (do return h (← y)) :=
  hx.bind fun a => Tracks.pure (h a)

/-- The steps go on with a look at their states. -/
theorem get {f : σ → EStateM ε σ β} {g : τ → EStateM ε τ β} (h : ∀ s t, R s t → Tracks stops R (f s) (g t)) :
    Tracks stops R (get >>= f) (get >>= g) := fun s t hst => h s t hst s t hst

end Tracks

end CompactWire.Outcome
