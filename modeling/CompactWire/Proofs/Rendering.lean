import CompactWire.Proofs.Legible
import CompactWire.Value.EqUpTo

/-!
# CompactWire.Proofs.Rendering — the text of a record shows the record

The text of a value begins with its type, so texts that go on alike are of values of one type; what it says of the
content is legible, and lines of elements are further in than the bracket that closes them.  So in front of anything but
a word, the text of a value is that of another one only if the two are equal up to doubles printed the same
(`Value.legible_render`), whatever the binaries in them hold; and values that are equal so far have the same text
(`Value.render_congr`).
-/

namespace CompactWire

/-- Two doubles have the same text. -/
def PrintedAlike (a b : UInt64) : Prop := renderDouble a = renderDouble b

/-- Two records are equal, where doubles count as equal if they have the same text. -/
def Record.Alike (r s : Record) : Prop := Value.EqUpTo PrintedAlike (.struct r) (.struct s)

/-! ### Words in front of values -/

theorem isWordChar_of_mem_name {t : WireType} {c : Char} (h : c ∈ t.name.toList) : isWordChar c = true := by
  have hall : t.name.toList.all isWordChar = true := by cases t <;> rfl
  exact List.all_eq_true.1 hall c h

theorem name_inj {t u : WireType} (h : t.name.toList = u.name.toList) : t = u := by
  cases t <;> cases u <;> first | rfl | exact absurd h (by decide)

theorem legible_name (t : WireType) : Legible Breaks Eq (fun t : WireType => t.name.toList) t :=
  .of_words (fun _ _ => isWordChar_of_mem_name) fun _ => name_inj

theorem name_ne_mark (t : WireType) : t.name.toList ≠ "?".toList := by
  cases t <;> decide

theorem legible_type? (t : Option WireType) : Legible Breaks Eq renderType? t := by
  refine .of_words (fun t c hc => ?_) fun u h => ?_
  · cases t with
    | none =>
      cases List.mem_singleton.1 hc
      rfl
    | some t => exact isWordChar_of_mem_name hc
  · cases t with
    | none =>
      cases u with
      | none => rfl
      | some u => exact absurd h.symm (name_ne_mark u)
    | some t =>
      cases u with
      | none => exact absurd h (name_ne_mark t)
      | some u => exact congrArg some (name_inj h)

/-! ### Values -/

theorem renderItems_eq_rows (indent : Nat) (vs : List Value) :
    renderItems (indent + 2) vs = rows indent (fun v => v.render (indent + 2) ++ [',', '\n']) vs := by
  induction vs with
  | nil => rfl
  | cons v vs ih => simp [renderItems, rows, ih, List.flatMap_cons]

theorem renderEntries_eq_rows (indent : Nat) (es : List (Value × Value)) :
    renderEntries (indent + 2) es = rows indent (fun e =>
      e.1.render (indent + 2) ++ [' ', '=', '>', ' '] ++ (e.2.render (indent + 2) ++ [',', '\n'])) es := by
  induction es with
  | nil => rfl
  | cons e es ih => simp [renderEntries, rows, ih, List.flatMap_cons]

theorem renderFields_eq_rows (indent : Nat) (fs : List (Int16 × Value)) :
    renderFields (indent + 2) fs = rows indent (fun f =>
      (toString f.1.toInt).toList ++ [':', ' '] ++ (f.2.render (indent + 2) ++ ['\n'])) fs := by
  induction fs with
  | nil => rfl
  | cons f fs ih => simp [renderFields, rows, ih, List.flatMap_cons]

namespace Value

/-- What the text of a value says behind the name of its type. -/
def content (indent : Nat) : Value → List Char
  | .bool b => ' ' :: (if b then "true" else "false").toList
  | .byte n => ' ' :: (toString n.toInt).toList
  | .i16 n => ' ' :: (toString n.toInt).toList
  | .i32 n => ' ' :: (toString n.toInt).toList
  | .i64 n => ' ' :: (toString n.toInt).toList
  | .double bits => ' ' :: renderDouble bits
  | .binary bytes => ' ' :: renderBinary bytes
  | .list element items | .set element items =>
    '<' :: (element.name.toList ++ ['>', ' '] ++ bracketed '[' ']' indent (renderItems (indent + 2) items))
  | .map key value entries =>
    '<' :: (renderType? key ++ [',', ' '] ++ (renderType? value ++ ['>', ' '] ++
      bracketed '\x7b' '\x7d' indent (renderEntries (indent + 2) entries)))
  | .struct fields => ' ' :: bracketed '\x7b' '\x7d' indent (renderFields (indent + 2) fields)

theorem render_eq_content (indent : Nat) (v : Value) : v.render indent = v.type.name.toList ++ v.content indent := by
  rw [render.eq_def]
  cases v <;> simp [content, type, WireType.name]

theorem breaks_content (indent : Nat) (v : Value) (x : List Char) : Breaks (v.content indent ++ x) := by
  intro c hc
  cases v <;> cases hc <;> rfl

/-- Texts of values that go on alike are of one type, and go on alike behind it. -/
theorem content_eq_of_render {indent : Nat} {v w : Value} {x y : List Char}
    (h : v.render indent ++ x = w.render indent ++ y) :
    v.type = w.type ∧ v.content indent ++ x = w.content indent ++ y := by
  simp only [render_eq_content, List.append_assoc] at h
  exact legible_name v.type w.type _ _ (breaks_content indent v x) (breaks_content indent w y) h

theorem legible_bool (b : Bool) : Legible Breaks Eq (fun b => (if b then "true" else "false").toList) b := by
  refine .of_words (fun b c hc => ?_) fun b' h => ?_
  · have hword : (if b then "true" else "false").toList.all isWordChar = true := by cases b <;> rfl
    exact List.all_eq_true.1 hword c hc
  · cases b <;> cases b' <;> first | rfl | exact absurd h (by decide)

theorem legible_double (bits : UInt64) : Legible Breaks PrintedAlike renderDouble bits :=
  .of_words (fun _ _ => isWordChar_of_mem_double) fun _ h => h

variable {indent : Nat}

theorem legible_items (element : WireType) {items : List Value}
    (h : ∀ v ∈ items, Legible Breaks (EqUpTo PrintedAlike) (render (indent + 2)) v) :
    Legible Breaks (fun p q => p.1 = q.1 ∧ List.Forall₂ (EqUpTo PrintedAlike) p.2 q.2)
      (fun p : WireType × List Value =>
        p.1.name.toList ++ ['>', ' '] ++ bracketed '[' ']' indent (renderItems (indent + 2) p.2)) (element, items) := by
  simp only [renderItems_eq_rows]
  exact ((legible_name element).before rfl _).append
    (legible_bracketed '[' indent (by decide) (by decide) fun v hv => (h v hv).before rfl _)

theorem legible_entries (key value : Option WireType) {entries : List (Value × Value)}
    (h : ∀ e ∈ entries, Legible Breaks (EqUpTo PrintedAlike) (render (indent + 2)) e.1 ∧
      Legible Breaks (EqUpTo PrintedAlike) (render (indent + 2)) e.2) :
    Legible Breaks (fun p q => p.1 = q.1 ∧ p.2.1 = q.2.1 ∧ List.Forall₂ (fun e f =>
        EqUpTo PrintedAlike e.1 f.1 ∧ EqUpTo PrintedAlike e.2 f.2) p.2.2 q.2.2)
      (fun p : Option WireType × Option WireType × List (Value × Value) =>
        renderType? p.1 ++ [',', ' '] ++ (renderType? p.2.1 ++ ['>', ' '] ++
          bracketed '\x7b' '\x7d' indent (renderEntries (indent + 2) p.2.2))) (key, value, entries) := by
  simp only [renderEntries_eq_rows]
  exact ((legible_type? key).before rfl _).append (((legible_type? value).before rfl _).append
    (legible_bracketed '\x7b' indent (by decide) (by decide) fun e he =>
      ((h e he).1.before rfl _).append ((h e he).2.before rfl _)))

theorem legible_fields {fields : List (Int16 × Value)}
    (h : ∀ f ∈ fields, Legible Breaks (EqUpTo PrintedAlike) (render (indent + 2)) f.2) :
    Legible Breaks (List.Forall₂ fun f g => f.1 = g.1 ∧ EqUpTo PrintedAlike f.2 g.2)
      (fun fields => bracketed '\x7b' '\x7d' indent (renderFields (indent + 2) fields)) fields := by
  simp only [renderFields_eq_rows]
  exact legible_bracketed '\x7b' indent (by decide) (by decide) fun f hf =>
    ((legible_int fun _ => Int16.toInt_inj.1).before rfl _).append ((h f hf).before rfl _)

/-- A value of which the content is legible is legible. -/
theorem legible_of_content {γ : Type} {S : γ → γ → Prop} {g : γ → List Char} {c : γ} {lead : Char} (mk : γ → Value)
    (hg : Legible Breaks S g c) (hcontent : ∀ c, (mk c).content indent = lead :: g c)
    (hmk : ∀ w, (mk c).type = w.type → ∃ c', w = mk c') (hS : ∀ c', S c c' → EqUpTo PrintedAlike (mk c) (mk c')) :
    Legible Breaks (EqUpTo PrintedAlike) (render indent) (mk c) := by
  intro w x y hx hy h
  obtain ⟨htype, h⟩ := content_eq_of_render h
  obtain ⟨c', rfl⟩ := hmk w htype
  simp only [hcontent] at h
  obtain ⟨hcc', hxy⟩ := hg c' x y hx hy (List.cons.inj h).2
  exact ⟨hS c' hcc', hxy⟩

/-- A value that holds no others is legible if its content shows what it is. -/
theorem legible_of_leaf {γ : Type} {g : γ → List Char} {c : γ} {lead : Char} (mk : γ → Value)
    (hg : Legible Breaks Eq g c) (hcontent : ∀ c, (mk c).content indent = lead :: g c)
    (hmk : ∀ w, (mk c).type = w.type → ∃ c', w = mk c') :
    Legible Breaks (EqUpTo PrintedAlike) (render indent) (mk c) := by
  refine legible_of_content mk hg hcontent hmk fun c' h => ?_
  rw [h]
  exact .refl (fun _ => (rfl : renderDouble _ = _)) (mk c')

/-- Wherever no word goes on behind it, the text of a value shows the value, up to doubles printed the same. -/
theorem legible_render (v : Value) (indent : Nat) : Legible Breaks (EqUpTo PrintedAlike) (render indent) v := by
  -- the type stands in front, so the other value is of the same kind; what it holds is legible two columns further in
  induction v generalizing indent with
  | bool b =>
    refine legible_of_leaf bool (legible_bool b) (fun _ => rfl) fun w h => ?_
    cases w <;> first | exact ⟨_, rfl⟩ | cases h
  | byte n =>
    refine legible_of_leaf byte (legible_int fun _ => Int8.toInt_inj.1) (fun _ => rfl) fun w h => ?_
    cases w <;> first | exact ⟨_, rfl⟩ | cases h
  | i16 n =>
    refine legible_of_leaf i16 (legible_int fun _ => Int16.toInt_inj.1) (fun _ => rfl) fun w h => ?_
    cases w <;> first | exact ⟨_, rfl⟩ | cases h
  | i32 n =>
    refine legible_of_leaf i32 (legible_int fun _ => Int32.toInt_inj.1) (fun _ => rfl) fun w h => ?_
    cases w <;> first | exact ⟨_, rfl⟩ | cases h
  | i64 n =>
    refine legible_of_leaf i64 (legible_int fun _ => Int64.toInt_inj.1) (fun _ => rfl) fun w h => ?_
    cases w <;> first | exact ⟨_, rfl⟩ | cases h
  | double bits =>
    refine legible_of_content double (legible_double bits) (fun _ => rfl) (fun w h => ?_) fun _ h => .double h
    cases w <;> first | exact ⟨_, rfl⟩ | cases h
  | binary bytes =>
    refine legible_of_leaf binary (legible_binary bytes) (fun _ => rfl) fun w h => ?_
    cases w <;> first | exact ⟨_, rfl⟩ | cases h
  | list element items ih =>
    have hitems := legible_items element fun v hv => ih v hv (indent + 2)
    refine legible_of_content (c := (element, items)) (fun p => list p.1 p.2) hitems (fun _ => rfl) (fun w h => ?_) ?_
    · cases w <;> first | exact ⟨(_, _), rfl⟩ | cases h
    · rintro ⟨_, items'⟩ ⟨rfl, hitems⟩
      exact .list element hitems
  | set element items ih =>
    have hitems := legible_items element fun v hv => ih v hv (indent + 2)
    refine legible_of_content (c := (element, items)) (fun p => set p.1 p.2) hitems (fun _ => rfl) (fun w h => ?_) ?_
    · cases w <;> first | exact ⟨(_, _), rfl⟩ | cases h
    · rintro ⟨_, items'⟩ ⟨rfl, hitems⟩
      exact .set element hitems
  | map key value entries ih =>
    have hentries := legible_entries key value fun e he => ⟨(ih e he).1 (indent + 2), (ih e he).2 (indent + 2)⟩
    refine legible_of_content (c := (key, value, entries)) (fun p => map p.1 p.2.1 p.2.2) hentries (fun _ => rfl)
      (fun w h => ?_) ?_
    · cases w <;> first | exact ⟨(_, _, _), rfl⟩ | cases h
    · rintro ⟨_, _, entries'⟩ ⟨rfl, rfl, hentries⟩
      exact .map key value (hentries.imp fun _ _ h => h.1) (hentries.imp fun _ _ h => h.2)
  | struct fields ih =>
    refine legible_of_content struct (legible_fields fun f hf => ih f hf (indent + 2)) (fun _ => rfl) (fun w h => ?_)
      fun _ h => .struct (h.imp fun _ _ h => h.1) (h.imp fun _ _ h => h.2)
    cases w <;> first | exact ⟨_, rfl⟩ | cases h

theorem renderItems_congr {vs ws : List Value} (h : List.Forall₂ (fun v w => v.render indent = w.render indent) vs ws) :
    renderItems indent vs = renderItems indent ws := by
  induction h with
  | nil => rfl
  | cons hvw _ ih => simp only [renderItems, hvw, ih]

theorem renderEntries_congr {es fs : List (Value × Value)}
    (h : List.Forall₂ (fun e f => e.1.render indent = f.1.render indent ∧ e.2.render indent = f.2.render indent)
      es fs) : renderEntries indent es = renderEntries indent fs := by
  induction h with
  | nil => rfl
  | cons hef _ ih => simp only [renderEntries, hef.1, hef.2, ih]

theorem renderFields_congr {fs gs : List (Int16 × Value)}
    (h : List.Forall₂ (fun f g => f.1 = g.1 ∧ f.2.render indent = g.2.render indent) fs gs) :
    renderFields indent fs = renderFields indent gs := by
  induction h with
  | nil => rfl
  | cons hfg _ ih => simp only [renderFields, hfg.1, hfg.2, ih]

/-- Values that are equal up to doubles printed the same have the same text. -/
theorem render_congr {v w : Value} (h : EqUpTo PrintedAlike v w) (indent : Nat) :
    v.render indent = w.render indent := by
  induction v generalizing w indent with
  | bool | byte | i16 | i32 | i64 | binary => cases h; rfl
  | double bits =>
    cases h with
    | double h => exact congrArg ("double ".toList ++ ·) h
  | list element items ih =>
    cases h with
    | list _ hitems =>
      have hrows := renderItems_congr (forall₂_imp_of_mem (fun v hv _ h => ih v hv h (indent + 2)) hitems)
      exact congrArg ("list<".toList ++ element.name.toList ++ "> ".toList ++ bracketed '[' ']' indent ·) hrows
  | set element items ih =>
    cases h with
    | set _ hitems =>
      have hrows := renderItems_congr (forall₂_imp_of_mem (fun v hv _ h => ih v hv h (indent + 2)) hitems)
      exact congrArg ("set<".toList ++ element.name.toList ++ "> ".toList ++ bracketed '[' ']' indent ·) hrows
  | map key value entries ih =>
    cases h with
    | map _ _ hkeys hvalues =>
      have hrows := renderEntries_congr (forall₂_imp_of_mem
        (fun e he _ h => ⟨(ih e he).1 h.1 (indent + 2), (ih e he).2 h.2 (indent + 2)⟩) (forall₂_and hkeys hvalues))
      exact congrArg ("map<".toList ++ renderType? key ++ ", ".toList ++ renderType? value ++ "> ".toList ++
        bracketed '\x7b' '\x7d' indent ·) hrows
  | struct fields ih =>
    cases h with
    | struct hids hvalues =>
      have hrows := renderFields_congr (forall₂_imp_of_mem
        (fun f hf _ h => ⟨h.1, ih f hf h.2 (indent + 2)⟩) (forall₂_and hids hvalues))
      exact congrArg ("struct ".toList ++ bracketed '\x7b' '\x7d' indent ·) hrows

end Value

/-! ### Records -/

theorem Record.legible_render (r : Record) : Legible Breaks Record.Alike (fun r => r.render.toList) r := by
  intro s x y hx hy h
  simp only [render, String.toList_ofList] at h
  exact Value.legible_render (.struct r) 0 (.struct s) x y hx hy h

/-- Two records have the same text iff they are equal, where doubles count as equal if they have the same text. -/
theorem Record.render_eq_iff (r s : Record) : r.render = s.render ↔ r.Alike s := by
  refine ⟨fun h => ?_, fun h => congrArg String.ofList (Value.render_congr h 0)⟩
  exact (legible_render r s [] [] breaks_nil breaks_nil (congrArg (fun t : String => t.toList ++ []) h)).1

end CompactWire
