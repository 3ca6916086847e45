import Mathlib
import CompactWire.Proofs.Utf8
import CompactWire.Render

/-!
# CompactWire.Proofs.Legible — texts that show where they end

Texts stand one behind the other, with nothing but what they consist of to tell where one ends and the next begins.  A
text is `Legible` if whatever follows it can be told from it: two texts of the same kind that go on to the same
characters are of the same thing, and the same characters follow.  Some are legible only where no word goes on behind
them (`Breaks`): numbers, names of types, doubles and hexadecimal digits are words, and end with the last character that
words consist of.  A quoted text is legible anywhere.

Texts that are put together of legible texts are legible (`Legible.append`, `Legible.before`, `Legible.behind`), and so
are rows of lines that are further in than what follows them (`legible_bracketed`).
-/

namespace CompactWire

/-! ### Legible texts -/

/-- Whether words may consist of a character. -/
def isWordChar (c : Char) : Bool := c.isAlphanum || c == '.' || c == '-' || c == '?'

/-- No word goes on at the front of a text. -/
def Breaks (x : List Char) : Prop := ∀ c ∈ x.head?, isWordChar c = false

theorem breaks_nil : Breaks [] := fun _ h => by cases h

theorem breaks_cons {c : Char} (hc : isWordChar c = false) (x : List Char) : Breaks (c :: x) := fun d hd => by
  cases hd
  exact hc

/-- What no word consists of occurs in no word. -/
theorem notMem_word {u : List Char} {c : Char} (hu : ∀ c ∈ u, isWordChar c = true) (hc : isWordChar c = false) :
    c ∉ u := by
  intro hmem
  rw [hu c hmem] at hc
  cases hc

/-- A text that may be anything. -/
def Anything (_ : List Char) : Prop := True

variable {α β : Type} {T : List Char → Prop} {R : α → α → Prop} {f : α → List Char} {a : α}

/-- In front of a text that `T` allows, the text of `a` shows, up to `R`, what it is the text of, and where it ends. -/
def Legible (T : List Char → Prop) (R : α → α → Prop) (f : α → List Char) (a : α) : Prop :=
  ∀ (b : α) (x y : List Char), T x → T y → f a ++ x = f b ++ y → R a b ∧ x = y

/-- Words in front of where no word goes on. -/
theorem word_append_inj : ∀ {u v x y : List Char}, (∀ c ∈ u, isWordChar c = true) → (∀ c ∈ v, isWordChar c = true) →
    Breaks x → Breaks y → u ++ x = v ++ y → u = v ∧ x = y
  | [], [], _, _, _, _, _, _, h => ⟨rfl, h⟩
  | [], c :: v, x, y, _, hv, hx, _, h => by
    have hword := hv c List.mem_cons_self
    have hbreak := hx c (by rw [List.nil_append] at h; rw [h]; rfl)
    rw [hword] at hbreak
    cases hbreak
  | c :: u, [], x, y, hu, _, _, hy, h => by
    have hword := hu c List.mem_cons_self
    have hbreak := hy c (by rw [List.nil_append] at h; rw [← h]; rfl)
    rw [hword] at hbreak
    cases hbreak
  | c :: u, d :: v, x, y, hu, hv, hx, hy, h => by
    rw [List.forall_mem_cons] at hu hv
    obtain ⟨rfl, htail⟩ := List.cons.inj h
    obtain ⟨rfl, hrest⟩ := word_append_inj hu.2 hv.2 hx hy htail
    exact ⟨rfl, hrest⟩

namespace Legible

theorem of_words (hword : ∀ a, ∀ c ∈ f a, isWordChar c = true) (hR : ∀ b, f a = f b → R a b) :
    Legible Breaks R f a := by
  intro b x y hx hy h
  obtain ⟨hsame, hrest⟩ := word_append_inj (hword a) (hword b) hx hy h
  exact ⟨hR b hsame, hrest⟩

/-- What goes on with a character that no word consists of need not be looked at. -/
theorem before {c : Char} (h : Legible Breaks R f a) (hc : isWordChar c = false) (rest : List Char) :
    Legible T R (fun a => f a ++ c :: rest) a := by
  intro b x y _ _ heq
  simp only [List.append_assoc] at heq
  obtain ⟨hab, hrest⟩ := h b _ _ (breaks_cons hc (rest ++ x)) (breaks_cons hc (rest ++ y)) heq
  exact ⟨hab, List.append_cancel_left (List.cons.inj hrest).2⟩

theorem behind (h : Legible T R f a) (lead : List Char) : Legible T R (fun a => lead ++ f a) a := by
  intro b x y hx hy heq
  simp only [List.append_assoc] at heq
  exact h b x y hx hy (List.append_cancel_left heq)

theorem append {S : β → β → Prop} {g : β → List Char} {b : β} (hf : Legible Anything R f a) (hg : Legible T S g b) :
    Legible T (fun p q => R p.1 q.1 ∧ S p.2 q.2) (fun p : α × β => f p.1 ++ g p.2) (a, b) := by
  intro q x y hx hy heq
  simp only [List.append_assoc] at heq
  obtain ⟨hab, heq⟩ := hf q.1 _ _ trivial trivial heq
  obtain ⟨hbq, hrest⟩ := hg q.2 x y hx hy heq
  exact ⟨⟨hab, hbq⟩, hrest⟩

end Legible

/-! ### Numbers -/

theorem isWordChar_of_isDigit {c : Char} (h : c.isDigit = true) : isWordChar c = true := by
  simp [isWordChar, Char.isAlphanum, h]

theorem isWordChar_of_mem_toDigits {n : Nat} {c : Char} (h : c ∈ Nat.toDigits 10 n) : isWordChar c = true :=
  isWordChar_of_isDigit (Nat.isDigit_of_mem_toDigits (by decide) (by decide) h)

theorem isWordChar_of_mem_int {n : Int} {c : Char} (h : c ∈ (toString n).toList) : isWordChar c = true := by
  rw [Int.toString_eq_repr, Int.repr_eq_if] at h
  split at h
  · rw [Nat.toList_repr] at h
    exact isWordChar_of_mem_toDigits h
  · rw [String.toList_append, Nat.toList_repr] at h
    rcases List.mem_append.1 h with hsign | hdigit
    · cases List.mem_singleton.1 hsign
      rfl
    · exact isWordChar_of_mem_toDigits hdigit

/-- A number shows in decimal which one it is. -/
theorem legible_int {g : α → Int} (hg : ∀ b, g a = g b → a = b) :
    Legible Breaks Eq (fun a => (toString (g a)).toList) a :=
  .of_words (fun _ _ h => isWordChar_of_mem_int h) fun b h => hg b (Int.repr_inj.1 (String.toList_inj.1 h))

theorem isWordChar_of_mem_nat {n : Nat} {c : Char} (h : c ∈ (toString n).toList) : isWordChar c = true :=
  isWordChar_of_mem_int (n := n) h

theorem legible_nat (n : Nat) : Legible Breaks Eq (fun n : Nat => (toString n).toList) n :=
  legible_int (g := fun n : Nat => (n : Int)) fun _ => Int.ofNat_inj.1

/-! ### Hexadecimal digits -/

theorem isWordChar_hexDigit : ∀ n < 16, isWordChar (Bytes.hexDigit n) = true := by
  decide

theorem hexDigit_inj : ∀ m < 16, ∀ n < 16, Bytes.hexDigit m = Bytes.hexDigit n → m = n := by
  decide

theorem isWordChar_of_mem_hexDigits {bs : Bytes} {c : Char} (h : c ∈ bs.hexDigits) : isWordChar c = true := by
  obtain ⟨b, -, hc⟩ := List.mem_flatMap.1 h
  have hb := b.toNat_lt
  rcases List.mem_pair.1 hc with rfl | rfl
  · exact isWordChar_hexDigit _ (by omega)
  · exact isWordChar_hexDigit _ (by omega)

theorem hexDigits_inj : ∀ {bs bs' : Bytes}, bs.hexDigits = bs'.hexDigits → bs = bs'
  | [], [], _ => rfl
  | [], _ :: _, h => by cases h
  | _ :: _, [], h => by cases h
  | b :: bs, b' :: bs', h => by
    have hb := b.toNat_lt
    have hb' := b'.toNat_lt
    obtain ⟨hhigh, h⟩ := List.cons.inj h
    obtain ⟨hlow, hrest⟩ := List.cons.inj h
    have hhigh := hexDigit_inj _ (by omega) _ (by omega) hhigh
    have hlow := hexDigit_inj _ (by omega) _ (by omega) hlow
    have hhead : b = b' := UInt8.toNat_inj.1 (by omega)
    rw [hhead, hexDigits_inj hrest]

theorem isWordChar_digitChar : ∀ n < 16, isWordChar n.digitChar = true := by
  decide

theorem digitChar_inj : ∀ m < 16, ∀ n < 16, m.digitChar = n.digitChar → m = n := by
  decide

theorem isWordChar_of_mem_toDigits16 {n : Nat} {c : Char} (h : c ∈ Nat.toDigits 16 n) : isWordChar c = true := by
  induction n using Nat.strong_induction_on with
  | _ n ih =>
    rw [Nat.toDigits_eq_if (by decide)] at h
    split at h
    · rename_i hlt
      cases List.mem_singleton.1 h
      exact isWordChar_digitChar n hlt
    · rcases List.mem_append.1 h with hfront | hlast
      · exact ih (n / 16) (by omega) hfront
      · cases List.mem_singleton.1 hlast
        exact isWordChar_digitChar _ (by omega)

theorem toDigits16_inj {m n : Nat} (h : Nat.toDigits 16 m = Nat.toDigits 16 n) : m = n := by
  induction m using Nat.strong_induction_on generalizing n with
  | _ m ih =>
    rw [Nat.toDigits_eq_if (by decide), Nat.toDigits_eq_if (n := n) (by decide)] at h
    -- a number below the base is the one that has a single digit
    split at h <;> split at h
    · rename_i hm hn
      exact digitChar_inj m hm n hn (List.singleton_inj.1 h)
    · exact absurd (List.append_eq_singleton_iff.1 h.symm) (by simp)
    · exact absurd (List.append_eq_singleton_iff.1 h) (by simp)
    · rename_i hm hn
      obtain ⟨hfront, hlast⟩ := List.append_inj' h rfl
      have hdiv := ih (m / 16) (by omega) hfront
      have hmod := digitChar_inj _ (by omega) _ (by omega) (List.singleton_inj.1 hlast)
      omega

/-! ### Quoted text -/

namespace Text

/-- The characters that are escaped by a letter or sign of their own, with that letter or sign. -/
def shortEscapes : List (Char × Char) :=
  [('\x00', '0'), ('\t', 't'), ('\r', 'r'), ('\n', 'n'), ('"', '"'), ('\\', '\\')]

/-- A character stands for itself, or is escaped by a sign of its own or by its number. -/
theorem escape_cases (c : Char) : (c ≠ '"' ∧ c ≠ '\\' ∧ escape c = [c]) ∨
    (∃ sign, (c, sign) ∈ shortEscapes ∧ escape c = ['\\', sign]) ∨
    escape c = '\\' :: 'u' :: '\x7b' :: (Nat.toDigits 16 c.toNat ++ ['\x7d']) := by
  unfold escape
  by_cases hverbatim : isVerbatim c = true
  · rw [if_pos hverbatim]
    refine .inl ⟨?_, ?_, rfl⟩
    · rintro rfl
      exact absurd hverbatim (by decide)
    · rintro rfl
      exact absurd hverbatim (by decide)
  · rw [if_neg hverbatim]
    split
    all_goals first
      | exact .inr (.inl ⟨_, by decide, rfl⟩)
      | exact .inr (.inr rfl)

/-- Two signs of their own are not alike, and no sign begins a number. -/
theorem shortEscapes_inj : ∀ p ∈ shortEscapes, p.2 ≠ 'u' ∧ ∀ q ∈ shortEscapes, p.2 = q.2 → p = q := by
  decide

/-- A character shows, in the form that it has between quotes, which one it is. -/
theorem legible_escape (c : Char) : Legible Anything Eq escape c := by
  intro d x y _ _ h
  rcases escape_cases c with ⟨-, hc, hform⟩ | ⟨sign, hc, hform⟩ | hform <;>
    rcases escape_cases d with ⟨-, hd, hform'⟩ | ⟨sign', hd, hform'⟩ | hform' <;>
    rw [hform, hform'] at h
  · exact List.cons.inj h
  · exact absurd (List.cons.inj h).1 hc
  · exact absurd (List.cons.inj h).1 hc
  · exact absurd (List.cons.inj h).1.symm hd
  · obtain ⟨hsign, hrest⟩ := List.cons.inj (List.cons.inj h).2
    obtain ⟨hcd, -⟩ := Prod.mk.inj ((shortEscapes_inj _ hc).2 _ hd hsign)
    exact ⟨hcd, hrest⟩
  · exact absurd (List.cons.inj (List.cons.inj h).2).1 (shortEscapes_inj _ hc).1
  · exact absurd (List.cons.inj h).1.symm hd
  · exact absurd (List.cons.inj (List.cons.inj h).2).1.symm (shortEscapes_inj _ hd).1
  · have hnumber : Legible Anything Eq (fun n => Nat.toDigits 16 n ++ ['\x7d']) c.toNat :=
      .before (.of_words (fun _ _ => isWordChar_of_mem_toDigits16) fun _ => toDigits16_inj) rfl []
    have h := (List.cons.inj (List.cons.inj (List.cons.inj h).2).2).2
    obtain ⟨hsame, hrest⟩ := hnumber d.toNat x y trivial trivial h
    exact ⟨Char.toNat_inj.1 hsame, hrest⟩

/-- No character begins with a quote. -/
theorem escape_append_ne (c : Char) (x y : List Char) : escape c ++ x ≠ '"' :: y := by
  rcases escape_cases c with ⟨hc, -, hform⟩ | ⟨sign, -, hform⟩ | hform <;> rw [hform] <;> intro h
  · exact hc (List.cons.inj h).1
  · exact absurd (List.cons.inj h).1 (by decide)
  · exact absurd (List.cons.inj h).1 (by decide)

/-- Escaped characters show where the quote behind them stands. -/
theorem escaped_append_inj : ∀ {s t x y : List Char},
    s.flatMap escape ++ '"' :: x = t.flatMap escape ++ '"' :: y → s = t ∧ x = y
  | [], [], _, _, h => ⟨rfl, (List.cons.inj h).2⟩
  | [], d :: t, _, _, h => by
    rw [List.flatMap_cons, List.append_assoc] at h
    exact absurd h.symm (escape_append_ne d _ _)
  | c :: s, [], _, _, h => by
    rw [List.flatMap_cons, List.append_assoc] at h
    exact absurd h (escape_append_ne c _ _)
  | c :: s, d :: t, _, _, h => by
    rw [List.flatMap_cons, List.flatMap_cons, List.append_assoc, List.append_assoc] at h
    obtain ⟨rfl, htail⟩ := legible_escape c d _ _ trivial trivial h
    obtain ⟨rfl, hrest⟩ := escaped_append_inj htail
    exact ⟨rfl, hrest⟩

/-- A quoted text ends with the first quote that is not escaped. -/
theorem legible_quote (s : List Char) : Legible Anything Eq quote s := by
  intro t x y _ _ h
  simp only [quote, List.append_assoc, List.cons_append, List.nil_append, List.cons.injEq, true_and] at h
  exact escaped_append_inj h

end Text

/-! ### Binaries and doubles -/

theorem legible_binary (bytes : Bytes) : Legible Breaks Eq renderBinary bytes := by
  have hhex : Legible Breaks Eq Bytes.hexDigits bytes :=
    .of_words (fun _ _ => isWordChar_of_mem_hexDigits) fun _ => hexDigits_inj
  intro bytes' x y hx hy h
  unfold renderBinary at h
  cases hdecode : Utf8.decode bytes with
  | ok s =>
    cases hdecode' : Utf8.decode bytes' with
    | ok t =>
      rw [hdecode, hdecode'] at h
      obtain ⟨hst, hrest⟩ := Text.legible_quote s.toList t.toList x y trivial trivial h
      have hst : s = t := String.toList_inj.1 hst
      rw [Utf8.encode_of_decode hdecode, Utf8.encode_of_decode hdecode', hst]
      exact ⟨rfl, hrest⟩
    | error _ =>
      rw [hdecode, hdecode'] at h
      exact absurd (List.cons.inj h).1 (by decide)
  | error _ =>
    cases hdecode' : Utf8.decode bytes' with
    | ok t =>
      rw [hdecode, hdecode'] at h
      exact absurd (List.cons.inj h).1 (by decide)
    | error _ =>
      rw [hdecode, hdecode'] at h
      exact hhex bytes' x y hx hy (List.cons.inj (List.cons.inj h).2).2

theorem isWordChar_of_mem_positional {d : Decimal} {c : Char} (h : c ∈ d.positional) : isWordChar c = true := by
  have hzeros : ∀ {n : Nat}, c ∈ List.replicate n '0' → isWordChar c = true := fun h => by
    cases List.eq_of_mem_replicate h
    rfl
  unfold Decimal.positional at h
  dsimp only at h
  split at h
  · rcases List.mem_append.1 h with hdigit | hzero
    · exact isWordChar_of_mem_toDigits hdigit
    · exact hzeros hzero
  · split at h
    · rcases List.mem_append.1 h with hfront | hpoint
      · exact isWordChar_of_mem_toDigits (List.mem_of_mem_take hfront)
      · rcases List.mem_cons.1 hpoint with rfl | hback
        · rfl
        · exact isWordChar_of_mem_toDigits (List.mem_of_mem_drop hback)
    · rcases List.mem_append.1 h with hlead | hdigit
      · rcases List.mem_cons.1 hlead with rfl | hpoint
        · rfl
        · rcases List.mem_cons.1 hpoint with rfl | hzero
          · rfl
          · exact hzeros hzero
      · exact isWordChar_of_mem_toDigits hdigit

theorem isWordChar_of_mem_double {bits : UInt64} {c : Char} (h : c ∈ renderDouble bits) : isWordChar c = true := by
  have hsign : ∀ {p : Prop} [Decidable p], c ∈ (if p then ['-'] else []) → isWordChar c = true := fun {p} _ h => by
    split at h
    · cases List.mem_singleton.1 h
      rfl
    · cases h
  unfold renderDouble at h
  dsimp only at h
  split at h
  · have hword : ['N', 'a', 'N'].all isWordChar = true := rfl
    exact List.all_eq_true.1 hword c h
  · split at h
    · have hword : ['i', 'n', 'f'].all isWordChar = true := rfl
      rcases List.mem_append.1 h with hs | hinf
      · exact hsign hs
      · exact List.all_eq_true.1 hword c hinf
    · split at h
      · rcases List.mem_append.1 h with hs | hzero
        · exact hsign hs
        · cases List.mem_singleton.1 hzero
          rfl
      · rcases List.mem_append.1 h with hs | hdecimal
        · exact hsign hs
        · exact isWordChar_of_mem_positional hdecimal

/-! ### Rows of lines -/

/-- A line for each element, two columns further in than `indent`. -/
def rows (indent : Nat) (line : α → List Char) (as : List α) : List Char :=
  as.flatMap fun a => indentation (indent + 2) ++ line a

theorem rows_cons_append {indent : Nat} {line : α → List Char} {as : List α} {x : List Char} :
    rows indent line (a :: as) ++ x = indentation indent ++ (' ' :: ' ' :: (line a ++ (rows indent line as ++ x))) := by
  simp [rows, indentation, List.replicate_add]

/-- What is less far in than the lines ends them. -/
theorem legible_rows {indent : Nat} {line : α → List Char} {closing : Char} (hclosing : closing ≠ ' ') :
    ∀ {as bs : List α} {x y : List Char}, (∀ a ∈ as, Legible Anything R line a) →
      rows indent line as ++ (indentation indent ++ closing :: x) =
        rows indent line bs ++ (indentation indent ++ closing :: y) → List.Forall₂ R as bs ∧ x = y
  | [], [], _, _, _, h => ⟨.nil, (List.cons.inj (List.append_cancel_left h)).2⟩
  | [], b :: bs, _, _, _, h => by
    rw [rows_cons_append] at h
    exact absurd (List.cons.inj (List.append_cancel_left h)).1 hclosing
  | a :: as, [], _, _, _, h => by
    rw [rows_cons_append] at h
    exact absurd (List.cons.inj (List.append_cancel_left h)).1.symm hclosing
  | a :: as, b :: bs, _, _, hlines, h => by
    rw [List.forall_mem_cons] at hlines
    rw [rows_cons_append, rows_cons_append] at h
    have h := (List.cons.inj (List.cons.inj (List.append_cancel_left h)).2).2
    obtain ⟨hab, hrest⟩ := hlines.1 b _ _ trivial trivial h
    obtain ⟨hall, hxy⟩ := legible_rows hclosing hlines.2 hrest
    exact ⟨.cons hab hall, hxy⟩

theorem bracketed_rows_cons_append {opening closing : Char} {indent : Nat} {line : α → List Char} {as : List α}
    {x : List Char} : bracketed opening closing indent (rows indent line (a :: as)) ++ x =
      opening :: '\n' :: (rows indent line (a :: as) ++ (indentation indent ++ closing :: x)) := by
  have hne : (rows indent line (a :: as)).isEmpty = false := by simp [rows, indentation, List.replicate_succ]
  simp [bracketed, hne]

/-- Lines between brackets show how many there are, and what is on each. -/
theorem legible_bracketed {line : α → List Char} {as : List α} (opening : Char) {closing : Char} (indent : Nat)
    (hblank : closing ≠ ' ') (hbreak : closing ≠ '\n') (hlines : ∀ a ∈ as, Legible Anything R line a) :
    Legible T (List.Forall₂ R) (fun as => bracketed opening closing indent (rows indent line as)) as := by
  intro bs x y _ _ h
  cases as with
  | nil =>
    cases bs with
    | nil => exact ⟨.nil, (List.cons.inj (List.cons.inj h).2).2⟩
    | cons b bs =>
      simp only [bracketed_rows_cons_append] at h
      exact absurd (List.cons.inj (List.cons.inj h).2).1 hbreak
  | cons a as =>
    cases bs with
    | nil =>
      simp only [bracketed_rows_cons_append] at h
      exact absurd (List.cons.inj (List.cons.inj h).2).1.symm hbreak
    | cons b bs =>
      simp only [bracketed_rows_cons_append] at h
      exact legible_rows hblank hlines (List.cons.inj (List.cons.inj h).2).2

end CompactWire
