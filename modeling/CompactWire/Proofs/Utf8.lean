import CompactWire.Text.Utf8

/-!
# CompactWire.Proofs.Utf8 — texts there and back

The bytes of a text are read as that text (`decode_text`), and no other bytes are (`encode_of_decode`).  A character
takes one to four bytes; reading goes through them with one open sequence, and at the last byte it has the bits of the
character (`scan_char`, and the other way round `of_scan_cons`).
-/

namespace CompactWire.Utf8

variable {pos n : Nat} {s : Sequence} {read cs : List Char} {bs : Bytes}

/-! ### One byte -/

theorem scan_ascii (h : n < 0x80) :
    scan pos none read (UInt8.ofNat n :: bs) = scan (pos + 1) none (Char.ofNat n :: read) bs := by
  rw [scan, UInt8.toNat_ofNat_of_lt' (Nat.lt_trans h (by decide)), if_pos h]

theorem scan_open (h : n < 256) (hlow : 0x80 ≤ n) (hopen : Sequence.open? pos n = some s) :
    scan pos none read (UInt8.ofNat n :: bs) = scan (pos + 1) (some s) read bs := by
  rw [scan, UInt8.toNat_ofNat_of_lt' h, if_neg (by omega), hopen]

theorem scan_last (h : n < 256) (hlow : s.low ≤ n) (hhigh : n ≤ s.high) (hmore : s.more = 1) :
    scan pos (some s) read (UInt8.ofNat n :: bs) =
      scan (pos + 1) none (Char.ofNat (s.bits * 64 + (n - 0x80)) :: read) bs := by
  rw [scan, UInt8.toNat_ofNat_of_lt' h, if_pos ⟨hlow, hhigh⟩, if_pos hmore]

theorem scan_more (h : n < 256) (hlow : s.low ≤ n) (hhigh : n ≤ s.high) (hmore : s.more ≠ 1) :
    scan pos (some s) read (UInt8.ofNat n :: bs) = scan (pos + 1)
      (some ⟨s.start, s.seen + 1, s.more - 1, 0x80, 0xBF, s.bits * 64 + (n - 0x80)⟩) read bs := by
  rw [scan, UInt8.toNat_ofNat_of_lt' h, if_pos ⟨hlow, hhigh⟩, if_neg hmore]

/-! ### First bytes

Each is followed by the six bits below those that it brings. -/

theorem open?_two {v : Nat} (hlow : 0x80 ≤ v) (hhigh : v < 0x800) :
    Sequence.open? pos (v / 64 + 192) = some ⟨pos, 1, 1, 0x80, 0xBF, v / 64⟩ := by
  unfold Sequence.open?
  rw [if_neg (by omega), if_pos (by omega), Nat.add_sub_cancel]

/-- The bounds on the second byte let all characters of three bytes pass, as they are neither shorter nor surrogates. -/
theorem exists_open?_three (pos : Nat) {v : Nat} (hlow : 0x800 ≤ v) (hhigh : v < 0x10000)
    (hvalid : v < 0xD800 ∨ 0xDFFF < v) :
    ∃ low high, Sequence.open? pos (v / 4096 + 224) = some ⟨pos, 1, 2, low, high, v / 4096⟩ ∧
      low ≤ v / 64 % 64 + 128 ∧ v / 64 % 64 + 128 ≤ high := by
  unfold Sequence.open?
  rw [if_neg (by omega), if_neg (by omega)]
  by_cases h0 : v / 4096 = 0
  · rw [h0]
    exact ⟨0xA0, 0xBF, rfl, by omega, by omega⟩
  · rw [if_neg (by omega)]
    by_cases hD : v / 4096 = 13
    · rw [hD]
      exact ⟨0x80, 0x9F, rfl, by omega, by omega⟩
    · rw [if_neg (by omega), if_pos (by omega), Nat.add_sub_cancel]
      exact ⟨0x80, 0xBF, rfl, by omega, by omega⟩

/-- Likewise for four bytes, which are not shorter and do not go beyond the last code point. -/
theorem exists_open?_four (pos : Nat) {v : Nat} (hlow : 0x10000 ≤ v) (hhigh : v < 0x110000) :
    ∃ low high, Sequence.open? pos (v / 262144 + 240) = some ⟨pos, 1, 3, low, high, v / 262144⟩ ∧
      low ≤ v / 4096 % 64 + 128 ∧ v / 4096 % 64 + 128 ≤ high := by
  unfold Sequence.open?
  rw [if_neg (by omega), if_neg (by omega), if_neg (by omega), if_neg (by omega), if_neg (by omega)]
  by_cases h0 : v / 262144 = 0
  · rw [h0]
    exact ⟨0x90, 0xBF, rfl, by omega, by omega⟩
  · rw [if_neg (by omega)]
    by_cases h4 : v / 262144 = 4
    · rw [h4]
      exact ⟨0x80, 0x8F, rfl, by omega, by omega⟩
    · rw [if_pos (by omega), Nat.add_sub_cancel]
      exact ⟨0x80, 0xBF, rfl, by omega, by omega⟩

/-! ### Characters and texts -/

variable {v : Nat}

theorem scan_two (hlow : 0x80 ≤ v) (hhigh : v < 0x800) :
    scan pos none read (UInt8.ofNat (v / 64 + 192) :: UInt8.ofNat (v % 64 + 128) :: bs) =
      scan (pos + 2) none (Char.ofNat v :: read) bs := by
  have hbits : v / 64 * 64 + (v % 64 + 128 - 0x80) = v := by omega
  rw [scan_open (by omega) (by omega) (open?_two hlow hhigh),
    scan_last (by omega) (by dsimp only; omega) (by dsimp only; omega) rfl, hbits]

theorem scan_three (hlow : 0x800 ≤ v) (hhigh : v < 0x10000) (hvalid : v < 0xD800 ∨ 0xDFFF < v) :
    scan pos none read (UInt8.ofNat (v / 4096 + 224) :: UInt8.ofNat (v / 64 % 64 + 128) ::
      UInt8.ofNat (v % 64 + 128) :: bs) = scan (pos + 3) none (Char.ofNat v :: read) bs := by
  have hbits : (v / 4096 * 64 + (v / 64 % 64 + 128 - 0x80)) * 64 + (v % 64 + 128 - 0x80) = v := by omega
  obtain ⟨low, high, hopen, hsecond, hsecond'⟩ := exists_open?_three pos hlow hhigh hvalid
  rw [scan_open (by omega) (by omega) hopen, scan_more (by omega) hsecond hsecond' (by simp),
    scan_last (by omega) (by dsimp only; omega) (by dsimp only; omega) rfl, hbits]

theorem scan_four (hlow : 0x10000 ≤ v) (hhigh : v < 0x110000) :
    scan pos none read (UInt8.ofNat (v / 262144 + 240) :: UInt8.ofNat (v / 4096 % 64 + 128) ::
      UInt8.ofNat (v / 64 % 64 + 128) :: UInt8.ofNat (v % 64 + 128) :: bs) =
      scan (pos + 4) none (Char.ofNat v :: read) bs := by
  have hbits : ((v / 262144 * 64 + (v / 4096 % 64 + 128 - 0x80)) * 64 + (v / 64 % 64 + 128 - 0x80)) * 64 +
      (v % 64 + 128 - 0x80) = v := by omega
  obtain ⟨low, high, hopen, hsecond, hsecond'⟩ := exists_open?_four pos hlow hhigh
  rw [scan_open (by omega) (by omega) hopen, scan_more (by omega) hsecond hsecond' (by simp),
    scan_more (by omega) (by dsimp only; omega) (by dsimp only; omega) (by simp),
    scan_last (by omega) (by dsimp only; omega) (by dsimp only; omega) rfl, hbits]

/-- The bytes of a character are read as the character. -/
theorem scan_char (c : Char) (pos : Nat) (read : List Char) (bs : Bytes) :
    ∃ pos', scan pos none read (String.utf8EncodeChar c ++ bs) = scan pos' none (c :: read) bs := by
  have hvalid : c.val.toNat < 0xD800 ∨ 0xDFFF < c.val.toNat ∧ c.val.toNat < 0x110000 := c.valid
  have hchar : Char.ofNat c.val.toNat = c := Char.ofNat_toNat c
  unfold String.utf8EncodeChar
  dsimp only
  generalize c.val.toNat = v at hvalid hchar ⊢
  subst hchar
  by_cases h₁ : v ≤ 127
  · rw [if_pos h₁]
    exact ⟨pos + 1, scan_ascii (by omega)⟩
  rw [if_neg h₁]
  by_cases h₂ : v ≤ 2047
  · have hlead : v / 64 % 32 = v / 64 := Nat.mod_eq_of_lt (by omega)
    rw [if_pos h₂, hlead]
    exact ⟨pos + 2, scan_two (by omega) (by omega)⟩
  rw [if_neg h₂]
  by_cases h₃ : v ≤ 65535
  · have hlead : v / 4096 % 16 = v / 4096 := Nat.mod_eq_of_lt (by omega)
    rw [if_pos h₃, hlead]
    exact ⟨pos + 3, scan_three (by omega) (by omega) (by omega)⟩
  · have hlead : v / 262144 % 8 = v / 262144 := Nat.mod_eq_of_lt (by omega)
    rw [if_neg h₃, hlead]
    exact ⟨pos + 4, scan_four (by omega) (by omega)⟩

theorem scan_chars : ∀ (cs : List Char) (pos : Nat) (read : List Char),
    scan pos none read (cs.flatMap String.utf8EncodeChar) = .ok (read.reverse ++ cs)
  | [], _, read => by
    rw [List.append_nil]
    rfl
  | c :: cs, pos, read => by
    obtain ⟨pos', hscan⟩ := scan_char c pos read (cs.flatMap String.utf8EncodeChar)
    rw [List.flatMap_cons, hscan, scan_chars cs, List.reverse_cons, List.append_assoc]
    rfl

/-- **Texts come back**: the bytes of any text decode to the text. -/
theorem decode_text (s : String) : decode (encode s) = .ok s := by
  unfold decode encode
  rw [scan_chars]
  exact congrArg Except.ok String.ofList_toList

/-! ### Bytes that decode -/

/-- In the middle of a character there is another byte of it. -/
theorem of_scan_some (h : scan pos (some s) read bs = .ok cs) : ∃ b rest, bs = b :: rest ∧
    (s.low ≤ b.toNat ∧ b.toNat ≤ s.high) ∧
    (s.more = 1 → scan (pos + 1) none (Char.ofNat (s.bits * 64 + (b.toNat - 0x80)) :: read) rest = .ok cs) ∧
    (s.more ≠ 1 → scan (pos + 1)
      (some ⟨s.start, s.seen + 1, s.more - 1, 0x80, 0xBF, s.bits * 64 + (b.toNat - 0x80)⟩) read rest = .ok cs) := by
  cases bs with
  | nil =>
    rw [scan] at h
    cases h
  | cons b rest =>
    rw [scan] at h
    dsimp only at h
    split at h
    · rename_i hbounds
      refine ⟨b, rest, rfl, hbounds, fun hmore => ?_, fun hmore => ?_⟩
      · rwa [if_pos hmore] at h
      · rwa [if_neg hmore] at h
    · cases h

/-- What a first byte opens: it tells the number of bytes, and what the second has to be between. -/
theorem of_open? (h : Sequence.open? pos n = some s) :
    (s.more = 1 ∧ 0xC2 ≤ n ∧ n < 0xE0 ∧ s.bits = n - 0xC0 ∧ s.low = 0x80 ∧ s.high = 0xBF) ∨
    (s.more = 2 ∧ 0xE0 ≤ n ∧ n < 0xF0 ∧ s.bits = n - 0xE0 ∧ 0x80 ≤ s.low ∧ s.high ≤ 0xBF ∧
      (n = 0xE0 → s.low = 0xA0) ∧ (n = 0xED → s.high = 0x9F)) ∨
    (s.more = 3 ∧ 0xF0 ≤ n ∧ n ≤ 0xF4 ∧ s.bits = n - 0xF0 ∧ 0x80 ≤ s.low ∧ s.high ≤ 0xBF ∧
      (n = 0xF0 → s.low = 0x90) ∧ (n = 0xF4 → s.high = 0x8F)) := by
  unfold Sequence.open? at h
  repeat' split at h
  all_goals cases h
  all_goals dsimp only
  all_goals omega

theorem toNat_ofNat (hvalid : v < 0xD800 ∨ 0xDFFF < v ∧ v < 0x110000) : (Char.ofNat v).val.toNat = v := by
  have hchar : Char.ofNat v = Char.ofNatAux v hvalid := dif_pos hvalid
  rw [hchar]
  rfl

/-- The next character of a text that decodes. -/
theorem of_scan_cons {b : UInt8} (h : scan pos none read (b :: bs) = .ok cs) : ∃ c pos' rest,
    b :: bs = String.utf8EncodeChar c ++ rest ∧ scan pos' none (c :: read) rest = .ok cs := by
  have hb := b.toNat_lt
  have hbyte : ∀ {b : UInt8} {n : Nat}, n = b.toNat → UInt8.ofNat n = b := fun h => by
    rw [h, UInt8.ofNat_toNat]
  rw [scan] at h
  split at h
  · rename_i hascii
    refine ⟨_, _, bs, ?_, h⟩
    unfold String.utf8EncodeChar
    rw [toNat_ofNat (by omega), if_pos (by omega), hbyte rfl]
    rfl
  · split at h
    · cases h
    · rename_i s hopen
      obtain ⟨b₂, bs₂, rfl, hb₂, hlast, hmore⟩ := of_scan_some h
      rcases of_open? hopen with ⟨h1, hlead⟩ | ⟨h2, hlead⟩ | ⟨h3, hlead⟩
      · refine ⟨_, _, bs₂, ?_, hlast h1⟩
        unfold String.utf8EncodeChar
        rw [toNat_ofNat (by omega), if_neg (by omega), if_pos (by omega), hbyte (b := b) (by omega),
          hbyte (b := b₂) (by omega)]
        rfl
      · obtain ⟨b₃, bs₃, rfl, hb₃, hlast, -⟩ := of_scan_some (hmore (by omega))
        dsimp only at hb₃ hlast
        refine ⟨_, _, bs₃, ?_, hlast (by omega)⟩
        unfold String.utf8EncodeChar
        rw [toNat_ofNat (by omega), if_neg (by omega), if_neg (by omega), if_pos (by omega), hbyte (b := b) (by omega),
          hbyte (b := b₂) (by omega), hbyte (b := b₃) (by omega)]
        rfl
      · obtain ⟨b₃, bs₃, rfl, hb₃, -, hmore⟩ := of_scan_some (hmore (by omega))
        dsimp only at hb₃ hmore
        obtain ⟨b₄, bs₄, rfl, hb₄, hlast, -⟩ := of_scan_some (hmore (by omega))
        dsimp only at hb₄ hlast
        refine ⟨_, _, bs₄, ?_, hlast (by omega)⟩
        unfold String.utf8EncodeChar
        rw [toNat_ofNat (by omega), if_neg (by omega), if_neg (by omega), if_neg (by omega), hbyte (b := b) (by omega),
          hbyte (b := b₂) (by omega), hbyte (b := b₃) (by omega), hbyte (b := b₄) (by omega)]
        rfl

theorem of_scan (bs : Bytes) (pos : Nat) (read : List Char) (h : scan pos none read bs = .ok cs) :
    ∃ text, cs = read.reverse ++ text ∧ bs = text.flatMap String.utf8EncodeChar := by
  match bs with
  | [] =>
    rw [scan] at h
    cases h
    exact ⟨[], (List.append_nil _).symm, rfl⟩
  | b :: bs =>
    obtain ⟨c, pos', rest, hsplit, hrest⟩ := of_scan_cons h
    have hshorter : rest.length < (b :: bs).length := by
      rw [hsplit, List.length_append]
      have := String.length_utf8EncodeChar c
      have := c.utf8Size_pos
      omega
    obtain ⟨text, rfl, rfl⟩ := of_scan rest pos' (c :: read) hrest
    refine ⟨c :: text, ?_, hsplit⟩
    rw [List.reverse_cons, List.append_assoc]
    rfl
termination_by bs.length
decreasing_by exact hshorter

/-- **Texts come from their bytes alone**: what decodes is the bytes of the text. -/
theorem encode_of_decode {t : String} (h : decode bs = .ok t) : bs = encode t := by
  unfold decode at h
  cases hscan : scan 0 none [] bs with
  | error f =>
    rw [hscan] at h
    cases h
  | ok cs =>
    rw [hscan] at h
    cases h
    obtain ⟨text, rfl, rfl⟩ := of_scan bs 0 [] hscan
    unfold encode
    rw [String.toList_ofList]

end CompactWire.Utf8
