import CompactWire.Input

/-!
# CompactWire.Varint — numbers of variable length

A number is cut into groups of seven bits, least significant first, one group a byte; the top bit of a byte says that
another follows.  Numbers of 32 bits take at most five bytes, numbers of 64 bits at most ten: `Width` gives the number
of full groups and the bits left for the last byte.  A last byte that carries more bits than are left is refused, so
every form that is read stays below `2 ^ width.bits`, over-long forms included.

Signed numbers are folded onto the unsigned ones first (`zigzag`: 0, -1, 1, -2, …), so numbers near zero stay short.
-/

namespace CompactWire.Varint

/-- How many bits a number has: `groups` full groups of seven, and `top` bits in the last byte. -/
structure Width where
  groups : Nat
  top : Nat

/-- Numbers of 32 bits. -/
def Width.w32 : Width := ⟨4, 4⟩

/-- Numbers of 64 bits. -/
def Width.w64 : Width := ⟨9, 1⟩

/-- The bits of a number of this width. -/
def Width.bits (w : Width) : Nat := 7 * w.groups + w.top

/-- The bytes of a number: the fewest that hold it. -/
def encode (n : Nat) : Bytes :=
  if n < 128 then [UInt8.ofNat n]
  else UInt8.ofNat (n % 128 + 128) :: encode (n / 128)
termination_by n

variable {ι span : Type} [Input ι span]

/-- Reads a number of at most `groups` full groups and `top` bits on top of them. -/
def readGroups (top : Nat) : (groups : Nat) → EStateM Error ι Nat
  | 0 => do
    let byte ← Input.readByte
    if byte.toNat < 1 <<< top then return byte.toNat else throw .invalidVarint
  | groups + 1 => do
    let byte ← Input.readByte
    if byte.toNat < 128 then return byte.toNat
    else return byte.toNat - 128 + 128 * (← readGroups top groups)

/-- Reads a number of the given width. -/
def read (w : Width) : EStateM Error ι Nat := readGroups w.top w.groups

/-- The unsigned number that stands for a signed one. -/
def zigzag : Int → Nat
  | .ofNat n => 2 * n
  | .negSucc n => 2 * n + 1

/-- The signed number that an unsigned one stands for. -/
def unzigzag (n : Nat) : Int :=
  if n % 2 = 0 then .ofNat (n / 2) else .negSucc (n / 2)

@[simp] theorem unzigzag_zigzag (i : Int) : unzigzag (zigzag i) = i := by
  cases i with
  | ofNat n => simp [zigzag, unzigzag]
  | negSucc n =>
    have h : (2 * n + 1) / 2 = n := by omega
    simp [zigzag, unzigzag, h]

@[simp] theorem zigzag_unzigzag (n : Nat) : zigzag (unzigzag n) = n := by
  unfold unzigzag
  split <;> simp only [zigzag] <;> omega

/-- The bytes of a signed number. -/
def encodeSigned (i : Int) : Bytes := encode (zigzag i)

/-- Reads a signed number of the given width. -/
def readSigned (w : Width) : EStateM Error ι Int := return unzigzag (← read w)

end CompactWire.Varint
