import CompactWire.Text.Combining
import CompactWire.Text.Graphic

/-!
# CompactWire.Text.Quoted — text between quotes

A quoted text shows every character by itself or as an escape that begins with a backslash, the quote and the backslash
always as escapes.  So the end of the text is the first quote, and no two texts are quoted alike.
-/

namespace CompactWire.Text

/-- Whether a character stands for itself between quotes; the quote and the backslash do not. -/
def isVerbatim (c : Char) : Bool :=
  if c.toNat < 0x80 then 0x20 ≤ c.toNat && c.toNat < 0x7F && c != '"' && c != '\\'
  else isGraphic c && !isCombining c

/-- The form of a character between quotes. -/
def escape (c : Char) : List Char :=
  if isVerbatim c then [c]
  else match c with
    | '\x00' => ['\\', '0']
    | '\t' => ['\\', 't']
    | '\r' => ['\\', 'r']
    | '\n' => ['\\', 'n']
    | '"' => ['\\', '"']
    | '\\' => ['\\', '\\']
    | c => ['\\', 'u', '\x7b'] ++ Nat.toDigits 16 c.toNat ++ ['\x7d']

/-- A text between quotes. -/
def quote (text : List Char) : List Char := '"' :: text.flatMap escape ++ ['"']

end CompactWire.Text
