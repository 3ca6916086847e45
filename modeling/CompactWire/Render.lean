import CompactWire.Decimal.Shortest
import CompactWire.Header
import CompactWire.Text.Quoted
import CompactWire.Text.Utf8
import CompactWire.Value

/-!
# CompactWire.Render — records as text

A value is its type and its content.  Structs and containers that are not empty take one line for each element, two
columns further in; a binary is quoted text if it is UTF-8 and hexadecimal digits if not.  Doubles have the fewest
digits that read back, never an exponent, and no point in whole numbers.
-/

namespace CompactWire

/-- The text of a double with the given bits. -/
def renderDouble (bits : UInt64) : List Char :=
  let magnitude := bits.toNat % 1 <<< 63
  let sign := if 1 <<< 63 ≤ bits.toNat then ['-'] else []
  if 0x7FF0000000000000 < magnitude then ['N', 'a', 'N']
  else if magnitude = 0x7FF0000000000000 then sign ++ ['i', 'n', 'f']
  else if magnitude = 0 then sign ++ ['0']
  else sign ++ (Decimal.shortest magnitude).positional

/-- The text of a binary. -/
def renderBinary (bytes : Bytes) : List Char :=
  match Utf8.decode bytes with
  | .ok text => Text.quote text.toList
  | .error _ => '0' :: 'x' :: bytes.hexDigits

/-- The name of a type that a map may lack. -/
def renderType? (t : Option WireType) : List Char := (t.elim "?" WireType.name).toList

/-- So many blanks. -/
def indentation (columns : Nat) : List Char := List.replicate columns ' '

/-- Lines between brackets, or the brackets alone where there are none. -/
def bracketed (opening closing : Char) (indent : Nat) (lines : List Char) : List Char :=
  if lines.isEmpty then [opening, closing]
  else opening :: '\n' :: lines ++ indentation indent ++ [closing]

mutual

/-- The text of a value on a line that is indented by `indent` columns. -/
def Value.render (indent : Nat) : Value → List Char
  | .bool b => "bool ".toList ++ (if b then "true" else "false").toList
  | .byte n => "byte ".toList ++ (toString n.toInt).toList
  | .i16 n => "i16 ".toList ++ (toString n.toInt).toList
  | .i32 n => "i32 ".toList ++ (toString n.toInt).toList
  | .i64 n => "i64 ".toList ++ (toString n.toInt).toList
  | .double bits => "double ".toList ++ renderDouble bits
  | .binary bytes => "binary ".toList ++ renderBinary bytes
  | .list element items =>
    "list<".toList ++ element.name.toList ++ "> ".toList ++
      bracketed '[' ']' indent (renderItems (indent + 2) items)
  | .set element items =>
    "set<".toList ++ element.name.toList ++ "> ".toList ++
      bracketed '[' ']' indent (renderItems (indent + 2) items)
  | .map key value entries =>
    "map<".toList ++ renderType? key ++ ", ".toList ++ renderType? value ++ "> ".toList ++
      bracketed '\x7b' '\x7d' indent (renderEntries (indent + 2) entries)
  | .struct fields =>
    "struct ".toList ++ bracketed '\x7b' '\x7d' indent (renderFields (indent + 2) fields)

/-- The elements of a list or set, each on its line. -/
def renderItems (indent : Nat) : List Value → List Char
  | [] => []
  | v :: vs => indentation indent ++ v.render indent ++ [',', '\n'] ++ renderItems indent vs

/-- The entries of a map, each on its line. -/
def renderEntries (indent : Nat) : List (Value × Value) → List Char
  | [] => []
  | (k, v) :: rest =>
    indentation indent ++ k.render indent ++ " => ".toList ++ v.render indent ++ [',', '\n'] ++
      renderEntries indent rest

/-- The fields of a struct, each on its line behind its id. -/
def renderFields (indent : Nat) : List (Int16 × Value) → List Char
  | [] => []
  | (id, v) :: rest =>
    indentation indent ++ (toString id.toInt).toList ++ [':', ' '] ++ v.render indent ++ ['\n'] ++
      renderFields indent rest

end

/-- The text of a record. -/
def Record.render (r : Record) : String := String.ofList ((Value.struct r).render 0)

/-- The text of a message header.  The name stands as it is. -/
def MessageHeader.render (h : MessageHeader) : String :=
  s!"message {h.name} (kind={h.kind}, seq_id={h.seqId.toInt})"

end CompactWire
