import WideColumn.DataType.Basic
import WideColumn.Uuid.Time
import WideColumn.Value

/-!
# Unpacking

`DataType.unpack` reads an encoding back. Fixed-width types insist on their width, text types on
their character set, and lists and maps on using up all bytes. A composite is read frame by frame;
it may have fewer components than its type declares, and its end bytes are not looked at.
-/

namespace WideColumn.DataType

/-! ## Simple types -/

/-- The signed integer that eight bytes hold in two's complement. -/
def longOf (bs : Bytes) : Int64 := (UInt64.ofNat (Bytes.wordOf bs)).toInt64

/-- Insists on a width. -/
def exactly (type : DataType) (width : Nat) (bs : Bytes) : Except MarshalError Bytes :=
  if bs.length = width then .ok bs else .error (.truncated type.head width bs.length)

/-- Reads sixteen bytes as a UUID. -/
def unpackUuid (type : DataType) (bs : Bytes) : Except MarshalError Value :=
  match Uuid.ofBytes? bs with
  | some u => .ok (.uuid u)
  | none => .error (.truncated type.head 16 bs.length)

/-- Reads bytes as text. -/
def unpackText (bs : Bytes) : Except MarshalError Value :=
  match Utf8.textOf bs with
  | .ok s => .ok (.text s)
  | .error fault => .error (.invalidEncoding (head .utf8) (.notUtf8 fault))

/-- Unpacks under the types without parameters. -/
def unpackSimple (type : DataType) (bs : Bytes) : Except MarshalError Value :=
  match type with
  | .ascii =>
    if bs.all (· < 0x80) then unpackText bs
    else .error (.invalidEncoding type.head .notAscii)
  | .utf8 => unpackText bs
  | .long | .counter => (fun bs => .long (longOf bs)) <$> exactly type 8 bs
  | .date => (fun bs => .date (longOf bs)) <$> exactly type 8 bs
  | .integer => (fun bs => .long (Int64.ofNat (Bytes.wordOf bs))) <$> exactly type 4 bs
  | .boolean => (fun bs => .boolean (bs.any (· != 0))) <$> exactly type 1 bs
  | .lexicalUuid | .timeUuid | .uuid => unpackUuid type bs
  | .bytes | .composite _ | .list _ | .map _ _ => .ok (.bytes bs)

/-! ## Fields -/

/-- Splits `n` bytes off, on behalf of a type. -/
def takeBytes (type : DataType) (n : Nat) (bs : Bytes) : Except MarshalError (Bytes × Bytes) :=
  match Bytes.takeExact n bs with
  | .ok split => .ok split
  | .error actual => .error (.truncated type.head n actual)

/-- Splits a two-byte word off. -/
def takeWord (type : DataType) (bs : Bytes) : Except MarshalError (Nat × Bytes) := do
  let (word, rest) ← takeBytes type 2 bs
  return (Bytes.wordOf word, rest)

/-- Splits a field off whose length stands in front of it. -/
def takeField (type : DataType) (bs : Bytes) : Except MarshalError (Bytes × Bytes) := do
  let (length, rest) ← takeWord type bs
  takeBytes type length rest

/-- Reads `count` items one after the other and answers them with the bytes left over. -/
def takeMany {α : Type} (item : Bytes → Except MarshalError (α × Bytes)) :
    Nat → Bytes → Except MarshalError (List α × Bytes)
  | 0, bs => .ok ([], bs)
  | count + 1, bs => do
    let (first, rest) ← item bs
    let (others, rest) ← takeMany item count rest
    return (first :: others, rest)

/-- Reads a count and that many items, which have to use up all bytes. -/
def takeCounted {α : Type} (type : DataType) (item : Bytes → Except MarshalError (α × Bytes))
    (bs : Bytes) : Except MarshalError (List α) := do
  let (count, rest) ← takeWord type bs
  let (items, rest) ← takeMany item count rest
  if rest.isEmpty then return items
  else throw (.invalidEncoding type.head (.trailing rest.length))

/-! ## All types -/

mutual

/-- Reads bytes as a value of a type. -/
def unpack (type : DataType) (bs : Bytes) : Except MarshalError Value :=
  match type with
  | .composite types => .composite <$> unpackComponents types.length types bs
  | .list element => .list <$> takeCounted (.list element) (fun bs => do
      let (field, rest) ← takeField (.list element) bs
      return (← unpack element field, rest)) bs
  | .map key value => .map <$> takeCounted (.map key value) (fun bs => do
      let (field, rest) ← takeField (.map key value) bs
      let k ← unpack key field
      let (field, rest) ← takeField (.map key value) rest
      return ((k, ← unpack value field), rest)) bs
  | type => unpackSimple type bs

/-- Reads frames until the bytes are used up. -/
def unpackComponents (declared : Nat) : List DataType → Bytes → Except MarshalError (List Value)
  | _, [] => .ok []
  | [], _ :: _ =>
    .error (.invalidEncoding (head (.composite [])) (.tooManyComponents declared))
  | type :: types, b :: bs => do
    let (field, rest) ← takeField (.composite []) (b :: bs)
    let (_, rest) ← takeBytes (.composite []) 1 rest
    let first ← unpack type field
    let others ← unpackComponents declared types rest
    return first :: others

end

end WideColumn.DataType
