import WideColumn.DataType.Basic
import WideColumn.Uuid.Time
import WideColumn.Value

/-!
# Packing

`DataType.pack` writes a value in a type's encoding. Simple types take the kinds of values they
stand for and a few that convert without loss: text and bytes for each other, an `int` for a long, a
long for a date, a text or sixteen bytes for a UUID. A composite is a run of frames
`[length][bytes][end byte]`; lists and maps are a count followed by `[length][bytes]` fields.
-/

namespace WideColumn.DataType

/-! ## Simple types -/

/-- The eight bytes of a signed integer in two's complement. -/
def longBytes (n : Int64) : Bytes := Bytes.wordBytes 8 n.toUInt64.toNat

/-- The refusal of a value whose kind the type does not take. -/
def unexpected {α : Type} (type : DataType) (v : Value) : Except MarshalError α :=
  .error (.invalidValue type.head (.unexpected v.kind))

/-- The text a value holds, as characters. -/
def textFor (type : DataType) : Value → Except MarshalError (List Char)
  | .text s => .ok s.toList
  | .bytes b =>
    match Utf8.decode b with
    | .ok cs => .ok cs
    | .error fault => .error (.invalidValue type.head (.notUtf8 fault))
  | v => unexpected type v

/-- The UUID a value holds or spells. -/
def uuidFor (type : DataType) : Value → Except MarshalError Uuid
  | .uuid u => .ok u
  | .text s =>
    match Uuid.parse? s with
    | some u => .ok u
    | none => .error (.invalidValue type.head .notUuid)
  | .bytes b =>
    match Uuid.ofBytes? b with
    | some u => .ok u
    | none => .error (.invalidValue type.head .notUuid)
  | v => unexpected type v

/-- A multiplication of 64-bit integers that stays at the nearer end of the range. -/
def saturatingMul (a b : Int64) : Int64 :=
  Int64.ofInt (max Int64.minValue.toInt (min Int64.maxValue.toInt (a.toInt * b.toInt)))

/-- The moment a value stands for at the end of a slice over time-based UUIDs, in microseconds. -/
def momentOf? : Value → Option Int64
  | .long micros => some micros
  | .date millis => some (saturatingMul millis 1000)
  | _ => none

/-- A moment as a slice bound: the first or the last UUID that carries it. -/
def packMoment (micros : Int64) (ctx : PackContext) : Except MarshalError Bytes :=
  match ctx.isName, ctx.sliceEnd with
  | true, .start _ => .ok (Uuid.lowest micros.toInt).bytes
  | true, .finish _ => .ok (Uuid.highest micros.toInt).bytes
  | _, _ => .error (.invalidValue (head .timeUuid) .momentOutsideSlice)

/-- Packs under the types without parameters. -/
def packSimple (type : DataType) (v : Value) (ctx : PackContext) : Except MarshalError Bytes :=
  match type with
  | .bytes =>
    match v with
    | .bytes b => .ok b
    | .text s => .ok (Utf8.bytesOf s)
    | _ => unexpected type v
  | .ascii => do
    let cs ← textFor type v
    if cs.all (·.toNat < 0x80) then .ok (Utf8.encode cs)
    else .error (.invalidValue type.head .notAscii)
  | .utf8 => Utf8.encode <$> textFor type v
  | .long | .counter =>
    match v with
    | .long n => .ok (longBytes n)
    | .int n => .ok (longBytes n.toInt64)
    | _ => unexpected type v
  | .date =>
    match v with
    | .date n | .long n => .ok (longBytes n)
    | _ => unexpected type v
  | .integer =>
    match v with
    | .long n =>
      if 0 ≤ n.toInt ∧ n.toInt < UInt32.size then .ok (Bytes.wordBytes 4 n.toInt.toNat)
      else .error (.invalidValue type.head (.doesNotFit n))
    | _ => unexpected type v
  | .boolean =>
    match v with
    | .boolean b => .ok [if b then 1 else 0]
    | _ => unexpected type v
  | .lexicalUuid | .uuid => (·.bytes) <$> uuidFor type v
  | .timeUuid =>
    match momentOf? v with
    | some micros => packMoment micros ctx
    | none => do
      let u ← uuidFor type v
      if u.version = 1 then .ok u.bytes
      else .error (.invalidValue type.head (.wrongVersion u.version))
  | .composite _ | .list _ | .map _ _ => unexpected type v

/-! ## Parts -/

def maxShort : Nat := 0xFFFF

/-- One component of a composite, closed by its end byte. -/
def frame (index : Nat) (packed : Bytes) (endByte : UInt8) : Except MarshalError Bytes :=
  if packed.length ≤ maxShort then .ok (Bytes.shortField packed ++ [endByte])
  else .error (.invalidValue (head (.composite [])) (.longComponent index packed.length))

/-- One element of a list or map. -/
def element (type : DataType) (packed : Bytes) : Except MarshalError Bytes :=
  if packed.length ≤ maxShort then .ok (Bytes.shortField packed)
  else .error (.invalidValue type.head (.longElement packed.length))

/-- The count in front of the elements of a list or map. -/
def countWord (type : DataType) (count : Nat) : Except MarshalError Bytes :=
  if count ≤ maxShort then .ok (Bytes.wordBytes 2 count)
  else .error (.invalidValue type.head (.tooManyElements count))

/-! ## All types -/

mutual

/-- Packs a value under a type for a use. -/
def pack (type : DataType) (v : Value) (ctx : PackContext) : Except MarshalError Bytes :=
  match type with
  | .composite types =>
    match v with
    | .composite [] =>
      if ctx.isName && ctx.sliceEnd != .exact then .ok []
      else .error (.invalidValue (head (.composite [])) .noComponents)
    | .composite vs =>
      if vs.length ≤ types.length then packComponents types 0 vs ctx
      else .error (.invalidValue (head (.composite []))
        (.tooManyComponents vs.length types.length))
    | _ => .error (.invalidValue (head (.composite [])) (.notComposite v.kind))
  | .list item =>
    match v with
    | .list vs => do
      let count ← countWord (.list item) vs.length
      let items ← vs.mapM fun v => do element (.list item) (← pack item v .value)
      return count ++ items.flatten
    | _ => .error (.invalidValue (head (.list item)) (.notList v.kind))
  | .map key value =>
    match v with
    | .map pairs => do
      let count ← countWord (.map key value) pairs.length
      let items ← pairs.mapM fun (k, v) => do
        let k ← element (.map key value) (← pack key k .value)
        let v ← element (.map key value) (← pack value v .value)
        return k ++ v
      return count ++ items.flatten
    | _ => .error (.invalidValue (head (.map key value)) (.notMap v.kind))
  | type => packSimple type v ctx

/-- Packs components in order. Only the last of them is packed for the composite's own use; those
before it are exact names. -/
def packComponents : List DataType → Nat → List Value → PackContext → Except MarshalError Bytes
  | type :: types, index, v :: vs, ctx => do
    let last := vs.isEmpty
    let packed ← pack type v (if last then ctx else .name)
    let first ← frame index packed (if last then ctx.endOfComponent else 0)
    let rest ← packComponents types (index + 1) vs ctx
    return first ++ rest
  | _, _, _, _ => .ok []

end

end WideColumn.DataType
