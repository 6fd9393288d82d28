import WideColumn.Bytes

/-!
# UTF-8

Writes characters as UTF-8 and reads them back. The reader refuses the first sequence that is not
the shortest encoding of a character, and its refusal says where that sequence starts and how many
of its bytes could have begun one.

- `encode` writes one to four bytes per character;
- `decode` accepts exactly the image of `encode`, and otherwise answers a `Fault`.
-/

namespace WideColumn.Utf8

/-! ## Writing -/

/-- The byte `10xxxxxx` that carries the low six bits of `n`. -/
def tailByte (n : Nat) : UInt8 := UInt8.ofNat (0x80 + n % 0x40)

/-- One code point, in the fewest bytes that hold it. Half of a surrogate pair is written like any
other code point of its size, although no reader takes it back. -/
def encodePoint (n : Nat) : Bytes :=
  if n < 0x80 then [UInt8.ofNat n]
  else if n < 0x800 then [UInt8.ofNat (0xC0 + n / 0x40), tailByte n]
  else if n < 0x10000 then
    [UInt8.ofNat (0xE0 + n / 0x1000), tailByte (n / 0x40), tailByte n]
  else
    [UInt8.ofNat (0xF0 + n / 0x40000), tailByte (n / 0x1000), tailByte (n / 0x40), tailByte n]

def encodeChar (c : Char) : Bytes := encodePoint c.toNat

/-- A text as its characters' encodings, one after the other. -/
def encode (cs : List Char) : Bytes := cs.flatMap encodeChar

/-! ## Reading -/

/-- Why a byte string is not UTF-8: everything before `offset` is, and the sequence there either
ends with the input (`none`) or breaks off after `length` bytes. -/
structure Fault where
  offset : Nat
  length : Option Nat
  deriving DecidableEq, Repr

def Fault.message : Fault → String
  | ⟨offset, none⟩ => s!"incomplete utf-8 byte sequence from index {offset}"
  | ⟨offset, some length⟩ =>
    s!"invalid utf-8 sequence of {length} bytes from index {offset}"

/-- What a first byte announces. The second byte of a longer sequence has to lie in `low … high`,
which leaves out overlong forms, surrogates and numbers above the last character. -/
inductive Lead where
  | single
  | double
  | triple (low high : UInt8)
  | quadruple (low high : UInt8)
  | stray
  deriving DecidableEq, Repr

/-- The sequence that starts with this byte. -/
def Lead.of (b : UInt8) : Lead :=
  if b < 0x80 then .single
  else if b < 0xC2 then .stray
  else if b < 0xE0 then .double
  else if b = 0xE0 then .triple 0xA0 0xBF
  else if b = 0xED then .triple 0x80 0x9F
  else if b < 0xF0 then .triple 0x80 0xBF
  else if b = 0xF0 then .quadruple 0x90 0xBF
  else if b < 0xF4 then .quadruple 0x80 0xBF
  else if b = 0xF4 then .quadruple 0x80 0x8F
  else .stray

def isTail (b : UInt8) : Bool := 0x80 ≤ b && b ≤ 0xBF

def tailBits (b : UInt8) : Nat := b.toNat - 0x80

/-- Reads characters from `offset` on; `offset` only serves the report of a fault. -/
def decodeFrom (offset : Nat) : Bytes → Except Fault (List Char)
  | [] => .ok []
  | b₀ :: r₀ =>
    match Lead.of b₀ with
    | .single => (Char.ofNat b₀.toNat :: ·) <$> decodeFrom (offset + 1) r₀
    | .stray => .error ⟨offset, some 1⟩
    | .double =>
      match r₀ with
      | [] => .error ⟨offset, none⟩
      | b₁ :: r₁ =>
        if isTail b₁ then
          (Char.ofNat ((b₀.toNat - 0xC0) * 0x40 + tailBits b₁) :: ·) <$> decodeFrom (offset + 2) r₁
        else .error ⟨offset, some 1⟩
    | .triple low high =>
      match r₀ with
      | [] => .error ⟨offset, none⟩
      | b₁ :: r₁ =>
        if low ≤ b₁ && b₁ ≤ high then
          match r₁ with
          | [] => .error ⟨offset, none⟩
          | b₂ :: r₂ =>
            if isTail b₂ then
              (Char.ofNat ((b₀.toNat - 0xE0) * 0x1000 + tailBits b₁ * 0x40 + tailBits b₂) :: ·)
                <$> decodeFrom (offset + 3) r₂
            else .error ⟨offset, some 2⟩
        else .error ⟨offset, some 1⟩
    | .quadruple low high =>
      match r₀ with
      | [] => .error ⟨offset, none⟩
      | b₁ :: r₁ =>
        if low ≤ b₁ && b₁ ≤ high then
          match r₁ with
          | [] => .error ⟨offset, none⟩
          | b₂ :: r₂ =>
            if isTail b₂ then
              match r₂ with
              | [] => .error ⟨offset, none⟩
              | b₃ :: r₃ =>
                if isTail b₃ then
                  (Char.ofNat ((b₀.toNat - 0xF0) * 0x40000 + tailBits b₁ * 0x1000
                    + tailBits b₂ * 0x40 + tailBits b₃) :: ·) <$> decodeFrom (offset + 4) r₃
                else .error ⟨offset, some 3⟩
            else .error ⟨offset, some 2⟩
        else .error ⟨offset, some 1⟩

def decode (bs : Bytes) : Except Fault (List Char) := decodeFrom 0 bs

def bytesOf (s : String) : Bytes := encode s.toList

def textOf (bs : Bytes) : Except Fault String := String.ofList <$> decode bs

end WideColumn.Utf8
