import WideColumn.Text.Hex

/-!
# UUIDs

A UUID is sixteen bytes. This module reads and writes its texts and reads its version.

- `Uuid.hyphenated` is the written form: lower-case digits in groups of 8, 4, 4, 4 and 12;
- `Uuid.parse?` reads that form in either case, plain, in braces, or after `urn:uuid:`, and also
  the 32 digits without hyphens;
- `Uuid.parseChars?_of_mem_spellings` says that all these are read as the UUID they spell.
-/

namespace WideColumn

/-- A UUID: sixteen bytes. -/
structure Uuid where
  bytes : Bytes
  length_bytes : bytes.length = 16
  deriving DecidableEq

namespace Uuid

instance : Repr Uuid := ⟨fun u _ => repr (String.ofList (Hex.encode u.bytes))⟩

/-- The UUID made of these bytes, if there are sixteen. -/
def ofBytes? (bs : Bytes) : Option Uuid :=
  if h : bs.length = 16 then some ⟨bs, h⟩ else none

@[simp] theorem ofBytes?_bytes (u : Uuid) : ofBytes? u.bytes = some u := by
  simp [ofBytes?, u.length_bytes]

/-- The version nibble of sixteen raw bytes. -/
def versionOf (bs : Bytes) : Nat := (bs.getD 6 0).toNat / 16

def version (u : Uuid) : Nat := versionOf u.bytes

/-! ## Texts -/

/-- The digits in groups of 8, 4, 4, 4 and 12 with hyphens between them. -/
def hyphenate (digits : List Char) : List Char :=
  digits.take 8 ++ '-' :: (digits.drop 8).take 4 ++ '-' :: (digits.drop 12).take 4
    ++ '-' :: (digits.drop 16).take 4 ++ '-' :: digits.drop 20

def hyphenated (u : Uuid) : String := String.ofList (hyphenate (Hex.encode u.bytes))

def ofDigits? (digits : List Char) : Option Uuid := Hex.decode? digits >>= ofBytes?

/-- Removes the hyphens of a grouped text; a hyphen elsewhere, or none where one belongs, is
refused. -/
def ungroup? (cs : List Char) : Option (List Char) :=
  let digits := cs.take 8 ++ (cs.drop 9).take 4 ++ (cs.drop 14).take 4 ++ (cs.drop 19).take 4
    ++ cs.drop 24
  if cs = hyphenate digits then some digits else none

/-- Reads a text as a UUID. -/
def parseChars? (cs : List Char) : Option Uuid :=
  match cs.length with
  | 32 => ofDigits? cs
  | 36 => ungroup? cs >>= ofDigits?
  | 38 =>
    if cs.head? = some '{' ∧ cs.getLast? = some '}' then
      ungroup? ((cs.drop 1).take 36) >>= ofDigits?
    else none
  | 45 =>
    if (cs.take 9).map Char.toLower = "urn:uuid:".toList then
      ungroup? (cs.drop 9) >>= ofDigits?
    else none
  | _ => none

/-- Reads a text as a UUID. It is irreducible, as what the other modules say about names and values
given as texts holds whatever texts are read as UUIDs: which ones are is said here only. -/
@[irreducible]
def parse? (s : String) : Option Uuid := parseChars? s.toList

/-! ## Reading the written forms -/

/-- The texts for the same 32 digits. -/
def spellings (digits : List Char) : List (List Char) :=
  [digits, hyphenate digits, '\x7b' :: hyphenate digits ++ ['\x7d'],
    "urn:uuid:".toList ++ hyphenate digits]

theorem length_hyphenate {digits : List Char} (h : digits.length = 32) :
    (hyphenate digits).length = 36 := by
  simp [hyphenate, h]

theorem ungroup?_hyphenate {digits : List Char} (h : digits.length = 32) :
    ungroup? (hyphenate digits) = some digits := by
  have hgroup : ∀ m n, (digits.drop m).take n ++ digits.drop (m + n) = digits.drop m := by
    intro m n
    rw [← List.drop_drop, List.take_append_drop]
  have hgroups : (hyphenate digits).take 8 ++ ((hyphenate digits).drop 9).take 4
      ++ ((hyphenate digits).drop 14).take 4 ++ ((hyphenate digits).drop 19).take 4
      ++ (hyphenate digits).drop 24 = digits := by
    -- between the hyphens stand the groups, which make up the digits again
    simp [hyphenate, List.drop_append, List.drop_take, h, hgroup 16 4, hgroup 12 4, hgroup 8 4]
  rw [ungroup?, hgroups, if_pos rfl]

/-- Whatever case the digits are in, each way to write them is read as the UUID they spell. -/
theorem parseChars?_of_mem_spellings {digits : List Char} {u : Uuid}
    (h : Hex.decode? digits = some u.bytes) {cs : List Char} (hcs : cs ∈ spellings digits) :
    parseChars? cs = some u := by
  -- however the digits are spelled, the parser reads the same thirty-two of them
  have hread : ofDigits? digits = some u := by simp [ofDigits?, h]
  have hlength : digits.length = 32 := by
    rw [Hex.length_of_decode? h, u.length_bytes]
  have hungroup := ungroup?_hyphenate hlength
  have hlong := length_hyphenate hlength
  simp only [spellings, List.mem_cons, List.not_mem_nil, or_false] at hcs
  rcases hcs with rfl | rfl | rfl | rfl
  · rw [parseChars?, hlength]
    exact hread
  · rw [parseChars?, hlong]
    simp [hungroup, hread]
  · have hlast : ('\x7b' :: (hyphenate digits ++ ['\x7d'])).getLast? = some '\x7d' := by
      rw [← List.cons_append, List.getLast?_concat]
    simp [parseChars?, hlong, hlast, hungroup, hread]
  · simp [parseChars?, hlong, hungroup, hread]

/-- A UUID reads back from its written form. -/
theorem parse?_hyphenated (u : Uuid) : parse? u.hyphenated = some u := by
  rw [parse?, hyphenated, String.toList_ofList]
  exact parseChars?_of_mem_spellings (Hex.decode?_encode u.bytes) (by simp [spellings])

end Uuid

end WideColumn
