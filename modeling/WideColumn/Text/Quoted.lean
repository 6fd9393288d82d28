import WideColumn.Text.Blank
import WideColumn.Text.GraphemeBase

/-!
# Quoted text

A text between quotation marks, with the characters escaped that a reader could not see or could
mistake: the mark itself, the backslash, characters without a mark of their own, and blanks other
than the space.
-/

namespace WideColumn.Text

/-- The fillers of Hangul syllables, the only grapheme bases with the Unicode property
`Default_Ignorable_Code_Point`: they are letters, but nothing is shown for them. -/
def isFiller (c : Char) : Bool :=
  let n := c.toNat
  n == 0x115F || n == 0x1160 || n == 0x3164 || n == 0xFFA0

/-- The half-width voicing marks of Katakana, the only letters that are no grapheme bases: they join
the letter before them, but have a width and a shape of their own. -/
def isVoicing (c : Char) : Bool := c.toNat == 0xFF9E || c.toNat == 0xFF9F

/-- Whether a character is shown by its code: it has no mark of its own, or is a blank other than
the space. -/
def isHidden (c : Char) : Bool :=
  !(isGraphemeBase c || isVoicing c) || isFiller c || (c != ' ' && isBlank c)

/-- A character inside quotation marks. -/
def escapeChar (c : Char) : List Char :=
  if c == '"' then ['\\', '"']
  else if c == '\\' then ['\\', '\\']
  else if c == '\n' then ['\\', 'n']
  else if c == '\r' then ['\\', 'r']
  else if c == '\t' then ['\\', 't']
  else if c == '\x00' then ['\\', '0']
  else if isHidden c then ['\\', 'u', '\x7b'] ++ Nat.toDigits 16 c.toNat ++ ['\x7d']
  else [c]

def quote (s : String) : String := String.ofList ('"' :: s.toList.flatMap escapeChar ++ ['"'])

end WideColumn.Text
