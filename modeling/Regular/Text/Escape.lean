/-!
# Escape — text that can be read back from a line

Two ways to write a character with backslashes.  Between quotes everything a reader can see stays as it is, and which
characters are hidden from a reader is for the caller to say; in ASCII-only labels nothing but printable ASCII stays.
Both keep a few characters short (a backslash and a letter) and write all else by number, `\u` and the hexadecimal
digits in braces.
-/
namespace Regular
namespace Text

/-- A character by its number: a backslash, `u`, and the lower-case hexadecimal digits in braces. -/
def byNumber (c : Char) : List Char :=
  '\\' :: 'u' :: '\x7b' :: (Nat.toDigits 16 c.toNat ++ ['\x7d'])

/-- A backslash before a sign that would otherwise mean something else. -/
def backslashed (c : Char) : List Char := ['\\', c]

/-! ## Between quotes -/

/-- A character as it stands between quotes of one kind; the other kind of quote needs no backslash there. -/
def escapeQuoted (hidden : Char → Bool) (quote c : Char) : List Char :=
  if c = quote ∨ c = '\\' then backslashed c
  else if c = '\x00' then backslashed '0'
  else if c = '\t' then backslashed 't'
  else if c = '\r' then backslashed 'r'
  else if c = '\n' then backslashed 'n'
  else if hidden c then byNumber c
  else [c]

def quoted (hidden : Char → Bool) (quote : Char) (cs : List Char) : List Char :=
  quote :: (cs.flatMap (escapeQuoted hidden quote) ++ [quote])

/-! ## In ASCII -/

/-- A character in printable ASCII alone, with both kinds of quote escaped. -/
def escapeAscii (c : Char) : List Char :=
  if c = '\'' ∨ c = '"' ∨ c = '\\' then backslashed c
  else if c = '\t' then backslashed 't'
  else if c = '\r' then backslashed 'r'
  else if c = '\n' then backslashed 'n'
  else if 0x20 ≤ c.toNat ∧ c.toNat ≤ 0x7E then [c]
  else byNumber c

end Text
end Regular
