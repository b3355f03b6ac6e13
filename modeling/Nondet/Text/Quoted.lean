import Nondet.Text.Attached
import Nondet.Text.Unprintable

/-!
# Text — Quoted

Text written between double quotes so that every character of it can be seen.  Six characters have a
short escape, and those of a class are written by their numbers; which class that is belongs to the
standard library, and is a parameter here.  `unescape` reads the escapes a script may write; it knows
nothing of numbers.
-/

namespace Nondet.Text

/-- The class of the standard library: what is not shown as it is, what extends the character before
it, and what is ignored where it is not supported.  The fillers of Hangul are ignorable, so
they are written by number; the halfwidth sound marks stand as they are, though they extend a letter.
Releases before the class was drawn in this way wrote all of `Grapheme_Extend` by number and let the
fillers stand. -/
def isHidden (c : Char) : Bool := isUnprintable c || isExtending c || isIgnorable c

/-- A code point by its number, in lower-case hexadecimal digits without leading zeros. -/
def escapeCode (c : Char) : List Char :=
  '\\' :: 'u' :: '\x7b' :: (Nat.toDigits 16 c.toNat ++ ['\x7d'])

/-- How a character is written between double quotes. -/
def escapeChar (hidden : Char → Bool) (c : Char) : List Char :=
  if c = '"' then ['\\', '"']
  else if c = '\\' then ['\\', '\\']
  else if c = '\n' then ['\\', 'n']
  else if c = '\r' then ['\\', 'r']
  else if c = '\t' then ['\\', 't']
  else if c = '\x00' then ['\\', '0']
  else if hidden c then escapeCode c
  else [c]

/-- The text between double quotes, where the characters of a class are written by their numbers. -/
def quoteWith (hidden : Char → Bool) (s : String) : String :=
  String.ofList ('"' :: (s.toList.flatMap (escapeChar hidden) ++ ['"']))

/-- The text between double quotes. -/
def quote : String → String := quoteWith isHidden

/-- What a character stands for after a backslash: four letters are escapes, any other character
is itself. -/
def unescapeChar : Char → Char
  | 'n' => '\n'
  | 't' => '\t'
  | 'r' => '\r'
  | '0' => '\x00'
  | c   => c

/-- Replaces every backslash and the character after it.  A backslash at the very end stands for
itself. -/
def unescape : List Char → List Char
  | []             => []
  | ['\\']         => ['\\']
  | '\\' :: c :: r => unescapeChar c :: unescape r
  | c :: r         => c :: unescape r

end Nondet.Text
