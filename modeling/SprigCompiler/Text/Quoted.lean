import SprigCompiler.Text.Unprintable

/-!
Quoted text.

A tab, a carriage return, a newline, the null character, a backslash and the quotation mark itself
are written as a backslash and one character; a character that would not show is written as
`\u` with its code point in hexadecimal between braces; every other character stands for itself.
-/

namespace SprigCompiler.Quoted

/-- The letter that stands behind a backslash for a character between two `mark`s, if it has
one. -/
def shortEscape? (mark character : Char) : Option Char :=
  if character = '\t' then some 't'
  else if character = '\r' then some 'r'
  else if character = '\n' then some 'n'
  else if character.toNat = 0 then some '0'
  else if character = '\\' then some '\\'
  else if character = mark then some mark
  else none

def codeEscape (character : Char) : List Char :=
  '\\' :: 'u' :: '\x7b' :: (Nat.toDigits 16 character.toNat ++ ['\x7d'])

/-- How one character is written between two `mark`s, where `hidden` says which characters would
not show. -/
def escape (hidden : Char → Bool) (mark character : Char) : List Char :=
  match shortEscape? mark character with
  | some letter => ['\\', letter]
  | none => if hidden character then codeEscape character else [character]

def enclose (hidden : Char → Bool) (mark : Char) (characters : List Char) : List Char :=
  mark :: (characters.flatMap (escape hidden mark) ++ [mark])

def textMark : Char := '"'

def characterMark : Char := '\x27'

def text (content : String) : String :=
  String.ofList (enclose isUnprintable textMark content.toList)

def character (content : Char) : String :=
  String.ofList (enclose isUnprintable characterMark [content])

end SprigCompiler.Quoted
