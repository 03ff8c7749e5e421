import SprigCompiler.Token.Basic

/-!
A place among tokens that can be moved either way.

The cursor stands between the tokens already taken and those still ahead.
-/

namespace SprigCompiler

structure Cursor where
  tokens : Array Token
  consumed : Nat
  deriving DecidableEq, Repr

namespace Cursor

structure Mark where
  consumed : Nat
  deriving DecidableEq, Repr

def ofList (tokens : List Token) : Cursor := ⟨tokens.toArray, 0⟩

def peek (cursor : Cursor) : Option Token := cursor.tokens[cursor.consumed]?

/-- Takes the next token.  Behind the last one the cursor stays where it is. -/
def advance (cursor : Cursor) : Option Token × Cursor :=
  match cursor.peek with
  | some token => (some token, { cursor with consumed := cursor.consumed + 1 })
  | none => (none, cursor)

def currentIndex (cursor : Cursor) : Option Nat :=
  match cursor.consumed with
  | 0 => none
  | index + 1 => some index

def current (cursor : Cursor) : Option Token :=
  cursor.currentIndex.bind (cursor.tokens[·]?)

/-- Puts the token taken last back.  Before the first one the cursor stays where it is. -/
def retreat (cursor : Cursor) : Cursor := { cursor with consumed := cursor.consumed - 1 }

def get (cursor : Cursor) (index : Nat) : Option Token := cursor.tokens[index]?

def mark (cursor : Cursor) : Mark := ⟨cursor.consumed⟩

def reset (cursor : Cursor) (mark : Mark) : Cursor := { cursor with consumed := mark.consumed }

def lastBefore (tokens : Array Token) (condition : Token → Bool) : Nat → Option Token
  | 0 => none
  | index + 1 =>
      match tokens[index]? with
      | some token => if condition token then some token else lastBefore tokens condition index
      | none => lastBefore tokens condition index

/-- The last token before an index, or among all tokens if there are fewer, that meets a
condition.  The cursor does not move. -/
def lookBehind (cursor : Cursor) (index : Nat) (condition : Token → Bool) : Option Token :=
  lastBefore cursor.tokens condition (min index cursor.tokens.size)

def ahead (cursor : Cursor) : Nat := cursor.tokens.size - cursor.consumed

end Cursor

end SprigCompiler
