/-!
Text under indentation.

A page holds what has been written so far and how many blocks are open.  Two blanks stand before a
line for each open block.
-/

namespace SprigCompiler

structure Page where
  text : String
  depth : Nat
  deriving DecidableEq, Repr

namespace Page

def blank : Page := ⟨"", 0⟩

def write (page : Page) (text : String) : Page := { page with text := page.text ++ text }

def indentation (depth : Nat) : String := String.ofList (List.replicate (2 * depth) ' ')

def indent (page : Page) : Page := page.write (indentation page.depth)

def openBlock (page : Page) : Page :=
  let page := page.write "\x7b\n"
  { page with depth := page.depth + 1 }

/-- Closes a block on a line of its own.  There has to be an open one. -/
def closeBlock? (page : Page) : Option Page :=
  match page.depth with
  | 0 => none
  | depth + 1 => some (({ page with depth := depth }).indent.write "\x7d")

end Page

end SprigCompiler
