/-!
# Lines of a text

A line ends with a line feed, which may have a carriage return before it; both
belong to no line. What follows the last line feed is a line unless it is empty.
Positions only look at line feeds.
-/

namespace Typemap

def lines : List Char → List (List Char)
  | [] => []
  | '\n' :: cs => [] :: lines cs
  | '\r' :: '\n' :: cs => [] :: lines cs
  | c :: cs =>
      match lines cs with
      | [] => [[c]]
      | first :: rest => (c :: first) :: rest

def lineOf (cs : List Char) (offset : Nat) : Nat := (cs.take offset).count '\n'

/-- The number of characters between an offset and the line feed before it. -/
def columnOf (cs : List Char) (offset : Nat) : Nat :=
  ((cs.take offset).reverse.takeWhile (· != '\n')).length

/-- The line in which an offset lies, or nothing behind the last line. -/
def lineAt (cs : List Char) (offset : Nat) : List Char :=
  (lines cs)[lineOf cs offset]?.getD []

end Typemap
