/-!
# Searching text, with positions in bytes

Positions in a question are counted in bytes of its UTF-8 form, so that a position is also a measure
of the text before it. A search walks a list of characters and carries the number of bytes passed.

* `GraphReasoner.Text.byteLength` – the number of bytes of a text;
* `GraphReasoner.Text.find` – the first occurrence of a text in another, as a position and the rest
  of the text after it;
* `GraphReasoner.Text.occursIn` – whether there is one.
-/

namespace GraphReasoner.Text

/-- The number of bytes of a text in UTF-8. -/
def byteLength : List Char → Nat
  | [] => 0
  | c :: text => c.utf8Size + byteLength text

/-- The rest of a text after a given beginning, if it has that beginning. -/
def afterStart : List Char → List Char → Option (List Char)
  | [], text => some text
  | _ :: _, [] => none
  | p :: pattern, c :: text => if p = c then afterStart pattern text else none

/-- The first occurrence of `pattern` at or after the place `start`: its position, and the text that
follows it. The empty pattern occurs at once. -/
def find (pattern : List Char) (start : Nat) : List Char → Option (Nat × List Char)
  | [] => if pattern.isEmpty then some (start, []) else none
  | c :: text =>
    match afterStart pattern (c :: text) with
    | some rest => some (start, rest)
    | none => find pattern (start + c.utf8Size) text

/-- Whether `pattern` occurs in `text`. -/
def occursIn (pattern text : List Char) : Bool :=
  (find pattern 0 text).isSome

/-- Cuts a text at every character that satisfies `p`. The pieces are one more than the cuts. -/
def cutAt (p : Char → Bool) : List Char → List (List Char)
  | [] => [[]]
  | c :: text =>
    match cutAt p text with
    | [] => [[c]]
    | piece :: pieces => if p c then [] :: piece :: pieces else (c :: piece) :: pieces

/-- Texts joined with a separator between neighbours. -/
def join (separator : String) (texts : List String) : String :=
  String.intercalate separator texts

end GraphReasoner.Text
