/-!
# Blank text

A character is blank when it has the White_Space property of the character set: twenty-five
characters, of which six are ASCII. A required field that holds only blanks counts as missing, and a
question that holds only blanks as empty.

* `GraphReasoner.Text.isBlank` – one character;
* `GraphReasoner.Text.AllBlank` – a text without any other character.
-/

namespace GraphReasoner.Text

/-- Whether a character is white space. -/
def isBlank (c : Char) : Bool :=
  let n := c.toNat
  (0x9 ≤ n && n ≤ 0xd) || n == 0x20 || n == 0x85 || n == 0xa0 || n == 0x1680 ||
    (0x2000 ≤ n && n ≤ 0x200a) || n == 0x2028 || n == 0x2029 || n == 0x202f || n == 0x205f ||
    n == 0x3000

/-- Every character of the text is blank, as in the empty text. -/
def AllBlank (text : String) : Prop :=
  ∀ c ∈ text.toList, isBlank c = true

instance (text : String) : Decidable (AllBlank text) :=
  List.decidableBAll (fun c => isBlank c = true) text.toList

end GraphReasoner.Text
