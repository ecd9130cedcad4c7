import GraphReasoner.Text.CaseTable

/-!
# Lowercase text

Two spellings of a name are the same name when their lowercase forms agree. The map is that of the
whole character set. It works character by character with two exceptions: the dotted capital I gains
a combining dot, and a capital sigma becomes the final sigma at the end of a word.

* `GraphReasoner.Text.lowerChar` – the lowercase form of one character on its own;
* `GraphReasoner.Text.lower` – the lowercase form of a text;
* `GraphReasoner.Text.lower_eq_flatMap` – without a capital sigma, the second is the first at every
  character.
-/

namespace GraphReasoner.Text

/-- Whether a code point lies in one of the ranges. -/
def inRanges (ranges : List (Nat × Nat)) (n : Nat) : Bool :=
  ranges.any fun (first, last) => first ≤ n && n ≤ last

/-- Whether a character carries case and is not looked through at the end of a word. -/
def isCased (c : Char) : Bool :=
  inRanges casedRanges c.toNat

/-- Whether a character is looked through when the end of a word is sought. -/
def isCaseIgnorable (c : Char) : Bool :=
  inRanges caseIgnorableRanges c.toNat

/-- Whether a code point belongs to a run of capitals. -/
def LowerRange.covers (r : LowerRange) (n : Nat) : Bool :=
  r.first ≤ n && n ≤ r.last && (n - r.first) % r.step == 0

/-- The lowercase form of a character, on its own. -/
def lowerChar (c : Char) : List Char :=
  let n := c.toNat
  if n < 0x80 then [c.toLower]
  else if n = 0x130 then ['i', Char.ofNat 0x307]
  else match lowerRanges.find? fun r => r.covers n with
    | some r => [Char.ofNat ((n : Int) + r.distance).toNat]
    | none => [c]

/-- The capital sigma, whose lowercase form depends on its place. -/
def capitalSigma : Char := 'Σ'

/-- Whether a text begins, marks and punctuation looked through, with a character that
carries case. -/
def startsCased (text : List Char) : Bool :=
  match text.dropWhile isCaseIgnorable with
  | c :: _ => isCased c
  | [] => false

/-- The lowercase form of a text, given the characters already passed, nearest first. A capital
sigma is final when a letter comes before it in its word and none after it. -/
def lowerAfter (passed : List Char) : List Char → List Char
  | [] => []
  | c :: rest =>
    let form :=
      if c = capitalSigma then
        if startsCased passed && !startsCased rest then ['ς'] else ['σ']
      else lowerChar c
    form ++ lowerAfter (c :: passed) rest

/-- The lowercase form of a text. -/
def lower (text : List Char) : List Char :=
  lowerAfter [] text

theorem lowerAfter_eq_flatMap {text : List Char} (h : capitalSigma ∉ text) (passed : List Char) :
    lowerAfter passed text = text.flatMap lowerChar := by
  induction text generalizing passed with
  | nil => rfl
  | cons c rest ih =>
    have hc : c ≠ capitalSigma := fun e => h (e ▸ List.mem_cons_self)
    simp only [lowerAfter, hc, if_false, List.flatMap_cons]
    rw [ih (fun m => h (List.mem_cons_of_mem _ m))]

/-- **Without a capital sigma, lowercase text is lowercase character by character.** -/
theorem lower_eq_flatMap {text : List Char} (h : capitalSigma ∉ text) :
    lower text = text.flatMap lowerChar :=
  lowerAfter_eq_flatMap h []

/-- The lowercase form of a string. -/
def lowercase (text : String) : String :=
  String.ofList (lower text.toList)

end GraphReasoner.Text
