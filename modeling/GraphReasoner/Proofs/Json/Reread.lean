import GraphReasoner.Proofs.Json.Number
import GraphReasoner.Proofs.Json.Quote

/-!
# Documents that are written and read again

Every document can be written, but not every document comes back as it was. An integer past the
greatest one comes back as a number, a number that is not finite as `null`, and what is nested too
deeply as `GraphReasoner.Json.unreadable`. `GraphReasoner.Json.reread` is the document that comes
back.

The two layouts differ in their spaces only, and the reader passes over spaces. So it is said of a
text, and not of a layout, that it is read as a document (`GraphReasoner.Json.Spells`): a value ends
where its text ends, whatever follows. Texts of items with commas between them spell an array, texts
of fields an object, with spaces wherever the layout puts them, and both layouts come down to this
(`GraphReasoner.Json.Legible.spells_compact`, `GraphReasoner.Json.Legible.spells_prettyAt`). What is
asked of a document is that its numbers are read as they are printed, which is no condition on a
document without any (`GraphReasoner.Json.Legible`).
-/

namespace GraphReasoner.Json

variable {S : Type}

/-- **Induction on a document**, with the items of an array and the values of an object. -/
@[elab_as_elim]
theorem induct {motive : Json S → Prop} (null : motive null) (bool : ∀ b, motive (bool b))
    (int : ∀ i, motive (int i)) (float : ∀ x, motive (float x)) (string : ∀ s, motive (string s))
    (array : ∀ items, (∀ item ∈ items, motive item) → motive (array items))
    (object : ∀ fields, (∀ field ∈ fields, motive field.2) → motive (object fields))
    (unreadable : motive unreadable) (document : Json S) : motive document :=
  @Json.rec S motive (fun items => ∀ item ∈ items, motive item)
    (fun fields => ∀ field ∈ fields, motive field.2) (fun field => motive field.2)
    null bool int float string array object unreadable
    (fun _ h => nomatch h) (fun _ _ hitem hitems => List.forall_mem_cons.2 ⟨hitem, hitems⟩)
    (fun _ h => nomatch h) (fun _ _ hfield hfields => List.forall_mem_cons.2 ⟨hfield, hfields⟩)
    (fun _ _ h => h) document

variable [Numeral S]

mutual

/-- **A document as it is read** after it was written on one line, given how many levels of nesting
are left. -/
def reread (depth : Nat) : Json S → Json S
  | null | unreadable => null
  | bool b => bool b
  | int i => integer i
  | float x => if Numeral.Finite x then float x else null
  | string s => string s
  | array items => if depth = 0 then unreadable else array (rereadItems (depth - 1) items)
  | object fields => if depth = 0 then unreadable else object (rereadFields (depth - 1) fields)

/-- The items as they are read. -/
def rereadItems (depth : Nat) : List (Json S) → List (Json S)
  | [] => []
  | item :: items => reread depth item :: rereadItems depth items

/-- The fields as they are read. -/
def rereadFields (depth : Nat) : List (String × Json S) → List (String × Json S)
  | [] => []
  | (name, value) :: fields => (name, reread depth value) :: rereadFields depth fields

end

/-- Names come back as they were. -/
theorem rereadFields_eq_map (depth : Nat) (fields : List (String × Json S)) :
    rereadFields depth fields = fields.map (Prod.map id (reread depth)) := by
  induction fields with
  | nil => rw [rereadFields, List.map_nil]
  | cons field fields ih =>
    obtain ⟨name, value⟩ := field
    rw [rereadFields, ih]
    rfl

/-! ### The steps of the reader -/

section Reader

variable {fuel depth : Nat} {text more rest spaces : List Char} {item value : Json S}
  {items : List (Json S)} {name : String} {fields : List (Option String × Json S)}

theorem readValue_skipSpaces (fuel depth : Nat) (text : List Char) :
    readValue (S := S) fuel depth (skipSpaces text) = readValue fuel depth text := by
  cases fuel with
  | zero => simp only [readValue]
  | succ fuel => rw [readValue, readValue, skipSpaces_idem]

theorem readItems_skipSpaces (fuel depth : Nat) (text : List Char) :
    readItems (S := S) fuel depth (skipSpaces text) = readItems fuel depth text := by
  cases fuel with
  | zero => simp only [readItems]
  | succ fuel => rw [readItems, readItems, readValue_skipSpaces]

/-- No item begins with a closing bracket. -/
theorem readItems_bracket (h : skipSpaces text = ']' :: more) :
    readItems (S := S) fuel depth text = none := by
  have hvalue : ∀ fuel, readValue (S := S) fuel depth text = none := by
    rintro (_ | fuel)
    · rw [readValue]
    · rw [readValue, h]
      rfl
  cases fuel with
  | zero => rw [readItems]
  | succ fuel =>
    rw [readItems, hvalue]
    rfl

theorem readItems_last (h : readValue fuel depth text = some (item, spaces ++ ']' :: rest))
    (hs : skipSpaces spaces = []) :
    readItems (fuel + 1) depth text = some ([item], rest) := by
  rw [readItems, h]
  simp only [Option.bind_eq_bind, Option.bind_some]
  rw [skipSpaces_append_of_nil hs, skipSpaces_cons rfl]
  rfl

theorem readItems_more (h : readValue fuel depth text = some (item, spaces ++ ',' :: more))
    (hs : skipSpaces spaces = []) (hitems : readItems fuel depth more = some (items, rest)) :
    readItems (fuel + 1) depth text = some (item :: items, rest) := by
  rw [readItems, h]
  simp only [Option.bind_eq_bind, Option.bind_some]
  rw [skipSpaces_append_of_nil hs, skipSpaces_cons rfl]
  simp only [hitems]
  rfl

theorem readValue_array (h : readItems fuel (depth - 1) text = some (items, rest)) :
    readValue (fuel + 1) depth ('[' :: text) =
      some (if depth = 0 then unreadable else array items, rest) := by
  rw [readValue, skipSpaces_cons rfl]
  simp only
  split
  · rename_i hbracket
    rw [readItems_bracket hbracket] at h
    cases h
  · rw [readItems_skipSpaces, h]
    rfl

/-- A field is its name, a colon and its value. -/
theorem readFields_field (h : readValue fuel depth text = some (value, more)) :
    readFields (fuel + 1) depth ((quote name).toList ++ ':' :: text) =
      match skipSpaces more with
      | ',' :: more => do
        let (fields, rest) ← readFields fuel depth more
        return ((some name, value) :: fields, rest)
      | '\x7d' :: rest => return ([(some name, value)], rest)
      | _ => none := by
  rw [toList_quote, List.cons_append, List.append_assoc, readFields, skipSpaces_cons rfl]
  change (readText (name.toList.flatMap escape ++ '"' :: ':' :: text)).bind _ = _
  rw [readText_quote]
  simp only [Option.bind_eq_bind, Option.bind_some]
  rw [skipSpaces_cons rfl]
  exact (congrArg (Option.bind · _) h).trans rfl

theorem readFields_last
    (h : readValue fuel depth text = some (value, spaces ++ '\x7d' :: rest))
    (hs : skipSpaces spaces = []) :
    readFields (fuel + 1) depth ((quote name).toList ++ ':' :: text) =
      some ([(some name, value)], rest) := by
  rw [readFields_field h, skipSpaces_append_of_nil hs, skipSpaces_cons rfl]
  rfl

theorem readFields_more (h : readValue fuel depth text = some (value, spaces ++ ',' :: more))
    (hs : skipSpaces spaces = []) (hfields : readFields fuel depth more = some (fields, rest)) :
    readFields (fuel + 1) depth ((quote name).toList ++ ':' :: text) =
      some ((some name, value) :: fields, rest) := by
  rw [readFields_field h, skipSpaces_append_of_nil hs, skipSpaces_cons rfl]
  simp only [hfields]
  rfl

theorem readValue_object (hquote : skipSpaces text = '"' :: more)
    (h : readFields fuel (depth - 1) ('"' :: more) = some (fields, rest)) :
    readValue (fuel + 1) depth ('\x7b' :: text) =
      some (if depth = 0 then unreadable else objectOf fields, rest) := by
  rw [readValue, skipSpaces_cons rfl]
  simp only [hquote]
  exact congrArg
    (Option.map fun read => (if depth = 0 then unreadable else objectOf read.1, read.2)) h

omit [Numeral S] in
theorem objectOf_some (fields : List (String × Json S)) :
    objectOf (fields.map fun field => (some field.1, field.2)) = object fields := by
  have hmap : (fields.map fun field => (some field.1, field.2)).mapM
      (fun field => field.1.map fun name => (name, field.2)) = some fields := by
    induction fields with
    | nil => rfl
    | cons field fields ih =>
      rw [List.map_cons, List.mapM_cons, ih]
      rfl
  rw [objectOf, hmap]

end Reader

/-- Fields may have spaces in front. -/
theorem readFields_skipSpaces (fuel depth : Nat) (text : List Char) :
    readFields (S := S) fuel depth (skipSpaces text) = readFields fuel depth text := by
  cases fuel with
  | zero => simp only [readFields]
  | succ fuel => rw [readFields, readFields, skipSpaces_idem]

/-! ### The texts of a document -/

theorem ends_comma (text : List Char) : Ends (',' :: text) :=
  ends_cons rfl (by decide)

theorem ends_bracket (text : List Char) : Ends (']' :: text) :=
  ends_cons rfl (by decide)

theorem ends_brace (text : List Char) : Ends ('\x7d' :: text) :=
  ends_cons rfl (by decide)

/-- A number ends where spaces begin. -/
theorem ends_spaces {spaces rest : List Char} (hs : skipSpaces spaces = []) (hrest : Ends rest) :
    Ends (spaces ++ rest) := by
  cases spaces with
  | nil => exact hrest
  | cons c spaces =>
    have hc : isSpace c = true := List.dropWhile_eq_nil_iff.1 hs c List.mem_cons_self
    refine ends_cons (Bool.eq_false_iff.2 fun hdigit => ?_) ⟨?_, ?_, ?_⟩
    · rw [isSpace_of_isDigit hdigit] at hc
      cases hc
    all_goals
      rintro rfl
      cases hc

/-- **A text spells a document** when it is read as that document, whatever follows it, up to spaces
after it. Two units of fuel for each character are enough. -/
def Spells (document : Json S) (text : List Char) : Prop :=
  ∀ (fuel depth : Nat) (rest : List Char), 2 * text.length < fuel → Ends rest →
    ∃ spaces, skipSpaces spaces = [] ∧
      readValue fuel depth (text ++ rest) = some (reread depth document, spaces ++ rest)

section Spells

variable {document : Json S} {text : List Char}

/-- There is always some fuel, so one step of the reader can be taken. -/
theorem spells_of_succ
    (h : ∀ (fuel depth : Nat) (rest : List Char), 2 * text.length ≤ fuel → Ends rest →
      ∃ spaces, skipSpaces spaces = [] ∧
        readValue (fuel + 1) depth (text ++ rest) =
          some (reread depth document, spaces ++ rest)) : Spells document text := by
  intro fuel depth rest hfuel hrest
  obtain ⟨fuel, rfl⟩ := Nat.exists_eq_succ_of_ne_zero (Nat.ne_zero_of_lt hfuel)
  exact h fuel depth rest (Nat.le_of_lt_succ hfuel) hrest

/-- **Spaces in front do not matter.** -/
theorem Spells.spaced (h : Spells document text) {spaces : List Char}
    (hs : skipSpaces spaces = []) : Spells document (spaces ++ text) := by
  intro fuel depth rest hfuel hrest
  rw [List.length_append] at hfuel
  rw [List.append_assoc, ← readValue_skipSpaces, skipSpaces_append_of_nil hs, readValue_skipSpaces]
  exact h fuel depth rest (by omega) hrest

/-! ### Values without parts -/

theorem spells_null : Spells (S := S) null "null".toList :=
  spells_of_succ fun fuel depth rest _ _ => ⟨[], rfl, by rw [readValue]; rfl⟩

theorem spells_bool (b : Bool) :
    Spells (S := S) (bool b) (if b then "true" else "false").toList := by
  refine spells_of_succ fun fuel depth rest _ _ => ⟨[], rfl, ?_⟩
  rw [readValue]
  cases b <;> rfl

/-- The digits of an integer end where the text after them begins. -/
theorem spells_int (i : Int) : Spells (S := S) (int i) (toString i).toList :=
  spells_of_succ fun _ _ _ _ hrest => ⟨[], rfl, readValue_toString i hrest⟩

theorem spells_float {x : S} (hread : Numeral.Finite x → read (numberText x) = some (.float x)) :
    Spells (float x) (numberText x).toList := by
  by_cases hx : Numeral.Finite x
  · refine spells_of_succ fun fuel depth rest _ hrest => ?_
    rw [reread, if_pos hx]
    exact readValue_numberText (hread hx) hrest
  · have hnull : Spells (float x) "null".toList := by
      intro fuel depth rest hfuel hrest
      rw [reread, if_neg hx]
      exact spells_null fuel depth rest hfuel hrest
    rw [numberText_of_not_finite hx]
    exact hnull

theorem spells_string (s : String) : Spells (S := S) (string s) (quote s).toList := by
  refine spells_of_succ fun fuel depth rest _ _ => ⟨[], rfl, ?_⟩
  rw [toList_quote, List.cons_append, List.append_assoc, readValue, skipSpaces_cons rfl]
  exact congrArg (Option.map fun read => (read.1.elim unreadable Json.string, read.2))
    (readText_quote s rest)

end Spells

/-! ### Arrays and objects -/

/-- Texts with commas between them. -/
def commaList (texts : List (List Char)) : List Char :=
  [','].intercalate texts

theorem commaList_nil : commaList [] = [] :=
  rfl

theorem commaList_singleton (text : List Char) : commaList [text] = text :=
  List.intercalate_singleton

theorem commaList_cons_cons (text next : List Char) (texts : List (List Char)) :
    commaList (text :: next :: texts) = text ++ ',' :: commaList (next :: texts) := by
  rw [commaList, List.intercalate_cons_cons, List.append_assoc]
  rfl

/-- **The items of an array** are read up to the closing bracket. -/
theorem readItems_commaList {text : Json S → List Char} {item : Json S} {items : List (Json S)}
    (h : ∀ i ∈ item :: items, Spells i (text i)) {after : List Char}
    (hafter : skipSpaces after = []) {fuel depth : Nat} {rest : List Char}
    (hfuel : 2 * (commaList ((item :: items).map text)).length + 1 < fuel) :
    readItems fuel depth (commaList ((item :: items).map text) ++ (after ++ ']' :: rest)) =
      some (rereadItems depth (item :: items), rest) := by
  induction items generalizing item fuel with
  | nil =>
    obtain ⟨fuel, rfl⟩ := Nat.exists_eq_succ_of_ne_zero (Nat.ne_zero_of_lt hfuel)
    rw [List.map_singleton, commaList_singleton] at hfuel ⊢
    obtain ⟨spaces, hs, hread⟩ := h item List.mem_cons_self fuel depth (after ++ ']' :: rest)
      (by omega) (ends_spaces hafter (ends_bracket rest))
    rw [← List.append_assoc spaces] at hread
    rw [readItems_last hread ((skipSpaces_append_of_nil hs).trans hafter)]
    rfl
  | cons next items ih =>
    obtain ⟨hitem, hitems⟩ := List.forall_mem_cons.1 h
    obtain ⟨fuel, rfl⟩ := Nat.exists_eq_succ_of_ne_zero (Nat.ne_zero_of_lt hfuel)
    rw [List.map_cons, List.map_cons, commaList_cons_cons, ← List.map_cons] at hfuel ⊢
    rw [List.length_append, List.length_cons] at hfuel
    rw [List.append_assoc, List.cons_append]
    obtain ⟨spaces, hs, hread⟩ := hitem fuel depth
      (',' :: (commaList ((next :: items).map text) ++ (after ++ ']' :: rest))) (by omega)
      (ends_comma _)
    rw [readItems_more hread hs (ih hitems (by omega))]
    rfl

/-- **Texts of items spell an array**, whatever spaces there are in front of the bracket. -/
theorem spells_array {text : Json S → List Char} {items : List (Json S)}
    (h : ∀ item ∈ items, Spells item (text item)) {after : List Char}
    (hafter : skipSpaces after = []) :
    Spells (array items) ('[' :: (commaList (items.map text) ++ (after ++ [']']))) := by
  refine spells_of_succ fun fuel depth rest hfuel _ => ⟨[], rfl, ?_⟩
  simp only [List.length_cons, List.length_append] at hfuel
  rw [List.cons_append, List.append_assoc, List.append_assoc, List.singleton_append, reread]
  cases items with
  | nil =>
    rw [readValue, skipSpaces_cons rfl, rereadItems]
    simp only [List.map_nil, commaList_nil, List.nil_append]
    rw [skipSpaces_append_of_nil hafter, skipSpaces_cons rfl]
    rfl
  | cons item items =>
    rw [readValue_array (readItems_commaList h hafter (by omega))]
    rfl

/-- **A text spells a field**: its name, a colon and a text of its value, with spaces in front. -/
def SpellsField (field : String × Json S) (text : List Char) : Prop :=
  ∃ spaces value, skipSpaces spaces = [] ∧ Spells field.2 value ∧
    text = spaces ++ ((quote field.1).toList ++ ':' :: value)

/-- A field begins with a quote. -/
theorem SpellsField.quote {field : String × Json S} {text : List Char} (h : SpellsField field text)
    (rest : List Char) : ∃ more, skipSpaces (text ++ rest) = '"' :: more := by
  obtain ⟨spaces, value, hs, -, rfl⟩ := h
  rw [List.append_assoc, skipSpaces_append_of_nil hs, toList_quote]
  exact ⟨_, skipSpaces_cons rfl⟩

/-- **The fields of an object** are read up to the closing brace. -/
theorem readFields_commaList {text : String × Json S → List Char} {field : String × Json S}
    {fields : List (String × Json S)} (h : ∀ f ∈ field :: fields, SpellsField f (text f))
    {after : List Char} (hafter : skipSpaces after = []) {fuel depth : Nat} {rest : List Char}
    (hfuel : 2 * (commaList ((field :: fields).map text)).length + 1 < fuel) :
    readFields fuel depth (commaList ((field :: fields).map text) ++ (after ++ '\x7d' :: rest)) =
      some ((rereadFields depth (field :: fields)).map
        fun field => (some field.1, field.2), rest) := by
  induction fields generalizing field fuel with
  | nil =>
    obtain ⟨before, value, hbefore, hvalue, htext⟩ := h field List.mem_cons_self
    obtain ⟨fuel, rfl⟩ := Nat.exists_eq_succ_of_ne_zero (Nat.ne_zero_of_lt hfuel)
    rw [List.map_singleton, commaList_singleton, htext] at hfuel ⊢
    simp only [List.length_append, List.length_cons] at hfuel
    obtain ⟨spaces, hs, hread⟩ := hvalue fuel depth (after ++ '\x7d' :: rest) (by omega)
      (ends_spaces hafter (ends_brace rest))
    rw [← List.append_assoc spaces] at hread
    rw [← readFields_skipSpaces, List.append_assoc, skipSpaces_append_of_nil hbefore,
      readFields_skipSpaces, List.append_assoc, List.cons_append,
      readFields_last hread ((skipSpaces_append_of_nil hs).trans hafter)]
    rfl
  | cons next fields ih =>
    obtain ⟨⟨before, value, hbefore, hvalue, htext⟩, hfields⟩ := List.forall_mem_cons.1 h
    obtain ⟨fuel, rfl⟩ := Nat.exists_eq_succ_of_ne_zero (Nat.ne_zero_of_lt hfuel)
    rw [List.map_cons, List.map_cons, commaList_cons_cons, ← List.map_cons, htext] at hfuel ⊢
    simp only [List.length_append, List.length_cons] at hfuel
    obtain ⟨spaces, hs, hread⟩ := hvalue fuel depth
      (',' :: (commaList ((next :: fields).map text) ++ (after ++ '\x7d' :: rest))) (by omega)
      (ends_comma _)
    rw [← readFields_skipSpaces, List.append_assoc, List.append_assoc,
      skipSpaces_append_of_nil hbefore, readFields_skipSpaces, List.append_assoc, List.cons_append,
      List.cons_append, readFields_more hread hs (ih hfields (by omega))]
    rfl

/-- **Texts of fields spell an object**, whatever spaces there are in front of the brace. -/
theorem spells_object {text : String × Json S → List Char} {fields : List (String × Json S)}
    (h : ∀ field ∈ fields, SpellsField field (text field)) {after : List Char}
    (hafter : skipSpaces after = []) :
    Spells (object fields) ('\x7b' :: (commaList (fields.map text) ++ (after ++ ['\x7d']))) := by
  refine spells_of_succ fun fuel depth rest hfuel _ => ⟨[], rfl, ?_⟩
  simp only [List.length_cons, List.length_append] at hfuel
  rw [List.cons_append, List.append_assoc, List.append_assoc, List.singleton_append, reread]
  cases fields with
  | nil =>
    rw [readValue, skipSpaces_cons rfl, rereadFields]
    simp only [List.map_nil, commaList_nil, List.nil_append]
    rw [skipSpaces_append_of_nil hafter, skipSpaces_cons rfl]
    rfl
  | cons field fields =>
    -- the reader looks for a closing brace first, and sees the quote of a name
    obtain ⟨more, hquote⟩ : ∃ more, skipSpaces (commaList ((field :: fields).map text) ++
        (after ++ '\x7d' :: rest)) = '"' :: more := by
      have hfield := h field List.mem_cons_self
      cases fields with
      | nil =>
        rw [List.map_singleton, commaList_singleton]
        exact hfield.quote _
      | cons next fields =>
        rw [List.map_cons, List.map_cons, commaList_cons_cons, List.append_assoc]
        exact hfield.quote _
    have hread : readFields fuel (depth - 1) (commaList ((field :: fields).map text) ++
        (after ++ '\x7d' :: rest)) = some _ := readFields_commaList h hafter (by omega)
    rw [← readFields_skipSpaces, hquote] at hread
    rw [readValue_object hquote hread, objectOf_some]
    rfl

/-! ### Both layouts -/

/-- **A legible document**: its numbers are read as they are printed. -/
inductive Legible : Json S → Prop
  | null : Legible null
  | bool (b : Bool) : Legible (bool b)
  | int (i : Int) : Legible (int i)
  | float {x : S} (hread : Numeral.Finite x → read (numberText x) = some (.float x)) :
    Legible (float x)
  | string (s : String) : Legible (string s)
  | array {items : List (Json S)} (legible : ∀ item ∈ items, Legible item) : Legible (array items)
  | object {fields : List (String × Json S)} (legible : ∀ field ∈ fields, Legible field.2) :
    Legible (object fields)
  | unreadable : Legible unreadable

theorem legible_of_rereads (hread : Rereads S) (document : Json S) : Legible document := by
  induction document using Json.induct with
  | null => exact .null
  | bool b => exact .bool b
  | int i => exact .int i
  | float x => exact .float (hread x)
  | string s => exact .string s
  | array items ih => exact .array ih
  | object fields ih => exact .object ih
  | unreadable => exact .unreadable

/-- The text of a field on one line. -/
def compactField (field : String × Json S) : List Char :=
  (quote field.1).toList ++ ':' :: (compact field.2).toList

/-- The text of an item on a line of its own. -/
def prettyItem (level : Nat) (item : Json S) : List Char :=
  (newLine level).toList ++ (prettyAt level item).toList

/-- The text of a field on a line of its own. -/
def prettyField (level : Nat) (field : String × Json S) : List Char :=
  (newLine level).toList ++
    ((quote field.1).toList ++ ':' :: ' ' :: (prettyAt level field.2).toList)

theorem toList_compactItems (items : List (Json S)) :
    (compactItems items).toList = commaList (items.map fun item => (compact item).toList) := by
  induction items with
  | nil => rfl
  | cons item items ih =>
    cases items with
    | nil => rw [compactItems, List.map_singleton, commaList_singleton]
    | cons next items =>
      rw [compactItems, String.toList_append, String.toList_append, ih, List.append_assoc]
      · exact (commaList_cons_cons _ _ _).symm
      · nofun

theorem toList_compactFields (fields : List (String × Json S)) :
    (compactFields fields).toList = commaList (fields.map compactField) := by
  induction fields with
  | nil => rfl
  | cons field fields ih =>
    obtain ⟨name, value⟩ := field
    cases fields with
    | nil =>
      rw [compactFields, List.map_singleton, commaList_singleton, String.toList_append,
        String.toList_append, List.append_assoc]
      rfl
    | cons next fields =>
      rw [compactFields, List.map_cons, List.map_cons, commaList_cons_cons, ← List.map_cons, ← ih]
      · simp only [compactField, String.toList_append, List.append_assoc]
        rfl
      · nofun

theorem toList_prettyItems (level : Nat) (items : List (Json S)) :
    (prettyItems level items).toList = commaList (items.map (prettyItem level)) := by
  induction items with
  | nil => rfl
  | cons item items ih =>
    cases items with
    | nil =>
      rw [prettyItems, List.map_singleton, commaList_singleton, String.toList_append]
      rfl
    | cons next items =>
      rw [prettyItems, List.map_cons, List.map_cons, commaList_cons_cons, ← List.map_cons, ← ih]
      · simp only [prettyItem, String.toList_append, List.append_assoc]
        rfl
      · nofun

theorem toList_prettyFields (level : Nat) (fields : List (String × Json S)) :
    (prettyFields level fields).toList = commaList (fields.map (prettyField level)) := by
  induction fields with
  | nil => rfl
  | cons field fields ih =>
    obtain ⟨name, value⟩ := field
    cases fields with
    | nil =>
      rw [prettyFields, List.map_singleton, commaList_singleton]
      simp only [prettyField, String.toList_append, List.append_assoc]
      rfl
    | cons next fields =>
      rw [prettyFields, List.map_cons, List.map_cons, commaList_cons_cons, ← List.map_cons, ← ih]
      · simp only [prettyField, String.toList_append, List.append_assoc]
        rfl
      · nofun

/-- A new line is spaces. -/
theorem skipSpaces_newLine (level : Nat) : skipSpaces (newLine level).toList = [] := by
  rw [newLine, String.toList_ofList, skipSpaces, List.dropWhile_eq_nil_iff]
  intro c hc
  rcases List.mem_cons.1 hc with rfl | hc
  · rfl
  · rw [List.eq_of_mem_replicate hc]
    rfl

/-- **A document on one line spells itself.** -/
theorem Legible.spells_compact {document : Json S} (h : Legible document) :
    Spells document (compact document).toList := by
  induction h with
  | null | unreadable =>
    rw [compact]
    exact spells_null
  | bool b =>
    rw [compact]
    exact spells_bool b
  | int i =>
    rw [compact]
    exact spells_int i
  | float hread =>
    rw [compact]
    exact spells_float hread
  | string s =>
    rw [compact]
    exact spells_string s
  | array _ ih =>
    rw [compact, String.toList_append, String.toList_append, List.append_assoc,
      toList_compactItems]
    exact spells_array ih (rfl : skipSpaces [] = [])
  | object _ ih =>
    rw [compact, String.toList_append, String.toList_append, List.append_assoc,
      toList_compactFields]
    refine spells_object (fun field hfield => ?_) (rfl : skipSpaces [] = [])
    exact ⟨[], _, rfl, ih field hfield, (List.nil_append _).symm⟩

/-- **A document on lines of its own spells itself**, at every level of indentation. -/
theorem Legible.spells_prettyAt {document : Json S} (h : Legible document) (level : Nat) :
    Spells document (prettyAt level document).toList := by
  induction h generalizing level with
  | null | unreadable =>
    rw [prettyAt]
    exact spells_null
  | bool b =>
    rw [prettyAt]
    exact spells_bool b
  | int i =>
    rw [prettyAt]
    exact spells_int i
  | float hread =>
    rw [prettyAt]
    exact spells_float hread
  | string s =>
    rw [prettyAt]
    exact spells_string s
  | @array items _ ih =>
    rw [prettyAt]
    split
    · rename_i hempty
      obtain rfl := List.isEmpty_iff.1 hempty
      exact @spells_array S _ (prettyItem level) [] (List.forall_mem_nil _) [] rfl
    · simp only [String.toList_append, List.append_assoc, toList_prettyItems]
      refine spells_array (fun item hitem => ?_) (skipSpaces_newLine level)
      exact (ih item hitem (level + 1)).spaced (skipSpaces_newLine _)
  | @object fields _ ih =>
    rw [prettyAt]
    split
    · rename_i hempty
      obtain rfl := List.isEmpty_iff.1 hempty
      exact @spells_object S _ (prettyField level) [] (List.forall_mem_nil _) [] rfl
    · simp only [String.toList_append, List.append_assoc, toList_prettyFields]
      refine spells_object (fun field hfield => ?_) (skipSpaces_newLine level)
      exact ⟨_, _, skipSpaces_newLine _,
        (ih field hfield (level + 1)).spaced (rfl : skipSpaces [' '] = []), rfl⟩

/-- **A whole text that spells a document is read as it.** -/
theorem Spells.read {document : Json S} {text : String} (h : Spells document text.toList) :
    read text = some (reread depthLimit document) := by
  obtain ⟨spaces, hs, hvalue⟩ := h (2 * text.toList.length + 2) depthLimit [] (by omega) ends_nil
  rw [List.append_nil, List.append_nil] at hvalue
  rw [Json.read]
  simp [hvalue, hs]

/-- **A document that is written on one line is read as `GraphReasoner.Json.reread` says**, over
numbers that are read as they are printed. -/
theorem read_compact (hread : Rereads S) (document : Json S) :
    read (compact document) = some (reread depthLimit document) :=
  (legible_of_rereads hread document).spells_compact.read

end GraphReasoner.Json
