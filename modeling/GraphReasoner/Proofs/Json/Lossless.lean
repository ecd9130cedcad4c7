import GraphReasoner.Proofs.Json.Apart
import GraphReasoner.Proofs.Json.Reread

/-!
# Documents that come back as they were

Nothing is lost between writing a document and reading it when its integers can be kept as integers,
its numbers are finite, and it is nested no deeper than the reader goes
(`GraphReasoner.Json.Within`). Then a value that is decoded from the document is decoded from either
of its texts (`GraphReasoner.Json.GivesBack`), and whether decoding undoes encoding is a question
about documents alone (`GraphReasoner.Json.Within.givesBack`).
-/

namespace GraphReasoner.Json

variable {S α : Type} [Numeral S]

/-- **A document within so many levels** of nesting, with nothing in it that is read as something
else. -/
inductive Within : Nat → Json S → Prop
  | null {depth : Nat} : Within depth null
  | bool {depth : Nat} (b : Bool) : Within depth (bool b)
  | int {depth : Nat} {i : Int} (least : leastInteger ≤ i) (greatest : i ≤ greatestInteger) :
    Within depth (int i)
  | float {depth : Nat} {x : S} (finite : Numeral.Finite x) : Within depth (float x)
  | string {depth : Nat} (s : String) : Within depth (string s)
  | array {depth : Nat} {items : List (Json S)} (within : ∀ item ∈ items, Within depth item) :
    Within (depth + 1) (array items)
  | object {depth : Nat} {fields : List (String × Json S)}
    (within : ∀ field ∈ fields, Within depth field.2) : Within (depth + 1) (object fields)

theorem rereadItems_eq_map (depth : Nat) (items : List (Json S)) :
    rereadItems depth items = items.map (reread depth) := by
  induction items with
  | nil => rw [rereadItems, List.map_nil]
  | cons item items ih => rw [rereadItems, ih, List.map_cons]

/-- **A document within the levels that are left is read as it was written.** -/
theorem Within.reread {depth : Nat} {document : Json S} (h : Within depth document) :
    reread depth document = document := by
  induction h with
  | null => rw [Json.reread]
  | bool b => rw [Json.reread]
  | int least greatest => rw [Json.reread, integer, if_pos ⟨least, greatest⟩]
  | float finite => rw [Json.reread, if_pos finite]
  | string s => rw [Json.reread]
  | @array depth items _ ih =>
    -- the brackets take one level, and the items have the rest
    have hitems : items.map (Json.reread depth) = items := by
      rw [List.map_congr_left ih, List.map_id']
    rw [Json.reread, if_neg (Nat.succ_ne_zero depth), Nat.add_sub_cancel, rereadItems_eq_map,
      hitems]
  | @object depth fields _ ih =>
    have hfields : fields.map (Prod.map id (Json.reread depth)) = fields := by
      have hfield : ∀ field ∈ fields, Prod.map id (Json.reread depth) field = field :=
        fun field hfield => Prod.ext rfl (ih field hfield)
      rw [List.map_congr_left hfield, List.map_id']
    rw [Json.reread, if_neg (Nat.succ_ne_zero depth), Nat.add_sub_cancel, rereadFields_eq_map,
      hfields]

/-- A field that is given keeps within the levels when its value does. -/
theorem forall_mem_written {β : Type} {name : String} {encode : β → Json S} {value : Option β}
    {depth : Nat} (h : ∀ v ∈ value, Within depth (encode v)) :
    ∀ field ∈ written name encode value, Within depth field.2 := by
  cases value with
  | none => exact List.forall_mem_nil _
  | some v => exact List.forall_mem_singleton.2 (h v rfl)

/-- **A document gives a value back** when the value is decoded from both texts of the document. -/
structure GivesBack (decode : Json S → Option α) (document : Json S) (x : α) : Prop where
  compact : (read (compact document)).bind decode = some x
  pretty : (read (pretty document)).bind decode = some x

/-- **Nothing is lost on the way.** Over numbers that print exactly, a document within the levels of
the reader gives back whatever is decoded from it. -/
theorem Within.givesBack (hprint : PrintsExactly S) {document : Json S}
    (h : Within depthLimit document) {decode : Json S → Option α} {x : α}
    (hdecode : decode document = some x) : GivesBack decode document x := by
  have hlegible : Legible document := legible_of_rereads hprint.rereads document
  constructor
  · rw [hlegible.spells_compact.read, h.reread, Option.bind_some, hdecode]
  · rw [Json.pretty, (hlegible.spells_prettyAt 0).read, h.reread, Option.bind_some, hdecode]

end GraphReasoner.Json
