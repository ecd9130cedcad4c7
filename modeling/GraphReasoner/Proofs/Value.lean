import GraphReasoner.Properties
import GraphReasoner.Proofs.Json.Lossless
import GraphReasoner.Proofs.Table

/-!
# Values that are stored and read again

A value is stored as the document it wraps, and the document does not say which kind of value it
came from. For a value that a program can hold (`GraphReasoner.Value.Storable`) nothing is lost all
the same: its integers are read as integers, its finite numbers as numbers, and its maps, whose keys
ascend, as the maps they were. So whatever value such a document is read as, it is the value that
was stored (`GraphReasoner.Value.Storable.readAs`). It may be read as none, when it is nested too
deeply; and it is read as the value when its nesting (`GraphReasoner.Value.nesting`) leaves enough
levels (`GraphReasoner.Value.Storable.within`, `GraphReasoner.Value.Storable.ofJson?_toJson`).
-/

namespace GraphReasoner

variable {S : Type} [Numeral S]

/-- **A value that a program can hold and store**: its integers have 64 bits, its numbers are
finite, and the keys of its maps ascend. -/
inductive Value.Storable : Value S → Prop
  | null : Storable null
  | bool (b : Bool) : Storable (bool b)
  | int {i : Int} (least : Json.leastInteger ≤ i) (greatest : i ≤ greatestInteger) :
    Storable (int i)
  | float {x : S} (finite : Numeral.Finite x) : Storable (float x)
  | text (s : String) : Storable (text s)
  | list {items : List (Value S)} (storable : ∀ item ∈ items, Storable item) :
    Storable (list items)
  | map {entries : List (String × Value S)} (ordered : Table.Ordered entries)
    (storable : ∀ entry ∈ entries, Storable entry.2) : Storable (map entries)

namespace Json

theorem integer_of_storable {i : Int} (least : leastInteger ≤ i)
    (greatest : i ≤ Value.greatestInteger) : integer (S := S) i = int i := by
  have hgreatest : i ≤ greatestInteger := by
    unfold greatestInteger
    unfold Value.greatestInteger at greatest
    omega
  exact if_pos ⟨least, hgreatest⟩

end Json

namespace Value

open Json (reread rereadItems rereadFields)

/-- **What is read is what was stored**, at any depth. -/
def ReadAs (v : Value S) : Prop :=
  ∀ (depth : Nat) (w : Value S), ofJson? (reread depth v.toJson) = some w → w = v

theorem eq_of_rereadItems {items : List (Value S)} (h : ∀ item ∈ items, item.ReadAs)
    {depth : Nat} {values : List (Value S)}
    (hv : ofJsonItems? (rereadItems depth (toJsonItems items)) = some values) :
    values = items := by
  induction items generalizing values with
  | nil =>
    rw [toJsonItems, rereadItems, ofJsonItems?] at hv
    exact (Option.some.inj hv).symm
  | cons item items ih =>
    rw [toJsonItems, rereadItems, ofJsonItems?] at hv
    simp only [Option.bind_eq_bind, Option.bind_eq_some_iff] at hv
    obtain ⟨value, hvalue, rest, hrest, heq⟩ := hv
    rw [List.forall_mem_cons] at h
    rw [h.1 depth value hvalue, ih h.2 hrest] at heq
    exact (Option.some.inj heq).symm

theorem eq_of_rereadFields {entries : List (String × Value S)}
    (h : ∀ entry ∈ entries, entry.2.ReadAs) {depth : Nat} {values : List (String × Value S)}
    (hv : ofJsonFields? (rereadFields depth (toJsonEntries entries)) = some values) :
    values = entries := by
  induction entries generalizing values with
  | nil =>
    rw [toJsonEntries, rereadFields, ofJsonFields?] at hv
    exact (Option.some.inj hv).symm
  | cons entry entries ih =>
    obtain ⟨key, item⟩ := entry
    rw [toJsonEntries, rereadFields, ofJsonFields?] at hv
    simp only [Option.bind_eq_bind, Option.bind_eq_some_iff] at hv
    obtain ⟨value, hvalue, rest, hrest, heq⟩ := hv
    rw [List.forall_mem_cons] at h
    rw [h.1 depth value hvalue, ih h.2 hrest] at heq
    exact (Option.some.inj heq).symm

/-- **A storable value is read as itself or not at all.** -/
theorem Storable.readAs {v : Value S} (h : v.Storable) : v.ReadAs := by
  intro depth w hw
  induction h generalizing depth w with
  | null => exact (Option.some.inj hw).symm
  | bool b => exact (Option.some.inj hw).symm
  | @int i least greatest =>
    rw [toJson, reread, Json.integer_of_storable least greatest, ofJson?, if_pos greatest] at hw
    exact (Option.some.inj hw).symm
  | @float x finite =>
    rw [toJson, reread, if_pos finite] at hw
    exact (Option.some.inj hw).symm
  | text s => exact (Option.some.inj hw).symm
  | list _ ih =>
    rw [toJson, reread] at hw
    split at hw
    · cases hw
    · rw [ofJson?] at hw
      obtain ⟨values, hvalues, rfl⟩ := Option.map_eq_some_iff.1 hw
      rw [eq_of_rereadItems (fun item hitem => ih item hitem) hvalues]
  | map ordered _ ih =>
    rw [toJson, reread] at hw
    split at hw
    · cases hw
    · rw [ofJson?] at hw
      obtain ⟨values, hvalues, rfl⟩ := Option.map_eq_some_iff.1 hw
      -- the fields are read in order, so they are sorted into the table they came from
      rw [eq_of_rereadFields (fun entry hentry => ih entry hentry) hvalues, ordered.ofList_eq]

/-! ### Values that come back -/

section Nesting

omit [Numeral S]

mutual

/-- How deeply lists and maps are nested in a value. -/
def nesting : Value S → Nat
  | null | bool _ | int _ | float _ | text _ => 0
  | list items => nestingItems items + 1
  | map entries => nestingEntries entries + 1

/-- The deepest nesting among some items. -/
def nestingItems : List (Value S) → Nat
  | [] => 0
  | item :: items => max (nesting item) (nestingItems items)

/-- The deepest nesting among the values of some entries. -/
def nestingEntries : List (String × Value S) → Nat
  | [] => 0
  | (_, value) :: entries => max (nesting value) (nestingEntries entries)

end

theorem toJsonItems_eq_map (items : List (Value S)) : toJsonItems items = items.map toJson := by
  induction items with
  | nil => rw [toJsonItems, List.map_nil]
  | cons item items ih => rw [toJsonItems, ih, List.map_cons]

theorem toJsonEntries_eq_map (entries : List (String × Value S)) :
    toJsonEntries entries = entries.map (Prod.map id toJson) := by
  induction entries with
  | nil => rw [toJsonEntries, List.map_nil]
  | cons entry entries ih =>
    obtain ⟨key, value⟩ := entry
    rw [toJsonEntries, ih, List.map_cons]
    rfl

theorem nesting_le_nestingItems {items : List (Value S)} {item : Value S} (h : item ∈ items) :
    item.nesting ≤ nestingItems items := by
  induction items with
  | nil => cases h
  | cons first items ih =>
    rw [nestingItems]
    rcases List.mem_cons.1 h with rfl | h
    · exact Nat.le_max_left _ _
    · exact (ih h).trans (Nat.le_max_right _ _)

theorem nesting_le_nestingEntries {entries : List (String × Value S)} {entry : String × Value S}
    (h : entry ∈ entries) : entry.2.nesting ≤ nestingEntries entries := by
  induction entries with
  | nil => cases h
  | cons first entries ih =>
    rw [nestingEntries]
    rcases List.mem_cons.1 h with rfl | h
    · exact Nat.le_max_left _ _
    · exact (ih h).trans (Nat.le_max_right _ _)

end Nesting

/-- Entries keep within the levels when their values do. -/
theorem within_toJsonEntries {entries : List (String × Value S)} {depth : Nat}
    (h : ∀ entry ∈ entries, Json.Within depth entry.2.toJson) :
    ∀ field ∈ toJsonEntries entries, Json.Within depth field.2 := by
  intro field hfield
  rw [toJsonEntries_eq_map] at hfield
  obtain ⟨entry, hentry, rfl⟩ := List.mem_map.1 hfield
  exact h entry hentry

/-- **The document of a storable value is nested as the value is.** -/
theorem Storable.within {v : Value S} (h : v.Storable) {depth : Nat} (hd : v.nesting ≤ depth) :
    Json.Within depth v.toJson := by
  induction h generalizing depth with
  | null => exact .null
  | bool b => exact .bool b
  | int least greatest =>
    -- documents keep integers of one more bit
    refine .int least ?_
    unfold Json.greatestInteger
    unfold greatestInteger at greatest
    omega
  | float finite => exact .float finite
  | text s => exact .string s
  | @list items _ ih =>
    rw [nesting] at hd
    obtain ⟨depth, rfl⟩ := Nat.exists_eq_add_of_le' hd
    refine .array fun document hdocument => ?_
    rw [toJsonItems_eq_map] at hdocument
    obtain ⟨item, hitem, rfl⟩ := List.mem_map.1 hdocument
    exact ih item hitem ((nesting_le_nestingItems hitem).trans (Nat.le_add_left ..))
  | @map entries _ _ ih =>
    rw [nesting] at hd
    obtain ⟨depth, rfl⟩ := Nat.exists_eq_add_of_le' hd
    refine .object (within_toJsonEntries fun entry hentry => ?_)
    exact ih entry hentry ((nesting_le_nestingEntries hentry).trans (Nat.le_add_left ..))

theorem ofJsonItems?_toJsonItems {items : List (Value S)}
    (h : ∀ item ∈ items, ofJson? item.toJson = some item) :
    ofJsonItems? (toJsonItems items) = some items := by
  induction items with
  | nil => rfl
  | cons item items ih =>
    obtain ⟨hitem, hitems⟩ := List.forall_mem_cons.1 h
    rw [toJsonItems, ofJsonItems?, hitem, ih hitems]
    rfl

theorem ofJsonFields?_toJsonEntries {entries : List (String × Value S)}
    (h : ∀ entry ∈ entries, ofJson? entry.2.toJson = some entry.2) :
    ofJsonFields? (toJsonEntries entries) = some entries := by
  induction entries with
  | nil => rfl
  | cons entry entries ih =>
    obtain ⟨key, value⟩ := entry
    obtain ⟨hvalue, hentries⟩ := List.forall_mem_cons.1 h
    rw [toJsonEntries, ofJsonFields?, hvalue, ih hentries]
    rfl

/-- **A storable value is decoded from its document**, as the kind of value it is. -/
theorem Storable.ofJson?_toJson {v : Value S} (h : v.Storable) : ofJson? v.toJson = some v := by
  induction h with
  | null => rfl
  | bool b => rfl
  | int least greatest => rw [toJson, ofJson?, if_pos greatest]
  | float finite => rfl
  | text s => rfl
  | list _ ih =>
    rw [toJson, ofJson?, ofJsonItems?_toJsonItems ih]
    rfl
  | map ordered _ ih =>
    rw [toJson, ofJson?, ofJsonFields?_toJsonEntries ih, Option.map_some, ordered.ofList_eq]

end Value

namespace Properties

open Json (reread)

/-- **Properties that a program can hold and store.** -/
structure Storable (p : Properties S) : Prop where
  ordered : p.entries.Ordered
  storable : ∀ entry ∈ p.entries, entry.2.Storable

theorem Storable.insert {p : Properties S} (h : p.Storable) {key : String} {value : Value S}
    (hvalue : value.Storable) : (p.insert key value).Storable where
  ordered := h.ordered.insert key value
  storable := by
    intro entry hentry
    rcases Table.mem_insert hentry with rfl | hold
    · exact hvalue
    · exact h.storable entry hold

/-- **Storable properties are read as themselves or not at all.** -/
theorem Storable.eq_of_reread {p q : Properties S} (h : p.Storable) {depth : Nat}
    (hq : ofJson? (reread depth p.toJson) = some q) : q = p := by
  rw [toJson, reread] at hq
  split at hq
  · cases hq
  · obtain ⟨values, hvalues, rfl⟩ := Option.map_eq_some_iff.1 hq
    rw [Value.eq_of_rereadFields (fun entry hentry => (h.storable entry hentry).readAs) hvalues,
      ofList, h.ordered.ofList_eq]

omit [Numeral S] in
/-- How deeply properties are nested, themselves included. -/
def nesting (p : Properties S) : Nat :=
  Value.nestingEntries p.entries + 1

theorem Storable.within {p : Properties S} (h : p.Storable) {depth : Nat}
    (hd : p.nesting ≤ depth) : Json.Within depth p.toJson := by
  obtain ⟨depth, rfl⟩ := Nat.exists_eq_add_of_le' hd
  refine .object (Value.within_toJsonEntries fun entry hentry => ?_)
  exact (h.storable entry hentry).within
    ((Value.nesting_le_nestingEntries hentry).trans (Nat.le_add_left ..))

theorem Storable.ofJson?_toJson {p : Properties S} (h : p.Storable) :
    ofJson? p.toJson = some p := by
  have hentries := Value.ofJsonFields?_toJsonEntries fun entry hentry =>
    (h.storable entry hentry).ofJson?_toJson
  rw [toJson, ofJson?, hentries, Option.map_some, ofList, h.ordered.ofList_eq]

end Properties

end GraphReasoner
