import GraphReasoner.Graph.Relation
import Mathlib.Data.List.Forall2

/-!
# The same content

Whether two entities have the same content is decided by comparing their fields. It comes down to
`GraphReasoner.Entity.Same`: the same texts, and properties with the same keys and, under each key,
values of the same shape that differ at most in numbers that compare equal
(`GraphReasoner.Entity.beq_iff_same`).

A zero compares equal to its negative, so this is not quite equality. A not-a-number does not
compare equal to itself, so an entity need not even have the same content as itself; it does when
each of its numbers compares equal to itself, as every finite one does
(`GraphReasoner.Entity.same_self`).
-/

namespace GraphReasoner

variable {S : Type}

namespace Value

/-- **Induction on a value**, with the items of a list and the values of a map. -/
@[elab_as_elim]
theorem induct {motive : Value S → Prop} (null : motive null) (bool : ∀ b, motive (bool b))
    (int : ∀ i, motive (int i)) (float : ∀ x, motive (float x)) (text : ∀ s, motive (text s))
    (list : ∀ items, (∀ item ∈ items, motive item) → motive (list items))
    (map : ∀ entries, (∀ entry ∈ entries, motive entry.2) → motive (map entries))
    (value : Value S) : motive value :=
  @Value.rec S motive (fun items => ∀ item ∈ items, motive item)
    (fun entries => ∀ entry ∈ entries, motive entry.2) (fun entry => motive entry.2)
    null bool int float text list map
    (fun _ h => nomatch h) (fun _ _ hitem hitems => List.forall_mem_cons.2 ⟨hitem, hitems⟩)
    (fun _ h => nomatch h) (fun _ _ hentry hentries => List.forall_mem_cons.2 ⟨hentry, hentries⟩)
    (fun _ _ h => h) value

variable [BEq S]

/-- **Values of the same content**: of one shape, with numbers that compare equal in the same
places. -/
inductive Same : Value S → Value S → Prop
  | null : Same null null
  | bool (b : Bool) : Same (bool b) (bool b)
  | int (i : Int) : Same (int i) (int i)
  | float {x y : S} (h : (x == y) = true) : Same (float x) (float y)
  | text (s : String) : Same (text s) (text s)
  | list {items others : List (Value S)} (h : List.Forall₂ Same items others) :
    Same (list items) (list others)
  | map {entries others : Table (Value S)} (keys : entries.keys = others.keys)
    (values : List.Forall₂ Same entries.values others.values) : Same (map entries) (map others)

/-- A number somewhere in a value. -/
inductive HasFloat (x : S) : Value S → Prop
  | float : HasFloat x (float x)
  | list {item : Value S} {items : List (Value S)} (hitem : item ∈ items) (h : HasFloat x item) :
    HasFloat x (list items)
  | map {entry : String × Value S} {entries : List (String × Value S)} (hentry : entry ∈ entries)
    (h : HasFloat x entry.2) : HasFloat x (map entries)

theorem beqItems_iff {items : List (Value S)}
    (h : ∀ item ∈ items, ∀ other, beq item other = true ↔ item.Same other)
    (others : List (Value S)) : beqItems items others = true ↔ List.Forall₂ Same items others := by
  induction items generalizing others with
  | nil => cases others <;> simp [beqItems]
  | cons item items ih =>
    rw [List.forall_mem_cons] at h
    cases others with
    | nil => simp [beqItems]
    | cons other others => rw [beqItems, Bool.and_eq_true, h.1, ih h.2, List.forall₂_cons]

theorem beqEntries_iff {entries : Table (Value S)}
    (h : ∀ entry ∈ entries, ∀ other, beq entry.2 other = true ↔ entry.2.Same other)
    (others : Table (Value S)) : beqEntries entries others = true ↔
      entries.keys = others.keys ∧ List.Forall₂ Same entries.values others.values := by
  induction entries generalizing others with
  | nil => cases others <;> simp [beqEntries, Table.keys, Table.values]
  | cons entry entries ih =>
    obtain ⟨key, value⟩ := entry
    rw [List.forall_mem_cons] at h
    cases others with
    | nil => simp [beqEntries, Table.keys]
    | cons other others =>
      obtain ⟨otherKey, other⟩ := other
      have hvalue : beq value other = true ↔ value.Same other := h.1 other
      rw [beqEntries, Bool.and_eq_true, Bool.and_eq_true, beq_iff_eq, hvalue, ih h.2]
      simp [Table.keys, Table.values, and_assoc, and_left_comm]

/-- **Comparing decides whether the content is the same.** -/
theorem beq_iff_same (v w : Value S) : (v == w) = true ↔ v.Same w := by
  change beq v w = true ↔ v.Same w
  induction v using Value.induct generalizing w with
  | null => cases w <;> first | exact ⟨fun _ => .null, fun _ => rfl⟩ | exact ⟨nofun, nofun⟩
  | bool b =>
    cases w with
    | bool b' =>
      rw [beq, beq_iff_eq]
      exact ⟨fun h => h ▸ .bool b, fun h => by cases h; rfl⟩
    | _ => exact ⟨nofun, nofun⟩
  | int i =>
    cases w with
    | int i' =>
      rw [beq, beq_iff_eq]
      exact ⟨fun h => h ▸ .int i, fun h => by cases h; rfl⟩
    | _ => exact ⟨nofun, nofun⟩
  | float x =>
    cases w with
    | float y =>
      rw [beq]
      exact ⟨.float, fun h => by cases h; assumption⟩
    | _ => exact ⟨nofun, nofun⟩
  | text s =>
    cases w with
    | text s' =>
      rw [beq, beq_iff_eq]
      exact ⟨fun h => h ▸ .text s, fun h => by cases h; rfl⟩
    | _ => exact ⟨nofun, nofun⟩
  | list items ih =>
    cases w with
    | list others =>
      rw [beq, beqItems_iff ih]
      exact ⟨.list, fun h => by cases h; assumption⟩
    | _ => exact ⟨nofun, nofun⟩
  | map entries ih =>
    cases w with
    | map others =>
      rw [beq, beqEntries_iff ih]
      constructor
      · rintro ⟨keys, values⟩
        exact .map keys values
      · rintro (_ | _)
        exact ⟨‹_›, ‹_›⟩
    | _ => exact ⟨nofun, nofun⟩

/-- A value whose numbers compare equal to themselves has the same content as itself. -/
theorem same_self {v : Value S} (h : ∀ x, v.HasFloat x → (x == x) = true) : v.Same v := by
  induction v using Value.induct with
  | null => exact .null
  | bool b => exact .bool b
  | int i => exact .int i
  | float x => exact .float (h x .float)
  | text s => exact .text s
  | list items ih =>
    refine .list (List.forall₂_same.2 fun item hitem => ?_)
    exact ih item hitem fun x hx => h x (.list hitem hx)
  | map entries ih =>
    refine .map rfl (List.forall₂_same.2 fun value hvalue => ?_)
    obtain ⟨entry, hentry, rfl⟩ := List.mem_map.1 hvalue
    exact ih entry hentry fun x hx => h x (.map hentry hx)

/-! ### A partial equivalence -/

theorem forall₂_symm {items others : List (Value S)}
    (h : ∀ item ∈ items, ∀ w, item.Same w → w.Same item) (hsame : List.Forall₂ Same items others) :
    List.Forall₂ Same others items := by
  induction hsame with
  | nil => exact .nil
  | cons hfirst _ ih =>
    obtain ⟨hitem, hitems⟩ := List.forall_mem_cons.1 h
    exact .cons (hitem _ hfirst) (ih hitems)

theorem forall₂_trans {items others rest : List (Value S)}
    (h : ∀ item ∈ items, ∀ v w, item.Same v → v.Same w → item.Same w)
    (hv : List.Forall₂ Same items others) (hw : List.Forall₂ Same others rest) :
    List.Forall₂ Same items rest := by
  induction hv generalizing rest with
  | nil =>
    obtain rfl := List.forall₂_nil_left_iff.1 hw
    exact .nil
  | cons hfirst _ ih =>
    obtain ⟨w, ws, hfirst', hrest', rfl⟩ := List.forall₂_cons_left_iff.1 hw
    obtain ⟨hitem, hitems⟩ := List.forall_mem_cons.1 h
    exact .cons (hitem _ _ hfirst hfirst') (ih hitems hrest')

section PartialEquivalence

variable [PartialEquivBEq S]

/-- When comparing numbers is symmetric, so is having the same content. -/
theorem Same.symm {v w : Value S} (h : v.Same w) : w.Same v := by
  induction v using Value.induct generalizing w with
  | null => cases h; exact .null
  | bool b => cases h; exact .bool b
  | int i => cases h; exact .int i
  | text s => cases h; exact .text s
  | float x =>
    cases h with
    | float hxy => exact .float (PartialEquivBEq.symm hxy)
  | list items ih =>
    cases h with
    | list hothers => exact .list (forall₂_symm (fun item hitem _ => ih item hitem) hothers)
  | map entries ih =>
    cases h with
    | map keys values =>
      refine .map keys.symm (forall₂_symm (fun value hvalue _ => ?_) values)
      obtain ⟨entry, hentry, rfl⟩ := List.mem_map.1 hvalue
      exact ih entry hentry

/-- When comparing numbers is transitive, so is having the same content. -/
theorem Same.trans {u v w : Value S} (h : u.Same v) (h' : v.Same w) : u.Same w := by
  induction u using Value.induct generalizing v w with
  | null => cases h; exact h'
  | bool b => cases h; exact h'
  | int i => cases h; exact h'
  | text s => cases h; exact h'
  | float x =>
    cases h with
    | float hxy =>
      cases h' with
      | float hyz => exact .float (PartialEquivBEq.trans hxy hyz)
  | list items ih =>
    cases h with
    | list hothers =>
      cases h' with
      | list hrest =>
        exact .list (forall₂_trans (fun item hitem _ _ => ih item hitem) hothers hrest)
  | map entries ih =>
    cases h with
    | map keys values =>
      cases h' with
      | map keys' values' =>
        refine .map (keys.trans keys') (forall₂_trans (fun value hvalue _ _ => ?_) values values')
        obtain ⟨entry, hentry, rfl⟩ := List.mem_map.1 hvalue
        exact ih entry hentry

end PartialEquivalence

end Value

variable [BEq S]

namespace Properties

/-- **Properties of the same content**: the same keys, and values of the same content. -/
def Same (p q : Properties S) : Prop :=
  p.entries.keys = q.entries.keys ∧ List.Forall₂ Value.Same p.entries.values q.entries.values

theorem beq_iff_same (p q : Properties S) : (p == q) = true ↔ p.Same q := by
  obtain ⟨entries⟩ := p
  obtain ⟨others⟩ := q
  change (entries == others) = true ↔ _
  have h : (entries == others) = Value.beqEntries entries others := by
    induction entries generalizing others with
    | nil => cases others <;> rfl
    | cons entry entries ih =>
      cases others with
      | nil => rfl
      | cons other others =>
        rw [List.cons_beq_cons, ih, Value.beqEntries]
        rfl
  rw [h]
  exact Value.beqEntries_iff (fun entry _ => Value.beq_iff_same entry.2) others

end Properties

namespace Entity

/-- **Entities of the same content**: the same texts, and properties of the same content. -/
structure Same (e e' : Entity S) : Prop where
  id : e.id = e'.id
  name : e.name = e'.name
  kind : e.kind = e'.kind
  properties : e.properties.Same e'.properties

theorem beq_iff_same (e e' : Entity S) : (e == e') = true ↔ e.Same e' := by
  change (e.id == e'.id && e.name == e'.name && e.kind == e'.kind &&
    e.properties == e'.properties) = true ↔ _
  simp only [Bool.and_eq_true, beq_iff_eq, Properties.beq_iff_same]
  exact ⟨fun ⟨⟨⟨hid, hname⟩, hkind⟩, hproperties⟩ => ⟨hid, hname, hkind, hproperties⟩,
    fun h => ⟨⟨⟨h.id, h.name⟩, h.kind⟩, h.properties⟩⟩

/-- An entity whose numbers compare equal to themselves has the same content as itself. -/
theorem same_self {e : Entity S}
    (h : ∀ value ∈ e.properties.entries.values, ∀ x, value.HasFloat x → (x == x) = true) :
    e.Same e :=
  ⟨rfl, rfl, rfl, rfl, List.forall₂_same.2 fun value hvalue => Value.same_self (h value hvalue)⟩

theorem Same.symm [PartialEquivBEq S] {e e' : Entity S} (h : e.Same e') : e'.Same e :=
  ⟨h.id.symm, h.name.symm, h.kind.symm, h.properties.1.symm,
    Value.forall₂_symm (fun _ _ _ => Value.Same.symm) h.properties.2⟩

theorem Same.trans [PartialEquivBEq S] {e e' e'' : Entity S} (h : e.Same e') (h' : e'.Same e'') :
    e.Same e'' :=
  ⟨h.id.trans h'.id, h.name.trans h'.name, h.kind.trans h'.kind,
    h.properties.1.trans h'.properties.1,
    Value.forall₂_trans (fun _ _ _ _ => Value.Same.trans) h.properties.2 h'.properties.2⟩

end Entity

end GraphReasoner
