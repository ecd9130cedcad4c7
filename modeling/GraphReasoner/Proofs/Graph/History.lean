import GraphReasoner.Proofs.Graph.Content
import GraphReasoner.Proofs.Graph.Store
import Mathlib.Data.List.Induction
import Mathlib.Data.List.Nodup

/-!
# What a graph says about the calls that grew it

A graph grows by calls that add an entity or a relation, and a call that fails changes nothing
(`GraphReasoner.Graph.grow`). What the graph is afterwards can be read off the calls that succeeded,
without a graph (`GraphReasoner.Graph.history_grow`). Of an entity the first mention counts, where a
relation mentions its source and then its target. Of the relations with one triple of source,
target and type the last one counts, between the entities that were mentioned first. Entities and
relations are listed in the order in which their identifiers and triples came up.

The two sides are tied by `GraphReasoner.Graph.Tells`, which every successful call keeps. It speaks
of look-ups and of the order of identifiers and triples separately, as the two are changed
separately.
-/

namespace GraphReasoner

variable {S : Type}

/-- **A relation is valid** when nothing is wrong with any part of it. -/
theorem Relation.validate_eq_ok_iff [Scalar S] (r : Relation S) : r.validate = .ok () ↔
    r.source.validate = .ok () ∧ r.target.validate = .ok () ∧ ¬Text.AllBlank r.kind ∧
      Scalar.InUnit r.confidence ∧ ∀ bounds ∈ r.temporal, ¬bounds.Reversed := by
  unfold Relation.validate
  rcases r.source.validate with error | ⟨⟩
  · exact ⟨nofun, fun h => nomatch h.1⟩
  rcases r.target.validate with error | ⟨⟩
  · exact ⟨nofun, fun h => nomatch h.2.1⟩
  by_cases hkind : Text.AllBlank r.kind
  · simp [hkind, Bind.bind, Except.bind, throw, throwThe, MonadExceptOf.throw]
  by_cases hunit : Scalar.InUnit r.confidence
  · rcases r.temporal with _ | bounds
    · simp [hkind, hunit, Bind.bind, Except.bind, pure, Except.pure]
    · by_cases hreversed : bounds.Reversed <;>
        simp [hkind, hunit, hreversed, Bind.bind, Except.bind, pure, Except.pure, throw, throwThe,
          MonadExceptOf.throw]
  · simp [hkind, hunit, Bind.bind, Except.bind, throw, throwThe, MonadExceptOf.throw]

namespace Graph

/-! ### Lists in the order of first appearance -/

section Order

variable {α β : Type} [BEq β] [LawfulBEq β]

/-- What came up already does not come up again. -/
theorem eraseDups_concat (bs : List β) (b : β) :
    (bs ++ [b]).eraseDups = if b ∈ bs then bs.eraseDups else bs.eraseDups ++ [b] := by
  rw [List.eraseDups_append]
  by_cases h : b ∈ bs <;> simp [List.removeAll, h, List.eraseDups_cons]

/-- Which labels come up, and in which order, does not depend on repetitions. -/
theorem eraseDups_map_eraseDups [BEq α] [LawfulBEq α] (label : α → β) (items : List α) :
    (items.eraseDups.map label).eraseDups = (items.map label).eraseDups := by
  induction items using List.reverseRecOn with
  | nil => rfl
  | append_singleton items a ih =>
    have hmem : label a ∈ items.eraseDups.map label ↔ label a ∈ items.map label := by
      simp only [List.mem_map, List.mem_eraseDups]
    rw [List.map_append, List.map_singleton, eraseDups_concat, eraseDups_concat]
    by_cases ha : a ∈ items
    · rw [if_pos ha, if_pos (List.mem_map_of_mem ha), ih]
    · rw [if_neg ha, List.map_append, List.map_singleton, eraseDups_concat, ih]
      simp only [hmem]

theorem nodup_eraseDups (bs : List β) : bs.eraseDups.Nodup := by
  induction bs using List.reverseRecOn with
  | nil => simp
  | append_singleton bs b ih =>
    rw [eraseDups_concat]
    split
    · exact ih
    · rename_i h
      exact List.nodup_append.2 ⟨ih, List.nodup_singleton b, fun x hx y hy => by
        rw [List.mem_singleton.1 hy]
        rintro rfl
        exact h (List.mem_eraseDups.1 hx)⟩

/-- When no label repeats, an item is what its label finds. -/
theorem find?_of_mem {label : α → β} {items : List α} (h : (items.map label).Nodup) {item : α}
    (hitem : item ∈ items) : items.find? (fun other => label other == label item) = some item := by
  rcases hf : items.find? fun other => label other == label item with _ | found
  · exact absurd (beq_self_eq_true (label item)) (List.find?_eq_none.1 hf item hitem)
  · have hlabel : label found = label item := by simpa using List.find?_some hf
    rw [List.inj_on_of_nodup_map h (List.mem_of_find?_eq_some hf) hitem hlabel]

/-- When no label repeats, an item is all that has its label. -/
theorem filter_of_mem {label : α → β} {items : List α} (h : (items.map label).Nodup) {item : α}
    (hitem : item ∈ items) : items.filter (fun other => label other == label item) = [item] := by
  induction items with
  | nil => cases hitem
  | cons first rest ih =>
    obtain ⟨hfirst, hrest⟩ := List.nodup_cons.1 h
    rcases List.mem_cons.1 hitem with rfl | hin
    · have hnone : rest.filter (fun other => label other == label item) = [] :=
        List.filter_eq_nil_iff.2 fun other hother heq =>
          hfirst (eq_of_beq heq ▸ List.mem_map_of_mem hother)
      rw [List.filter_cons, if_pos (beq_self_eq_true _), hnone]
    · have hne : label first ≠ label item := fun heq => hfirst (heq ▸ List.mem_map_of_mem hin)
      rw [List.filter_cons, if_neg (by simpa using hne), ih hrest hin]

end Order

/-! ### Calls -/

/-- A call that grows a graph. -/
inductive Insertion (S : Type)
  | entity (e : Entity S)
  | relation (r : Relation S)

/-- The entities that a call mentions, in order. -/
def Insertion.mentions : Insertion S → List (Entity S)
  | entity e => [e]
  | relation r => [r.source, r.target]

/-- The relation that a call adds, if it adds one. -/
def Insertion.added? : Insertion S → Option (Relation S)
  | entity _ => none
  | relation r => some r

/-- The entities that calls mention, in order. -/
def mentioned (calls : List (Insertion S)) : List (Entity S) :=
  calls.flatMap Insertion.mentions

/-- The relations that calls add, in order. -/
def related (calls : List (Insertion S)) : List (Relation S) :=
  calls.filterMap Insertion.added?

section Calls

variable [Scalar S]

/-- Makes a call. -/
def insert (g : Graph S) : Insertion S → Result S (Graph S)
  | .entity e => (g.addEntity e).map Prod.snd
  | .relation r => g.addRelation r

/-- The graph after a call, which is the graph before it if the call fails. -/
def after (g : Graph S) (call : Insertion S) : Graph S :=
  match g.insert call with
  | .ok g' => g'
  | .error _ => g

/-- The graph after some calls. -/
def grow (g : Graph S) (calls : List (Insertion S)) : Graph S :=
  calls.foldl after g

/-- The calls that succeed. -/
def accepted (g : Graph S) : List (Insertion S) → List (Insertion S)
  | [] => []
  | call :: calls =>
    match g.insert call with
    | .ok g' => call :: accepted g' calls
    | .error _ => accepted g calls

theorem grow_append (g : Graph S) (calls more : List (Insertion S)) :
    g.grow (calls ++ more) = (g.grow calls).grow more :=
  List.foldl_append

theorem grow_concat (g : Graph S) (calls : List (Insertion S)) (call : Insertion S) :
    g.grow (calls ++ [call]) = (g.grow calls).after call :=
  grow_append g calls [call]

/-- The last call of some is accepted or refused by the graph that the others have left. -/
theorem accepted_concat (g : Graph S) (calls : List (Insertion S)) (call : Insertion S) :
    g.accepted (calls ++ [call]) = match (g.grow calls).insert call with
      | .ok _ => g.accepted calls ++ [call]
      | .error _ => g.accepted calls := by
  induction calls generalizing g with
  | nil =>
    simp only [List.nil_append, accepted, grow, List.foldl_nil]
  | cons first calls ih =>
    rw [List.cons_append, accepted, accepted, grow, List.foldl_cons, after]
    rcases g.insert first with error | g'
    · exact ih g
    · simp only
      rw [ih g', grow]
      split <;> rfl

end Calls

/-! ### Binding an entity, putting a record -/

/-- **The entities of a graph are the first of each identifier** among some that were mentioned. -/
structure Binds (g : Graph S) (entities : List (Entity S)) : Prop where
  entity : ∀ id, g.entity? id = entities.find? fun e => e.id == id
  ids : g.entities.map Entity.id = (entities.map Entity.id).eraseDups

section Binds

variable {g : Graph S} {entities : List (Entity S)}

theorem Binds.hasEntity_iff (h : g.Binds entities) {id : String} :
    g.hasEntity id = true ↔ id ∈ entities.map Entity.id := by
  rw [← List.mem_eraseDups, ← h.ids, hasEntity, List.any_eq_true, List.mem_map]
  simp only [beq_iff_eq]

/-- **Binding an entity mentions it.** -/
theorem Binds.bind (h : g.Binds entities) (e : Entity S) :
    (g.bind e).Binds (entities ++ [e]) := by
  have hmem : g.hasEntity e.id = true ↔ e.id ∈ entities.map Entity.id := h.hasEntity_iff
  unfold Graph.bind
  split
  · rename_i hbound
    constructor
    · intro id
      rw [h.entity, List.find?_append]
      -- the new mention finds nothing that was not found before
      by_cases hid : e.id = id
      · obtain ⟨first, hfirst⟩ := Graph.hasEntity_iff.1 (hid ▸ hbound)
        rw [← h.entity, hfirst]
        rfl
      · simp [hid]
    · rw [List.map_append, List.map_singleton, eraseDups_concat, if_pos (hmem.1 hbound)]
      exact h.ids
  · rename_i hbound
    constructor
    · intro id
      rw [List.find?_append, ← h.entity]
      exact List.find?_append
    · rw [List.map_append, List.map_append, List.map_singleton, eraseDups_concat,
        if_neg fun hin => hbound (hmem.2 hin), h.ids]

end Binds

/-- A record that was put is found, and otherwise what was found before. -/
theorem find?_put (records : List (Record S)) (r : Record S) (triple : String × String × String) :
    (put records r).find? (fun other => other.triple == triple) =
      if r.triple = triple then some r
      else records.find? fun other => other.triple == triple := by
  induction records with
  | nil =>
    rw [put, List.find?_singleton]
    simp
  | cons old rest ih =>
    rw [put]
    by_cases hold : old.triple = r.triple
    · rw [if_pos (beq_iff_eq.2 hold), List.find?_cons, List.find?_cons, hold]
      by_cases hr : r.triple = triple
      · rw [if_pos hr, beq_iff_eq.2 hr]
      · rw [if_neg hr, beq_eq_false_iff_ne.2 hr]
    · rw [if_neg fun heq => hold (beq_iff_eq.1 heq), List.find?_cons, List.find?_cons, ih]
      by_cases hr : r.triple = triple
      · rw [if_pos hr, if_pos hr, ← hr, beq_eq_false_iff_ne.2 hold]
      · rw [if_neg hr, if_neg hr]

/-- A triple that came up already keeps its place, and a new one comes last. -/
theorem map_triple_put (records : List (Record S)) (r : Record S) :
    (put records r).map Record.triple =
      if r.triple ∈ records.map Record.triple then records.map Record.triple
      else records.map Record.triple ++ [r.triple] := by
  induction records with
  | nil => rfl
  | cons old rest ih =>
    rw [put]
    by_cases hold : old.triple = r.triple
    · rw [if_pos (beq_iff_eq.2 hold), List.map_cons, List.map_cons, hold,
        if_pos List.mem_cons_self]
    · rw [if_neg fun heq => hold (beq_iff_eq.1 heq), List.map_cons, List.map_cons, ih]
      by_cases hin : r.triple ∈ rest.map Record.triple
      · rw [if_pos hin, if_pos (List.mem_cons_of_mem _ hin)]
      · rw [if_neg hin, if_neg (List.not_mem_cons_of_ne_of_not_mem (Ne.symm hold) hin)]
        rfl

/-! ### The invariant -/

variable [Scalar S]

/-- **A graph tells some calls**: its entities are the first they mention, its records the last they
add, both in the order in which they came up, and everything they bring is valid. -/
structure Tells (g : Graph S) (done : List (Insertion S)) : Prop extends
    g.Binds (mentioned done) where
  record : ∀ triple, g.record? triple =
    ((related done).reverse.find? fun r => r.triple == triple).map Relation.toRecord
  triples : g.records.map Record.triple = ((related done).map Relation.triple).eraseDups
  valid_mentioned : ∀ e ∈ mentioned done, e.validate = .ok ()
  valid_related : ∀ r ∈ related done, r.validate = .ok ()

/-- **What adding an entity can do**: an invalid one is refused, a new one is bound, and one whose
identifier is bound is refused unless the content is the same. -/
theorem addEntity_cases (g : Graph S) (e : Entity S) :
    (∃ error, e.validate = .error error ∧ g.addEntity e = .error error) ∨
    e.validate = .ok () ∧
      (g.entity? e.id = none ∧ g.addEntity e = .ok (true, g.bind e) ∨
      ∃ bound, g.entity? e.id = some bound ∧
        (bound.Same e ∧ g.addEntity e = .ok (false, g) ∨
        ¬bound.Same e ∧ g.addEntity e = .error (.duplicateEntity e.id))) := by
  unfold addEntity
  rcases hvalid : e.validate with error | ⟨⟩
  · exact Or.inl ⟨error, rfl, rfl⟩
  refine Or.inr ⟨rfl, ?_⟩
  rcases hbound : g.entity? e.id with _ | bound
  · have hnew : g.bind e = { g with entities := g.entities ++ [e] } := by
      refine if_neg fun hhas => ?_
      obtain ⟨bound, hbound'⟩ := Graph.hasEntity_iff.1 hhas
      rw [hbound] at hbound'
      cases hbound'
    rw [hnew]
    exact Or.inl ⟨rfl, rfl⟩
  · refine Or.inr ⟨bound, rfl, ?_⟩
    by_cases hsame : bound.Same e
    · have hbeq : (bound == e) = true := (Entity.beq_iff_same bound e).2 hsame
      exact Or.inl ⟨hsame, by simp only [Bind.bind, Except.bind, hbeq, if_true]; rfl⟩
    · have hbeq : (bound == e) = false :=
        Bool.eq_false_iff.2 fun h => hsame ((Entity.beq_iff_same bound e).1 h)
      exact Or.inr ⟨hsame, by simp only [Bind.bind, Except.bind, hbeq]; rfl⟩

/-- **An entity is refused** exactly when it is invalid or its identifier is bound to another
content. -/
theorem addEntity_error_iff {g : Graph S} {e : Entity S} :
    (∃ error, g.addEntity e = .error error) ↔ (∃ error, e.validate = .error error) ∨
      ∃ bound, g.entity? e.id = some bound ∧ ¬bound.Same e := by
  rcases addEntity_cases g e with
    ⟨error, hvalid, ha⟩ | ⟨hvalid, ⟨hnone, ha⟩ | ⟨bound, hbound, ⟨hsame, ha⟩ | ⟨hsame, ha⟩⟩⟩
  · simp [hvalid, ha]
  · simp [hvalid, ha, hnone]
  · simp [hvalid, ha, hbound, hsame]
  · simp [hvalid, ha, hbound, hsame]

/-- An entity that is accepted is bound. -/
theorem addEntity_eq_ok {g g' : Graph S} {e : Entity S} {new : Bool}
    (h : g.addEntity e = .ok (new, g')) : e.validate = .ok () ∧ g' = g.bind e := by
  rcases addEntity_cases g e with ⟨error, -, ha⟩ | ⟨hvalid, ⟨-, ha⟩ | ⟨bound, hbound, hrest⟩⟩
  · cases ha.symm.trans h
  · exact ⟨hvalid, (Prod.mk.inj (Except.ok.inj (ha.symm.trans h))).2.symm⟩
  · rcases hrest with ⟨-, ha⟩ | ⟨-, ha⟩
    · obtain ⟨-, rfl⟩ := Prod.mk.inj (Except.ok.inj (ha.symm.trans h))
      exact ⟨hvalid, (if_pos (Graph.hasEntity_iff.2 ⟨bound, hbound⟩)).symm⟩
    · cases ha.symm.trans h

theorem tells_empty : (empty : Graph S).Tells [] where
  entity _ := rfl
  ids := rfl
  record _ := rfl
  triples := rfl
  valid_mentioned := nofun
  valid_related := nofun

section Step

variable {g g' : Graph S} {done : List (Insertion S)}

theorem Tells.addEntity (h : g.Tells done) {e : Entity S} {new : Bool}
    (ha : g.addEntity e = .ok (new, g')) : g'.Tells (done ++ [.entity e]) := by
  obtain ⟨hvalid, rfl⟩ := addEntity_eq_ok ha
  have hmentioned : mentioned (done ++ [.entity e]) = mentioned done ++ [e] := by
    simp [mentioned, Insertion.mentions]
  have hrelated : related (done ++ [.entity e]) = related done := by
    simp [related, Insertion.added?]
  have hrecords : (g.bind e).records = g.records := records_bind g e
  refine { toBinds := ?_, record := ?_, triples := ?_, valid_mentioned := ?_, valid_related := ?_ }
  · rw [hmentioned]
    exact h.bind e
  · intro triple
    rw [hrelated, ← h.record, record?, record?, hrecords]
  · rw [hrelated, hrecords, h.triples]
  · rw [hmentioned]
    exact List.forall_mem_append.2 ⟨h.valid_mentioned, List.forall_mem_singleton.2 hvalid⟩
  · rw [hrelated]
    exact h.valid_related

theorem Tells.addRelation (h : g.Tells done) {r : Relation S} (ha : g.addRelation r = .ok g') :
    g'.Tells (done ++ [.relation r]) := by
  obtain ⟨hvalid, rfl⟩ := addRelation_eq_ok_iff.1 ha
  have hmentioned : mentioned (done ++ [.relation r]) =
      mentioned done ++ [r.source] ++ [r.target] := by
    simp [mentioned, Insertion.mentions]
  have hrelated : related (done ++ [.relation r]) = related done ++ [r] := by
    simp [related, Insertion.added?]
  have hbinds := (h.bind r.source).bind r.target
  refine { toBinds := ?_, record := ?_, triples := ?_, valid_mentioned := ?_, valid_related := ?_ }
  · rw [hmentioned]
    exact ⟨hbinds.entity, hbinds.ids⟩
  · intro triple
    rw [hrelated, List.reverse_append, List.reverse_singleton, List.singleton_append,
      List.find?_cons, record?]
    refine (find?_put g.records r.toRecord triple).trans ?_
    by_cases hr : r.triple = triple
    · rw [beq_iff_eq.2 hr]
      exact if_pos hr
    · rw [beq_eq_false_iff_ne.2 hr]
      exact (if_neg hr).trans (h.record triple)
  · have hmem : r.toRecord.triple ∈ g.records.map Record.triple ↔
        r.triple ∈ (related done).map Relation.triple := by
      rw [h.triples, List.mem_eraseDups]
      rfl
    rw [hrelated, List.map_append, List.map_singleton, eraseDups_concat, map_triple_put,
      ← h.triples]
    by_cases hin : r.triple ∈ (related done).map Relation.triple
    · rw [if_pos hin, if_pos (hmem.2 hin)]
    · rw [if_neg hin, if_neg fun hin' => hin (hmem.1 hin')]
      rfl
  · rw [hmentioned]
    obtain ⟨hsource, htarget, -⟩ := r.validate_eq_ok_iff.1 hvalid
    exact List.forall_mem_append.2 ⟨List.forall_mem_append.2
      ⟨h.valid_mentioned, List.forall_mem_singleton.2 hsource⟩,
      List.forall_mem_singleton.2 htarget⟩
  · rw [hrelated]
    exact List.forall_mem_append.2 ⟨h.valid_related, List.forall_mem_singleton.2 hvalid⟩

/-- **Every call that succeeds is told.** -/
theorem Tells.insert (h : g.Tells done) {call : Insertion S} (hc : g.insert call = .ok g') :
    g'.Tells (done ++ [call]) := by
  cases call with
  | entity e =>
    rw [Graph.insert] at hc
    rcases ha : g.addEntity e with error | ⟨new, grown⟩ <;> rw [ha] at hc
    · cases hc
    · obtain rfl := Except.ok.inj hc
      exact h.addEntity ha
  | relation r => exact h.addRelation hc

end Step

/-- **A graph that grew tells the calls that succeeded.** -/
theorem tells_grow (calls : List (Insertion S)) :
    (grow empty calls).Tells (accepted empty calls) := by
  induction calls using List.reverseRecOn with
  | nil => exact tells_empty
  | append_singleton calls call ih =>
    rw [grow_concat, accepted_concat, after]
    rcases hc : (grow empty calls).insert call with error | g'
    · exact ih
    · exact ih.insert hc

/-! ### Lists of entities and relations -/

theorem Tells.addEntities {g g' : Graph S} {done : List (Insertion S)} (h : g.Tells done)
    {entities : List (Entity S)} (ha : g.addEntities entities = .ok g') :
    g'.Tells (done ++ entities.map .entity) := by
  induction entities generalizing g done with
  | nil =>
    obtain rfl := Except.ok.inj ha
    simpa using h
  | cons e entities ih =>
    rw [Graph.addEntities, List.foldlM_cons] at ha
    rcases hadd : g.addEntity e with error | ⟨new, next⟩ <;> rw [hadd] at ha
    · cases ha
    · rw [List.map_cons, List.append_cons]
      exact ih (h.addEntity hadd) ha

theorem Tells.addRelations {g g' : Graph S} {done : List (Insertion S)} (h : g.Tells done)
    {relations : List (Relation S)} (ha : g.addRelations relations = .ok g') :
    g'.Tells (done ++ relations.map .relation) := by
  induction relations generalizing g done with
  | nil =>
    obtain rfl := Except.ok.inj ha
    simpa using h
  | cons r relations ih =>
    rw [Graph.addRelations, List.foldlM_cons] at ha
    rcases hadd : g.addRelation r with error | next <;> rw [hadd] at ha
    · cases ha
    · rw [List.map_cons, List.append_cons]
      exact ih (h.addRelation hadd) ha

/-- **The graph of a list of relations tells that all of them were added.** -/
theorem tells_ofRelations {g : Graph S} {relations : List (Relation S)}
    (h : ofRelations relations = .ok g) : g.Tells (relations.map .relation) :=
  tells_empty.addRelations h

omit [Scalar S] in
theorem related_map (relations : List (Relation S)) :
    related (relations.map .relation) = relations := by
  rw [related, List.filterMap_map]
  exact List.filterMap_some

omit [Scalar S] in
theorem mentioned_map (relations : List (Relation S)) :
    mentioned (relations.map .relation) = relations.flatMap fun r => [r.source, r.target] :=
  List.flatMap_map ..

/-! ### What the calls say about the graph -/

/-- **The history of a graph**: what it holds, in terms of the calls that succeeded. -/
structure History (g : Graph S) (done : List (Insertion S)) : Prop where
  /-- An identifier has the content of the first entity mentioned with it. -/
  entity : ∀ id, g.entity? id = (mentioned done).find? fun e => e.id == id
  /-- A triple that no call has added has no relation. -/
  relation_none : ∀ source target kind,
    (∀ r ∈ related done, r.triple ≠ (source, target, kind)) →
      g.relation? source target kind = none
  /-- A triple has the content it was last added with, between the entities that are bound. -/
  relation_last : ∀ source target kind before r after, related done = before ++ r :: after →
    r.triple = (source, target, kind) →
    (∀ later ∈ after, later.triple ≠ (source, target, kind)) →
      ∃ s t, g.entity? source = some s ∧ g.entity? target = some t ∧
        g.relation? source target kind =
          some ⟨s, t, kind, r.confidence, r.properties, r.temporal⟩
  /-- The entities are listed by the first appearance of their identifiers. -/
  entity_ids : g.entities.map Entity.id = ((mentioned done).map Entity.id).eraseDups
  /-- The relations are listed by the first appearance of their triples. -/
  relation_triples : g.relations.map Relation.triple =
    ((related done).map Relation.triple).eraseDups
  entity_ids_nodup : (g.entities.map Entity.id).Nodup
  relation_triples_nodup : (g.relations.map Relation.triple).Nodup
  /-- What is listed is what is looked up. -/
  entity_of_mem : ∀ e ∈ g.entities, g.entity? e.id = some e
  relation_of_mem : ∀ r ∈ g.relations, g.relation? r.source.id r.target.id r.kind = some r
  entity_valid : ∀ e ∈ g.entities, e.validate = .ok ()
  relation_valid : ∀ r ∈ g.relations, r.validate = .ok ()
  nodeCount : g.nodeCount = g.entities.length
  edgeCount : g.edgeCount = g.relations.length

namespace Tells

variable {g : Graph S} {done : List (Insertion S)} (h : g.Tells done)
include h

theorem entity_of_mem {e : Entity S} (he : e ∈ g.entities) : g.entity? e.id = some e := by
  refine find?_of_mem ?_ he
  rw [h.ids]
  exact nodup_eraseDups _

theorem record_of_mem {r : Record S} (hr : r ∈ g.records) : g.record? r.triple = some r := by
  refine find?_of_mem ?_ hr
  rw [h.triples]
  exact nodup_eraseDups _

theorem entity_valid {id : String} {e : Entity S} (he : g.entity? id = some e) :
    e.validate = .ok () := by
  rw [h.entity] at he
  exact h.valid_mentioned e (List.mem_of_find?_eq_some he)

theorem exists_entity {e : Entity S} (he : e ∈ mentioned done) :
    ∃ first, g.entity? e.id = some first := by
  rw [← Option.isSome_iff_exists, h.entity, List.find?_isSome]
  exact ⟨e, he, beq_self_eq_true e.id⟩

/-- The entities of a relation that was added are bound. -/
theorem exists_entities {r : Relation S} (hr : r ∈ related done) :
    ∃ s t, g.entity? r.source.id = some s ∧ g.entity? r.target.id = some t := by
  obtain ⟨call, hcall, hadded⟩ := List.mem_filterMap.1 hr
  cases call with
  | entity e => cases hadded
  | relation r' =>
    obtain rfl := Option.some.inj hadded
    obtain ⟨s, hs⟩ := h.exists_entity (e := r'.source)
      (List.mem_flatMap.2 ⟨_, hcall, List.mem_cons_self⟩)
    obtain ⟨t, ht⟩ := h.exists_entity (e := r'.target)
      (List.mem_flatMap.2 ⟨_, hcall, List.mem_cons_of_mem _ List.mem_cons_self⟩)
    exact ⟨s, t, hs, ht⟩

/-- **A record stands for a relation that was added**, between the entities that are bound. -/
theorem resolve_of_mem {r : Record S} (hr : r ∈ g.records) :
    ∃ added ∈ related done, ∃ s t, g.entity? r.source = some s ∧ g.entity? r.target = some t ∧
      r = added.toRecord ∧ g.resolve? r = some (r.between s t) := by
  have hlast := h.record_of_mem hr
  rw [h.record] at hlast
  obtain ⟨added, hadded, rfl⟩ := Option.map_eq_some_iff.1 hlast
  have hmem := List.mem_reverse.1 (List.mem_of_find?_eq_some hadded)
  obtain ⟨s, t, hs, ht⟩ := h.exists_entities hmem
  exact ⟨added, hmem, s, t, hs, ht, rfl, resolve?_eq_some_iff.2 ⟨s, t, hs, ht, rfl⟩⟩

theorem map_triple_relations : g.relations.map Relation.triple = g.records.map Record.triple := by
  suffices hall : ∀ records : List (Record S), records ⊆ g.records →
      (records.filterMap g.resolve?).map Relation.triple = records.map Record.triple from
    hall g.records (List.Subset.refl _)
  intro records hsub
  induction records with
  | nil => rfl
  | cons r records ih =>
    obtain ⟨hr, hrest⟩ := List.cons_subset.1 hsub
    obtain ⟨-, -, s, t, -, -, -, hres⟩ := h.resolve_of_mem hr
    rw [List.filterMap_cons_some hres, List.map_cons, List.map_cons, ih hrest,
      triple_of_resolve? hres]

/-- A triple has the content it was last added with. -/
theorem relation_last {triple : String × String × String} {before after : List (Relation S)}
    {r : Relation S} (hrelated : related done = before ++ r :: after) (hr : r.triple = triple)
    (hafter : ∀ later ∈ after, later.triple ≠ triple) : g.record? triple = some r.toRecord := by
  have hnone : after.reverse.find? (fun later => later.triple == triple) = none :=
    List.find?_eq_none.2 fun later hlater heq =>
      hafter later (List.mem_reverse.1 hlater) (beq_iff_eq.1 heq)
  rw [h.record, hrelated, List.reverse_append, List.reverse_cons, List.append_assoc,
    List.find?_append, hnone, Option.none_or, List.singleton_append, List.find?_cons,
    beq_iff_eq.2 hr]
  rfl

theorem relation_valid {rel : Relation S} (hrel : rel ∈ g.relations) :
    rel.validate = .ok () := by
  obtain ⟨r, hr, hres⟩ := mem_relations_iff.1 hrel
  obtain ⟨added, hadded, s, t, hs, ht, rfl, hres'⟩ := h.resolve_of_mem hr
  obtain rfl := Option.some.inj (hres.symm.trans hres')
  -- what was added was valid, and so are the entities in its place
  obtain ⟨-, -, hrest⟩ := added.validate_eq_ok_iff.1 (h.valid_related added hadded)
  exact (Relation.validate_eq_ok_iff _).2 ⟨h.entity_valid hs, h.entity_valid ht, hrest⟩

/-- **A graph that tells calls has their history.** -/
theorem history : g.History done where
  entity := h.entity
  relation_none source target kind hnone := by
    rw [relation?, h.record, List.find?_eq_none.2]
    · rfl
    · exact fun r hr heq => hnone r (List.mem_reverse.1 hr) (beq_iff_eq.1 heq)
  relation_last source target kind before r after hrelated hr hafter := by
    obtain ⟨s, t, hs, ht⟩ := h.exists_entities (r := r) (by simp [hrelated])
    obtain ⟨hsource, htarget, hkind⟩ : r.source.id = source ∧ r.target.id = target ∧
      r.kind = kind := by simpa [Relation.triple] using hr
    refine ⟨s, t, hsource ▸ hs, htarget ▸ ht, ?_⟩
    rw [relation?, h.relation_last hrelated hr hafter, Option.bind_some, ← hkind]
    exact resolve?_eq_some_iff.2 ⟨s, t, hs, ht, rfl⟩
  entity_ids := h.ids
  relation_triples := h.map_triple_relations.trans h.triples
  entity_ids_nodup := by
    rw [h.ids]
    exact nodup_eraseDups _
  relation_triples_nodup := by
    rw [h.map_triple_relations, h.triples]
    exact nodup_eraseDups _
  entity_of_mem _ he := h.entity_of_mem he
  relation_of_mem rel hrel := by
    obtain ⟨r, hr, hres⟩ := mem_relations_iff.1 hrel
    have hrecord := h.record_of_mem hr
    rw [← triple_of_resolve? hres] at hrecord
    rw [relation?, show (rel.source.id, rel.target.id, rel.kind) = rel.triple from rfl, hrecord]
    exact hres
  entity_valid _ he := h.entity_valid (h.entity_of_mem he)
  relation_valid _ hrel := h.relation_valid hrel
  nodeCount := rfl
  edgeCount := by
    rw [edgeCount, ← List.length_map (f := Record.triple), ← h.map_triple_relations,
      List.length_map]

end Tells

/-! ### Growing on -/

/-- Entities that are bound stay bound to what they were, whatever is called. -/
theorem entity?_grow {g : Graph S} {id : String} {e : Entity S} (h : g.entity? id = some e)
    (calls : List (Insertion S)) : (g.grow calls).entity? id = some e := by
  induction calls generalizing g with
  | nil => exact h
  | cons call calls ih =>
    refine ih (g := g.after call) ?_
    unfold after
    split
    · rename_i g' hc
      cases call with
      | entity e' =>
        rw [Graph.insert] at hc
        rcases ha : g.addEntity e' with error | ⟨new, grown⟩ <;> rw [ha] at hc
        · cases hc
        · obtain rfl := Except.ok.inj hc
          rw [(addEntity_eq_ok ha).2]
          exact entity?_bind h e'
      | relation r => exact entity?_addRelation hc h
    · exact h

/-- **The store is a history.** After any calls, successful or not, the graph is what the successful
ones say; an identifier keeps its content whatever is called later; a call that fails changes
nothing. Adding an entity fails exactly when it is invalid or its identifier is bound to another
content; and what is bound can be added again, without a change, if its numbers compare equal to
themselves. -/
theorem history_grow (calls : List (Insertion S)) :
    (grow empty calls).History (accepted empty calls) ∧
    (∀ id e more, (grow empty calls).entity? id = some e →
      (grow empty (calls ++ more)).entity? id = some e) ∧
    (∀ call error, (grow empty calls).insert call = .error error →
      grow empty (calls ++ [call]) = grow empty calls) ∧
    (∀ e, (∃ error, (grow empty calls).addEntity e = .error error) ↔
      (∃ error, e.validate = .error error) ∨
        ∃ bound, (grow empty calls).entity? e.id = some bound ∧ ¬bound.Same e) ∧
    (∀ e, (grow empty calls).entity? e.id = some e →
      (∀ value ∈ e.properties.entries.values, ∀ x, value.HasFloat x → (x == x) = true) →
        (grow empty calls).addEntity e = .ok (false, grow empty calls)) := by
  have htells := tells_grow calls
  refine ⟨htells.history, fun id e more he => ?_, fun call error hc => ?_,
    fun e => addEntity_error_iff, fun e he hself => ?_⟩
  · rw [grow_append]
    exact entity?_grow he more
  · rw [grow_concat, after, hc]
  · rcases addEntity_cases (grow empty calls) e with
      ⟨error, hvalid, -⟩ | ⟨-, ⟨hnone, -⟩ | ⟨bound, hbound, ⟨-, ha⟩ | ⟨hsame, -⟩⟩⟩
    · cases hvalid.symm.trans (htells.entity_valid he)
    · cases hnone.symm.trans he
    · exact ha
    · obtain rfl := Option.some.inj (hbound.symm.trans he)
      exact absurd (Entity.same_self hself) hsame

end Graph

end GraphReasoner
