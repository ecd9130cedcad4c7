import GraphReasoner.Proofs.Fallible
import GraphReasoner.Proofs.Graph.Views
import GraphReasoner.Proofs.Halves
import Mathlib.Tactic.FinCases

/-!
# Graphs of batches

The graph of a batch is built in two passes. The entities are added first, and one with a bound
identifier has to compare equal to what is bound. Then the records are resolved, each through a
table of the entities in which the last one counts, and the relations are added. So a batch has a
graph exactly when it is proper (`GraphReasoner.Batch.Proper`), and its graph has the entities
without repetitions and the latest record of each triple (`GraphReasoner.Batch.latest`).

Whatever calls a graph grew by, successful or not, it keeps nothing that is invalid, nothing twice
and no relation without its entities. So the batch of its entities and records is proper, and its
graph is the one it was taken from (`GraphReasoner.Graph.Tells.ofBatch_toBatch`).

Comparing numbers need not be reflexive, but it is symmetric and transitive: otherwise two entities
that compare equal to a third need not compare equal to each other.
-/

namespace GraphReasoner

variable {S : Type}

/-- A list without repetitions stays as it is when repetitions are dropped. -/
theorem eraseDups_eq_self {α : Type} [BEq α] {items : List α}
    (h : items.Pairwise fun a a' => ¬(a' == a) = true) : items.eraseDups = items := by
  induction items with
  | nil => rfl
  | cons a items ih =>
    obtain ⟨hfirst, hrest⟩ := List.pairwise_cons.1 h
    rw [List.eraseDups_cons, List.filter_eq_self.2 fun a' ha' => by simpa using hfirst a' ha',
      ih hrest]

/-! ### Resolving a batch -/

namespace Batch

/-- The last record of each triple, in the place of the first one. -/
def latest (b : Batch S) : List (Record S) :=
  (b.records.map Record.triple).eraseDups.filterMap fun triple =>
    b.records.reverse.find? fun r => r.triple == triple

variable {b : Batch S} {id : String} {e : Entity S}

/-- When no triple repeats, every record is the latest of its triple. -/
theorem latest_eq_self (h : (b.records.map Record.triple).Nodup) : b.latest = b.records := by
  have hreverse : (b.records.reverse.map Record.triple).Nodup := by
    rw [List.map_reverse, List.nodup_reverse]
    exact h
  rw [latest, eraseDups_eq_self (h.imp fun hne heq => hne (eq_of_beq heq).symm),
    List.filterMap_map]
  exact (List.filterMap_congr fun r hr =>
    Graph.find?_of_mem hreverse (List.mem_reverse.2 hr)).trans List.filterMap_some

theorem lookup_eq_ok_iff :
    b.lookup id = .ok e ↔ (b.entities.reverse.find? fun e => e.id == id) = some e := by
  unfold lookup
  split
  · rename_i found hfound
    rw [hfound, Except.ok.injEq, Option.some.injEq]
  · rename_i hnone
    rw [hnone]
    exact ⟨nofun, nofun⟩

theorem id_of_lookup (h : b.lookup id = .ok e) : e.id = id := by
  simpa using List.find?_some (lookup_eq_ok_iff.1 h)

theorem mem_of_lookup (h : b.lookup id = .ok e) : e ∈ b.entities :=
  List.mem_reverse.1 (List.mem_of_find?_eq_some (lookup_eq_ok_iff.1 h))

/-- **An identifier is known exactly when it is listed.** -/
theorem exists_lookup_iff : (∃ e, b.lookup id = .ok e) ↔ id ∈ b.entities.map Entity.id := by
  constructor
  · rintro ⟨e, he⟩
    exact List.mem_map.2 ⟨e, mem_of_lookup he, id_of_lookup he⟩
  · intro h
    obtain ⟨e, he, rfl⟩ := List.mem_map.1 h
    simp only [lookup_eq_ok_iff, ← Option.isSome_iff_exists, List.find?_isSome]
    exact ⟨e, List.mem_reverse.2 he, beq_self_eq_true e.id⟩

/-- When no identifier repeats, it does not matter that the last entity counts. -/
theorem lookup_of_nodup (h : (b.entities.map Entity.id).Nodup) (he : e ∈ b.entities) :
    b.lookup e.id = .ok e := by
  refine lookup_eq_ok_iff.2 (Graph.find?_of_mem ?_ (List.mem_reverse.2 he))
  rw [List.map_reverse, List.nodup_reverse]
  exact h

variable [Scalar S]

/-- **A proper batch**: valid entities, of which those with one identifier compare equal, and
records that name listed entities and resolve to valid relations. -/
structure Proper (b : Batch S) : Prop where
  valid : ∀ e ∈ b.entities, e.validate = .ok ()
  consistent : b.entities.Pairwise fun e e' => e.id = e'.id → e.Same e'
  listed : ∀ r ∈ b.records,
    r.source ∈ b.entities.map Entity.id ∧ r.target ∈ b.entities.map Entity.id
  resolved : ∀ r ∈ b.records, ∀ source target, b.lookup r.source = .ok source →
    b.lookup r.target = .ok target → (r.between source target).validate = .ok ()

theorem resolveRecord_eq_ok_iff {r : Record S} {rel : Relation S} :
    b.resolveRecord r = .ok rel ↔ ∃ source target, b.lookup r.source = .ok source ∧
      b.lookup r.target = .ok target ∧ (r.between source target).validate = .ok () ∧
        rel = r.between source target := by
  simp only [resolveRecord, bind_eq_ok_iff, pure, Except.pure, Except.ok.injEq, exists_and_left,
    eq_comm (a := rel)]
  exact exists_congr fun _ => and_congr_right fun _ => exists_congr fun _ =>
    and_congr_right fun _ => ⟨fun ⟨_, h, heq⟩ => ⟨h, heq⟩, fun ⟨h, heq⟩ => ⟨(), h, heq⟩⟩

/-- **A batch resolves exactly when its records do.** -/
theorem exists_resolve_iff : (∃ relations, b.resolve = .ok relations) ↔
    (∀ r ∈ b.records, r.source ∈ b.entities.map Entity.id ∧ r.target ∈ b.entities.map Entity.id) ∧
    ∀ r ∈ b.records, ∀ source target, b.lookup r.source = .ok source →
      b.lookup r.target = .ok target → (r.between source target).validate = .ok () := by
  rw [resolve, exists_mapM_eq_ok_iff, ← forall₂_and]
  refine forall₂_congr fun r _ => ?_
  simp only [resolveRecord_eq_ok_iff, ← exists_lookup_iff]
  constructor
  · rintro ⟨_, s, t, hs, ht, hvalid, -⟩
    refine ⟨⟨⟨s, hs⟩, t, ht⟩, fun s' t' hs' ht' => ?_⟩
    obtain rfl := Except.ok.inj (hs.symm.trans hs')
    obtain rfl := Except.ok.inj (ht.symm.trans ht')
    exact hvalid
  · rintro ⟨⟨⟨s, hs⟩, t, ht⟩, hvalid⟩
    exact ⟨_, s, t, hs, ht, hvalid s t hs ht, rfl⟩

/-- **A batch resolves to a relation for each record.** -/
theorem map_toRecord_of_resolve {relations : List (Relation S)} (h : b.resolve = .ok relations) :
    relations.map Relation.toRecord = b.records := by
  rw [← List.forall₂_eq_eq_eq, List.forall₂_map_left_iff]
  refine (List.Forall₂.flip (mapM_eq_ok_iff.1 h)).imp fun rel r hrel => ?_
  obtain ⟨s, t, hs, ht, -, rfl⟩ := resolveRecord_eq_ok_iff.1 hrel
  rw [Relation.toRecord, Record.between, id_of_lookup hs, id_of_lookup ht]

/-- The relations are valid and join listed entities. -/
theorem of_mem_resolve {relations : List (Relation S)} (h : b.resolve = .ok relations)
    {rel : Relation S} (hrel : rel ∈ relations) :
    rel.validate = .ok () ∧ rel.source ∈ b.entities ∧ rel.target ∈ b.entities := by
  obtain ⟨r, -, hr⟩ := exists_of_mem_mapM h hrel
  obtain ⟨s, t, hs, ht, hvalid, rfl⟩ := resolveRecord_eq_ok_iff.1 hr
  exact ⟨hvalid, mem_of_lookup hs, mem_of_lookup ht⟩

end Batch

/-! ### Adding the entities -/

namespace Graph

variable [Scalar S] {g g' : Graph S} {e : Entity S} {entities : List (Entity S)}

/-- **Entities fit a graph** when they are valid and compare equal to what is bound and, as far as
they share an identifier, to each other. -/
structure Fits (g : Graph S) (entities : List (Entity S)) : Prop where
  valid : ∀ e ∈ entities, e.validate = .ok ()
  bound : ∀ e ∈ entities, ∀ bound, g.entity? e.id = some bound → bound.Same e
  consistent : entities.Pairwise fun e e' => e.id = e'.id → e.Same e'

/-- One entity is added exactly when it fits, and is bound then. -/
theorem addEntity_map_eq_ok_iff : (g.addEntity e).map Prod.snd = .ok g' ↔
    (e.validate = .ok () ∧ ∀ bound, g.entity? e.id = some bound → bound.Same e) ∧
      g' = g.bind e := by
  rcases addEntity_cases g e with ⟨error, hvalid, ha⟩ | ⟨hvalid, ⟨hnone, ha⟩ | ⟨bound, hb, hrest⟩⟩
  · simp [ha, hvalid, Except.map]
  · simp [ha, hvalid, hnone, Except.map, eq_comm]
  · have hbind : g.bind e = g := bind_eq_self (hasEntity_iff.2 ⟨bound, hb⟩)
    rcases hrest with ⟨hsame, ha⟩ | ⟨hsame, ha⟩
    · simp [ha, hvalid, hb, hsame, hbind, Except.map, eq_comm]
    · simp [ha, hb, hsame, Except.map]

/-- **Entities fit one by one.** -/
theorem fits_cons_iff [PartialEquivBEq S] : g.Fits (e :: entities) ↔
    (e.validate = .ok () ∧ ∀ bound, g.entity? e.id = some bound → bound.Same e) ∧
      (g.bind e).Fits entities := by
  rcases hbound : g.entity? e.id with _ | bound
  · have hget := entity?_bind_of_none hbound
    constructor
    · rintro ⟨hvalid, hfit, hconsistent⟩
      rw [List.forall_mem_cons] at hvalid hfit
      rw [List.pairwise_cons] at hconsistent
      refine ⟨⟨hvalid.1, nofun⟩, hvalid.2, fun e' he' found hfound => ?_, hconsistent.2⟩
      rw [hget] at hfound
      split at hfound
      · rename_i hid
        obtain rfl := Option.some.inj hfound
        exact hconsistent.1 e' he' hid
      · exact hfit.2 e' he' found hfound
    · rintro ⟨⟨hvalid, -⟩, hvalids, hfit, hconsistent⟩
      have hfits : ∀ e' ∈ entities, e.id = e'.id → e.Same e' := fun e' he' hid =>
        hfit e' he' e (by rw [hget, if_pos hid])
      refine ⟨List.forall_mem_cons.2 ⟨hvalid, hvalids⟩, List.forall_mem_cons.2 ⟨?_, ?_⟩,
        List.pairwise_cons.2 ⟨hfits, hconsistent⟩⟩
      · rw [hbound]
        nofun
      · intro e' he' found hfound
        refine hfit e' he' found ?_
        rw [hget, if_neg, hfound]
        intro hid
        rw [← hid, hbound] at hfound
        cases hfound
  · have hbind : g.bind e = g := bind_eq_self (hasEntity_iff.2 ⟨bound, hbound⟩)
    rw [hbind]
    constructor
    · rintro ⟨hvalid, hfit, hconsistent⟩
      rw [List.forall_mem_cons] at hvalid hfit
      refine ⟨⟨hvalid.1, fun found hfound => ?_⟩, hvalid.2, hfit.2,
        (List.pairwise_cons.1 hconsistent).2⟩
      exact hfit.1 found (hbound.trans hfound)
    · rintro ⟨⟨hvalid, hsame⟩, hvalids, hfit, hconsistent⟩
      refine ⟨List.forall_mem_cons.2 ⟨hvalid, hvalids⟩, List.forall_mem_cons.2 ⟨?_, hfit⟩,
        List.pairwise_cons.2 ⟨fun e' he' hid => ?_, hconsistent⟩⟩
      · rw [hbound]
        exact hsame
      · -- both compare equal to what is bound
        exact (hsame bound rfl).symm.trans (hfit e' he' bound (hid ▸ hbound))

/-- **Entities are added exactly when they fit.** -/
theorem exists_addEntities_iff [PartialEquivBEq S] :
    (∃ g', g.addEntities entities = .ok g') ↔ g.Fits entities := by
  induction entities generalizing g with
  | nil => exact ⟨fun _ => ⟨nofun, nofun, List.Pairwise.nil⟩, fun _ => ⟨g, rfl⟩⟩
  | cons e entities ih =>
    rw [fits_cons_iff, ← ih]
    simp only [addEntities, List.foldlM_cons, bind_eq_ok_iff, addEntity_map_eq_ok_iff]
    constructor
    · rintro ⟨g', _, ⟨hfit, rfl⟩, hrest⟩
      exact ⟨hfit, g', hrest⟩
    · rintro ⟨hfit, g', hrest⟩
      exact ⟨g', _, ⟨hfit, rfl⟩, hrest⟩

theorem fits_empty_iff : (empty : Graph S).Fits entities ↔
    (∀ e ∈ entities, e.validate = .ok ()) ∧
      entities.Pairwise fun e e' => e.id = e'.id → e.Same e' :=
  ⟨fun h => ⟨h.valid, h.consistent⟩, fun h => ⟨h.1, nofun, h.2⟩⟩

/-- **The entities that were added** are those with new identifiers, without repetitions. -/
theorem entities_addEntities [PartialEquivBEq S] (h : g.addEntities entities = .ok g') :
    g'.entities = g.entities ++ (entities.filter fun e => !g.hasEntity e.id).eraseDups := by
  induction entities generalizing g with
  | nil =>
    obtain rfl := Except.ok.inj h
    simp
  | cons e entities ih =>
    have hfits := (fits_cons_iff.1 (exists_addEntities_iff.1 ⟨g', h⟩)).2
    rw [addEntities, List.foldlM_cons, bind_eq_ok_iff] at h
    obtain ⟨_, hadd, hrest⟩ := h
    obtain ⟨-, rfl⟩ := addEntity_map_eq_ok_iff.1 hadd
    rw [ih hrest]
    by_cases hbound : g.hasEntity e.id
    · rw [List.filter_cons, hbound, bind_eq_self hbound]
      rfl
    · have hnone : g.entity? e.id = none := by
        rw [← Option.not_isSome_iff_eq_none, Option.isSome_iff_exists, ← hasEntity_iff]
        exact hbound
      have hsplit : (entities.filter fun e' => !(g.bind e).hasEntity e'.id) =
          (entities.filter fun e' => !g.hasEntity e'.id).filter fun e' => !e' == e := by
        rw [List.filter_filter]
        refine List.filter_congr fun e' he' => ?_
        -- an entity that fits and shares the identifier is a repetition
        have hsame : (e' == e) = (e.id == e'.id) := by
          rw [Bool.eq_iff_iff, Entity.beq_iff_same, beq_iff_eq]
          refine ⟨fun hs => hs.id.symm, fun hid => (hfits.bound e' he' e ?_).symm⟩
          rw [entity?_bind_of_none hnone, if_pos hid]
        rw [hasEntity_bind_eq, hsame, Bool.not_or, Bool.and_comm]
      have hentities : (g.bind e).entities = g.entities ++ [e] := by
        rw [bind, if_neg hbound]
      rw [List.filter_cons, if_pos (by simpa using hbound), List.eraseDups_cons, hsplit, hentities,
        List.append_assoc, List.singleton_append]

/-! ### Adding the relations -/

/-- **Relations between bound entities** leave the entities as they are. -/
theorem entities_addRelations {relations : List (Relation S)}
    (hbound : ∀ r ∈ relations, g.hasEntity r.source.id = true ∧ g.hasEntity r.target.id = true)
    (h : g.addRelations relations = .ok g') : g'.entities = g.entities := by
  induction relations generalizing g with
  | nil =>
    obtain rfl := Except.ok.inj h
    rfl
  | cons r relations ih =>
    rw [addRelations, List.foldlM_cons, bind_eq_ok_iff] at h
    obtain ⟨next, hadd, hrest⟩ := h
    obtain ⟨⟨hsource, htarget⟩, hothers⟩ := List.forall_mem_cons.1 hbound
    obtain ⟨-, rfl⟩ := addRelation_eq_ok_iff.1 hadd
    rw [bind_eq_self hsource, bind_eq_self htarget] at hrest
    exact ih (g := { g with records := put g.records r.toRecord }) hothers hrest

/-- **The records of a graph that tells calls** are the last of each triple that was added, in the
place of the first. -/
theorem Tells.records_eq {done : List (Insertion S)} (h : g.Tells done) :
    g.records = Batch.latest ⟨[], (related done).map Relation.toRecord⟩ := by
  have hfound : g.records = (g.records.map Record.triple).filterMap g.record? := by
    rw [List.filterMap_map]
    refine (List.filterMap_some.symm).trans (List.filterMap_congr fun r hr => ?_)
    exact (h.record_of_mem hr).symm
  rw [hfound, h.triples, Batch.latest, List.map_map]
  refine List.filterMap_congr fun triple _ => ?_
  rw [h.record, ← List.map_reverse, List.find?_map]
  rfl

/-! ### The graph of a batch -/

variable {b : Batch S}

theorem ofBatch_eq_ok_iff : ofBatch b = .ok g ↔ ∃ bound relations,
    empty.addEntities b.entities = .ok bound ∧ b.resolve = .ok relations ∧
      bound.addRelations relations = .ok g := by
  simp only [ofBatch, bind_eq_ok_iff, exists_and_left]

/-- **A batch has a graph exactly when it is proper.** -/
theorem exists_ofBatch_iff [PartialEquivBEq S] : (∃ g, ofBatch b = .ok g) ↔ b.Proper := by
  constructor
  · rintro ⟨g, h⟩
    obtain ⟨bound, relations, hentities, hresolve, -⟩ := ofBatch_eq_ok_iff.1 h
    obtain ⟨hvalid, hconsistent⟩ := fits_empty_iff.1 (exists_addEntities_iff.1 ⟨bound, hentities⟩)
    obtain ⟨hlisted, hresolved⟩ := Batch.exists_resolve_iff.1 ⟨relations, hresolve⟩
    exact ⟨hvalid, hconsistent, hlisted, hresolved⟩
  · intro h
    obtain ⟨bound, hentities⟩ :=
      exists_addEntities_iff.2 (fits_empty_iff.2 ⟨h.valid, h.consistent⟩)
    obtain ⟨relations, hresolve⟩ := Batch.exists_resolve_iff.2 ⟨h.listed, h.resolved⟩
    rcases hadd : bound.addRelations relations with error | g
    · obtain ⟨r, hr, error', herror⟩ := addRelations_error_iff.1 ⟨error, hadd⟩
      cases (Batch.of_mem_resolve hresolve hr).1.symm.trans herror
    · exact ⟨g, ofBatch_eq_ok_iff.2 ⟨bound, relations, hentities, hresolve, hadd⟩⟩

/-- **The graph of a batch** has its entities without repetitions and its latest records. -/
theorem ofBatch_content [PartialEquivBEq S] (h : ofBatch b = .ok g) :
    g.entities = b.entities.eraseDups ∧ g.records = b.latest ∧
      ∃ done, g.Tells done := by
  obtain ⟨bound, relations, hentities, hresolve, hadd⟩ := ofBatch_eq_ok_iff.1 h
  have hbound : bound.entities = b.entities.eraseDups := by
    rw [entities_addEntities hentities]
    simp [empty, hasEntity]
  have htells := tells_empty.addEntities hentities
  have hmentioned : mentioned (b.entities.map .entity) = b.entities := by
    rw [mentioned, List.flatMap_map]
    exact List.flatMap_singleton' b.entities
  have hrelated : related (b.entities.map .entity ++ relations.map .relation) = relations := by
    rw [related, List.filterMap_append, List.filterMap_map, List.filterMap_map]
    exact congrArg₂ _ (List.filterMap_eq_nil_iff.2 fun _ _ => rfl) List.filterMap_some
  have hends : ∀ e ∈ b.entities, bound.hasEntity e.id = true := fun e he => by
    rw [htells.hasEntity_iff, List.nil_append, hmentioned]
    exact List.mem_map_of_mem he
  refine ⟨?_, ?_, _, htells.addRelations hadd⟩
  · rw [entities_addRelations (fun r hr => ?_) hadd, hbound]
    obtain ⟨-, hs, ht⟩ := Batch.of_mem_resolve hresolve hr
    exact ⟨hends _ hs, hends _ ht⟩
  · rw [(htells.addRelations hadd).records_eq, List.nil_append, hrelated,
      Batch.map_toRecord_of_resolve hresolve]
    rfl

/-! ### The batch of a graph -/

/-- **The batch of a graph that tells calls is proper.** -/
theorem Tells.proper_toBatch {done : List (Insertion S)} (h : g.Tells done) :
    g.toBatch.Proper := by
  have hnodup : (g.entities.map Entity.id).Nodup := h.history.entity_ids_nodup
  have hlookup : ∀ {id : String} {e : Entity S}, g.entity? id = some e →
      g.toBatch.lookup id = .ok e := by
    intro id e he
    rw [← id_of_entity? he]
    exact Batch.lookup_of_nodup (b := g.toBatch) hnodup (mem_of_entity? he)
  refine ⟨fun e he => h.history.entity_valid e he, ?_, fun r hr => ?_, fun r hr s t hs ht => ?_⟩
  · exact (List.pairwise_map.1 hnodup).imp fun hne hid => absurd hid hne
  · obtain ⟨-, -, s, t, hs, ht, -⟩ := h.resolve_of_mem hr
    exact ⟨List.mem_map.2 ⟨s, mem_of_entity? hs, id_of_entity? hs⟩,
      List.mem_map.2 ⟨t, mem_of_entity? ht, id_of_entity? ht⟩⟩
  · obtain ⟨-, -, s', t', hs', ht', -, hres⟩ := h.resolve_of_mem hr
    obtain rfl := Except.ok.inj (hs.symm.trans (hlookup hs'))
    obtain rfl := Except.ok.inj (ht.symm.trans (hlookup ht'))
    exact h.relation_valid (mem_relations_iff.2 ⟨r, hr, hres⟩)

/-- **A graph that tells calls is the graph of its batch.** -/
theorem Tells.ofBatch_toBatch [PartialEquivBEq S] {done : List (Insertion S)} (h : g.Tells done) :
    ofBatch g.toBatch = .ok g := by
  obtain ⟨g', hg'⟩ := exists_ofBatch_iff.2 h.proper_toBatch
  obtain ⟨hentities, hrecords, -⟩ := ofBatch_content hg'
  have hnodup : g.entities.Pairwise fun e e' => ¬(e' == e) = true :=
    (List.pairwise_map.1 h.history.entity_ids_nodup).imp fun hne heq =>
      hne ((Entity.beq_iff_same _ _).1 heq).id.symm
  have htriples : (g.records.map Record.triple).Nodup := by
    rw [h.triples]
    exact nodup_eraseDups _
  have hsame : g' = ⟨g.entities, g.records⟩ := by
    rw [show g' = ⟨g'.entities, g'.records⟩ from rfl, hentities, hrecords,
      Batch.latest_eq_self (b := g.toBatch) htriples]
    exact congrArg (Graph.mk · g.records) (eraseDups_eq_self hnodup)
  rw [hg', hsame]

end Graph

/-! ### The same with indices -/

namespace IndexedGraph

variable {g : IndexedGraph S}

/-- Sound graphs that differ in their indices at most have the same relations. -/
theorem Sound.relations_eq_of_toGraph {g' : IndexedGraph S} (h : g.Sound) (h' : g'.Sound)
    (heq : g'.toGraph = g.toGraph) : g'.relations = g.relations := by
  rw [← h'.relations_toGraph, heq, h.relations_toGraph]

/-- **Steps that follow the plain graph**, made one after the other, follow it. -/
theorem Sound.foldlM {α : Type} {f : IndexedGraph S → α → Result S (IndexedGraph S)}
    {f' : Graph S → α → Result S (Graph S)}
    (hstep : ∀ {g : IndexedGraph S}, g.Sound → ∀ a,
      (∀ g', f g a = .ok g' → g'.Sound) ∧ (f g a).map toGraph = f' g.toGraph a)
    (h : g.Sound) (items : List α) :
    (∀ g', items.foldlM f g = .ok g' → g'.Sound) ∧
      (items.foldlM f g).map toGraph = items.foldlM f' g.toGraph := by
  induction items generalizing g with
  | nil =>
    refine ⟨fun g' hg' => ?_, rfl⟩
    obtain rfl := Except.ok.inj hg'
    exact h
  | cons a items ih =>
    obtain ⟨hsound, hgraph⟩ := hstep h a
    rw [List.foldlM_cons, List.foldlM_cons, ← hgraph]
    rcases hfa : f g a with error | next
    · exact ⟨nofun, rfl⟩
    · exact ih (hsound next hfa)

variable [Scalar S]

/-- **The graph of a batch with indices** follows the plain one. -/
theorem sound_ofBatch (b : Batch S) :
    (∀ g, ofBatch b = .ok g → g.Sound) ∧ (ofBatch b).map toGraph = Graph.ofBatch b := by
  obtain ⟨hsound, hgraph⟩ : (∀ g, b.entities.foldlM
      (fun (g : IndexedGraph S) e => (g.addEntity e).map Prod.snd) empty = .ok g → g.Sound) ∧
      (b.entities.foldlM (fun (g : IndexedGraph S) e =>
        (g.addEntity e).map Prod.snd) empty).map toGraph = Graph.empty.addEntities b.entities :=
    sound_empty.foldlM (fun hg e => hg.insert (.entity e)) b.entities
  rw [ofBatch, Graph.ofBatch, ← hgraph]
  rcases hentities : b.entities.foldlM (fun (g : IndexedGraph S) e =>
    (g.addEntity e).map Prod.snd) empty with error | bound
  · exact ⟨nofun, rfl⟩
  · rcases b.resolve with error | relations
    · exact ⟨nofun, rfl⟩
    · exact (hsound bound hentities).foldlM (fun hg r => hg.addRelation r) relations

/-- A graph with a batch in plain form has it with indices. -/
theorem exists_ofBatch {b : Batch S} {plain : Graph S} (h : Graph.ofBatch b = .ok plain) :
    ∃ g, ofBatch b = .ok g ∧ g.Sound ∧ g.toGraph = plain := by
  obtain ⟨hsound, hgraph⟩ := sound_ofBatch b
  obtain ⟨g, hg, heq⟩ := map_eq_ok_iff.1 (hgraph.trans h)
  exact ⟨g, hg, hsound g hg, heq⟩

/-- **A graph can be built again from what it lists.** After any calls that grow a graph, successful
or not, the batch of its entities and records has a graph, with the same entities, relations,
relations of a type and relations around an entity, all in the same orders.

In general a batch has a graph exactly when it is proper. The entities of the graph are those of the
batch without repetitions, and its relations are the latest record of each triple, in the place of
the first, between these entities. -/
theorem ofBatch_grow [PartialEquivBEq S] :
    (∀ calls : List (Graph.Insertion S),
      let g := grow empty calls
      ∃ g', ofBatch ⟨g.entities, g.relations.map Relation.toRecord⟩ = .ok g' ∧
        g'.entities = g.entities ∧ g'.relations = g.relations ∧
        (∀ kind, g'.ofKind kind = g.ofKind kind) ∧
        (∀ id, g'.outgoing id = g.outgoing id) ∧ ∀ id, g'.incoming id = g.incoming id) ∧
    ∀ b : Batch S, ((∃ g, ofBatch b = .ok g) ↔ b.Proper) ∧
      ∀ g, ofBatch b = .ok g → g.entities = b.entities.eraseDups ∧
        g.relations.map Relation.toRecord = b.latest ∧
        ∀ r ∈ g.relations, r.source ∈ g.entities ∧ r.target ∈ g.entities := by
  refine ⟨fun calls => ?_, fun b => ⟨⟨?_, fun hproper => ?_⟩, fun g hg => ?_⟩⟩
  · obtain ⟨hsound, hgraph⟩ := sound_grow calls
    have htells := Graph.tells_grow calls
    rw [← hgraph] at htells
    obtain ⟨g', hg', hsound', heq⟩ := exists_ofBatch htells.ofBatch_toBatch
    have hrelations := hsound.relations_eq_of_toGraph hsound' heq
    refine ⟨g', hg', congrArg Graph.entities heq, hrelations, fun kind => ?_, fun id => ?_,
      fun id => ?_⟩
    · rw [hsound'.ofKind_eq, hsound.ofKind_eq, hrelations]
    · rw [hsound'.outgoing_eq, hsound.outgoing_eq, hrelations]
    · rw [hsound'.incoming_eq, hsound.incoming_eq, hrelations]
  · rintro ⟨g, hg⟩
    refine Graph.exists_ofBatch_iff.1 ⟨g.toGraph, ?_⟩
    rw [← (sound_ofBatch b).2, hg]
    rfl
  · obtain ⟨plain, hplain⟩ := Graph.exists_ofBatch_iff.2 hproper
    obtain ⟨g, hg, -⟩ := exists_ofBatch hplain
    exact ⟨g, hg⟩
  · obtain ⟨hsound, hgraph⟩ := sound_ofBatch b
    rw [hg] at hgraph
    obtain ⟨hentities, hrecords, -⟩ := Graph.ofBatch_content hgraph.symm
    refine ⟨hentities, hrecords, fun r hr => ?_⟩
    obtain ⟨place, hplace⟩ := (hsound g hg).mem_relations.1 hr
    obtain ⟨e, s, t, -, hs, ht, rfl⟩ := relationAt?_eq_some_iff.1 hplace
    rw [← getElem?_entities] at hs ht
    exact ⟨List.mem_of_getElem? hs, List.mem_of_getElem? ht⟩

/-- Two entities, of which one is listed twice, and three records, two of them with one triple. -/
def repetitive : Batch Halves :=
  let entity (id : String) : Entity Halves := ⟨id, id, "concept", .empty⟩
  let record (source target : String) (confidence : Halves) : Record Halves :=
    ⟨source, target, "is_a", confidence, .empty, none⟩
  ⟨[entity "A", entity "B", entity "A"],
    [record "A" "B" .half, record "B" "A" .one, record "A" "B" .one]⟩

/-- The repetitions are dropped, and the later record takes the place of the earlier. -/
theorem ofBatch_repetitive : ∃ g, ofBatch repetitive = .ok g ∧
    g.entities.map Entity.id = ["A", "B"] ∧
    g.relations.map (fun r => (r.source.id, r.confidence)) = [("A", .one), ("B", .one)] := by
  obtain ⟨-, hbatch⟩ := ofBatch_grow (S := Halves)
  obtain ⟨hiff, hcontent⟩ := hbatch repetitive
  have hproper : repetitive.Proper := by
    refine ⟨fun e he => ?_, ?_, fun r hr => ?_, fun r hr s t hs ht => ?_⟩
    · fin_cases he <;> rfl
    · simp only [← Entity.beq_iff_same]
      decide
    · fin_cases hr <;> decide
    · fin_cases hr <;> cases hs <;> cases ht <;> rfl
  obtain ⟨g, hg⟩ := hiff.2 hproper
  obtain ⟨hentities, hrecords, -⟩ := hcontent g hg
  refine ⟨g, hg, by rw [hentities]; rfl, ?_⟩
  have hmap := congrArg (List.map fun r : Record Halves => (r.source, r.confidence)) hrecords
  rw [List.map_map] at hmap
  exact hmap.trans rfl

end IndexedGraph

end GraphReasoner
