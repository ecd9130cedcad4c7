import GraphReasoner.Proofs.Graph.Indexed

/-!
# All views of a graph agree

Rules read the edges of a type from an index, searches walk the lists of edges at a node, and an
export goes through all edges. `GraphReasoner.IndexedGraph.ViewsAgree` says that these are views of
one list: what each of them gives can be computed from the list of all relations. Around an entity
and between two entities the list is read backwards, so that the newest relation comes first.

That the indices are sound is all that is needed. An index lists the places of the edges with some
property, and the relations at these places are the relations with that property
(`GraphReasoner.IndexedGraph.Sound.filterMap_placesOf`). The plain graph has no indices, and its
views are the same lists (`GraphReasoner.IndexedGraph.SameViews`).
-/

namespace GraphReasoner

variable {S : Type}

/-- What the items yield comes from those that yield something, in the same order. -/
theorem forall₂_filterMap {α β : Type} (f : α → Option β) (items : List α) :
    List.Forall₂ (fun a b => f a = some b) (items.filter fun a => (f a).isSome)
      (items.filterMap f) := by
  induction items with
  | nil => exact .nil
  | cons a items ih =>
    rcases h : f a with _ | b
    · rw [List.filter_cons_of_neg (by simp [h]), List.filterMap_cons_none h]
      exact ih
    · rw [List.filter_cons_of_pos (by simp [h]), List.filterMap_cons_some h]
      exact .cons h ih

/-- What is read off each of some items, if anything, can be read off what corresponds to them. -/
theorem filterMap_eq_of_forall₂ {α β γ : Type} {R : α → β → Prop} {f : α → Option γ}
    {f' : β → Option γ} (hf : ∀ a b, R a b → f a = f' b) {as : List α} {bs : List β}
    (h : List.Forall₂ R as bs) : as.filterMap f = bs.filterMap f' := by
  induction h with
  | nil => rfl
  | cons hfirst _ ih => rw [List.filterMap_cons, List.filterMap_cons, hf _ _ hfirst, ih]

/-- What is read off each of some items can be read off what corresponds to them. -/
theorem filterMap_eq_map_of_forall₂ {α β γ : Type} {R : α → β → Prop} {f : α → Option γ}
    {k : β → γ} (hf : ∀ a b, R a b → f a = some (k b)) {as : List α} {bs : List β}
    (h : List.Forall₂ R as bs) : as.filterMap f = bs.map k := by
  rw [filterMap_eq_of_forall₂ hf h]
  exact congrFun List.filterMap_eq_map bs

namespace Graph

/-- What is dropped, and otherwise told apart, may be dropped before repetitions or after. -/
theorem eraseDups_filterMap {α β : Type} [BEq α] [LawfulBEq α] [BEq β] [LawfulBEq β]
    {f : α → Option β} (hf : ∀ a a' b, f a = some b → f a' = some b → a = a') (items : List α) :
    (items.filterMap f).eraseDups = items.eraseDups.filterMap f := by
  induction items using List.reverseRecOn with
  | nil => rfl
  | append_singleton items a ih =>
    rw [List.filterMap_append, eraseDups_concat]
    rcases ha : f a with _ | b
    · rw [List.filterMap_cons_none ha, List.filterMap_nil, List.append_nil, ih]
      split
      · rfl
      · rw [List.filterMap_append, List.filterMap_cons_none ha, List.filterMap_nil,
          List.append_nil]
    · have hmem : b ∈ items.filterMap f ↔ a ∈ items := by
        rw [List.mem_filterMap]
        constructor
        · rintro ⟨a', ha', hb⟩
          exact hf a' a b hb ha ▸ ha'
        · exact fun hin => ⟨a, hin, ha⟩
      rw [List.filterMap_cons_some ha, List.filterMap_nil, eraseDups_concat, ih]
      by_cases hin : a ∈ items
      · rw [if_pos hin, if_pos (hmem.2 hin)]
      · rw [if_neg hin, if_neg fun hb => hin (hmem.1 hb), List.filterMap_append,
          List.filterMap_cons_some ha, List.filterMap_nil]

/-! ### The views of the plain graph -/

section Plain

variable (g : Graph S)

/-- The relations of the records with a property are the relations with that property. -/
theorem filterMap_resolve?_filter {p : Record S → Bool} {q : Relation S → Bool}
    (h : ∀ r rel, g.resolve? r = some rel → q rel = p r) (records : List (Record S)) :
    (records.filter p).filterMap g.resolve? = (records.filterMap g.resolve?).filter q := by
  rw [List.filterMap_filter, List.filter_filterMap]
  refine List.filterMap_congr fun r _ => ?_
  rcases hres : g.resolve? r with _ | rel
  · simp
  · rw [Option.filter_some, h r rel hres]

theorem ofKind_eq (kind : String) : g.ofKind kind = g.relations.filter fun r => r.kind == kind :=
  g.filterMap_resolve?_filter (fun _ _ hres => by
    obtain ⟨_, _, -, -, rfl⟩ := resolve?_eq_some_iff.1 hres
    rfl) g.records

theorem outgoing_eq (id : String) :
    g.outgoing id = (g.relations.filter fun r => r.source.id == id).reverse := by
  rw [outgoing, leaving, List.filterMap_reverse, relations, ← filterMap_resolve?_filter]
  intro r rel hres
  obtain ⟨_, _, hs, -, rfl⟩ := resolve?_eq_some_iff.1 hres
  rw [Record.between, id_of_entity? hs]

theorem incoming_eq (id : String) :
    g.incoming id = (g.relations.filter fun r => r.target.id == id).reverse := by
  rw [incoming, entering, List.filterMap_reverse, relations, ← filterMap_resolve?_filter]
  intro r rel hres
  obtain ⟨_, _, -, ht, rfl⟩ := resolve?_eq_some_iff.1 hres
  rw [Record.between, id_of_entity? ht]

theorem between_eq (source target : String) : g.between source target =
    (g.relations.filter fun r => r.source.id == source && r.target.id == target).reverse := by
  have hfilter : g.between source target =
      (g.outgoing source).filter fun r => r.target.id == target := by
    rw [between, outgoing]
    refine g.filterMap_resolve?_filter (fun r rel hres => ?_) (g.leaving source)
    obtain ⟨_, _, -, ht, rfl⟩ := resolve?_eq_some_iff.1 hres
    rw [Record.between, id_of_entity? ht]
  rw [hfilter, outgoing_eq, List.filter_reverse, List.filter_filter]
  simp only [Bool.and_comm]

end Plain

/-- **Every record stands for a relation.** -/
def Resolves (g : Graph S) : Prop :=
  ∀ r ∈ g.records, ∃ rel, g.resolve? r = some rel

section Resolves

variable {g : Graph S} (h : g.Resolves)
include h

/-- What is read off the relations of some records can be read off the records. -/
theorem Resolves.map_filterMap {β : Type} {f : Relation S → β} {f' : Record S → β}
    (hf : ∀ r rel, g.resolve? r = some rel → f rel = f' r) {records : List (Record S)}
    (hrecords : ∀ r ∈ records, r ∈ g.records) :
    (records.filterMap g.resolve?).map f = records.map f' := by
  rw [List.map_filterMap, ← List.filterMap_eq_map]
  refine List.filterMap_congr fun r hr => ?_
  obtain ⟨rel, hres⟩ := h r (hrecords r hr)
  rw [hres, Option.map_some, hf r rel hres]
  rfl

theorem Resolves.map_target (id : String) :
    (g.outgoing id).map (fun r => r.target.id) = (g.leaving id).map Record.target := by
  refine h.map_filterMap (fun r rel hres => ?_) fun r hr =>
    (List.mem_filter.1 (List.mem_reverse.1 hr)).1
  obtain ⟨_, _, -, ht, rfl⟩ := resolve?_eq_some_iff.1 hres
  exact id_of_entity? ht

theorem Resolves.map_source (id : String) :
    (g.incoming id).map (fun r => r.source.id) = (g.entering id).map Record.source := by
  refine h.map_filterMap (fun r rel hres => ?_) fun r hr =>
    (List.mem_filter.1 (List.mem_reverse.1 hr)).1
  obtain ⟨_, _, hs, -, rfl⟩ := resolve?_eq_some_iff.1 hres
  exact id_of_entity? hs

theorem Resolves.map_kind : g.relations.map Relation.kind = g.records.map Record.kind := by
  refine h.map_filterMap (fun r rel hres => ?_) fun _ hr => hr
  obtain ⟨_, _, -, -, rfl⟩ := resolve?_eq_some_iff.1 hres
  rfl

end Resolves

theorem Tells.resolves [Scalar S] {g : Graph S} {done : List (Insertion S)} (h : g.Tells done) :
    g.Resolves := fun _ hr => by
  obtain ⟨-, -, s, t, -, -, -, hres⟩ := h.resolve_of_mem hr
  exact ⟨_, hres⟩

/-- The look-up of a triple finds a relation that has it. -/
theorem of_relation?_eq_some {g : Graph S} {source target kind : String} {r : Relation S}
    (h : g.relation? source target kind = some r) :
    r ∈ g.relations ∧ r.triple = (source, target, kind) := by
  obtain ⟨record, hrecord, hres⟩ := Option.bind_eq_some_iff.1 h
  have htriple : record.triple = (source, target, kind) := by simpa using List.find?_some hrecord
  exact ⟨mem_relations_iff.2 ⟨record, List.mem_of_find?_eq_some hrecord, hres⟩,
    (triple_of_resolve? hres).trans htriple⟩

end Graph

namespace IndexedGraph

/-! ### The views of the graph with indices -/

/-- **All views agree** with the list of all relations. -/
structure ViewsAgree (g : IndexedGraph S) : Prop where
  /-- The relations of a type are all of that type, oldest first. -/
  ofKind : ∀ kind, g.ofKind kind = g.relations.filter fun r => r.kind == kind
  /-- Around an entity and between two entities the newest relation comes first. -/
  outgoing : ∀ id, g.outgoing id = (g.relations.filter fun r => r.source.id == id).reverse
  incoming : ∀ id, g.incoming id = (g.relations.filter fun r => r.target.id == id).reverse
  between : ∀ source target, g.between source target =
    (g.relations.filter fun r => r.source.id == source && r.target.id == target).reverse
  /-- No triple comes up twice, so a relation is listed once wherever it belongs, a loop among
  them. -/
  triples_nodup : (g.relations.map Relation.triple).Nodup
  once : ∀ r ∈ g.relations,
    (g.outgoing r.source.id).filter (fun other => other.triple == r.triple) = [r] ∧
    (g.incoming r.target.id).filter (fun other => other.triple == r.triple) = [r] ∧
    (g.between r.source.id r.target.id).filter (fun other => other.triple == r.triple) = [r]
  kinds_nodup : g.kinds.Nodup
  mem_kinds : ∀ kind, kind ∈ g.kinds ↔ ∃ r ∈ g.relations, r.kind = kind
  successors_nodup : ∀ id, (g.successors id).Nodup
  mem_successors : ∀ id other, other ∈ g.successors id ↔
    ∃ r ∈ g.relations, r.source.id = id ∧ r.target.id = other
  predecessors_nodup : ∀ id, (g.predecessors id).Nodup
  mem_predecessors : ∀ id other, other ∈ g.predecessors id ↔
    ∃ r ∈ g.relations, r.target.id = id ∧ r.source.id = other
  neighbors_nodup : ∀ id, (g.neighbors id).Nodup
  mem_neighbors : ∀ id other, other ∈ g.neighbors id ↔
    ∃ r ∈ g.relations, r.source.id = id ∧ r.target.id = other ∨
      r.target.id = id ∧ r.source.id = other
  mem_successors_iff : ∀ id other, other ∈ g.successors id ↔ id ∈ g.predecessors other
  /-- The index of the types has no entry without edges, and no place twice. -/
  index_sorted : ∀ kind places, g.kindPlaces.get? kind = some places →
    places ≠ [] ∧ places.Pairwise (· < ·)
  /-- It lists exactly the places of the relations of a type. -/
  mem_index : ∀ kind place, (∃ places, g.kindPlaces.get? kind = some places ∧ place ∈ places) ↔
    ∃ r, g.relations[place]? = some r ∧ r.kind = kind

/-- **The views of two graphs**, one with and one without indices, **are the same**. -/
structure SameViews (x : IndexedGraph S) (g : Graph S) : Prop where
  entities : x.entities = g.entities
  relations : x.relations = g.relations
  entity : ∀ id, x.entity? id = g.entity? id
  hasEntity : ∀ id, x.hasEntity id = g.hasEntity id
  relation : ∀ source target kind, x.relation? source target kind = g.relation? source target kind
  ofKind : ∀ kind, x.ofKind kind = g.ofKind kind
  outgoing : ∀ id, x.outgoing id = g.outgoing id
  incoming : ∀ id, x.incoming id = g.incoming id
  between : ∀ source target, x.between source target = g.between source target
  successors : ∀ id, x.successors id = g.successors id
  predecessors : ∀ id, x.predecessors id = g.predecessors id
  neighbors : ∀ id, x.neighbors id = g.neighbors id
  /-- The types come in another order. -/
  kinds : x.kinds.Perm g.kinds
  nodeCount : x.nodeCount = g.nodeCount
  edgeCount : x.edgeCount = g.edgeCount

variable {g : IndexedGraph S}

/-! ### Places and relations -/

theorem placesOf_filter (edges : Array (Edge S)) (p q : Edge S → Bool) :
    (placesOf edges p).filter (fun place => edges[place]?.any q) =
      placesOf edges fun e => q e && p e := by
  rw [placesOf, List.filter_filter, placesOf]
  refine List.filter_congr fun place _ => ?_
  rcases edges[place]? with _ | e <;> rfl

namespace Sound

variable (h : g.Sound)
include h

theorem mem_relations {r : Relation S} :
    r ∈ g.relations ↔ ∃ place, g.relationAt? place = some r := by
  rw [List.mem_iff_getElem?]
  simp only [h.getElem?_relations]

/-- What is known of an edge is known of its relation. -/
theorem relationAt?_ends {place : Nat} {e : Edge S} {r : Relation S}
    (he : g.edges[place]? = some e) (hr : g.relationAt? place = some r) :
    g.entityAt? e.source = some r.source ∧ g.entityAt? e.target = some r.target ∧
      e.kind = r.kind := by
  obtain ⟨s, t, hs, ht, hrel⟩ := h.exists_relationAt? he
  obtain rfl := Option.some.inj (hr.symm.trans hrel)
  exact ⟨hs, ht, rfl⟩

/-- **The relations at the places of the edges with a property** are the relations with it. -/
theorem filterMap_placesOf {p : Edge S → Bool} {q : Relation S → Bool}
    (hpq : ∀ (place : Nat) (e : Edge S) (r : Relation S), g.edges[place]? = some e →
      g.relationAt? place = some r → q r = p e) :
    (placesOf g.edges p).filterMap g.relationAt? = g.relations.filter q := by
  rw [placesOf, List.filterMap_filter, relations, List.filter_filterMap]
  refine List.filterMap_congr fun place hplace => ?_
  obtain ⟨e, he⟩ := exists_edge (List.mem_range.1 hplace)
  obtain ⟨s, t, -, -, hr⟩ := h.exists_relationAt? he
  rw [he, hr, Option.any_some, Option.filter_some, hpq place e _ he hr]

theorem id_eq_iff {place : Nat} {e : Entity S} (he : g.entityAt? place = some e) {id : String} :
    e.id = id ↔ g.place? id = some place := by
  rw [h.place, he, Option.map_some, Option.some.injEq]

theorem ofKind_eq (kind : String) : g.ofKind kind = g.relations.filter fun r => r.kind == kind := by
  have hindex : (g.kindPlaces.get? kind).getD [] = placesOf g.edges fun e => e.kind == kind := by
    rw [h.kindPlaces]
    split
    · rename_i hnil
      exact hnil.symm
    · rfl
  rw [ofKind, hindex]
  exact h.filterMap_placesOf fun _ _ _ he hr => by rw [(h.relationAt?_ends he hr).2.2]

/-- The entities of a relation are bound. -/
theorem place?_ends {r : Relation S} (hr : r ∈ g.relations) :
    (∃ node, g.place? r.source.id = some node) ∧ ∃ node, g.place? r.target.id = some node := by
  obtain ⟨place, hplace⟩ := h.mem_relations.1 hr
  obtain ⟨e, s, t, -, hs, ht, rfl⟩ := relationAt?_eq_some_iff.1 hplace
  exact ⟨⟨_, h.place?_of_entityAt? hs⟩, ⟨_, h.place?_of_entityAt? ht⟩⟩

/-- An identifier that is not bound is at neither end of a relation. -/
theorem ends_ne {id : String} (hid : g.place? id = none) {r : Relation S}
    (hr : r ∈ g.relations) : r.source.id ≠ id ∧ r.target.id ≠ id := by
  obtain ⟨⟨s, hs⟩, t, ht⟩ := h.place?_ends hr
  constructor
  · rintro rfl
    cases hid.symm.trans hs
  · rintro rfl
    cases hid.symm.trans ht

/-- An entity has an identifier exactly when its node is the one of the identifier. -/
theorem id_beq {place node : Nat} {e : Entity S} (he : g.entityAt? place = some e) {id : String}
    (hid : g.place? id = some node) : (e.id == id) = (place == node) := by
  rw [Bool.eq_iff_iff, beq_iff_eq, beq_iff_eq, h.id_eq_iff he, hid, Option.some.injEq, eq_comm]

/-- **The relations at one end of which an entity is**, when the places of their edges are listed
at the node of the entity. -/
theorem filterMap_adjacent {node : Edge S → Nat} {entity : Relation S → Entity S} {id : String}
    (hend : ∀ (place : Nat) (e : Edge S) (r : Relation S), g.edges[place]? = some e →
      g.relationAt? place = some r → g.entityAt? (node e) = some (entity r))
    (hunbound : g.place? id = none → ∀ r ∈ g.relations, (entity r).id ≠ id) :
    (((g.place? id).map fun place =>
      (placesOf g.edges fun e => node e == place).reverse).getD []).filterMap g.relationAt? =
        (g.relations.filter fun r => (entity r).id == id).reverse := by
  rcases hid : g.place? id with _ | place
  · rw [List.filter_eq_nil_iff.2 fun r hr heq => hunbound hid r hr (eq_of_beq heq)]
    rfl
  · rw [Option.map_some, Option.getD_some, List.filterMap_reverse,
      h.filterMap_placesOf fun _ _ _ he hr => h.id_beq (hend _ _ _ he hr) hid]

theorem outgoing_eq (id : String) :
    g.outgoing id = (g.relations.filter fun r => r.source.id == id).reverse := by
  rw [outgoing, IndexedGraph.leaving, funext h.leaving]
  exact h.filterMap_adjacent (fun _ _ _ he hr => (h.relationAt?_ends he hr).1)
    fun hid _ hr => (h.ends_ne hid hr).1

theorem incoming_eq (id : String) :
    g.incoming id = (g.relations.filter fun r => r.target.id == id).reverse := by
  rw [incoming, IndexedGraph.entering, funext h.entering]
  exact h.filterMap_adjacent (fun _ _ _ he hr => (h.relationAt?_ends he hr).2.1)
    fun hid _ hr => (h.ends_ne hid hr).2

theorem between_eq (source target : String) : g.between source target =
    (g.relations.filter fun r => r.source.id == source && r.target.id == target).reverse := by
  rw [between]
  rcases hs : g.place? source with _ | s
  · rw [List.filter_eq_nil_iff.2 fun r hr heq =>
      (h.ends_ne hs hr).1 (eq_of_beq (Bool.and_eq_true_iff.1 heq).1)]
    rfl
  rcases ht : g.place? target with _ | t
  · rw [List.filter_eq_nil_iff.2 fun r hr heq =>
      (h.ends_ne ht hr).2 (eq_of_beq (Bool.and_eq_true_iff.1 heq).2)]
    rfl
  · change (g.joining s t).filterMap g.relationAt? = _
    rw [joining, h.leaving, List.filter_reverse, placesOf_filter, List.filterMap_reverse,
      h.filterMap_placesOf fun _ e r he hr => ?_]
    obtain ⟨hsource, htarget, -⟩ := h.relationAt?_ends he hr
    rw [h.id_beq hsource hs, h.id_beq htarget ht, Bool.and_comm]

/-- **The relation of a triple is found exactly when it is there.** -/
theorem relation?_eq_some_iff {source target kind : String} {r : Relation S} :
    g.relation? source target kind = some r ↔
      r ∈ g.relations ∧ r.triple = (source, target, kind) := by
  simp only [relation?, Option.bind_eq_bind, Option.bind_eq_some_iff, h.joiningOf?_eq_some_iff]
  constructor
  · rintro ⟨s, hs, t, ht, place, ⟨e, he, hkey⟩, hr⟩
    obtain ⟨rfl, rfl, rfl⟩ : e.source = s ∧ e.target = t ∧ e.kind = kind := by
      simpa [Edge.key] using hkey
    exact ⟨h.mem_relations.2 ⟨place, hr⟩, (h.triple_relationAt? he hr).2 ⟨hs, ht, rfl⟩⟩
  · rintro ⟨hr, htriple⟩
    obtain ⟨place, hplace⟩ := h.mem_relations.1 hr
    obtain ⟨e, -, -, he, -⟩ := relationAt?_eq_some_iff.1 hplace
    obtain ⟨hs, ht, rfl⟩ := (h.triple_relationAt? he hplace).1 htriple
    exact ⟨e.source, hs, e.target, ht, place, ⟨e, he, rfl⟩, hplace⟩

/-! ### Neighbours and types -/

theorem identifiers_eq (nodes : List Nat) : g.identifiers nodes =
    (nodes.filterMap fun node => (g.entityAt? node).map Entity.id).eraseDups := by
  rw [identifiers, Graph.eraseDups_filterMap]
  intro node node' id hid hid'
  have hplace := (h.place id node).2 hid
  rw [(h.place id node').2 hid'] at hplace
  exact (Option.some.inj hplace).symm

/-- The entities at one end of some edges, read off their relations. -/
theorem filterMap_ends {node : Edge S → Nat} {entity : Relation S → Entity S}
    (hend : ∀ (place : Nat) (e : Edge S) (r : Relation S), g.edges[place]? = some e →
      g.relationAt? place = some r → g.entityAt? (node e) = some (entity r)) (places : List Nat) :
    (places.filterMap fun place => g.edges[place]?.map node).filterMap
        (fun place => (g.entityAt? place).map Entity.id) =
      (places.filterMap g.relationAt?).map fun r => (entity r).id := by
  rw [List.filterMap_filterMap, List.map_filterMap]
  refine List.filterMap_congr fun place _ => ?_
  rcases he : g.edges[place]? with _ | e
  · rw [relationAt?, he]
    rfl
  · obtain ⟨s, t, -, -, hr⟩ := h.exists_relationAt? he
    rw [hr, Option.map_some, Option.bind_some, hend place e _ he hr]
    rfl

theorem filterMap_targets (places : List Nat) :
    (g.targets places).filterMap (fun place => (g.entityAt? place).map Entity.id) =
      (places.filterMap g.relationAt?).map fun r => r.target.id :=
  h.filterMap_ends (fun _ _ _ he hr => (h.relationAt?_ends he hr).2.1) places

theorem filterMap_sources (places : List Nat) :
    (g.sources places).filterMap (fun place => (g.entityAt? place).map Entity.id) =
      (places.filterMap g.relationAt?).map fun r => r.source.id :=
  h.filterMap_ends (fun _ _ _ he hr => (h.relationAt?_ends he hr).1) places

theorem successors_eq (id : String) :
    g.successors id = ((g.outgoing id).map fun r => r.target.id).eraseDups := by
  rw [successors, h.identifiers_eq, h.filterMap_targets, outgoing]

theorem predecessors_eq (id : String) :
    g.predecessors id = ((g.incoming id).map fun r => r.source.id).eraseDups := by
  rw [predecessors, h.identifiers_eq, h.filterMap_sources, incoming]

theorem neighbors_eq (id : String) : g.neighbors id = ((g.outgoing id).map (fun r => r.target.id) ++
    (g.incoming id).map fun r => r.source.id).eraseDups := by
  rw [neighbors, h.identifiers_eq, List.filterMap_append, h.filterMap_targets,
    h.filterMap_sources, outgoing, incoming]

theorem mem_outgoing {id : String} {r : Relation S} :
    r ∈ g.outgoing id ↔ r ∈ g.relations ∧ r.source.id = id := by
  rw [h.outgoing_eq, List.mem_reverse, List.mem_filter, beq_iff_eq]

theorem mem_incoming {id : String} {r : Relation S} :
    r ∈ g.incoming id ↔ r ∈ g.relations ∧ r.target.id = id := by
  rw [h.incoming_eq, List.mem_reverse, List.mem_filter, beq_iff_eq]

theorem mem_successors {id other : String} : other ∈ g.successors id ↔
    ∃ r ∈ g.relations, r.source.id = id ∧ r.target.id = other := by
  simp only [h.successors_eq, List.mem_eraseDups, List.mem_map, h.mem_outgoing, and_assoc]

theorem mem_predecessors {id other : String} : other ∈ g.predecessors id ↔
    ∃ r ∈ g.relations, r.target.id = id ∧ r.source.id = other := by
  simp only [h.predecessors_eq, List.mem_eraseDups, List.mem_map, h.mem_incoming, and_assoc]

theorem mem_neighbors {id other : String} : other ∈ g.neighbors id ↔
    ∃ r ∈ g.relations, r.source.id = id ∧ r.target.id = other ∨
      r.target.id = id ∧ r.source.id = other := by
  simp only [h.neighbors_eq, List.mem_eraseDups, List.mem_append, List.mem_map, h.mem_outgoing,
    h.mem_incoming, and_assoc, ← exists_or, ← and_or_left]

theorem get?_kindPlaces {kind : String} {places : List Nat} :
    g.kindPlaces.get? kind = some places ↔
      places ≠ [] ∧ places = placesOf g.edges fun e => e.kind == kind := by
  rw [h.kindPlaces]
  split
  · rename_i hnil
    simp [hnil]
  · rename_i hne
    rw [Option.some.injEq]
    exact ⟨fun heq => ⟨heq ▸ hne, heq.symm⟩, fun heq => heq.2.symm⟩

/-- **The index of the types lists exactly the places of the relations of a type.** -/
theorem mem_index {kind : String} {place : Nat} :
    (∃ places, g.kindPlaces.get? kind = some places ∧ place ∈ places) ↔
      ∃ r, g.relations[place]? = some r ∧ r.kind = kind := by
  have hplaces : (∃ places, g.kindPlaces.get? kind = some places ∧ place ∈ places) ↔
      place ∈ placesOf g.edges fun e => e.kind == kind := by
    simp only [h.get?_kindPlaces]
    constructor
    · rintro ⟨_, ⟨-, rfl⟩, hin⟩
      exact hin
    · exact fun hin => ⟨_, ⟨List.ne_nil_of_mem hin, rfl⟩, hin⟩
  rw [hplaces, mem_placesOf, h.getElem?_relations]
  constructor
  · rintro ⟨e, he, hkind⟩
    obtain ⟨s, t, -, -, hr⟩ := h.exists_relationAt? he
    exact ⟨_, hr, eq_of_beq hkind⟩
  · rintro ⟨r, hr, hkind⟩
    obtain ⟨e, s, t, he, -, -, rfl⟩ := relationAt?_eq_some_iff.1 hr
    exact ⟨e, he, beq_iff_eq.2 hkind⟩

theorem mem_kinds {kind : String} : kind ∈ g.kinds ↔ ∃ r ∈ g.relations, r.kind = kind := by
  have hkey : kind ∈ g.kinds ↔ ∃ places, g.kindPlaces.get? kind = some places := by
    rw [kinds, Table.keys, List.mem_map]
    constructor
    · rintro ⟨⟨_, places⟩, hentry, rfl⟩
      exact ⟨places, h.kinds_ordered.mem_iff.1 hentry⟩
    · rintro ⟨places, hplaces⟩
      exact ⟨(kind, places), Table.mem_of_get? hplaces, rfl⟩
  rw [hkey]
  constructor
  · rintro ⟨places, hplaces⟩
    obtain ⟨place, hin⟩ := List.exists_mem_of_ne_nil _ (h.get?_kindPlaces.1 hplaces).1
    obtain ⟨r, hr, hkind⟩ := h.mem_index.1 ⟨places, hplaces, hin⟩
    exact ⟨r, List.mem_of_getElem? hr, hkind⟩
  · rintro ⟨r, hr, hkind⟩
    obtain ⟨place, hplace⟩ := List.getElem?_of_mem hr
    obtain ⟨places, hplaces, -⟩ := h.mem_index.2 ⟨r, hplace, hkind⟩
    exact ⟨places, hplaces⟩

end Sound

/-- **The views of a sound graph agree**, as far as no triple comes up twice. -/
theorem Sound.viewsAgree (h : g.Sound) (hnodup : (g.relations.map Relation.triple).Nodup) :
    g.ViewsAgree where
  ofKind := h.ofKind_eq
  outgoing := h.outgoing_eq
  incoming := h.incoming_eq
  between := h.between_eq
  triples_nodup := hnodup
  once r hr := by
    -- a view is a part of the list of all relations, read backwards
    have honce : ∀ {q : Relation S → Bool}, q r = true →
        (g.relations.filter q).reverse.filter (fun other => other.triple == r.triple) = [r] := by
      intro q hq
      refine Graph.filter_of_mem ?_ (List.mem_reverse.2 (List.mem_filter.2 ⟨hr, hq⟩))
      rw [List.map_reverse, List.nodup_reverse]
      exact hnodup.sublist (List.filter_sublist.map _)
    rw [h.outgoing_eq, h.incoming_eq, h.between_eq]
    exact ⟨honce (beq_self_eq_true _), honce (beq_self_eq_true _), honce (by simp)⟩
  kinds_nodup := h.kinds_ordered.keys_nodup
  mem_kinds _ := h.mem_kinds
  successors_nodup id := h.successors_eq id ▸ Graph.nodup_eraseDups _
  mem_successors _ _ := h.mem_successors
  predecessors_nodup id := h.predecessors_eq id ▸ Graph.nodup_eraseDups _
  mem_predecessors _ _ := h.mem_predecessors
  neighbors_nodup id := h.neighbors_eq id ▸ Graph.nodup_eraseDups _
  mem_neighbors _ _ := h.mem_neighbors
  mem_successors_iff id other := by
    rw [h.mem_successors, h.mem_predecessors]
    simp only [and_comm]
  index_sorted kind places hplaces := by
    obtain ⟨hne, rfl⟩ := h.get?_kindPlaces.1 hplaces
    exact ⟨hne, placesOf_sorted ..⟩
  mem_index _ _ := h.mem_index

/-! ### Names of nodes -/

/-- The identifier of a node; the places that count have one. -/
def nameAt (g : IndexedGraph S) (place : Nat) : String :=
  (g.idAt? place).getD ""

theorem idAt?_eq {place : Nat} (hplace : place < g.nodes.size) :
    g.idAt? place = some (g.nameAt place) := by
  obtain ⟨e, he⟩ := entityAt?_of_lt hplace
  rw [nameAt, idAt?, he]
  rfl

theorem nameAt_of_entityAt? {place : Nat} {e : Entity S} (he : g.entityAt? place = some e) :
    g.nameAt place = e.id := by
  rw [nameAt, idAt?, he]
  rfl

/-- The names are the identifiers of the entities. -/
theorem map_id_entities : g.entities.map Entity.id = (List.range g.nodes.size).map g.nameAt := by
  refine List.ext_getElem? fun place => ?_
  rw [List.getElem?_map, getElem?_entities, List.getElem?_map]
  by_cases hplace : place < g.nodes.size
  · rw [List.getElem?_range hplace]
    exact idAt?_eq hplace
  · rw [List.getElem?_eq_none (List.length_range ▸ Nat.le_of_not_lt hplace), entityAt?,
      Array.getElem?_eq_none (Nat.le_of_not_lt hplace)]
    rfl

theorem Sound.place?_nameAt (h : g.Sound) {place : Nat} (hplace : place < g.nodes.size) :
    g.place? (g.nameAt place) = some place :=
  (h.place _ place).2 (idAt?_eq hplace)

theorem Sound.nameAt_of_place? (h : g.Sound) {id : String} {place : Nat}
    (hplace : g.place? id = some place) : place < g.nodes.size ∧ g.nameAt place = id := by
  obtain ⟨e, he, hid⟩ := h.entityAt?_of_place? hplace
  exact ⟨lt_of_entityAt? he, (nameAt_of_entityAt? he).trans hid⟩

/-- Names are unique. -/
theorem Sound.nameAt_inj (h : g.Sound) {v w : Nat} (hv : v < g.nodes.size)
    (hw : w < g.nodes.size) (heq : g.nameAt v = g.nameAt w) : v = w := by
  have hplace := h.place?_nameAt hv
  rw [heq, h.place?_nameAt hw] at hplace
  exact (Option.some.inj hplace).symm

theorem Sound.mem_map_nameAt_iff (h : g.Sound) {visited : List Nat}
    (hvisited : ∀ v ∈ visited, v < g.nodes.size) {w : Nat} (hw : w < g.nodes.size) :
    g.nameAt w ∈ visited.map g.nameAt ↔ w ∈ visited := by
  rw [List.mem_map]
  constructor
  · rintro ⟨v, hv, heq⟩
    exact h.nameAt_inj (hvisited v hv) hw heq ▸ hv
  · exact fun hin => ⟨w, hin, rfl⟩

/-- **An edge joins two nodes exactly when its relation joins their names.** -/
theorem Sound.joins_iff (h : g.Sound) {place v w : Nat} (hv : v < g.nodes.size)
    (hw : w < g.nodes.size) :
    (∃ e, g.edges[place]? = some e ∧ e.source = v ∧ e.target = w) ↔
      ∃ r, g.relationAt? place = some r ∧ r.source.id = g.nameAt v ∧
        r.target.id = g.nameAt w := by
  simp only [relationAt?_eq_some_iff]
  constructor
  · rintro ⟨e, he, rfl, rfl⟩
    obtain ⟨s, t, hs, ht, -⟩ := h.exists_relationAt? he
    exact ⟨_, ⟨e, s, t, he, hs, ht, rfl⟩, (nameAt_of_entityAt? hs).symm,
      (nameAt_of_entityAt? ht).symm⟩
  · rintro ⟨_, ⟨e, s, t, he, hs, ht, rfl⟩, hsource, htarget⟩
    obtain ⟨hs', ht'⟩ := h.ends place e he
    exact ⟨e, he, h.nameAt_inj hs' hv ((nameAt_of_entityAt? hs).trans hsource),
      h.nameAt_inj ht' hw ((nameAt_of_entityAt? ht).trans htarget)⟩

/-! ### Graphs that grew -/

/-- The record of a relation stands for it. -/
theorem Sound.resolve?_toRecord (h : g.Sound) {r : Relation S} (hr : r ∈ g.relations) :
    g.toGraph.resolve? r.toRecord = some r := by
  obtain ⟨place, hplace⟩ := h.mem_relations.1 hr
  obtain ⟨e, s, t, -, hs, ht, rfl⟩ := relationAt?_eq_some_iff.1 hplace
  refine Graph.resolve?_eq_some_iff.2 ⟨s, t, ?_, ?_, rfl⟩
  · rw [h.entity?_toGraph]
    exact Option.bind_eq_some_iff.2 ⟨_, h.place?_of_entityAt? hs, hs⟩
  · rw [h.entity?_toGraph]
    exact Option.bind_eq_some_iff.2 ⟨_, h.place?_of_entityAt? ht, ht⟩

theorem Sound.relations_toGraph (h : g.Sound) : g.toGraph.relations = g.relations := by
  rw [Graph.relations, toGraph, List.filterMap_map]
  exact (List.filterMap_congr fun _ => h.resolve?_toRecord).trans List.filterMap_some

theorem Sound.resolves_toGraph (h : g.Sound) : g.toGraph.Resolves := by
  intro record hrecord
  obtain ⟨r, hr, rfl⟩ := List.mem_map.1 hrecord
  exact ⟨r, h.resolve?_toRecord hr⟩

theorem Sound.relation?_toGraph (h : g.Sound) (source target kind : String) :
    g.toGraph.relation? source target kind = g.relation? source target kind := by
  have hfound : ∀ {r}, g.toGraph.relation? source target kind = some r →
      g.relation? source target kind = some r := fun hr => by
    rw [h.relation?_eq_some_iff, ← h.relations_toGraph]
    exact Graph.of_relation?_eq_some hr
  rcases hplain : g.toGraph.relation? source target kind with _ | r
  · -- a relation that the indices find would be found without them
    refine (Option.eq_none_iff_forall_ne_some.2 fun r hr => ?_).symm
    obtain ⟨hmem, htriple⟩ := h.relation?_eq_some_iff.1 hr
    exact Graph.relation?_eq_none_iff.1 hplain r (h.relations_toGraph.symm ▸ hmem) htriple
  · exact (hfound hplain).symm

/-- **A sound graph has the views of the plain one.** -/
theorem Sound.sameViews (h : g.Sound) : g.SameViews g.toGraph := by
  have hrelations := h.relations_toGraph
  have hresolves := h.resolves_toGraph
  have houtgoing : ∀ id, g.outgoing id = g.toGraph.outgoing id := fun id => by
    rw [h.outgoing_eq, Graph.outgoing_eq, hrelations]
  have hincoming : ∀ id, g.incoming id = g.toGraph.incoming id := fun id => by
    rw [h.incoming_eq, Graph.incoming_eq, hrelations]
  refine
    { entities := rfl
      relations := hrelations.symm
      entity := fun id => (h.entity?_toGraph id).symm
      hasEntity := fun id => (h.hasEntity_toGraph id).symm
      relation := fun source target kind => (h.relation?_toGraph source target kind).symm
      ofKind := fun kind => by rw [h.ofKind_eq, Graph.ofKind_eq, hrelations]
      outgoing := houtgoing
      incoming := hincoming
      between := fun source target => by rw [h.between_eq, Graph.between_eq, hrelations]
      successors := fun id => ?_
      predecessors := fun id => ?_
      neighbors := fun id => ?_
      kinds := ?_
      nodeCount := h.nodeCount_toGraph.symm
      edgeCount := ?_ }
  · rw [h.successors_eq, Graph.successors, houtgoing, hresolves.map_target]
  · rw [h.predecessors_eq, Graph.predecessors, hincoming, hresolves.map_source]
  · rw [h.neighbors_eq, Graph.neighbors, houtgoing, hincoming, hresolves.map_target,
      hresolves.map_source]
  · refine (List.perm_ext_iff_of_nodup h.kinds_ordered.keys_nodup
      (Graph.nodup_eraseDups _)).2 fun kind => ?_
    rw [← hresolves.map_kind, List.mem_eraseDups, List.mem_map, hrelations]
    exact h.mem_kinds
  · rw [h.edgeCount, Graph.edgeCount, toGraph, List.length_map, h.length_relations]

section Grow

variable [Scalar S]

/-- **All views agree**, after any calls that grow a graph, successful or not: each view of the
graph with indices is read off the list of all relations, no entry of an index is missing, repeated
or stale, and the graph without indices has the same views. -/
theorem views_grow (calls : List (Graph.Insertion S)) :
    (grow empty calls).ViewsAgree ∧
      (grow empty calls).SameViews (Graph.grow Graph.empty calls) := by
  obtain ⟨hsound, hgraph⟩ := sound_grow calls
  have htells := Graph.tells_grow calls
  rw [← hgraph] at htells
  refine ⟨hsound.viewsAgree ?_, ?_⟩
  · rw [← hsound.relations_toGraph]
    exact htells.history.relation_triples_nodup
  · rw [← hgraph]
    exact hsound.sameViews

/-- The calls that succeed. -/
def accepted (g : IndexedGraph S) : List (Graph.Insertion S) → List (Graph.Insertion S)
  | [] => []
  | call :: calls =>
    match g.insert call with
    | .ok g' => call :: accepted g' calls
    | .error _ => accepted g calls

theorem Sound.accepted_eq (h : g.Sound) (calls : List (Graph.Insertion S)) :
    g.accepted calls = g.toGraph.accepted calls := by
  induction calls generalizing g with
  | nil => rfl
  | cons call calls ih =>
    obtain ⟨hstep, hmap⟩ := h.insert call
    rw [accepted, Graph.accepted, ← hmap]
    rcases hcall : g.insert call with error | g'
    · exact ih h
    · exact congrArg (call :: ·) (ih (hstep g' hcall))

theorem Sound.addEntity_error_iff (h : g.Sound) {e : Entity S} :
    (∃ error, g.addEntity e = .error error) ↔ (∃ error, e.validate = .error error) ∨
      ∃ bound, g.entity? e.id = some bound ∧ ¬bound.Same e := by
  rw [← h.entity?_toGraph, ← Graph.addEntity_error_iff, ← (h.addEntity e).2]
  rcases g.addEntity e with error | added
  · exact ⟨fun _ => ⟨error, rfl⟩, fun _ => ⟨error, rfl⟩⟩
  · exact ⟨nofun, nofun⟩

/-- **The graph with indices is a history**, too. After any calls, successful or not, it has the
views of a plain graph with the history of the calls that succeeded. An identifier keeps its content
whatever is called later, and a call that fails changes nothing, in no index either. Adding an
entity fails exactly when it is invalid or its identifier is bound to another content. -/
theorem remembers_grow (calls : List (Graph.Insertion S)) :
    let g := grow empty calls
    g.toGraph.History (accepted empty calls) ∧ g.SameViews g.toGraph ∧
    (∀ id e more, g.entity? id = some e → (grow empty (calls ++ more)).entity? id = some e) ∧
    (∀ call error, g.insert call = .error error → grow empty (calls ++ [call]) = g) ∧
    ∀ e, (∃ error, g.addEntity e = .error error) ↔ (∃ error, e.validate = .error error) ∨
      ∃ bound, g.entity? e.id = some bound ∧ ¬bound.Same e := by
  intro g
  obtain ⟨hsound, hgraph⟩ := sound_grow calls
  have htells : g.toGraph.Tells (accepted empty calls) := by
    rw [sound_empty.accepted_eq, hgraph]
    exact Graph.tells_grow calls
  refine ⟨htells.history, hsound.sameViews, fun id e more he => ?_, fun call error hcall => ?_,
    fun e => hsound.addEntity_error_iff⟩
  · obtain ⟨hlater, hgrown⟩ := sound_grow (calls ++ more)
    rw [← hsound.entity?_toGraph, hgraph] at he
    rw [← hlater.entity?_toGraph, hgrown, Graph.grow_append]
    exact Graph.entity?_grow he more
  · have hafter : grow empty (calls ++ [call]) = g.after call := List.foldl_append
    rw [hafter, after, hcall]

end Grow

end IndexedGraph

end GraphReasoner
