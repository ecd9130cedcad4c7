import GraphReasoner.Graph.Store
import Mathlib.Data.List.Basic

/-!
# Growing a graph

A record is turned into a relation by looking its two entities up, so a relation is in a graph when
its record is and both entities are bound. `GraphReasoner.Graph.relation?_eq_none_iff` reads the
look-up of a triple as a statement about the list of all relations. With it
`GraphReasoner.Graph.addRelation` is described by triples: it adds the triple of the relation
(`GraphReasoner.Graph.relation?_addRelation`) and loses none
(`GraphReasoner.Graph.exists_triple_addRelation`).
-/

namespace GraphReasoner

variable {S : Type}

namespace Graph

variable {g : Graph S} {r : Record S} {rel : Relation S}

/-! ### Looking up -/

theorem id_of_entity? {id : String} {e : Entity S} (h : g.entity? id = some e) : e.id = id := by
  simpa using List.find?_some h

theorem mem_of_entity? {id : String} {e : Entity S} (h : g.entity? id = some e) :
    e ∈ g.entities :=
  List.mem_of_find?_eq_some h

theorem hasEntity_iff {id : String} : g.hasEntity id = true ↔ ∃ e, g.entity? id = some e := by
  rw [← Option.isSome_iff_exists, entity?, List.find?_isSome, hasEntity, List.any_eq_true]

theorem resolve?_eq_some_iff :
    g.resolve? r = some rel ↔ ∃ source target, g.entity? r.source = some source ∧
      g.entity? r.target = some target ∧ rel = r.between source target := by
  rw [resolve?]
  rcases g.entity? r.source with _ | source
  · simp
  · rcases g.entity? r.target with _ | target
    · simp
    · simp [eq_comm]

theorem triple_of_resolve? (h : g.resolve? r = some rel) : rel.triple = r.triple := by
  obtain ⟨source, target, hs, ht, rfl⟩ := resolve?_eq_some_iff.1 h
  simp only [Relation.triple, Record.triple, Record.between, id_of_entity? hs, id_of_entity? ht]

/-- Whether a record resolves depends on its triple alone. -/
theorem resolve?_of_triple_eq {r' : Record S} (h : g.resolve? r = some rel)
    (htriple : r'.triple = r.triple) : ∃ rel', g.resolve? r' = some rel' := by
  obtain ⟨source, target, hs, ht, -⟩ := resolve?_eq_some_iff.1 h
  have hsource : r'.source = r.source := congrArg Prod.fst htriple
  have htarget : r'.target = r.target := congrArg (fun t => t.2.1) htriple
  exact ⟨_, resolve?_eq_some_iff.2 ⟨source, target, hsource ▸ hs, htarget ▸ ht, rfl⟩⟩

theorem mem_relations_iff : rel ∈ g.relations ↔ ∃ r ∈ g.records, g.resolve? r = some rel :=
  List.mem_filterMap

/-- **A triple is not found exactly when no relation of the graph has it.** -/
theorem relation?_eq_none_iff {source target kind : String} :
    g.relation? source target kind = none ↔
      ∀ rel ∈ g.relations, rel.triple ≠ (source, target, kind) := by
  constructor
  · intro h rel hrel htriple
    obtain ⟨r, hr, hres⟩ := mem_relations_iff.1 hrel
    have hr' : r.triple = (source, target, kind) := (triple_of_resolve? hres).symm.trans htriple
    rcases hf : g.record? (source, target, kind) with _ | found
    · exact absurd (beq_iff_eq.2 hr') (List.find?_eq_none.1 hf r hr)
    · -- the first record with the triple may be another one, but its entities are bound as well
      have hfound : found.triple = (source, target, kind) := by simpa using List.find?_some hf
      obtain ⟨rel', hrel'⟩ := resolve?_of_triple_eq hres (hfound.trans hr'.symm)
      rw [relation?, hf] at h
      exact Option.some_ne_none _ (hrel'.symm.trans h)
  · intro h
    rcases hf : g.relation? source target kind with _ | rel
    · rfl
    · obtain ⟨r, hr, hres⟩ := Option.bind_eq_some_iff.1 hf
      have htriple : r.triple = (source, target, kind) := by simpa using List.find?_some hr
      exact absurd ((triple_of_resolve? hres).trans htriple)
        (h rel (mem_relations_iff.2 ⟨r, List.mem_of_find?_eq_some hr, hres⟩))

/-! ### Growing -/

/-- Binding an identifier that is bound changes nothing. -/
theorem bind_eq_self {e : Entity S} (h : g.hasEntity e.id = true) : g.bind e = g :=
  if_pos h

/-- A new identifier is bound to its entity, and no other is changed. -/
theorem entity?_bind_of_none {e : Entity S} (hnone : g.entity? e.id = none) (id : String) :
    (g.bind e).entity? id = if e.id = id then some e else g.entity? id := by
  have hhas : ¬g.hasEntity e.id = true := fun h => by
    obtain ⟨bound, hbound⟩ := hasEntity_iff.1 h
    cases hnone.symm.trans hbound
  rw [bind, if_neg hhas]
  refine List.find?_append.trans ?_
  split
  · rename_i heq
    subst heq
    rw [show List.find? _ g.entities = none from hnone]
    simp
  · rename_i hne
    rw [List.find?_singleton, if_neg (by simpa using hne), Option.or_none]
    rfl

theorem hasEntity_bind_eq (g : Graph S) (e : Entity S) (id : String) :
    (g.bind e).hasEntity id = (g.hasEntity id || e.id == id) := by
  rw [bind]
  split
  · rename_i hbound
    by_cases hid : e.id = id
    · rw [← hid, hbound, Bool.true_or]
    · simp [hid]
  · simp [hasEntity]

theorem entity?_bind {id : String} {e : Entity S} (h : g.entity? id = some e) (e' : Entity S) :
    (g.bind e').entity? id = some e := by
  rw [bind]
  split
  · exact h
  · exact (List.find?_append ..).trans (by rw [show List.find? _ g.entities = some e from h]; rfl)

theorem hasEntity_bind (g : Graph S) (e : Entity S) : (g.bind e).hasEntity e.id = true := by
  rw [bind]
  split
  · assumption
  · simp [hasEntity]

@[simp] theorem records_bind (g : Graph S) (e : Entity S) : (g.bind e).records = g.records := by
  rw [bind]
  split <;> rfl

theorem mem_put_self (records : List (Record S)) (r : Record S) : r ∈ put records r := by
  induction records with
  | nil => exact List.mem_cons_self
  | cons old rest ih =>
    rw [put]
    split
    · exact List.mem_cons_self
    · exact List.mem_cons_of_mem _ ih

/-- A record keeps its place or gives it to one with the same triple. -/
theorem mem_put_of_mem {records : List (Record S)} {old : Record S} (h : old ∈ records)
    (r : Record S) : old ∈ put records r ∨ old.triple = r.triple := by
  induction records with
  | nil => cases h
  | cons first rest ih =>
    rw [put]
    split
    · rename_i htriple
      rcases List.mem_cons.1 h with rfl | h
      · exact Or.inr (beq_iff_eq.1 htriple)
      · exact Or.inl (List.mem_cons_of_mem _ h)
    · rcases List.mem_cons.1 h with rfl | h
      · exact Or.inl List.mem_cons_self
      · exact (ih h).imp (List.mem_cons_of_mem _) id

theorem mem_of_mem_put {records : List (Record S)} {r old : Record S} (h : old ∈ put records r) :
    old = r ∨ old ∈ records := by
  induction records with
  | nil => exact Or.inl (List.mem_singleton.1 h)
  | cons first rest ih =>
    rw [put] at h
    split at h
    · exact (List.mem_cons.1 h).imp id (List.mem_cons_of_mem _)
    · rcases List.mem_cons.1 h with rfl | h
      · exact Or.inr List.mem_cons_self
      · exact (ih h).imp id (List.mem_cons_of_mem _)

/-- A record whose triple is new comes last. -/
theorem put_eq_append {records : List (Record S)} {r : Record S}
    (h : ∀ old ∈ records, old.triple ≠ r.triple) : put records r = records ++ [r] := by
  induction records with
  | nil => rfl
  | cons first rest ih =>
    rw [List.forall_mem_cons] at h
    rw [put, if_neg fun heq => h.1 (beq_iff_eq.1 heq), ih h.2, List.cons_append]

/-- A record whose triple is there already goes to the first place that has it. -/
theorem put_eq_set {records : List (Record S)} {r old : Record S} {place : Nat}
    (hplace : records[place]? = some old) (hold : old.triple = r.triple)
    (hfirst : ∀ before < place, ∀ other, records[before]? = some other →
      other.triple ≠ r.triple) : put records r = records.set place r := by
  induction records generalizing place with
  | nil => cases hplace
  | cons first rest ih =>
    rw [put]
    cases place with
    | zero =>
      obtain rfl := Option.some.inj hplace
      rw [if_pos (beq_iff_eq.2 hold), List.set_cons_zero]
    | succ place =>
      have hne : first.triple ≠ r.triple := hfirst 0 (Nat.succ_pos place) first rfl
      rw [if_neg fun heq => hne (beq_iff_eq.1 heq), List.set_cons_succ,
        ih hplace fun before hbefore other hother =>
          hfirst (before + 1) (Nat.succ_lt_succ hbefore) other hother]

section AddRelation

variable [Scalar S] {g' : Graph S}

/-- **A relation is added exactly when it is valid**: its entities are bound and its record is
put. -/
theorem addRelation_eq (g : Graph S) (rel : Relation S) :
    g.addRelation rel = (rel.validate).map fun _ =>
      { (g.bind rel.source).bind rel.target with
        records := put g.records rel.toRecord } := by
  rw [addRelation]
  rcases rel.validate with error | ⟨⟩
  · rfl
  · simp [Except.map, Bind.bind, Except.bind, pure, Except.pure]

theorem addRelation_eq_ok_iff : g.addRelation rel = .ok g' ↔
    rel.validate = .ok () ∧ g' = { (g.bind rel.source).bind rel.target with
      records := put g.records rel.toRecord } := by
  rw [addRelation_eq]
  rcases rel.validate with error | ⟨⟩
  · simp [Except.map]
  · simp [Except.map, eq_comm]

theorem addRelation_eq_error_iff {error : ReasonerError S} :
    g.addRelation rel = .error error ↔ rel.validate = .error error := by
  rw [addRelation_eq]
  rcases rel.validate with error' | ⟨⟩ <;> simp [Except.map]

/-- **Relations are added exactly when all of them are valid.** -/
theorem addRelations_error_iff {relations : List (Relation S)} :
    (∃ error, g.addRelations relations = .error error) ↔
      ∃ r ∈ relations, ∃ error, r.validate = .error error := by
  induction relations generalizing g with
  | nil => exact ⟨nofun, nofun⟩
  | cons r relations ih =>
    rw [addRelations, List.foldlM_cons, addRelation_eq]
    rcases hvalid : r.validate with error | ⟨⟩
    · exact ⟨fun _ => ⟨r, List.mem_cons_self, error, hvalid⟩, fun _ => ⟨error, rfl⟩⟩
    · refine ih.trans ⟨?_, ?_⟩
      · rintro ⟨bad, hbad, herror⟩
        exact ⟨bad, List.mem_cons_of_mem _ hbad, herror⟩
      · rintro ⟨bad, hbad, error, herror⟩
        rcases List.mem_cons.1 hbad with rfl | hin
        · cases hvalid.symm.trans herror
        · exact ⟨bad, hin, error, herror⟩

/-- Entities that are bound stay bound to what they were. -/
theorem entity?_addRelation (h : g.addRelation rel = .ok g') {id : String} {e : Entity S}
    (he : g.entity? id = some e) : g'.entity? id = some e := by
  obtain ⟨-, rfl⟩ := addRelation_eq_ok_iff.1 h
  exact entity?_bind (entity?_bind he rel.source) rel.target

/-- **What was added is found.** -/
theorem relation?_addRelation (h : g.addRelation rel = .ok g') :
    ∃ rel' ∈ g'.relations, rel'.triple = rel.triple := by
  obtain ⟨-, rfl⟩ := addRelation_eq_ok_iff.1 h
  obtain ⟨source, hsource⟩ := hasEntity_iff.1 (hasEntity_bind g rel.source)
  obtain ⟨target, htarget⟩ := hasEntity_iff.1 (hasEntity_bind (g.bind rel.source) rel.target)
  have hres : resolve? { (g.bind rel.source).bind rel.target with
      records := put g.records rel.toRecord } rel.toRecord =
      some (rel.toRecord.between source target) :=
    resolve?_eq_some_iff.2 ⟨source, target, entity?_bind hsource rel.target, htarget, rfl⟩
  exact ⟨_, mem_relations_iff.2 ⟨rel.toRecord, mem_put_self g.records rel.toRecord, hres⟩,
    triple_of_resolve? hres⟩

/-- **Adding a relation loses no triple.** -/
theorem exists_triple_addRelation (h : g.addRelation rel = .ok g') {old : Relation S}
    (hold : old ∈ g.relations) : ∃ rel' ∈ g'.relations, rel'.triple = old.triple := by
  obtain ⟨r, hr, hres⟩ := mem_relations_iff.1 hold
  have htriple := triple_of_resolve? hres
  rcases mem_put_of_mem hr rel.toRecord with hstay | hsame
  · obtain ⟨source, target, hs, ht, -⟩ := resolve?_eq_some_iff.1 hres
    have hres' : g'.resolve? r = some (r.between source target) :=
      resolve?_eq_some_iff.2
        ⟨source, target, entity?_addRelation h hs, entity?_addRelation h ht, rfl⟩
    obtain ⟨-, rfl⟩ := addRelation_eq_ok_iff.1 h
    exact ⟨_, mem_relations_iff.2 ⟨r, hstay, hres'⟩, (triple_of_resolve? hres').trans htriple.symm⟩
  · obtain ⟨rel', hrel', heq⟩ := relation?_addRelation h
    exact ⟨rel', hrel', heq.trans (hsame.symm.trans htriple.symm)⟩

end AddRelation

end Graph

end GraphReasoner
