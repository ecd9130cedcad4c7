import GraphReasoner.Proofs.Halves
import GraphReasoner.Proofs.Rule.Derivation
import Mathlib.Data.List.Forall2
import Mathlib.Tactic.FinCases

/-!
# One step of composition on a list of relations

A list of relations is put into a graph, and the rules are applied to that graph. The entities of
the conclusions are taken from the list and not from the graph: a source is the first source with
its identifier, and a target the first target. An edge of the graph comes from a relation of the
list, so both are always found, and no path is dropped. They may differ from the entities of the
graph, which are the first mentioned in either place. So the step on the list and the step on the
graph agree as far as the entities with one identifier do (`GraphReasoner.RuleSet.infer_alike`).
-/

namespace GraphReasoner

variable {S : Type}

/-- **Relations that differ in their entities at most**, and there only between alike ones. -/
structure Relation.Alike (alike : Entity S → Entity S → Prop) (r r' : Relation S) : Prop where
  source : alike r.source r'.source
  target : alike r.target r'.target
  kind : r.kind = r'.kind
  confidence : r.confidence = r'.confidence
  properties : r.properties = r'.properties
  temporal : r.temporal = r'.temporal

/-- **Derivations that differ in the entities of their relations at most.** -/
structure Derivation.Alike (alike : Entity S → Entity S → Prop) (d d' : Derivation S) : Prop where
  derived : List.Forall₂ (Relation.Alike alike) d.derived d'.derived
  counts : d.counts = d'.counts
  skipped : d.skipped = d'.skipped

theorem Relation.Alike.eq {r r' : Relation S} (h : r.Alike Eq r') : r = r' := by
  obtain ⟨hsource, htarget, hkind, hconfidence, hproperties, htemporal⟩ := h
  cases r
  cases r'
  simp_all

theorem Derivation.Alike.eq {d d' : Derivation S} (h : d.Alike Eq d') : d = d' := by
  obtain ⟨hderived, hcounts, hskipped⟩ := h
  have hall : d.derived = d'.derived := by
    rw [← List.forall₂_eq_eq_eq]
    exact hderived.imp fun _ _ => Relation.Alike.eq
  cases d
  cases d'
  simp_all

section Step

variable [Scalar S]

/-! ### Look-ups that find alike entities -/

namespace Derivation

/-- Two look-ups find alike entities for an identifier. -/
def FindAlike (alike : Entity S → Entity S → Prop) (find? find?' : String → Option (Entity S))
    (id : String) : Prop :=
  ∃ e e', find? id = some e ∧ find?' id = some e' ∧ alike e e'

variable {alike : Entity S → Entity S → Prop} {g : Graph S}
  {source? target? source?' target?' : String → Option (Entity S)}

/-- **A rule derives alike relations with look-ups that find alike entities.** -/
theorem Alike.applyRule {d d' : Derivation S} (h : d.Alike alike d')
    (hfind : ∀ r ∈ g.records, FindAlike alike source? source?' r.source ∧
      FindAlike alike target? target?' r.target) (rule : Rule S) :
    (d.applyRule g source? target? rule).Alike alike
      (d'.applyRule g source?' target?' rule) := by
  have hfound : List.Forall₂ (Relation.Alike alike)
      ((g.compositions rule).filterMap (conclude? source? target? rule))
      ((g.compositions rule).filterMap (conclude? source?' target?' rule)) := by
    refine List.rel_filterMap (R := fun hop hop' => hop ∈ g.compositions rule ∧ hop' = hop) ?_
      (List.forall₂_same.2 fun hop hhop => ⟨hhop, rfl⟩)
    rintro hop _ ⟨hhop, rfl⟩
    obtain ⟨hhead, hlast⟩ := Graph.mem_of_mem_compositions hhop
    obtain ⟨s, s', hs, hs', hsource⟩ := (hfind _ hhead).1
    obtain ⟨t, t', ht, ht', htarget⟩ := (hfind _ hlast).2
    rw [conclude?_eq hs ht, conclude?_eq hs' ht']
    exact .some ⟨hsource, htarget, rfl, rfl, rfl, rfl⟩
  generalize hf : (g.compositions rule).filterMap (conclude? source? target? rule) = found
    at hfound
  generalize hf' : (g.compositions rule).filterMap (conclude? source?' target?' rule) = found'
    at hfound
  rw [applyRule_eq hf, applyRule_eq hf', hfound.length_eq]
  refine
    { derived := List.rel_append h.derived hfound
      counts := ?_
      skipped := by rw [h.skipped] }
  cases hfound with
  | nil => exact h.counts
  | cons => rw [h.counts]; rfl

/-- **Rules derive alike relations with look-ups that find alike entities.** -/
theorem alike_compose (hfind : ∀ r ∈ g.records, FindAlike alike source? source?' r.source ∧
    FindAlike alike target? target?' r.target) (set : RuleSet S) :
    (set.compose g source? target?).Alike alike (set.compose g source?' target?') := by
  have hstart : (empty : Derivation S).Alike alike empty := ⟨.nil, rfl, rfl⟩
  suffices hall : ∀ (rules : List (Rule S)) (d d' : Derivation S), d.Alike alike d' →
      (rules.foldl (applyRule g source? target?) d).Alike alike
        (rules.foldl (applyRule g source?' target?') d') from hall set.active empty empty hstart
  intro rules
  induction rules with
  | nil => exact fun _ _ h => h
  | cons rule rules ih => exact fun d d' h => ih _ _ (h.applyRule hfind rule)

end Derivation

namespace RuleSet

variable {set : RuleSet S} {relations : List (Relation S)}

/-- What the step on a list does, once its graph is there. -/
theorem infer_eq {g : Graph S} (hg : Graph.ofRelations relations = .ok g) :
    set.infer relations = .ok (set.compose g
      (fun id => (relations.map Relation.source).find? fun e => e.id == id)
      (fun id => (relations.map Relation.target).find? fun e => e.id == id)) := by
  rw [infer, hg]
  rfl

/-- **The step on a list fails exactly when a relation of the list is invalid.** -/
theorem infer_error_iff : (∃ error, set.infer relations = .error error) ↔
    ∃ r ∈ relations, ∃ error, r.validate = .error error := by
  rw [← Graph.addRelations_error_iff (g := Graph.empty)]
  rcases hg : Graph.ofRelations relations with error | g
  · rw [infer, hg]
    exact ⟨fun _ => ⟨error, hg⟩, fun _ => ⟨error, rfl⟩⟩
  · rw [infer_eq hg]
    refine ⟨nofun, ?_⟩
    rintro ⟨error, herror⟩
    cases hg.symm.trans herror

/-- **The step on a list derives what the step on its graph does**, between entities that are as
alike as those with one identifier in the list. -/
theorem infer_alike (set : RuleSet S) {g : Graph S} (hg : Graph.ofRelations relations = .ok g)
    (alike : Entity S → Entity S → Prop)
    (halike : ∀ e ∈ relations.flatMap fun r => [r.source, r.target],
      ∀ e' ∈ relations.flatMap fun r => [r.source, r.target], e.id = e'.id → alike e e') :
    ∃ d, set.infer relations = .ok d ∧ d.Alike alike (set.inferGraph g) := by
  have htells := Graph.tells_ofRelations hg
  -- an end that is found in the list is alike to the entity that the graph has
  have hends : ∀ (ends : List (Entity S)) (id : String) (e : Entity S),
      ends ⊆ relations.flatMap (fun r => [r.source, r.target]) → e ∈ ends → e.id = id →
      Derivation.FindAlike alike (fun id => ends.find? fun e => e.id == id) g.entity? id := by
    rintro ends _ e hends he rfl
    obtain ⟨found, hfound⟩ : ∃ found, ends.find? (fun other => other.id == e.id) = some found := by
      rw [← Option.isSome_iff_exists, List.find?_isSome]
      exact ⟨e, he, beq_self_eq_true e.id⟩
    have hmem : e ∈ Graph.mentioned (relations.map Graph.Insertion.relation) := by
      rw [Graph.mentioned_map]
      exact hends he
    obtain ⟨first, hfirst⟩ := htells.exists_entity hmem
    have hid : found.id = e.id := by simpa using List.find?_some hfound
    have hfirstMem : first ∈ relations.flatMap fun r => [r.source, r.target] := by
      rw [← Graph.mentioned_map]
      exact List.mem_of_find?_eq_some (htells.entity e.id ▸ hfirst)
    refine ⟨found, first, hfound, hfirst, halike found (hends ?_) first hfirstMem ?_⟩
    · exact List.mem_of_find?_eq_some hfound
    · exact hid.trans (Graph.id_of_entity? hfirst).symm
  refine ⟨_, infer_eq hg, Derivation.alike_compose (fun r hr => ?_) set⟩
  obtain ⟨added, hadded, -, -, -, -, rfl, -⟩ := htells.resolve_of_mem hr
  rw [Graph.related_map] at hadded
  constructor
  · refine hends _ _ added.source (fun e he => ?_) (List.mem_map_of_mem hadded) rfl
    obtain ⟨r, hr, rfl⟩ := List.mem_map.1 he
    exact List.mem_flatMap.2 ⟨r, hr, List.mem_cons_self⟩
  · refine hends _ _ added.target (fun e he => ?_) (List.mem_map_of_mem hadded) rfl
    obtain ⟨r, hr, rfl⟩ := List.mem_map.1 he
    exact List.mem_flatMap.2 ⟨r, hr, List.mem_cons_of_mem _ List.mem_cons_self⟩

/-- No path is dropped, whatever the entities of the list are. -/
theorem skipped_infer {d : Derivation S} (h : set.infer relations = .ok d) : d.skipped = 0 := by
  rcases hg : Graph.ofRelations relations with error | g
  · rw [infer, hg] at h
    cases h
  · have hresolves := (Graph.tells_ofRelations hg).resolves
    obtain ⟨d', hd', halike⟩ := infer_alike set hg (fun _ _ => True)
      fun _ _ _ _ _ => trivial
    obtain rfl := Except.ok.inj (h.symm.trans hd')
    rw [halike.skipped]
    exact (Derivation.exact_foldl hresolves set.active).skipped

/-- Valid relations have a graph. -/
theorem exists_ofRelations (hvalid : ∀ r ∈ relations, r.validate = .ok ()) :
    ∃ g, Graph.ofRelations relations = .ok g := by
  rcases hg : Graph.ofRelations relations with error | g
  · obtain ⟨r, hr, error', herror⟩ := Graph.addRelations_error_iff.1 ⟨error, hg⟩
    cases (hvalid r hr).symm.trans herror
  · exact ⟨g, rfl⟩

/-- What the step on a list derives depends on how far its entities agree. -/
theorem infer_agrees (set : RuleSet S) {g : Graph S} (hg : Graph.ofRelations relations = .ok g) :
    let entities := relations.flatMap fun r => [r.source, r.target]
    ((∀ e ∈ entities, ∀ e' ∈ entities, e.id = e'.id → e = e') →
      set.infer relations = .ok (set.inferGraph g)) ∧
    ((∀ e ∈ entities, ∀ e' ∈ entities, e.id = e'.id → e.Same e') →
      ∃ d, set.infer relations = .ok d ∧ d.Alike Entity.Same (set.inferGraph g)) := by
  refine ⟨fun heq => ?_, fun hsame => infer_alike set hg Entity.Same hsame⟩
  obtain ⟨d, hd, halike⟩ := infer_alike set hg Eq heq
  rw [hd, halike.eq]

/-- **The step on a list and the step on its graph agree.** When all relations are valid, the list
has a graph. If the entities with one identifier are equal, both steps derive the same; if they
compare equal, the derivations differ at most in entities that compare equal. Only an invalid
relation makes the step on the list fail. -/
theorem infer_eq_inferGraph (set : RuleSet S) (relations : List (Relation S)) :
    let entities := relations.flatMap fun r => [r.source, r.target]
    ((∀ r ∈ relations, r.validate = .ok ()) → ∃ g, Graph.ofRelations relations = .ok g ∧
      ((∀ e ∈ entities, ∀ e' ∈ entities, e.id = e'.id → e = e') →
        set.infer relations = .ok (set.inferGraph g)) ∧
      ((∀ e ∈ entities, ∀ e' ∈ entities, e.id = e'.id → e.Same e') →
        ∃ d, set.infer relations = .ok d ∧ d.Alike Entity.Same (set.inferGraph g))) ∧
    ((∃ error, set.infer relations = .error error) ↔
      ∃ r ∈ relations, ∃ error, r.validate = .error error) := by
  intro entities
  refine ⟨fun hvalid => ?_, infer_error_iff⟩
  obtain ⟨g, hg⟩ := exists_ofRelations hvalid
  exact ⟨g, hg, infer_agrees set hg⟩

/-- A chain of two edges, of which the first comes up again with another confidence. -/
def sampleChain : List (Relation Halves) :=
  let entity (id : String) : Entity Halves := ⟨id, id, "concept", .empty⟩
  [⟨entity "A", entity "B", "is_a", .half, .empty, none⟩,
    ⟨entity "B", entity "C", "is_a", .one, .empty, none⟩,
    ⟨entity "A", entity "B", "is_a", .one, .empty, none⟩]

/-- The built-in rules conclude one relation from the chain, of the list as of its graph. -/
theorem infer_sampleChain : ∃ g, Graph.ofRelations sampleChain = .ok g ∧
    (builtin ⟨0, 0⟩).infer sampleChain = .ok ((builtin ⟨0, 0⟩).inferGraph g) ∧
    ((builtin ⟨0, 0⟩).inferGraph g).derived.map Relation.triple = [("A", "C", "is_a")] := by
  have hvalid : ∀ r ∈ sampleChain, r.validate = .ok () := by
    intro r hr
    fin_cases hr <;> rfl
  have hnamed : ∀ e ∈ sampleChain.flatMap fun r => [r.source, r.target],
      e = ⟨e.id, e.id, "concept", .empty⟩ := by
    intro e he
    fin_cases he <;> rfl
  obtain ⟨g, hg, hagree, -⟩ := (infer_eq_inferGraph (builtin ⟨0, 0⟩) sampleChain).1 hvalid
  refine ⟨g, hg, hagree fun e he e' he' hid => ?_, ?_⟩
  · rw [hnamed e he, hnamed e' he', hid]
  · obtain rfl := Except.ok.inj (hg.symm.trans (show Graph.ofRelations sampleChain = _ from rfl))
    rfl

end RuleSet

end Step

namespace RuleSet

variable [Numeral S]

/-- What is derived from a graph that tells some calls. -/
theorem Reachable.exact_of_tells {set : RuleSet S} (hset : set.Reachable) {g : Graph S}
    {done : List (Graph.Insertion S)} (h : g.Tells done) :
    (g.relations.map Relation.triple).Nodup ∧
    (set.inferGraph g).Exact set.active g.relations ∧
    ∀ rule ∈ set.active, (set.inferGraph g).counts.get? rule.id =
      if rule.consequences g.relations = [] then none
      else some (rule.consequences g.relations).length := by
  have hexact := Derivation.exact_foldl h.resolves set.active
  have hids : (set.active.map Rule.id).Nodup :=
    hset.ids_nodup.sublist (List.filter_sublist.map _)
  exact ⟨h.history.relation_triples_nodup, hexact, fun rule => hexact.count_rule hids⟩

/-- **A step of composition derives exactly what the active rules conclude.** -/
theorem Reachable.exact_inferGraph {set : RuleSet S} (hset : set.Reachable) :
    (∀ calls : List (Graph.Insertion S),
      let g := Graph.grow Graph.empty calls
      (g.relations.map Relation.triple).Nodup ∧
      (set.inferGraph g).Exact set.active g.relations ∧
      ∀ rule ∈ set.active, (set.inferGraph g).counts.get? rule.id =
        if rule.consequences g.relations = [] then none
        else some (rule.consequences g.relations).length) ∧
    ∀ relations d, set.infer relations = .ok d → d.skipped = 0 :=
  ⟨fun calls => hset.exact_of_tells (Graph.tells_grow calls), fun _ _ h => skipped_infer h⟩

/-- With the built-in rules one relation is derived from the chain. -/
theorem exact_inferGraph_sampleChain :
    let set : RuleSet Halves := builtin ⟨0, 0⟩
    let g := Graph.grow Graph.empty (sampleChain.map .relation)
    set.Reachable ∧ (set.inferGraph g).Exact set.active g.relations ∧
      (set.inferGraph g).counts = [("transitive-is-a", 1)] := by
  intro set g
  have hset : set.Reachable := .builtin ⟨0, 0⟩
  exact ⟨hset, ((Reachable.exact_inferGraph hset).1 (sampleChain.map .relation)).2.1, rfl⟩

end RuleSet

end GraphReasoner
