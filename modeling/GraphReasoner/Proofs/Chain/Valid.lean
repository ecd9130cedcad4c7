import GraphReasoner.Proofs.Chain.Dated
import GraphReasoner.Proofs.Chain.Evidenced
import GraphReasoner.Proofs.Chain.Walk
import GraphReasoner.Proofs.Rule.Valid

/-!
# Inferred relations are valid

`GraphReasoner.Relation.derived` makes a relation without checking it, and takes for granted that
its confidence lies in the unit interval. Composition, chains in time, chains of probabilities and
walks all make their relations this way. `GraphReasoner.Relation.WellMade` says that they are right
to do so.
-/

namespace GraphReasoner

/-- **A relation is well made** when the check that was left out would have passed, and what was
taken for granted of its confidence holds. -/
structure Relation.WellMade {S : Type} [Scalar S] (r : Relation S) : Prop where
  valid : r.validate = .ok ()
  inUnit : Scalar.InUnit r.confidence

theorem Relation.wellMade_of_valid {S : Type} [Scalar S] {r : Relation S}
    (h : r.validate = .ok ()) : r.WellMade :=
  ⟨h, ((Relation.validate_eq_ok_iff r).1 h).2.2.2.1⟩

/-- **Every inferred relation is well made**, over numbers that compute exactly and whose roots keep
to the unit interval: what any rule set that can be made concludes from any graph that can be grown
or from any list of relations, what the chains through layers of made relations yield between valid
entities, and what the walks in a graph yield. -/
theorem wellMade_of_inferred {S : Type} [Numeral S] [ExactScalar S]
    (hroot : ExactScalar.RootsInUnit S) :
    (∀ set : RuleSet S, set.Reachable →
      (∀ calls, ∀ r ∈ (set.inferGraph (Graph.grow .empty calls)).derived, r.WellMade) ∧
      ∀ relations d, set.infer relations = .ok d → ∀ r ∈ d.derived, r.WellMade) ∧
    (∀ (source target : Entity S) (kind : String) (settings : ChainSettings S),
      source.validate = .ok () → target.validate = .ok () → ¬Text.AllBlank kind →
      (∀ layer : Layer (Dated S), layer.FilledWith Dated.Made →
        ∀ d ∈ Dated.infer layer settings source target kind, d.relation.WellMade) ∧
      ∀ layer : Layer (Evidenced S), layer.FilledWith Evidenced.Made →
        ∀ e ∈ Evidenced.infer layer settings source target kind, e.relation.WellMade) ∧
    ∀ calls start hops floor, ∀ r ∈ (Graph.grow .empty calls : Graph S).explore start hops floor,
      r.WellMade := by
  refine ⟨fun set hset => ⟨?_, ?_⟩, fun source target kind settings hsource htarget hkind =>
    ⟨?_, ?_⟩, ?_⟩
  · intro calls r hr
    have htells := Graph.tells_grow (S := S) calls
    exact Relation.wellMade_of_valid (RuleSet.valid_inferGraph hset.rules_valid htells.resolves
      (fun _ => htells.relation_valid) r hr)
  · intro relations d hd r hr
    exact Relation.wellMade_of_valid (RuleSet.valid_infer hset.rules_valid hd r hr)
  · intro layer hlayer d hd
    exact Relation.wellMade_of_valid
      (Dated.valid_infer hroot hsource htarget hkind hlayer settings d hd)
  · intro layer hlayer e he
    exact Relation.wellMade_of_valid
      (Evidenced.valid_infer hsource htarget hkind hlayer settings e he)
  · intro calls start hops floor r hr
    exact Relation.wellMade_of_valid
      ((Graph.tells_grow calls).valid_explore hroot start hops floor r hr)

/-! ### Two steps -/

namespace TwoSteps

/-- An entity that is named by its identifier. -/
def entity (id : String) : Entity Fraction :=
  ⟨id, id, "concept", .empty⟩

/-- A relation that is certain. -/
def edge (source target : String) : Relation Fraction :=
  ⟨entity source, entity target, "is_a", 1.0, .empty, none⟩

/-- A step that is dated. -/
def dated (source target : String) (bounds : Bounds Fraction) : Dated Fraction :=
  ⟨{ edge source target with temporal := some bounds }, bounds⟩

/-- A step that is certain, without evidence. -/
def evidenced (source target : String) : Evidenced Fraction :=
  ⟨edge source target, 1.0, [], []⟩

/-- The layer of two steps. -/
def layer {P : Type} (first second : P) : Layer P :=
  ((Layer.empty.insert "A" "B" first).2.insert "B" "C" second).2

end TwoSteps

open TwoSteps in
/-- From two certain steps each kind of inference yields a relation, and all of them are well
made. -/
theorem wellMade_of_inferred_twoSteps :
    let steps : List (Relation Fraction) := [edge "A" "B", edge "B" "C"]
    let g : Graph Fraction := .grow .empty (steps.map .relation)
    let composed := ((RuleSet.builtin ⟨0, 0⟩).inferGraph g).derived
    let timed := Dated.infer (layer (dated "A" "B" ⟨⟨1, 0⟩, some ⟨2, 0⟩, none⟩)
      (dated "B" "C" ⟨⟨2, 0⟩, none, none⟩)) .default (entity "A") (entity "C") "is_a"
    let probable := Evidenced.infer (layer (evidenced "A" "B") (evidenced "B" "C")) .default
      (entity "A") (entity "C") "is_a"
    let walked := g.explore "A" 2 0.5
    (composed.length = 1 ∧ ∀ r ∈ composed, r.WellMade) ∧
    (timed.length = 1 ∧ ∀ d ∈ timed, d.relation.WellMade) ∧
    (probable.length = 1 ∧ ∀ e ∈ probable, e.relation.WellMade) ∧
    walked.length = 2 ∧ ∀ r ∈ walked, r.WellMade := by
  intro steps g composed timed probable walked
  obtain ⟨hrules, hchains, hwalks⟩ := wellMade_of_inferred Fraction.rootsInUnit
  obtain ⟨hdated, hevidenced⟩ := hchains (entity "A") (entity "C") "is_a" .default
    (by with_unfolding_all rfl) (by with_unfolding_all rfl) (by decide)
  refine ⟨⟨by with_unfolding_all rfl, ?_⟩, ⟨by with_unfolding_all rfl, ?_⟩,
    ⟨by with_unfolding_all rfl, ?_⟩, by with_unfolding_all rfl, ?_⟩
  · exact (hrules _ (.builtin ⟨0, 0⟩)).1 (steps.map .relation)
  · have hfirst : Dated.make (edge "A" "B") ⟨⟨1, 0⟩, some ⟨2, 0⟩, none⟩ =
        .ok (dated "A" "B" ⟨⟨1, 0⟩, some ⟨2, 0⟩, none⟩) := by with_unfolding_all rfl
    have hsecond : Dated.make (edge "B" "C") ⟨⟨2, 0⟩, none, none⟩ =
        .ok (dated "B" "C" ⟨⟨2, 0⟩, none, none⟩) := by with_unfolding_all rfl
    exact hdated _ ((Layer.FilledWith.empty.insert "A" "B" (.make hfirst)).insert "B" "C"
      (.make hsecond))
  · have hfirst : Evidenced.make (edge "A" "B") 1.0 [] = .ok (evidenced "A" "B") := by
      with_unfolding_all rfl
    have hsecond : Evidenced.make (edge "B" "C") 1.0 [] = .ok (evidenced "B" "C") := by
      with_unfolding_all rfl
    exact hevidenced _ ((Layer.FilledWith.empty.insert "A" "B" (.make hfirst)).insert "B" "C"
      (.make hsecond))
  · exact hwalks (steps.map .relation) "A" 2 0.5

end GraphReasoner
