import GraphReasoner.Chain.Evidenced
import GraphReasoner.Proofs.Chain.Layer
import GraphReasoner.Proofs.Exact
import GraphReasoner.Proofs.Graph.History

/-!
# What chains of probabilities yield

A probability is checked when an evidenced relation is made and never changes afterwards, so the
product along a chain is a probability again. It is the confidence of the relation that the chain
yields.
-/

namespace GraphReasoner

namespace Evidenced

variable {S : Type} [Scalar S]

/-! ### Evidenced relations that are made -/

/-- **The evidenced relations that can be made**: from a relation, a probability and evidence, from
a relation with a probability among its properties, or by giving evidence scores. -/
inductive Made : Evidenced S → Prop
  | make {r : Relation S} {probability : S} {evidence : List String} {e : Evidenced S}
    (made : Evidenced.make r probability evidence = .ok e) : Made e
  | withScores {e e' : Evidenced S} {scores : List (String × S)} (before : Made e)
    (made : e.withScores scores = .ok e') : Made e'
  | ofRelation {r : Relation S} {e : Evidenced S}
    (made : Evidenced.ofRelation? r = some (.ok e)) : Made e

theorem checkProbability_eq_ok {p : S} (h : checkProbability p = .ok ()) : Scalar.InUnit p := by
  unfold checkProbability at h
  split at h
  · assumption
  · cases h

theorem inUnit_of_make {r : Relation S} {probability : S} {evidence : List String}
    {e : Evidenced S} (h : make r probability evidence = .ok e) : Scalar.InUnit e.probability := by
  obtain ⟨_, -, h⟩ := bind_eq_ok_iff.1 h
  obtain ⟨⟨⟩, hcheck, h⟩ := bind_eq_ok_iff.1 h
  obtain rfl := Except.ok.inj h
  exact checkProbability_eq_ok hcheck

/-- Scores leave the probability as it is. -/
theorem probability_withScores {e e' : Evidenced S} {scores : List (String × S)}
    (h : e.withScores scores = .ok e') : e'.probability = e.probability := by
  induction scores generalizing e with
  | nil =>
    obtain rfl := Except.ok.inj h
    rfl
  | cons first scores ih =>
    obtain ⟨scored, hfirst, hrest⟩ := bind_eq_ok_iff.1 ((List.foldlM_cons ..).symm.trans h)
    obtain ⟨_, -, hscored⟩ := bind_eq_ok_iff.1 hfirst
    rw [ih hrest, ← Except.ok.inj hscored]

/-- **The probability of an evidenced relation that is made is one.** -/
theorem Made.inUnit {e : Evidenced S} (h : e.Made) : Scalar.InUnit e.probability := by
  induction h with
  | make made => exact inUnit_of_make made
  | withScores _ made ih =>
    rw [probability_withScores made]
    exact ih
  | @ofRelation r e made =>
    obtain ⟨probability, -, hmade⟩ := Option.map_eq_some_iff.1 made
    obtain ⟨evidence, -, hmade⟩ := bind_eq_ok_iff.1 hmade
    exact inUnit_of_make hmade

/-! ### Chains -/

variable {source target : Entity S} {kind : String}

/-- **Chains of probabilities yield valid relations.** -/
theorem valid_infer [ExactScalar S] (hsource : source.validate = .ok ())
    (htarget : target.validate = .ok ()) (hkind : ¬Text.AllBlank kind)
    {layer : Layer (Evidenced S)} (hlayer : layer.FilledWith Made) (settings : ChainSettings S) :
    ∀ e ∈ infer layer settings source target kind, e.relation.validate = .ok () := by
  intro e he
  obtain ⟨chain, hchain, rfl⟩ := List.mem_map.1 he
  have hmade := Layer.of_mem_paths hlayer.of_mem_links (List.mem_filter.1 hchain).1
  have hproduct : Scalar.InUnit (chainProbability chain) := by
    refine ExactScalar.inUnit_product fun x hx => ?_
    obtain ⟨step, hstep, rfl⟩ := List.mem_map.1 hx
    exact (hmade step hstep).inUnit
  exact (Relation.validate_eq_ok_iff _).2 ⟨hsource, htarget, hkind, hproduct, nofun⟩

end Evidenced

end GraphReasoner
