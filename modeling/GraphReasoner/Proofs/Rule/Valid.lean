import GraphReasoner.Proofs.Exact
import GraphReasoner.Proofs.Rule.Batch

/-!
# What composition derives is valid

A relation that a rule concludes is never checked. It has no need to be: its ends are ends of valid
relations, its type is the conclusion of a valid rule, and its confidence is a product of numbers of
the unit interval. The step on a list takes the ends from the list, where all relations are valid
as well.
-/

namespace GraphReasoner

variable {S : Type} [Scalar S] [ExactScalar S]

/-- **A valid rule concludes valid relations from valid ones.** -/
theorem Rule.valid_consequence {rule : Rule S} {head last : Relation S}
    (hrule : rule.validate = .ok ()) (hhead : head.validate = .ok ())
    (hlast : last.validate = .ok ()) : (rule.consequence head last).validate = .ok () := by
  obtain ⟨hsource, -, -, hunit, -⟩ := (Relation.validate_eq_ok_iff _).1 hhead
  obtain ⟨-, htarget, -, hunit', -⟩ := (Relation.validate_eq_ok_iff _).1 hlast
  obtain ⟨-, -, -, hconclusion, hpos, hle⟩ := (Rule.validate_eq_ok_iff rule).1 hrule
  have hfactor : Scalar.InUnit rule.factor := ⟨ExactScalar.le_of_lt hpos, hle⟩
  refine (Relation.validate_eq_ok_iff _).2 ⟨hsource, htarget, hconclusion, ?_, nofun⟩
  exact ExactScalar.inUnit_mul (ExactScalar.inUnit_mul hunit hunit') hfactor

namespace RuleSet

variable {set : RuleSet S} {relations : List (Relation S)}

/-- **The step on a graph derives valid relations.** -/
theorem valid_inferGraph (hrules : ∀ rule ∈ set.rules, rule.validate = .ok ()) {g : Graph S}
    (hg : g.Resolves) (hrelations : ∀ r ∈ g.relations, r.validate = .ok ()) :
    ∀ r ∈ (set.inferGraph g).derived, r.validate = .ok () := by
  intro r hr
  have hexact : (set.inferGraph g).derived =
      set.active.flatMap fun rule => rule.consequences g.relations :=
    (Derivation.exact_foldl hg set.active).derived
  rw [hexact] at hr
  obtain ⟨rule, hrule, hr⟩ := List.mem_flatMap.1 hr
  obtain ⟨head, hhead, last, hlast, -, rfl⟩ := Rule.mem_consequences.1 hr
  exact Rule.valid_consequence (hrules rule (List.mem_filter.1 hrule).1) (hrelations head hhead)
    (hrelations last hlast)

omit [ExactScalar S] in
/-- Relations that are alike, with valid ends on the one side, are valid together. -/
theorem valid_of_alike {derived derived' : List (Relation S)}
    (h : List.Forall₂ (Relation.Alike fun e _ => e.validate = .ok ()) derived derived')
    (hvalid : ∀ r ∈ derived', r.validate = .ok ()) : ∀ r ∈ derived, r.validate = .ok () := by
  induction h with
  | nil => exact nofun
  | cons halike _ ih =>
    obtain ⟨hfirst, hrest⟩ := List.forall_mem_cons.1 hvalid
    refine List.forall_mem_cons.2 ⟨?_, ih hrest⟩
    obtain ⟨-, -, hkind, hunit, hbounds⟩ := (Relation.validate_eq_ok_iff _).1 hfirst
    refine (Relation.validate_eq_ok_iff _).2 ⟨halike.source, halike.target, ?_, ?_, ?_⟩
    · rw [halike.kind]
      exact hkind
    · rw [halike.confidence]
      exact hunit
    · rw [halike.temporal]
      exact hbounds

/-- **The step on a list derives valid relations.** -/
theorem valid_infer (hrules : ∀ rule ∈ set.rules, rule.validate = .ok ()) {d : Derivation S}
    (h : set.infer relations = .ok d) : ∀ r ∈ d.derived, r.validate = .ok () := by
  rcases hg : Graph.ofRelations relations with error | g
  · rw [infer, hg] at h
    cases h
  · have htells := Graph.tells_ofRelations hg
    -- every entity of the list was mentioned in a call that succeeded
    have hentities : ∀ e ∈ relations.flatMap fun r => [r.source, r.target],
        e.validate = .ok () := by
      rw [← Graph.mentioned_map]
      exact htells.valid_mentioned
    obtain ⟨d', hd', halike⟩ := infer_alike set hg (fun e _ => e.validate = .ok ())
      fun e he _ _ _ => hentities e he
    obtain rfl := Except.ok.inj (h.symm.trans hd')
    exact valid_of_alike halike.derived
      (valid_inferGraph hrules htells.resolves fun r hr => htells.relation_valid hr)

end RuleSet

end GraphReasoner
