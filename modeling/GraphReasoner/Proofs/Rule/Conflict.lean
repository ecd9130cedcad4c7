import GraphReasoner.Proofs.Exact
import GraphReasoner.Proofs.Graph.History
import GraphReasoner.Rule.Conflict

/-!
# The most confident relation of each triple

Relations are settled one after another. A relation whose triple is new comes last, and one whose
triple came up already is compared with the relation that is kept for it
(`GraphReasoner.settle_cases`). So the triples are kept in the order in which they came up, and what
is kept for a triple is the first of the most confident relations with it
(`GraphReasoner.settled_resolveConflicts`).
-/

namespace GraphReasoner

variable {S : Type} [Scalar S]

/-- **What settling a relation can do**: it is added, or it meets the first relation with its triple,
and the more confident of the two has the place. -/
theorem settle_cases (kept : List (Relation S)) (r : Relation S) :
    (r.triple ∉ kept.map Relation.triple ∧ settle kept r = kept ++ [r]) ∨
    ∃ before old after, kept = before ++ old :: after ∧ r.triple ∉ before.map Relation.triple ∧
      old.triple = r.triple ∧
      settle kept r = before ++ (if old.confidence < r.confidence then r else old) :: after := by
  induction kept with
  | nil => exact Or.inl ⟨List.not_mem_nil, rfl⟩
  | cons first rest ih =>
    rw [settle]
    by_cases hfirst : first.triple = r.triple
    · rw [if_pos (beq_iff_eq.2 hfirst)]
      exact Or.inr ⟨[], first, rest, rfl, List.not_mem_nil, hfirst, rfl⟩
    · rw [if_neg fun heq => hfirst (beq_iff_eq.1 heq)]
      rcases ih with ⟨hnew, hsettle⟩ | ⟨before, old, after, rfl, hbefore, hold, hsettle⟩
      · rw [hsettle]
        exact Or.inl ⟨List.not_mem_cons_of_ne_of_not_mem (Ne.symm hfirst) hnew, rfl⟩
      · rw [hsettle]
        exact Or.inr ⟨first :: before, old, after, rfl,
          List.not_mem_cons_of_ne_of_not_mem (Ne.symm hfirst) hbefore, hold, rfl⟩

/-! ### The triples that are kept -/

/-- A triple that came up already keeps its place, and a new one comes last. -/
theorem map_triple_settle (kept : List (Relation S)) (r : Relation S) :
    (settle kept r).map Relation.triple =
      if r.triple ∈ kept.map Relation.triple then kept.map Relation.triple
      else kept.map Relation.triple ++ [r.triple] := by
  rcases settle_cases kept r with ⟨hnew, hsettle⟩ | ⟨before, old, after, rfl, -, hold, hsettle⟩
  · rw [hsettle, if_neg hnew, List.map_append, List.map_singleton]
  · have hbest : (if old.confidence < r.confidence then r else old).triple = old.triple := by
      split
      · exact hold.symm
      · rfl
    have hin : r.triple ∈ (before ++ old :: after).map Relation.triple :=
      hold ▸ List.mem_map_of_mem (List.mem_append_right _ List.mem_cons_self)
    rw [hsettle, if_pos hin]
    simp only [List.map_append, List.map_cons, hbest]

theorem resolveConflicts_concat (relations : List (Relation S)) (r : Relation S) :
    resolveConflicts (relations ++ [r]) = settle (resolveConflicts relations) r :=
  List.foldl_concat ..

/-- **Every triple is kept once**, in the order in which it came up. -/
theorem map_triple_resolveConflicts (relations : List (Relation S)) :
    (resolveConflicts relations).map Relation.triple =
      (relations.map Relation.triple).eraseDups := by
  induction relations using List.reverseRecOn with
  | nil => rfl
  | append_singleton relations r ih =>
    rw [resolveConflicts_concat, map_triple_settle, ih, List.map_append, List.map_singleton,
      Graph.eraseDups_concat]
    simp only [List.mem_eraseDups]

/-! ### The relations that are kept -/

/-- **A relation prevails** among some relations when it is the first of the most confident with its
triple: those before it are less confident, and those after it are not more so. -/
def Prevails (relations : List (Relation S)) (r : Relation S) : Prop :=
  ∃ before after, relations = before ++ r :: after ∧
    (∀ other ∈ before, other.triple = r.triple → other.confidence < r.confidence) ∧
    ∀ other ∈ after, other.triple = r.triple → ¬r.confidence < other.confidence

namespace Prevails

variable {relations : List (Relation S)} {r other : Relation S}

theorem mem (h : Prevails relations r) : r ∈ relations := by
  obtain ⟨before, after, rfl, -, -⟩ := h
  exact List.mem_append_right _ List.mem_cons_self

/-- It prevails over one more relation that is not more confident, or has another triple. -/
theorem concat (h : Prevails relations r)
    (hother : other.triple = r.triple → ¬r.confidence < other.confidence) :
    Prevails (relations ++ [other]) r := by
  obtain ⟨before, after, rfl, hbefore, hafter⟩ := h
  refine ⟨before, after ++ [other], by simp, hbefore, ?_⟩
  exact List.forall_mem_append.2 ⟨hafter, List.forall_mem_singleton.2 hother⟩

/-- A relation with a new triple prevails. -/
theorem of_new (hnew : r.triple ∉ relations.map Relation.triple) :
    Prevails (relations ++ [r]) r :=
  ⟨relations, [], rfl, fun _ hold heq => absurd (heq ▸ List.mem_map_of_mem hold) hnew, nofun⟩

/-- **A relation that is more confident than the one that prevails** takes over. Among the others
there must be nothing that does not compare. -/
theorem overtaken [ComparingScalar S] (h : Prevails relations r)
    (hnumber : ∀ other ∈ relations, (other.confidence == other.confidence) = true)
    (htriple : other.triple = r.triple) (hlt : r.confidence < other.confidence) :
    Prevails (relations ++ [other]) other := by
  obtain ⟨before, after, rfl, hbefore, hafter⟩ := h
  refine ⟨before ++ r :: after, [], rfl, ?_, nofun⟩
  refine List.forall_mem_append.2 ⟨fun k hk heq => ?_, List.forall_mem_cons.2 ⟨fun _ => hlt, ?_⟩⟩
  · exact ComparingScalar.lt_trans _ _ _ (hbefore k hk (heq.trans htriple)) hlt
  · intro k hk heq
    by_contra hnot
    have hin : k ∈ before ++ r :: after := List.mem_append_right _ (List.mem_cons_of_mem _ hk)
    exact ComparingScalar.not_lt_trans _ _ _ (hnumber k hin) (hafter k hk (heq.trans htriple)) hnot
      hlt

/-- It is the most confident. -/
theorem le [ExactScalar S] (h : Prevails relations r) (hin : other ∈ relations)
    (htriple : other.triple = r.triple) : other.confidence ≤ r.confidence := by
  obtain ⟨before, after, rfl, hbefore, hafter⟩ := h
  rcases List.mem_append.1 hin with hin | hin
  · exact ExactScalar.le_of_lt (hbefore other hin htriple)
  · rcases List.mem_cons.1 hin with rfl | hin
    · exact ExactScalar.le_self _
    · exact ExactScalar.not_lt_iff.1 (hafter other hin htriple)

end Prevails

/-- **What is kept prevails**, when all confidences compare. -/
theorem prevails_of_mem_resolveConflicts [ComparingScalar S] {relations : List (Relation S)}
    (hnumber : ∀ r ∈ relations, (r.confidence == r.confidence) = true) :
    ∀ r ∈ resolveConflicts relations, Prevails relations r := by
  induction relations using List.reverseRecOn with
  | nil => exact nofun
  | append_singleton relations r ih =>
    obtain ⟨hnumber, -⟩ := List.forall_mem_append.1 hnumber
    have hkept := ih hnumber
    have htriples := map_triple_resolveConflicts relations
    have hnodup : ((resolveConflicts relations).map Relation.triple).Nodup :=
      htriples ▸ Graph.nodup_eraseDups _
    have hmem : ∀ triple, triple ∈ (resolveConflicts relations).map Relation.triple ↔
        triple ∈ relations.map Relation.triple := fun triple => by
      rw [htriples, List.mem_eraseDups]
    rw [resolveConflicts_concat]
    rcases settle_cases (resolveConflicts relations) r with
      ⟨hnew, hsettle⟩ | ⟨before, old, after, heq, -, hold, hsettle⟩
    · rw [hsettle]
      refine List.forall_mem_append.2 ⟨fun k hk => ?_, List.forall_mem_singleton.2 ?_⟩
      · exact (hkept k hk).concat fun htriple => absurd (htriple ▸ List.mem_map_of_mem hk) hnew
      · exact Prevails.of_new fun hin => hnew ((hmem _).2 hin)
    · rw [heq] at hkept hnodup
      obtain ⟨hbefore, hrest⟩ := List.forall_mem_append.1 hkept
      obtain ⟨hprevails, hafter⟩ := List.forall_mem_cons.1 hrest
      -- the place is the only one with the triple
      have hother : ∀ k ∈ before ++ after, r.triple ≠ k.triple := by
        rw [List.map_append, List.map_cons, List.nodup_middle, List.nodup_cons, ← List.map_append]
          at hnodup
        exact fun k hk htriple => hnodup.1 ((hold.trans htriple) ▸ List.mem_map_of_mem hk)
      rw [hsettle]
      refine List.forall_mem_append.2 ⟨fun k hk => ?_, List.forall_mem_cons.2 ⟨?_, fun k hk => ?_⟩⟩
      · exact (hbefore k hk).concat fun htriple =>
          absurd htriple (hother k (List.mem_append_left _ hk))
      · split
        · rename_i hlt
          exact hprevails.overtaken hnumber hold.symm hlt
        · rename_i hnot
          exact hprevails.concat fun _ => hnot
      · exact (hafter k hk).concat fun htriple =>
          absurd htriple (hother k (List.mem_append_right _ hk))

/-! ### What settling comes to -/

/-- **A list without conflicts holds the first of the most confident** of some relations, in the
order in which their triples came up. -/
structure Settled (relations kept : List (Relation S)) : Prop where
  triples : kept.map Relation.triple = (relations.map Relation.triple).eraseDups
  prevails : ∀ r ∈ kept, Prevails relations r

namespace Settled

variable {relations kept : List (Relation S)}

theorem triples_nodup (h : Settled relations kept) : (kept.map Relation.triple).Nodup := by
  rw [h.triples]
  exact Graph.nodup_eraseDups _

theorem mem_triples (h : Settled relations kept) {triple : String × String × String} :
    triple ∈ kept.map Relation.triple ↔ triple ∈ relations.map Relation.triple := by
  rw [h.triples, List.mem_eraseDups]

theorem subset (h : Settled relations kept) : kept ⊆ relations :=
  fun _ hr => (h.prevails _ hr).mem

theorem greatest [ExactScalar S] (h : Settled relations kept) : ∀ r ∈ kept, ∀ other ∈ relations,
    other.triple = r.triple → other.confidence ≤ r.confidence :=
  fun r hr _ hother htriple => (h.prevails r hr).le hother htriple

end Settled

/-- **Of conflicting relations the first of the most confident is kept.** -/
theorem settled_resolveConflicts [ComparingScalar S] {relations : List (Relation S)}
    (hnumber : ∀ r ∈ relations, (r.confidence == r.confidence) = true) :
    Settled relations (resolveConflicts relations) :=
  ⟨map_triple_resolveConflicts relations, prevails_of_mem_resolveConflicts hnumber⟩

end GraphReasoner
