import GraphReasoner.Proofs.Rule.Conflict
import GraphReasoner.Rule.Contest

/-!
# Contests settle conflicts

At any time the list and the table of a contest show what settling has kept so far
(`GraphReasoner.Contest.Shows`): the list has the triples that are kept, the table has for each
triple the relation that is kept for it. Taking the leaders out of the table in the order of the list
therefore gives the kept relations back, since no triple is listed twice
(`GraphReasoner.Contest.resolve_eq`).

Conflicts can be resolved piece by piece: what is kept has no conflicts, so entering it again builds
the same contest, and the relations that come after it meet the same leaders.

* `GraphReasoner.Contest.resolve_exact` – which relations are kept, and in which order.
-/

namespace GraphReasoner

namespace Contest

variable {S : Type}

/-! ### The table -/

section Table

variable {leaders : List ((String × String × String) × Relation S)}
  {triple other : String × String × String} {r : Relation S}

theorem lookup_without (h : triple ≠ other) :
    (without leaders other).lookup triple = leaders.lookup triple := by
  induction leaders with
  | nil => rfl
  | cons entry leaders ih =>
    obtain ⟨key, r⟩ := entry
    by_cases hkey : key = other
    · rw [without, List.filter_cons_of_neg (by simpa using hkey), ← without, ih,
        List.lookup_cons, beq_eq_false_iff_ne.2 (hkey ▸ h)]
    · rw [without, List.filter_cons_of_pos (by simpa using hkey), ← without, List.lookup_cons,
        List.lookup_cons, ih]

/-- A relation that was crowned is found, and otherwise what was found before. -/
theorem lookup_crown : (crown leaders r).lookup triple =
    if r.triple = triple then some r else leaders.lookup triple := by
  rw [crown, List.lookup_cons]
  by_cases h : r.triple = triple
  · rw [if_pos h, beq_iff_eq.2 h.symm]
  · rw [if_neg h, beq_eq_false_iff_ne.2 (Ne.symm h), lookup_without (Ne.symm h)]

/-- **Draining a table** looks every triple up, when none is listed twice. -/
theorem drain_eq {order : List (String × String × String)} (h : order.Nodup) :
    drain leaders order = order.filterMap fun triple => leaders.lookup triple := by
  induction order generalizing leaders with
  | nil => rfl
  | cons triple order ih =>
    obtain ⟨hnew, horder⟩ := List.nodup_cons.1 h
    rw [drain, List.filterMap_cons]
    rcases leaders.lookup triple with _ | r
    · exact ih horder
    · rw [ih horder]
      refine congrArg (r :: ·) (List.filterMap_congr fun other hother => lookup_without ?_)
      rintro rfl
      exact hnew hother

end Table

/-! ### The contest -/

/-- **A contest shows the relations that are kept**: its list has their triples, and its table has
for each triple the relation that is kept for it. -/
structure Shows (c : Contest S) (kept : List (Relation S)) : Prop where
  order : c.order = kept.map Relation.triple
  leader : ∀ triple, c.leaders.lookup triple = kept.find? fun r => r.triple == triple

theorem shows_empty : (empty : Contest S).Shows [] :=
  ⟨rfl, fun _ => rfl⟩

variable [Scalar S]

section Enter

variable {c : Contest S} {kept : List (Relation S)} {r : Relation S}

theorem enter_of_none (h : c.leaders.lookup r.triple = none) :
    c.enter r = ⟨c.order ++ [r.triple], crown c.leaders r⟩ := by
  rw [enter, h]

theorem enter_of_some {leader : Relation S} (h : c.leaders.lookup r.triple = some leader) :
    c.enter r =
      ⟨c.order, if leader.confidence < r.confidence then crown c.leaders r else c.leaders⟩ := by
  rw [enter, h]
  by_cases hlt : leader.confidence < r.confidence
  · rw [if_pos hlt]
    exact if_pos hlt
  · rw [if_neg hlt]
    exact if_neg hlt

/-- **Entering a relation settles it.** -/
theorem Shows.enter (h : c.Shows kept) (r : Relation S) :
    (c.enter r).Shows (settle kept r) := by
  rcases settle_cases kept r with
    ⟨hnew, hsettle⟩ | ⟨before, old, after, hkept, hbefore, hold, hsettle⟩
  · have hnone : c.leaders.lookup r.triple = none := by
      rw [h.leader, List.find?_eq_none]
      exact fun k hk heq => hnew (eq_of_beq heq ▸ List.mem_map_of_mem hk)
    rw [enter_of_none hnone, hsettle]
    refine ⟨?_, fun triple => ?_⟩
    · rw [h.order, List.map_append, List.map_singleton]
    · rw [lookup_crown, h.leader, List.find?_append, List.find?_singleton]
      by_cases htriple : r.triple = triple
      · subst htriple
        rw [if_pos rfl, ← h.leader, hnone, beq_self_eq_true]
        rfl
      · rw [if_neg htriple, beq_eq_false_iff_ne.2 htriple]
        exact (Option.or_none ..).symm
  · -- what is found for a triple, whoever has the place
    have hfind : ∀ (k : Relation S) (triple : String × String × String), k.triple = r.triple →
        ((before ++ k :: after).find? fun other => other.triple == triple) =
          if r.triple = triple then some k
          else kept.find? fun other => other.triple == triple := by
      intro k triple hk
      rw [hkept, List.find?_append, List.find?_append, List.find?_cons, List.find?_cons, hk, hold]
      by_cases htriple : r.triple = triple
      · subst htriple
        have hnone : (before.find? fun other => other.triple == r.triple) = none :=
          List.find?_eq_none.2 fun k hk heq => hbefore (eq_of_beq heq ▸ List.mem_map_of_mem hk)
        rw [if_pos rfl, hnone, beq_self_eq_true]
        rfl
      · rw [if_neg htriple, beq_eq_false_iff_ne.2 htriple]
    have hleader : c.leaders.lookup r.triple = some old := by
      rw [h.leader, hkept, hfind old r.triple hold, if_pos rfl]
    rw [enter_of_some hleader, hsettle]
    by_cases hlt : old.confidence < r.confidence
    · rw [if_pos hlt, if_pos hlt]
      refine ⟨?_, fun triple => ?_⟩
      · rw [h.order, hkept]
        simp only [List.map_append, List.map_cons, hold]
      · rw [lookup_crown, h.leader, hfind r triple rfl]
    · rw [if_neg hlt, if_neg hlt, ← hkept]
      exact h

end Enter

theorem shows_foldl_enter {c : Contest S} {kept : List (Relation S)} (h : c.Shows kept)
    (relations : List (Relation S)) :
    (relations.foldl enter c).Shows (relations.foldl settle kept) := by
  induction relations generalizing c kept with
  | nil => exact h
  | cons r relations ih => exact ih (h.enter r)

/-- **A contest resolves conflicts as comparing with all that is kept does.** -/
theorem resolve_eq (relations : List (Relation S)) :
    resolve relations = resolveConflicts relations := by
  have hshows := shows_foldl_enter shows_empty relations
  rw [← resolveConflicts] at hshows
  have hnodup : ((resolveConflicts relations).map Relation.triple).Nodup := by
    rw [map_triple_resolveConflicts]
    exact Graph.nodup_eraseDups _
  have horder := hshows.order
  rw [resolve, drain_eq (horder ▸ hnodup), horder, List.filterMap_map]
  refine (List.filterMap_congr fun r hr => ?_).trans List.filterMap_some
  rw [Function.comp_apply, hshows.leader]
  exact Graph.find?_of_mem hnodup hr

/-! ### Piece by piece -/

/-- Relations whose triples are new and do not repeat are added as they are. -/
theorem foldl_settle_eq_append {kept relations : List (Relation S)}
    (h : ((kept ++ relations).map Relation.triple).Nodup) :
    relations.foldl settle kept = kept ++ relations := by
  induction relations generalizing kept with
  | nil => rw [List.foldl_nil, List.append_nil]
  | cons r relations ih =>
    rw [List.append_cons] at h
    have hnew : r.triple ∉ kept.map Relation.triple := by
      rw [List.map_append, List.map_append, List.map_singleton] at h
      have hfront := (List.nodup_append.1 h).1
      exact fun hin => (List.nodup_append.1 hfront).2.2 _ hin _ (List.mem_singleton_self _) rfl
    have hsettle : settle kept r = kept ++ [r] := by
      rcases settle_cases kept r with ⟨-, hsettle⟩ | ⟨before, old, after, rfl, -, hold, -⟩
      · exact hsettle
      · exact absurd (hold ▸ List.mem_map_of_mem (List.mem_append_right _ List.mem_cons_self)) hnew
    rw [List.foldl_cons, hsettle, ih h, List.append_assoc, List.singleton_append]

/-- **A list without conflicts stays as it is.** -/
theorem resolveConflicts_eq_self {relations : List (Relation S)}
    (h : (relations.map Relation.triple).Nodup) : resolveConflicts relations = relations := by
  have happend : relations.foldl settle [] = [] ++ relations := foldl_settle_eq_append h
  exact happend

theorem resolveConflicts_resolveConflicts (relations : List (Relation S)) :
    resolveConflicts (resolveConflicts relations) = resolveConflicts relations := by
  refine resolveConflicts_eq_self ?_
  rw [map_triple_resolveConflicts]
  exact Graph.nodup_eraseDups _

theorem resolveConflicts_append (relations more : List (Relation S)) :
    resolveConflicts (relations ++ more) = more.foldl settle (resolveConflicts relations) :=
  List.foldl_append

/-! ### Which relations are kept -/

/-- **Resolving conflicts is exact**, for every list of relations whose confidences compare. It keeps
one relation for each triple that occurs, in the order in which the triples came up: the earliest of
those with the greatest confidence. A front of the list can be resolved first, and resolving again
changes nothing, whatever the confidences. -/
theorem resolve_exact [ComparingScalar S] :
    (∀ relations : List (Relation S),
      (∀ r ∈ relations, (r.confidence == r.confidence) = true) →
      (resolve relations).map Relation.triple = (relations.map Relation.triple).eraseDups ∧
      ∀ r ∈ resolve relations, Prevails relations r) ∧
    (∀ xs ys : List (Relation S), resolve (resolve xs ++ ys) = resolve (xs ++ ys)) ∧
    ∀ xs : List (Relation S), resolve (resolve xs) = resolve xs := by
  refine ⟨fun relations hnumber => ?_, fun xs ys => ?_, fun xs => ?_⟩
  · obtain ⟨htriples, hprevails⟩ := settled_resolveConflicts hnumber
    rw [resolve_eq]
    exact ⟨htriples, hprevails⟩
  · simp only [resolve_eq, resolveConflicts_append, resolveConflicts_resolveConflicts]
  · simp only [resolve_eq, resolveConflicts_resolveConflicts]

/-- Three relations are in conflict, two of them with the greatest confidence, and one is not. -/
def tie : List (Relation Fraction) :=
  let relation (name kind : String) (confidence : Fraction) : Relation Fraction :=
    ⟨⟨"A", name, "concept", .empty⟩, ⟨"C", "C", "concept", .empty⟩, kind, confidence, .empty, none⟩
  [relation "weak" "is_a" 0.5, relation "first" "is_a" 0.8, relation "apart" "part_of" 0.3,
    relation "second" "is_a" 0.8]

/-- The earlier of the two is kept, in the place of the first relation with its triple. -/
theorem resolve_exact_tie : (resolve tie).map (fun r => r.source.name) = ["first", "apart"] ∧
    (resolve tie).map Relation.triple = [("A", "C", "is_a"), ("A", "C", "part_of")] ∧
    ∀ r ∈ resolve tie, Prevails tie r := by
  obtain ⟨hexact, -, -⟩ := resolve_exact (S := Fraction)
  obtain ⟨htriples, hprevails⟩ := hexact tie fun r _ => ExactScalar.beq_self r.confidence
  exact ⟨by decide +kernel, htriples.trans (by decide), hprevails⟩

end Contest

end GraphReasoner
