import GraphReasoner.Engine.Basic
import GraphReasoner.Proofs.Cache.Run
import GraphReasoner.Proofs.Graph.Store

/-!
# Relations become part of the graph

`GraphReasoner.Engine.materialize` adds relations one at a time and leaves out those whose triples
are there already. Nothing is lost on the way, so the number it returns tells whether the list of
relations has changed: it is zero exactly when the graph is what it was
(`GraphReasoner.Engine.materialize_ok`).

A call may also stop. The relation it stops at is missing from the graph and not valid, and what
came before it stays in the graph (`GraphReasoner.Engine.materialize_error`). Such a call leaves
the cache as it was, even when it has added relations. This is the one way in which entries of
the cache survive a change of the relations, and `GraphReasoner.Engine.StopsLate` says when it
happens.

* `GraphReasoner.Engine.cleared_materialize_iff` – after which calls a change of the relations has
  emptied the cache.
-/

namespace GraphReasoner

namespace Engine

variable {S M : Type} [Scalar S]

/-! ### Adding what is missing -/

section AddMissing

variable {g g' : Graph S} {rel : Relation S} {relations : List (Relation S)} {added n : Nat}

theorem addMissing_cons_of_found {found : Relation S}
    (h : g.relation? rel.source.id rel.target.id rel.kind = some found) :
    addMissing g added (rel :: relations) = addMissing g added relations := by
  rw [addMissing, h]

theorem addMissing_cons_of_added
    (h : g.relation? rel.source.id rel.target.id rel.kind = none)
    (hg : g.addRelation rel = .ok g') :
    addMissing g added (rel :: relations) = addMissing g' (added + 1) relations := by
  rw [addMissing, h]
  simp only [hg]

theorem addMissing_cons_of_refused {error : ReasonerError S}
    (h : g.relation? rel.source.id rel.target.id rel.kind = none)
    (hv : rel.validate = .error error) :
    addMissing g added (rel :: relations) = (.error error, g) := by
  rw [addMissing, h]
  simp only [Graph.addRelation_eq_error_iff.2 hv]

/-- **What becomes of one relation**: its triple is there already, or it is added, or it is
refused. -/
theorem addMissing_cons (g : Graph S) (added : Nat) (rel : Relation S)
    (relations : List (Relation S)) :
    addMissing g added (rel :: relations) = addMissing g added relations ∨
    (∃ g', g.relation? rel.source.id rel.target.id rel.kind = none ∧ g.addRelation rel = .ok g' ∧
      addMissing g added (rel :: relations) = addMissing g' (added + 1) relations) ∨
    ∃ error, g.relation? rel.source.id rel.target.id rel.kind = none ∧
      rel.validate = .error error ∧ addMissing g added (rel :: relations) = (.error error, g) := by
  rcases h : g.relation? rel.source.id rel.target.id rel.kind with _ | found
  · rcases hg : g.addRelation rel with error | g'
    · have hv := Graph.addRelation_eq_error_iff.1 hg
      exact Or.inr (Or.inr ⟨error, rfl, hv, addMissing_cons_of_refused h hv⟩)
    · exact Or.inr (Or.inl ⟨g', rfl, rfl, addMissing_cons_of_added h hg⟩)
  · exact Or.inl (addMissing_cons_of_found h)

/-- No triple is lost, however the call ends. -/
theorem exists_triple_addMissing (g : Graph S) (added : Nat) (relations : List (Relation S))
    {old : Relation S} (hold : old ∈ g.relations) :
    ∃ rel ∈ (addMissing g added relations).2.relations, rel.triple = old.triple := by
  induction relations generalizing g added old with
  | nil => exact ⟨old, hold, rfl⟩
  | cons first rest ih =>
    rcases addMissing_cons g added first rest with h | ⟨g', -, hg, h⟩ | ⟨error, -, -, h⟩ <;> rw [h]
    · exact ih g added hold
    · obtain ⟨rel, hrel, htriple⟩ := Graph.exists_triple_addRelation hg hold
      obtain ⟨rel', hrel', htriple'⟩ := ih g' (added + 1) hrel
      exact ⟨rel', hrel', htriple'.trans htriple⟩
    · exact ⟨old, hold, rfl⟩

/-- **A call that adds nothing leaves the graph alone, and one that adds something brings a new
triple.** -/
theorem addMissing_ok (h : addMissing g added relations = (.ok n, g')) :
    n = added ∧ g' = g ∨
      added < n ∧ ∃ rel ∈ g'.relations, ∀ old ∈ g.relations, old.triple ≠ rel.triple := by
  induction relations generalizing g added with
  | nil =>
    cases h
    exact Or.inl ⟨rfl, rfl⟩
  | cons first rest ih =>
    rcases addMissing_cons g added first rest with hc | ⟨g₁, hnew, hg, hc⟩ | ⟨error, -, -, hc⟩ <;>
      rw [hc] at h
    · exact ih h
    · refine Or.inr ⟨?_, ?_⟩
      · rcases ih h with ⟨hn, -⟩ | ⟨hn, -⟩ <;> omega
      · -- the triple that is new now is still there at the end
        obtain ⟨rel, hrel, htriple⟩ := Graph.relation?_addRelation hg
        obtain ⟨rel', hrel', htriple'⟩ := exists_triple_addMissing g₁ (added + 1) rest hrel
        rw [h] at hrel'
        refine ⟨rel', hrel', fun old hold heq => ?_⟩
        exact Graph.relation?_eq_none_iff.1 hnew old hold (heq.trans (htriple'.trans htriple))
    · cases h

/-- The relations in front of a list are added first. -/
theorem addMissing_append (g : Graph S) (added : Nat) (front rest : List (Relation S)) :
    addMissing g added (front ++ rest) =
      match addMissing g added front with
      | (.ok n, g') => addMissing g' n rest
      | (.error error, g') => (.error error, g') := by
  induction front generalizing g added with
  | nil => rfl
  | cons first front ih =>
    rw [List.cons_append]
    rcases h : g.relation? first.source.id first.target.id first.kind with _ | found
    · rcases hg : g.addRelation first with error | g₁
      · have hv := Graph.addRelation_eq_error_iff.1 hg
        rw [addMissing_cons_of_refused h hv, addMissing_cons_of_refused h hv]
      · rw [addMissing_cons_of_added h hg, addMissing_cons_of_added h hg, ih]
    · rw [addMissing_cons_of_found h, addMissing_cons_of_found h, ih]

/-- **Where a call stops**: at the first relation that is missing and not valid. -/
theorem addMissing_error_iff {error : ReasonerError S} :
    addMissing g added relations = (.error error, g') ↔
      ∃ front refused rest n, relations = front ++ refused :: rest ∧
        addMissing g added front = (.ok n, g') ∧
        g'.relation? refused.source.id refused.target.id refused.kind = none ∧
        refused.validate = .error error := by
  constructor
  · -- by induction on the list: its head is the refused one, or it belongs to the front
    intro h
    induction relations generalizing g added with
    | nil => cases h
    | cons first relations ih =>
      rcases hf : g.relation? first.source.id first.target.id first.kind with _ | found
      · rcases hg : g.addRelation first with error' | g₁
        · have hv := Graph.addRelation_eq_error_iff.1 hg
          rw [addMissing_cons_of_refused hf hv] at h
          cases h
          exact ⟨[], first, relations, added, rfl, rfl, hf, hv⟩
        · rw [addMissing_cons_of_added hf hg] at h
          obtain ⟨front, refused, rest, n, rfl, hfront, hrefused⟩ := ih h
          exact ⟨first :: front, refused, rest, n, rfl,
            (addMissing_cons_of_added hf hg).trans hfront, hrefused⟩
      · rw [addMissing_cons_of_found hf] at h
        obtain ⟨front, refused, rest, n, rfl, hfront, hrefused⟩ := ih h
        exact ⟨first :: front, refused, rest, n, rfl,
          (addMissing_cons_of_found hf).trans hfront, hrefused⟩
  · rintro ⟨front, refused, rest, n, rfl, hfront, hmissing, hv⟩
    rw [addMissing_append, hfront]
    exact addMissing_cons_of_refused hmissing hv

end AddMissing

/-! ### The cache after a call -/

section Materialize

variable [Medium M] {e : Engine S M} {relations : List (Relation S)} {n : Nat}

theorem materialize_of_added {g : Graph S} (h : addMissing e.graph 0 relations = (.ok n, g)) :
    e.materialize relations =
      (.ok n, { e with graph := g, cache := if 0 < n then e.cache.clear else e.cache }) := by
  rw [materialize, h]

theorem materialize_of_refused {g : Graph S} {error : ReasonerError S}
    (h : addMissing e.graph 0 relations = (.error error, g)) :
    e.materialize relations = (.error error, { e with graph := g }) := by
  rw [materialize, h]

/-- **A call that comes to its end** has changed nothing, or it has changed the relations and
emptied the cache. -/
theorem materialize_ok (h : (e.materialize relations).1 = .ok n) :
    n = 0 ∧ (e.materialize relations).2 = e ∨
      0 < n ∧ (e.materialize relations).2.graph.relations ≠ e.graph.relations ∧
        (e.materialize relations).2.cache = e.cache.clear := by
  rcases hadd : addMissing e.graph 0 relations with ⟨error | m, g⟩
  · rw [materialize_of_refused hadd] at h
    cases h
  · rw [materialize_of_added hadd] at h ⊢
    obtain rfl : m = n := Except.ok.inj h
    rcases addMissing_ok hadd with ⟨rfl, rfl⟩ | ⟨hpos, rel, hrel, hnew⟩
    · exact Or.inl ⟨rfl, rfl⟩
    · refine Or.inr ⟨hpos, fun hsame => ?_, if_pos hpos⟩
      -- the new triple would be one of the old ones
      change g.relations = e.graph.relations at hsame
      exact hnew rel (hsame ▸ hrel) rfl

/-- **A call that stops** leaves the cache alone, and the graph as the relations in front of the
refused one have made it. -/
theorem materialize_error {error : ReasonerError S}
    (h : (e.materialize relations).1 = .error error) :
    ∃ front refused rest n g, relations = front ++ refused :: rest ∧
      addMissing e.graph 0 front = (.ok n, g) ∧
      g.relation? refused.source.id refused.target.id refused.kind = none ∧
      refused.validate = .error error ∧
      (e.materialize relations).2 = { e with graph := g } := by
  rcases hadd : addMissing e.graph 0 relations with ⟨error' | m, g⟩
  · rw [materialize_of_refused hadd] at h ⊢
    obtain rfl : error' = error := Except.error.inj h
    obtain ⟨front, refused, rest, n, hsplit, hfront, hmissing, hv⟩ := addMissing_error_iff.1 hadd
    exact ⟨front, refused, rest, n, g, hsplit, hfront, hmissing, hv, rfl⟩
  · rw [materialize_of_added hadd] at h
    cases h

theorem cache_materialize_of_error {error : ReasonerError S}
    (h : (e.materialize relations).1 = .error error) :
    (e.materialize relations).2.cache = e.cache := by
  obtain ⟨-, -, -, -, g, -, -, -, -, he⟩ := materialize_error h
  rw [he]

/-- **A call that stops late**: relations in front of the refused one are added, at least one, and
the refused one is missing from the graph that they make and not valid. -/
def StopsLate (e : Engine S M) (relations : List (Relation S)) : Prop :=
  ∃ front refused rest n error, relations = front ++ refused :: rest ∧
    (e.materialize front).1 = .ok n ∧ 0 < n ∧
    (e.materialize front).2.graph.relation? refused.source.id refused.target.id refused.kind =
      none ∧
    refused.validate = .error error

/-- **A call that stops late is one that fails after it has changed the relations.** -/
theorem stopsLate_iff : e.StopsLate relations ↔
    (∃ error, (e.materialize relations).1 = .error error) ∧
      (e.materialize relations).2.graph.relations ≠ e.graph.relations := by
  constructor
  · rintro ⟨front, refused, rest, n, error, hsplit, hn, hpos, hmissing, hv⟩
    have hchanged : (e.materialize front).2.graph.relations ≠ e.graph.relations := by
      rcases materialize_ok hn with ⟨rfl, -⟩ | ⟨-, hchanged, -⟩
      · exact absurd hpos (Nat.lt_irrefl 0)
      · exact hchanged
    rcases hadd : addMissing e.graph 0 front with ⟨error' | m, g⟩
    · rw [materialize_of_refused hadd] at hn
      cases hn
    · -- the whole list stops where the front has left the graph
      rw [materialize_of_added hadd] at hmissing hchanged
      have hstop := materialize_of_refused (e := e)
        (addMissing_error_iff.2 ⟨front, refused, rest, m, hsplit, hadd, hmissing, hv⟩)
      rw [hstop]
      exact ⟨⟨error, rfl⟩, hchanged⟩
  · rintro ⟨⟨error, herror⟩, hchanged⟩
    obtain ⟨front, refused, rest, n, g, hsplit, hadd, hmissing, hv, he⟩ := materialize_error herror
    have hfront := materialize_of_added hadd
    refine ⟨front, refused, rest, n, error, hsplit, ?_, ?_, ?_, hv⟩
    · rw [hfront]
    · -- a front that adds nothing would leave the relations as they were
      rcases addMissing_ok hadd with ⟨-, rfl⟩ | ⟨hpos, -⟩
      · exact absurd (by rw [he]) hchanged
      · exact hpos
    · rw [hfront]
      exact hmissing

/-- **After which calls a change of the relations has emptied the cache**: after all but those that
stop late while the cache has entries. Such a call has changed the relations and left every entry
where it was, with the payload behind it. -/
theorem cleared_materialize_iff (e : Engine S M) (relations : List (Relation S)) :
    (((e.materialize relations).2.graph.relations ≠ e.graph.relations →
        (e.materialize relations).2.cache.index = []) ↔
      ¬(e.StopsLate relations ∧ e.cache.index ≠ [])) ∧
    (e.StopsLate relations →
      (e.materialize relations).2.graph.relations ≠ e.graph.relations ∧
        (e.materialize relations).2.cache = e.cache) := by
  refine ⟨⟨?_, ?_⟩, ?_⟩
  · rintro hcleared ⟨hlate, hentries⟩
    obtain ⟨⟨error, herror⟩, hchanged⟩ := stopsLate_iff.1 hlate
    have hempty := hcleared hchanged
    rw [cache_materialize_of_error herror] at hempty
    exact hentries hempty
  · intro hnot hchanged
    rcases hresult : (e.materialize relations).1 with error | n
    · have hlate : e.StopsLate relations := stopsLate_iff.2 ⟨⟨error, hresult⟩, hchanged⟩
      rw [cache_materialize_of_error hresult]
      by_contra hentries
      exact hnot ⟨hlate, hentries⟩
    · rcases materialize_ok hresult with ⟨-, hsame⟩ | ⟨-, -, hclear⟩
      · exact absurd (by rw [hsame]) hchanged
      · rw [hclear, Cache.clear_index]
  · intro hlate
    obtain ⟨⟨error, herror⟩, hchanged⟩ := stopsLate_iff.1 hlate
    exact ⟨hchanged, cache_materialize_of_error herror⟩

end Materialize

end Engine

end GraphReasoner
