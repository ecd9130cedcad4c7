import GraphReasoner.Proofs.Engine.Run
import GraphReasoner.Proofs.Graph.History
import GraphReasoner.Proofs.Rule.RuleSet

/-!
# The states of an engine

An engine is made over a graph that grew from nothing and a rule set that can be made. Then it is
used by the operations of `GraphReasoner.Engine.Operation`, its graph may go on growing by single
calls, and its rules may be replaced (`GraphReasoner.Engine.Reachable`). In every state the graph
is one that grew from nothing (`GraphReasoner.Engine.Reachable.exists_calls`), because relations
are made a part of it one call at a time, and the rules are a set that can be made
(`GraphReasoner.Engine.Reachable.rules_reachable`).
-/

namespace GraphReasoner

open GraphReasoner.Time (Instant)

namespace Engine

variable {S M : Type}

/-! ### What an operation does to the graph -/

/-- **Relations become part of a graph one call at a time.** -/
theorem exists_calls_addMissing [Scalar S] (g : Graph S) (added : Nat)
    (relations : List (Relation S)) :
    ∃ calls, (addMissing g added relations).2 = g.grow calls := by
  induction relations generalizing g added with
  | nil => exact ⟨[], rfl⟩
  | cons r relations ih =>
    rcases addMissing_cons g added r relations with h | ⟨g', -, hg', h⟩ | ⟨error, -, -, h⟩ <;>
      rw [h]
    · exact ih g added
    · obtain ⟨calls, hcalls⟩ := ih g' (added + 1)
      have hafter : g.after (.relation r) = g' := by rw [Graph.after, Graph.insert, hg']
      exact ⟨.relation r :: calls, by rw [hcalls, Graph.grow, Graph.grow, List.foldl_cons, hafter]⟩
    · exact ⟨[], rfl⟩

variable [Numeral S] [Medium M]

/-- A question changes the cache at most. -/
theorem exists_cache_of_query (e : Engine S M) (text : String) (useCache : Bool) (now : Instant) :
    ∃ cache, (e.query text useCache now).2 = { e with cache } := by
  unfold query
  split
  · exact ⟨e.cache, rfl⟩
  split
  · rcases hfetch : e.fetch text now with ⟨found, e'⟩
    obtain ⟨cache, rfl⟩ : ∃ cache, e' = { e with cache } := by
      obtain rfl : (e.fetch text now).2 = e' := by rw [hfetch]
      exact ⟨_, rfl⟩
    rcases found with _ | a <;> exact ⟨_, rfl⟩
  · exact ⟨e.cache, rfl⟩

theorem graph_materialize (e : Engine S M) (relations : List (Relation S)) :
    (e.materialize relations).2.graph = (addMissing e.graph 0 relations).2 := by
  unfold materialize
  split <;> rename_i heq <;> rw [heq]

theorem rules_materialize (e : Engine S M) (relations : List (Relation S)) :
    (e.materialize relations).2.rules = e.rules := by
  unfold materialize
  split <;> rfl

/-- **An operation lets the graph grow**, if it touches it at all. -/
theorem exists_calls_perform (e : Engine S M) (op : Operation S) :
    ∃ calls, (e.perform op).graph = e.graph.grow calls := by
  have hsame : ∀ {e' : Engine S M}, e'.graph = e.graph → ∃ calls, e'.graph = e.graph.grow calls :=
    fun h => ⟨[], h⟩
  cases op with
  | materialize relations =>
    obtain ⟨calls, hcalls⟩ := exists_calls_addMissing e.graph 0 relations
    exact ⟨calls, (graph_materialize e relations).trans hcalls⟩
  | query text useCache now =>
    obtain ⟨cache, hquery⟩ := exists_cache_of_query e text useCache now
    exact hsame (by rw [perform, hquery])
  | plan text now =>
    unfold perform
    dsimp only
    split
    · rename_i hplan
      obtain ⟨planner, rfl⟩ := exists_planner_of_plan hplan
      exact hsame rfl
    · exact hsame rfl
  | addRule | removeRule | setActive | addDated | addEvidenced =>
    unfold perform
    dsimp only
    split <;> exact hsame rfl
  | suggest | clearHistory | infer | inferChains | insertDated | insertEvidenced | cache =>
    exact hsame rfl

/-- **An operation leaves the rules a set that can be made.** -/
theorem rules_perform {e : Engine S M} (h : e.rules.Reachable) (op : Operation S) :
    (e.perform op).rules.Reachable := by
  have hsame : ∀ {e' : Engine S M}, e'.rules = e.rules → e'.rules.Reachable := fun heq => heq ▸ h
  cases op with
  | addRule rule =>
    unfold perform
    dsimp only
    split
    · exact h.add ‹_›
    · exact h
  | removeRule id =>
    unfold perform
    dsimp only
    split
    · exact h.remove ‹_›
    · exact h
  | setActive id active now =>
    unfold perform
    dsimp only
    split
    · exact h.setActive ‹_›
    · exact h
  | materialize relations => exact hsame (rules_materialize e relations)
  | query text useCache now =>
    obtain ⟨cache, hquery⟩ := exists_cache_of_query e text useCache now
    exact hsame (by rw [perform, hquery])
  | plan text now =>
    unfold perform
    dsimp only
    split
    · rename_i hplan
      obtain ⟨planner, rfl⟩ := exists_planner_of_plan hplan
      exact h
    · exact h
  | addDated | addEvidenced =>
    unfold perform
    dsimp only
    split <;> exact h
  | suggest | clearHistory | infer | inferChains | insertDated | insertEvidenced | cache => exact h

/-! ### States -/

/-- **The states of an engine.** -/
inductive Reachable : Engine S M → Prop
  | make {settings : Settings S} {cache : Cache M} {rules : RuleSet S} {e : Engine S M}
    (calls : List (Graph.Insertion S)) (hrules : rules.Reachable)
    (made : Engine.make settings (Graph.grow Graph.empty calls) cache rules = .ok e) : Reachable e
  | perform {e : Engine S M} (before : Reachable e) (op : Operation S) : Reachable (e.perform op)
  | insert {e : Engine S M} (before : Reachable e) (call : Graph.Insertion S) :
    Reachable { e with graph := e.graph.after call }
  | replace {e : Engine S M} (before : Reachable e) {rules : RuleSet S}
    (hrules : rules.Reachable) : Reachable { e with rules }

omit [Medium M] in
/-- An engine that is made has the graph and the rules it was made with. -/
theorem make_eq_ok {settings : Settings S} {graph : Graph S} {cache : Cache M} {rules : RuleSet S}
    {e : Engine S M} (h : make settings graph cache rules = .ok e) :
    e.graph = graph ∧ e.rules = rules := by
  unfold make at h
  rcases hchains : ChainReasoner.ofRelations settings.inference graph.relations with error | chains
  · rw [hchains] at h
    cases h
  · rw [hchains] at h
    cases h
    exact ⟨rfl, rfl⟩

namespace Reachable

variable {e : Engine S M}

/-- **The graph of an engine grew from nothing.** -/
theorem exists_calls (h : e.Reachable) : ∃ calls, e.graph = Graph.grow Graph.empty calls := by
  induction h with
  | make calls _ made => exact ⟨calls, (make_eq_ok made).1⟩
  | @perform e _ op ih =>
    obtain ⟨calls, hcalls⟩ := ih
    obtain ⟨more, hmore⟩ := exists_calls_perform e op
    exact ⟨calls ++ more, by rw [hmore, hcalls, Graph.grow_append]⟩
  | insert _ call ih =>
    obtain ⟨calls, hcalls⟩ := ih
    exact ⟨calls ++ [call], by rw [hcalls, Graph.grow_concat]⟩
  | replace _ _ ih => exact ih

/-- **The rules of an engine are a set that can be made.** -/
theorem rules_reachable (h : e.Reachable) : e.rules.Reachable := by
  induction h with
  | make _ hrules made => exact (make_eq_ok made).2 ▸ hrules
  | perform _ op ih => exact rules_perform ih op
  | insert _ _ ih => exact ih
  | replace _ hrules _ => exact hrules

end Reachable

end Engine

end GraphReasoner
