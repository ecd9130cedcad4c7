import GraphReasoner.Proofs.Cache.Faithful
import GraphReasoner.Proofs.Chain.Walk
import GraphReasoner.Proofs.Engine.Materialize
import GraphReasoner.Proofs.Query.Search

/-!
# Runs of an engine

An engine is used by one operation after another, and `GraphReasoner.Engine.perform` is the engine
after an operation. Most operations leave the graph alone, and many the cache: questions that are
not answered from the cache, everything that is inferred, and every change of the rules, the layers
and the history. Only `GraphReasoner.Engine.materialize` changes the graph. One operation may stop
the program, and `GraphReasoner.Engine.inferChains_eq_ok_none_iff` says when it does.

The runs of `GraphReasoner.Engine.Reaches` are over some texts. The questions that are asked are
among them, only the engine itself stores payloads under their keys, and every call that makes
relations part of the graph comes to its end and is given relations that can be stored.
-/

namespace GraphReasoner

open GraphReasoner.Query (Answer)
open GraphReasoner.Time (Instant)

namespace Engine

/-! ### Chains that stop the program -/

section Stop

variable {S M : Type} {e : Engine S M}

theorem lookup_eq_ok_iff {id : String} {entity : Entity S} :
    e.lookup id = .ok entity ↔ e.graph.entity? id = some entity := by
  unfold lookup
  split <;> simp [*]

variable [Scalar S]

/-- **The search for chains stops the program** exactly when both entities are in the graph and the
settings allow walks of more hops than there can be room for. -/
theorem inferChains_eq_ok_none_iff {source target kind : String} :
    e.inferChains source target kind = .ok none ↔
      e.graph.hasEntity source = true ∧ e.graph.hasEntity target = true ∧
        (2 ^ 63 - 1) / 4 < e.chains.settings.maxHops := by
  rw [inferChains, bind_eq_ok_iff, Graph.hasEntity_iff, Graph.hasEntity_iff]
  simp only [bind_eq_ok_iff, lookup_eq_ok_iff]
  constructor
  · rintro ⟨s, hs, t, ht, hstop⟩
    have hnone := ChainReasoner.inferAll_eq_none_iff.1 (Except.ok.inj hstop)
    exact ⟨⟨s, hs⟩, ⟨t, ht⟩, hnone.2⟩
  · rintro ⟨⟨s, hs⟩, ⟨t, ht⟩, hlarge⟩
    have hsource : e.graph.hasEntity s.id = true :=
      Graph.hasEntity_iff.2 ⟨s, (Graph.id_of_entity? hs).symm ▸ hs⟩
    have hnone : e.chains.inferAll e.graph s t kind = none :=
      ChainReasoner.inferAll_eq_none_iff.2 ⟨hsource, hlarge⟩
    exact ⟨s, hs, t, ht, congrArg Except.ok hnone⟩

end Stop

/-! ### Operations and runs -/

/-- What an engine can be asked. -/
inductive Operation (S : Type)
  | query (text : String) (useCache : Bool) (now : Instant)
  | plan (text : String) (now : Instant)
  | suggest (text : String) (most : Nat)
  | clearHistory
  | infer
  | inferChains (source target kind : String)
  | addRule (rule : Rule S)
  | removeRule (id : String)
  | setActive (id : String) (active : Bool) (now : Instant)
  | addDated (r : Relation S) (bounds : Bounds S)
  | addEvidenced (r : Relation S) (probability : S) (evidence : List String)
  | insertDated (d : Dated S)
  | insertEvidenced (e : Evidenced S)
  | cache (op : Cache.Operation)
  | materialize (relations : List (Relation S))

variable {S M : Type} [Numeral S] [Medium M]

/-- **The engine after an operation.** An operation that fails leaves the engine as it was, except
for the relations that a call of `GraphReasoner.Engine.materialize` has added before. -/
def perform (e : Engine S M) : Operation S → Engine S M
  | .query text useCache now => (e.query text useCache now).2
  | .plan text now =>
    match e.plan text now with
    | .ok (_, e') => e'
    | .error _ => e
  | .clearHistory => { e with planner := e.planner.clear }
  | .addRule rule =>
    match e.rules.add rule with
    | .ok rules => { e with rules }
    | .error _ => e
  | .removeRule id =>
    match e.rules.remove id with
    | .ok (_, rules) => { e with rules }
    | .error _ => e
  | .setActive id active now =>
    match e.rules.setActive id active now with
    | .ok rules => { e with rules }
    | .error _ => e
  | .addDated r bounds =>
    match e.chains.addDated r bounds with
    | .ok (_, chains) => { e with chains }
    | .error _ => e
  | .addEvidenced r probability evidence =>
    match e.chains.addEvidenced r probability evidence with
    | .ok (_, chains) => { e with chains }
    | .error _ => e
  | .insertDated d => { e with chains := e.chains.insertDated d }
  | .insertEvidenced evidenced => { e with chains := e.chains.insertEvidenced evidenced }
  | .cache op => { e with cache := (e.cache.perform op).2 }
  | .materialize relations => (e.materialize relations).2
  | .suggest .. | .infer | .inferChains .. => e

omit [Medium M] in
/-- Planning changes the planner at most. -/
theorem exists_planner_of_plan {e e' : Engine S M} {text : String} {now : Instant}
    {plan : Query.Plan S} (h : e.plan text now = .ok (plan, e')) :
    ∃ planner, e' = { e with planner } := by
  unfold Engine.plan at h
  simp only [bind, Except.bind] at h
  split at h
  · cases h
  · rename_i made _
    cases h
    exact ⟨made.2, rfl⟩

/-- **The operations of a run**: questions are among some texts, nothing is put under their keys
from outside, and relations that become part of the graph can be stored and are all accepted. -/
def Permitted (texts : Set String) (e : Engine S M) : Operation S → Prop
  | .query text _ _ => text ∈ texts
  | .cache (.store key ..) => ∀ text ∈ texts, key ≠ Query.answerKey text
  | .materialize relations =>
    (∀ r ∈ relations, r.Storable) ∧ ∃ n, (e.materialize relations).1 = .ok n
  | _ => True

/-- One step of a run. -/
def Step (texts : Set String) (e e' : Engine S M) : Prop :=
  ∃ op, e.Permitted texts op ∧ e' = e.perform op

/-- **A run** leads from one engine to another. -/
def Reaches (texts : Set String) : Engine S M → Engine S M → Prop :=
  Relation.ReflTransGen (Step texts)

end Engine

end GraphReasoner
