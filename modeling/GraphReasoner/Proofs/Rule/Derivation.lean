import GraphReasoner.Proofs.Graph.Views
import GraphReasoner.Proofs.Rule.RuleSet
import GraphReasoner.Proofs.Table
import GraphReasoner.Rule.Derivation

/-!
# One step of composition, exactly

What a rule concludes can be said without a graph, about a list of relations: go through the list
for the first relation, and through it backwards for the second one
(`GraphReasoner.Rule.consequences`). The step on a graph looks at records instead, filters before it
joins, and looks the entities of a conclusion up by their identifiers. It derives the same relations
in the same order, from the relations that were in the graph before the step
(`GraphReasoner.Derivation.Exact`).

Where the entities come from is kept open in the lemmas about one rule, because the step on a list
of relations takes them from the list.
-/

namespace GraphReasoner

variable {S : Type}

namespace Rule

/-- **Two relations make a path that a rule is about**: they are of its two types, the second starts
where the first ends, and the three entities are different. -/
def Composes (rule : Rule S) (head last : Relation S) : Prop :=
  head.kind = rule.first ∧ last.kind = rule.second ∧ last.source.id = head.target.id ∧
    [head.source.id, head.target.id, last.target.id].Nodup

instance (rule : Rule S) (head last : Relation S) : Decidable (rule.Composes head last) :=
  inferInstanceAs (Decidable (_ ∧ _))

end Rule

/-! ### The pairs that a rule applies to -/

namespace Graph

/-- A rule applies to pairs of records of the graph. -/
theorem mem_of_mem_compositions {g : Graph S} {rule : Rule S} {hop : Record S × Record S}
    (h : hop ∈ g.compositions rule) : hop.1 ∈ g.records ∧ hop.2 ∈ g.records := by
  obtain ⟨head, hhead, hhop⟩ := List.mem_flatMap.1 h
  obtain ⟨last, hlast, rfl⟩ := List.mem_map.1 hhop
  exact ⟨(List.mem_filter.1 hhead).1,
    (List.mem_filter.1 (List.mem_reverse.1 (List.mem_filter.1 hlast).1)).1⟩

/-- A filter in front of a `flatMap` can be tested inside. -/
theorem flatMap_filter {α β : Type} (p : α → Bool) (f : α → List β) (items : List α) :
    (items.filter p).flatMap f = items.flatMap fun a => if p a then f a else [] := by
  induction items with
  | nil => rfl
  | cons a items ih =>
    rw [List.filter_cons, List.flatMap_cons, ← ih]
    split <;> rfl

/-- The test of the relations of two records, on the records. -/
theorem decide_composes {g : Graph S} (rule : Rule S) {head last : Record S} {r s : Relation S}
    (hhead : g.resolve? head = some r) (hlast : g.resolve? last = some s) :
    decide (rule.Composes r s) = (head.kind == rule.first && head.source != head.target &&
      (last.source == head.target && (last.kind == rule.second &&
        last.target != head.source && last.target != head.target))) := by
  obtain ⟨_, _, hs, ht, rfl⟩ := resolve?_eq_some_iff.1 hhead
  obtain ⟨_, _, hs', ht', rfl⟩ := resolve?_eq_some_iff.1 hlast
  rw [Bool.eq_iff_iff, decide_eq_true_iff, Rule.Composes]
  simp only [Record.between, id_of_entity? hs, id_of_entity? ht,
    id_of_entity? hs', id_of_entity? ht', List.nodup_cons, List.mem_cons,
    List.not_mem_nil, or_false, not_or, List.nodup_nil, not_false_iff, and_true, Bool.and_eq_true,
    beq_iff_eq, bne_iff_ne, ne_eq]
  constructor
  · rintro ⟨hfirst, hsecond, hmeet, ⟨hst, hsw⟩, htw⟩
    exact ⟨⟨hfirst, hst⟩, hmeet, ⟨hsecond, Ne.symm hsw⟩, Ne.symm htw⟩
  · rintro ⟨⟨hfirst, hst⟩, hmeet, ⟨hsecond, hsw⟩, htw⟩
    exact ⟨hfirst, hsecond, hmeet, ⟨hst, Ne.symm hsw⟩, Ne.symm htw⟩

end Graph

variable [Scalar S]

/-! ### What rules conclude -/

namespace Rule

/-- The relation that a rule concludes from a path. -/
def consequence (rule : Rule S) (head last : Relation S) : Relation S where
  source := head.source
  target := last.target
  kind := rule.conclusion
  confidence := (head.confidence * last.confidence) * rule.factor
  properties := ⟨[("inferred", .bool true), ("rule_id", .text rule.id)]⟩
  temporal := none

/-- All that a rule concludes from some relations: in the order of the first relations of the paths,
and of the paths with one first relation the newest second relation first. -/
def consequences (rule : Rule S) (relations : List (Relation S)) : List (Relation S) :=
  relations.flatMap fun head =>
    (relations.reverse.filter fun last => rule.Composes head last).map (rule.consequence head)

/-- **A relation is concluded exactly when there is a path for it.** -/
theorem mem_consequences {rule : Rule S} {relations : List (Relation S)} {r : Relation S} :
    r ∈ rule.consequences relations ↔ ∃ head ∈ relations, ∃ last ∈ relations,
      rule.Composes head last ∧ rule.consequence head last = r := by
  simp only [consequences, List.mem_flatMap, List.mem_map, List.mem_filter, List.mem_reverse,
    decide_eq_true_eq, and_assoc]

/-- A conclusion carries the identifier of its rule. -/
theorem ruleId?_of_mem_consequences {rule : Rule S} {relations : List (Relation S)}
    {r : Relation S} (h : r ∈ rule.consequences relations) : r.ruleId? = some rule.id := by
  obtain ⟨head, -, last, -, -, rfl⟩ := mem_consequences.1 h
  rfl

end Rule

namespace Derivation

/-- How many relations carry the identifier of a rule. -/
def tally (id : String) (relations : List (Relation S)) : Nat :=
  relations.countP fun r => r.ruleId? == some id

/-- **What some rules derive from some relations, exactly.** -/
structure Exact (rules : List (Rule S)) (relations : List (Relation S)) (d : Derivation S) :
    Prop where
  /-- Rule after rule, what each concludes from the relations that were there before the step. -/
  derived : d.derived = rules.flatMap fun rule => rule.consequences relations
  /-- Nothing is dropped. -/
  skipped : d.skipped = 0
  /-- An identifier is counted as often as the relations derived carry it, if they do at all. -/
  count : ∀ id, d.counts.get? id =
    if tally id d.derived = 0 then none else some (tally id d.derived)
  counts_ordered : d.counts.Ordered
  /-- The counts add up. -/
  sum_counts : d.counts.values.sum = d.derived.length

/-! ### What one rule adds -/

section Apply

/-- What a rule concludes from a pair of records, if both entities are found. -/
def conclude? (source? target? : String → Option (Entity S)) (rule : Rule S)
    (hop : Record S × Record S) : Option (Relation S) := do
  return conclude rule hop (← source? hop.1.source) (← target? hop.2.target)

variable {g : Graph S} {source? target? : String → Option (Entity S)} {rule : Rule S}

theorem conclude?_eq {hop : Record S × Record S} {source target : Entity S}
    (hsource : source? hop.1.source = some source) (htarget : target? hop.2.target = some target) :
    conclude? source? target? rule hop = some (conclude rule hop source target) := by
  rw [conclude?, hsource, htarget]
  rfl

/-- **What applying a rule does**, in terms of the relations that it derives. -/
theorem applyRule_eq {d : Derivation S} {found : List (Relation S)}
    (hfound : (g.compositions rule).filterMap (conclude? source? target? rule) = found) :
    d.applyRule g source? target? rule =
      { derived := d.derived ++ found
        counts := if found.isEmpty then d.counts else d.counts.update rule.id 0 (· + found.length)
        skipped := d.skipped + ((g.compositions rule).length - found.length) } := by
  subst hfound
  rfl

/-- What is concluded from two records is the consequence of their relations. -/
theorem conclude?_of_resolve? {head last : Record S} {r s : Relation S}
    (hhead : g.resolve? head = some r) (hlast : g.resolve? last = some s) :
    conclude? g.entity? g.entity? rule (head, last) = some (rule.consequence r s) := by
  obtain ⟨_, _, hsource, -, rfl⟩ := Graph.resolve?_eq_some_iff.1 hhead
  obtain ⟨_, _, -, htarget, rfl⟩ := Graph.resolve?_eq_some_iff.1 hlast
  rw [conclude?_eq hsource htarget]
  rfl

/-- What a rule concludes from the paths with one first relation. -/
theorem map_filter_composes (h : g.Resolves) {head : Record S} {r : Relation S}
    (hhead : g.resolve? head = some r) :
    (g.relations.reverse.filter fun last => rule.Composes r last).map (rule.consequence r) =
      if head.kind == rule.first && head.source != head.target then
        (((g.leaving head.target).filter fun last => last.kind == rule.second &&
          last.target != head.source && last.target != head.target).map fun last =>
            (head, last)).filterMap (conclude? g.entity? g.entity? rule)
      else [] := by
  have hfilter := g.filterMap_resolve?_filter
    (fun _ _ hlast => Graph.decide_composes rule hhead hlast) g.records.reverse
  rw [Graph.relations, ← List.filterMap_reverse, ← hfilter]
  split
  · rename_i htest
    rw [Graph.leaving, ← List.filter_reverse, List.filter_filter, List.filterMap_map,
      List.map_filterMap]
    simp only [htest, Bool.true_and, Bool.and_comm (_ == head.target)]
    refine List.filterMap_congr fun last hlast => ?_
    obtain ⟨s, hs⟩ := h last (List.mem_reverse.1 (List.mem_filter.1 hlast).1)
    rw [hs, Function.comp_apply, conclude?_of_resolve? hhead hs]
    rfl
  · rename_i htest
    simp only [Bool.eq_false_iff.2 htest, Bool.false_and, List.filter_false]
    rfl

/-- **What a rule derives from a graph is what it concludes from the relations of the graph.** -/
theorem filterMap_compositions (h : g.Resolves) (rule : Rule S) :
    (g.compositions rule).filterMap (conclude? g.entity? g.entity? rule) =
      rule.consequences g.relations := by
  rw [Graph.compositions, List.filterMap_flatMap, Graph.flatMap_filter, Rule.consequences,
    List.flatMap_def, List.flatMap_def, Graph.relations]
  refine congrArg List.flatten (Eq.symm ?_)
  exact h.map_filterMap (fun _ _ hhead => map_filter_composes h hhead) fun _ hr => hr

/-- Every pair that a rule applies to is a path. -/
theorem length_consequences (h : g.Resolves) (rule : Rule S) :
    (rule.consequences g.relations).length = (g.compositions rule).length := by
  rw [← filterMap_compositions h]
  refine List.filterMap_length_eq_length.2 fun hop hhop => ?_
  obtain ⟨hhead, hlast⟩ := Graph.mem_of_mem_compositions hhop
  obtain ⟨r, hr⟩ := h hop.1 hhead
  obtain ⟨s, hs⟩ := h hop.2 hlast
  rw [conclude?_of_resolve? hr hs]
  rfl

end Apply

/-! ### The whole step -/

section Tally

variable {id : String} {relations more : List (Relation S)}

omit [Scalar S] in
theorem tally_append : tally id (relations ++ more) = tally id relations + tally id more :=
  List.countP_append

/-- All conclusions of a rule carry its identifier, and no other. -/
theorem tally_consequences (rule : Rule S) (relations : List (Relation S)) (id : String) :
    tally id (rule.consequences relations) =
      if rule.id = id then (rule.consequences relations).length else 0 := by
  split
  · rename_i hid
    refine List.countP_eq_length.2 fun r hr => ?_
    rw [Rule.ruleId?_of_mem_consequences hr, hid, beq_self_eq_true]
  · rename_i hid
    refine List.countP_eq_zero.2 fun r hr => ?_
    rw [Rule.ruleId?_of_mem_consequences hr, beq_iff_eq, Option.some.injEq]
    exact hid

end Tally

variable {g : Graph S}

theorem exact_empty (relations : List (Relation S)) :
    (empty : Derivation S).Exact [] relations where
  derived := rfl
  skipped := rfl
  count _ := rfl
  counts_ordered := List.Pairwise.nil
  sum_counts := rfl

/-- **One more rule is applied exactly.** -/
theorem Exact.applyRule {d : Derivation S} {rules : List (Rule S)} (h : d.Exact rules g.relations)
    (hg : g.Resolves) (rule : Rule S) :
    (d.applyRule g g.entity? g.entity? rule).Exact (rules ++ [rule]) g.relations := by
  have hstep := applyRule_eq (d := d) (filterMap_compositions hg rule)
  rcases hnew : (rule.consequences g.relations).isEmpty with _ | _
  · rw [hnew, if_neg Bool.false_ne_true] at hstep
    rw [hstep]
    -- the row of the rule was there, or it is begun with zero
    have hpos : 0 < (rule.consequences g.relations).length :=
      List.length_pos_iff.2 (List.isEmpty_eq_false_iff.1 hnew)
    have hrow : (d.counts.get? rule.id).getD 0 = tally rule.id d.derived := by
      rw [h.count]
      split
      · rename_i hzero
        exact hzero.symm
      · rfl
    refine
      { derived := by simp [h.derived]
        skipped := by simp [h.skipped, length_consequences hg]
        count := fun id => ?_
        counts_ordered := h.counts_ordered.update rule.id 0
          (· + (rule.consequences g.relations).length)
        sum_counts := ?_ }
    · rw [Table.get?_update, tally_append, tally_consequences]
      by_cases hid : rule.id = id
      · subst hid
        rw [if_pos rfl, if_pos rfl, hrow, if_neg (Nat.ne_of_gt (Nat.add_pos_right _ hpos))]
      · rw [if_neg hid, if_neg hid, h.count, Nat.add_zero]
    · have hsum : ((d.counts.update rule.id 0
          (· + (rule.consequences g.relations).length)).values.map id).sum =
            (d.counts.values.map id).sum + (rule.consequences g.relations).length :=
        h.counts_ordered.sum_update rfl fun _ => rfl
      simpa [h.sum_counts] using hsum
  · have hnil : rule.consequences g.relations = [] := List.isEmpty_iff.1 hnew
    rw [hnew, if_pos rfl] at hstep
    rw [hstep]
    refine
      { derived := by simp [h.derived]
        skipped := by simp [h.skipped, length_consequences hg]
        count := fun id => ?_
        counts_ordered := h.counts_ordered
        sum_counts := ?_ }
    · rw [hnil, List.append_nil]
      exact h.count id
    · rw [hnil, List.append_nil]
      exact h.sum_counts

/-- **Rules are applied to a graph exactly.** -/
theorem exact_foldl (hg : g.Resolves) (rules : List (Rule S)) :
    (rules.foldl (applyRule g g.entity? g.entity?) empty).Exact rules g.relations := by
  induction rules using List.reverseRecOn with
  | nil => exact exact_empty _
  | append_singleton rules rule ih =>
    rw [List.foldl_concat]
    exact ih.applyRule hg rule

/-- Among what rules with different identifiers derive, a rule is found by its identifier. -/
theorem tally_flatMap {rules : List (Rule S)} (hids : (rules.map Rule.id).Nodup) {rule : Rule S}
    (hrule : rule ∈ rules) (relations : List (Relation S)) :
    tally rule.id (rules.flatMap fun r => r.consequences relations) =
      (rule.consequences relations).length := by
  induction rules with
  | nil => cases hrule
  | cons first rest ih =>
    rw [List.map_cons, List.nodup_cons] at hids
    rw [List.flatMap_cons, tally_append, tally_consequences]
    rcases List.mem_cons.1 hrule with rfl | hin
    · have hrest : tally rule.id (rest.flatMap fun r => r.consequences relations) = 0 := by
        refine List.countP_eq_zero.2 fun r hr heq => ?_
        obtain ⟨other, hother, hr⟩ := List.mem_flatMap.1 hr
        rw [Rule.ruleId?_of_mem_consequences hr, beq_iff_eq, Option.some.injEq] at heq
        exact hids.1 (heq ▸ List.mem_map_of_mem hother)
      rw [if_pos rfl, hrest, Nat.add_zero]
    · have hne : first.id ≠ rule.id := fun heq => hids.1 (heq ▸ List.mem_map_of_mem hin)
      rw [if_neg hne, Nat.zero_add, ih hids.2 hin]

/-- **When the rules have different identifiers, the count of each is the number of its
conclusions**, and there is none for a rule without conclusions. -/
theorem Exact.count_rule {d : Derivation S} {rules : List (Rule S)} {relations : List (Relation S)}
    (h : d.Exact rules relations) (hids : (rules.map Rule.id).Nodup) {rule : Rule S}
    (hrule : rule ∈ rules) : d.counts.get? rule.id =
      if rule.consequences relations = [] then none
      else some (rule.consequences relations).length := by
  rw [h.count, h.derived, tally_flatMap hids hrule]
  simp only [List.length_eq_zero_iff]

end Derivation

end GraphReasoner
