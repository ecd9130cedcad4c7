import GraphReasoner.Proofs.Exact
import GraphReasoner.Rule.RuleSet
import Mathlib.Data.List.Nodup
import Mathlib.Tactic.FinCases

/-!
# Rule sets that can be made

A rule set starts without rules, with the built-in ones or with those of a text, and is changed by
registering a rule, removing one and switching one on or off. `GraphReasoner.RuleSet.Reachable`
lists these ways. The rules of a text are registered one after another, so two starts and three
changes are left to look at (`GraphReasoner.RuleSet.Reachable.induct`), and they keep the
identifiers of the rules different (`GraphReasoner.RuleSet.Reachable.ids_nodup`) and the rules valid
(`GraphReasoner.RuleSet.Reachable.rules_valid`). What each change keeps is stated by itself, for
sets that were come by in other ways. The built-in rules are valid as far as their factors are in
range (`GraphReasoner.RuleSet.FactorsInRange`), which can be checked for numbers that round.
-/

namespace GraphReasoner

open GraphReasoner.Time (Instant)

/-- **A rule is valid** when no text that it needs is blank and its factor lies in `(0, 1]`. -/
theorem Rule.validate_eq_ok_iff {S : Type} [Scalar S] (r : Rule S) : r.validate = .ok () ↔
    ¬Text.AllBlank r.id ∧ ¬Text.AllBlank r.first ∧ ¬Text.AllBlank r.second ∧
      ¬Text.AllBlank r.conclusion ∧ (0.0 : S) < r.factor ∧ r.factor ≤ 1.0 := by
  have hdefect : r.validate = .ok () ↔ r.defect? = none := by
    rw [validate]
    split <;> simp [*]
  rw [hdefect, defect?]
  by_cases hid : Text.AllBlank r.id
  · simp [hid]
  by_cases hfirst : Text.AllBlank r.first
  · simp [hid, hfirst]
  by_cases hsecond : Text.AllBlank r.second
  · simp [hid, hsecond]
  by_cases hconclusion : Text.AllBlank r.conclusion
  · simp [hid, hfirst, hsecond, hconclusion]
  · simp [hid, hfirst, hsecond, hconclusion]

namespace RuleSet

variable {S : Type}

/-! ### The operations -/

section Operations

variable {set set' : RuleSet S} {rule : Rule S} {id : String}

/-- **A rule is registered exactly when it is valid and its identifier is new**, and then it comes
last. -/
theorem add_eq_ok_iff [Scalar S] : set.add rule = .ok set' ↔
    rule.validate = .ok () ∧ (∀ r ∈ set.rules, r.id ≠ rule.id) ∧
      set' = { set with rules := set.rules ++ [rule] } := by
  have hnew : set.rule? rule.id = none ↔ ∀ r ∈ set.rules, r.id ≠ rule.id := by
    rw [rule?, List.find?_eq_none]
    simp only [beq_iff_eq, ne_eq]
  rw [← hnew, add]
  rcases rule.validate with error | ⟨⟩
  · simp [Bind.bind, Except.bind]
  · rcases set.rule? rule.id with _ | other
    · simp [Bind.bind, Except.bind, pure, Except.pure, eq_comm]
    · simp [Bind.bind, Except.bind, throw, throwThe, MonadExceptOf.throw]

/-- The rules that are left when one is removed. -/
theorem remove_eq_ok {removed : Rule S} (h : set.remove id = .ok (removed, set')) :
    set' = { set with rules := set.rules.eraseP fun r => r.id == id } := by
  rw [remove] at h
  split at h
  · exact (Prod.mk.inj (Except.ok.inj h)).2.symm
  · cases h

/-- Switching a rule changes only whether it is active, and when it was changed. -/
theorem setActive_eq_ok {active : Bool} {now : Instant}
    (h : set.setActive id active now = .ok set') :
    set' = { set with rules := set.rules.map fun r =>
      if r.id == id then { r with active := active, updated := now } else r } := by
  rw [setActive] at h
  split at h
  · exact (Except.ok.inj h).symm
  · cases h

/-- What the empty set has and registering a rule preserves, every set made of a list of rules
has. -/
theorem ofRules_induct [Scalar S] {motive : RuleSet S → Prop} {name : String}
    (empty : motive (.empty name))
    (add : ∀ set rule set', motive set → set.add rule = .ok set' → motive set')
    {rules : List (Rule S)} (h : ofRules name rules = .ok set) : motive set := by
  unfold ofRules at h
  generalize (RuleSet.empty name : RuleSet S) = start at h empty
  induction rules generalizing start with
  | nil =>
    obtain rfl := Except.ok.inj h
    exact empty
  | cons rule rules ih =>
    rw [List.foldlM_cons] at h
    rcases hadd : start.add rule with error | next <;> rw [hadd] at h
    · cases h
    · exact ih next h (add start rule next empty hadd)

/-! #### What the operations preserve -/

/-- Registering a rule keeps the identifiers different. -/
theorem ids_nodup_add [Scalar S] (h : (set.rules.map Rule.id).Nodup)
    (hadd : set.add rule = .ok set') : (set'.rules.map Rule.id).Nodup := by
  obtain ⟨-, hnew, rfl⟩ := add_eq_ok_iff.1 hadd
  rw [List.map_append, List.map_singleton, List.nodup_append]
  refine ⟨h, List.nodup_singleton _, fun id hid other hother => ?_⟩
  obtain ⟨r, hr, rfl⟩ := List.mem_map.1 hid
  rw [List.mem_singleton.1 hother]
  exact hnew r hr

theorem ids_nodup_remove {removed : Rule S} (h : (set.rules.map Rule.id).Nodup)
    (hremove : set.remove id = .ok (removed, set')) : (set'.rules.map Rule.id).Nodup := by
  obtain rfl := remove_eq_ok hremove
  exact h.sublist (List.eraseP_sublist.map _)

theorem ids_nodup_setActive {active : Bool} {now : Instant} (h : (set.rules.map Rule.id).Nodup)
    (hswitch : set.setActive id active now = .ok set') : (set'.rules.map Rule.id).Nodup := by
  obtain rfl := setActive_eq_ok hswitch
  have hids : (Rule.id ∘ fun r : Rule S =>
      if r.id == id then { r with active := active, updated := now } else r) = Rule.id := by
    funext r
    rw [Function.comp_apply]
    split <;> rfl
  rw [List.map_map, hids]
  exact h

/-- A rule that is registered is valid, and so the set goes on to hold valid rules. -/
theorem rules_valid_add [Scalar S] (h : ∀ r ∈ set.rules, r.validate = .ok ())
    (hadd : set.add rule = .ok set') : ∀ r ∈ set'.rules, r.validate = .ok () := by
  obtain ⟨hvalid, -, rfl⟩ := add_eq_ok_iff.1 hadd
  exact List.forall_mem_append.2 ⟨h, List.forall_mem_singleton.2 hvalid⟩

theorem rules_valid_remove [Scalar S] {removed : Rule S} (h : ∀ r ∈ set.rules, r.validate = .ok ())
    (hremove : set.remove id = .ok (removed, set')) : ∀ r ∈ set'.rules, r.validate = .ok () := by
  obtain rfl := remove_eq_ok hremove
  exact fun rule hrule => h rule (List.mem_of_mem_eraseP hrule)

theorem rules_valid_setActive [Scalar S] {active : Bool} {now : Instant}
    (h : ∀ r ∈ set.rules, r.validate = .ok ()) (hswitch : set.setActive id active now = .ok set') :
    ∀ r ∈ set'.rules, r.validate = .ok () := by
  obtain rfl := setActive_eq_ok hswitch
  intro rule hrule
  obtain ⟨r, hr, rfl⟩ := List.mem_map.1 hrule
  -- what is checked of a rule does not depend on what is switched
  have hvalid := (Rule.validate_eq_ok_iff r).1 (h r hr)
  refine (Rule.validate_eq_ok_iff _).2 ?_
  split
  · exact hvalid
  · exact hvalid

end Operations

/-! ### The built-in rules -/

section Builtin

variable [Scalar S]

/-- The identifiers of the built-in rules are different. -/
theorem builtin_ids_nodup (now : Instant) :
    ((RuleSet.builtin now : RuleSet S).rules.map Rule.id).Nodup := by
  have hids : ((RuleSet.builtin now : RuleSet S).rules.map Rule.id) =
      ["transitive-is-a", "transitive-part-of", "cause-effect-chain", "dependency-chain",
        "location-containment", "temporal-sequence"] := rfl
  rw [hids]
  decide

variable (S) in
/-- The factors of the built-in rules lie where a factor has to. -/
def FactorsInRange : Prop :=
  ∀ factor ∈ [(0.9 : S), 0.8, 0.85], (0.0 : S) < factor ∧ factor ≤ 1.0

/-- They do when numbers compute exactly. -/
theorem factorsInRange [ExactScalar S] : FactorsInRange S := by
  intro factor hfactor
  rw [ExactScalar.lt_iff, ExactScalar.le_iff]
  fin_cases hfactor <;> norm_num

/-- **The built-in rules are valid** when their factors are. -/
theorem builtin_valid (hfactors : FactorsInRange S) (now : Instant) :
    ∀ rule ∈ (RuleSet.builtin now : RuleSet S).rules, rule.validate = .ok () := by
  intro rule hrule
  refine (Rule.validate_eq_ok_iff rule).2 ?_
  fin_cases hrule <;> dsimp only [Rule.make] <;>
    exact ⟨by decide, by decide, by decide, by decide, hfactors _ (by simp)⟩

end Builtin

/-! ### Sets that can be made -/

variable [Numeral S]

/-- **The rule sets that can be made** by the operations on rule sets. -/
inductive Reachable : RuleSet S → Prop
  | empty (name : String) : Reachable (.empty name)
  | builtin (now : Instant) : Reachable (.builtin now)
  | ofJsonText {text source : String} {now : Instant} {set : RuleSet S}
    (made : RuleSet.ofJsonText text source now = .ok set) : Reachable set
  | ofTomlText {text source : String} {now : Instant} {set : RuleSet S}
    (made : RuleSet.ofTomlText text source now = .ok set) : Reachable set
  | add {set set' : RuleSet S} {rule : Rule S} (before : Reachable set)
    (made : set.add rule = .ok set') : Reachable set'
  | remove {set set' : RuleSet S} {id : String} {removed : Rule S} (before : Reachable set)
    (made : set.remove id = .ok (removed, set')) : Reachable set'
  | setActive {set set' : RuleSet S} {id : String} {active : Bool} {now : Instant}
    (before : Reachable set) (made : set.setActive id active now = .ok set') : Reachable set'

namespace Reachable

variable {set : RuleSet S}

/-- **What holds of every rule set that can be made**: what the empty and the built-in sets have and
the three changes preserve. -/
theorem induct {motive : RuleSet S → Prop} (empty : ∀ name, motive (.empty name))
    (builtin : ∀ now, motive (.builtin now))
    (add : ∀ set rule set', motive set → set.add rule = .ok set' → motive set')
    (remove : ∀ set id removed set', motive set → set.remove id = .ok (removed, set') →
      motive set')
    (setActive : ∀ set id active now set', motive set →
      set.setActive id active now = .ok set' → motive set')
    (h : set.Reachable) : motive set := by
  induction h with
  | empty name => exact empty name
  | builtin now => exact builtin now
  | ofJsonText made =>
    unfold RuleSet.ofJsonText at made
    split at made
    · exact ofRules_induct (empty _) add made
    · cases made
  | ofTomlText made =>
    unfold RuleSet.ofTomlText at made
    dsimp only at made
    split at made
    · exact ofRules_induct (empty _) add made
    · cases made
  | add _ made ih => exact add _ _ _ ih made
  | remove _ made ih => exact remove _ _ _ _ ih made
  | setActive _ made ih => exact setActive _ _ _ _ _ ih made

/-- **The identifiers of the rules are different.** -/
theorem ids_nodup (h : set.Reachable) : (set.rules.map Rule.id).Nodup :=
  h.induct (motive := fun set => (set.rules.map Rule.id).Nodup) (fun _ => List.nodup_nil)
    builtin_ids_nodup (fun _ _ _ => ids_nodup_add) (fun _ _ _ _ => ids_nodup_remove)
    fun _ _ _ _ _ => ids_nodup_setActive

/-- **All rules are valid**, the built-in ones because the numbers compute exactly. -/
theorem rules_valid [ExactScalar S] (h : set.Reachable) :
    ∀ rule ∈ set.rules, rule.validate = .ok () :=
  h.induct (motive := fun set => ∀ rule ∈ set.rules, rule.validate = .ok ()) (fun _ => nofun)
    (builtin_valid factorsInRange) (fun _ _ _ => rules_valid_add)
    (fun _ _ _ _ => rules_valid_remove) fun _ _ _ _ _ => rules_valid_setActive

end Reachable

end RuleSet

end GraphReasoner
