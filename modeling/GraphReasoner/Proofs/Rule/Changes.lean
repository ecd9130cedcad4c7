import GraphReasoner.Proofs.Fallible
import GraphReasoner.Proofs.Rule.Batch

/-!
# What a rule set says about its changes

A rule set starts without rules, with the built-in ones or with the rules of a list, and is then
changed by registering a rule, removing one and switching one on or off. A change that is refused
changes nothing (`GraphReasoner.RuleSet.run`), so the set can be read off the changes that were
accepted, without a set (`GraphReasoner.RuleSet.standing`): a registration stands unless a later
change removes the rule, the registrations that stand are in their order, and of the switches to a
rule the last one counts.

The three changes are looked at once, with the place in the list where they happen
(`GraphReasoner.RuleSet.remove_cases`, `GraphReasoner.RuleSet.setActive_cases`). As no two rules
have one identifier, that place is the only one that changes.

* `GraphReasoner.RuleSet.LoadsWhole` – a list of rules is loaded as a whole or not at all;
* `GraphReasoner.RuleSet.Tells` – the set that some changes have left;
* `GraphReasoner.RuleSet.run_exact` – what holds of a rule set after every start and all changes.
-/

namespace GraphReasoner

open GraphReasoner.Time (Instant)

namespace RuleSet

variable {S : Type}

/-! ### The registrations that stand -/

/-- A change of a rule set. -/
inductive Change (S : Type)
  | add (rule : Rule S)
  | remove (id : String)
  | setActive (id : String) (active : Bool) (now : Instant)

namespace Change

/-- Whether a change removes the rule with an identifier. -/
def removes (id : String) : Change S → Bool
  | remove other => other == id
  | _ => false

/-- What a change switches the rule with an identifier to, and when. -/
def switch? (id : String) : Change S → Option (Bool × Instant)
  | setActive other active now => if other = id then some (active, now) else none
  | _ => none

end Change

/-- A rule as the last of some later switches to it left it. -/
def switched (rule : Rule S) (later : List (Change S)) : Rule S :=
  match later.reverse.findSome? (Change.switch? rule.id) with
  | some (active, now) => { rule with active := active, updated := now }
  | none => rule

/-- **The rules that some changes leave**: the registrations that no later change removes, in their
order, each rule as it was switched last. -/
def standing : List (Change S) → List (Rule S)
  | [] => []
  | .add rule :: later =>
    if later.any (Change.removes rule.id) then standing later
    else switched rule later :: standing later
  | _ :: later => standing later

section Standing

variable (done : List (Change S)) (id : String)

theorem id_switched (rule : Rule S) (later : List (Change S)) :
    (switched rule later).id = rule.id := by
  unfold switched
  split <;> rfl

/-- A change that does not switch a rule leaves it as it was switched before. -/
theorem switched_concat_of_none {rule : Rule S} {change : Change S}
    (h : change.switch? rule.id = none) (later : List (Change S)) :
    switched rule (later ++ [change]) = switched rule later := by
  rw [switched, List.reverse_append, List.reverse_singleton, List.singleton_append,
    List.findSome?_cons_of_isNone (by rw [h]; rfl)]
  rfl

theorem switched_concat_setActive (rule : Rule S) (later : List (Change S)) (active : Bool)
    (now : Instant) : switched rule (later ++ [.setActive id active now]) =
      if (switched rule later).id == id then
        { switched rule later with active := active, updated := now }
      else switched rule later := by
  rw [id_switched]
  by_cases hid : rule.id = id
  · have hswitch : (Change.setActive id active now : Change S).switch? rule.id =
        some (active, now) := if_pos hid.symm
    have hlast : switched rule (later ++ [.setActive id active now]) =
        { rule with active := active, updated := now } := by
      simp [switched, hswitch]
    rw [hlast, if_pos (beq_iff_eq.2 hid), switched]
    split <;> rfl
  · have hswitch : (Change.setActive id active now : Change S).switch? rule.id = none :=
      if_neg fun heq => hid heq.symm
    rw [if_neg fun heq => hid (beq_iff_eq.1 heq), switched_concat_of_none hswitch]

/-- **A registration stands** at first, after those that stood before. -/
theorem standing_concat_add (rule : Rule S) :
    standing (done ++ [.add rule]) = standing done ++ [rule] := by
  induction done with
  | nil => rfl
  | cons change done ih =>
    cases change with
    | add first =>
      have hswitch : (Change.add rule).switch? first.id = none := rfl
      rw [List.cons_append, standing, standing, ih, switched_concat_of_none hswitch,
        List.any_append]
      cases done.any (Change.removes first.id) <;> rfl
    | remove id => exact ih
    | setActive id active now => exact ih

/-- **A removal** takes the registrations with its identifier away. -/
theorem standing_concat_remove :
    standing (done ++ [.remove id]) = (standing done).filter fun r => r.id != id := by
  induction done with
  | nil => rfl
  | cons change done ih =>
    cases change with
    | add first =>
      have hswitch : (Change.remove id : Change S).switch? first.id = none := rfl
      have hlast : [(Change.remove id : Change S)].any (Change.removes first.id) =
          (first.id == id) := by
        simp [Change.removes, Bool.beq_comm]
      rw [List.cons_append, standing, standing, ih, switched_concat_of_none hswitch,
        List.any_append, hlast]
      -- the first rule may still stand, and then the last change decides
      rcases done.any (Change.removes first.id) with _ | _
      · rw [if_neg Bool.false_ne_true, List.filter_cons, id_switched, Bool.false_or]
        by_cases hid : first.id = id <;> simp [hid]
      · rfl
    | remove id => exact ih
    | setActive id active now => exact ih

/-- **A switch** is the last one for the registrations with its identifier. -/
theorem standing_concat_setActive (active : Bool) (now : Instant) :
    standing (done ++ [.setActive id active now]) = (standing done).map fun r =>
      if r.id == id then { r with active := active, updated := now } else r := by
  induction done with
  | nil => rfl
  | cons change done ih =>
    cases change with
    | add first =>
      have hlast : [(Change.setActive id active now : Change S)].any (Change.removes first.id) =
          false := rfl
      rw [List.cons_append, standing, standing, ih, switched_concat_setActive, List.any_append,
        hlast, Bool.or_false]
      cases done.any (Change.removes first.id) <;> rfl
    | remove id => exact ih
    | setActive id active now => exact ih

/-- Registrations alone all stand. -/
theorem standing_map_add (rules : List (Rule S)) : standing (rules.map .add) = rules := by
  induction rules using List.reverseRecOn with
  | nil => rfl
  | append_singleton rules rule ih =>
    rw [List.map_append, List.map_singleton, standing_concat_add, ih]

end Standing

/-! ### What a change does -/

section Operations

variable {set set' : RuleSet S} {id : String}

/-- An identifier leads to one place in the list, or it is not there. -/
theorem rule?_cases (h : (set.rules.map Rule.id).Nodup) (id : String) :
    (id ∉ set.rules.map Rule.id ∧ set.rule? id = none) ∨
    ∃ before rule after, set.rules = before ++ rule :: after ∧ rule.id = id ∧
      (∀ r ∈ before ++ after, r.id ≠ id) ∧ set.rule? id = some rule := by
  rcases hfind : set.rule? id with _ | rule
  · refine Or.inl ⟨fun hid => ?_, rfl⟩
    obtain ⟨rule, hrule, hid⟩ := List.mem_map.1 hid
    exact List.find?_eq_none.1 hfind rule hrule (beq_iff_eq.2 hid)
  · have hid : rule.id = id := by simpa using List.find?_some hfind
    obtain ⟨before, after, hrules⟩ := List.append_of_mem (List.mem_of_find?_eq_some hfind)
    refine Or.inr ⟨before, rule, after, hrules, hid, fun r hr heq => ?_, rfl⟩
    rw [hrules, List.map_append, List.map_cons, List.nodup_middle, ← List.map_append] at h
    exact (List.nodup_cons.1 h).1 (List.mem_map.2 ⟨r, hr, heq.trans hid.symm⟩)

/-- **What removing a rule can do**: there is none with the identifier, or it is dropped from its
place. -/
theorem remove_cases (h : (set.rules.map Rule.id).Nodup) (id : String) :
    (id ∉ set.rules.map Rule.id ∧ set.remove id = .error (.unknownRule id)) ∨
    ∃ before rule after, set.rules = before ++ rule :: after ∧ rule.id = id ∧
      (∀ r ∈ before ++ after, r.id ≠ id) ∧
      set.remove id = .ok (rule, { set with rules := before ++ after }) := by
  rcases rule?_cases h id with ⟨hnone, hfind⟩ | ⟨before, rule, after, hrules, hid, hothers, hfind⟩
  · rw [remove, hfind]
    exact Or.inl ⟨hnone, rfl⟩
  · have herase : (before ++ rule :: after).eraseP (fun r => r.id == id) = before ++ after := by
      rw [List.eraseP_append_right _ fun r hr heq =>
        hothers r (List.mem_append_left _ hr) (beq_iff_eq.1 heq)]
      exact congrArg (before ++ ·) (List.eraseP_cons_of_pos (beq_iff_eq.2 hid))
    refine Or.inr ⟨before, rule, after, hrules, hid, hothers, ?_⟩
    rw [remove, hfind, hrules, herase]

/-- **What switching a rule can do**: there is none with the identifier, or it is switched in its
place. -/
theorem setActive_cases (h : (set.rules.map Rule.id).Nodup) (id : String) (active : Bool)
    (now : Instant) :
    (id ∉ set.rules.map Rule.id ∧ set.setActive id active now = .error (.unknownRule id)) ∨
    ∃ before rule after, set.rules = before ++ rule :: after ∧ rule.id = id ∧
      (∀ r ∈ before ++ after, r.id ≠ id) ∧ set.setActive id active now = .ok { set with
        rules := before ++ { rule with active := active, updated := now } :: after } := by
  rcases rule?_cases h id with ⟨hnone, hfind⟩ | ⟨before, rule, after, hrules, hid, hothers, hfind⟩
  · rw [setActive, hfind]
    exact Or.inl ⟨hnone, rfl⟩
  · have hmap : ((before ++ rule :: after).map fun r =>
        if r.id == id then { r with active := active, updated := now } else r) =
          before ++ { rule with active := active, updated := now } :: after := by
      -- no other rule has the identifier
      have hkeep : ∀ rules ⊆ before ++ after, (rules.map fun r =>
          if r.id == id then { r with active := active, updated := now } else r) = rules :=
        fun rules hsub => (List.map_congr_left fun r hr =>
          if_neg fun heq => hothers r (hsub hr) (beq_iff_eq.1 heq)).trans (List.map_id' rules)
      rw [List.map_append, List.map_cons, if_pos (beq_iff_eq.2 hid),
        hkeep before (List.subset_append_left _ _), hkeep after (List.subset_append_right _ _)]
    refine Or.inr ⟨before, rule, after, hrules, hid, hothers, ?_⟩
    rw [setActive, hfind, hrules, hmap]

variable [Scalar S] {rule : Rule S}

/-- Why a rule is refused beside some others: it is invalid, or else its identifier is taken. -/
def Refused (rules : List (Rule S)) (rule : Rule S) (error : ReasonerError S) : Prop :=
  rule.validate = .error error ∨
    rule.validate = .ok () ∧ rule.id ∈ rules.map Rule.id ∧ error = .duplicateRule rule.id

/-- **A rule is refused exactly when it is invalid or its identifier is taken**, and what is wrong
with the rule itself is reported first. -/
theorem add_error_iff {error : ReasonerError S} :
    set.add rule = .error error ↔ Refused set.rules rule error := by
  have htaken : (set.rule? rule.id).isSome = true ↔ rule.id ∈ set.rules.map Rule.id := by
    rw [rule?, List.find?_isSome, List.mem_map]
    simp only [beq_iff_eq]
  rw [add, Refused, ← htaken]
  rcases rule.validate with first | ⟨⟩
  · simp [Bind.bind, Except.bind]
  · rcases set.rule? rule.id with _ | other
    · simp [Bind.bind, Except.bind, pure, Except.pure]
    · simp [Bind.bind, Except.bind, throw, throwThe, MonadExceptOf.throw, eq_comm]

/-! #### Lists of rules -/

theorem ofRules_concat (name : String) (rules : List (Rule S)) (rule : Rule S) :
    ofRules name (rules ++ [rule]) = ofRules name rules >>= fun set => set.add rule := by
  simp only [ofRules, List.foldlM_append, List.foldlM_cons, List.foldlM_nil, bind_pure]

/-- **The rules of a list are registered** when all are valid and no identifier comes up twice. -/
theorem ofRules_eq_ok_iff {name : String} {rules : List (Rule S)} :
    ofRules name rules = .ok set ↔ (∀ r ∈ rules, r.validate = .ok ()) ∧
      (rules.map Rule.id).Nodup ∧ set = ⟨name, rules⟩ := by
  induction rules using List.reverseRecOn generalizing set with
  | nil =>
    have hnil : ofRules name ([] : List (Rule S)) = .ok ⟨name, []⟩ := rfl
    simp [hnil, eq_comm]
  | append_singleton rules rule ih =>
    have hnew : ((rules ++ [rule]).map Rule.id).Nodup ↔
        (rules.map Rule.id).Nodup ∧ ∀ r ∈ rules, r.id ≠ rule.id := by
      simp [List.nodup_append]
    rw [ofRules_concat, bind_eq_ok_iff, List.forall_mem_append, List.forall_mem_singleton, hnew]
    constructor
    · rintro ⟨before, hbefore, hadd⟩
      obtain ⟨hvalid, hids, rfl⟩ := ih.1 hbefore
      obtain ⟨hrule, hother, rfl⟩ := add_eq_ok_iff.1 hadd
      exact ⟨⟨hvalid, hrule⟩, ⟨hids, hother⟩, rfl⟩
    · rintro ⟨⟨hvalid, hrule⟩, ⟨hids, hother⟩, rfl⟩
      exact ⟨_, ih.2 ⟨hvalid, hids, rfl⟩, add_eq_ok_iff.2 ⟨hrule, hother, rfl⟩⟩

/-- **The first rule that is refused beside those before it is reported.** -/
theorem ofRules_error_iff {name : String} {rules : List (Rule S)} {error : ReasonerError S} :
    ofRules name rules = .error error ↔ ∃ before rule after, rules = before ++ rule :: after ∧
      ofRules name before = .ok ⟨name, before⟩ ∧ Refused before rule error := by
  constructor
  · intro herror
    induction rules using List.reverseRecOn with
    | nil => cases herror
    | append_singleton rules rule ih =>
      rw [ofRules_concat] at herror
      -- the rule that is refused is an earlier one, or the last
      rcases hrules : ofRules name rules with first | set <;> rw [hrules] at herror
      · obtain ⟨before, refused, after, rfl, hbefore, hrefused⟩ := ih (hrules.trans herror)
        exact ⟨before, refused, after ++ [rule], by simp, hbefore, hrefused⟩
      · obtain ⟨-, -, rfl⟩ := ofRules_eq_ok_iff.1 hrules
        exact ⟨rules, rule, [], rfl, hrules, add_error_iff.1 herror⟩
  · rintro ⟨before, rule, after, rfl, hbefore, hrefused⟩
    have hadd : RuleSet.add ⟨name, before⟩ rule = .error error := add_error_iff.2 hrefused
    rw [ofRules] at hbefore ⊢
    rw [List.foldlM_append, hbefore]
    simp only [List.foldlM_cons, Bind.bind, Except.bind, hadd]

/-- **A list of rules is loaded as a whole or not at all**: into the set with just these rules when
all are valid and no identifier comes up twice; otherwise the first rule that is refused beside
those before it is reported. -/
structure LoadsWhole (name : String) (rules : List (Rule S)) (loaded : Result S (RuleSet S)) :
    Prop where
  ok_iff : ∀ set, loaded = .ok set ↔ (∀ r ∈ rules, r.validate = .ok ()) ∧
    (rules.map Rule.id).Nodup ∧ set = ⟨name, rules⟩
  error_iff : ∀ error, loaded = .error error ↔ ∃ before rule after,
    rules = before ++ rule :: after ∧ (∀ r ∈ before, r.validate = .ok ()) ∧
      (before.map Rule.id).Nodup ∧ Refused before rule error

theorem loadsWhole_ofRules (name : String) (rules : List (Rule S)) :
    LoadsWhole name rules (ofRules name rules) where
  ok_iff _ := ofRules_eq_ok_iff
  error_iff error := by
    simp only [ofRules_error_iff, ofRules_eq_ok_iff, and_true, and_assoc]

end Operations

/-! ### Runs -/

section Runs

variable [Scalar S]

/-- Makes a change. -/
def change (set : RuleSet S) : Change S → Result S (RuleSet S)
  | .add rule => set.add rule
  | .remove id => (set.remove id).map Prod.snd
  | .setActive id active now => set.setActive id active now

/-- The set after a change, which is the set before it if the change is refused. -/
def after (set : RuleSet S) (c : Change S) : RuleSet S :=
  match set.change c with
  | .ok set' => set'
  | .error _ => set

/-- The set after some changes. -/
def run (set : RuleSet S) (changes : List (Change S)) : RuleSet S :=
  changes.foldl after set

/-- The changes that are accepted. -/
def accepted (set : RuleSet S) : List (Change S) → List (Change S)
  | [] => []
  | c :: changes =>
    match set.change c with
    | .ok set' => c :: accepted set' changes
    | .error _ => accepted set changes

theorem run_concat (set : RuleSet S) (changes : List (Change S)) (c : Change S) :
    set.run (changes ++ [c]) = (set.run changes).after c :=
  List.foldl_concat ..

/-- The last change of some is accepted or refused by the set that the others have left. -/
theorem accepted_concat (set : RuleSet S) (changes : List (Change S)) (c : Change S) :
    set.accepted (changes ++ [c]) = match (set.run changes).change c with
      | .ok _ => set.accepted changes ++ [c]
      | .error _ => set.accepted changes := by
  induction changes generalizing set with
  | nil => simp only [List.nil_append, accepted, run, List.foldl_nil]
  | cons first changes ih =>
    rw [List.cons_append, accepted, accepted, run, List.foldl_cons, after]
    rcases set.change first with error | set'
    · exact ih set
    · simp only
      rw [ih set', run]
      split <;> rfl

/-- **A rule set tells some changes**: it holds the registrations that stand after them, all of them
valid and under different identifiers. -/
structure Tells (set : RuleSet S) (done : List (Change S)) : Prop where
  rules_eq : set.rules = standing done
  ids_nodup : (set.rules.map Rule.id).Nodup
  rules_valid : ∀ r ∈ set.rules, r.validate = .ok ()

section Step

variable {set set' : RuleSet S} {done : List (Change S)}

theorem Tells.add (h : set.Tells done) {rule : Rule S} (hadd : set.add rule = .ok set') :
    set'.Tells (done ++ [.add rule]) where
  rules_eq := by
    obtain ⟨-, -, rfl⟩ := add_eq_ok_iff.1 hadd
    rw [standing_concat_add, ← h.rules_eq]
  ids_nodup := ids_nodup_add h.ids_nodup hadd
  rules_valid := rules_valid_add h.rules_valid hadd

theorem Tells.remove (h : set.Tells done) {id : String} {removed : Rule S}
    (hremove : set.remove id = .ok (removed, set')) : set'.Tells (done ++ [.remove id]) where
  rules_eq := by
    rw [standing_concat_remove, ← h.rules_eq]
    rcases remove_cases h.ids_nodup id with
      ⟨-, herror⟩ | ⟨before, rule, after, hrules, hid, hothers, hok⟩
    · cases herror.symm.trans hremove
    · obtain ⟨-, rfl⟩ := Prod.mk.inj (Except.ok.inj (hremove.symm.trans hok))
      have hkeep : ∀ r ∈ before ++ after, (r.id != id) = true := fun r hr =>
        bne_iff_ne.2 (hothers r hr)
      obtain ⟨hbefore, hafter⟩ := List.forall_mem_append.1 hkeep
      rw [hrules, List.filter_append, List.filter_cons_of_neg (by simp [hid]),
        List.filter_eq_self.2 hbefore, List.filter_eq_self.2 hafter]
  ids_nodup := ids_nodup_remove h.ids_nodup hremove
  rules_valid := rules_valid_remove h.rules_valid hremove

theorem Tells.setActive (h : set.Tells done) {id : String} {active : Bool} {now : Instant}
    (hswitch : set.setActive id active now = .ok set') :
    set'.Tells (done ++ [.setActive id active now]) where
  rules_eq := by
    rw [standing_concat_setActive, ← h.rules_eq]
    rw [setActive_eq_ok hswitch]
  ids_nodup := ids_nodup_setActive h.ids_nodup hswitch
  rules_valid := rules_valid_setActive h.rules_valid hswitch

/-- **Every change that is accepted is told.** -/
theorem Tells.change (h : set.Tells done) {c : Change S} (hc : set.change c = .ok set') :
    set'.Tells (done ++ [c]) := by
  cases c with
  | add rule => exact h.add hc
  | remove id =>
    rw [RuleSet.change] at hc
    rcases hremove : set.remove id with error | ⟨removed, left⟩ <;> rw [hremove] at hc
    · cases hc
    · obtain rfl := Except.ok.inj hc
      exact h.remove hremove
  | setActive id active now => exact h.setActive hc

end Step

/-- **A set that was changed tells the changes that were accepted.** -/
theorem Tells.run {set : RuleSet S} {done : List (Change S)} (h : set.Tells done)
    (changes : List (Change S)) : (set.run changes).Tells (done ++ set.accepted changes) := by
  induction changes using List.reverseRecOn with
  | nil =>
    rw [accepted, List.append_nil]
    exact h
  | append_singleton changes c ih =>
    rw [run_concat, accepted_concat, after]
    rcases hc : (set.run changes).change c with error | set'
    · exact ih
    · rw [← List.append_assoc]
      exact ih.change hc

/-- **What the three changes do to a set, and when they are refused.** -/
structure Obeys (set : RuleSet S) : Prop where
  /-- A rule that is registered comes last. -/
  add_ok : ∀ rule set', set.add rule = .ok set' → set' = { set with rules := set.rules ++ [rule] }
  add_error_iff : ∀ rule error, set.add rule = .error error ↔ Refused set.rules rule error
  /-- A rule that is removed is dropped from its place. -/
  remove_ok : ∀ id removed set', set.remove id = .ok (removed, set') → ∃ before after,
    set.rules = before ++ removed :: after ∧ removed.id = id ∧
      set' = { set with rules := before ++ after }
  remove_error_iff : ∀ id error, set.remove id = .error error ↔
    id ∉ set.rules.map Rule.id ∧ error = .unknownRule id
  /-- A rule that is switched stays in its place, and nothing else about it is new. -/
  setActive_ok : ∀ id active now set', set.setActive id active now = .ok set' →
    ∃ before rule after, set.rules = before ++ rule :: after ∧ rule.id = id ∧ set' =
      { set with rules := before ++ { rule with active := active, updated := now } :: after }
  setActive_error_iff : ∀ id active now error, set.setActive id active now = .error error ↔
    id ∉ set.rules.map Rule.id ∧ error = .unknownRule id
  /-- A change that is refused leaves the set as it was. -/
  unchanged : ∀ c error, set.change c = .error error → set.after c = set

/-- **A set with different identifiers obeys its changes.** -/
theorem obeys {set : RuleSet S} (h : (set.rules.map Rule.id).Nodup) : set.Obeys where
  add_ok rule set' hadd := (add_eq_ok_iff.1 hadd).2.2
  add_error_iff rule error := RuleSet.add_error_iff
  remove_ok id removed set' hremove := by
    rcases remove_cases h id with
      ⟨-, herror⟩ | ⟨before, rule, after, hrules, hid, -, hok⟩
    · cases herror.symm.trans hremove
    · obtain ⟨rfl, rfl⟩ := Prod.mk.inj (Except.ok.inj (hremove.symm.trans hok))
      exact ⟨before, after, hrules, hid, rfl⟩
  remove_error_iff id error := by
    rcases remove_cases h id with ⟨hnone, herror⟩ | ⟨before, rule, after, hrules, hid, -, hok⟩
    · simp [herror, hnone, eq_comm]
    · simp [hok, hrules, hid]
  setActive_ok id active now set' hswitch := by
    rcases setActive_cases h id active now with
      ⟨-, herror⟩ | ⟨before, rule, after, hrules, hid, -, hok⟩
    · cases herror.symm.trans hswitch
    · exact ⟨before, rule, after, hrules, hid, Except.ok.inj (hswitch.symm.trans hok)⟩
  setActive_error_iff id active now error := by
    rcases setActive_cases h id active now with
      ⟨hnone, herror⟩ | ⟨before, rule, after, hrules, hid, -, hok⟩
    · simp [herror, hnone, eq_comm]
    · simp [hok, hrules, hid]
  unchanged c error hc := by
    rw [RuleSet.after, hc]

end Runs

/-! ### Ways to start -/

section Start

variable [Numeral S]

/-- A way to come by a rule set. -/
inductive Start
  | empty (name : String)
  | builtin (now : Instant)
  | json (text source : String) (now : Instant)
  | toml (text source : String) (now : Instant)

namespace Start

/-- The name of the set. -/
def name : Start → String
  | empty name => name
  | builtin _ => "builtin"
  | json _ source _ => source
  | toml _ source _ => source

/-- The rules to begin with, unless there is a text that cannot be read. -/
def rules? : Start → Option (List (Rule S))
  | empty _ => some []
  | builtin now => some (RuleSet.builtin now).rules
  | json text _ now => (Json.read text).bind (Json.asList (Rule.ofJson? Json.strict now))
  | toml text _ now => do
    let fields ← (← Toml.read text).fields? Json.relaxed ["rules"]
    fields.withDefault "rules" [] (Json.asList (Rule.ofJson? Json.relaxed now))

/-- The set that is come by. -/
def load : Start → Result S (RuleSet S)
  | empty name => .ok (.empty name)
  | builtin now => .ok (.builtin now)
  | json text source now => ofJsonText text source now
  | toml text source now => ofTomlText text source now

/-- **The rules to begin with are registered**, one after another, whatever the way. -/
theorem load_eq (hfactors : FactorsInRange S) (start : Start) : start.load (S := S) =
    match start.rules? (S := S) with
    | some rules => ofRules start.name rules
    | none => .error (.ruleText start.name) := by
  cases start with
  | empty name => rfl
  | builtin now =>
    exact (ofRules_eq_ok_iff.2 ⟨builtin_valid hfactors now, builtin_ids_nodup now, rfl⟩).symm
  | json text source now => rfl
  | toml text source now => rfl

end Start

/-- **Rule sets stay valid.** However a set was come by, its rules were loaded as a whole. After any
changes, accepted or refused, it holds the registrations that stand, in their order, all of them
valid and under different identifiers; each further change does what it says at one place, or is
refused for the reason it has to be and changes nothing; and a step of composition applies the
active ones among the registrations that stand, in their order. -/
theorem run_exact (hfactors : FactorsInRange S) :
    (∀ start : Start, match start.rules? (S := S) with
      | some rules => LoadsWhole start.name rules start.load
      | none => start.load (S := S) = .error (.ruleText start.name)) ∧
    ∀ (start : Start) (set : RuleSet S), start.load = .ok set → ∀ changes,
      let done := set.rules.map .add ++ set.accepted changes
      let now := set.run changes
      now.Tells done ∧ now.Obeys ∧
      (∀ calls, let g := Graph.grow Graph.empty calls
        (now.inferGraph g).Exact ((standing done).filter Rule.active) g.relations) ∧
      ∀ relations g, Graph.ofRelations relations = .ok g →
        ∃ d, now.infer relations = .ok d ∧
          d.Alike (fun e e' => e.id = e'.id) (now.inferGraph g) := by
  constructor
  · intro start
    have hload := start.load_eq hfactors
    rcases hrules : start.rules? (S := S) with _ | rules <;> rw [hrules] at hload
    · exact hload
    · exact hload ▸ loadsWhole_ofRules start.name rules
  · intro start set hstart changes done now
    have hload := start.load_eq hfactors
    rw [hstart] at hload
    have htells : set.Tells (set.rules.map .add) := by
      rcases hrules : start.rules? (S := S) with _ | rules <;> rw [hrules] at hload
      · cases hload
      · obtain ⟨hvalid, hids, rfl⟩ := ofRules_eq_ok_iff.1 hload.symm
        exact ⟨(standing_map_add rules).symm, hids, hvalid⟩
    have hnow : now.Tells done := htells.run changes
    refine ⟨hnow, obeys hnow.ids_nodup, fun calls => ?_, fun relations g hg => ?_⟩
    · rw [← hnow.rules_eq]
      exact Derivation.exact_foldl (Graph.tells_grow calls).resolves now.active
    · exact infer_alike now hg _ fun _ _ _ _ hid => hid

/-- Changes of the built-in rules, of which the first and the last two are refused. -/
def sampleChanges : List (Change Float) :=
  [.add (Rule.make "transitive-is-a" "a" "b" "c" 0.5 ⟨1, 0⟩),
    .setActive "cause-effect-chain" false ⟨2, 0⟩,
    .remove "transitive-is-a",
    .add (Rule.make "transitive-is-a" "a" "b" "c" 0.5 ⟨3, 0⟩),
    .remove "temporal-chain",
    .add (Rule.make "whole" "a" "b" "c" 1.5 ⟨4, 0⟩)]

/-- A rule that was removed and registered again comes last. -/
theorem run_exact_sampleChanges :
    let set : RuleSet Float := builtin ⟨0, 0⟩
    let now := set.run sampleChanges
    FactorsInRange Float ∧ now.Tells (set.rules.map .add ++ set.accepted sampleChanges) ∧
      (set.accepted sampleChanges).length = 3 ∧
      (now.rules.map fun r => (r.id, r.active)) =
        [("transitive-part-of", true), ("cause-effect-chain", false), ("dependency-chain", true),
          ("location-containment", true), ("temporal-sequence", true),
          ("transitive-is-a", true)] := by
  have hfactors : FactorsInRange Float := by
    unfold FactorsInRange
    decide +kernel
  obtain ⟨htells, -⟩ := (run_exact hfactors).2 (.builtin ⟨0, 0⟩) _ rfl sampleChanges
  exact ⟨hfactors, htells, by decide +kernel, by decide +kernel⟩

end Start

end RuleSet

end GraphReasoner
