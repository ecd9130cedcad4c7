import GraphReasoner.Json.Reader
import GraphReasoner.Rule.Basic
import GraphReasoner.Toml.Reader

/-!
# Rule sets

A rule set is a list of valid rules with different identifiers, in the order in which they were
registered. The three ways to change it keep that, and a change that is refused leaves the set as it
was.

* `GraphReasoner.RuleSet.add`, `GraphReasoner.RuleSet.remove`, `GraphReasoner.RuleSet.setActive`;
* `GraphReasoner.RuleSet.builtin` – the six rules that hold without a rule file;
* `GraphReasoner.RuleSet.ofJsonText`, `GraphReasoner.RuleSet.ofTomlText` – the rules of a file,
  which is either a JSON array of rules or a TOML document with a list of them under `rules`.
-/

namespace GraphReasoner

open GraphReasoner.Time (Instant)

/-- An ordered collection of rules. -/
structure RuleSet (S : Type) where
  /-- Where the rules come from. -/
  name : String
  /-- The rules, in the order of registration. -/
  rules : List (Rule S)

namespace RuleSet

variable {S : Type}

/-- The set without rules. -/
def empty (name : String) : RuleSet S :=
  ⟨name, []⟩

/-- The rule with an identifier. -/
def rule? (set : RuleSet S) (id : String) : Option (Rule S) :=
  set.rules.find? fun r => r.id == id

/-- The rules that are applied, in the order of registration. -/
def active (set : RuleSet S) : List (Rule S) :=
  set.rules.filter Rule.active

/-- Registers a valid rule with a new identifier. -/
def add [Scalar S] (set : RuleSet S) (r : Rule S) : Result S (RuleSet S) := do
  r.validate
  match set.rule? r.id with
  | some _ => throw (.duplicateRule r.id)
  | none => return { set with rules := set.rules ++ [r] }

/-- Removes the rule with an identifier, and tells which it was. -/
def remove (set : RuleSet S) (id : String) : Result S (Rule S × RuleSet S) :=
  match set.rule? id with
  | some r => .ok (r, { set with rules := set.rules.eraseP fun r => r.id == id })
  | none => .error (.unknownRule id)

/-- Switches a rule on or off at a time. -/
def setActive (set : RuleSet S) (id : String) (active : Bool) (now : Instant) :
    Result S (RuleSet S) :=
  match set.rule? id with
  | some _ =>
    .ok { set with rules := set.rules.map fun r =>
      if r.id == id then { r with active := active, updated := now } else r }
  | none => .error (.unknownRule id)

/-- Registers the rules of a list in turn. -/
def ofRules [Scalar S] (name : String) (rules : List (Rule S)) : Result S (RuleSet S) :=
  rules.foldlM add (empty name)

/-- The rules that hold without a rule file. -/
def builtin [Scalar S] (now : Instant) : RuleSet S :=
  let rule (id name description first second conclusion : String) (factor : S) : Rule S :=
    { Rule.make id first second conclusion factor now with name, description }
  { name := "builtin"
    rules :=
      [rule "transitive-is-a" "Transitive is-a" "A is a B and B is a C, so A is a C"
          "is_a" "is_a" "is_a" 0.9,
        rule "transitive-part-of" "Transitive part-of"
          "A is part of B and B is part of C, so A is part of C"
          "part_of" "part_of" "part_of" 0.9,
        rule "cause-effect-chain" "Cause-effect chain" "A causes B and B causes C, so A causes C"
          "causes" "causes" "causes" 0.8,
        rule "dependency-chain" "Dependency chain"
          "A depends on B and B depends on C, so A depends on C"
          "depends_on" "depends_on" "depends_on" 0.8,
        rule "location-containment" "Location containment"
          "A is located in B and B contains C, so A is located in C"
          "located_in" "contains" "located_in" 0.85,
        rule "temporal-sequence" "Temporal sequence"
          "A happens before B and B before C, so A happens before C"
          "happens_before" "happens_before" "happens_before" 0.9] }

/-- The rules of a JSON text. -/
def ofJsonText [Numeral S] (text source : String) (now : Instant) : Result S (RuleSet S) :=
  match (Json.read text).bind (Json.asList (Rule.ofJson? Json.strict now)) with
  | some rules => ofRules source rules
  | none => .error (.ruleText source)

/-- The rules of a TOML text. -/
def ofTomlText [Numeral S] (text source : String) (now : Instant) : Result S (RuleSet S) :=
  let rules? : Option (List (Rule S)) := do
    let fields ← (← Toml.read text).fields? Json.relaxed ["rules"]
    fields.withDefault "rules" [] (Json.asList (Rule.ofJson? Json.relaxed now))
  match rules? with
  | some rules => ofRules source rules
  | none => .error (.ruleText source)

end RuleSet

end GraphReasoner
