import GraphReasoner.Proofs.Chain.LayerPaths
import GraphReasoner.Proofs.Chain.Valid
import GraphReasoner.Proofs.Table
import Mathlib.Order.Bounds.Defs

/-!
# Evidence along a chain

An evidenced relation keeps its evidence twice, as a set and as the keys of its scores. The two are
written side by side wherever evidence is added, and never one without the other, so they agree in
every evidenced relation there is (`GraphReasoner.Evidenced.Balanced`): in those that are made, in
those that are inferred from them, and in those that are inferred from inferred ones.

Merging takes the scores of a step one entry at a time. What it comes to is seen best on the entries
of all steps in one list: the table that is left gives each piece of evidence its greatest score
among them (`GraphReasoner.Evidenced.Best`), whatever the order of the steps.

* `GraphReasoner.Evidenced.infer_merged` – what the chains of a layer yield.
-/

namespace GraphReasoner

namespace Evidenced

open ExactScalar (value)

variable {S : Type} [Scalar S]

/-! ### Evidence and scores in step -/

/-- **Evidence and scores are in step**: the keys of the scores are the evidence, and all numbers
lie in the unit interval. -/
structure Balanced (e : Evidenced S) : Prop where
  ordered : e.scores.Ordered
  keys_eq : e.scores.keys = e.evidence.toList
  scores_inUnit : ∀ id s, e.scores.get? id = some s → Scalar.InUnit s
  inUnit : Scalar.InUnit e.probability

theorem Balanced.mem_evidence_iff {e : Evidenced S} (h : e.Balanced) {id : String} :
    id ∈ e.evidence.toList ↔ ∃ s, e.scores.get? id = some s := by
  rw [← h.keys_eq, Table.mem_keys_iff]

/-- A score of the unit interval keeps them in step. -/
theorem Balanced.score {e e' : Evidenced S} {id : String} {s : S} (h : e.Balanced)
    (hscore : e.score id s = .ok e') : e'.Balanced := by
  obtain ⟨⟨⟩, hcheck, hscored⟩ := bind_eq_ok_iff.1 hscore
  obtain rfl := Except.ok.inj hscored
  refine ⟨h.ordered.insert id s, Table.keys_insert_congr h.keys_eq, fun other s' hs' => ?_,
    h.inUnit⟩
  rw [Table.get?_insert] at hs'
  split at hs'
  · obtain rfl := Option.some.inj hs'
    exact checkProbability_eq_ok hcheck
  · exact h.scores_inUnit other s' hs'

theorem Balanced.withScores {e e' : Evidenced S} {scores : List (String × S)} (h : e.Balanced)
    (hscores : e.withScores scores = .ok e') : e'.Balanced := by
  induction scores generalizing e with
  | nil =>
    obtain rfl := Except.ok.inj hscores
    exact h
  | cons first scores ih =>
    obtain ⟨scored, hfirst, hrest⟩ := bind_eq_ok_iff.1 ((List.foldlM_cons ..).symm.trans hscores)
    exact ih (h.score hfirst) hrest

/-! ### The evidence of a chain -/

/-- The score that stays when another one comes. -/
def better (old : Option S) (s : S) : S :=
  match old with
  | some old => Scalar.greater old s
  | none => s

/-- Merging a score enters the better one. -/
theorem mergeScores_cons (t step : Table S) (id : String) (s : S) :
    mergeScores t ((id, s) :: step) = mergeScores (t.insert id (better (t.get? id) s)) step := by
  rw [mergeScores, List.foldl_cons, ← mergeScores]
  congr 1
  rcases hold : t.get? id with _ | old <;> simp [hold, better]

/-- Merging scores adds the keys that uniting the evidence adds. -/
theorem keys_mergeScores {t step : Table S} {ids evidence : TextSet} (ht : t.keys = ids.toList)
    (hstep : step.keys = evidence.toList) :
    (mergeScores t step).keys = (ids.union evidence).toList := by
  rw [TextSet.union, show Table.keys evidence = step.keys from hstep.symm]
  clear hstep
  induction step generalizing t ids with
  | nil => exact ht
  | cons entry step ih =>
    obtain ⟨id, s⟩ := entry
    rw [mergeScores_cons]
    exact ih (Table.keys_insert_congr ht)

/-- Along a chain the scores stay in step with the evidence. -/
theorem keys_foldl_mergeScores {chain : List (Evidenced S)} (hchain : ∀ step ∈ chain, step.Balanced)
    {t : Table S} {ids : TextSet} (ht : t.keys = ids.toList) :
    (chain.foldl (fun scores e => mergeScores scores e.scores) t).keys =
      (chain.foldl (fun ids e => ids.union e.evidence) ids).toList := by
  induction chain generalizing t ids with
  | nil => exact ht
  | cons step chain ih =>
    obtain ⟨hstep, hchain⟩ := List.forall_mem_cons.1 hchain
    exact ih hchain (keys_mergeScores ht hstep.keys_eq)

omit [Scalar S] in
/-- The evidence of a chain is that of its steps. -/
theorem mem_foldl_union {chain : List (Evidenced S)} {ids : TextSet} {id : String} :
    id ∈ (chain.foldl (fun ids e => ids.union e.evidence) ids).toList ↔
      id ∈ ids.toList ∨ ∃ step ∈ chain, id ∈ step.evidence.toList := by
  induction chain generalizing ids with
  | nil => simp
  | cons step chain ih =>
    rw [List.foldl_cons, ih, TextSet.mem_union, or_assoc]
    simp only [List.exists_mem_cons_iff]

/-! ### The best scores -/

/-- **A table holds the best of some entries** when it gives every key of theirs the greatest of its
values, and has no other key. -/
structure Best (entries : List (String × S)) (t : Table S) : Prop where
  ordered : t.Ordered
  mem : ∀ id s, t.get? id = some s → (id, s) ∈ entries
  le : ∀ id s, (id, s) ∈ entries → ∃ best, t.get? id = some best ∧ s ≤ best

theorem best_nil : Best ([] : List (String × S)) [] :=
  ⟨List.Pairwise.nil, nofun, nofun⟩

variable [ExactScalar S]

/-- The better score is one of the two, and at least as great as both. -/
theorem better_spec (old : Option S) (s : S) :
    (better old s = s ∨ old = some (better old s)) ∧ s ≤ better old s ∧
      ∀ s' ∈ old, s' ≤ better old s := by
  rcases old with _ | old
  · exact ⟨Or.inl rfl, ExactScalar.le_self s, nofun⟩
  · obtain ⟨hold, hs⟩ := ExactScalar.le_greater (x := old) (y := s)
    refine ⟨?_, hs, fun s' hs' => Option.some.inj hs' ▸ hold⟩
    exact (ite_eq_or_eq _ s old).imp_right fun h => congrArg some h.symm

/-- One more entry. -/
theorem Best.add {entries : List (String × S)} {t : Table S} (h : Best entries t) (id : String)
    (s : S) : Best (entries ++ [(id, s)]) (t.insert id (better (t.get? id) s)) := by
  obtain ⟨hone, hnew, hold⟩ := better_spec (t.get? id) s
  refine ⟨h.ordered.insert _ _, fun id' s' hs' => ?_, fun id' s' hs' => ?_⟩
  · rw [List.mem_append, List.mem_singleton]
    rw [Table.get?_insert] at hs'
    split at hs'
    · rename_i heq
      obtain rfl := heq
      obtain rfl := Option.some.inj hs'
      exact hone.symm.imp (h.mem id _) fun heq => by rw [heq]
    · exact Or.inl (h.mem id' s' hs')
  · rw [Table.get?_insert]
    rcases List.mem_append.1 hs' with hbefore | hlast
    · obtain ⟨best, hbest, hle⟩ := h.le id' s' hbefore
      split
      · rename_i heq
        obtain rfl := heq
        exact ⟨_, rfl, ExactScalar.le_trans hle (hold best hbest)⟩
      · exact ⟨best, hbest, hle⟩
    · obtain ⟨rfl, rfl⟩ := Prod.mk.inj (List.mem_singleton.1 hlast)
      exact ⟨_, if_pos rfl, hnew⟩

/-- **Merging takes the best of all entries.** -/
theorem Best.merge {entries : List (String × S)} {t : Table S} (h : Best entries t)
    (step : Table S) : Best (entries ++ step) (mergeScores t step) := by
  induction step generalizing entries t with
  | nil =>
    rw [List.append_nil]
    exact h
  | cons entry step ih =>
    obtain ⟨id, s⟩ := entry
    rw [mergeScores_cons, List.append_cons]
    exact ih (h.add id s)

/-- Along a chain the best of the entries of all steps is kept. -/
theorem Best.foldl {entries : List (String × S)} {t : Table S} (h : Best entries t)
    (chain : List (Evidenced S)) : Best (entries ++ chain.flatMap scores)
      (chain.foldl (fun scores e => mergeScores scores e.scores) t) := by
  induction chain generalizing entries t with
  | nil =>
    rw [List.flatMap_nil, List.append_nil]
    exact h
  | cons step chain ih =>
    rw [List.flatMap_cons, ← List.append_assoc]
    exact ih (h.merge step.scores)

/-! ### Evidenced relations that are produced -/

/-- **The evidenced relations that can be produced**: made, given scores, or inferred from a layer
of such relations. -/
inductive Produced : Evidenced S → Prop
  | made {e : Evidenced S} (h : e.Made) : Produced e
  | withScores {e e' : Evidenced S} {scores : List (String × S)} (before : Produced e)
    (h : e.withScores scores = .ok e') : Produced e'
  | infer {layer : Layer (Evidenced S)} {settings : ChainSettings S} {source target : Entity S}
    {kind : String} {e : Evidenced S} (filled : ∀ link ∈ layer.links, Produced link.2)
    (h : e ∈ infer layer settings source target kind) : Produced e

/-- New evidence has score one. -/
theorem balanced_of_make {r : Relation S} {probability : S} {evidence : List String}
    {e : Evidenced S} (h : make r probability evidence = .ok e) : e.Balanced := by
  obtain ⟨_, -, hchecked⟩ := bind_eq_ok_iff.1 h
  obtain ⟨⟨⟩, -, hmade⟩ := bind_eq_ok_iff.1 hchecked
  have hprobability := inUnit_of_make h
  obtain rfl := Except.ok.inj hmade
  have hordered := TextSet.ordered_ofList evidence
  refine ⟨List.pairwise_map.2 (List.pairwise_map.2 hordered), ?_, fun id s hs => ?_, hprobability⟩
  · simp [Table.keys, TextSet.toList]
  · obtain ⟨_, -, hone⟩ := List.mem_map.1 (Table.mem_of_get? hs)
    rw [← (Prod.mk.inj hone).2]
    exact ExactScalar.inUnit_one

theorem Made.balanced {e : Evidenced S} (h : e.Made) : e.Balanced := by
  induction h with
  | make made => exact balanced_of_make made
  | withScores _ made ih => exact ih.withScores made
  | ofRelation made =>
    obtain ⟨probability, -, hmade⟩ := Option.map_eq_some_iff.1 made
    obtain ⟨evidence, -, hmade⟩ := bind_eq_ok_iff.1 hmade
    exact balanced_of_make hmade

variable {source target : Entity S} {kind : String} {chain : List (Evidenced S)}

section Chain

variable (hchain : ∀ step ∈ chain, step.Balanced)
include hchain

/-- **A score of a chain is the greatest one that a step gives.** -/
theorem isGreatest_of_conclude {id : String} {s : S}
    (hs : (conclude source target kind chain).scores.get? id = some s) :
    IsGreatest {s | ∃ step ∈ chain, step.scores.get? id = some s} s := by
  have hbest : Best (chain.flatMap scores) (conclude source target kind chain).scores :=
    best_nil.foldl chain
  have hentries : ∀ s', (id, s') ∈ chain.flatMap scores ↔
      ∃ step ∈ chain, step.scores.get? id = some s' := fun s' => by
    rw [List.mem_flatMap]
    exact exists_congr fun step => and_congr_right fun hstep => (hchain step hstep).ordered.mem_iff
  refine ⟨(hentries s).1 (hbest.mem id s hs), fun s' hs' => ?_⟩
  obtain ⟨best, hbest', hle⟩ := hbest.le id s' ((hentries s').2 hs')
  obtain rfl := Option.some.inj (hs.symm.trans hbest')
  exact hle

theorem balanced_conclude : (conclude source target kind chain).Balanced where
  ordered := (best_nil.foldl chain).ordered
  keys_eq := keys_foldl_mergeScores hchain rfl
  scores_inUnit := fun id s hs => by
    obtain ⟨⟨step, hstep, hgives⟩, -⟩ := isGreatest_of_conclude hchain hs
    exact (hchain step hstep).scores_inUnit id s hgives
  inUnit := by
    refine ExactScalar.inUnit_product fun x hx => ?_
    obtain ⟨step, hstep, rfl⟩ := List.mem_map.1 hx
    exact (hchain step hstep).inUnit

end Chain

/-- **Whatever is produced has its scores in step with its evidence.** -/
theorem Produced.balanced {e : Evidenced S} (h : e.Produced) : e.Balanced := by
  induction h with
  | made h => exact h.balanced
  | withScores _ h ih => exact ih.withScores h
  | infer _ h ih =>
    obtain ⟨chain, hchain, rfl⟩ := List.mem_map.1 h
    exact balanced_conclude (Layer.of_mem_paths ih (List.mem_filter.1 hchain).1)

/-! ### What a chain yields -/

/-- **What a chain yields** between two entities. -/
structure Concludes (source target : Entity S) (kind : String) (chain : List (Evidenced S))
    (e : Evidenced S) : Prop where
  source_eq : e.relation.source = source
  target_eq : e.relation.target = target
  kind_eq : e.relation.kind = kind
  probability : value e.probability = (chain.map fun step => value step.probability).prod
  confidence : e.relation.confidence = e.probability
  path_length : e.relation.properties.get? "path_length" = some (.ofNat chain.length)
  evidence : ∀ id, id ∈ e.evidence.toList ↔ ∃ step ∈ chain, id ∈ step.evidence.toList
  scores : ∀ id ∈ e.evidence.toList, ∃ s, e.scores.get? id = some s ∧
    IsGreatest {s | ∃ step ∈ chain, step.scores.get? id = some s} s

theorem value_chainProbability (chain : List (Evidenced S)) :
    value (chainProbability chain) = (chain.map fun step => value step.probability).prod := by
  rw [chainProbability, ExactScalar.value_product, List.map_map]
  rfl

theorem concludes_conclude (hchain : ∀ step ∈ chain, step.Balanced) :
    Concludes source target kind chain (conclude source target kind chain) where
  source_eq := rfl
  target_eq := rfl
  kind_eq := rfl
  probability := value_chainProbability chain
  confidence := rfl
  path_length := Table.get?_ofList_concat [_, _] "path_length" _
  evidence := fun id => by
    rw [conclude, mem_foldl_union]
    simp [TextSet.toList, Table.keys]
  scores := fun id hid => by
    obtain ⟨s, hs⟩ := (balanced_conclude hchain).mem_evidence_iff.1 hid
    exact ⟨s, hs, isGreatest_of_conclude hchain hs⟩

/-- **Inference from probabilities is exact**, for every layer that is filled with relations that
can be produced. It yields one relation for each simple path, of as many steps as the settings
allow, whose product reaches the threshold, and they come in the order of the paths. Whatever is
produced, what is inferred included, has its scores in step with its evidence. -/
theorem infer_merged :
    (∀ e : Evidenced S, e.Produced → e.Balanced) ∧
    ∀ layer : Layer (Evidenced S), layer.FilledWith Produced →
      ∀ (settings : ChainSettings S) (source target : Entity S) (kind : String),
      ∃ ways : List (List String), (ways.map (List.map layer.placeOf)).Pairwise (· < ·) ∧
        (∀ way, way ∈ ways ↔ ∃ chain,
          layer.Carries source.id target.id settings.maxPathLength way chain ∧
          value settings.probabilityThreshold ≤
            (chain.map fun step => value step.probability).prod) ∧
        List.Forall₂ (fun way e => ∃ chain,
            layer.Carries source.id target.id settings.maxPathLength way chain ∧
              Concludes source target kind chain e)
          ways (infer layer settings source target kind) := by
  refine ⟨fun e he => he.balanced, fun layer hlayer settings source target kind => ?_⟩
  obtain ⟨ways, hsorted, hmem, hyields⟩ := hlayer.exists_ways source.id target.id
    settings.maxPathLength (fun chain => ¬chainProbability chain < settings.probabilityThreshold)
    (fun chain => some (conclude source target kind chain))
  refine ⟨ways, hsorted, fun way => ?_, ?_⟩
  · rw [hmem]
    refine exists_congr fun chain => and_congr_right fun _ => ?_
    rw [Option.isSome_some, and_iff_left rfl, ExactScalar.lt_iff, value_chainProbability, not_lt]
  · rw [infer, ← List.filterMap_eq_map]
    refine hyields.imp ?_
    rintro way e ⟨chain, hcarries, -, he⟩
    obtain rfl := Option.some.inj he
    have hbalanced : ∀ step ∈ chain, step.Balanced := fun step hstep =>
      (hlayer.of_carries hcarries step hstep).balanced
    exact ⟨chain, hcarries, concludes_conclude hbalanced⟩

open TwoSteps in
/-- Two steps whose product just reaches the threshold share a piece of evidence, and the second of
them gives it the greater score. -/
theorem infer_merged_twoSteps :
    let first : Evidenced Fraction := ⟨edge "A" "B", 0.8, .ofList ["d"], [("d", 0.4)]⟩
    let second : Evidenced Fraction :=
      ⟨edge "B" "C", 0.75, .ofList ["d", "x"], [("d", 0.7), ("x", 0.2)]⟩
    ∃ e, infer (layer first second) .default (entity "A") (entity "C") "is_a" = [e] ∧
      Concludes (entity "A") (entity "C") "is_a" [first, second] e ∧ e.Balanced ∧
      e.scores = [("d", 0.7), ("x", 0.2)] := by
  intro first second
  have hfirst : (make (edge "A" "B") 0.8 ["d"] >>= fun e => e.withScores [("d", 0.4)]) =
      .ok first := by with_unfolding_all rfl
  have hsecond : (make (edge "B" "C") 0.75 [] >>= fun e =>
      e.withScores [("d", 0.7), ("x", 0.2)]) = .ok second := by with_unfolding_all rfl
  obtain ⟨e₁, hmake₁, hscores₁⟩ := bind_eq_ok_iff.1 hfirst
  obtain ⟨e₂, hmake₂, hscores₂⟩ := bind_eq_ok_iff.1 hsecond
  have hlayer : (layer first second).FilledWith Produced :=
    (Layer.FilledWith.empty.insert "A" "B" (.made (.withScores (.make hmake₁) hscores₁))).insert
      "B" "C" (.made (.withScores (.make hmake₂) hscores₂))
  obtain ⟨hbalanced, hinfer⟩ := infer_merged (S := Fraction)
  obtain ⟨ways, -, hmem, hways⟩ := hinfer _ hlayer .default (entity "A") (entity "C") "is_a"
  have hcarries : (layer first second).Carries "A" "C" 5 ["A", "B", "C"] [first, second] :=
    ⟨rfl, rfl, by decide, .cons rfl (.cons rfl .nil), nofun, by decide⟩
  have hreaches : value (ChainSettings.default : ChainSettings Fraction).probabilityThreshold ≤
      ([first, second].map fun step => value step.probability).prod := by
    change value (0.6 : Fraction) ≤ [value (0.8 : Fraction), value (0.75 : Fraction)].prod
    simp only [ExactScalar.value_ofScientific, List.prod_cons, List.prod_nil]
    norm_num
  have hway : ["A", "B", "C"] ∈ ways := (hmem _).2 ⟨_, hcarries, hreaches⟩
  have hone : (infer (layer first second) .default (entity "A") (entity "C") "is_a").map scores =
      [[("d", 0.7), ("x", 0.2)]] := by
    decide +kernel
  obtain ⟨e, he, hscores⟩ := List.map_eq_singleton_iff.1 hone
  have hin : e ∈ infer (layer first second) .default (entity "A") (entity "C") "is_a" := by
    rw [he]
    exact List.mem_singleton_self e
  rw [he] at hways
  obtain ⟨chain, hchain, he'⟩ := of_forall₂_singleton hways hway
  obtain rfl := hcarries.unique hchain
  exact ⟨e, he, he', hbalanced e (.infer hlayer.of_mem_links hin), hscores⟩

end Evidenced

end GraphReasoner
