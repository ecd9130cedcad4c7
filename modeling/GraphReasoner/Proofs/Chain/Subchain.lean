import GraphReasoner.Proofs.Chain.Evidence

/-!
# Parts of an accepted chain

A chain of probabilities is accepted when it runs along a simple path that is short enough and its
product reaches the threshold. A part of it runs along a part of the path, which is simple and no
longer. Its product is that of fewer numbers of the unit interval, and so is no less: a threshold
that the whole chain reaches, every part of it reaches. Hence accepted chains are closed under
taking parts, whatever the ends of the part (`GraphReasoner.Evidenced.infer_part`).
-/

namespace GraphReasoner

/-! ### Parts of a path -/

namespace Path

variable {α : Type}

theorem pairs_drop (path : List α) (n : Nat) : pairs (path.drop n) = (pairs path).drop n := by
  rw [pairs, pairs, List.zip_eq_zipWith, List.zip_eq_zipWith, List.drop_zipWith, List.drop_drop,
    List.drop_drop, Nat.add_comm]

/-- The steps between the first nodes of a path are its first steps, one fewer than there are
nodes. -/
theorem pairs_take (path : List α) (n : Nat) :
    pairs (path.take (n + 1)) = (pairs path).take n := by
  induction path generalizing n with
  | nil => rw [List.take_nil, pairs, List.zip_nil_left, List.take_nil]
  | cons u path ih =>
    cases n with
    | zero => rfl
    | succ n =>
      rcases path with _ | ⟨v, path⟩
      · rfl
      · have hstep := ih n
        rw [List.take_succ_cons] at hstep
        rw [List.take_succ_cons, List.take_succ_cons]
        exact congrArg ((u, v) :: ·) hstep

theorem pairs_extract (path : List α) (i j : Nat) (hij : i ≤ j) :
    pairs (path.extract i (j + 1)) = (pairs path).extract i j := by
  rw [List.extract_eq_take_drop, List.extract_eq_take_drop, Nat.succ_sub hij, pairs_take,
    pairs_drop]

end Path

namespace Layer

variable {P : Type} {layer : Layer P} {source target : String} {hops : Nat} {way : List String}
  {chain : List P}

/-- **A part of a path carries the part of the chain** that goes with it. -/
theorem Carries.extract (h : layer.Carries source target hops way chain) {i j : Nat} (hij : i < j)
    {first last : String} (hfirst : way[i]? = some first) (hlast : way[j]? = some last) :
    layer.Carries first last hops (way.extract i (j + 1)) (chain.extract i j) := by
  have hj : j < way.length := (List.getElem?_eq_some_iff.1 hlast).1
  have hlength : chain.length = way.length - 1 := by
    rw [← h.steps.length_eq, Path.length_pairs]
  have hpart : (chain.extract i j).length = j - i := by
    rw [List.extract_eq_take_drop, List.length_take, List.length_drop]
    omega
  constructor
  · rw [List.extract_eq_take_drop, List.head?_take, if_neg (by omega), List.head?_drop, hfirst]
  · have hplace : i + (j + 1 - i - 1) = j := by omega
    rw [List.extract_eq_take_drop, List.getLast?_take, if_neg (by omega), List.getElem?_drop,
      hplace, hlast]
    rfl
  · rw [List.extract_eq_take_drop]
    exact h.nodup.sublist ((List.take_sublist _ _).trans (List.drop_sublist _ _))
  · rw [Path.pairs_extract way i j hij.le, List.extract_eq_take_drop, List.extract_eq_take_drop]
    exact List.forall₂_take _ (List.forall₂_drop _ h.steps)
  · refine List.ne_nil_of_length_pos ?_
    omega
  · have hle := h.length_le
    omega

end Layer

/-! ### Accepted chains -/

namespace Evidenced

variable {S : Type} [Scalar S]

/-- **A chain is accepted** along a path from one identifier to another when the path carries it, is
no longer than the settings allow, and the product of the chain reaches the threshold. -/
structure Accepted (layer : Layer (Evidenced S)) (settings : ChainSettings S)
    (source target : String) (way : List String) (chain : List (Evidenced S)) : Prop where
  carries : layer.Carries source target settings.maxPathLength way chain
  reaches : ¬chainProbability chain < settings.probabilityThreshold

section Accepted

variable {layer : Layer (Evidenced S)} {settings : ChainSettings S}

/-- **What is inferred** is what the accepted chains yield. -/
theorem mem_infer_iff {made : Evidenced S → Prop} (hlayer : layer.FilledWith made)
    {source target : Entity S} {kind : String} {e : Evidenced S} :
    e ∈ infer layer settings source target kind ↔ ∃ way chain,
      Accepted layer settings source.id target.id way chain ∧
        e = conclude source target kind chain := by
  have hpath : ∀ chain, chain ∈ layer.paths source.id target.id settings.maxPathLength ↔
      ∃ way, layer.Carries source.id target.id settings.maxPathLength way chain := fun chain => by
    rw [hlayer.paths_eq, List.mem_filterMap]
    constructor
    · rintro ⟨way, hway, halong⟩
      obtain ⟨chain', hcarries⟩ := hlayer.mem_simplePaths_iff.1 hway
      obtain rfl := Option.some.inj (halong.symm.trans hcarries.along?_eq)
      exact ⟨way, hcarries⟩
    · rintro ⟨way, hcarries⟩
      exact ⟨way, hlayer.mem_simplePaths_iff.2 ⟨chain, hcarries⟩, hcarries.along?_eq⟩
  simp only [infer, List.mem_map, List.mem_filter, hpath, decide_eq_true_eq]
  constructor
  · rintro ⟨chain, ⟨⟨way, hcarries⟩, hreaches⟩, rfl⟩
    exact ⟨way, chain, ⟨hcarries, hreaches⟩, rfl⟩
  · rintro ⟨way, chain, ⟨hcarries, hreaches⟩, rfl⟩
    exact ⟨chain, ⟨⟨way, hcarries⟩, hreaches⟩, rfl⟩

variable [ExactScalar S]

/-- The product of fewer steps is no less. -/
theorem chainProbability_le_of_sublist {chain part : List (Evidenced S)} (h : part.Sublist chain)
    (hmade : ∀ step ∈ chain, Made step) : chainProbability chain ≤ chainProbability part := by
  refine ExactScalar.product_le_of_sublist (h.map probability) fun x hx => ?_
  obtain ⟨step, hstep, rfl⟩ := List.mem_map.1 hx
  exact (hmade step hstep).inUnit

/-- **Accepted chains are closed under taking parts.** What is inferred between two entities is what
the chains yield that are accepted between them. Let one of them run along a path, and take two
places on the path, one before the other, and any two entities that have the identifiers there. The
part of the chain between the two places is accepted between these entities, under the same
settings, and so what it yields is inferred. It is at least as probable as what the whole chain
yields, has no evidence that the whole one does not have, and gives no piece of it a greater
score. -/
theorem infer_part (hlayer : layer.FilledWith Made) (settings : ChainSettings S) :
    (∀ (source target : Entity S) (kind : String) (e : Evidenced S),
      e ∈ infer layer settings source target kind ↔ ∃ way chain,
        Accepted layer settings source.id target.id way chain ∧
          e = conclude source target kind chain) ∧
    ∀ (source target : Entity S) (kind : String) (way : List String) (chain : List (Evidenced S)),
      Accepted layer settings source.id target.id way chain →
      ∀ (i j : Nat) (first last : Entity S) (kind' : String), i < j →
        way[i]? = some first.id → way[j]? = some last.id →
        let whole := conclude source target kind chain
        let part := conclude first last kind' (chain.extract i j)
        Accepted layer settings first.id last.id (way.extract i (j + 1)) (chain.extract i j) ∧
          part ∈ infer layer settings first last kind' ∧
          whole.probability ≤ part.probability ∧
          (∀ id ∈ part.evidence.toList, id ∈ whole.evidence.toList) ∧
          ∀ id s, part.scores.get? id = some s →
            ∃ s', whole.scores.get? id = some s' ∧ s ≤ s' := by
  refine ⟨fun source target kind e => mem_infer_iff hlayer, ?_⟩
  intro source target kind way chain haccepted i j first last kind' hij hfirst hlast whole part
  have hmade : ∀ step ∈ chain, Made step := hlayer.of_carries haccepted.carries
  have hsub : (chain.extract i j).Sublist chain := by
    rw [List.extract_eq_take_drop]
    exact (List.take_sublist _ _).trans (List.drop_sublist _ _)
  have hwhole : Concludes source target kind chain whole :=
    concludes_conclude fun step hstep => (hmade step hstep).balanced
  have hbalanced : ∀ step ∈ chain.extract i j, step.Balanced := fun step hstep =>
    (hmade step (hsub.subset hstep)).balanced
  have hpart : Concludes first last kind' (chain.extract i j) part := concludes_conclude hbalanced
  have hle : chainProbability chain ≤ chainProbability (chain.extract i j) :=
    chainProbability_le_of_sublist hsub hmade
  have hin : Accepted layer settings first.id last.id (way.extract i (j + 1))
      (chain.extract i j) := by
    refine ⟨haccepted.carries.extract hij hfirst hlast, ?_⟩
    have hreaches := ExactScalar.not_lt_iff.1 haccepted.reaches
    exact ExactScalar.not_lt_iff.2 (ExactScalar.le_trans hreaches hle)
  have hevidence : ∀ id ∈ part.evidence.toList, id ∈ whole.evidence.toList := fun id hid => by
    obtain ⟨step, hstep, hgives⟩ := (hpart.evidence id).1 hid
    exact (hwhole.evidence id).2 ⟨step, hsub.subset hstep, hgives⟩
  refine ⟨hin, (mem_infer_iff hlayer).2 ⟨_, _, hin, rfl⟩, hle, hevidence, fun id s hs => ?_⟩
  obtain ⟨⟨step, hstep, hgives⟩, -⟩ := isGreatest_of_conclude hbalanced hs
  have hid : id ∈ part.evidence.toList :=
    (balanced_conclude hbalanced).mem_evidence_iff.2 ⟨s, hs⟩
  obtain ⟨s', hs', hgreatest⟩ := hwhole.scores id (hevidence id hid)
  exact ⟨s', hs', hgreatest.2 ⟨step, hsub.subset hstep, hgives⟩⟩

end Accepted

open TwoSteps in
/-- Of a chain whose product just reaches the threshold, the second step is accepted on its own: it
is more probable than the chain, and has one of its two pieces of evidence. -/
theorem infer_part_twoSteps :
    let first : Evidenced Fraction := ⟨edge "A" "B", 0.8, .ofList ["d"], [("d", 1.0)]⟩
    let second : Evidenced Fraction := ⟨edge "B" "C", 0.75, .ofList ["x"], [("x", 1.0)]⟩
    let whole := conclude (entity "A") (entity "C") "causes" [first, second]
    let part := conclude (entity "B") (entity "C") "follows" [second]
    whole ∈ infer (layer first second) .default (entity "A") (entity "C") "causes" ∧
      part ∈ infer (layer first second) .default (entity "B") (entity "C") "follows" ∧
      whole.probability = 0.6 ∧ part.probability = 0.75 ∧
      whole.evidence.toList = ["d", "x"] ∧ part.evidence.toList = ["x"] ∧
      whole.probability ≤ part.probability ∧
      ∀ id ∈ part.evidence.toList, id ∈ whole.evidence.toList := by
  intro first second whole part
  have hfirst : make (edge "A" "B") 0.8 ["d"] = .ok first := by with_unfolding_all rfl
  have hsecond : make (edge "B" "C") 0.75 ["x"] = .ok second := by with_unfolding_all rfl
  have hlayer : (layer first second).FilledWith Made :=
    (Layer.FilledWith.empty.insert "A" "B" (.make hfirst)).insert "B" "C" (.make hsecond)
  have hcarries : (layer first second).Carries "A" "C" 5 ["A", "B", "C"] [first, second] :=
    ⟨rfl, rfl, by decide, .cons rfl (.cons rfl .nil), nofun, by decide⟩
  have haccepted : Accepted (layer first second) .default "A" "C" ["A", "B", "C"]
      [first, second] := ⟨hcarries, by decide +kernel⟩
  obtain ⟨hmem, hparts⟩ := infer_part hlayer .default
  obtain ⟨-, hin, hle, hevidence, -⟩ := hparts (entity "A") (entity "C") "causes" _ _ haccepted
    1 2 (entity "B") (entity "C") "follows" (by decide) rfl rfl
  exact ⟨(hmem _ _ _ _).2 ⟨_, _, haccepted, rfl⟩, hin, by decide +kernel, by decide +kernel,
    by decide +kernel, by decide +kernel, hle, hevidence⟩

end Evidenced

end GraphReasoner
