import GraphReasoner.Proofs.Chain.LayerPaths
import GraphReasoner.Proofs.Chain.Valid
import Mathlib.Order.Bounds.Defs

/-!
# Chains in order

The order of a chain is checked at neighbouring steps only, and a step without an end breaks no
chain, so two steps that are further apart may well overlap. They do not when every step has an end:
a step that was made does not end before it starts, and this carries the order from neighbour to
neighbour (`GraphReasoner.Dated.InOrder.pairwise`). Then the chain starts where its first step does
and ends where its last one does. In general it starts with the step that starts first and ends with
the step that ends last, of those that have an end.

What a chain yields is valid, and carries its own bounds, so it can be read as a dated relation
again without a loss.

* `GraphReasoner.Dated.infer_exact` – what the chains of a layer yield.
-/

namespace GraphReasoner

open GraphReasoner.Time (Instant)

/-- **Geometric means keep to the unit interval.** How a root is taken stays open otherwise. -/
def Scalar.MeansInUnit (S : Type) [Scalar S] : Prop :=
  ∀ xs : List S, xs ≠ [] → (∀ x ∈ xs, Scalar.InUnit x) → Scalar.InUnit (geometricMean xs)

theorem ExactScalar.meansInUnit {S : Type} [Scalar S] [ExactScalar S]
    (hroot : ExactScalar.RootsInUnit S) : Scalar.MeansInUnit S :=
  fun _ _ h => ExactScalar.inUnit_geometricMean hroot h

namespace Dated

variable {S : Type}

/-! ### The span of a chain -/

/-- **A chain spans some bounds**: they start where the step that starts first does, and end where
the step that ends last does, if any step has an end. -/
structure Spans (chain : List (Dated S)) (bounds : Bounds S) : Prop where
  start : IsLeast {t | ∃ step ∈ chain, step.bounds.start = t} bounds.start
  stop : ∀ t, bounds.stop = some t ↔ IsGreatest {t | ∃ step ∈ chain, step.bounds.stop = some t} t

/-- The span of a chain is told by its earliest start and its latest end. -/
theorem spans_of_earliest? {chain : List (Dated S)} {bounds : Bounds S}
    (hstart : earliest? (chain.map fun d => d.bounds.start) = some bounds.start)
    (hstop : latest? (chain.filterMap fun d => d.bounds.stop) = bounds.stop) :
    Spans chain bounds := by
  have hends : ∀ t, t ∈ chain.filterMap (fun d => d.bounds.stop) ↔
      ∃ step ∈ chain, step.bounds.stop = some t := fun t => List.mem_filterMap
  refine ⟨⟨List.mem_map.1 (mem_of_earliest? hstart), ?_⟩, fun t => ⟨fun ht => ?_, ?_⟩⟩
  · rintro _ ⟨step, hstep, rfl⟩
    exact le_of_earliest? hstart _ (List.mem_map_of_mem hstep)
  · rw [ht] at hstop
    exact ⟨(hends t).1 (mem_of_latest? hstop), fun t' ht' =>
      le_of_latest? hstop t' ((hends t').2 ht')⟩
  · rintro ⟨hmem, hgreatest⟩
    rcases hlatest : bounds.stop with _ | t'
    · -- some step has an end, so there is a latest one
      rw [hlatest] at hstop
      rcases hlist : chain.filterMap (fun d => d.bounds.stop) with _ | ⟨first, rest⟩
      · have hin := (hends t).2 hmem
        rw [hlist] at hin
        cases hin
      · rw [hlist] at hstop
        cases hstop
    · rw [hlatest] at hstop
      have hle : t ≤ t' := le_of_latest? hstop t ((hends t).2 hmem)
      have hge : t' ≤ t := hgreatest ((hends t').1 (mem_of_latest? hstop))
      rw [Instant.le_antisymm hge hle]

/-! ### Chains whose steps have ends -/

section Closed

variable [Scalar S] {chain : List (Dated S)}

/-- Order is carried over a step that has an end. -/
theorem Precedes.trans {a b c : Dated S} (hab : a.Precedes b) (hbc : b.Precedes c) (hb : b.Made)
    (hclosed : b.bounds.stop ≠ none) : a.Precedes c := by
  intro stop hstop
  obtain ⟨stop', hstop'⟩ := Option.ne_none_iff_exists'.1 hclosed
  exact Instant.le_trans (hab stop hstop)
    (Instant.le_trans (hb.start_le hstop') (hbc stop' hstop'))

/-- **When every step has an end, each step ends no later than every later step starts.** -/
theorem InOrder.pairwise (h : InOrder chain) (hmade : ∀ d ∈ chain, d.Made)
    (hclosed : ∀ d ∈ chain, d.bounds.stop ≠ none) : chain.Pairwise Precedes := by
  induction chain with
  | nil => exact List.Pairwise.nil
  | cons a rest ih =>
    rcases rest with _ | ⟨b, rest⟩
    · exact List.pairwise_singleton _ a
    · obtain ⟨-, hmade⟩ := List.forall_mem_cons.1 hmade
      obtain ⟨-, hclosed⟩ := List.forall_mem_cons.1 hclosed
      have hfirst : a.Precedes b := h (a, b) List.mem_cons_self
      have hrest : (b :: rest).Pairwise Precedes :=
        ih (fun step hstep => h step (List.mem_cons_of_mem _ hstep)) hmade hclosed
      refine List.pairwise_cons.2 ⟨List.forall_mem_cons.2 ⟨hfirst, fun c hc => ?_⟩, hrest⟩
      exact hfirst.trans ((List.pairwise_cons.1 hrest).1 c hc) (hmade b List.mem_cons_self)
        (hclosed b List.mem_cons_self)

variable {bounds : Bounds S} (hmade : ∀ d ∈ chain, d.Made)
  (hclosed : ∀ d ∈ chain, d.bounds.stop ≠ none) (hchain : chain.Pairwise Precedes)
  (hspans : Spans chain bounds)
include hmade hclosed hchain hspans

/-- The chain starts with its first step. -/
theorem Spans.start_eq {first : Dated S} (hfirst : chain.head? = some first) :
    bounds.start = first.bounds.start := by
  obtain ⟨rest, rfl⟩ := List.head?_eq_some_iff.1 hfirst
  obtain ⟨⟨step, hstep, hstart⟩, hleast⟩ := hspans.start
  refine Instant.le_antisymm (hleast ⟨first, List.mem_cons_self, rfl⟩) ?_
  rw [← hstart]
  rcases List.mem_cons.1 hstep with rfl | hlater
  · exact Instant.le_self _
  · obtain ⟨stop, hstop⟩ := Option.ne_none_iff_exists'.1 (hclosed first List.mem_cons_self)
    exact Instant.le_trans ((hmade first List.mem_cons_self).start_le hstop)
      ((List.pairwise_cons.1 hchain).1 step hlater stop hstop)

/-- The chain ends with its last step. -/
theorem Spans.stop_eq {last : Dated S} (hlast : chain.getLast? = some last) :
    bounds.stop = last.bounds.stop := by
  obtain ⟨before, rfl⟩ := List.getLast?_eq_some_iff.1 hlast
  have hin : last ∈ before ++ [last] := List.mem_append_right _ List.mem_cons_self
  obtain ⟨stop, hstop⟩ := Option.ne_none_iff_exists'.1 (hclosed last hin)
  rw [hstop, hspans.stop]
  refine ⟨⟨last, hin, hstop⟩, ?_⟩
  rintro t ⟨step, hstep, ht⟩
  rcases List.mem_append.1 hstep with hearlier | heq
  · have hprecedes : step.Precedes last :=
      (List.pairwise_append.1 hchain).2.2 step hearlier last List.mem_cons_self
    exact Instant.le_trans (hprecedes t ht) ((hmade last hin).start_le hstop)
  · obtain rfl := List.mem_singleton.1 heq
    obtain rfl := Option.some.inj (ht.symm.trans hstop)
    exact Instant.le_self _

end Closed

/-! ### What a chain yields -/

section Concludes

variable [Scalar S] {source target : Entity S} {kind : String} {chain : List (Dated S)}

/-- **What a chain in order yields** between two entities. -/
structure Concludes (source target : Entity S) (kind : String) (chain : List (Dated S))
    (d : Dated S) : Prop where
  source_eq : d.relation.source = source
  target_eq : d.relation.target = target
  kind_eq : d.relation.kind = kind
  confidence : d.relation.confidence =
    geometricMean (chain.map fun step => step.relation.confidence)
  path_length : d.relation.properties.get? "path_length" = some (.ofNat chain.length)
  spans : Spans chain d.bounds
  duration : d.bounds.duration = none
  /-- Read as a dated relation its relation is what was yielded. -/
  read : ofRelation? d.relation = some (.ok d)
  /-- When every step has an end, no two steps overlap, and the chain starts with its first step and
  ends with its last one. -/
  closed : (∀ step ∈ chain, step.bounds.stop ≠ none) → chain.Pairwise Precedes ∧
    chain.head?.map (fun step => step.bounds.start) = some d.bounds.start ∧
    chain.getLast?.bind (fun step => step.bounds.stop) = d.bounds.stop

/-- A dated relation that is valid and carries its bounds is read off its relation. -/
theorem ofRelation?_relation {d : Dated S} (hvalid : d.relation.validate = .ok ())
    (hbounds : d.relation.temporal = some d.bounds) : ofRelation? d.relation = some (.ok d) := by
  have hsame : { d.relation with temporal := some d.bounds } = d.relation := by
    rw [← hbounds]
  rw [ofRelation?, hbounds, Option.map_some, make, hsame]
  exact congrArg some (bind_eq_ok_iff.2 ⟨(), hvalid, rfl⟩)

theorem isSome_conclude (hne : chain ≠ []) : (conclude source target kind chain).isSome := by
  obtain ⟨first, rest, rfl⟩ := List.exists_cons_of_ne_nil hne
  rfl

variable (hmeans : Scalar.MeansInUnit S) (hsource : source.validate = .ok ())
  (htarget : target.validate = .ok ()) (hkind : ¬Text.AllBlank kind)
include hmeans hsource htarget hkind

theorem concludes_of_conclude (hmade : ∀ d ∈ chain, d.Made) (horder : InOrder chain) {d : Dated S}
    (h : conclude source target kind chain = some d) : Concludes source target kind chain d := by
  have hne : chain ≠ [] := by
    rintro rfl
    cases h
  have hmean : Scalar.InUnit (geometricMean (chain.map fun d => d.relation.confidence)) := by
    refine hmeans _ (fun hnil => hne (List.map_eq_nil_iff.1 hnil)) fun x hx => ?_
    obtain ⟨step, hstep, rfl⟩ := List.mem_map.1 hx
    exact (hmade step hstep).inUnit
  have hvalid := valid_of_inUnit hsource htarget hkind hmade hmean h
  obtain ⟨start, hstart, hd⟩ := Option.bind_eq_some_iff.1 h
  obtain rfl := Option.some.inj hd
  have hspans : Spans chain ⟨start, latest? (chain.filterMap fun d => d.bounds.stop), none⟩ :=
    spans_of_earliest? hstart rfl
  refine
    { source_eq := rfl
      target_eq := rfl
      kind_eq := rfl
      confidence := rfl
      path_length := Table.get?_ofList_concat [_, _] "path_length" _
      spans := hspans
      duration := rfl
      read := ofRelation?_relation hvalid rfl
      closed := fun hclosed => ?_ }
  have hchain := horder.pairwise hmade hclosed
  refine ⟨hchain, ?_, ?_⟩
  · rw [List.head?_eq_some_head hne, Option.map_some,
      hspans.start_eq hmade hclosed hchain (List.head?_eq_some_head hne)]
  · rw [List.getLast?_eq_some_getLast hne, Option.bind_some,
      hspans.stop_eq hmade hclosed hchain (List.getLast?_eq_some_getLast hne)]

/-- **Inference in time is exact**, for every layer that is filled with dated relations that can be
made, between valid entities and under a type that is not blank. It yields one relation for each
simple path, of as many steps as the settings allow, whose chain is in order, and they come in the
order of the paths. -/
theorem infer_exact {layer : Layer (Dated S)} (hlayer : layer.FilledWith Made)
    (settings : ChainSettings S) :
    ∃ ways : List (List String), (ways.map (List.map layer.placeOf)).Pairwise (· < ·) ∧
      (∀ way, way ∈ ways ↔ ∃ chain,
        layer.Carries source.id target.id settings.maxPathLength way chain ∧ InOrder chain) ∧
      List.Forall₂ (fun way d => ∃ chain,
          layer.Carries source.id target.id settings.maxPathLength way chain ∧
            Concludes source target kind chain d)
        ways (infer layer settings source target kind) := by
  obtain ⟨ways, hsorted, hmem, hyields⟩ := hlayer.exists_ways source.id target.id
    settings.maxPathLength InOrder (conclude source target kind)
  refine ⟨ways, hsorted, fun way => ?_, hyields.imp ?_⟩
  · rw [hmem]
    exact exists_congr fun chain => and_congr_right fun hcarries =>
      and_iff_left (isSome_conclude hcarries.ne_nil)
  · rintro way d ⟨chain, hcarries, horder, hd⟩
    have hmade : ∀ step ∈ chain, step.Made := hlayer.of_carries hcarries
    exact ⟨chain, hcarries,
      concludes_of_conclude hmeans hsource htarget hkind hmade horder hd⟩

end Concludes

open TwoSteps in
/-- Two steps that meet yield one relation, which starts with the first of them and ends with the
second. -/
theorem infer_exact_twoSteps :
    let first := dated "A" "B" ⟨⟨1, 0⟩, some ⟨2, 0⟩, none⟩
    let second := dated "B" "C" ⟨⟨2, 0⟩, some ⟨3, 0⟩, none⟩
    ∃ d, infer (layer first second) .default (entity "A") (entity "C") "is_a" = [d] ∧
      Concludes (entity "A") (entity "C") "is_a" [first, second] d ∧
      d.bounds.start = ⟨1, 0⟩ ∧ d.bounds.stop = some ⟨3, 0⟩ := by
  intro first second
  have hfirst : make (edge "A" "B") ⟨⟨1, 0⟩, some ⟨2, 0⟩, none⟩ = .ok first := by
    with_unfolding_all rfl
  have hsecond : make (edge "B" "C") ⟨⟨2, 0⟩, some ⟨3, 0⟩, none⟩ = .ok second := by
    with_unfolding_all rfl
  have hA : (entity "A").validate = .ok () := by with_unfolding_all rfl
  have hC : (entity "C").validate = .ok () := by with_unfolding_all rfl
  have hlayer : (layer first second).FilledWith Made :=
    (Layer.FilledWith.empty.insert "A" "B" (.make hfirst)).insert "B" "C" (.make hsecond)
  have hkind : ¬Text.AllBlank "is_a" := by decide
  obtain ⟨ways, -, hmem, hways⟩ := infer_exact
    (ExactScalar.meansInUnit Fraction.rootsInUnit) hA hC hkind hlayer .default
  have hcarries : (layer first second).Carries "A" "C" 5 ["A", "B", "C"] [first, second] :=
    ⟨rfl, rfl, by decide, .cons rfl (.cons rfl .nil), nofun, by decide⟩
  have horder : InOrder [first, second] := by decide
  have hway : ["A", "B", "C"] ∈ ways := (hmem _).2 ⟨_, hcarries, horder⟩
  have hone :
      (infer (layer first second) .default (entity "A") (entity "C") "is_a").length = 1 := by
    decide +kernel
  obtain ⟨d, hd⟩ := List.length_eq_one_iff.1 hone
  rw [hd] at hways
  obtain ⟨chain, hchain, hd'⟩ := of_forall₂_singleton hways hway
  obtain rfl := hcarries.unique hchain
  obtain ⟨-, hstart, hstop⟩ := hd'.closed (by simp [first, second, dated])
  exact ⟨d, hd, hd', (Option.some.inj hstart).symm, hstop.symm⟩

end Dated

end GraphReasoner
