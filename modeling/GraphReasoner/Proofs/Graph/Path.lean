import GraphReasoner.Graph.Path
import GraphReasoner.Proofs.Graph.Views
import Mathlib.Algebra.BigOperators.Ring.List
import Mathlib.Algebra.Ring.Nat
import Mathlib.Data.List.Count
import Mathlib.Data.List.Nodup

/-!
# Enumerating simple paths

The search for the simple paths to a target is a search without a target, of which the ways that end
in the target are kept (`GraphReasoner.Path.ways_eq_filter_walks`): once the target is visited, no
way comes back to it. So one question is left, which ways the search without a target finds, and how
often. The answer is exact. A way is found when it is not empty, not too long, and visits no node
twice (`GraphReasoner.Path.Fresh`), and it is found as often as its steps can be chosen
(`GraphReasoner.Path.count_walks`). When every step can be chosen in one way at most, each way is
found once.
-/

namespace GraphReasoner

namespace Path

variable {α : Type} [DecidableEq α]

omit [DecidableEq α] in
/-- Every node of a path but the first is stepped to. -/
theorem exists_step_to (node : α) {v : α} {way : List α} (hv : v ∈ way) :
    ∃ u ∈ node :: way, (u, v) ∈ pairs (node :: way) := by
  induction way generalizing node with
  | nil => cases hv
  | cons w way ih =>
    rcases List.mem_cons.1 hv with rfl | hin
    · exact ⟨node, List.mem_cons_self, List.mem_cons_self⟩
    · obtain ⟨u, hu, hstep⟩ := ih w hin
      exact ⟨u, List.mem_cons_of_mem node hu, List.mem_cons_of_mem _ hstep⟩

omit [DecidableEq α] in
theorem mem_of_mem_pairs {path : List α} {step : α × α} (h : step ∈ pairs path) :
    step.1 ∈ path ∧ step.2 ∈ path := by
  obtain ⟨hfirst, hsecond⟩ := List.of_mem_zip h
  exact ⟨hfirst, List.mem_of_mem_drop hsecond⟩

omit [DecidableEq α] in
/-- No step of a path without repetition stays where it is. -/
theorem ne_of_mem_pairs {path : List α} (hnodup : path.Nodup) {step : α × α}
    (h : step ∈ pairs path) : step.1 ≠ step.2 := by
  induction path with
  | nil => cases h
  | cons u path ih =>
    obtain ⟨hfirst, hrest⟩ := List.nodup_cons.1 hnodup
    rcases path with _ | ⟨v, path⟩
    · cases h
    · rcases List.mem_cons.1 h with rfl | hin
      · exact fun heq => hfirst (List.mem_cons.2 (Or.inl heq))
      · exact ih hrest hin

/-- **The ways to go on from a node** in at most so many edges, wherever they lead, given the nodes
already visited. -/
def walks (next : α → List α) : Nat → List α → α → List (List α)
  | 0, _, _ => []
  | hops + 1, visited, node =>
    (next node).flatMap fun v =>
      if v ∈ visited then [] else [v] :: (walks next hops (v :: visited) v).map (v :: ·)

/-- **A way on**: at least one and at most `hops` nodes, all different, and none visited. -/
structure Fresh (hops : Nat) (visited way : List α) : Prop where
  ne_nil : way ≠ []
  length_le : way.length ≤ hops
  nodup : way.Nodup
  not_mem : ∀ v ∈ way, v ∉ visited

omit [DecidableEq α] in
/-- A way on begins with a node that is not visited, and then ends or goes on. -/
theorem fresh_cons_iff {hops : Nat} {visited way : List α} {v : α} :
    Fresh (hops + 1) visited (v :: way) ↔
      v ∉ visited ∧ (way = [] ∨ Fresh hops (v :: visited) way) := by
  constructor
  · rintro ⟨-, hlength, hnodup, hnew⟩
    obtain ⟨hv, hway⟩ := List.forall_mem_cons.1 hnew
    obtain ⟨hfirst, hrest⟩ := List.nodup_cons.1 hnodup
    refine ⟨hv, or_iff_not_imp_left.2 fun hne => ?_⟩
    refine ⟨hne, Nat.le_of_succ_le_succ hlength, hrest, fun w hw hin => ?_⟩
    rcases List.mem_cons.1 hin with rfl | hin
    · exact hfirst hw
    · exact hway w hw hin
  · rintro ⟨hv, rfl | ⟨-, hlength, hnodup, hnew⟩⟩
    · refine ⟨List.cons_ne_nil v [], ?_, List.nodup_singleton v, List.forall_mem_singleton.2 hv⟩
      rw [List.length_singleton]
      omega
    · refine ⟨List.cons_ne_nil v way, Nat.succ_le_succ hlength, ?_, ?_⟩
      · exact List.nodup_cons.2 ⟨fun hin => hnew v hin List.mem_cons_self, hnodup⟩
      · refine List.forall_mem_cons.2 ⟨hv, fun w hw hin => ?_⟩
        exact hnew w hw (List.mem_cons_of_mem v hin)

section Walks

variable {next : α → List α} {hops : Nat} {visited : List α} {node : α} {way : List α}

/-- **Only ways on are found.** -/
theorem fresh_of_mem_walks (h : way ∈ walks next hops visited node) : Fresh hops visited way := by
  induction hops generalizing visited node way with
  | zero => cases h
  | succ hops ih =>
    obtain ⟨v, -, hway⟩ := List.mem_flatMap.1 h
    split at hway
    · cases hway
    · rename_i hv
      rcases List.mem_cons.1 hway with rfl | hmore
      · exact fresh_cons_iff.2 ⟨hv, Or.inl rfl⟩
      · obtain ⟨rest, hrest, rfl⟩ := List.mem_map.1 hmore
        exact fresh_cons_iff.2 ⟨hv, Or.inr (ih hrest)⟩

/-- When only one of some items yields an element, it is the occurrences of that item that count. -/
theorem count_flatMap_of_eq_zero {items : List α} {f : α → List (List α)} {v : α}
    (h : ∀ w, w ≠ v → (f w).count way = 0) :
    (items.flatMap f).count way = items.count v * (f v).count way := by
  induction items with
  | nil => rw [List.flatMap_nil, List.count_nil, List.count_nil, Nat.zero_mul]
  | cons w items ih =>
    rw [List.flatMap_cons, List.count_append, ih]
    by_cases hw : w = v
    · subst hw
      rw [List.count_cons_self, Nat.add_mul, Nat.one_mul, Nat.add_comm]
    · rw [h w hw, Nat.zero_add, List.count_cons_of_ne hw]

/-- **A way is found as often as its steps can be chosen.** -/
theorem count_walks (h : Fresh hops visited way) : (walks next hops visited node).count way =
    ((pairs (node :: way)).map fun step => (next step.1).count step.2).prod := by
  induction hops generalizing visited node way with
  | zero => exact absurd (List.length_eq_zero_iff.1 (Nat.le_zero.1 h.length_le)) h.ne_nil
  | succ hops ih =>
    rcases way with _ | ⟨v, way⟩
    · exact absurd rfl h.ne_nil
    obtain ⟨hv, hway⟩ := fresh_cons_iff.1 h
    have hinj : Function.Injective (List.cons v) := List.cons_injective
    -- what begins with another node is another way
    have hother : ∀ w, w ≠ v → ((if w ∈ visited then [] else
        [w] :: (walks next hops (w :: visited) w).map (w :: ·)) : List (List α)).count (v :: way) =
          0 := by
      intro w hw
      refine List.count_eq_zero.2 fun hin => ?_
      split at hin
      · cases hin
      · rcases List.mem_cons.1 hin with heq | hmore
        · exact hw (List.cons.inj heq).1.symm
        · obtain ⟨rest, -, heq⟩ := List.mem_map.1 hmore
          exact hw (List.cons.inj heq).1
    rw [walks, count_flatMap_of_eq_zero hother, if_neg hv]
    rcases way with _ | ⟨w, way⟩
    · -- the way ends here, and no longer one is empty behind its first node
      have hnone : ((walks next hops (v :: visited) v).map (v :: ·)).count [v] = 0 := by
        refine List.count_eq_zero.2 fun hin => ?_
        obtain ⟨rest, hrest, heq⟩ := List.mem_map.1 hin
        exact (fresh_of_mem_walks hrest).ne_nil (List.cons.inj heq).2
      rw [List.count_cons_self, hnone]
      simp [pairs]
    · have hfresh : Fresh hops (v :: visited) (w :: way) :=
        hway.resolve_left (List.cons_ne_nil w way)
      have hne : [v] ≠ v :: w :: way := by simp
      rw [List.count_cons_of_ne hne, List.count_map_of_injective _ _ hinj, ih hfresh]
      exact (List.prod_cons ..).symm

/-- **A way on is found exactly when each of its steps can be taken.** -/
theorem mem_walks_iff : way ∈ walks next hops visited node ↔
    Fresh hops visited way ∧ ∀ step ∈ pairs (node :: way), step.2 ∈ next step.1 := by
  have hcount : Fresh hops visited way → (way ∈ walks next hops visited node ↔
      ∀ step ∈ pairs (node :: way), step.2 ∈ next step.1) := by
    intro h
    rw [← List.count_pos_iff, count_walks h, Nat.pos_iff_ne_zero, Ne, List.prod_eq_zero_iff,
      List.mem_map]
    simp only [List.count_eq_zero, not_exists, not_and, not_not]
  constructor
  · exact fun h => ⟨fresh_of_mem_walks h, (hcount (fresh_of_mem_walks h)).1 h⟩
  · exact fun h => (hcount h.1).2 h.2

/-- **When steps do not repeat, no way is found twice.** -/
theorem nodup_walks (hnext : ∀ v, (next v).Nodup) : (walks next hops visited node).Nodup := by
  refine List.nodup_iff_count_eq_one.2 fun way hway => ?_
  obtain ⟨hfresh, hsteps⟩ := mem_walks_iff.1 hway
  rw [count_walks hfresh]
  refine List.prod_eq_one fun n hn => ?_
  obtain ⟨step, hstep, rfl⟩ := List.mem_map.1 hn
  exact List.nodup_iff_count_eq_one.1 (hnext step.1) step.2 (hsteps step hstep)

end Walks

/-! ### With a target -/

section Target

variable {next : α → List α} {source target : α} {hops : Nat} {visited : List α} {node : α}

/-- **The search for a target is the search without one**, of which the ways that end in the target
are kept. -/
theorem ways_eq_filter_walks (next : α → List α) (target : α) (hops : Nat) (visited : List α)
    (node : α) : ways next target hops visited node =
      (walks next hops visited node).filter fun way => way.getLast? = some target := by
  induction hops generalizing visited node with
  | zero => rfl
  | succ hops ih =>
    rw [ways, walks, List.filter_flatMap]
    refine List.flatMap_congr fun v _ => ?_
    split
    · rfl
    · rcases eq_or_ne v target with rfl | hv
      · -- the target is visited now, so no longer way ends in it
        have hnone : ((walks next hops (v :: visited) v).map (v :: ·)).filter
            (fun way => way.getLast? = some v) = [] := by
          refine List.filter_eq_nil_iff.2 fun way hway hlast => ?_
          obtain ⟨rest, hrest, rfl⟩ := List.mem_map.1 hway
          have hfresh := fresh_of_mem_walks hrest
          have hin : v ∈ rest := by
            refine List.mem_of_getLast? ?_
            simpa [List.getLast?_cons, List.getLast?_eq_some_getLast hfresh.ne_nil] using hlast
          exact hfresh.not_mem v hin List.mem_cons_self
        rw [if_pos rfl, List.filter_cons, hnone]
        simp
      · rw [if_neg hv, List.filter_cons, ih, List.filter_map]
        have hsame : ∀ way ∈ walks next hops (v :: visited) v,
            (decide (way.getLast? = some target)) =
              ((fun way => decide (way.getLast? = some target)) ∘ (v :: ·)) way := by
          intro way hway
          simp [List.getLast?_cons, List.getLast?_eq_some_getLast (fresh_of_mem_walks hway).ne_nil]
        rw [List.filter_congr hsame]
        simp [hv]

/-- **A simple path** from a source to a target of at most `hops` edges. -/
structure Simple (next : α → List α) (source target : α) (hops : Nat) (path : List α) : Prop where
  head : path.head? = some source
  last : path.getLast? = some target
  nodup : path.Nodup
  length_le : path.length ≤ hops + 1
  step : ∀ step ∈ pairs path, step.2 ∈ next step.1

omit [DecidableEq α] in
theorem fresh_singleton_iff {way : List α} : Fresh hops [source] way ↔
    way ≠ [] ∧ way.length ≤ hops ∧ (source :: way).Nodup := by
  constructor
  · rintro ⟨hne, hlength, hnodup, hnew⟩
    refine ⟨hne, hlength, List.nodup_cons.2 ⟨fun hin => ?_, hnodup⟩⟩
    exact hnew source hin (List.mem_singleton_self source)
  · rintro ⟨hne, hlength, hnodup⟩
    obtain ⟨hsource, hway⟩ := List.nodup_cons.1 hnodup
    refine ⟨hne, hlength, hway, fun v hv hin => hsource ?_⟩
    rw [← List.mem_singleton.1 hin]
    exact hv

/-- **The enumeration is exact**: it lists the simple paths, when the ends differ. -/
theorem mem_simplePaths_iff {path : List α} : path ∈ simplePaths next source target hops ↔
    source ≠ target ∧ Simple next source target hops path := by
  unfold simplePaths
  split
  · rename_i heq
    exact ⟨nofun, fun h => absurd heq h.1⟩
  rename_i hends
  simp only [ways_eq_filter_walks, List.mem_map, List.mem_filter, decide_eq_true_eq, mem_walks_iff,
    fresh_singleton_iff]
  constructor
  · rintro ⟨way, ⟨⟨⟨hne, hlength, hnodup⟩, hsteps⟩, hlast⟩, rfl⟩
    refine ⟨hends, rfl, ?_, hnodup, Nat.succ_le_succ hlength, hsteps⟩
    rw [List.getLast?_cons, hlast]
    rfl
  · rintro ⟨-, hhead, hlast, hnodup, hlength, hsteps⟩
    obtain ⟨way, rfl⟩ := List.head?_eq_some_iff.1 hhead
    have hne : way ≠ [] := by
      rintro rfl
      exact hends (Option.some.inj hlast)
    refine ⟨way, ⟨⟨⟨hne, Nat.le_of_succ_le_succ hlength, hnodup⟩, hsteps⟩, ?_⟩, rfl⟩
    rw [List.getLast?_cons, List.getLast?_eq_some_getLast hne] at hlast
    rw [List.getLast?_eq_some_getLast hne]
    exact hlast

omit [DecidableEq α] in
theorem pairs_map {β : Type} (f : α → β) (path : List α) :
    pairs (path.map f) = (pairs path).map (Prod.map f f) := by
  rw [pairs, pairs, ← List.map_drop, List.zip_map]

omit [DecidableEq α] in
theorem length_pairs (path : List α) : (pairs path).length = path.length - 1 := by
  rw [pairs, List.length_zip, List.length_drop, Nat.min_eq_right (Nat.sub_le _ _)]

/-- A simple path between different ends has a step, and a path that has a step and visits no node
twice does not end where it begins. -/
theorem mem_simplePaths_iff_steps {path : List α} : path ∈ simplePaths next source target hops ↔
    path.head? = some source ∧ path.getLast? = some target ∧ path.Nodup ∧
      (∀ step ∈ pairs path, step.2 ∈ next step.1) ∧
      1 ≤ (pairs path).length ∧ (pairs path).length ≤ hops := by
  rw [mem_simplePaths_iff, length_pairs]
  constructor
  · rintro ⟨hends, hhead, hlast, hnodup, hlength, hsteps⟩
    refine ⟨hhead, hlast, hnodup, hsteps, ?_, by omega⟩
    obtain ⟨way, rfl⟩ := List.head?_eq_some_iff.1 hhead
    rcases way with _ | ⟨v, way⟩
    · exact absurd (Option.some.inj hlast) hends
    · simp
  · rintro ⟨hhead, hlast, hnodup, hsteps, hone, hlength⟩
    refine ⟨?_, hhead, hlast, hnodup, by omega, hsteps⟩
    rintro rfl
    obtain ⟨way, rfl⟩ := List.head?_eq_some_iff.1 hhead
    rcases way with _ | ⟨v, way⟩
    · simp at hone
    · rw [List.getLast?_cons_cons] at hlast
      exact (List.nodup_cons.1 hnodup).1 (List.mem_of_getLast? hlast)

/-- When steps do not repeat, no path is listed twice. -/
theorem nodup_simplePaths (hnext : ∀ v, (next v).Nodup) :
    (simplePaths next source target hops).Nodup := by
  unfold simplePaths
  split
  · exact List.nodup_nil
  · rw [ways_eq_filter_walks]
    exact ((nodup_walks hnext).filter _).map List.cons_injective

end Target

end Path

/-! ### Paths through a graph -/

namespace Graph

variable {S : Type}

/-- The nodes that the records of a graph lead to from a node, as often as they do. -/
def targets (g : Graph S) (id : String) : List String :=
  (g.records.filter fun r => r.source == id).map Record.target

section Targets

variable {g : Graph S} {source target : String}

theorem mem_targets_iff :
    target ∈ g.targets source ↔ ∃ r ∈ g.records, r.source = source ∧ r.target = target := by
  simp [targets, and_assoc]

/-- A node leads to another as often as relations join them. -/
theorem Resolves.count_targets (h : g.Resolves) :
    (g.targets source).count target = (g.between source target).length := by
  have hlength : (g.between source target).length =
      ((g.leaving source).filter fun r => r.target == target).length := by
    refine List.filterMap_length_eq_length.2 fun r hr => ?_
    obtain ⟨rel, hres⟩ := h r (List.mem_filter.1 (List.mem_reverse.1 (List.mem_filter.1 hr).1)).1
    rw [hres]
    rfl
  rw [hlength, leaving, List.filter_reverse, List.length_reverse, targets, List.count,
    List.countP_map, List.countP_eq_length_filter]
  rfl

/-- **What can come next in the search for paths** is what the records lead to. -/
theorem Resolves.mem_nextNodes_iff (h : g.Resolves) :
    target ∈ g.nextNodes source ↔ target ∈ g.targets source := by
  have hsuccessors : target ∈ g.successors source ↔ target ∈ g.targets source := by
    rw [successors, List.mem_eraseDups, leaving, List.map_reverse, List.mem_reverse, targets]
  rw [nextNodes, List.mem_filter, List.contains_iff_mem, hsuccessors, and_iff_right_iff_imp]
  intro htarget
  obtain ⟨r, hr, -, rfl⟩ := mem_targets_iff.1 htarget
  obtain ⟨rel, hres⟩ := h r hr
  obtain ⟨-, t, -, ht, -⟩ := resolve?_eq_some_iff.1 hres
  rw [← id_of_entity? ht]
  exact List.mem_map_of_mem (mem_of_entity? ht)

theorem Tells.nodup_nextNodes [Scalar S] {done : List (Insertion S)} (h : g.Tells done)
    (id : String) : (g.nextNodes id).Nodup := by
  have hids : (g.entities.map Entity.id).Nodup := by
    rw [h.ids]
    exact nodup_eraseDups _
  exact hids.filter _

theorem Resolves.hasEntity_of_mem_targets (h : g.Resolves) (hstep : target ∈ g.targets source) :
    g.hasEntity source = true ∧ g.hasEntity target = true := by
  obtain ⟨r, hr, rfl, rfl⟩ := mem_targets_iff.1 hstep
  obtain ⟨rel, hres⟩ := h r hr
  obtain ⟨s, t, hs, ht, -⟩ := resolve?_eq_some_iff.1 hres
  exact ⟨hasEntity_iff.2 ⟨s, hs⟩, hasEntity_iff.2 ⟨t, ht⟩⟩

/-- **The paths of a graph are its simple paths** along its records. That both ends are entities
need not be said: a path between different ends has a first step and a last one. -/
theorem Resolves.mem_simplePaths_iff (h : g.Resolves) {hops : Nat} {path : List String} :
    path ∈ g.simplePaths source target hops ↔
      source ≠ target ∧ Path.Simple g.targets source target hops path := by
  have hnext : Path.Simple g.nextNodes source target hops path ↔
      Path.Simple g.targets source target hops path := by
    constructor <;> rintro ⟨hhead, hlast, hnodup, hlength, hsteps⟩ <;>
      refine ⟨hhead, hlast, hnodup, hlength, fun step hstep => ?_⟩
    · exact h.mem_nextNodes_iff.1 (hsteps step hstep)
    · exact h.mem_nextNodes_iff.2 (hsteps step hstep)
  rw [simplePaths]
  split
  · rw [Path.mem_simplePaths_iff, hnext]
  · rename_i hends
    refine ⟨nofun, fun ⟨hne, hsimple⟩ => absurd ?_ hends⟩
    obtain ⟨way, rfl⟩ := List.head?_eq_some_iff.1 hsimple.head
    obtain ⟨v, way, rfl⟩ : ∃ v rest, way = v :: rest := by
      refine List.exists_cons_of_ne_nil ?_
      rintro rfl
      exact hne (Option.some.inj hsimple.last)
    have hfirst : v ∈ g.targets source := hsimple.step (source, v) List.mem_cons_self
    have htarget : target ∈ v :: way := by
      refine List.mem_of_getLast? ?_
      rw [← hsimple.last, List.getLast?_cons_cons]
    obtain ⟨u, -, hlast⟩ := Path.exists_step_to source htarget
    rw [(h.hasEntity_of_mem_targets hfirst).1,
      (h.hasEntity_of_mem_targets (hsimple.step _ hlast)).2]
    rfl

/-- **A path of the graph** visits entities only, goes along its records, and no step stays where
it is. -/
structure Traces (g : Graph S) (path : List String) : Prop where
  hasEntity : ∀ id ∈ path, g.hasEntity id = true
  step : ∀ step ∈ Path.pairs path, step.2 ∈ g.targets step.1
  ne : ∀ step ∈ Path.pairs path, step.1 ≠ step.2

theorem Resolves.traces (h : g.Resolves) {hops : Nat} {path : List String}
    (hpath : path ∈ g.simplePaths source target hops) : g.Traces path := by
  have hsimple := (h.mem_simplePaths_iff.1 hpath).2
  refine ⟨fun id hid => ?_, hsimple.step, fun step => Path.ne_of_mem_pairs hsimple.nodup⟩
  obtain ⟨way, rfl⟩ := List.head?_eq_some_iff.1 hsimple.head
  rcases List.mem_cons.1 hid with rfl | hin
  · unfold simplePaths at hpath
    split at hpath
    · rename_i hends
      exact (Bool.and_eq_true_iff.1 hends).1
    · cases hpath
  · obtain ⟨u, -, hstep⟩ := Path.exists_step_to source hin
    exact (h.hasEntity_of_mem_targets (hsimple.step _ hstep)).2

theorem Tells.nodup_simplePaths [Scalar S] {done : List (Insertion S)} (h : g.Tells done)
    (source target : String) (hops : Nat) : (g.simplePaths source target hops).Nodup := by
  rw [simplePaths]
  split
  · exact Path.nodup_simplePaths h.nodup_nextNodes
  · exact List.nodup_nil

end Targets

end Graph

end GraphReasoner
