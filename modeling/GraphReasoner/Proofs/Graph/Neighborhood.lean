import GraphReasoner.Graph.Neighborhood
import GraphReasoner.Proofs.Graph.Views

/-!
# What a breadth-first search discovers

A search starts from some known nodes and proceeds in rounds, but its result can be read without
them: it is a list of discoveries, in which every node is new when its turn comes, and comes with a
record that joins it to a node that is known or was discovered before
(`GraphReasoner.Graph.Discovery`). The nodes visited are at all times the known ones and those
discovered, which is what carries this from record to record, from node to node and from level to
level.
-/

namespace GraphReasoner

/-- Whether a type of relations is among those that are allowed. No types means all of them. -/
def Allows (kinds : List String) (kind : String) : Prop :=
  kinds = [] ∨ kind ∈ kinds

namespace Graph

variable {S : Type} {g : Graph S} {kinds known : List String}

/-- **A list of discoveries** from some known nodes. -/
inductive Discovery (g : Graph S) (known : List String) : List (String × Record S) → Prop
  | nil : Discovery g known []
  | concat {found : List (String × Record S)} {other : String} {r : Record S}
    (before : Discovery g known found) (mem : r ∈ g.records)
    (new : other ∉ known ++ found.map Prod.fst)
    (joined : r.source = other ∧ r.target ∈ known ++ found.map Prod.fst ∨
      r.target = other ∧ r.source ∈ known ++ found.map Prod.fst) :
    Discovery g known (found ++ [(other, r)])

/-! ### The search discovers -/

/-- **Some nodes are visited** when they are the known ones and those discovered. -/
def Visits (visited known : List String) (found : List (String × Record S)) : Prop :=
  ∀ id, id ∈ visited ↔ id ∈ known ++ found.map Prod.fst

theorem Visits.append {visited : List String} {found more : List (String × Record S)}
    (h : Visits visited known found) :
    Visits (more.map Prod.fst ++ visited) known (found ++ more) := by
  intro id
  rw [List.mem_append, h id, List.map_append, List.mem_append, List.mem_append, List.mem_append]
  tauto

theorem mem_touching_iff {id : String} {r : Record S} : r ∈ g.touching kinds id ↔
    r ∈ g.records ∧ (r.source = id ∨ r.target = id) ∧ Allows kinds r.kind := by
  have hkind : (kinds.isEmpty || kinds.contains r.kind) = true ↔ Allows kinds r.kind := by
    rw [Bool.or_eq_true, List.isEmpty_iff, List.contains_iff_mem, Allows]
  rw [touching, List.mem_filter, hkind, ← and_assoc]
  refine and_congr_left fun _ => ?_
  rw [List.mem_append, leaving, entering, List.mem_reverse, List.mem_reverse, List.mem_filter,
    List.mem_filter, beq_iff_eq, beq_iff_eq, ← and_or_left]

/-- Of a record that touches a node the other end is one end, and the node the other. -/
theorem ends_of_touches {id : String} {r : Record S} (h : r.source = id ∨ r.target = id) :
    r.source = otherEnd id r ∧ r.target = id ∨ r.target = otherEnd id r ∧ r.source = id := by
  unfold otherEnd
  by_cases hs : r.source = id
  · exact Or.inr ⟨by rw [if_pos (beq_iff_eq.2 hs)], hs⟩
  · rw [if_neg (by simpa using hs)]
    exact Or.inl ⟨rfl, h.resolve_left hs⟩

/-- **From one node** of those visited the search goes on discovering. -/
theorem Discovery.discoverFrom {visited : List String} {found : List (String × Record S)}
    (h : Discovery g known found) (hvisits : Visits visited known found) {id : String}
    (hid : id ∈ visited) : Discovery g known (found ++ g.discoverFrom kinds visited id) := by
  unfold Graph.discoverFrom
  refine List.foldlRecOn (motive := fun more => Discovery g known (found ++ more))
    (g.touching kinds id) _ ?_ ?_
  · rw [List.append_nil]
    exact h
  · intro more ih r hr
    obtain ⟨hrecord, htouches, -⟩ := mem_touching_iff.1 hr
    dsimp only
    split
    · exact ih
    · rename_i hnew
      rw [Bool.or_eq_true, not_or, List.contains_iff_mem, List.any_eq_true] at hnew
      have hmem : ∀ other, other ∈ known ++ (found ++ more).map Prod.fst ↔
          other ∈ visited ∨ ∃ f ∈ more, f.1 = other := by
        intro other
        rw [List.map_append, ← List.append_assoc, List.mem_append, ← hvisits other, List.mem_map]
      rw [← List.append_assoc]
      refine .concat ih hrecord ?_ ?_
      · rw [hmem]
        rintro (hold | ⟨f, hf, heq⟩)
        · exact hnew.1 hold
        · exact hnew.2 ⟨f, hf, beq_iff_eq.2 heq⟩
      · rcases ends_of_touches htouches with ⟨hother, hend⟩ | ⟨hother, hend⟩
        · exact Or.inl ⟨hother, (hmem _).2 (Or.inl (hend ▸ hid))⟩
        · exact Or.inr ⟨hother, (hmem _).2 (Or.inl (hend ▸ hid))⟩

/-- **From a level** of visited nodes the search goes on discovering. -/
theorem Discovery.discoverLevel {visited level : List String} {found : List (String × Record S)}
    (h : Discovery g known found) (hvisits : Visits visited known found)
    (hlevel : ∀ id ∈ level, id ∈ visited) :
    Discovery g known (found ++ g.discoverLevel kinds visited level) := by
  unfold Graph.discoverLevel
  refine List.foldlRecOn (motive := fun more => Discovery g known (found ++ more)) level _ ?_ ?_
  · rw [List.append_nil]
    exact h
  · intro more ih id hid
    rw [← List.append_assoc]
    exact ih.discoverFrom hvisits.append (List.mem_append_right _ (hlevel id hid))

/-- **Through its levels** the search goes on discovering. -/
theorem Discovery.levels {visited level : List String} {found : List (String × Record S)}
    (h : Discovery g known found) (hvisits : Visits visited known found)
    (hlevel : ∀ id ∈ level, id ∈ visited) (depth : Nat) :
    Discovery g known (found ++ (g.levels kinds depth visited level).flatten) := by
  induction depth generalizing visited level found with
  | zero =>
    rw [Graph.levels, List.flatten_nil, List.append_nil]
    exact h
  | succ depth ih =>
    have hnext : Discovery g known (found ++ g.discoverLevel kinds visited level) :=
      h.discoverLevel hvisits hlevel
    rw [Graph.levels]
    split
    · rw [List.flatten_nil, List.append_nil]
      exact h
    · rename_i first more hfound
      rw [hfound] at hnext
      rw [List.flatten_cons, ← List.append_assoc]
      exact ih hnext hvisits.append fun id hid => List.mem_append_left _ hid

/-- **A search makes discoveries** from the seeds that are in the graph. -/
theorem discovery_levels (g : Graph S) (kinds known : List String) (depth : Nat) :
    Discovery g known (g.levels kinds depth known known).flatten := by
  have hvisits : Visits known known ([] : List (String × Record S)) := by
    intro id
    rw [List.map_nil, List.append_nil]
  exact Discovery.nil.levels hvisits (fun _ hid => hid) depth

/-! ### What discoveries are like -/

namespace Discovery

variable {found : List (String × Record S)}

theorem mem_records (h : Discovery g known found) : ∀ f ∈ found, f.2 ∈ g.records := by
  induction h with
  | nil => exact nofun
  | concat _ mem _ _ ih =>
    exact List.forall_mem_append.2 ⟨ih, List.forall_mem_singleton.2 mem⟩

/-- **No node is discovered twice.** -/
theorem nodup (h : Discovery g known found) : (found.map Prod.fst).Nodup := by
  induction h with
  | nil => exact List.nodup_nil
  | concat _ _ new _ ih =>
    rw [List.map_append, List.map_singleton, List.nodup_append]
    refine ⟨ih, List.nodup_singleton _, ?_⟩
    rintro _ hold _ hlast rfl
    rw [List.mem_singleton.1 hlast] at hold
    exact new (List.mem_append_right _ hold)

/-- **The ends of a record that was followed are known or discovered.** -/
theorem ends_mem (h : Discovery g known found) : ∀ f ∈ found,
    f.2.source ∈ known ++ found.map Prod.fst ∧ f.2.target ∈ known ++ found.map Prod.fst := by
  induction h with
  | nil => exact nofun
  | @concat found other r _ _ _ joined ih =>
    have hmem : ∀ id, id ∈ known ++ (found ++ [(other, r)]).map Prod.fst ↔
        id ∈ known ++ found.map Prod.fst ∨ id = other := by
      intro id
      rw [List.map_append, ← List.append_assoc, List.mem_append, List.map_singleton,
        List.mem_singleton]
    simp only [hmem]
    refine List.forall_mem_append.2 ⟨fun f hf => ?_, List.forall_mem_singleton.2 ?_⟩
    · exact ⟨Or.inl (ih f hf).1, Or.inl (ih f hf).2⟩
    · rcases joined with ⟨hother, hend⟩ | ⟨hother, hend⟩
      · exact ⟨Or.inr hother, Or.inl hend⟩
      · exact ⟨Or.inl hend, Or.inr hother⟩

/-- **No record is followed twice**, and none that differs from another in nothing but what it
carries: one end of each is new. -/
theorem triples_nodup (h : Discovery g known found) :
    (found.map fun f => f.2.triple).Nodup := by
  induction h with
  | nil => exact List.nodup_nil
  | @concat found other r before _ new joined ih =>
    rw [List.map_append, List.map_singleton, List.nodup_append]
    refine ⟨ih, List.nodup_singleton _, fun triple htriple last hlast heq => ?_⟩
    obtain ⟨f, hf, rfl⟩ := List.mem_map.1 htriple
    obtain ⟨hsource, htarget, -⟩ : f.2.source = r.source ∧ f.2.target = r.target ∧ _ := by
      simpa [Record.triple] using heq.trans (List.mem_singleton.1 hlast)
    obtain ⟨hs, ht⟩ := before.ends_mem f hf
    rcases joined with ⟨hother, -⟩ | ⟨hother, -⟩
    · exact new (hother ▸ hsource ▸ hs)
    · exact new (hother ▸ htarget ▸ ht)

end Discovery

end Graph

end GraphReasoner
