import GraphReasoner.Chain.Reasoner
import GraphReasoner.Proofs.Exact
import GraphReasoner.Proofs.Fallible
import GraphReasoner.Proofs.Graph.Path

/-!
# Walks and paths

Walks are sought along records and paths along identifiers, by two different searches. As lists of
identifiers the walks from an entity are what the search for paths goes through before it looks at
the target, with every step repeated as often as there are relations for it
(`GraphReasoner.Graph.map_target_walksFrom`). So the walks to a target follow the simple paths
(`GraphReasoner.Graph.explore_agrees_simplePaths`), as far as the search for them has an outcome
(`GraphReasoner.Graph.explore?_eq_none_iff`).
-/

namespace GraphReasoner

variable {S : Type}

namespace Graph

variable {g : Graph S} {hops : Nat} {visited : List String} {id : String} {walk : List (Record S)}

/-! ### The room for a path -/

theorem roomFor_iff : RoomFor hops ↔ hops ≤ (2 ^ 63 - 1) / 4 := by
  unfold RoomFor edgeRoom greatestRoom
  omega

/-- **Only for lack of room is there no outcome.** -/
theorem explore?_eq_none_iff [Scalar S] {start : String} {floor : S} :
    g.explore? start hops floor = none ↔ g.hasEntity start = true ∧ (2 ^ 63 - 1) / 4 < hops := by
  rw [← Nat.not_le, ← roomFor_iff, explore?]
  split <;> simp [*]

/-- When there is an outcome, it is what the walks yield. -/
theorem eq_explore_of_explore? [Scalar S] {start : String} {floor : S} {found : List (Relation S)}
    (h : g.explore? start hops floor = some found) : found = g.explore start hops floor := by
  rw [explore?] at h
  split at h
  · cases h
  · exact (Option.some.inj h).symm

/-! ### The search -/

/-- **The identifiers along the walks are the ways on**, in the order of the search. -/
theorem map_target_walksFrom (g : Graph S) (hops : Nat) (visited : List String) (id : String) :
    (g.walksFrom hops visited id).map (List.map Record.target) =
      Path.walks g.targets hops visited id := by
  induction hops generalizing visited id with
  | zero => rfl
  | succ hops ih =>
    rw [walksFrom, Path.walks, targets, List.map_flatMap, List.flatMap_map]
    refine List.flatMap_congr fun r _ => ?_
    simp only [List.contains_iff_mem]
    split
    · rfl
    · rw [← ih, List.map_cons, List.map_map, List.map_map]
      rfl

/-- A walk goes along records of the graph, at least along one. -/
theorem records_of_mem_walksFrom (h : walk ∈ g.walksFrom hops visited id) :
    walk ≠ [] ∧ ∀ r ∈ walk, r ∈ g.records := by
  induction hops generalizing visited id walk with
  | zero => cases h
  | succ hops ih =>
    obtain ⟨first, hfirst, hwalk⟩ := List.mem_flatMap.1 h
    have hrecord : first ∈ g.records := (List.mem_filter.1 hfirst).1
    split at hwalk
    · cases hwalk
    · rcases List.mem_cons.1 hwalk with rfl | hmore
      · exact ⟨List.cons_ne_nil _ _, List.forall_mem_singleton.2 hrecord⟩
      · obtain ⟨rest, hrest, rfl⟩ := List.mem_map.1 hmore
        exact ⟨List.cons_ne_nil _ _, List.forall_mem_cons.2 ⟨hrecord, (ih hrest).2⟩⟩

end Graph

/-! ### The relation of a walk -/

/-- **The identifiers along the walk that a relation was found by**: its source, the nodes between
as its properties tell them, and its target. -/
def Relation.nodeSequence? (r : Relation S) : Option (List String) :=
  ((r.properties.get? "intermediate_nodes").bind Value.asTextList).map fun between =>
    r.source.id :: (between ++ [r.target.id])

/-- The properties of the relation that a walk yields. -/
def Graph.walkProperties (walk : List (Record S)) : Properties S :=
  .ofList [("inferred", .bool true), ("inference", .text "multi_hop"),
    ("path_length", .ofNat walk.length),
    ("intermediate_nodes", .ofTexts (walk.dropLast.map Record.target))]

/-- The nodes between the ends of a walk are found in the properties. -/
theorem Graph.get?_walkProperties (walk : List (Record S)) :
    (walkProperties walk).get? "intermediate_nodes" =
      some (.ofTexts (walk.dropLast.map Record.target)) := by
  simp [walkProperties, Properties.ofList, Properties.get?, Table.ofList, Table.insertAll,
    Table.get?_insert]

/-- So is the length of the walk. -/
theorem Graph.get?_walkProperties_length (walk : List (Record S)) :
    (walkProperties walk).get? "path_length" = some (.ofNat walk.length) := by
  simp [walkProperties, Properties.ofList, Properties.get?, Table.ofList, Table.insertAll,
    Table.get?_insert]

/-- A list of texts is told again. -/
theorem Value.asTextList_ofTexts (items : List String) :
    (ofTexts items : Value S).asTextList = some items := by
  rw [ofTexts, asTextList, asList, Option.bind_some]
  exact mapM_eq_pure fun _ _ => rfl

variable [Scalar S]

namespace Graph

variable {g : Graph S} {hops : Nat} {visited : List String} {id : String} {walk : List (Record S)}
  {done : List (Insertion S)}

/-- What is stored is part of a valid relation. -/
theorem Tells.record_valid (h : g.Tells done) {r : Record S} (hr : r ∈ g.records) :
    ¬Text.AllBlank r.kind ∧ Scalar.InUnit r.confidence := by
  obtain ⟨rel, hres⟩ := h.resolves r hr
  have hvalid := h.relation_valid (mem_relations_iff.2 ⟨r, hr, hres⟩)
  obtain ⟨-, -, hkind, hunit, -⟩ := (Relation.validate_eq_ok_iff _).1 hvalid
  obtain ⟨_, _, -, -, rfl⟩ := resolve?_eq_some_iff.1 hres
  exact ⟨hkind, hunit⟩

/-- **Every walk yields a relation**, from the entity where it starts to the entity where it ends,
which tells the identifiers along it. -/
theorem Tells.concludeWalk_eq (h : g.Tells done) (start : Entity S)
    (hwalk : walk ∈ g.walksFrom hops visited id) :
    ∃ last ∈ walk, ∃ target, (walk.map Record.target).getLast? = some target.id ∧
      g.entity? target.id = some target ∧
      g.concludeWalk start walk = some
        (.derived start target last.kind (walkConfidence walk) (walkProperties walk)) ∧
      (Relation.derived start target last.kind (walkConfidence walk)
        (walkProperties walk)).nodeSequence? = some (start.id :: walk.map Record.target) := by
  obtain ⟨hne, hrecords⟩ := records_of_mem_walksFrom hwalk
  have hlast : walk.getLast hne ∈ walk := List.getLast_mem hne
  obtain ⟨rel, hres⟩ := h.resolves _ (hrecords _ hlast)
  obtain ⟨-, target, -, htarget, -⟩ := resolve?_eq_some_iff.1 hres
  have hid : (walk.getLast hne).target = target.id := (id_of_entity? htarget).symm
  refine ⟨walk.getLast hne, hlast, target, ?_, hid ▸ htarget, ?_, ?_⟩
  · rw [List.getLast?_map, List.getLast?_eq_some_getLast hne, Option.map_some, hid]
  · rw [concludeWalk, List.getLast?_eq_some_getLast hne]
    exact congrArg (Option.bind · _) htarget
  · have hwhole : walk.dropLast.map Record.target ++ [target.id] = walk.map Record.target := by
      conv_rhs => rw [← List.dropLast_append_getLast hne, List.map_append, List.map_singleton, hid]
    rw [Relation.nodeSequence?, Relation.derived, get?_walkProperties, Option.bind_some,
      Value.asTextList_ofTexts, Option.map_some, hwhole]

/-- **Walks yield valid relations.** -/
theorem Tells.valid_explore [ExactScalar S] (hroot : ExactScalar.RootsInUnit S) (h : g.Tells done)
    (start : String) (hops : Nat) (floor : S) :
    ∀ r ∈ g.explore start hops floor, r.validate = .ok () := by
  intro r hr
  unfold explore at hr
  split at hr
  · cases hr
  · rename_i entity hentity
    obtain ⟨walk, hwalk, hconclude⟩ := List.mem_filterMap.1 hr
    replace hwalk := (List.mem_filter.1 hwalk).1
    have hrecords := (records_of_mem_walksFrom hwalk).2
    obtain ⟨last, hlast, target, -, htarget, heq, -⟩ := h.concludeWalk_eq entity hwalk
    obtain rfl := Option.some.inj (heq.symm.trans hconclude)
    refine (Relation.validate_eq_ok_iff _).2 ⟨h.entity_valid hentity, h.entity_valid htarget,
      (h.record_valid (hrecords last hlast)).1, ?_, nofun⟩
    refine ExactScalar.inUnit_geometricMean hroot fun x hx => ?_
    obtain ⟨step, hstep, rfl⟩ := List.mem_map.1 hx
    exact (h.record_valid (hrecords step hstep)).2

/-! ### Walks to one target and paths to it -/

/-- **The walks that end in a target, as identifier sequences**, are the ways on from the start that
end there. Nothing is held back by a floor that no mean of confidences falls below. -/
theorem Tells.map_nodeSequence?_explore (h : g.Tells done)
    (hmean : ∀ xs : List S, (∀ x ∈ xs, Scalar.InUnit x) → (0.0 : S) ≤ geometricMean xs)
    (start target : String) (hops : Nat) :
    ((g.explore start hops 0.0).filter fun r => r.target.id = target).map Relation.nodeSequence? =
      ((Path.walks g.targets hops [start] start).filter fun way => way.getLast? = some target).map
        fun way => some (start :: way) := by
  unfold explore
  split
  · rename_i hnone
    -- nothing leads away from what is no entity
    have hempty : Path.walks g.targets hops [start] start = [] := by
      refine List.eq_nil_iff_forall_not_mem.2 fun way hway => ?_
      obtain ⟨hfresh, hsteps⟩ := Path.mem_walks_iff.1 hway
      obtain ⟨v, rest, rfl⟩ := List.exists_cons_of_ne_nil hfresh.ne_nil
      have hstep := h.resolves.hasEntity_of_mem_targets (hsteps (start, v) List.mem_cons_self)
      obtain ⟨e, he⟩ := hasEntity_iff.1 hstep.1
      cases hnone.symm.trans he
    rw [hempty]
    rfl
  · rename_i entity hentity
    have hid : entity.id = start := id_of_entity? hentity
    have hall : (g.walks start hops).filter (fun walk => (0.0 : S) ≤ walkConfidence walk) =
        g.walks start hops := by
      refine List.filter_eq_self.2 fun walk hwalk => decide_eq_true (hmean _ fun x hx => ?_)
      obtain ⟨r, hr, rfl⟩ := List.mem_map.1 hx
      exact (h.record_valid ((records_of_mem_walksFrom hwalk).2 r hr)).2
    rw [hall, walks, ← map_target_walksFrom, List.filter_map, List.map_map, List.filter_filterMap,
      List.map_filterMap, ← List.filterMap_eq_map, List.filterMap_filter]
    refine List.filterMap_congr fun walk hwalk => ?_
    obtain ⟨last, -, found, hlast, -, heq, hsequence⟩ := h.concludeWalk_eq entity hwalk
    rw [heq, Option.filter_some, Function.comp_apply, hlast]
    have hsame : decide (some found.id = some target) = decide (found.id = target) := by
      simp only [Option.some.injEq]
    rw [hsame, ← hid]
    by_cases hfound : found.id = target
    · simp [Relation.derived, hfound, ← hsequence]
    · simp [Relation.derived, hfound]

variable {start target : String}

/-- **Walks and paths agree.** Between two different identifiers the walks, whatever the confidences
along them, follow exactly the simple paths. A path is listed once, and there are as many walks
along it as its steps can be chosen among parallel relations. -/
theorem explore_agrees_simplePaths
    (hmean : ∀ xs : List S, (∀ x ∈ xs, Scalar.InUnit x) → (0.0 : S) ≤ geometricMean xs)
    (calls : List (Insertion S)) (hends : start ≠ target) (hops : Nat) :
    let g := grow empty calls
    let found := ((g.explore start hops 0.0).filter fun r => r.target.id = target).map
      Relation.nodeSequence?
    (g.simplePaths start target hops).Nodup ∧
    (∀ sequence, sequence ∈ found ↔
      ∃ path ∈ g.simplePaths start target hops, sequence = some path) ∧
    ∀ path ∈ g.simplePaths start target hops, found.count (some path) =
      ((Path.pairs path).map fun step => (g.between step.1 step.2).length).prod := by
  intro g found
  have htells : g.Tells (accepted empty calls) := tells_grow calls
  have hfound : found = ((Path.walks g.targets hops [start] start).filter fun way =>
      way.getLast? = some target).map fun way => some (start :: way) :=
    htells.map_nodeSequence?_explore hmean start target hops
  have hpaths : ∀ path, path ∈ g.simplePaths start target hops ↔
      ∃ way ∈ (Path.walks g.targets hops [start] start).filter fun way =>
        way.getLast? = some target, start :: way = path := by
    intro path
    rw [htells.resolves.mem_simplePaths_iff, ← Path.mem_simplePaths_iff, Path.simplePaths,
      if_neg hends, Path.ways_eq_filter_walks, List.mem_map]
  refine ⟨htells.nodup_simplePaths start target hops, ?_, ?_⟩
  · intro sequence
    rw [hfound, List.mem_map]
    constructor
    · rintro ⟨way, hway, rfl⟩
      exact ⟨_, (hpaths _).2 ⟨way, hway, rfl⟩, rfl⟩
    · rintro ⟨path, hpath, rfl⟩
      obtain ⟨way, hway, rfl⟩ := (hpaths _).1 hpath
      exact ⟨way, hway, rfl⟩
  · intro path hpath
    obtain ⟨way, hway, rfl⟩ := (hpaths _).1 hpath
    obtain ⟨hwalk, hlast⟩ := List.mem_filter.1 hway
    have hinj : Function.Injective fun way : List String => some (start :: way) := by
      intro way way' heq
      exact (List.cons.inj (Option.some.inj heq)).2
    rw [hfound, List.count_map_of_injective _ _ hinj,
      List.count_filter (p := fun way : List String => way.getLast? = some target) hlast,
      Path.count_walks (Path.fresh_of_mem_walks hwalk)]
    simp only [htells.resolves.count_targets]

end Graph

/-- A report of chains is there unless the search for walks stops the program. -/
theorem ChainReasoner.inferAll_eq_none_iff {c : ChainReasoner S} {g : Graph S}
    {source target : Entity S} {kind : String} : c.inferAll g source target kind = none ↔
      g.hasEntity source.id = true ∧ (2 ^ 63 - 1) / 4 < c.settings.maxHops := by
  have hsearch : g.explore? source.id c.settings.maxHops c.settings.minConfidence = none ↔
      g.hasEntity source.id = true ∧ (2 ^ 63 - 1) / 4 < c.settings.maxHops :=
    Graph.explore?_eq_none_iff
  rw [← hsearch, inferAll]
  rcases g.explore? source.id c.settings.maxHops c.settings.minConfidence with _ | found
  · exact ⟨fun _ => rfl, fun _ => rfl⟩
  · exact ⟨nofun, nofun⟩

end GraphReasoner
