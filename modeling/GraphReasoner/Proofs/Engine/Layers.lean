import GraphReasoner.Engine.Session
import GraphReasoner.Proofs.Chain.Loading
import GraphReasoner.Proofs.Chain.Valid
import GraphReasoner.Proofs.Graph.Rebuild

/-!
# Two ways to load a batch

The relations of a batch can be loaded into layers as they come. Between two identifiers the last
record counts then (`GraphReasoner.Batch.last?`). An engine loads the relations of the graph of the
batch instead, that is the last record of each triple in the place of the first one
(`GraphReasoner.Batch.latest`). Of these, the one counts whose type came up last
(`GraphReasoner.Batch.lastOfNewest?`), and this need not be the last record: a triple that comes up
again takes the content of the later record, but keeps its place.

The two ways fill the same layers exactly when between any two identifiers the last record has the
type that came up last (`GraphReasoner.Batch.KindsInOrder`). In particular they do when no triple
comes up twice, and when no two identifiers are joined by records of different types. A batch in
which they do not is `GraphReasoner.Engine.reused`.
-/

namespace GraphReasoner

variable {S : Type}

/-- The last item of a list in which nothing is dropped. -/
theorem getLast?_filterMap {α β : Type} {f : α → Option β} {items : List α}
    (h : ∀ a ∈ items, ∃ b, f a = some b) :
    (items.filterMap f).getLast? = items.getLast?.bind f := by
  induction items using List.reverseRecOn with
  | nil => rfl
  | append_singleton items a _ =>
    obtain ⟨b, hb⟩ := h a (List.mem_append_right _ (List.mem_singleton_self a))
    rw [List.filterMap_append, List.filterMap_cons_some hb, List.filterMap_nil,
      List.getLast?_concat, List.getLast?_concat, Option.bind_some, hb]

/-! ### Records between two identifiers -/

namespace Record

/-- The records between two identifiers, oldest first. -/
def joining (records : List (Record S)) (source target : String) : List (Record S) :=
  records.filter fun r => r.source == source && r.target == target

/-- The type that came up last between two identifiers: of all types there, the one whose first
record is the latest. -/
def newestKind? (records : List (Record S)) (source target : String) : Option String :=
  ((joining records source target).map kind).eraseDups.getLast?

/-- The last record with a triple. -/
def latest? (records : List (Record S)) (triple : String × String × String) : Option (Record S) :=
  records.reverse.find? fun r => r.triple == triple

/-- The type in a triple, if it joins two identifiers. -/
def kindOf? (source target : String) (triple : String × String × String) : Option String :=
  if triple.1 = source ∧ triple.2.1 = target then some triple.2.2 else none

variable {records : List (Record S)} {source target : String}

theorem triple_of_latest? {r : Record S} {triple : String × String × String}
    (h : latest? records triple = some r) : r.triple = triple := by
  simpa using List.find?_some h

theorem exists_latest? {triple : String × String × String}
    (h : triple ∈ records.map Record.triple) : ∃ r, latest? records triple = some r := by
  obtain ⟨r, hr, rfl⟩ := List.mem_map.1 h
  rw [← Option.isSome_iff_exists, latest?, List.find?_isSome]
  exact ⟨r, List.mem_reverse.2 hr, beq_self_eq_true r.triple⟩

theorem mem_joining_iff {r : Record S} : r ∈ joining records source target ↔
    r ∈ records ∧ r.source = source ∧ r.target = target := by
  simp [joining]

/-- The last record between two identifiers is the last one with its triple. -/
theorem latest?_triple_eq {r : Record S} (h : (joining records source target).getLast? = some r) :
    latest? records r.triple = some r := by
  rw [joining, List.getLast?_filter, List.find?_eq_some_iff_append] at h
  obtain ⟨hends, before, after, hsplit, hbefore⟩ := h
  rw [latest?, hsplit, List.find?_eq_some_iff_append]
  refine ⟨beq_self_eq_true _, before, after, rfl, fun other hother => ?_⟩
  have hne := hbefore other hother
  rw [Bool.not_eq_true'] at hne ⊢
  -- with the same triple it would join the same identifiers
  refine Bool.eq_false_iff.2 fun hsame => ?_
  obtain ⟨hsource, htarget, -⟩ : other.source = r.source ∧ other.target = r.target ∧
    other.kind = r.kind := by simpa [triple] using hsame
  rw [hsource, htarget, hends] at hne
  cases hne

theorem kindOf?_eq_some_iff {triple : String × String × String} {kind : String} :
    kindOf? source target triple = some kind ↔ triple = (source, target, kind) := by
  obtain ⟨s, t, k⟩ := triple
  rw [kindOf?]
  split
  · rename_i h
    obtain ⟨rfl, rfl⟩ := h
    simp
  · rename_i h
    refine ⟨nofun, fun heq => absurd ?_ h⟩
    cases heq
    exact ⟨rfl, rfl⟩

theorem map_kind_joining : (joining records source target).map kind =
    (records.map triple).filterMap (kindOf? source target) := by
  rw [joining, List.filterMap_map, ← List.filterMap_eq_map, List.filterMap_filter]
  refine List.filterMap_congr fun r _ => ?_
  by_cases hends : r.source = source ∧ r.target = target <;> simp [kindOf?, triple, hends]

/-- **Of the last records, those between two identifiers** are listed by their types, in the order
in which the types came up. -/
theorem joining_latest (b : Batch S) (source target : String) :
    joining b.latest source target =
      ((joining b.records source target).map kind).eraseDups.filterMap fun kind =>
        latest? b.records (source, target, kind) := by
  have hinjective : ∀ triple triple' kind, kindOf? source target triple = some kind →
      kindOf? source target triple' = some kind → triple = triple' := fun triple triple' kind h h' =>
    (kindOf?_eq_some_iff.1 h).trans (kindOf?_eq_some_iff.1 h').symm
  rw [map_kind_joining, Graph.eraseDups_filterMap hinjective, List.filterMap_filterMap, joining,
    Batch.latest, List.filter_filterMap]
  refine List.filterMap_congr fun triple _ => ?_
  change (latest? b.records triple).filter _ = _
  rcases hkind : kindOf? source target triple with _ | kind
  · -- no record with this triple joins the two identifiers
    rw [Option.bind_none, Option.filter_eq_none_iff]
    intro r hr hends
    rw [Bool.and_eq_true, beq_iff_eq, beq_iff_eq] at hends
    obtain rfl := triple_of_latest? hr
    have hsome : kindOf? source target r.triple = some r.kind := if_pos hends
    cases hkind.symm.trans hsome
  · obtain rfl := kindOf?_eq_some_iff.1 hkind
    rw [Option.bind_some]
    rcases hlast : latest? b.records (source, target, kind) with _ | r
    · rfl
    · obtain ⟨rfl, rfl, rfl⟩ : r.source = source ∧ r.target = target ∧ r.kind = kind := by
        simpa [triple] using triple_of_latest? hlast
      simp

end Record

/-! ### Which record counts -/

namespace Batch

/-- The last record between two identifiers. -/
def last? (b : Batch S) (source target : String) : Option (Record S) :=
  (Record.joining b.records source target).getLast?

/-- The last record of the type that came up last between two identifiers. -/
def lastOfNewest? (b : Batch S) (source target : String) : Option (Record S) :=
  (Record.newestKind? b.records source target).bind fun kind =>
    Record.latest? b.records (source, target, kind)

/-- **The types come in order** when the last record between any two identifiers has the type that
came up last between them. -/
def KindsInOrder (b : Batch S) : Prop :=
  ∀ source target,
    (b.last? source target).map Record.kind = Record.newestKind? b.records source target

variable (b : Batch S) {source target : String}

variable {b} in
theorem mem_of_mem_latest {r : Record S} (h : r ∈ b.latest) : r ∈ b.records := by
  obtain ⟨triple, -, hr⟩ := List.mem_filterMap.1 h
  exact List.mem_reverse.1 (List.mem_of_find?_eq_some hr)

/-- The last records are listed by their triples, in the order in which these came up. -/
theorem map_triple_latest :
    b.latest.map Record.triple = (b.records.map Record.triple).eraseDups := by
  rw [latest, List.map_filterMap]
  refine (List.filterMap_congr fun triple htriple => ?_).trans List.filterMap_some
  obtain ⟨r, hr⟩ := Record.exists_latest? (List.mem_eraseDups.1 htriple)
  exact (congrArg (Option.map Record.triple) hr).trans
    (congrArg some (Record.triple_of_latest? hr))

/-- **The last of the last records** between two identifiers has the type that came up last. -/
theorem getLast?_joining_latest (source target : String) :
    (Record.joining b.latest source target).getLast? = b.lastOfNewest? source target := by
  rw [Record.joining_latest, getLast?_filterMap, lastOfNewest?, Record.newestKind?]
  intro kind hkind
  obtain ⟨r, hr, rfl⟩ := List.mem_map.1 (List.mem_eraseDups.1 hkind)
  obtain ⟨hin, rfl, rfl⟩ := Record.mem_joining_iff.1 hr
  exact Record.exists_latest? (List.mem_map_of_mem hin)

/-- **The same record counts** exactly when the last record has the type that came up last. -/
theorem lastOfNewest?_eq_last?_iff :
    b.lastOfNewest? source target = b.last? source target ↔
      (b.last? source target).map Record.kind = Record.newestKind? b.records source target := by
  rw [lastOfNewest?]
  rcases hlast : b.last? source target with _ | r
  · have hnone : Record.newestKind? b.records source target = none := by
      rw [Record.newestKind?, List.getLast?_eq_none_iff.1 hlast]
      rfl
    rw [hnone]
    exact iff_of_true rfl rfl
  · obtain ⟨-, rfl, rfl⟩ := Record.mem_joining_iff.1 (List.mem_of_getLast? hlast)
    rw [Option.map_some]
    constructor
    · intro h
      obtain ⟨kind, hkind, hr⟩ := Option.bind_eq_some_iff.1 h
      cases Record.triple_of_latest? hr
      exact hkind.symm
    · intro h
      rw [← h, Option.bind_some]
      exact Record.latest?_triple_eq hlast

end Batch

namespace Layer

/-- Between two identifiers the last record counts. -/
theorem payload?_ofRecords (records : List (Record S)) (source target : String) :
    (ofRecords records).payload? source target =
      (Record.joining records source target).getLast? := by
  rw [ofRecords, payload?_fill, latest?, ← List.map_reverse, List.find?_map, Option.map_map,
    Record.joining, List.getLast?_filter]
  exact congrFun Option.map_id _

/-- **The last records fill the same layer as all records** exactly when the types come in order. -/
theorem ofRecords_latest_eq_iff (b : Batch S) :
    ofRecords b.latest = ofRecords b.records ↔ b.KindsInOrder := by
  have hsame : (∀ source target, (ofRecords b.latest).payload? source target =
      (ofRecords b.records).payload? source target) ↔ b.KindsInOrder :=
    forall₂_congr fun source target => by
      rw [payload?_ofRecords, payload?_ofRecords, b.getLast?_joining_latest]
      exact b.lastOfNewest?_eq_last?_iff
  refine ⟨fun h => hsame.1 fun source target => by rw [h], fun h => ?_⟩
  -- the pairs come up in the order of their triples
  have hpairs : ∀ records : List (Record S),
      (records.map fun r => ((r.source, r.target), r)).map Prod.fst =
        (records.map Record.triple).map fun triple => (triple.1, triple.2.1) := fun records => by
    rw [List.map_map, List.map_map]
    rfl
  refine fill_congr ?_ fun pair => ?_
  · rw [hpairs, hpairs, b.map_triple_latest, Graph.eraseDups_map_eraseDups]
  · rw [← payload?_fill, ← payload?_fill]
    exact hsame.2 h pair.1 pair.2

end Layer

/-- A reasoner shows the records that a function finds between two identifiers when both its layers
do. -/
def ChainReasoner.Shows (c : ChainReasoner S) (found : String → String → Option (Record S)) :
    Prop :=
  ∀ source target,
    (c.dated.payload? source target).map (fun d => d.relation.toRecord) = found source target ∧
      (c.evidenced.payload? source target).map (fun e => e.relation.toRecord) = found source target

theorem ChainReasoner.LoadedWith.shows [Scalar S] {c : ChainReasoner S}
    {records : List (Record S)} (hc : c.LoadedWith records) :
    c.Shows fun source target => (Record.joining records source target).getLast? := by
  intro source target
  rw [← Layer.payload?_map, ← Layer.payload?_map, hc.dated, hc.evidenced,
    Layer.payload?_ofRecords]
  exact ⟨rfl, rfl⟩

/-- The relations of a graph that tells calls have its records. -/
theorem Graph.Tells.map_toRecord_relations [Scalar S] {g : Graph S} {done : List (Insertion S)}
    (h : g.Tells done) : g.relations.map Relation.toRecord = g.records := by
  rw [relations, List.map_filterMap]
  refine (List.filterMap_congr fun r hr => ?_).trans List.filterMap_some
  obtain ⟨-, -, s, t, hs, ht, -, hres⟩ := h.resolve_of_mem hr
  rw [hres, Option.map_some, Relation.toRecord, Record.between, id_of_entity? hs, id_of_entity? ht]

/-! ### Opening an engine -/

namespace Engine

open GraphReasoner.Time (Instant)

section Opening

variable [Numeral S] {settings : Settings S} {b : Batch S} {root : Folder}
  {working : List String} {now : Instant}

theorem openParts_eq_ok_iff {parts : Graph S × Cache Storage} :
    openParts settings b root working now = .ok parts ↔ settings.validate = .ok () ∧
      ∃ g medium, Graph.ofBatch b = .ok g ∧
        Storage.openIn settings.storage working root = .ok medium ∧
        parts = (g, .openOn medium settings.cache now) := by
  simp only [openParts, bind_eq_ok_iff]
  constructor
  · rintro ⟨⟨⟩, hvalid, g, hg, hopen⟩
    split at hopen
    · rename_i medium hmedium
      exact ⟨hvalid, g, medium, hg, hmedium, (Except.ok.inj hopen).symm⟩
    · cases hopen
  · rintro ⟨hvalid, g, medium, hg, hmedium, rfl⟩
    exact ⟨(), hvalid, g, hg, by rw [hmedium]; rfl⟩

/-- **An engine is opened exactly when its parts are there**: settings without a defect, the graph
of the batch, a medium, rules, and layers. -/
theorem openOn_eq_ok_iff {e : Engine S Storage} :
    (openOn settings b root working now).1 = .ok e ↔ settings.validate = .ok () ∧
      ∃ g medium rules chains, Graph.ofBatch b = .ok g ∧
        Storage.openIn settings.storage working root = .ok medium ∧
        rulesFor settings root working now = .ok rules ∧
        ChainReasoner.ofRelations settings.inference g.relations = .ok chains ∧
        e = ⟨settings, g, .openOn medium settings.cache now, rules, chains,
          .empty settings.planner⟩ := by
  rw [openOn]
  rcases hparts : openParts settings b root working now with error | ⟨g, cache⟩
  · refine ⟨nofun, fun ⟨hvalid, g, medium, _, _, hg, hmedium, _⟩ => ?_⟩
    cases hparts.symm.trans (openParts_eq_ok_iff.2 ⟨hvalid, g, medium, hg, hmedium, rfl⟩)
  · obtain ⟨hvalid, g, medium, hg, hmedium, heq⟩ := openParts_eq_ok_iff.1 hparts
    obtain ⟨rfl, rfl⟩ := Prod.mk.inj heq
    simp only [make, bind_eq_ok_iff]
    constructor
    · rintro ⟨rules, hrules, chains, hchains, hmade⟩
      exact ⟨hvalid, _, medium, rules, chains, hg, hmedium, hrules, hchains,
        (Except.ok.inj hmade).symm⟩
    · rintro ⟨-, g', medium', rules, chains, hg', hmedium', hrules, hchains, rfl⟩
      obtain rfl := Except.ok.inj (hg.symm.trans hg')
      obtain rfl := Except.ok.inj (hmedium.symm.trans hmedium')
      exact ⟨rules, hrules, chains, hchains, rfl⟩

end Opening

/-- **Two ways to load a batch.** Let the batch be proper and each of its records have bounds and a
probability. Its relations can be loaded as they come exactly when every record can be loaded, and
an engine can be opened on it exactly when, settings and files apart, the latest record of each
triple can be. The settings are those that `GraphReasoner.Engine.openOn` is meant for.

The engine infers what the latest records do when these are loaded as they come. Between two
identifiers it has the last record of the type that came up last, where the relations that were
loaded as they come have the last record. So the layers look alike exactly when the types come in
order, and then the engine infers the same from every entity to every other one. -/
theorem openOn_layers [Numeral S] [PartialEquivBEq S] (settings : Settings S) (b : Batch S)
    (root : Folder) (working : List String) (now : Instant) (hproper : b.Proper)
    (htwofold : ∀ r ∈ b.records, r.Twofold) :
    ∃ relations latest, b.resolve = .ok relations ∧
      (⟨b.entities, b.latest⟩ : Batch S).resolve = .ok latest ∧
      ((∃ c, ChainReasoner.ofRelations settings.inference relations = .ok c) ↔
        ∀ r ∈ b.records, r.Loadable) ∧
      ((∃ e, (openOn settings b root working now).1 = .ok e) ↔ settings.validate = .ok () ∧
        (∃ medium, Storage.openIn settings.storage working root = .ok medium) ∧
        (∃ rules, rulesFor settings root working now = .ok rules) ∧
        ∀ r ∈ b.latest, r.Loadable) ∧
      ∀ e, (openOn settings b root working now).1 = .ok e →
        (∃ c, ChainReasoner.ofRelations settings.inference latest = .ok c ∧
          e.chains.InfersLike c) ∧
        e.chains.Shows b.lastOfNewest? ∧
        ∀ c, ChainReasoner.ofRelations settings.inference relations = .ok c →
          c.Shows b.last? ∧ (e.chains.LooksLike c ↔ b.KindsInOrder) ∧
          (b.KindsInOrder → e.chains.InfersLike c) := by
  obtain ⟨g, hg⟩ := Graph.exists_ofBatch_iff.2 hproper
  obtain ⟨-, hrecords, done, htells⟩ := Graph.ofBatch_content hg
  have htwofold' : ∀ r ∈ b.latest, r.Twofold := fun r hr => htwofold r (Batch.mem_of_mem_latest hr)
  obtain ⟨relations, hresolve⟩ := Batch.exists_resolve_iff.2 ⟨hproper.listed, hproper.resolved⟩
  obtain ⟨latest, hlatest⟩ := Batch.exists_resolve_iff (b := ⟨b.entities, b.latest⟩).2
    ⟨fun r hr => hproper.listed r (Batch.mem_of_mem_latest hr),
      fun r hr => hproper.resolved r (Batch.mem_of_mem_latest hr)⟩
  -- the three lists of relations that are loaded, and the records of each
  have hall := ChainReasoner.ofRelations_loads settings.inference
    (Batch.map_toRecord_of_resolve hresolve) (fun r hr => (Batch.of_mem_resolve hresolve hr).1)
    htwofold
  have hlast := ChainReasoner.ofRelations_loads settings.inference
    (Batch.map_toRecord_of_resolve hlatest) (fun r hr => (Batch.of_mem_resolve hlatest hr).1)
    htwofold'
  have hgraph := ChainReasoner.ofRelations_loads settings.inference
    (htells.map_toRecord_relations.trans hrecords) (fun r => htells.relation_valid) htwofold'
  refine ⟨relations, latest, hresolve, hlatest, hall.1, ?_, fun e he => ?_⟩
  · simp only [openOn_eq_ok_iff, ← hgraph.1]
    constructor
    · rintro ⟨e, hvalid, g', medium, rules, chains, hg', hmedium, hrules, hchains, -⟩
      obtain rfl := Except.ok.inj (hg.symm.trans hg')
      exact ⟨hvalid, ⟨medium, hmedium⟩, ⟨rules, hrules⟩, chains, hchains⟩
    · rintro ⟨hvalid, ⟨medium, hmedium⟩, ⟨rules, hrules⟩, chains, hchains⟩
      exact ⟨_, hvalid, g, medium, rules, chains, hg, hmedium, hrules, hchains, rfl⟩
  obtain ⟨-, g', medium, rules, chains, hg', -, -, hchains, rfl⟩ := openOn_eq_ok_iff.1 he
  obtain rfl := Except.ok.inj (hg.symm.trans hg')
  obtain ⟨hsettings, hloaded⟩ := hgraph.2 chains hchains
  refine ⟨?_, ?_, fun c hc => ?_⟩
  · obtain ⟨c, hc⟩ := hlast.1.2 (hgraph.1.1 ⟨chains, hchains⟩)
    obtain ⟨hsettings', hloaded'⟩ := hlast.2 c hc
    exact ⟨c, hc, hloaded.infersLike hloaded' (hsettings.trans hsettings'.symm)
      ((hloaded.looksLike_iff hloaded').2 rfl)⟩
  · intro source target
    rw [← b.getLast?_joining_latest]
    exact hloaded.shows source target
  · obtain ⟨hsettings', hloaded'⟩ := hall.2 c hc
    have hlooks : chains.LooksLike c ↔ b.KindsInOrder :=
      (hloaded.looksLike_iff hloaded').trans (Layer.ofRecords_latest_eq_iff b)
    exact ⟨hloaded'.shows, hlooks, fun horder =>
      hloaded.infersLike hloaded' (hsettings.trans hsettings'.symm) (hlooks.2 horder)⟩

/-! ### Three reports -/

open TwoSteps (entity)

/-- Reports that join two things: records of some types, each as confident as it is probable. -/
def reports (items : List (String × Fraction)) : Batch Fraction :=
  ⟨[entity "A", entity "B"], items.map fun (kind, p) =>
    ⟨"A", "B", kind, p, ⟨[("probability", .float p)]⟩, some ⟨⟨1, 0⟩, none, none⟩⟩⟩

theorem twofold_reports (items : List (String × Fraction)) :
    ∀ r ∈ (reports items).records, r.Twofold := by
  intro r hr
  obtain ⟨⟨kind, p⟩, -, rfl⟩ := List.mem_map.1 hr
  exact ⟨⟨_, rfl⟩, p, rfl⟩

theorem loadable_reports {items : List (String × Fraction)}
    (h : ∀ item ∈ items, Scalar.InUnit item.2) : ∀ r ∈ (reports items).records, r.Loadable := by
  intro r hr
  obtain ⟨⟨kind, p⟩, hitem, rfl⟩ := List.mem_map.1 hr
  refine ⟨fun p' hp' => ?_, [], rfl⟩
  obtain rfl := Option.some.inj hp'
  exact h _ hitem

/-- How confident and how probable the relations are that a reasoner infers between the two things,
by bounds and by probabilities. -/
def inferred (c : ChainReasoner Fraction) : List Fraction × List Fraction :=
  ((Dated.infer c.dated c.settings (entity "A") (entity "B") "is_a").map
      fun d => d.relation.confidence,
    (Evidenced.infer c.evidenced c.settings (entity "A") (entity "B") "is_a").map
      Evidenced.probability)

theorem inferred_eq_of_infersLike {c c' : ChainReasoner Fraction} (h : c.InfersLike c') :
    inferred c = inferred c' := by
  obtain ⟨hdated, hevidenced⟩ := h (entity "A") (entity "B") "is_a"
  rw [inferred, hdated, hevidenced, inferred]

/-- Reports of two types, of which the second is repeated. -/
def repeated : Batch Fraction :=
  reports [("is_a", 0.7), ("causes", 0.8), ("causes", 0.9)]

/-- Reports of two types, of which the first is used again at last. -/
def reused : Batch Fraction :=
  reports [("is_a", 0.7), ("causes", 0.8), ("is_a", 0.9)]

theorem proper_of_toOption {b : Batch Fraction}
    (h : (Graph.ofBatch b).toOption.map (fun _ => ()) = some ()) : b.Proper := by
  obtain ⟨g, hg, -⟩ := toOption_map_eq_some_iff.1 h
  exact Graph.exists_ofBatch_iff.1 ⟨g, hg⟩

/-- Where the second type is repeated, both ways yield what the last report says. -/
theorem openOn_layers_repeated : ∃ relations c e, repeated.resolve = .ok relations ∧
    ChainReasoner.ofRelations .default relations = .ok c ∧
    (openOn .default repeated [] [] ⟨0, 0⟩).1 = .ok e ∧ e.chains.InfersLike c ∧
    inferred e.chains = ([0.9], [0.9]) ∧ inferred c = ([0.9], [0.9]) := by
  have hproper : repeated.Proper := proper_of_toOption (by decide +kernel)
  have hloadable : ∀ r ∈ repeated.records, r.Loadable := loadable_reports (by decide +kernel)
  obtain ⟨relations, _, hresolve, -, hloads, hopens, hboth⟩ :=
    openOn_layers .default repeated [] [] ⟨0, 0⟩ hproper (twofold_reports _)
  obtain ⟨c, hc⟩ := hloads.2 hloadable
  obtain ⟨e, he⟩ := hopens.2 ⟨by with_unfolding_all rfl, ⟨_, rfl⟩, ⟨_, rfl⟩,
    fun r hr => hloadable r (Batch.mem_of_mem_latest hr)⟩
  obtain ⟨-, -, hcompare⟩ := hboth e he
  have horder : repeated.KindsInOrder :=
    (Layer.ofRecords_latest_eq_iff repeated).1 (by with_unfolding_all rfl)
  have hlike : e.chains.InfersLike c := (hcompare c hc).2.2 horder
  have hinferred : (openOn .default repeated [] [] ⟨0, 0⟩).1.toOption.map
      (fun e => inferred e.chains) = some ([0.9], [0.9]) := by decide +kernel
  obtain ⟨e', he', hinferred⟩ := toOption_map_eq_some_iff.1 hinferred
  obtain rfl := Except.ok.inj (he.symm.trans he')
  exact ⟨relations, c, e, hresolve, hc, he, hlike, hinferred,
    (inferred_eq_of_infersLike hlike).symm.trans hinferred⟩

/-- **Where the first type is used again, the two ways differ**: the engine has the report of the
second type, and the relations that were loaded as they come have the last one. -/
theorem not_infersLike_reused : reused.Proper ∧ (∀ r ∈ reused.records, r.Twofold) ∧
    ∃ relations c e, reused.resolve = .ok relations ∧
      ChainReasoner.ofRelations .default relations = .ok c ∧
      (openOn .default reused [] [] ⟨0, 0⟩).1 = .ok e ∧
      inferred e.chains = ([0.8], [0.8]) ∧ inferred c = ([0.9], [0.9]) ∧
      ¬e.chains.InfersLike c := by
  refine ⟨proper_of_toOption (by decide +kernel), twofold_reports _, ?_⟩
  have hdirect : (reused.resolve >>= ChainReasoner.ofRelations .default).toOption.map inferred =
      some ([0.9], [0.9]) := by decide +kernel
  have hengine : (openOn .default reused [] [] ⟨0, 0⟩).1.toOption.map
      (fun e => inferred e.chains) = some ([0.8], [0.8]) := by decide +kernel
  obtain ⟨c, hloaded, hc⟩ := toOption_map_eq_some_iff.1 hdirect
  obtain ⟨relations, hresolve, hloaded⟩ := bind_eq_ok_iff.1 hloaded
  obtain ⟨e, hopened, he⟩ := toOption_map_eq_some_iff.1 hengine
  refine ⟨relations, c, e, hresolve, hloaded, hopened, he, hc, fun hlike => ?_⟩
  have hsame := inferred_eq_of_infersLike hlike
  rw [he, hc] at hsame
  exact absurd hsame (by decide +kernel)

end Engine

end GraphReasoner
