import GraphReasoner.Chain.Reasoner
import GraphReasoner.Proofs.Chain.Dated
import GraphReasoner.Proofs.Chain.Evidenced
import GraphReasoner.Proofs.Chain.Filling

/-!
# Loading relations into layers

A relation that has bounds and a probability enters both layers of a reasoner. What enters is read
off the relation, and of the relation only its record matters: neither kind of chain looks at the
entities of its steps. So a reasoner over a list of relations is known by the records of these
relations (`GraphReasoner.ChainReasoner.LoadedWith`), and two reasoners whose layers show the same
records infer the same (`GraphReasoner.ChainReasoner.LoadedWith.infersLike`).
-/

namespace GraphReasoner

/-- Lists that look alike look alike in everything that can be told from the looks. -/
theorem map_eq_map_of_map_eq {α β γ : Type} {f : α → β} {g : α → γ} {as as' : List α}
    (h : as.map f = as'.map f) (hg : ∀ a ∈ as, ∀ a' ∈ as', f a = f a' → g a = g a') :
    as.map g = as'.map g := by
  induction as generalizing as' with
  | nil =>
    obtain rfl := List.map_eq_nil_iff.1 h.symm
    rfl
  | cons a as ih =>
    rcases as' with _ | ⟨a', as'⟩
    · cases h
    obtain ⟨hfirst, hrest⟩ := List.cons.inj h
    have htail : as.map g = as'.map g := ih hrest fun b hb b' hb' =>
      hg b (List.mem_cons_of_mem _ hb) b' (List.mem_cons_of_mem _ hb')
    rw [List.map_cons, List.map_cons, htail,
      hg a List.mem_cons_self a' List.mem_cons_self hfirst]

/-! ### Layers with other payloads -/

namespace Layer

variable {P Q : Type} {layer layer' : Layer P} {f : P → Q}

/-- The layer with what a function makes of its payloads. -/
def map (f : P → Q) (layer : Layer P) : Layer Q :=
  ⟨layer.nodes, layer.links.map fun link => (link.1, f link.2)⟩

theorem map_putLink (f : P → Q) (links : List ((String × String) × P)) (pair : String × String)
    (payload : P) : (putLink links pair payload).map (fun link => (link.1, f link.2)) =
      putLink (links.map fun link => (link.1, f link.2)) pair (f payload) := by
  induction links with
  | nil => rfl
  | cons first rest ih =>
    rw [putLink, List.map_cons, putLink]
    split
    · rfl
    · rw [List.map_cons, ih]

theorem map_insert (f : P → Q) (layer : Layer P) (source target : String) (payload : P) :
    (layer.insert source target payload).2.map f =
      ((layer.map f).insert source target (f payload)).2 :=
  congrArg (mk _) (map_putLink f layer.links (source, target) payload)

theorem payload?_map (f : P → Q) (layer : Layer P) (source target : String) :
    (layer.map f).payload? source target = (layer.payload? source target).map f := by
  rw [payload?, map, List.find?_map, payload?, Option.map_map, Option.map_map]
  rfl

theorem next_map (f : P → Q) (layer : Layer P) (id : String) :
    (layer.map f).next id = layer.next id := by
  have htargets : ((layer.map f).links.filter fun link => link.1.1 == id).map
      (fun link => link.1.2) =
        (layer.links.filter fun link => link.1.1 == id).map fun link => link.1.2 := by
    rw [map, List.filter_map, List.map_map]
    rfl
  rw [next, htargets]
  rfl

/-- **The paths stay**, and yield what the function makes of their payloads. -/
theorem paths_map (f : P → Q) (layer : Layer P) (source target : String) (hops : Nat) :
    (layer.map f).paths source target hops =
      (layer.paths source target hops).map (List.map f) := by
  have hnext : (layer.map f).next = layer.next := funext (next_map f layer)
  rw [paths, hnext, paths]
  change (if layer.nodes.contains source && layer.nodes.contains target then _ else _) = _
  split
  · rw [List.map_filterMap]
    refine List.filterMap_congr fun path _ => ?_
    simp only [payload?_map]
    exact mapM_option_map f _ _
  · rfl

/-- Layers that look alike look alike in everything that can be told from the looks of their
payloads. -/
theorem map_eq_map {R : Type} {g : P → R} (h : layer.map f = layer'.map f)
    (hg : ∀ link ∈ layer.links, ∀ link' ∈ layer'.links, f link.2 = f link'.2 →
      g link.2 = g link'.2) : layer.map g = layer'.map g := by
  have hnodes : (layer.map f).nodes = (layer'.map f).nodes := congrArg nodes h
  have hlooks : (layer.map f).links = (layer'.map f).links := congrArg links h
  have hlinks : layer.links.map (fun link => (link.1, g link.2)) =
      layer'.links.map fun link => (link.1, g link.2) :=
    map_eq_map_of_map_eq hlooks fun link hlink link' hlink' heq => by
      obtain ⟨hpair, hpayload⟩ := Prod.mk.inj heq
      rw [hpair, hg link hlink link' hlink' hpayload]
  exact congrArg₂ mk hnodes hlinks

/-- **What the chains yield** can be told from what the function makes of their payloads, if it can
be told of every chain. -/
theorem filterMap_paths_congr {β : Type} {yields : List P → Option β}
    (h : layer.map f = layer'.map f)
    (hyields : ∀ chain chain', chain.map f = chain'.map f → yields chain = yields chain')
    (source target : String) (hops : Nat) :
    (layer.paths source target hops).filterMap yields =
      (layer'.paths source target hops).filterMap yields := by
  have hpaths : (layer.paths source target hops).map (List.map f) =
      (layer'.paths source target hops).map (List.map f) := by
    rw [← paths_map, h, paths_map]
  have hsame : (layer.paths source target hops).map yields =
      (layer'.paths source target hops).map yields :=
    map_eq_map_of_map_eq hpaths fun chain _ chain' _ => hyields chain chain'
  have hdropped := congrArg (List.filterMap id) hsame
  rwa [List.filterMap_map, List.filterMap_map] at hdropped

end Layer

/-! ### What a step contributes -/

section Contribution

variable {S : Type} [Scalar S] {source target : Entity S} {kind : String}
  {settings : ChainSettings S}

/-- What a step contributes to a chain in time. -/
def Dated.contribution (d : Dated S) : Bounds S × S :=
  (d.bounds, d.relation.confidence)

/-- What a step contributes to a chain of probabilities. -/
def Evidenced.contribution (e : Evidenced S) : S × TextSet × Table S :=
  (e.probability, e.evidence, e.scores)

omit [Scalar S] in
theorem Dated.inOrder_iff {chain : List (Dated S)} : InOrder chain ↔
    ∀ step ∈ Path.pairs (chain.map bounds), ∀ stop ∈ step.1.stop, stop ≤ step.2.start := by
  rw [Path.pairs_map, List.forall_mem_map]
  rfl

/-- **Chains in time** are told from what their steps contribute. -/
theorem Dated.infer_congr {layer layer' : Layer (Dated S)}
    (h : layer.map contribution = layer'.map contribution) :
    infer layer settings source target kind = infer layer' settings source target kind := by
  rw [infer, infer, List.filterMap_filter, List.filterMap_filter]
  refine Layer.filterMap_paths_congr h (fun chain chain' hchain => ?_) _ _ _
  have hbounds : chain.map bounds = chain'.map bounds :=
    map_eq_map_of_map_eq hchain fun _ _ _ _ heq => congrArg Prod.fst heq
  have hconfidences : chain.map (fun d => d.relation.confidence) =
      chain'.map fun d => d.relation.confidence :=
    map_eq_map_of_map_eq hchain fun _ _ _ _ heq => congrArg Prod.snd heq
  have hstarts : chain.map (fun d => d.bounds.start) = chain'.map fun d => d.bounds.start :=
    map_eq_map_of_map_eq hbounds fun _ _ _ _ heq => congrArg Bounds.start heq
  have hstops : chain.filterMap (fun d => d.bounds.stop) =
      chain'.filterMap fun d => d.bounds.stop := by
    have hfound := congrArg (List.filterMap Bounds.stop) hbounds
    rwa [List.filterMap_map, List.filterMap_map] at hfound
  have hlength : chain.length = chain'.length := by
    simpa using congrArg List.length hchain
  have hinOrder : InOrder chain ↔ InOrder chain' := by
    rw [inOrder_iff, inOrder_iff, hbounds]
  have hconclude : conclude source target kind chain = conclude source target kind chain' := by
    simp only [conclude, hstarts, hstops, hconfidences, hlength]
  simp only [decide_eq_true_eq, hinOrder, hconclude]

/-- **Chains of probabilities** are told from what their steps contribute. -/
theorem Evidenced.infer_congr {layer layer' : Layer (Evidenced S)}
    (h : layer.map contribution = layer'.map contribution) :
    infer layer settings source target kind = infer layer' settings source target kind := by
  rw [infer, infer, ← List.filterMap_eq_map, List.filterMap_filter, List.filterMap_filter]
  refine Layer.filterMap_paths_congr h (fun chain chain' hchain => ?_) _ _ _
  have hprobabilities : chain.map probability = chain'.map probability :=
    map_eq_map_of_map_eq hchain fun _ _ _ _ heq => congrArg Prod.fst heq
  have hevidence : chain.map evidence = chain'.map evidence :=
    map_eq_map_of_map_eq hchain fun _ _ _ _ heq => congrArg (fun c => c.2.1) heq
  have hscores : chain.map scores = chain'.map scores :=
    map_eq_map_of_map_eq hchain fun _ _ _ _ heq => congrArg (fun c => c.2.2) heq
  have hlength : chain.length = chain'.length := by
    simpa using congrArg List.length hchain
  have hprobability : chainProbability chain = chainProbability chain' := by
    rw [chainProbability, chainProbability, hprobabilities]
  have hunion : ∀ ids : TextSet, chain.foldl (fun ids e => ids.union e.evidence) ids =
      chain'.foldl (fun ids e => ids.union e.evidence) ids := fun ids => by
    have hfold := congrArg (List.foldl TextSet.union ids) hevidence
    rwa [List.foldl_map, List.foldl_map] at hfold
  have hmerge : chain.foldl (fun scores e => mergeScores scores e.scores) [] =
      chain'.foldl (fun scores e => mergeScores scores e.scores) [] := by
    have hfold := congrArg (List.foldl mergeScores []) hscores
    rwa [List.foldl_map, List.foldl_map] at hfold
  have hconclude : conclude source target kind chain = conclude source target kind chain' := by
    simp only [conclude, hprobability, hunion, hmerge, hlength]
  simp only [hprobability, hconclude, Function.comp_apply]

end Contribution

/-! ### Records of steps -/

section Records

variable {S : Type}

/-- The evidence that properties name, which has to be a list of texts. It is empty if they name
none. -/
def Properties.evidence? (p : Properties S) : Option (List String) :=
  match p.get? "evidence" with
  | none => some []
  | some value => value.asTextList

/-- The layer of some records, put in one after another. -/
def Layer.ofRecords (records : List (Record S)) : Layer (Record S) :=
  fill (records.map fun r => ((r.source, r.target), r))

theorem Layer.ofRecords_concat (records : List (Record S)) (r : Record S) :
    ofRecords (records ++ [r]) = ((ofRecords records).insert r.source r.target r).2 := by
  rw [ofRecords, List.map_append, List.map_singleton, fill_concat]
  rfl

variable [Scalar S]

/-- **A record belongs to both layers** when it has bounds, and a probability among its
properties. -/
structure Record.Twofold (r : Record S) : Prop where
  bounds : ∃ bounds, r.temporal = some bounds
  probability : ∃ probability, r.properties.number? "probability" = some probability

/-- **A record of both layers can be loaded** when its probability lies in the unit interval and its
evidence, if it names any, is a list of texts. -/
structure Record.Loadable (r : Record S) : Prop where
  inUnit : ∀ probability, r.properties.number? "probability" = some probability →
    Scalar.InUnit probability
  evidence : ∃ ids, r.properties.evidence? = some ids

variable {r : Relation S}

theorem Dated.ofRelation?_eq_ok_iff {d : Dated S} : ofRelation? r = some (.ok d) ↔
    r.validate = .ok () ∧ ∃ bounds, r.temporal = some bounds ∧ d = ⟨r, bounds⟩ := by
  have hsame : ∀ bounds, r.temporal = some bounds → { r with temporal := some bounds } = r :=
    fun bounds hbounds => by rw [← hbounds]
  rw [ofRelation?, Option.map_eq_some_iff]
  constructor
  · rintro ⟨bounds, hbounds, hmake⟩
    obtain ⟨⟨⟩, hvalid, hmade⟩ := bind_eq_ok_iff.1 hmake
    obtain rfl := Except.ok.inj hmade
    rw [hsame bounds hbounds] at hvalid
    exact ⟨hvalid, bounds, hbounds, congrArg (mk · bounds) (hsame bounds hbounds)⟩
  · rintro ⟨hvalid, bounds, hbounds, rfl⟩
    refine ⟨bounds, hbounds, bind_eq_ok_iff.2 ⟨(), ?_, ?_⟩⟩
    · rw [hsame bounds hbounds]
      exact hvalid
    · exact congrArg (fun r => Except.ok (mk r bounds)) (hsame bounds hbounds)

omit [Scalar S] in
theorem Evidenced.evidenceOf_eq_ok_iff {ids : List String} :
    evidenceOf r = .ok ids ↔ r.properties.evidence? = some ids := by
  rw [evidenceOf, Properties.evidence?]
  rcases r.properties.get? "evidence" with _ | value
  · simp
  · dsimp only
    rcases value.asTextList with _ | ids'
    · simp
    · simp

theorem Evidenced.ofRelation?_eq_ok_iff {e : Evidenced S} : ofRelation? r = some (.ok e) ↔
    r.validate = .ok () ∧ ∃ probability ids,
      r.properties.number? "probability" = some probability ∧ Scalar.InUnit probability ∧
        r.properties.evidence? = some ids ∧
        e = ⟨r, probability, .ofList ids, (TextSet.ofList ids).toList.map fun id => (id, 1.0)⟩ := by
  rw [ofRelation?, Option.map_eq_some_iff]
  constructor
  · rintro ⟨probability, hprobability, hmake⟩
    obtain ⟨ids, hids, hmake⟩ := bind_eq_ok_iff.1 hmake
    obtain ⟨⟨⟩, hvalid, hchecked⟩ := bind_eq_ok_iff.1 hmake
    obtain ⟨⟨⟩, hcheck, hmade⟩ := bind_eq_ok_iff.1 hchecked
    exact ⟨hvalid, probability, ids, hprobability, checkProbability_eq_ok hcheck,
      evidenceOf_eq_ok_iff.1 hids, (Except.ok.inj hmade).symm⟩
  · rintro ⟨hvalid, probability, ids, hprobability, hunit, hids, rfl⟩
    refine ⟨probability, hprobability, bind_eq_ok_iff.2 ⟨ids, evidenceOf_eq_ok_iff.2 hids, ?_⟩⟩
    exact bind_eq_ok_iff.2 ⟨(), hvalid, bind_eq_ok_iff.2 ⟨(), if_pos hunit, rfl⟩⟩

/-- What is read off relations with one record contributes the same to a chain in time. -/
theorem Dated.contribution_eq {r' : Relation S} {d d' : Dated S}
    (hd : ofRelation? r = some (.ok d)) (hd' : ofRelation? r' = some (.ok d'))
    (h : d.relation.toRecord = d'.relation.toRecord) : d.contribution = d'.contribution := by
  obtain ⟨-, bounds, hbounds, rfl⟩ := ofRelation?_eq_ok_iff.1 hd
  obtain ⟨-, bounds', hbounds', rfl⟩ := ofRelation?_eq_ok_iff.1 hd'
  have htemporal : r.temporal = r'.temporal := congrArg Record.temporal h
  rw [hbounds, hbounds', Option.some.injEq] at htemporal
  exact Prod.ext htemporal (congrArg Record.confidence h)

/-- What is read off relations with one record contributes the same to a chain of probabilities. -/
theorem Evidenced.contribution_eq {r' : Relation S} {e e' : Evidenced S}
    (he : ofRelation? r = some (.ok e)) (he' : ofRelation? r' = some (.ok e'))
    (h : e.relation.toRecord = e'.relation.toRecord) : e.contribution = e'.contribution := by
  obtain ⟨-, probability, ids, hprobability, -, hids, rfl⟩ := ofRelation?_eq_ok_iff.1 he
  obtain ⟨-, probability', ids', hprobability', -, hids', rfl⟩ := ofRelation?_eq_ok_iff.1 he'
  have hproperties : r.properties = r'.properties := congrArg Record.properties h
  rw [hproperties] at hprobability hids
  obtain rfl := Option.some.inj (hprobability.symm.trans hprobability')
  obtain rfl := Option.some.inj (hids.symm.trans hids')
  rfl

end Records

/-! ### Loading -/

namespace ChainReasoner

variable {S : Type} [Scalar S] {c c' : ChainReasoner S} {records : List (Record S)}
  {r : Relation S}

/-- **A reasoner is loaded with some records** when both its layers show the layer of these records,
and hold what is read off relations. -/
structure LoadedWith (c : ChainReasoner S) (records : List (Record S)) : Prop where
  dated : c.dated.map (fun d => d.relation.toRecord) = .ofRecords records
  evidenced : c.evidenced.map (fun e => e.relation.toRecord) = .ofRecords records
  read_dated : ∀ link ∈ c.dated.links, Dated.ofRelation? link.2.relation = some (.ok link.2)
  read_evidenced : ∀ link ∈ c.evidenced.links,
    Evidenced.ofRelation? link.2.relation = some (.ok link.2)

theorem loadedWith_empty (settings : ChainSettings S) : (empty settings).LoadedWith [] :=
  ⟨rfl, rfl, nofun, nofun⟩

/-- A relation of both layers is loaded exactly when it is read for both. -/
theorem load_eq_ok_iff (hr : r.toRecord.Twofold) : c.load r = .ok c' ↔
    ∃ d e, Dated.ofRelation? r = some (.ok d) ∧ Evidenced.ofRelation? r = some (.ok e) ∧
      c' = (c.insertDated d).insertEvidenced e := by
  obtain ⟨bounds, hbounds⟩ := hr.bounds
  obtain ⟨probability, hprobability⟩ := hr.probability
  have hdated : ∃ d, Dated.ofRelation? r = some d :=
    ⟨_, Option.map_eq_some_iff.2 ⟨bounds, hbounds, rfl⟩⟩
  have hevidenced : ∃ e, Evidenced.ofRelation? r = some e :=
    ⟨_, Option.map_eq_some_iff.2 ⟨probability, hprobability, rfl⟩⟩
  obtain ⟨d, hd⟩ := hdated
  obtain ⟨e, he⟩ := hevidenced
  rw [load, hd, he]
  rcases d with error | d
  · exact ⟨nofun, fun ⟨_, _, h, _⟩ => nomatch h⟩
  rcases e with error | e
  · exact ⟨nofun, fun ⟨_, _, _, h, _⟩ => nomatch h⟩
  · constructor
    · intro h
      exact ⟨d, e, rfl, rfl, (Except.ok.inj h).symm⟩
    · rintro ⟨_, _, h, h', rfl⟩
      cases h
      cases h'
      rfl

/-- **A valid relation of both layers is loaded exactly when its record can be.** -/
theorem exists_load_iff (hvalid : r.validate = .ok ()) (hr : r.toRecord.Twofold) :
    (∃ c', c.load r = .ok c') ↔ r.toRecord.Loadable := by
  obtain ⟨bounds, hbounds⟩ := hr.bounds
  obtain ⟨probability, hprobability⟩ := hr.probability
  simp only [load_eq_ok_iff hr]
  constructor
  · rintro ⟨_, _, e, -, he, -⟩
    obtain ⟨-, probability', ids, hprobability', hunit, hids, -⟩ :=
      Evidenced.ofRelation?_eq_ok_iff.1 he
    refine ⟨fun p hp => ?_, ids, hids⟩
    obtain rfl := Option.some.inj (hprobability'.symm.trans hp)
    exact hunit
  · rintro ⟨hunit, ids, hids⟩
    exact ⟨_, _, _, Dated.ofRelation?_eq_ok_iff.2 ⟨hvalid, bounds, hbounds, rfl⟩,
      Evidenced.ofRelation?_eq_ok_iff.2
        ⟨hvalid, probability, ids, hprobability, hunit probability hprobability, hids, rfl⟩, rfl⟩

/-- **Loading a relation** adds its record. -/
theorem LoadedWith.load (hc : c.LoadedWith records) (hr : r.toRecord.Twofold)
    (h : c.load r = .ok c') : c'.LoadedWith (records ++ [r.toRecord]) := by
  obtain ⟨d, e, hd, he, rfl⟩ := (load_eq_ok_iff hr).1 h
  obtain rfl : d.relation = r := by
    obtain ⟨-, _, -, rfl⟩ := Dated.ofRelation?_eq_ok_iff.1 hd
    rfl
  have hrelation : e.relation = d.relation := by
    obtain ⟨-, _, _, -, -, -, rfl⟩ := Evidenced.ofRelation?_eq_ok_iff.1 he
    rfl
  rw [← hrelation] at he
  refine ⟨?_, ?_, fun link hlink => ?_, fun link hlink => ?_⟩
  · rw [Layer.ofRecords_concat, ← hc.dated]
    exact Layer.map_insert _ c.dated _ _ d
  · rw [Layer.ofRecords_concat, ← hc.evidenced, ← hrelation]
    exact Layer.map_insert _ c.evidenced _ _ e
  · rcases Layer.mem_putLink hlink with rfl | hold
    · exact hd
    · exact hc.read_dated link hold
  · rcases Layer.mem_putLink hlink with rfl | hold
    · exact he
    · exact hc.read_evidenced link hold

/-- **What is loaded from a list of relations** is their records. -/
theorem LoadedWith.foldlM (hc : c.LoadedWith records) {relations : List (Relation S)}
    (hvalid : ∀ r ∈ relations, r.validate = .ok ())
    (htwofold : ∀ r ∈ relations, r.toRecord.Twofold) :
    ((∃ c', relations.foldlM ChainReasoner.load c = .ok c') ↔
      ∀ r ∈ relations, r.toRecord.Loadable) ∧
    ∀ c', relations.foldlM ChainReasoner.load c = .ok c' →
      c'.settings = c.settings ∧ c'.LoadedWith (records ++ relations.map Relation.toRecord) := by
  induction relations generalizing c records with
  | nil =>
    refine ⟨⟨fun _ => nofun, fun _ => ⟨c, rfl⟩⟩, fun c' h => ?_⟩
    obtain rfl := Except.ok.inj h
    rw [List.map_nil, List.append_nil]
    exact ⟨rfl, hc⟩
  | cons r relations ih =>
    obtain ⟨hfirst, hvalid⟩ := List.forall_mem_cons.1 hvalid
    obtain ⟨hr, htwofold⟩ := List.forall_mem_cons.1 htwofold
    rw [List.foldlM_cons, List.forall_mem_cons, ← exists_load_iff (c := c) hfirst hr]
    rcases hload : c.load r with error | next
    · exact ⟨⟨nofun, fun ⟨⟨_, h⟩, _⟩ => nomatch h⟩, nofun⟩
    · have hnext := hc.load hr hload
      obtain ⟨hloads, hrest⟩ := ih hnext hvalid htwofold
      refine ⟨⟨fun h => ⟨⟨next, rfl⟩, hloads.1 h⟩, fun h => hloads.2 h.2⟩, fun c' h => ?_⟩
      obtain ⟨hsettings, hloaded⟩ := hrest c' h
      obtain ⟨d, e, -, -, rfl⟩ := (load_eq_ok_iff hr).1 hload
      rw [List.map_cons, List.append_cons]
      exact ⟨hsettings, hloaded⟩

/-- **A reasoner over valid relations of both layers** exists exactly when their records can be
loaded, and is loaded with them. -/
theorem ofRelations_loads (settings : ChainSettings S) {relations : List (Relation S)}
    (hrecords : relations.map Relation.toRecord = records)
    (hvalid : ∀ r ∈ relations, r.validate = .ok ()) (htwofold : ∀ r ∈ records, r.Twofold) :
    ((∃ c, ofRelations settings relations = .ok c) ↔ ∀ r ∈ records, r.Loadable) ∧
      ∀ c, ofRelations settings relations = .ok c →
        c.settings = settings ∧ c.LoadedWith records := by
  subst hrecords
  rw [List.forall_mem_map] at htwofold ⊢
  exact (loadedWith_empty settings).foldlM hvalid htwofold

/-! ### Reasoners that look alike -/

/-- **Two reasoners look alike** when their layers show the same records. -/
def LooksLike (c c' : ChainReasoner S) : Prop :=
  c.dated.map (fun d => d.relation.toRecord) = c'.dated.map (fun d => d.relation.toRecord) ∧
    c.evidenced.map (fun e => e.relation.toRecord) = c'.evidenced.map fun e => e.relation.toRecord

/-- **Two reasoners infer the same**, each by its own settings. -/
def InfersLike (c c' : ChainReasoner S) : Prop :=
  ∀ (source target : Entity S) (kind : String),
    Dated.infer c.dated c.settings source target kind =
        Dated.infer c'.dated c'.settings source target kind ∧
      Evidenced.infer c.evidenced c.settings source target kind =
        Evidenced.infer c'.evidenced c'.settings source target kind

theorem LoadedWith.looksLike_iff {records' : List (Record S)} (hc : c.LoadedWith records)
    (hc' : c'.LoadedWith records') :
    c.LooksLike c' ↔ Layer.ofRecords records = Layer.ofRecords records' := by
  rw [LooksLike, hc.dated, hc'.dated, hc.evidenced, hc'.evidenced, and_self]

/-- **Reasoners that look alike infer the same.** -/
theorem LoadedWith.infersLike {records' : List (Record S)} (hc : c.LoadedWith records)
    (hc' : c'.LoadedWith records') (hsettings : c.settings = c'.settings) (h : c.LooksLike c') :
    c.InfersLike c' := by
  intro source target kind
  rw [hsettings]
  refine ⟨Dated.infer_congr (Layer.map_eq_map h.1 fun link hlink link' hlink' => ?_),
    Evidenced.infer_congr (Layer.map_eq_map h.2 fun link hlink link' hlink' => ?_)⟩
  · exact Dated.contribution_eq (hc.read_dated link hlink) (hc'.read_dated link' hlink')
  · exact Evidenced.contribution_eq (hc.read_evidenced link hlink) (hc'.read_evidenced link' hlink')

end ChainReasoner

end GraphReasoner
