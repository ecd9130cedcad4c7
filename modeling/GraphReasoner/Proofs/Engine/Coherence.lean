import GraphReasoner.Proofs.Cache.Latest
import GraphReasoner.Proofs.Engine.Run
import GraphReasoner.Proofs.Halves
import GraphReasoner.Proofs.Storage.Bytes
import Mathlib.Data.Set.Function

/-!
# Answers from the cache are answers on the graph

The cache may lose an answer at any time, but it never gives one that the graph would not give. What
carries this is an invariant of the engine (`GraphReasoner.Engine.Coherent`): whatever is live in
the cache under the key of a text, and can be read as an answer, agrees with the answer that the
graph gives to the text now. Each operation preserves it for a reason of its own.

* A look-up, a removal or an eviction makes nothing live.
* The engine stores an answer that the graph gives, and what is read from its document agrees with
  it.
* A call that makes relations part of the graph and comes to its end has changed nothing, or it has
  emptied the cache.
* Nothing else touches the graph or the cache.

Keys are digests of texts, and different texts may have the same digest. So the runs are over texts
that have different keys.
-/

namespace GraphReasoner

open GraphReasoner.Query (Answer)
open GraphReasoner.Time (Instant Duration)

namespace Engine

variable {S M : Type} [Numeral S] [FaithfulMedium M]

/-- The answer that a payload is read as, if it is read as one. -/
def decoded (payload : Bytes) : Option (Answer S) := do
  Answer.ofJson? (← Json.read (← payload.text?))

/-- **An engine whose cache agrees with its graph**: the graph can be stored, and what is live in
the cache under the key of a text is read as an answer that the graph gives to the text, or not at
all. -/
structure Coherent (texts : Set String) (e : Engine S M) : Prop where
  storable : e.graph.Storable
  agrees : ∀ text ∈ texts, ∀ (entry : Entry) (payload : Bytes),
    e.cache.Live (Query.answerKey text) entry payload →
    ∀ a : Answer S, decoded payload = some a → ∀ now, a.Agrees (e.execute text now)

variable {texts : Set String} {e e' : Engine S M}

/-! ### Answers that are stored -/

omit [FaithfulMedium M] in
theorem agrees_execute (e : Engine S M) (text : String) (now later : Instant) :
    (e.execute text now).Agrees (e.execute text later) :=
  Graph.agrees_answer ..

omit [FaithfulMedium M] in
theorem storable_execute (h : e.graph.Storable) (text : String) (now : Instant) :
    (e.execute text now).Storable :=
  (Graph.drawnFrom_answer ..).storable h

/-- **What is read from the payload of an answer agrees with the answer.** -/
theorem agrees_of_decoded (hread : Json.Rereads S) {a b : Answer S} (ha : a.Storable)
    (hb : decoded (.ofText (Json.compact a.toJson)) = some b) : b.Agrees a := by
  unfold decoded at hb
  simp only [Bytes.text?_ofText, Json.read_compact hread, Option.bind_eq_bind,
    Option.bind_some] at hb
  exact ha.agrees_of_reread hb

theorem getJson_eq (c : Cache M) (key : String) (now : Instant) :
    c.getJson (S := S) key Answer.ofJson? now =
      ((c.get key now).1.bind decoded, (c.get key now).2) := by
  unfold Cache.getJson
  rcases c.get key now with ⟨_ | payload, c'⟩ <;> rfl

/-! ### What preserves the agreement -/

/-- A cache without entries for the texts agrees with every graph. -/
theorem coherent_of_index (hg : e.graph.Storable)
    (hindex : ∀ text ∈ texts, e.cache.index.get? (Query.answerKey text) = none) :
    e.Coherent texts where
  storable := hg
  agrees text htext entry payload hl := by
    have hi : e.cache.index.get? _ = some entry := hl.1
    rw [hindex text htext] at hi
    cases hi

/-- Only the graph, the settings and what is live under the keys of the texts matter. -/
theorem Coherent.of_live (h : e.Coherent texts) (hgraph : e'.graph = e.graph)
    (hsettings : e'.settings = e.settings)
    (hlive : ∀ text ∈ texts, ∀ entry payload,
      e'.cache.Live (Query.answerKey text) entry payload →
      ∃ entry₀, e.cache.Live (Query.answerKey text) entry₀ payload) : e'.Coherent texts where
  storable := hgraph ▸ h.storable
  agrees text htext entry payload hl a ha now := by
    obtain ⟨entry₀, hl₀⟩ := hlive text htext entry payload hl
    have hexecute : e'.execute text now = e.execute text now := by
      unfold execute
      rw [hgraph, hsettings]
    rw [hexecute]
    exact h.agrees text htext entry₀ payload hl₀ a ha now

/-- An operation of the cache that stores nothing under the keys of the texts makes nothing live
there. -/
theorem Coherent.of_cache (h : e.Coherent texts) {op : Cache.Operation}
    (hop : e.Permitted texts (.cache op)) :
    { e with cache := (e.cache.perform op).2 }.Coherent texts := by
  refine h.of_live rfl rfl fun text htext entry payload hl => ?_
  rcases Cache.live_perform hl with ⟨lifetime, kind, now, rfl, -⟩ | ⟨entry₀, hl₀, -⟩
  · exact absurd rfl (hop text htext)
  · exact ⟨entry₀, hl₀⟩

theorem Coherent.fetch (h : e.Coherent texts) (text : String) (now : Instant) :
    (e.fetch text now).2.Coherent texts := by
  unfold Engine.fetch
  rw [getJson_eq]
  have hget : e.Permitted texts (.cache (.get (Query.answerKey text) now)) := trivial
  exact h.of_cache hget

/-- **Keeping an answer that the graph gives** preserves the agreement. -/
theorem Coherent.keep (h : e.Coherent texts) (hread : Json.Rereads S)
    (hkeys : Set.InjOn Query.answerKey texts) {text : String} (htext : text ∈ texts)
    (now : Instant) : (e.keep text (e.execute text now) now).Coherent texts where
  storable := h.storable
  agrees other hother entry payload hl a ha later := by
    have hperform : (e.cache.perform (.store (Query.answerKey text)
        (.ofText (Json.compact (e.execute text now).toJson))
        (e.settings.query.answerLifetime.map Duration.ofSeconds) answerKind now)).2.Live
          (Query.answerKey other) entry payload := hl
    rcases Cache.live_perform hperform with ⟨lifetime, kind, stored, hstore, -⟩ | ⟨entry₀, hl₀, -⟩
    · -- the payload is the one just stored, and its key is that of no other text
      injection hstore with hkey hpayload
      obtain rfl := hkeys htext hother hkey
      rw [← hpayload] at ha
      have hagrees := agrees_of_decoded hread (storable_execute h.storable text now) ha
      exact hagrees.trans (agrees_execute e text now later)
    · exact h.agrees other hother entry₀ payload hl₀ a ha later

theorem Coherent.query (h : e.Coherent texts) (hread : Json.Rereads S)
    (hkeys : Set.InjOn Query.answerKey texts) {text : String} (htext : text ∈ texts)
    (useCache : Bool) (now : Instant) : (e.query text useCache now).2.Coherent texts := by
  unfold Engine.query
  split
  · exact h
  split
  · have hfetch := h.fetch text now
    split
    · rename_i heq
      rw [heq] at hfetch
      exact hfetch
    · rename_i heq
      rw [heq] at hfetch
      exact hfetch.keep hread hkeys htext now
  · exact h

omit [FaithfulMedium M] in
theorem storable_addMissing {g g' : Graph S} {added n : Nat} {relations : List (Relation S)}
    (hg : g.Storable) (hall : ∀ r ∈ relations, r.Storable)
    (h : addMissing g added relations = (.ok n, g')) : g'.Storable := by
  induction relations generalizing g added with
  | nil =>
    cases h
    exact hg
  | cons r relations ih =>
    rw [List.forall_mem_cons] at hall
    rcases addMissing_cons g added r relations with hc | ⟨g₁, -, hadd, hc⟩ | ⟨error, -, -, hc⟩ <;>
      rw [hc] at h
    · exact ih hg hall.2 h
    · exact ih (hg.addRelation hall.1 hadd) hall.2 h
    · cases h

/-- **A call that makes relations part of the graph and comes to its end** preserves the
agreement. -/
theorem Coherent.materialize (h : e.Coherent texts) {relations : List (Relation S)}
    (hall : ∀ r ∈ relations, r.Storable) {n : Nat}
    (hn : (e.materialize relations).1 = .ok n) : (e.materialize relations).2.Coherent texts := by
  rcases materialize_ok hn with ⟨-, hsame⟩ | ⟨-, -, hcleared⟩
  · rw [hsame]
    exact h
  · refine coherent_of_index ?_ fun text _ => ?_
    · rcases hadd : addMissing e.graph 0 relations with ⟨error | m, g⟩
      · rw [materialize_of_refused hadd] at hn
        cases hn
      · rw [materialize_of_added hadd]
        exact storable_addMissing h.storable hall hadd
    · rw [hcleared, Cache.clear_index]
      rfl

/-! ### Runs -/

/-- **Every step of a run preserves the agreement.** -/
theorem Coherent.perform (h : e.Coherent texts) (hread : Json.Rereads S)
    (hkeys : Set.InjOn Query.answerKey texts) {op : Operation S} (hop : e.Permitted texts op) :
    (e.perform op).Coherent texts := by
  -- what touches neither the graph nor the cache preserves every agreement
  have hsame : ∀ {e' : Engine S M}, e'.graph = e.graph → e'.settings = e.settings →
      e'.cache = e.cache → e'.Coherent texts := fun hg hs hc =>
    h.of_live hg hs fun _ _ entry _ hl => ⟨entry, hc ▸ hl⟩
  cases op with
  | query text useCache now => exact h.query hread hkeys hop useCache now
  | materialize relations =>
    obtain ⟨hall, n, hn⟩ := hop
    exact h.materialize hall hn
  | cache op => exact h.of_cache hop
  | plan text now =>
    unfold Engine.perform
    dsimp only
    split
    · rename_i hplan
      obtain ⟨planner, rfl⟩ := exists_planner_of_plan hplan
      exact hsame rfl rfl rfl
    · exact h
  | addRule | removeRule | setActive | addDated | addEvidenced =>
    unfold Engine.perform
    dsimp only
    split
    · exact hsame rfl rfl rfl
    · exact h
  | suggest | clearHistory | infer | inferChains | insertDated | insertEvidenced =>
    exact hsame rfl rfl rfl

theorem Coherent.reaches (h : e.Coherent texts) (hread : Json.Rereads S)
    (hkeys : Set.InjOn Query.answerKey texts) (hrun : Reaches texts e e') : e'.Coherent texts := by
  induction hrun with
  | refl => exact h
  | tail _ hstep ih =>
    obtain ⟨op, hop, rfl⟩ := hstep
    exact ih.perform hread hkeys hop

/-- What is fetched from the cache agrees with what the graph gives. -/
theorem Coherent.agrees_of_fetch (h : e.Coherent texts) {text : String} (htext : text ∈ texts)
    {now : Instant} {a : Answer S} (ha : (e.fetch text now).1 = some a) (later : Instant) :
    a.Agrees (e.execute text later) := by
  unfold Engine.fetch at ha
  rw [getJson_eq] at ha
  obtain ⟨payload, hpayload, ha⟩ := Option.bind_eq_some_iff.1 ha
  obtain ⟨entry, hl, -⟩ := Cache.live_of_get hpayload
  exact h.agrees text htext entry payload hl a ha later

/-- **Answers from the cache are never stale.** In every state of a run of an engine whose cache has
no entries for the texts at first, a question that is asked with the cache gets an answer, and so
does the question without it, and the two agree: they have the same kind, nodes, edges, paths and
confidence. -/
theorem agrees_query_of_reaches (hread : Json.Rereads S) (hkeys : Set.InjOn Query.answerKey texts)
    (hg : e.graph.Storable)
    (hindex : ∀ text ∈ texts, e.cache.index.get? (Query.answerKey text) = none)
    (hrun : Reaches texts e e') {text : String} (htext : text ∈ texts)
    (hblank : ¬Text.AllBlank text) (now later : Instant) :
    ∃ a b, (e'.query text true now).1 = .ok a ∧ (e'.query text false later).1 = .ok b ∧
      a.Agrees b := by
  have h : e'.Coherent texts := (coherent_of_index hg hindex).reaches hread hkeys hrun
  have hplain : (e'.query text false later).1 = .ok (e'.execute text later) := by
    unfold query
    rw [if_neg hblank]
    rfl
  have hcached : (e'.query text true now).1 =
      .ok ((e'.fetch text now).1.getD (e'.execute text now)) := by
    unfold query
    rw [if_neg hblank, if_pos rfl]
    rcases hfetch : e'.fetch text now with ⟨_ | a, e''⟩
    · obtain rfl : (e'.fetch text now).2 = e'' := by rw [hfetch]
      rfl
    · rfl
  refine ⟨_, _, hcached, hplain, ?_⟩
  -- nothing is fetched, and the graph is asked, or the invariant speaks of what is fetched
  rcases ha : (e'.fetch text now).1 with _ | a
  · exact agrees_execute e' text now later
  · exact h.agrees_of_fetch htext ha later

/-- A relation between two entities. -/
def sampleRelation : Relation Halves :=
  ⟨⟨"A", "Alpha", "concept", .empty⟩, ⟨"B", "Beta", "concept", .empty⟩, "causes", .half, .empty,
    none⟩

/-- An engine over the same two entities, in memory, with another relation between them. -/
def sample : Engine Halves Memory where
  settings := .default
  graph :=
    ⟨[sampleRelation.source, sampleRelation.target], [⟨"A", "B", "related_to", .one, .empty, none⟩]⟩
  cache := .openOn .empty ⟨100000, 3600⟩ ⟨0, 0⟩
  rules := .empty "none"
  chains := .empty .default
  planner := .empty .default

/-- An answer is kept, the relation becomes part of the graph, and the question is asked again. -/
theorem agrees_query_sample :
    ∃ a b, (((sample.perform (.query "Alpha" true ⟨1, 0⟩)).perform
        (.materialize [sampleRelation])).query "Alpha" true ⟨2, 0⟩).1 = .ok a ∧
      (((sample.perform (.query "Alpha" true ⟨1, 0⟩)).perform
        (.materialize [sampleRelation])).query "Alpha" false ⟨3, 0⟩).1 = .ok b ∧ a.Agrees b := by
  have hempty : (.empty : Properties Halves).Storable := ⟨List.Pairwise.nil, nofun⟩
  have hg : sample.graph.Storable := by
    refine ⟨fun e he => ?_, fun r hr => ?_, fun r _ => Halves.finite r.confidence⟩
    · rcases List.mem_pair.1 he with rfl | rfl <;> exact hempty
    · obtain rfl := List.mem_singleton.1 hr
      exact hempty
  have hindex : sample.cache.index = [] := rfl
  have hrelation : ∀ r ∈ [sampleRelation], r.Storable := by
    intro r hr
    obtain rfl := List.mem_singleton.1 hr
    exact ⟨hempty, hempty, hempty, Halves.finite _⟩
  have hadded : ((sample.perform (.query "Alpha" true ⟨1, 0⟩)).materialize
      [sampleRelation]).1 = .ok 1 := rfl
  have hrun : Reaches {"Alpha"} sample ((sample.perform (.query "Alpha" true ⟨1, 0⟩)).perform
      (.materialize [sampleRelation])) :=
    (Relation.ReflTransGen.single ⟨.query "Alpha" true ⟨1, 0⟩, rfl, rfl⟩).tail
      ⟨.materialize [sampleRelation], ⟨hrelation, 1, hadded⟩, rfl⟩
  exact agrees_query_of_reaches Halves.rereads (Set.injOn_singleton ..) hg
    (fun _ _ => by rw [hindex]; rfl) hrun rfl (by decide) ⟨2, 0⟩ ⟨3, 0⟩

end Engine

end GraphReasoner
