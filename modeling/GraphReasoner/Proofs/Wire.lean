import GraphReasoner.Graph.Batch
import GraphReasoner.Proofs.Fallible
import GraphReasoner.Proofs.Halves
import GraphReasoner.Proofs.Query.Answer

/-!
# Batches and answers come back

A batch and an answer are written as documents and read again, and nothing of them is lost: not the
order and the number of what they hold, not the kind of a value, and not that a field was left out
(`GraphReasoner.Json.PrintsExactly.lossless`). What is asked of them is what documents can hold:
finite numbers, instants that print exactly, and properties that fit below the levels around them
(`GraphReasoner.Batch.Writable`, `GraphReasoner.Query.Answer.Writable`).

For each record there are two lemmas. One says within how many levels its document is, the other
that it is decoded from its document.
-/

namespace GraphReasoner

open Json (Within GivesBack PrintsExactly depthLimit)
open Json.Fields (required_cons withDefault_cons optional_nil optional_cons_of_ne
  optional_cons_self)
open GraphReasoner.Time (Instant)

variable {S : Type} [Numeral S]

/-! ### What can be written -/

/-- **An instant prints exactly** when its text denotes it. -/
def Time.Instant.PrintsExactly (t : Instant) : Prop :=
  ofText? t.toText = some t

instance (t : Instant) : Decidable t.PrintsExactly :=
  inferInstanceAs (Decidable (_ = _))

/-- **Properties that fit below so many levels.** -/
structure Properties.Fits (p : Properties S) (levels : Nat) : Prop where
  storable : p.Storable
  nesting : levels + p.nesting ≤ depthLimit

/-- What is left of the levels below three. -/
theorem Properties.Fits.nesting_le {p : Properties S} (h : p.Fits 3) : p.nesting ≤ 124 := by
  have hle := h.nesting
  unfold depthLimit at hle
  omega

/-- **Bounds that can be written.** -/
structure Bounds.Writable (b : Bounds S) : Prop where
  start : b.start.PrintsExactly
  stop : ∀ t ∈ b.stop, t.PrintsExactly
  duration : ∀ x ∈ b.duration, Numeral.Finite x

/-- **A record that can be written** in a batch. -/
structure Record.Writable (r : Record S) : Prop where
  confidence : Numeral.Finite r.confidence
  properties : r.properties.Fits 3
  temporal : ∀ b ∈ r.temporal, b.Writable

/-- **A batch that can be written.** The batch, the list and the entity or record are the levels
around properties. -/
structure Batch.Writable (b : Batch S) : Prop where
  entities : ∀ e ∈ b.entities, e.properties.Fits 3
  records : ∀ r ∈ b.records, r.Writable

/-- **An answer that can be written.** The answer, the list and the node or edge are the levels
around properties. -/
structure Query.Answer.Writable (a : Answer S) : Prop where
  nodes : ∀ n ∈ a.nodes, n.properties.Fits 3
  edges : ∀ e ∈ a.edges, e.properties.Fits 3
  confidence : Numeral.Finite a.confidence
  elapsed : Numeral.Finite a.elapsed
  time : a.time.PrintsExactly

/-! ### Lists -/

namespace Json

variable {V : Type} {encode : V → Json S} {values : List V}

theorem within_array {depth : Nat} (h : ∀ v ∈ values, Within depth (encode v)) :
    Within (depth + 1) (array (values.map encode)) :=
  .array (List.forall_mem_map.2 h)

theorem within_texts (depth : Nat) (items : List String) :
    Within (depth + 1) (texts items : Json S) :=
  within_array fun text _ => .string text

omit [Numeral S] in
theorem asList_array {decode : Json S → Option V}
    (h : ∀ v ∈ values, decode (encode v) = some v) :
    asList decode (array (values.map encode)) = some values :=
  mapM_eq_pure h

omit [Numeral S] in
theorem asList_texts (items : List String) :
    asList asText (texts items : Json S) = some items :=
  asList_array fun _ _ => rfl

end Json

/-! ### Entities and records -/

namespace Entity

theorem within_toJson {e : Entity S} {depth : Nat} (h : e.properties.Storable)
    (hd : e.properties.nesting ≤ depth) : Within (depth + 1) e.toJson := by
  refine .object ?_
  simp only [List.forall_mem_cons]
  exact ⟨.string _, .string _, .string _, h.within hd, List.forall_mem_nil _⟩

theorem ofJson?_toJson {e : Entity S} (h : e.properties.Storable) : ofJson? e.toJson = some e := by
  rw [ofJson?, toJson, Json.fields?_object (by simp [fieldNames]) (by simp)]
  simp only [Option.bind_eq_bind, Option.bind_some, required_cons, withDefault_cons,
    String.reduceEq, if_true, if_false, Json.asText, h.ofJson?_toJson]
  rfl

end Entity

namespace Bounds

theorem within_toJson {b : Bounds S} (h : b.Writable) (depth : Nat) :
    Within (depth + 1) b.toJson := by
  refine .object (List.forall_mem_append.2 ⟨List.forall_mem_append.2 ⟨?_, ?_⟩, ?_⟩)
  · exact List.forall_mem_singleton.2 (.string _)
  · exact Json.forall_mem_written fun _ _ => .string _
  · exact Json.forall_mem_written fun x hx => .float (h.duration x hx)

/-- What is left out comes back as left out. -/
theorem ofJson?_toJson {b : Bounds S} (h : b.Writable) : ofJson? b.toJson = some b := by
  obtain ⟨start, stop, duration⟩ := b
  have hstart : Json.asInstant (S := S) (.string start.toText) = some start := h.start
  have hstop : ∀ t ∈ stop, Json.asInstant (S := S) (.string t.toText) = some t := h.stop
  rw [ofJson?, toJson, Json.fields?_object]
  -- which fields there are depends on what is known
  · cases stop <;> cases duration <;>
    simp [Json.written, required_cons, optional_nil, optional_cons_of_ne, optional_cons_self,
      hstart, hstop, Json.asNumber]
  · cases stop <;> cases duration <;> simp [Json.written]
  · cases stop <;> cases duration <;> simp [Json.written]

end Bounds

namespace Record

theorem within_toJson {r : Record S} {depth : Nat} (h : r.Writable)
    (hd : r.properties.nesting ≤ depth + 1) : Within (depth + 2) r.toJson := by
  refine .object (List.forall_mem_append.2 ⟨?_, ?_⟩)
  · simp only [List.forall_mem_cons]
    exact ⟨.string _, .string _, .string _, .float h.confidence, h.properties.storable.within hd,
      List.forall_mem_nil _⟩
  · exact Json.forall_mem_written fun b hb => Bounds.within_toJson (h.temporal b hb) depth

theorem ofJson?_toJson {r : Record S} (h : r.Writable) : ofJson? r.toJson = some r := by
  obtain ⟨source, target, kind, confidence, properties, temporal⟩ := r
  have hproperties : Properties.ofJson? properties.toJson = some properties :=
    h.properties.storable.ofJson?_toJson
  have htemporal : ∀ b ∈ temporal, Bounds.ofJson? b.toJson = some b :=
    fun b hb => Bounds.ofJson?_toJson (h.temporal b hb)
  -- a field that holds `null` would be taken for one that was left out
  have hobject : ∀ b : Bounds S, b.toJson ≠ .null := fun _ => nofun
  rw [ofJson?, toJson, Json.fields?_object]
  · cases temporal <;>
    simp [Json.written, required_cons, withDefault_cons, optional_nil, optional_cons_of_ne,
      optional_cons_self, hproperties, htemporal, hobject, Json.asNumber, Json.asText]
  · cases temporal <;> simp [Json.written, Relation.fieldNames]
  · cases temporal <;> simp [Json.written]

end Record

/-! ### Batches -/

namespace Batch

theorem within_toJson {b : Batch S} (h : b.Writable) : Within depthLimit b.toJson := by
  have hentities : Within 126 (.array (b.entities.map Entity.toJson)) := by
    refine Json.within_array fun e he => ?_
    have hfits := h.entities e he
    exact Entity.within_toJson hfits.storable hfits.nesting_le
  have hrecords : Within 126 (.array (b.records.map Record.toJson)) := by
    refine Json.within_array fun r hr => ?_
    have hwritable := h.records r hr
    exact Record.within_toJson hwritable hwritable.properties.nesting_le
  change Within (126 + 1) _
  refine .object ?_
  simp only [List.forall_mem_cons]
  exact ⟨hentities, hrecords, List.forall_mem_nil _⟩

theorem ofJson?_toJson {b : Batch S} (h : b.Writable) : ofJson? b.toJson = some b := by
  have hentities : Json.asList Entity.ofJson? (.array (b.entities.map Entity.toJson)) =
      some b.entities :=
    Json.asList_array fun e he => Entity.ofJson?_toJson (h.entities e he).storable
  have hrecords : Json.asList Record.ofJson? (.array (b.records.map Record.toJson)) =
      some b.records :=
    Json.asList_array fun r hr => Record.ofJson?_toJson (h.records r hr)
  rw [ofJson?, toJson, Json.fields?_object (by simp) (by simp)]
  simp only [Option.bind_eq_bind, Option.bind_some, withDefault_cons, String.reduceEq, if_true,
    if_false, hentities, hrecords]
  rfl

end Batch

/-! ### Answers -/

namespace Query

namespace AnswerNode

theorem within_toJson {n : AnswerNode S} {depth : Nat} (h : n.properties.Storable)
    (hd : n.properties.nesting ≤ depth) : Within (depth + 1) n.toJson := by
  refine .object ?_
  simp only [List.forall_mem_cons]
  exact ⟨.string _, h.within hd, List.forall_mem_nil _⟩

theorem ofJson?_toJson {n : AnswerNode S} (h : n.properties.Storable) :
    ofJson? n.toJson = some n := by
  rw [ofJson?, toJson, Json.fields?_object (by simp) (by simp)]
  simp only [Option.bind_eq_bind, Option.bind_some, required_cons, String.reduceEq, if_true,
    if_false, Json.asText, h.ofJson?_toJson]
  rfl

end AnswerNode

namespace AnswerEdge

theorem within_toJson {e : AnswerEdge S} {depth : Nat} (h : e.properties.Storable)
    (hd : e.properties.nesting ≤ depth) : Within (depth + 1) e.toJson := by
  refine .object ?_
  simp only [List.forall_mem_cons]
  exact ⟨.string _, .string _, h.within hd, List.forall_mem_nil _⟩

theorem ofJson?_toJson {e : AnswerEdge S} (h : e.properties.Storable) :
    ofJson? e.toJson = some e := by
  rw [ofJson?, toJson, Json.fields?_object (by simp) (by simp)]
  simp only [Option.bind_eq_bind, Option.bind_some, required_cons, String.reduceEq, if_true,
    if_false, Json.asText, h.ofJson?_toJson]
  rfl

end AnswerEdge

namespace Answer

theorem within_toJson {a : Answer S} (h : a.Writable) : Within depthLimit a.toJson := by
  have hnodes : Within 126 (.array (a.nodes.map AnswerNode.toJson)) :=
    Json.within_array fun n hn =>
      AnswerNode.within_toJson (h.nodes n hn).storable (h.nodes n hn).nesting_le
  have hedges : Within 126 (.array (a.edges.map AnswerEdge.toJson)) :=
    Json.within_array fun e he =>
      AnswerEdge.within_toJson (h.edges e he).storable (h.edges e he).nesting_le
  have hpaths : Within (S := S) 126 (.array (a.paths.map Json.texts)) :=
    Json.within_array fun path _ => Json.within_texts 124 path
  change Within (126 + 1) _
  refine .object ?_
  simp only [List.forall_mem_cons]
  exact ⟨hnodes, hedges, hpaths, .float h.confidence, .float h.elapsed, .string _, .string _,
    List.forall_mem_nil _⟩

theorem ofJson?_toJson {a : Answer S} (h : a.Writable) : ofJson? a.toJson = some a := by
  have hnodes : Json.asList AnswerNode.ofJson? (.array (a.nodes.map AnswerNode.toJson)) =
      some a.nodes :=
    Json.asList_array fun n hn => AnswerNode.ofJson?_toJson (h.nodes n hn).storable
  have hedges : Json.asList AnswerEdge.ofJson? (.array (a.edges.map AnswerEdge.toJson)) =
      some a.edges :=
    Json.asList_array fun e he => AnswerEdge.ofJson?_toJson (h.edges e he).storable
  have hpaths : Json.asList (S := S) (Json.asList Json.asText)
      (.array (a.paths.map Json.texts)) = some a.paths :=
    Json.asList_array fun path _ => Json.asList_texts path
  have htime : Json.asInstant (S := S) (.string a.time.toText) = some a.time := h.time
  rw [ofJson?, toJson, Json.fields?_object (by simp) (by simp)]
  simp only [Option.bind_eq_bind, Option.bind_some, required_cons, String.reduceEq, if_true,
    if_false, hnodes, hedges, hpaths, Json.asNumber, asChoice_name, htime]
  rfl

end Answer

end Query

/-! ### Nothing is lost -/

/-- **Nothing is lost on the wire.** Over numbers that print exactly, a value, a batch and an answer
come back from their texts as they were. -/
theorem Json.PrintsExactly.lossless (h : PrintsExactly S) :
    (∀ v : Value S, v.Storable → v.nesting ≤ depthLimit → GivesBack Value.ofJson? v.toJson v) ∧
    (∀ b : Batch S, b.Writable → GivesBack Batch.ofJson? b.toJson b) ∧
    ∀ a : Query.Answer S, a.Writable → GivesBack Query.Answer.ofJson? a.toJson a := by
  refine ⟨?_, ?_, ?_⟩
  · intro v hv hd
    have hwithin : Within depthLimit v.toJson := hv.within hd
    exact hwithin.givesBack h hv.ofJson?_toJson
  · intro b hb
    have hwithin : Within depthLimit b.toJson := Batch.within_toJson hb
    exact hwithin.givesBack h (Batch.ofJson?_toJson hb)
  · intro a ha
    have hwithin : Within depthLimit a.toJson := Query.Answer.within_toJson ha
    exact hwithin.givesBack h (Query.Answer.ofJson?_toJson ha)

/-! #### Values that are easily confused -/

namespace Halves

/-- An integer and numbers with the same value, and three kinds of nothing. -/
def confusable : Value Halves :=
  .list [.int 1, .float .one, .null, .list [], .map [], .map [("a", .float .two), ("b", .int 2)]]

theorem storable_confusable : confusable.Storable := by
  have hmap : (Value.map [("a", .float .two), ("b", .int 2)] : Value Halves).Storable := by
    refine .map (List.pairwise_pair.2 (by decide)) ?_
    simp only [List.forall_mem_cons]
    exact ⟨.float (finite two), .int (by decide) (by decide), List.forall_mem_nil _⟩
  refine .list ?_
  simp only [List.forall_mem_cons]
  exact ⟨.int (by decide) (by decide), .float (finite one), .null, .list (List.forall_mem_nil _),
    .map List.Pairwise.nil (List.forall_mem_nil _), hmap, List.forall_mem_nil _⟩

/-- Properties with such a value. -/
def confusableProperties : Properties Halves :=
  ⟨[("value", confusable)]⟩

theorem fits_confusableProperties : confusableProperties.Fits 3 where
  storable := ⟨List.pairwise_singleton .., List.forall_mem_singleton.2 storable_confusable⟩
  nesting := by decide

/-- An entity and two records, one of which says since when it holds and not until when. -/
def confusableBatch : Batch Halves where
  entities := [⟨"a", "A", "concept", confusableProperties⟩]
  records := [⟨"a", "a", "knows", one, confusableProperties, none⟩,
    ⟨"a", "a", "likes", half, .empty, some ⟨⟨0, 0⟩, none, none⟩⟩]

theorem writable_confusableBatch : confusableBatch.Writable where
  entities := List.forall_mem_singleton.2 fits_confusableProperties
  records := by
    have hbounds : (⟨⟨0, 0⟩, none, none⟩ : Bounds Halves).Writable :=
      ⟨by decide +kernel, nofun, nofun⟩
    have hempty : (Properties.empty : Properties Halves).Fits 3 :=
      ⟨⟨List.Pairwise.nil, List.forall_mem_nil _⟩, by decide⟩
    simp only [confusableBatch, List.forall_mem_cons]
    exact ⟨⟨finite one, fits_confusableProperties, nofun⟩,
      ⟨finite half, hempty, fun _ hb => Option.some.inj hb ▸ hbounds⟩, List.forall_mem_nil _⟩

/-- An answer with a node and a path. -/
def confusableAnswer : Query.Answer Halves where
  nodes := [⟨"a", confusableProperties⟩]
  edges := []
  paths := [["a"]]
  confidence := one
  elapsed := half
  kind := .path
  time := ⟨0, 0⟩

theorem writable_confusableAnswer : confusableAnswer.Writable where
  nodes := List.forall_mem_singleton.2 fits_confusableProperties
  edges := List.forall_mem_nil _
  confidence := finite one
  elapsed := finite half
  time := by decide +kernel

end Halves

/-- Integers and numbers of one value come back apart. -/
theorem Json.PrintsExactly.lossless_confusable :
    PrintsExactly Halves ∧
    GivesBack Value.ofJson? Halves.confusable.toJson Halves.confusable ∧
    GivesBack Batch.ofJson? Halves.confusableBatch.toJson Halves.confusableBatch ∧
    GivesBack Query.Answer.ofJson? Halves.confusableAnswer.toJson Halves.confusableAnswer := by
  have hprint : PrintsExactly Halves := fun x hx => by
    rw [Halves.rereads x hx]
    rfl
  obtain ⟨hvalue, hbatch, hanswer⟩ := hprint.lossless
  exact ⟨hprint, hvalue _ Halves.storable_confusable (by decide),
    hbatch _ Halves.writable_confusableBatch, hanswer _ Halves.writable_confusableAnswer⟩

end GraphReasoner
