import GraphReasoner.Query.Answer
import GraphReasoner.Proofs.Json.Fields
import GraphReasoner.Proofs.Value

/-!
# Answers that are stored and read again

An answer that is read from its document is the answer that was stored, up to what the document says
of the clock. It may not be read at all: a property may be nested too deeply, and a confidence that
is no finite number is written as `null`. Hence the form of
`GraphReasoner.Query.Answer.Storable.agrees_of_reread`: *if* something is read, it agrees with the
answer in everything that was found (`GraphReasoner.Query.Answer.Agrees`).
-/

namespace GraphReasoner.Query

open Json (reread rereadItems rereadFields)
open Json.Fields (required_cons)

variable {S : Type} [Numeral S]

/-! ### Lists -/

/-- Items that are read as themselves or not at all make a list of which the same is true. -/
theorem eq_of_reread_array {α : Type} {encode : α → Json S} {decode : Json S → Option α}
    {xs : List α} (h : ∀ x ∈ xs, ∀ depth y, decode (reread depth (encode x)) = some y → y = x)
    {depth : Nat} {ys : List α}
    (hys : Json.asList decode (reread depth (.array (xs.map encode))) = some ys) : ys = xs := by
  rw [reread] at hys
  split at hys
  · cases hys
  rw [Json.asList] at hys
  -- items are read one level further down, and which level that is does not matter
  generalize depth - 1 = below at hys
  induction xs generalizing ys with
  | nil =>
    rw [List.map_nil, rereadItems] at hys
    exact (Option.some.inj hys).symm
  | cons x xs ih =>
    rw [List.map_cons, rereadItems, List.mapM_cons] at hys
    simp only [Option.bind_eq_bind, Option.bind_eq_some_iff] at hys
    obtain ⟨y, hy, rest, hrest, heq⟩ := hys
    rw [List.forall_mem_cons] at h
    rw [h.1 below y hy, ih h.2 hrest] at heq
    exact (Option.some.inj heq).symm

theorem eq_of_reread_texts {depth : Nat} {texts read : List String}
    (h : Json.asList Json.asText (reread (S := S) depth (Json.texts texts)) = some read) :
    read = texts := by
  have hitems : ∀ text ∈ texts, ∀ depth y,
      Json.asText (reread (S := S) depth (.string text)) = some y → y = text :=
    fun _ _ _ _ hread => (Option.some.inj hread).symm
  exact eq_of_reread_array hitems h

/-! ### Records -/

theorem map_fst_rereadFields (depth : Nat) (fields : List (String × Json S)) :
    (rereadFields depth fields).map Prod.fst = fields.map Prod.fst := by
  induction fields with
  | nil => rw [rereadFields]
  | cons field fields ih =>
    obtain ⟨name, value⟩ := field
    rw [rereadFields, List.map_cons, List.map_cons, ih]

/-- A record that was written with all its fields is read with them. -/
theorem fields?_reread_object {depth : Nat} {fields : List (String × Json S)}
    {known : Json.Fields S} (hnodup : (fields.map Prod.fst).Nodup)
    (h : (reread depth (.object fields)).fields? Json.strict (fields.map Prod.fst) = some known) :
    known = rereadFields (depth - 1) fields := by
  rw [reread] at h
  split at h
  · cases h
  · have hnames := map_fst_rereadFields (depth - 1) fields
    have hdeclared : ∀ field ∈ rereadFields (depth - 1) fields, field.1 ∈ fields.map Prod.fst :=
      fun field hfield => hnames ▸ List.mem_map_of_mem hfield
    rw [Json.fields?_object hdeclared (hnames ▸ hnodup)] at h
    exact (Option.some.inj h).symm

/-! ### Nodes and edges -/

theorem AnswerNode.eq_of_reread {n m : AnswerNode S} (h : n.properties.Storable) {depth : Nat}
    (hm : ofJson? (reread depth n.toJson) = some m) : m = n := by
  unfold ofJson? at hm
  simp only [Option.bind_eq_bind, Option.bind_eq_some_iff] at hm
  obtain ⟨fields, hfields, id, hid, properties, hproperties, heq⟩ := hm
  obtain rfl := fields?_reread_object (by simp) hfields
  simp only [rereadFields, required_cons, String.reduceEq, if_true, if_false] at hid hproperties
  obtain rfl : n.id = id := Option.some.inj hid
  rw [h.eq_of_reread hproperties] at heq
  exact (Option.some.inj heq).symm

theorem AnswerEdge.eq_of_reread {e f : AnswerEdge S} (h : e.properties.Storable) {depth : Nat}
    (hf : ofJson? (reread depth e.toJson) = some f) : f = e := by
  unfold ofJson? at hf
  simp only [Option.bind_eq_bind, Option.bind_eq_some_iff] at hf
  obtain ⟨fields, hfields, source, hsource, target, htarget, properties, hproperties, heq⟩ := hf
  obtain rfl := fields?_reread_object (by simp) hfields
  simp only [rereadFields, required_cons, String.reduceEq, if_true, if_false]
    at hsource htarget hproperties
  obtain rfl : e.source = source := Option.some.inj hsource
  obtain rfl : e.target = target := Option.some.inj htarget
  rw [h.eq_of_reread hproperties] at heq
  exact (Option.some.inj heq).symm

/-! ### Answers -/

namespace Answer

/-- **Answers that agree**: they found the same. When and how fast they found it may differ. -/
structure Agrees (a b : Answer S) : Prop where
  nodes : a.nodes = b.nodes
  edges : a.edges = b.edges
  paths : a.paths = b.paths
  confidence : a.confidence = b.confidence
  kind : a.kind = b.kind

/-- **An answer that can be stored**: the properties of its nodes and edges can. -/
structure Storable (a : Answer S) : Prop where
  nodes : ∀ n ∈ a.nodes, n.properties.Storable
  edges : ∀ e ∈ a.edges, e.properties.Storable

omit [Numeral S] in
theorem Agrees.trans {a b c : Answer S} (hab : a.Agrees b) (hbc : b.Agrees c) : a.Agrees c :=
  ⟨hab.nodes.trans hbc.nodes, hab.edges.trans hbc.edges, hab.paths.trans hbc.paths,
    hab.confidence.trans hbc.confidence, hab.kind.trans hbc.kind⟩

omit [Numeral S] in
theorem asChoice_name (kind : Kind) :
    Json.asChoice (S := S) Json.strict Kind.named (.string kind.name) = some kind := by
  cases kind <;> rfl

/-- **Whatever is read from the document of an answer agrees with the answer.** -/
theorem Storable.agrees_of_reread {a b : Answer S} (h : a.Storable) {depth : Nat}
    (hb : ofJson? (reread depth a.toJson) = some b) : b.Agrees a := by
  unfold ofJson? at hb
  simp only [Option.bind_eq_bind, Option.bind_eq_some_iff] at hb
  obtain ⟨fields, hfields, nodes, hnodes, edges, hedges, paths, hpaths, confidence, hconfidence,
    elapsed, -, kind, hkind, time, -, heq⟩ := hb
  obtain rfl := fields?_reread_object (by simp) hfields
  simp only [rereadFields, required_cons, String.reduceEq, if_true, if_false]
    at hnodes hedges hpaths hconfidence hkind
  obtain rfl := Option.some.inj heq
  constructor
  · exact eq_of_reread_array (fun n hn _ _ => AnswerNode.eq_of_reread (h.nodes n hn)) hnodes
  · exact eq_of_reread_array (fun e he _ _ => AnswerEdge.eq_of_reread (h.edges e he)) hedges
  · exact eq_of_reread_array (fun _ _ _ _ => eq_of_reread_texts) hpaths
  · -- a confidence that is not finite is not read at all
    rw [reread] at hconfidence
    split at hconfidence
    · exact (Option.some.inj hconfidence).symm
    · cases hconfidence
  · exact (Option.some.inj (hkind.symm.trans (asChoice_name a.kind)))

end Answer

end GraphReasoner.Query
