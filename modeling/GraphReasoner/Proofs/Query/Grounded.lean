import GraphReasoner.Proofs.Query.Subsumed
import GraphReasoner.Proofs.Query.WellFormed

/-!
# Mentions are grounded in the graph

What a question is said to mention is a part of its text, and what it may denote are entities of the
graph that are named like it (`GraphReasoner.Query.Grounded`). A part that denotes nothing is a word
that the third pass looked for inside all names.

No text is mentioned twice. All three passes write to one list of mentions and the second one also
deletes from it, but each takes the texts that it adds, and a text stays taken when its mention is
deleted (`GraphReasoner.Query.Found.Settled`). So the texts that are mentioned are among those that
are taken, and what is added is not.

* `GraphReasoner.Query.parse_grounded` – what holds of the mentions of every text in every graph.
-/

namespace GraphReasoner.Query

open GraphReasoner.Text

/-! ### No text twice -/

/-- **The texts of the mentions are taken**, and none of them is mentioned twice. -/
structure Found.Settled (f : Found) : Prop where
  nodup : (f.mentions.map fun x => x.2.text).Nodup
  claimed : ∀ x ∈ f.mentions, x.2.text.toList ∈ f.claimed

namespace Found

theorem settled_empty : empty.Settled :=
  ⟨List.nodup_nil, nofun⟩

namespace Settled

variable {f : Found}

/-- **A text that is not taken** can be mentioned. -/
theorem claim (h : f.Settled) {text : List Char} (hnew : text ∉ f.claimed) (position : Nat)
    (candidates : List String) : (f.claim text position candidates).Settled := by
  constructor
  · rw [Found.claim, List.map_append, List.map_singleton, List.nodup_append]
    refine ⟨h.nodup, List.nodup_singleton _, ?_⟩
    rintro _ hold _ hlast rfl
    obtain ⟨x, hx, htext⟩ := List.mem_map.1 hold
    have htaken := h.claimed x hx
    rw [htext, List.mem_singleton.1 hlast, String.toList_ofList] at htaken
    exact hnew htaken
  · refine List.forall_mem_append.2 ⟨fun x hx => ?_, List.forall_mem_singleton.2 ?_⟩
    · exact List.mem_cons_of_mem _ (h.claimed x hx)
    · rw [String.toList_ofList]
      exact List.mem_cons_self

/-- **Deleting mentions** leaves their texts taken. -/
theorem filter (h : f.Settled) (p : Nat × Mention → Bool) :
    Settled { f with mentions := f.mentions.filter p } where
  nodup := h.nodup.sublist (List.filter_sublist.map _)
  claimed x hx := h.claimed x (List.mem_filter.1 hx).1

/-- The first and the third pass. -/
theorem foldl_claimFirst (h : f.Settled) (admits : List Char × Nat → Bool)
    (candidates : List Char → List String) (os : List (List Char × Nat)) :
    (os.foldl (claimFirst admits candidates) f).Settled := by
  refine List.foldlRecOn os _ h fun f hf o _ => ?_
  rcases claimFirst_cases admits candidates f o with ⟨hsame, -⟩ | ⟨hclaim, hnew, -⟩
  · rw [hsame]
    exact hf
  · rw [hclaim]
    exact hf.claim hnew o.2 _

/-- The second pass. -/
theorem foldl_addPhrase (h : f.Settled) (lowered : List Char) (targets : List Target) :
    (targets.foldl (Found.addPhrase lowered) f).Settled := by
  refine List.foldlRecOn targets _ h fun f hf t _ => ?_
  rw [addPhrase_eq]
  rcases hphrase : phraseOf? lowered f.claimed t with _ | k
  · exact hf
  · obtain ⟨-, hnew, -⟩ := phraseOf?_eq_some.1 hphrase
    exact (hf.filter fun x => ¬k.Covers x.1).claim hnew k.start [k.bearer]

end Settled

end Found

/-- **No text is mentioned twice.** -/
theorem nodup_texts_mentionsOf (text : List Char) (targets : List Target) :
    ((mentionsOf text targets).map Mention.text).Nodup := by
  have hexact : (exactFound text targets).Settled := by
    rw [exactFound, addExact_eq]
    exact Found.settled_empty.foldl_claimFirst _ _ _
  have hphrase : (phraseFound text targets).Settled := hexact.foldl_addPhrase _ targets
  have hinner := hphrase.foldl_claimFirst (fun o => isMeaningful o.1 &&
    !Found.covers (phraseFound text targets).mentions o.2) (containing targets) (occurrences text)
  rw [← addInner_eq] at hinner
  have htexts : (mentionsOf text targets).map Mention.text =
      (((occurrences text).foldl (Found.addInner targets (phraseFound text targets).mentions)
        (phraseFound text targets)).mentions.mergeSort fun a b => a.1 ≤ b.1).map
          fun x => x.2.text := List.map_map
  rw [htexts]
  exact ((List.mergeSort_perm _ _).map _).nodup_iff.2 hinner.nodup

/-! ### Named like the mention -/

variable {S : Type}

/-- **The entities that are named in some way**: some identifiers are those of the entities whose
lowercase identifier or name has a property, each once. -/
structure ListsNamed (g : Graph S) (named : List Char → Prop) (ids : List String) : Prop where
  nodup : ids.Nodup
  mem_iff : ∀ id, id ∈ ids ↔
    ∃ e ∈ g.entities, e.id = id ∧ (named (lower e.id.toList) ∨ named (lower e.name.toList))

/-- **A mention is grounded** in a graph and the text of a question. -/
inductive Grounded (g : Graph S) (text : List Char) : Mention → Prop
  /-- A token that is the identifier or the name of some entities, which it may denote. -/
  | exact {token : List Char} {ids : List String} (htoken : token ∈ tokens text)
    (hnamed : ListsNamed g (· = token) ids) (hsome : ids ≠ []) :
    Grounded g text ⟨String.ofList token, ids⟩
  /-- The name of an entity, which occurs in the text. -/
  | phrase {e : Entity S} (he : e ∈ g.entities) (hphrase : Found.isPhrase (lower e.name.toList))
    (hoccurs : lower e.name.toList <:+: lower text) :
    Grounded g text ⟨String.ofList (lower e.name.toList), [e.id]⟩
  /-- A token that means something, and the entities that have it inside their identifier or
  name, if there are any. -/
  | inner {token : List Char} {ids : List String} (htoken : token ∈ tokens text)
    (hascii : isAscii token = true) (hword : isKeyword token = false)
    (hlength : leastInnerLength ≤ token.length) (hnamed : ListsNamed g (token <:+: ·) ids) :
    Grounded g text ⟨String.ofList token, ids⟩

section Grounded

variable {g : Graph S} {text : List Char} {m : Mention}

/-- The entities that satisfy a condition on their lowercase identifier and name. -/
theorem listsNamed_filter (hids : (g.entities.map Entity.id).Nodup) {named : List Char → Prop}
    {p : Target → Bool} (hp : ∀ t, p t = true ↔ named t.lowerId ∨ named t.lowerName) :
    ListsNamed g named (((targets g).filter p).map Target.id) where
  nodup := by
    have hall : (targets g).map Target.id = g.entities.map Entity.id := by
      rw [targets, List.map_map]
      rfl
    exact (hall ▸ hids).sublist (List.filter_sublist.map _)
  mem_iff id := by
    simp only [targets, List.mem_map, List.mem_filter, and_assoc, exists_exists_and_eq_and, hp]
    exact exists_congr fun e => and_congr_right fun _ => and_comm

theorem listsNamed_matching (hids : (g.entities.map Entity.id).Nodup) (token : List Char) :
    ListsNamed g (· = token) (matching (targets g) token) :=
  listsNamed_filter hids fun t => by rw [Bool.or_eq_true, beq_iff_eq, beq_iff_eq]

theorem listsNamed_containing (hids : (g.entities.map Entity.id).Nodup) (token : List Char) :
    ListsNamed g (token <:+: ·) (containing (targets g) token) :=
  listsNamed_filter hids fun t => by rw [Bool.or_eq_true, occursIn_iff, occursIn_iff]

/-- **What is mentioned is grounded.** -/
theorem Mentioned.grounded (hids : (g.entities.map Entity.id).Nodup)
    (h : Mentioned text (targets g) m) : Grounded g text m := by
  have hmem : ∀ {admits : List Char × Nat → Bool} {token position},
      firstAdmitted admits (occurrences text) token = some (token, position) →
        token ∈ tokens text := fun hfirst =>
    mem_tokens_iff.2 ⟨_, (firstAdmitted_eq_some hfirst).2.1⟩
  cases h with
  | kept hkept =>
    cases hkept with
    | exact hsome hfirst _ => exact .exact (hmem hfirst) (listsNamed_matching hids _) hsome
    | @phrase before after k hks _ =>
      have hk : k ∈ foundPhrases text (targets g) :=
        hks ▸ List.mem_append_right _ List.mem_cons_self
      obtain ⟨hphrase, t, ht, hbearer⟩ := mem_foundPhrases_iff.1 hk
      obtain ⟨hin, hname⟩ := firstBearer_eq_some ht
      obtain ⟨e, he, rfl⟩ := List.mem_map.1 hin
      have hlower : lower e.name.toList = k.name := hname
      obtain ⟨rest, hfound⟩ := hphrase.found
      have hoccurs : k.name <:+: lower text := isSome_find_iff.1 (Option.isSome_of_eq_some hfound)
      have hbearer : k.bearer = e.id := hbearer
      rw [Phrase.mention, hbearer, ← hlower]
      exact .phrase he (hlower ▸ hphrase.isPhrase) (hlower ▸ hoccurs)
  | inner _ hfirst =>
    have hadmits := (firstAdmitted_eq_some hfirst).2.2
    simp only [isMeaningful, Bool.and_eq_true, Bool.not_eq_true', decide_eq_true_eq] at hadmits
    obtain ⟨⟨⟨hascii, hword⟩, hlength⟩, -⟩ := hadmits
    exact .inner (hmem hfirst) hascii hword hlength (listsNamed_containing hids _)

/-- The candidates of a mention are entities of the graph, each once. -/
theorem Grounded.candidates (h : Grounded g text m) :
    m.candidates.Nodup ∧ ∀ id ∈ m.candidates, g.hasEntity id = true := by
  have hlists : ∀ {named : List Char → Prop} {ids}, ListsNamed g named ids →
      ids.Nodup ∧ ∀ id ∈ ids, g.hasEntity id = true := by
    intro named ids hnamed
    refine ⟨hnamed.nodup, fun id hid => ?_⟩
    obtain ⟨e, he, rfl, -⟩ := (hnamed.mem_iff id).1 hid
    exact List.any_eq_true.2 ⟨e, he, beq_self_eq_true e.id⟩
  cases h with
  | exact _ hnamed _ => exact hlists hnamed
  | @phrase e he _ _ =>
    refine ⟨List.nodup_singleton _, List.forall_mem_singleton.2 ?_⟩
    exact List.any_eq_true.2 ⟨e, he, beq_self_eq_true e.id⟩
  | inner _ _ _ _ hnamed => exact hlists hnamed

end Grounded

/-- **The mentions of a text are grounded in the graph**, for every graph that can be grown and
every text. No text is mentioned twice, the candidates of a mention are entities of the graph, each
once, and each is named as the mention says; a mention without candidates is a token of three ASCII
characters at least that is no word of the vocabulary. So the entities that are mentioned are
listed once each, and the share of the mentions that denote an entity lies in the unit interval when
numbers compute exactly. -/
theorem parse_grounded [Scalar S] (calls : List (Graph.Insertion S)) (text : String) :
    let g := Graph.grow .empty calls
    let q := parse text g
    (q.mentions.map Mention.text).Nodup ∧
    (∀ m ∈ q.mentions, m.candidates.Nodup ∧ (∀ id ∈ m.candidates, g.hasEntity id = true) ∧
      Grounded g text.toList m) ∧
    (∀ m ∈ q.mentions, m.candidates = [] → ∃ token ∈ tokens text.toList,
      m.text = String.ofList token ∧ isAscii token = true ∧ isKeyword token = false ∧
        3 ≤ token.length) ∧
    q.matchedNodes.Nodup ∧ (∀ id ∈ q.matchedNodes, g.hasEntity id = true) ∧
    ∀ {T : Type} [Scalar T] [ExactScalar T], Scalar.InUnit (q.coverage : T) := by
  intro g q
  have hids : (g.entities.map Entity.id).Nodup := by
    rw [(Graph.tells_grow calls).ids]
    exact Graph.nodup_eraseDups _
  have hgrounded : ∀ m ∈ q.mentions, Grounded g text.toList m :=
    fun m hm => (mem_parse_mentions.1 hm).grounded hids
  refine ⟨nodup_texts_mentionsOf _ _, fun m hm => ?_, fun m hm hnone => ?_, ?_, fun id hid => ?_,
    q.inUnit_coverage⟩
  · obtain ⟨hnodup, hmem⟩ := (hgrounded m hm).candidates
    exact ⟨hnodup, hmem, hgrounded m hm⟩
  · cases hgrounded m hm with
    | exact _ _ hsome => exact absurd hnone hsome
    | phrase => cases hnone
    | @inner token _ htoken hascii hword hlength _ =>
      exact ⟨token, htoken, rfl, hascii, hword, hlength⟩
  · exact Graph.nodup_eraseDups _
  · obtain ⟨m, hm, hid⟩ := List.mem_flatMap.1 (List.mem_eraseDups.1 hid)
    exact (hgrounded m (List.mem_filter.1 hm).1).candidates.2 id hid

end GraphReasoner.Query
