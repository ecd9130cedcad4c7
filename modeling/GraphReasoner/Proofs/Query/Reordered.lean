import GraphReasoner.Proofs.Query.Subsumed

/-!
# Mentions and the order of the entities

A graph lists its entities in the order in which they were inserted, and the second pass of the
search for mentions goes through them in this order. Does it matter? What is asked for and the types
of relations do not depend on the graph at all. The mentions do not depend on the order either
(`GraphReasoner.Query.PhrasesApart`) as long as every phrase that is found is the name of one entity
and starts inside no other one. These two conditions are also necessary: of the entities of one
name only the first is a candidate, and of two phrases of which one starts inside the other the one
that is found later may take the other away. That is shown by putting the bearers of a name behind
all other entities (`GraphReasoner.Query.foundPhrases_last`), so that its phrase is found last and
taken away by none.

* `GraphReasoner.Query.parse_reordered_iff` – reading a question does not depend on the order of the
  entities exactly when the phrases that are found in it are apart.
-/

namespace GraphReasoner.Query

open GraphReasoner.Text

/-! ### The same mentions -/

/-- Mentions of the same text with the same candidates, in any order. -/
def Mention.Same (m m' : Mention) : Prop :=
  m.text = m'.text ∧ ∀ id, id ∈ m.candidates ↔ id ∈ m'.candidates

theorem Mention.Same.symm {m m' : Mention} (h : m.Same m') : m'.Same m :=
  ⟨h.1.symm, fun id => (h.2 id).symm⟩

/-- **Questions that say the same**: they ask for the same, with the same types of relations and the
same set of mentions. -/
structure Question.Same (q q' : Question) : Prop where
  kind : q.kind = q'.kind
  relationKinds : q.relationKinds = q'.relationKinds
  mentions : ∀ m ∈ q.mentions, ∃ m' ∈ q'.mentions, m.Same m'
  mentions_symm : ∀ m' ∈ q'.mentions, ∃ m ∈ q.mentions, m.Same m'

/-! ### Another order -/

section Reordered

variable {text : List Char} {ts ts' : List Target}

theorem PhraseAt.reordered {name : List Char} {start : Nat} (h : PhraseAt text ts name start)
    (hperm : ts.Perm ts') : PhraseAt text ts' name start where
  borne := by
    obtain ⟨t, ht, hname⟩ := h.borne
    exact ⟨t, hperm.mem_iff.1 ht, hname⟩
  isPhrase := h.isPhrase
  notMem_tokens := h.notMem_tokens
  found := h.found

theorem Subsumed.reordered {position : Nat} (h : Subsumed text ts position) (hperm : ts.Perm ts') :
    Subsumed text ts' position := by
  obtain ⟨name, start, hphrase, hcovers⟩ := h
  exact ⟨name, start, hphrase.reordered hperm, hcovers⟩

theorem matching_perm (hperm : ts.Perm ts') (token : List Char) :
    (matching ts token).Perm (matching ts' token) :=
  (hperm.filter _).map _

theorem containing_perm (hperm : ts.Perm ts') (token : List Char) :
    (containing ts token).Perm (containing ts' token) :=
  (hperm.filter _).map _

theorem matching_eq_nil_iff (hperm : ts.Perm ts') {token : List Char} :
    matching ts token = [] ↔ matching ts' token = [] := by
  rw [← List.length_eq_zero_iff, (matching_perm hperm token).length_eq, List.length_eq_zero_iff]

/-- A name is found for one entity only. -/
theorem bearer_eq_of_name_eq {k k' : Phrase} (hk : k ∈ foundPhrases text ts)
    (hk' : k' ∈ foundPhrases text ts) (hname : k.name = k'.name) : k.bearer = k'.bearer := by
  obtain ⟨-, t, ht, hbearer⟩ := mem_foundPhrases_iff.1 hk
  obtain ⟨-, t', ht', hbearer'⟩ := mem_foundPhrases_iff.1 hk'
  rw [hname, ht'] at ht
  rw [hbearer, hbearer', Option.some.inj ht]

/-- **The phrases are apart**: each is the name of one entity, and none starts inside another. -/
structure PhrasesApart (text : List Char) (ts : List Target) : Prop where
  one_bearer : ∀ name start, PhraseAt text ts name start → ∀ t ∈ ts, ∀ t' ∈ ts,
    t.lowerName = name → t'.lowerName = name → t.id = t'.id
  apart : ∀ name start name' start', PhraseAt text ts name start →
    PhraseAt text ts name' start' → name ≠ name' →
      ¬(start' ≤ start ∧ start < start' + byteLength name')

theorem PhrasesApart.reordered (h : PhrasesApart text ts) (hperm : ts.Perm ts') :
    PhrasesApart text ts' where
  one_bearer name start hphrase t ht t' ht' := h.one_bearer name start
    (hphrase.reordered hperm.symm) t (hperm.mem_iff.2 ht) t' (hperm.mem_iff.2 ht')
  apart name start name' start' hphrase hphrase' := h.apart name start name' start'
    (hphrase.reordered hperm.symm) (hphrase'.reordered hperm.symm)

variable (h : PhrasesApart text ts) (hperm : ts.Perm ts')
include h hperm

namespace PhrasesApart

/-- A phrase that is found in one order is found in the other, for the same entity. -/
theorem mem_foundPhrases {k : Phrase} (hk : k ∈ foundPhrases text ts) :
    k ∈ foundPhrases text ts' := by
  obtain ⟨hphrase, t, ht, hbearer⟩ := mem_foundPhrases_iff.1 hk
  obtain ⟨hmem, hname⟩ := firstBearer_eq_some ht
  obtain ⟨k', hk', hname', hstart'⟩ := (hphrase.reordered hperm).exists_mem
  obtain ⟨-, t', ht', hbearer'⟩ := mem_foundPhrases_iff.1 hk'
  obtain ⟨hmem', hsame⟩ := firstBearer_eq_some ht'
  have hid : t.id = t'.id := h.one_bearer k.name k.start hphrase t hmem t' (hperm.mem_iff.2 hmem')
    hname (hsame.trans hname')
  have heq : k' = k := Phrase.ext hname' (by rw [hbearer', hbearer, hid]) hstart'
  exact heq ▸ hk'

/-- **What the first two passes leave** does not depend on the order. -/
theorem kept {position : Nat} {m : Mention} (hkept : Kept text ts position m) :
    ∃ m', Kept text ts' position m' ∧ m.Same m' := by
  cases hkept with
  | @exact token position hmatching hfirst hfree =>
    refine ⟨_, .exact (mt (matching_eq_nil_iff hperm).2 hmatching) hfirst fun k hk hcovers => ?_,
      rfl, fun id => (matching_perm hperm token).mem_iff⟩
    have hsubsumed := (subsumed_iff.2 ⟨k, hk, hcovers⟩).reordered hperm.symm
    obtain ⟨k, hk, hcovers⟩ := subsumed_iff.1 hsubsumed
    exact hfree k hk hcovers
  | @phrase before after k hks _ =>
    have hk : k ∈ foundPhrases text ts := by simp [hks]
    obtain ⟨before', after', hks'⟩ := List.append_of_mem (h.mem_foundPhrases hperm hk)
    refine ⟨_, .phrase hks' fun later hlater => ?_, rfl, fun id => Iff.rfl⟩
    -- another phrase, and so one that is apart
    have hpairwise := pairwise_phrases (lower text) (exactFound text ts').claimed ts'
    rw [show phrases _ _ ts' = _ from hks'] at hpairwise
    have hne := (List.pairwise_cons.1 (List.pairwise_append.1 hpairwise).2.1).1 later hlater
    have hlater' : later ∈ foundPhrases text ts' := by simp [hks', hlater]
    exact h.apart _ _ _ _ (mem_foundPhrases_iff.1 hk).1
      ((mem_foundPhrases_iff.1 hlater').1.reordered hperm.symm) hne

theorem covers_imp {position : Nat}
    (hcovers : Found.covers (phraseFound text ts).mentions position = true) :
    Found.covers (phraseFound text ts').mentions position = true := by
  obtain ⟨start, m, hm, hinside⟩ := covers_phraseFound_iff.1 hcovers
  obtain ⟨m', hkept, htext, -⟩ := h.kept hperm hm
  exact covers_phraseFound_iff.2 ⟨start, m', hkept, htext ▸ hinside⟩

theorem covers_eq (position : Nat) : Found.covers (phraseFound text ts).mentions position =
    Found.covers (phraseFound text ts').mentions position := by
  rw [Bool.eq_iff_iff]
  exact ⟨h.covers_imp hperm, (h.reordered hperm).covers_imp hperm.symm⟩

/-- **What is mentioned** does not depend on the order, when the phrases are apart. -/
theorem mentioned {m : Mention} (hm : Mentioned text ts m) :
    ∃ m', Mentioned text ts' m' ∧ m.Same m' := by
  cases hm with
  | kept hkept =>
    obtain ⟨m', hkept', hsame⟩ := h.kept hperm hkept
    exact ⟨m', .kept hkept', hsame⟩
  | @inner token position hnone hfirst =>
    simp only [h.covers_eq hperm] at hfirst
    exact ⟨_, .inner ((matching_eq_nil_iff hperm).1 hnone) hfirst, rfl,
      fun id => (containing_perm hperm token).mem_iff⟩

end PhrasesApart

end Reordered

/-! ### The phrase that is found last -/

section Last

variable {lowered : List Char} {text : List Char}

/-- **The second pass at some entities after others** finds what is not taken by then. -/
theorem phrases_append (lowered : List Char) (claimed : List (List Char)) (ts more : List Target) :
    ∃ claimed', phrases lowered claimed (ts ++ more) =
        phrases lowered claimed ts ++ phrases lowered claimed' more ∧
      ∀ name, name ∈ claimed' ↔
        name ∈ claimed ∨ ∃ k ∈ phrases lowered claimed ts, k.name = name := by
  induction ts generalizing claimed with
  | nil => exact ⟨claimed, rfl, fun name => by simp [phrases]⟩
  | cons t ts ih =>
    rw [List.cons_append, phrases, phrases]
    rcases phraseOf? lowered claimed t with _ | k
    · exact ih claimed
    · obtain ⟨claimed', heq, hclaimed⟩ := ih (k.name :: claimed)
      refine ⟨claimed', congrArg (k :: ·) heq, fun name => (hclaimed name).trans ?_⟩
      simp only [List.mem_cons, exists_eq_or_imp]
      rw [or_comm (a := name = k.name), or_assoc, eq_comm (a := name)]

theorem phrases_eq_nil {claimed : List (List Char)} {ts : List Target}
    (h : ∀ t ∈ ts, t.lowerName ∈ claimed) : phrases lowered claimed ts = [] := by
  refine List.eq_nil_iff_forall_not_mem.2 fun k hk => ?_
  obtain ⟨-, hfree, -, t, ht, -⟩ := mem_phrases_iff.1 hk
  obtain ⟨hmem, hname⟩ := firstBearer_eq_some ht
  exact hfree (hname ▸ h t hmem)

/-- **The phrase of a name whose bearers come last is found last**, for the first of them. -/
theorem foundPhrases_last {others bearers : List Target} {t : Target} {start : Nat}
    (hphrase : PhraseAt text (others ++ t :: bearers) t.lowerName start)
    (hothers : ∀ other ∈ others, other.lowerName ≠ t.lowerName)
    (hbearers : ∀ bearer ∈ bearers, bearer.lowerName = t.lowerName) :
    ∃ before, foundPhrases text (others ++ t :: bearers) =
      before ++ [⟨t.lowerName, t.id, start⟩] := by
  obtain ⟨claimed', heq, hclaimed⟩ := phrases_append (lower text)
    (exactFound text (others ++ t :: bearers)).claimed others (t :: bearers)
  refine ⟨phrases (lower text) (exactFound text (others ++ t :: bearers)).claimed others, ?_⟩
  have hfree : t.lowerName ∉ claimed' := by
    rw [hclaimed, mem_claimed_exactFound]
    rintro (hexact | ⟨k, hk, hname⟩)
    · exact hphrase.notMem_tokens hexact.1
    · obtain ⟨-, -, -, other, hother, -⟩ := mem_phrases_iff.1 hk
      obtain ⟨hmem, hsame⟩ := firstBearer_eq_some hother
      exact hothers other hmem (hsame.trans hname)
  have hfirst : phraseOf? (lower text) claimed' t = some ⟨t.lowerName, t.id, start⟩ :=
    phraseOf?_eq_some.2 ⟨hphrase.isPhrase, hfree, hphrase.found, rfl, rfl⟩
  have hrest : phrases (lower text) (t.lowerName :: claimed') bearers = [] :=
    phrases_eq_nil fun bearer hbearer => by simp [hbearers bearer hbearer]
  rw [foundPhrases, heq, phrases, hfirst]
  simp only [hrest]

/-- What is mentioned with a text that is no token is a phrase, and no later one takes it away. -/
theorem Mentioned.exists_phrase {ts : List Target} {m : Mention} (hm : Mentioned text ts m)
    {name : List Char} (htext : m.text = String.ofList name) (hname : name ∉ tokens text) :
    ∃ before k after, foundPhrases text ts = before ++ k :: after ∧ k.name = name ∧
      m = k.mention ∧ ∀ later ∈ after, ¬later.Covers k.start := by
  cases hm with
  | kept hkept =>
    cases hkept with
    | @exact token position _ hfirst _ =>
      obtain rfl := String.ofList_inj.1 htext
      exact absurd (mem_tokens_iff.2 ⟨_, (firstAdmitted_eq_some hfirst).2.1⟩) hname
    | @phrase before after k hks hfree =>
      exact ⟨before, k, after, hks, String.ofList_inj.1 htext, rfl, hfree⟩
  | inner _ hfirst =>
    obtain rfl := String.ofList_inj.1 htext
    exact absurd (mem_tokens_iff.2 ⟨_, (firstAdmitted_eq_some hfirst).2.1⟩) hname

end Last

/-! ### Graphs -/

variable {S : Type}

/-- The phrase that is found last is mentioned. -/
theorem mem_mentions_of_last {g : Graph S} {text : String} {before : List Phrase} {k : Phrase}
    (h : foundPhrases text.toList (targets g) = before ++ [k]) :
    k.mention ∈ (parse text g).mentions :=
  mem_parse_mentions.2 (.kept (.phrase h nofun))

variable [Scalar S]

open GraphReasoner.Graph (grow empty)

theorem entities_after {g : Graph S} {e : Entity S} (hvalid : e.validate = .ok ())
    (hnone : g.entity? e.id = none) : (g.after (.entity e)).entities = g.entities ++ [e] := by
  rw [Graph.after, Graph.insert, Graph.addEntity, hvalid, hnone]
  rfl

/-- **Entities of different identifiers are listed as they were added**, when they are valid. -/
theorem entities_grow {order : List (Entity S)} (hids : (order.map Entity.id).Nodup)
    (hvalid : ∀ e ∈ order, e.validate = .ok ()) :
    (grow empty (order.map .entity)).entities = order := by
  induction order using List.reverseRecOn with
  | nil => rfl
  | append_singleton order e ih =>
    rw [List.map_append, List.nodup_append] at hids
    obtain ⟨hprevious, -, hnew⟩ := hids
    have hentities := ih hprevious fun e' he' => hvalid e' (List.mem_append_left _ he')
    have hnone : (grow empty (order.map .entity)).entity? e.id = none := by
      refine List.find?_eq_none.2 fun e' he' hsame => ?_
      rw [hentities] at he'
      exact hnew _ (List.mem_map_of_mem he') e.id (by simp) (eq_of_beq hsame)
    rw [List.map_append, List.map_singleton, Graph.grow_concat,
      entities_after (hvalid e (by simp)) hnone, hentities]

section Graphs

variable {calls : List (Graph.Insertion S)} {text : String}

/-- **Any phrase can be the one that is found last**, for any of the entities that bear its name. -/
theorem exists_last {e : Entity S} (he : e ∈ (grow empty calls).entities) {start : Nat}
    (hphrase : PhraseAt text.toList (targets (grow empty calls)) (lower e.name.toList) start) :
    ∃ calls', (grow empty calls').entities.Perm (grow empty calls).entities ∧
      ∃ before, foundPhrases text.toList (targets (grow empty calls')) =
        before ++ [⟨lower e.name.toList, e.id, start⟩] := by
  have hhistory := (Graph.tells_grow calls).history
  -- first the entities of other names, then those of this name, with the given one in front
  have hsplit := List.filter_append_perm
    (fun other : Entity S => lower other.name.toList != lower e.name.toList)
    (grow empty calls).entities
  have hbearer : e ∈ (grow empty calls).entities.filter
      fun other => !(lower other.name.toList != lower e.name.toList) :=
    List.mem_filter.2 ⟨he, by simp⟩
  obtain ⟨earlier, later, hbearers⟩ := List.append_of_mem hbearer
  rw [hbearers] at hsplit
  have hsame : ∀ other ∈ earlier ++ later, lower other.name.toList = lower e.name.toList := by
    intro other hother
    have hin : other ∈ (grow empty calls).entities.filter
        fun other => !(lower other.name.toList != lower e.name.toList) := by
      rw [hbearers]
      rcases List.mem_append.1 hother with h | h <;> simp [h]
    simpa using (List.mem_filter.1 hin).2
  have hperm := (List.perm_middle.symm.append_left _).trans hsplit
  have hentities := entities_grow
    ((hperm.map Entity.id).nodup_iff.2 hhistory.entity_ids_nodup)
    fun other hother => hhistory.entity_valid other (hperm.mem_iff.1 hother)
  refine ⟨_, hentities.symm ▸ hperm, ?_⟩
  have htargets := hperm.symm.map Target.ofEntity
  rw [targets, hentities, List.map_append, List.map_cons]
  rw [List.map_append, List.map_cons] at htargets
  refine foundPhrases_last (hphrase.reordered htargets) (fun t ht => ?_) fun t ht => ?_
  · obtain ⟨other, hother, rfl⟩ := List.mem_map.1 ht
    exact bne_iff_ne.1 (List.mem_filter.1 hother).2
  · obtain ⟨other, hother, rfl⟩ := List.mem_map.1 ht
    exact hsame other hother

section Necessary

variable (h : ∀ calls', (grow empty calls').entities.Perm (grow empty calls).entities →
  (parse text (grow empty calls')).Same (parse text (grow empty calls)))
include h

/-- **When the order does not matter, one entity bears the name of a phrase**: the mention of the
phrase, which another order may take for any of them, is there in the given one. -/
theorem bearer_eq_of_same {e : Entity S} (he : e ∈ (grow empty calls).entities) {start : Nat}
    (hphrase : PhraseAt text.toList (targets (grow empty calls)) (lower e.name.toList) start) :
    ∃ k ∈ foundPhrases text.toList (targets (grow empty calls)),
      k.name = lower e.name.toList ∧ k.bearer = e.id ∧
        k.mention ∈ (parse text (grow empty calls)).mentions := by
  obtain ⟨calls', hperm, before, hlast⟩ := exists_last he hphrase
  obtain ⟨m, hm, htext, hcandidates⟩ := (h calls' hperm).mentions _ (mem_mentions_of_last hlast)
  obtain ⟨_, k, _, hks, hname, rfl, -⟩ :=
    (mem_parse_mentions.1 hm).exists_phrase htext.symm hphrase.notMem_tokens
  have hbearer : k.bearer = e.id := by
    have hmember := (hcandidates k.bearer).2 List.mem_cons_self
    exact List.mem_singleton.1 hmember
  exact ⟨k, by simp [hks], hname, hbearer, hm⟩

/-- **When the order does not matter, no phrase starts inside another one**, because the other one
could be found later. -/
theorem not_covers_of_same {e e' : Entity S} (he : e ∈ (grow empty calls).entities)
    (he' : e' ∈ (grow empty calls).entities) {start start' : Nat}
    (hphrase : PhraseAt text.toList (targets (grow empty calls)) (lower e.name.toList) start)
    (hphrase' : PhraseAt text.toList (targets (grow empty calls)) (lower e'.name.toList) start')
    (hne : lower e.name.toList ≠ lower e'.name.toList) :
    ¬(start' ≤ start ∧ start < start' + byteLength (lower e'.name.toList)) := by
  obtain ⟨k, hk, hname, -, hmention⟩ := bearer_eq_of_same h he hphrase
  obtain ⟨calls', hperm, before, hlast⟩ := exists_last he' hphrase'
  obtain ⟨m, hm, htext, -⟩ := (h calls' hperm).mentions_symm _ hmention
  have hname' : m.text = String.ofList (lower e.name.toList) :=
    htext.trans (congrArg String.ofList hname)
  obtain ⟨before', other, after, hks, hother, -, hfree⟩ :=
    (mem_parse_mentions.1 hm).exists_phrase hname' hphrase.notMem_tokens
  -- the phrase that is found last comes after the other one
  have hafter : ⟨lower e'.name.toList, e'.id, start'⟩ ∈ after := by
    rw [hlast] at hks
    rcases List.eq_nil_or_concat after with rfl | ⟨init, last, rfl⟩
    · obtain ⟨-, heq⟩ := List.append_inj' hks rfl
      exact absurd (hother.symm.trans (congrArg Phrase.name (List.singleton_inj.1 heq)).symm) hne
    · have hks' : before ++ [⟨lower e'.name.toList, e'.id, start'⟩] =
          (before' ++ other :: init) ++ [last] := by simpa using hks
      obtain ⟨-, heq⟩ := List.append_inj' hks' rfl
      rw [List.singleton_inj.1 heq]
      simp
  have hstart : other.start = start := by
    have hfound : other ∈ foundPhrases text.toList (targets (grow empty calls')) := by simp [hks]
    obtain ⟨rest, hrest⟩ := hphrase.found
    obtain ⟨rest', hrest'⟩ := (mem_foundPhrases_iff.1 hfound).1.found
    rw [hother, hrest] at hrest'
    exact (Prod.mk.inj (Option.some.inj hrest')).1.symm
  exact hstart ▸ hfree _ hafter

end Necessary

/-- **Reading a question does not depend on the order of the entities** exactly when the phrases
that are found in it are apart: each is the name of one entity, and none starts inside another. The
two graphs are any that grew by calls and have the same entities. -/
theorem parse_reordered_iff (calls : List (Graph.Insertion S)) (text : String) :
    (∀ calls', (grow empty calls').entities.Perm (grow empty calls).entities →
      (parse text (grow empty calls')).Same (parse text (grow empty calls))) ↔
    PhrasesApart text.toList (targets (grow empty calls)) := by
  constructor
  · intro h
    refine ⟨fun name start hphrase t ht t' ht' hname hname' => ?_,
      fun name start name' start' hphrase hphrase' hne => ?_⟩
    · obtain ⟨e, he, rfl⟩ := List.mem_map.1 ht
      obtain ⟨e', he', rfl⟩ := List.mem_map.1 ht'
      have hsame : lower e.name.toList = name := hname
      have hsame' : lower e'.name.toList = name := hname'
      obtain ⟨k, hk, hkname, hkbearer, -⟩ := bearer_eq_of_same h he (hsame.symm ▸ hphrase)
      obtain ⟨k', hk', hkname', hkbearer', -⟩ := bearer_eq_of_same h he' (hsame'.symm ▸ hphrase)
      have hbearer := bearer_eq_of_name_eq hk hk' (by rw [hkname, hkname', hsame, hsame'])
      exact hkbearer.symm.trans (hbearer.trans hkbearer')
    · obtain ⟨t, ht, rfl⟩ := hphrase.borne
      obtain ⟨t', ht', rfl⟩ := hphrase'.borne
      obtain ⟨e, he, rfl⟩ := List.mem_map.1 ht
      obtain ⟨e', he', rfl⟩ := List.mem_map.1 ht'
      exact not_covers_of_same h he he' hphrase hphrase' hne
  · intro h calls' hperm
    have htargets : (targets (grow empty calls')).Perm (targets (grow empty calls)) :=
      hperm.map Target.ofEntity
    refine ⟨rfl, rfl, fun m hm => ?_, fun m hm => ?_⟩
    · obtain ⟨m', hm', hsame⟩ := (h.reordered htargets.symm).mentioned htargets
        (mem_parse_mentions.1 hm)
      exact ⟨m', mem_parse_mentions.2 hm', hsame⟩
    · obtain ⟨m', hm', hsame⟩ := h.mentioned htargets.symm (mem_parse_mentions.1 hm)
      exact ⟨m', mem_parse_mentions.2 hm', hsame.symm⟩

end Graphs

end GraphReasoner.Query
