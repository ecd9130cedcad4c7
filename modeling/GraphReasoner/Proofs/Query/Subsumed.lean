import GraphReasoner.Proofs.Exact
import GraphReasoner.Proofs.Graph.History
import GraphReasoner.Proofs.Query.Passes

/-!
# Tokens that a phrase takes away

A token that is the identifier or the name of an entity is mentioned where it first stands, and a
phrase takes away what starts inside it. So the entity is lost when its token first stands inside a
phrase, even when the token stands outside of every phrase as well, or when the phrase is taken away
in its turn by a later one: the token is taken, and no pass comes back to it.

* `GraphReasoner.Query.parse_token` – a token that is an identifier or a name is mentioned exactly
  when it first stands outside of the phrases that are found.
-/

namespace GraphReasoner.Query

open GraphReasoner.Text

/-! ### The first place of a token -/

/-- **The first place of a token** in a text. -/
def FirstAt (text token : List Char) (position : Nat) : Prop :=
  TokenAt text token position ∧ ∀ other, TokenAt text token other → position ≤ other

section First

variable {text token : List Char} {position : Nat}

/-- The place where a token is found first is its first place. -/
theorem firstAt_of_firstAdmitted (hsigma : capitalSigma ∉ text)
    (h : firstAdmitted (fun _ => true) (occurrences text) token = some (token, position)) :
    FirstAt text token position := by
  refine ⟨(mem_occurrences_iff hsigma).1 (firstAdmitted_eq_some h).2.1, fun other hother => ?_⟩
  obtain ⟨-, before, after, hsplit, hbefore⟩ := List.find?_eq_some_iff_append.1 h
  have hordered := pairwise_occurrences hsigma
  rw [← mem_occurrences_iff hsigma, hsplit] at hother
  rw [hsplit] at hordered
  rcases List.mem_append.1 hother with hin | hin
  · exact absurd (hbefore _ hin) (by simp)
  · rcases List.mem_cons.1 hin with heq | hin
    · exact (Prod.mk.inj heq).2.ge
    · have hlater := (List.pairwise_cons.1 (List.pairwise_append.1 hordered).2.1).1 _ hin
      simp only at hlater
      omega

/-- A token that stands somewhere is found somewhere first. -/
theorem exists_firstAdmitted (hsigma : capitalSigma ∉ text) (h : TokenAt text token position) :
    ∃ first, firstAdmitted (fun _ => true) (occurrences text) token = some (token, first) := by
  have hsome : (firstAdmitted (fun _ => true) (occurrences text) token).isSome = true :=
    List.find?_isSome.2 ⟨_, (mem_occurrences_iff hsigma).2 h, by simp⟩
  obtain ⟨o, ho⟩ := Option.isSome_iff_exists.1 hsome
  obtain ⟨rfl, -⟩ := firstAdmitted_eq_some ho
  exact ⟨o.2, ho⟩

end First

/-! ### Taken away -/

/-- A position lies inside a phrase that is found. -/
def Subsumed (text : List Char) (targets : List Target) (position : Nat) : Prop :=
  ∃ name start, PhraseAt text targets name start ∧
    start ≤ position ∧ position < start + byteLength name

section Subsumed

variable {text token : List Char} {targets : List Target} {position : Nat}

theorem subsumed_iff :
    Subsumed text targets position ↔ ∃ k ∈ foundPhrases text targets, k.Covers position := by
  constructor
  · rintro ⟨name, start, h, hcovers⟩
    obtain ⟨k, hk, rfl, rfl⟩ := h.exists_mem
    exact ⟨k, hk, hcovers⟩
  · rintro ⟨k, hk, hcovers⟩
    exact ⟨k.name, k.start, (mem_foundPhrases_iff.1 hk).1, hcovers⟩

/-- What is mentioned with the text of a token that is an identifier or a name was found there by
the first pass. -/
theorem Mentioned.not_subsumed {m : Mention} (h : Mentioned text targets m)
    (htext : m.text = String.ofList token) (htoken : token ∈ tokens text)
    (hmatching : matching targets token ≠ [])
    (hfirst : firstAdmitted (fun _ => true) (occurrences text) token = some (token, position)) :
    ¬Subsumed text targets position := by
  rw [subsumed_iff]
  rintro ⟨k, hk, hcovers⟩
  cases h with
  | kept hkept =>
    cases hkept with
    | exact _ hfirst' hfree =>
      obtain rfl := String.ofList_inj.1 htext
      rw [hfirst] at hfirst'
      obtain ⟨-, rfl⟩ := Prod.mk.inj (Option.some.inj hfirst')
      exact hfree k hk hcovers
    | @phrase before after other hks _ =>
      -- a phrase is no token
      have hother : other ∈ foundPhrases text targets := by simp [hks]
      obtain rfl := String.ofList_inj.1 htext
      exact (mem_foundPhrases_iff.1 hother).1.notMem_tokens htoken
  | inner hnone _ =>
    obtain rfl := String.ofList_inj.1 htext
    exact hmatching hnone

end Subsumed

variable {S : Type}

/-- How questions name the entities of a graph. -/
def targets (g : Graph S) : List Target :=
  g.entities.map Target.ofEntity

theorem mem_parse_mentions {g : Graph S} {text : String} {m : Mention} :
    m ∈ (parse text g).mentions ↔ Mentioned text.toList (targets g) m :=
  mem_mentionsOf_iff

theorem mem_matching_targets {g : Graph S} {token : List Char} {id : String} :
    id ∈ matching (targets g) token ↔
      ∃ e ∈ g.entities, (lower e.id.toList = token ∨ lower e.name.toList = token) ∧ e.id = id := by
  simp only [mem_matching, targets, List.mem_map, exists_exists_and_eq_and]
  rfl

/-- **A token that is an identifier or a name is mentioned unless a phrase takes it away.** Let a
token stand at a position of a question without a capital sigma, and let it be the identifier or the
name of an entity, outside of the phrases that are mentioned in the end. If the token first stands
inside no phrase that is found, it is mentioned, with the entity among its candidates. Otherwise
it is not mentioned at all. That is so in two cases: the token stands there for another time, or
the phrase it stands in is itself not mentioned in the end. -/
theorem parse_token {g : Graph S} {text : String} (hsigma : capitalSigma ∉ text.toList)
    {token : List Char} {position : Nat} (htoken : TokenAt text.toList token position)
    {e : Entity S} (he : e ∈ g.entities)
    (hnames : lower e.id.toList = token ∨ lower e.name.toList = token)
    (houtside : ∀ m ∈ (parse text g).mentions, ∀ start,
      PhraseAt text.toList (targets g) m.text.toList start →
        ¬(start ≤ position ∧ position < start + byteLength m.text.toList)) :
    ∃ first, FirstAt text.toList token first ∧
      (¬Subsumed text.toList (targets g) first →
        ∃ m ∈ (parse text g).mentions, m.text = String.ofList token ∧ e.id ∈ m.candidates) ∧
      (Subsumed text.toList (targets g) first →
        (∀ m ∈ (parse text g).mentions, m.text ≠ String.ofList token) ∧
          (first < position ∨ ∃ name start, PhraseAt text.toList (targets g) name start ∧
            start ≤ position ∧ position < start + byteLength name ∧
            ∀ m ∈ (parse text g).mentions, m.text ≠ String.ofList name)) := by
  obtain ⟨first, hfirst⟩ := exists_firstAdmitted hsigma htoken
  have hfirstAt := firstAt_of_firstAdmitted hsigma hfirst
  have hmember : e.id ∈ matching (targets g) token := mem_matching_targets.2 ⟨e, he, hnames, rfl⟩
  have hmatching : matching (targets g) token ≠ [] := List.ne_nil_of_mem hmember
  have hmem : token ∈ tokens text.toList :=
    mem_tokens_iff.2 ⟨position, (mem_occurrences_iff hsigma).2 htoken⟩
  refine ⟨first, hfirstAt, fun hfree => ?_, fun hsubsumed => ⟨fun m hm htext => ?_, ?_⟩⟩
  · refine ⟨_, mem_parse_mentions.2 (.kept (.exact hmatching hfirst fun k hk hcovers => ?_)), rfl,
      hmember⟩
    exact hfree (subsumed_iff.2 ⟨k, hk, hcovers⟩)
  · exact (mem_parse_mentions.1 hm).not_subsumed htext hmem hmatching hfirst hsubsumed
  · rcases Nat.lt_or_ge first position with hlt | hge
    · exact Or.inl hlt
    · -- the token stands there for the first time, so the phrase it stands in is not mentioned
      obtain rfl : first = position := Nat.le_antisymm (hfirstAt.2 position htoken) hge
      obtain ⟨name, start, hphrase, hcovers⟩ := hsubsumed
      refine Or.inr ⟨name, start, hphrase, hcovers.1, hcovers.2, fun m hm htext => ?_⟩
      have hname : m.text.toList = name := by rw [htext, String.toList_ofList]
      exact houtside m hm start (hname ▸ hphrase) (hname ▸ hcovers)

/-- A graph of two entities, of which one has a name in the name of the other. -/
def suns : Graph Fraction :=
  Graph.grow .empty [.entity ⟨"n1", "sun", "concept", .empty⟩,
    .entity ⟨"n2", "The Sun", "concept", .empty⟩]

theorem isWord_sun : IsWord "sun".toList where
  ne_nil := by simp
  unbroken c hc := by
    have hcases : c = 's' ∨ c = 'u' ∨ c = 'n' := by simpa using hc
    rcases hcases with rfl | rfl | rfl <;> decide

theorem tokenAt_first_sun : TokenAt "the sun and sun".toList "sun".toList 4 := by
  have hlast : "the ".toList.getLast? = some ' ' := by simp
  have hhead : " and sun".toList.head? = some ' ' := by simp
  refine ⟨"the ".toList, "sun".toList, " and sun".toList, by simp, fun c hc => ?_, isWord_sun,
    fun c hc => ?_, by decide +kernel, by decide +kernel⟩
  · rw [hlast, Option.mem_some_iff] at hc
    exact hc ▸ rfl
  · rw [hhead, Option.mem_some_iff] at hc
    exact hc ▸ rfl

theorem tokenAt_second_sun : TokenAt "the sun and sun".toList "sun".toList 12 := by
  have hlast : "the sun and ".toList.getLast? = some ' ' := by simp
  refine ⟨"the sun and ".toList, "sun".toList, [], by simp, fun c hc => ?_, isWord_sun, nofun,
    by decide +kernel, by decide +kernel⟩
  rw [hlast, Option.mem_some_iff] at hc
  exact hc ▸ rfl

/-- The second sun of the text stands in no phrase, and it is lost with the first one. -/
theorem parse_token_suns :
    (parse "the sun and sun" suns).mentions = [⟨"the sun", ["n2"]⟩] ∧
      ∃ first, FirstAt "the sun and sun".toList "sun".toList first ∧ first < 12 ∧
        Subsumed "the sun and sun".toList (targets suns) first ∧
        ∀ m ∈ (parse "the sun and sun" suns).mentions, m.text ≠ "sun" := by
  have hmentions : (parse "the sun and sun" suns).mentions = [⟨"the sun", ["n2"]⟩] := by
    decide +kernel
  have hentity : suns.entities.head? = some ⟨"n1", "sun", "concept", .empty⟩ := by rfl
  have hfind : find "the sun".toList 0 (lower "the sun and sun".toList) =
    some (0, " and sun".toList) := by decide +kernel
  have houtside : ∀ m ∈ (parse "the sun and sun" suns).mentions, ∀ start,
      PhraseAt "the sun and sun".toList (targets suns) m.text.toList start →
        ¬(start ≤ 12 ∧ 12 < start + byteLength m.text.toList) := by
    intro m hm start hphrase hcovers
    rw [hmentions, List.mem_singleton] at hm
    subst hm
    obtain ⟨rest, hrest⟩ := hphrase.found
    obtain ⟨rfl, -⟩ := Prod.mk.inj (Option.some.inj (hfind.symm.trans hrest))
    exact absurd hcovers (by decide +kernel)
  obtain ⟨first, hfirst, hfree, htaken⟩ := parse_token (by decide +kernel) tokenAt_second_sun
    (List.mem_of_head? hentity) (Or.inr (by decide +kernel)) houtside
  have hsubsumed : Subsumed "the sun and sun".toList (targets suns) first := by
    by_contra hnot
    obtain ⟨m, hm, htext, -⟩ := hfree hnot
    rw [hmentions, List.mem_singleton] at hm
    subst hm
    exact absurd htext (by decide +kernel)
  have hearlier := hfirst.2 4 tokenAt_first_sun
  exact ⟨hmentions, first, hfirst, by omega, hsubsumed, (htaken hsubsumed).1⟩

end GraphReasoner.Query
