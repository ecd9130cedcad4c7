import GraphReasoner.Proofs.Query.Occurrence

/-!
# What the three passes find

The mentions of a question are found in three passes over a state that all of them change: a text
that is taken is not taken again, and the second pass also takes mentions away. What is left in the
end depends on the question and on the entities only in three ways, and
`GraphReasoner.Query.Mentioned` says which.

The first and the third pass do the same with different tokens: a token that is admitted is taken
where it first stands (`GraphReasoner.Query.mem_foldl_claimFirst`). The second pass comes down to
the list of the phrases that it finds (`GraphReasoner.Query.phrases`), of which each takes the
mentions away that start inside it, other phrases among them
(`GraphReasoner.Query.mem_foldl_subsume`).

* `GraphReasoner.Query.mem_mentionsOf_iff` – the mentions of a question are those of the three
  kinds.
-/

namespace GraphReasoner.Query

open GraphReasoner.Text

/-! ### Taking a token where it first stands -/

/-- One token: it is taken when it is admitted and not taken yet. -/
def claimFirst (admits : List Char × Nat → Bool) (candidates : List Char → List String) (f : Found)
    (occurrence : List Char × Nat) : Found :=
  if f.claimed.contains occurrence.1 || !admits occurrence then f
  else f.claim occurrence.1 occurrence.2 (candidates occurrence.1)

section ClaimFirst

variable {admits : List Char × Nat → Bool} {candidates : List Char → List String}
  {os : List (List Char × Nat)} {f : Found}

/-- The first place at which a token is admitted. -/
def firstAdmitted (admits : List Char × Nat → Bool) (os : List (List Char × Nat))
    (token : List Char) : Option (List Char × Nat) :=
  os.find? fun o => o.1 == token && admits o

theorem firstAdmitted_eq_some {token : List Char} {o : List Char × Nat}
    (h : firstAdmitted admits os token = some o) : o.1 = token ∧ o ∈ os ∧ admits o = true := by
  unfold firstAdmitted at h
  have hfound := List.find?_some h
  rw [Bool.and_eq_true, beq_iff_eq] at hfound
  exact ⟨hfound.1, List.mem_of_find?_eq_some h, hfound.2⟩

/-- Of the places one more does not count when it is another token's or not admitted. -/
theorem firstAdmitted_cons_of_ne {o : List Char × Nat} {token : List Char}
    (h : o.1 = token → admits o = false) :
    firstAdmitted admits (o :: os) token = firstAdmitted admits os token := by
  refine List.find?_cons_of_neg ?_
  rw [Bool.and_eq_true, beq_iff_eq]
  rintro ⟨htoken, hadmits⟩
  rw [h htoken] at hadmits
  cases hadmits

theorem firstAdmitted_cons_self {o : List Char × Nat} (h : admits o = true) :
    firstAdmitted admits (o :: os) o.1 = some o :=
  List.find?_cons_of_pos (by simp [h])

/-- When it is the token that is admitted, the first place is the first place of all. -/
theorem firstAdmitted_of_token {a : List Char → Bool} {token : List Char} (h : a token = true) :
    firstAdmitted (fun o => a o.1) os token = firstAdmitted (fun _ => true) os token := by
  refine congrArg (List.find? · os) (funext fun o => ?_)
  by_cases htoken : o.1 = token <;> simp [htoken, h]

theorem claimFirst_cases (admits : List Char × Nat → Bool) (candidates : List Char → List String)
    (f : Found) (o : List Char × Nat) :
    claimFirst admits candidates f o = f ∧ (o.1 ∈ f.claimed ∨ admits o = false) ∨
      claimFirst admits candidates f o = f.claim o.1 o.2 (candidates o.1) ∧
        o.1 ∉ f.claimed ∧ admits o = true := by
  unfold claimFirst
  by_cases hclaimed : o.1 ∈ f.claimed <;> cases hadmits : admits o <;> simp [hclaimed]

theorem mem_claimed_foldl_claimFirst {token : List Char} :
    token ∈ (os.foldl (claimFirst admits candidates) f).claimed ↔
      token ∈ f.claimed ∨ ∃ position, (token, position) ∈ os ∧ admits (token, position) = true := by
  induction os generalizing f with
  | nil => simp
  | cons o os ih =>
    rw [List.foldl_cons, ih]
    rcases claimFirst_cases admits candidates f o with
      ⟨hf, hnot⟩ | ⟨hf, -, hadmits⟩ <;> rw [hf]
    · refine or_congr_right' fun hfree => exists_congr fun position => ?_
      have hne : (token, position) = o → admits (token, position) = false := by
        rintro rfl
        exact hnot.resolve_left hfree
      rw [List.mem_cons]
      constructor
      · exact fun h => ⟨Or.inr h.1, h.2⟩
      · rintro ⟨rfl | h, hp⟩
        · rw [hne rfl] at hp
          cases hp
        · exact ⟨h, hp⟩
    · rw [Found.claim, List.mem_cons]
      constructor
      · rintro ((rfl | h) | ⟨position, h, hp⟩)
        · exact Or.inr ⟨o.2, List.mem_cons_self, hadmits⟩
        · exact Or.inl h
        · exact Or.inr ⟨position, List.mem_cons_of_mem _ h, hp⟩
      · rintro (h | ⟨position, h, hp⟩)
        · exact Or.inl (Or.inr h)
        · rcases List.mem_cons.1 h with rfl | h
          · exact Or.inl (Or.inl rfl)
          · exact Or.inr ⟨position, h, hp⟩

/-- **What is found by taking tokens where they first stand.** -/
theorem mem_foldl_claimFirst {x : Nat × Mention} :
    x ∈ (os.foldl (claimFirst admits candidates) f).mentions ↔
      x ∈ f.mentions ∨ ∃ token position, token ∉ f.claimed ∧
        firstAdmitted admits os token = some (token, position) ∧
        x = (position, ⟨String.ofList token, candidates token⟩) := by
  induction os generalizing f with
  | nil => simp [firstAdmitted]
  | cons o os ih =>
    rw [List.foldl_cons, ih]
    rcases claimFirst_cases admits candidates f o with
      ⟨hf, hnot⟩ | ⟨hf, hfree, hadmits⟩ <;> rw [hf]
    · refine or_congr_right (exists_congr fun token => exists_congr fun position => ?_)
      refine and_congr_right fun htoken => ?_
      rw [firstAdmitted_cons_of_ne]
      rintro rfl
      exact hnot.resolve_left htoken
    · rw [Found.claim, List.mem_append, List.mem_singleton, or_assoc]
      refine or_congr_right ?_
      constructor
      · rintro (rfl | ⟨token, position, htoken, hfirst, rfl⟩)
        · exact ⟨o.1, o.2, hfree, firstAdmitted_cons_self hadmits, rfl⟩
        · rw [List.mem_cons, not_or] at htoken
          refine ⟨token, position, htoken.2, ?_, rfl⟩
          rw [firstAdmitted_cons_of_ne fun h => absurd h.symm htoken.1]
          exact hfirst
      · rintro ⟨token, position, htoken, hfirst, rfl⟩
        by_cases hsame : o.1 = token
        · subst hsame
          rw [firstAdmitted_cons_self hadmits] at hfirst
          have hposition : o.2 = position := congrArg Prod.snd (Option.some.inj hfirst)
          exact Or.inl (by rw [hposition])
        · rw [firstAdmitted_cons_of_ne fun h => absurd h hsame] at hfirst
          refine Or.inr ⟨token, position, ?_, hfirst, rfl⟩
          rw [List.mem_cons, not_or]
          exact ⟨Ne.symm hsame, htoken⟩

end ClaimFirst

/-! ### Phrases -/

/-- A name that the second pass has found. -/
@[ext] structure Phrase where
  name : List Char
  /-- The entity it stands for: the first one of those that bear it. -/
  bearer : String
  /-- Where it stands. -/
  start : Nat

namespace Phrase

/-- A position lies inside a phrase. -/
def Covers (k : Phrase) (position : Nat) : Prop :=
  k.start ≤ position ∧ position < k.start + byteLength k.name

instance (k : Phrase) (position : Nat) : Decidable (k.Covers position) :=
  inferInstanceAs (Decidable (_ ∧ _))

/-- What the question is said to mention there. -/
def mention (k : Phrase) : Mention :=
  ⟨String.ofList k.name, [k.bearer]⟩

end Phrase

/-- The first entity of a name. -/
def firstBearer (targets : List Target) (name : List Char) : Option Target :=
  targets.find? fun t => t.lowerName == name

theorem firstBearer_cons_self (t : Target) (ts : List Target) :
    firstBearer (t :: ts) t.lowerName = some t :=
  List.find?_cons_of_pos (beq_self_eq_true _)

theorem firstBearer_cons_of_ne {t : Target} {name : List Char} (h : t.lowerName ≠ name)
    (ts : List Target) : firstBearer (t :: ts) name = firstBearer ts name :=
  List.find?_cons_of_neg (by simpa using h)

theorem firstBearer_eq_some {targets : List Target} {name : List Char} {t : Target}
    (h : firstBearer targets name = some t) : t ∈ targets ∧ t.lowerName = name :=
  ⟨List.mem_of_find?_eq_some h, by simpa using List.find?_some h⟩

/-- The phrase that the second pass finds for an entity, when some texts are taken. -/
def phraseOf? (lowered : List Char) (claimed : List (List Char)) (t : Target) : Option Phrase :=
  if !Found.isPhrase t.lowerName || claimed.contains t.lowerName then none
  else (find t.lowerName 0 lowered).map fun found => ⟨t.lowerName, t.id, found.1⟩

/-- The phrases that the second pass finds, in the order of the entities. -/
def phrases (lowered : List Char) (claimed : List (List Char)) : List Target → List Phrase
  | [] => []
  | t :: ts =>
    match phraseOf? lowered claimed t with
    | none => phrases lowered claimed ts
    | some k => k :: phrases lowered (k.name :: claimed) ts

/-- A phrase takes away what starts inside it. -/
def subsume (mentions : List (Nat × Mention)) (k : Phrase) : List (Nat × Mention) :=
  mentions.filter (fun x => ¬k.Covers x.1) ++ [(k.start, k.mention)]

section Phrases

variable {lowered : List Char} {claimed : List (List Char)} {targets : List Target} {f : Found}

theorem phraseOf?_eq_some {t : Target} {k : Phrase} : phraseOf? lowered claimed t = some k ↔
    Found.isPhrase k.name = true ∧ k.name ∉ claimed ∧
      (∃ rest, find k.name 0 lowered = some (k.start, rest)) ∧
      k.name = t.lowerName ∧ k.bearer = t.id := by
  unfold phraseOf?
  constructor
  · intro h
    split at h
    · cases h
    rename_i hcond
    rw [Bool.or_eq_true, not_or, Bool.not_eq_true', Bool.not_eq_false, List.contains_iff_mem]
      at hcond
    obtain ⟨⟨start, rest⟩, hfound, rfl⟩ := Option.map_eq_some_iff.1 h
    exact ⟨hcond.1, hcond.2, ⟨rest, hfound⟩, rfl, rfl⟩
  · obtain ⟨name, bearer, start⟩ := k
    rintro ⟨hphrase, hfree, ⟨rest, hfound⟩, rfl, rfl⟩
    simp only at hphrase hfree hfound
    simp [hphrase, hfree, hfound]

/-- The second pass at one entity. -/
theorem addPhrase_eq (t : Target) : Found.addPhrase lowered f t =
    match phraseOf? lowered f.claimed t with
    | none => f
    | some k => ⟨subsume f.mentions k, k.name :: f.claimed⟩ := by
  unfold Found.addPhrase phraseOf?
  by_cases hcond : (!Found.isPhrase t.lowerName || f.claimed.contains t.lowerName) = true
  · simp only [hcond, if_true]
  · simp only [hcond]
    rcases find t.lowerName 0 lowered with _ | ⟨start, rest⟩
    · rfl
    · have houtside : f.mentions.filter
          (fun x => x.1 < start || start + byteLength t.lowerName ≤ x.1) =
            f.mentions.filter fun x => ¬(Phrase.mk t.lowerName t.id start).Covers x.1 := by
        refine List.filter_congr fun x _ => ?_
        rw [Bool.eq_iff_iff]
        simp only [Bool.or_eq_true, decide_eq_true_eq]
        simp only [Phrase.Covers]
        omega
      exact congrArg (Found.claim ⟨·, f.claimed⟩ t.lowerName start [t.id]) houtside

/-- **The second pass is its phrases**, one after another. -/
theorem foldl_addPhrase :
    (targets.foldl (Found.addPhrase lowered) f).mentions =
        (phrases lowered f.claimed targets).foldl subsume f.mentions ∧
      ∀ name, name ∈ (targets.foldl (Found.addPhrase lowered) f).claimed ↔
        name ∈ f.claimed ∨ ∃ k ∈ phrases lowered f.claimed targets, k.name = name := by
  induction targets generalizing f with
  | nil => simp [phrases]
  | cons t ts ih =>
    rw [List.foldl_cons, addPhrase_eq, phrases]
    rcases phraseOf? lowered f.claimed t with _ | k
    · exact ih
    · obtain ⟨hmentions, hclaimed⟩ := ih (f := ⟨subsume f.mentions k, k.name :: f.claimed⟩)
      refine ⟨hmentions, fun name => (hclaimed name).trans ?_⟩
      simp only [List.mem_cons, exists_eq_or_imp]
      rw [or_comm (a := name = k.name), or_assoc, eq_comm (a := name)]

/-- **What is left after some phrases**: what was there and starts in none of them, and each of them
that starts in no later one. -/
theorem mem_foldl_subsume {ks : List Phrase} {mentions : List (Nat × Mention)} {x : Nat × Mention} :
    x ∈ ks.foldl subsume mentions ↔
      (x ∈ mentions ∧ ∀ k ∈ ks, ¬k.Covers x.1) ∨
        ∃ before k after, ks = before ++ k :: after ∧ x = (k.start, k.mention) ∧
          ∀ later ∈ after, ¬later.Covers k.start := by
  induction ks generalizing mentions with
  | nil => simp
  | cons k ks ih =>
    rw [List.foldl_cons, ih, subsume, List.mem_append, List.mem_filter, List.mem_singleton,
      decide_eq_true_eq]
    constructor
    · rintro (⟨⟨hx, hfirst⟩ | rfl, hrest⟩ | ⟨before, k', after, rfl, hx, hafter⟩)
      · exact Or.inl ⟨hx, List.forall_mem_cons.2 ⟨hfirst, hrest⟩⟩
      · exact Or.inr ⟨[], k, ks, rfl, rfl, hrest⟩
      · exact Or.inr ⟨k :: before, k', after, rfl, hx, hafter⟩
    · rintro (⟨hx, hall⟩ | ⟨before, k', after, heq, rfl, hafter⟩)
      · obtain ⟨hfirst, hrest⟩ := List.forall_mem_cons.1 hall
        exact Or.inl ⟨Or.inl ⟨hx, hfirst⟩, hrest⟩
      · rcases before with _ | ⟨first, before⟩
        · obtain ⟨rfl, rfl⟩ := List.cons.inj heq
          exact Or.inl ⟨Or.inr rfl, hafter⟩
        · obtain ⟨rfl, rfl⟩ := List.cons.inj heq
          exact Or.inr ⟨before, k', after, rfl, rfl, hafter⟩

/-- **The phrases that are found**: the names of entities that are phrases, are not taken and occur
in the text, each with the first entity of this name. -/
theorem mem_phrases_iff {k : Phrase} : k ∈ phrases lowered claimed targets ↔
    Found.isPhrase k.name = true ∧ k.name ∉ claimed ∧
      (∃ rest, find k.name 0 lowered = some (k.start, rest)) ∧
      ∃ t, firstBearer targets k.name = some t ∧ k.bearer = t.id := by
  induction targets generalizing claimed with
  | nil => simp [phrases, firstBearer]
  | cons t ts ih =>
    rw [phrases]
    rcases hfirst : phraseOf? lowered claimed t with _ | first
    · refine ih.trans (and_congr_right fun hphrase => and_congr_right fun hfree =>
        and_congr_right fun hfound => ?_)
      -- another name, as this entity is passed over
      have hne : t.lowerName ≠ k.name := fun hname => by
        have htaken := (phraseOf?_eq_some (k := ⟨k.name, t.id, k.start⟩)).2
          ⟨hphrase, hfree, hfound, hname.symm, rfl⟩
        exact Option.some_ne_none _ (htaken.symm.trans hfirst)
      rw [firstBearer_cons_of_ne hne]
    · obtain ⟨hphrase, hfree, ⟨rest, hfound⟩, hname, hbearer⟩ := phraseOf?_eq_some.1 hfirst
      simp only [List.mem_cons, ih, not_or]
      by_cases hsame : k.name = first.name
      · -- the entity bears the name, and the later ones come too late
        rw [hsame, hname, firstBearer_cons_self, ← hname]
        constructor
        · rintro (rfl | ⟨-, ⟨hne, -⟩, -⟩)
          · exact ⟨hphrase, hfree, ⟨rest, hfound⟩, t, rfl, hbearer⟩
          · exact absurd rfl hne
        · rintro ⟨-, -, ⟨rest', hfound'⟩, t', ht', hbearer'⟩
          rw [hfound] at hfound'
          obtain ⟨hstart, -⟩ := Prod.mk.inj (Option.some.inj hfound')
          obtain rfl := Option.some.inj ht'
          obtain ⟨name, bearer, start⟩ := k
          obtain ⟨name', bearer', start'⟩ := first
          simp_all
      · have hne : t.lowerName ≠ k.name := fun h => hsame (h.symm.trans hname.symm)
        rw [firstBearer_cons_of_ne hne]
        constructor
        · rintro (rfl | ⟨hphrase', ⟨-, hfree'⟩, hrest⟩)
          · exact absurd rfl hsame
          · exact ⟨hphrase', hfree', hrest⟩
        · rintro ⟨hphrase', hfree', hrest⟩
          exact Or.inr ⟨hphrase', ⟨hsame, hfree'⟩, hrest⟩

/-- No name is found twice. -/
theorem pairwise_phrases (lowered : List Char) (claimed : List (List Char))
    (targets : List Target) :
    (phrases lowered claimed targets).Pairwise fun k k' => k.name ≠ k'.name := by
  induction targets generalizing claimed with
  | nil => exact List.Pairwise.nil
  | cons t ts ih =>
    rw [phrases]
    rcases phraseOf? lowered claimed t with _ | k
    · exact ih claimed
    · refine List.pairwise_cons.2 ⟨fun k' hk' heq => ?_, ih _⟩
      exact (mem_phrases_iff.1 hk').2.1 (heq ▸ List.mem_cons_self)

end Phrases

/-! ### The three passes over a question -/

/-- The entities whose identifier or name is a token. -/
def matching (targets : List Target) (token : List Char) : List String :=
  (targets.filter fun t => t.lowerId == token || t.lowerName == token).map Target.id

/-- The entities whose identifier or name contains a token. -/
def containing (targets : List Target) (token : List Char) : List String :=
  (targets.filter fun t => occursIn token t.lowerId || occursIn token t.lowerName).map Target.id

/-- Whether a token is looked for inside names. -/
def isMeaningful (token : List Char) : Bool :=
  isAscii token && !isKeyword token && leastInnerLength ≤ token.length

section Passes

variable {text : List Char} {targets : List Target}

theorem mem_matching {token : List Char} {id : String} : id ∈ matching targets token ↔
    ∃ t ∈ targets, (t.lowerId = token ∨ t.lowerName = token) ∧ t.id = id := by
  simp only [matching, List.mem_map, List.mem_filter, Bool.or_eq_true, beq_iff_eq, and_assoc]

/-- The first pass takes what equals an identifier or a name. -/
theorem addExact_eq : Found.addExact targets =
    claimFirst (fun o => !(matching targets o.1).isEmpty) (matching targets) := by
  funext f o
  rw [Found.addExact, claimFirst, Bool.not_not, Bool.or_comm]
  rfl

/-- The third pass takes what means something and is not covered. -/
theorem addInner_eq (covered : List (Nat × Mention)) : Found.addInner targets covered =
    claimFirst (fun o => isMeaningful o.1 && !Found.covers covered o.2) (containing targets) := by
  funext f o
  have hcond : (f.claimed.contains o.1 || !isAscii o.1 || isKeyword o.1 ||
      decide (o.1.length < leastInnerLength) || Found.covers covered o.2) =
        (f.claimed.contains o.1 || !(isMeaningful o.1 && !Found.covers covered o.2)) := by
    simp [isMeaningful, Bool.or_assoc, ← decide_not]
  rw [claimFirst, ← hcond]
  rfl

/-- What the first pass finds. -/
def exactFound (text : List Char) (targets : List Target) : Found :=
  (occurrences text).foldl (Found.addExact targets) .empty

/-- The phrases that the second pass finds after the first. -/
def foundPhrases (text : List Char) (targets : List Target) : List Phrase :=
  phrases (lower text) (exactFound text targets).claimed targets

/-- What the first two passes find. -/
def phraseFound (text : List Char) (targets : List Target) : Found :=
  targets.foldl (Found.addPhrase (lower text)) (exactFound text targets)

theorem mem_tokens_iff {token : List Char} :
    token ∈ tokens text ↔ ∃ position, (token, position) ∈ occurrences text := by
  rw [← map_fst_occurrences, List.mem_map]
  constructor
  · rintro ⟨o, h, rfl⟩
    exact ⟨o.2, h⟩
  · rintro ⟨position, h⟩
    exact ⟨_, h, rfl⟩

theorem mem_claimed_exactFound {token : List Char} :
    token ∈ (exactFound text targets).claimed ↔
      token ∈ tokens text ∧ matching targets token ≠ [] := by
  rw [exactFound, addExact_eq, mem_claimed_foldl_claimFirst, mem_tokens_iff]
  simp [Found.empty]

/-- What the first pass finds stands where its token first stands. -/
theorem mem_exactFound {x : Nat × Mention} : x ∈ (exactFound text targets).mentions ↔
    ∃ token position, matching targets token ≠ [] ∧
      firstAdmitted (fun _ => true) (occurrences text) token = some (token, position) ∧
      x = (position, ⟨String.ofList token, matching targets token⟩) := by
  rw [exactFound, addExact_eq, mem_foldl_claimFirst]
  constructor
  · rintro (h | ⟨token, position, -, hfirst, rfl⟩)
    · cases h
    · have hadmits : (!(matching targets token).isEmpty) = true :=
        (firstAdmitted_eq_some hfirst).2.2
      rw [firstAdmitted_of_token (a := fun token => !(matching targets token).isEmpty) hadmits]
        at hfirst
      exact ⟨token, position, by simpa using hadmits, hfirst, rfl⟩
  · rintro ⟨token, position, hmatching, hfirst, rfl⟩
    refine Or.inr ⟨token, position, nofun, ?_, rfl⟩
    rw [firstAdmitted_of_token (a := fun token => !(matching targets token).isEmpty)
      (by simpa using hmatching)]
    exact hfirst

/-- **A name is found as a phrase** at a position: an entity bears it, it is a phrase and not a
token of the text, and it first occurs there. -/
structure PhraseAt (text : List Char) (targets : List Target) (name : List Char) (start : Nat) :
    Prop where
  borne : ∃ t ∈ targets, t.lowerName = name
  isPhrase : Found.isPhrase name = true
  notMem_tokens : name ∉ tokens text
  found : ∃ rest, find name 0 (lower text) = some (start, rest)

/-- **The phrases of a question** are the names that are found as phrases, each for the first entity
that bears it. -/
theorem mem_foundPhrases_iff {k : Phrase} : k ∈ foundPhrases text targets ↔
    PhraseAt text targets k.name k.start ∧
      ∃ t, firstBearer targets k.name = some t ∧ k.bearer = t.id := by
  rw [foundPhrases, mem_phrases_iff, mem_claimed_exactFound]
  constructor
  · rintro ⟨hphrase, hfree, hfound, t, ht, hbearer⟩
    obtain ⟨hmem, hname⟩ := firstBearer_eq_some ht
    refine ⟨⟨⟨t, hmem, hname⟩, hphrase, fun htoken => hfree ⟨htoken, ?_⟩, hfound⟩, t, ht, hbearer⟩
    exact List.ne_nil_of_mem (mem_matching.2 ⟨t, hmem, Or.inr hname, rfl⟩)
  · rintro ⟨⟨-, hphrase, hfree, hfound⟩, hbearer⟩
    exact ⟨hphrase, fun h => hfree h.1, hfound, hbearer⟩

theorem PhraseAt.exists_mem {name : List Char} {start : Nat}
    (h : PhraseAt text targets name start) :
    ∃ k ∈ foundPhrases text targets, k.name = name ∧ k.start = start := by
  obtain ⟨t, ht, hname⟩ := h.borne
  obtain ⟨first, hfirst⟩ := Option.isSome_iff_exists.1
    (List.find?_isSome.2 ⟨t, ht, beq_iff_eq.2 hname⟩ :
      (targets.find? fun t => t.lowerName == name).isSome = true)
  exact ⟨⟨name, first.id, start⟩, mem_foundPhrases_iff.2 ⟨h, first, hfirst, rfl⟩, rfl, rfl⟩

/-- **What the first two passes leave**, with its position. -/
inductive Kept (text : List Char) (targets : List Target) : Nat → Mention → Prop
  /-- The identifier or name of an entity, where it first is a token, unless a phrase covers this
  place. -/
  | exact {token : List Char} {position : Nat} : matching targets token ≠ [] →
      firstAdmitted (fun _ => true) (occurrences text) token = some (token, position) →
      (∀ k ∈ foundPhrases text targets, ¬k.Covers position) →
      Kept text targets position ⟨String.ofList token, matching targets token⟩
  /-- A phrase, unless a later phrase covers its beginning. -/
  | phrase {before after : List Phrase} {k : Phrase} :
      foundPhrases text targets = before ++ k :: after →
      (∀ later ∈ after, ¬later.Covers k.start) → Kept text targets k.start k.mention

theorem mem_phraseFound_iff {x : Nat × Mention} :
    x ∈ (phraseFound text targets).mentions ↔ Kept text targets x.1 x.2 := by
  have hmentions : (phraseFound text targets).mentions =
      (foundPhrases text targets).foldl subsume (exactFound text targets).mentions :=
    foldl_addPhrase.1
  rw [hmentions, mem_foldl_subsume, mem_exactFound]
  constructor
  · rintro (⟨⟨token, position, hmatching, hfirst, rfl⟩, hfree⟩ |
      ⟨before, k, after, hks, rfl, hfree⟩)
    · exact .exact hmatching hfirst hfree
    · exact .phrase hks hfree
  · rcases x with ⟨position, m⟩
    rintro (⟨hmatching, hfirst, hfree⟩ | ⟨hks, hfree⟩)
    · exact Or.inl ⟨⟨_, position, hmatching, hfirst, rfl⟩, hfree⟩
    · exact Or.inr ⟨_, _, _, hks, rfl, hfree⟩

theorem covers_phraseFound_iff {position : Nat} :
    Found.covers (phraseFound text targets).mentions position = true ↔
      ∃ start m, Kept text targets start m ∧
        start ≤ position ∧ position < start + byteLength m.text.toList := by
  simp only [Found.covers, List.any_eq_true, mem_phraseFound_iff, Bool.and_eq_true,
    decide_eq_true_eq, Prod.exists]

/-- A token is taken after the first two passes when it is an identifier or a name. -/
theorem mem_claimed_phraseFound {token : List Char} (h : token ∈ tokens text) :
    token ∈ (phraseFound text targets).claimed ↔ matching targets token ≠ [] := by
  have hclaimed : token ∈ (phraseFound text targets).claimed ↔
      token ∈ (exactFound text targets).claimed ∨
        ∃ k ∈ foundPhrases text targets, k.name = token := foldl_addPhrase.2 token
  rw [hclaimed, mem_claimed_exactFound]
  constructor
  · rintro (hexact | ⟨k, hk, rfl⟩)
    · exact hexact.2
    · exact absurd h (mem_foundPhrases_iff.1 hk).1.notMem_tokens
  · exact fun hmatching => Or.inl ⟨h, hmatching⟩

/-- **What a question mentions**: what the first two passes leave, and what the third pass adds. -/
inductive Mentioned (text : List Char) (targets : List Target) : Mention → Prop
  | kept {position : Nat} {m : Mention} : Kept text targets position m → Mentioned text targets m
  /-- A token that is neither identifier nor name but means something, if some place of it is not
  covered. -/
  | inner {token : List Char} {position : Nat} : matching targets token = [] →
      firstAdmitted (fun o => isMeaningful o.1 &&
        !Found.covers (phraseFound text targets).mentions o.2) (occurrences text) token =
          some (token, position) →
      Mentioned text targets ⟨String.ofList token, containing targets token⟩

/-- **The mentions of a question.** -/
theorem mem_mentionsOf_iff {m : Mention} :
    m ∈ mentionsOf text targets ↔ Mentioned text targets m := by
  have hmentions : mentionsOf text targets =
      (((occurrences text).foldl (Found.addInner targets (phraseFound text targets).mentions)
        (phraseFound text targets)).mentions.mergeSort fun a b => a.1 ≤ b.1).map Prod.snd := rfl
  rw [hmentions, List.mem_map]
  simp only [(List.mergeSort_perm _ _).mem_iff, addInner_eq, mem_foldl_claimFirst,
    mem_phraseFound_iff]
  constructor
  · rintro ⟨x, hkept | ⟨token, position, hfree, hfirst, rfl⟩, rfl⟩
    · exact .kept hkept
    · have htoken := mem_tokens_iff.2 ⟨position, (firstAdmitted_eq_some hfirst).2.1⟩
      rw [mem_claimed_phraseFound htoken, not_not] at hfree
      exact .inner hfree hfirst
  · rintro (hkept | ⟨hmatching, hfirst⟩)
    · exact ⟨(_, m), Or.inl hkept, rfl⟩
    · have htoken := mem_tokens_iff.2 ⟨_, (firstAdmitted_eq_some hfirst).2.1⟩
      refine ⟨_, Or.inr ⟨_, _, ?_, hfirst, rfl⟩, rfl⟩
      rw [mem_claimed_phraseFound htoken, not_not]
      exact hmatching

end Passes

end GraphReasoner.Query
