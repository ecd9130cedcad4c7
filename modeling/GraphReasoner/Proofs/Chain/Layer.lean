import GraphReasoner.Chain.Layer
import GraphReasoner.Proofs.Fallible

/-!
# What a layer is filled with

A layer takes any payload for any pair. The payload of a pair is the one put in last
(`GraphReasoner.Layer.payload?_insert`), and its pairs are those that came up, in the order in which
they first did. What is known of its payloads is known of those that were put into it
(`GraphReasoner.Layer.FilledWith`), and hence of those along its paths.
-/

namespace GraphReasoner

namespace Layer

variable {P : Type} {made : P → Prop} {layer : Layer P} {source target : String} {payload : P}

/-! ### Pairs -/

section Pairs

variable (links : List ((String × String) × P)) (pair : String × String)

/-- The payload that was put in is found, and otherwise what was found before. -/
theorem find?_putLink (payload : P) (other : String × String) :
    (putLink links pair payload).find? (fun link => link.1 == other) =
      if pair = other then some (pair, payload) else links.find? fun link => link.1 == other := by
  induction links with
  | nil =>
    rw [putLink, List.find?_singleton]
    simp
  | cons first rest ih =>
    rw [putLink]
    by_cases hfirst : first.1 = pair
    · rw [if_pos (beq_iff_eq.2 hfirst), List.find?_cons, List.find?_cons, hfirst]
      by_cases hother : pair = other
      · rw [if_pos hother, beq_iff_eq.2 hother]
      · rw [if_neg hother, beq_eq_false_iff_ne.2 hother]
    · rw [if_neg fun heq => hfirst (beq_iff_eq.1 heq), List.find?_cons, List.find?_cons, ih]
      by_cases hother : pair = other
      · rw [if_pos hother, if_pos hother, ← hother, beq_eq_false_iff_ne.2 hfirst]
      · rw [if_neg hother, if_neg hother]

/-- A pair that came up already keeps its place, and a new one comes last. -/
theorem map_fst_putLink (payload : P) :
    (putLink links pair payload).map Prod.fst =
      if pair ∈ links.map Prod.fst then links.map Prod.fst
      else links.map Prod.fst ++ [pair] := by
  induction links with
  | nil => rfl
  | cons first rest ih =>
    rw [putLink]
    by_cases hfirst : first.1 = pair
    · rw [if_pos (beq_iff_eq.2 hfirst), List.map_cons, List.map_cons, hfirst,
        if_pos List.mem_cons_self]
    · rw [if_neg fun heq => hfirst (beq_iff_eq.1 heq), List.map_cons, List.map_cons, ih]
      by_cases hin : pair ∈ rest.map Prod.fst
      · rw [if_pos hin, if_pos (List.mem_cons_of_mem _ hin)]
      · rw [if_neg hin, if_neg (List.not_mem_cons_of_ne_of_not_mem (Ne.symm hfirst) hin)]
        rfl

variable {links pair}

/-- The payload of a new pair comes last. -/
theorem putLink_eq_append (h : pair ∉ links.map Prod.fst) :
    putLink links pair payload = links ++ [(pair, payload)] := by
  induction links with
  | nil => rfl
  | cons first rest ih =>
    have hne : first.1 ≠ pair := fun heq => h (heq ▸ List.mem_cons_self)
    rw [putLink, if_neg fun heq => hne (beq_iff_eq.1 heq),
      ih fun hin => h (List.mem_cons_of_mem _ hin), List.cons_append]

/-- The payload of a pair that is there goes to its place, when no pair repeats. -/
theorem putLink_eq_set (h : (links.map Prod.fst).Nodup) {place : Nat} {old : P}
    (hplace : links[place]? = some (pair, old)) :
    putLink links pair payload = links.set place (pair, payload) := by
  induction links generalizing place with
  | nil => cases hplace
  | cons first rest ih =>
    obtain ⟨hfirst, hrest⟩ := List.nodup_cons.1 h
    rw [putLink]
    cases place with
    | zero =>
      obtain rfl := Option.some.inj hplace
      rw [if_pos (beq_self_eq_true pair), List.set_cons_zero]
    | succ place =>
      have hmem : (pair, old) ∈ rest := List.mem_of_getElem? hplace
      have hin : pair ∈ rest.map Prod.fst := List.mem_map_of_mem hmem
      have hne : first.1 ≠ pair := fun heq => hfirst (heq ▸ hin)
      rw [if_neg fun heq => hne (beq_iff_eq.1 heq), List.set_cons_succ, ih hrest hplace]

/-- **The payload of a pair is the one put in last.** -/
theorem payload?_insert (layer : Layer P) (source target s t : String) (payload : P) :
    (layer.insert source target payload).2.payload? s t =
      if (source, target) = (s, t) then some payload else layer.payload? s t := by
  rw [insert, payload?, payload?, find?_putLink]
  split <;> rfl

end Pairs

/-! ### Payloads of some make -/

/-- **A layer is filled with payloads of some make** when it was empty and nothing else was put
into it, under whatever pairs. -/
inductive FilledWith (made : P → Prop) : Layer P → Prop
  | empty : FilledWith made .empty
  | insert {layer : Layer P} {payload : P} (before : FilledWith made layer)
    (source target : String) (h : made payload) :
    FilledWith made (layer.insert source target payload).2

theorem mem_putLink {links : List ((String × String) × P)} {pair : String × String}
    {link : (String × String) × P} (h : link ∈ putLink links pair payload) :
    link = (pair, payload) ∨ link ∈ links := by
  induction links with
  | nil => exact Or.inl (List.mem_singleton.1 h)
  | cons first rest ih =>
    rw [putLink] at h
    split at h
    · exact (List.mem_cons.1 h).imp id (List.mem_cons_of_mem _)
    · rcases List.mem_cons.1 h with rfl | hin
      · exact Or.inr List.mem_cons_self
      · exact (ih hin).imp id (List.mem_cons_of_mem _)

theorem FilledWith.of_mem_links (h : layer.FilledWith made) :
    ∀ link ∈ layer.links, made link.2 := by
  induction h with
  | empty => exact nofun
  | insert _ source target hmade ih =>
    intro link hlink
    rcases mem_putLink hlink with rfl | hold
    · exact hmade
    · exact ih link hold

theorem mem_of_payload? (h : layer.payload? source target = some payload) :
    ((source, target), payload) ∈ layer.links := by
  obtain ⟨⟨pair, found⟩, hfind, rfl⟩ := Option.map_eq_some_iff.1 h
  obtain rfl : pair = (source, target) := by simpa using List.find?_some hfind
  exact List.mem_of_find?_eq_some hfind

section Links

variable (h : ∀ link ∈ layer.links, made link.2)
include h

/-- Payloads that are looked up are among those of the layer. -/
theorem of_forall₂_payload? {steps : List (String × String)} {chain : List P}
    (hsteps : List.Forall₂
      (fun step payload => layer.payload? step.1 step.2 = some payload) steps chain) :
    ∀ payload ∈ chain, made payload := by
  induction hsteps with
  | nil => exact nofun
  | cons hstep _ ih => exact List.forall_mem_cons.2 ⟨h _ (mem_of_payload? hstep), ih⟩

/-- **The payloads along a path are among those of the layer.** -/
theorem of_mem_paths {hops : Nat} {chain : List P}
    (hchain : chain ∈ layer.paths source target hops) : ∀ payload ∈ chain, made payload := by
  unfold paths at hchain
  split at hchain
  · obtain ⟨path, -, hpath⟩ := List.mem_filterMap.1 hchain
    exact of_forall₂_payload? h (mapM_eq_some_iff.1 hpath)
  · cases hchain

end Links

end Layer

end GraphReasoner
