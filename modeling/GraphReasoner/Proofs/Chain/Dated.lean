import GraphReasoner.Chain.Dated
import GraphReasoner.Proofs.Chain.Layer
import GraphReasoner.Proofs.Exact
import GraphReasoner.Proofs.Graph.History

/-!
# What chains in time yield

The relation that a chain yields starts with the earliest start of the chain and ends with the
latest end that is known. The end is not before the start: the step that ends last has a start of
its own, which is not after its end and not before the earliest start. The order of the steps plays
no part in this.
-/

namespace GraphReasoner

open GraphReasoner.Time (Instant)

/-! ### The order of instants -/

namespace Time.Instant

variable {a b c : Instant}

theorem le_self (a : Instant) : a ≤ a :=
  Or.inr ⟨rfl, Nat.le_refl _⟩

theorem le_trans (h : a ≤ b) (h' : b ≤ c) : a ≤ c := by
  change _ ∨ _ at h h' ⊢
  omega

theorem le_antisymm (h : a ≤ b) (h' : b ≤ a) : a = b := by
  obtain ⟨seconds, nanos⟩ := a
  obtain ⟨seconds', nanos'⟩ := b
  change seconds < seconds' ∨ seconds = seconds' ∧ nanos ≤ nanos' at h
  change seconds' < seconds ∨ seconds' = seconds ∧ nanos' ≤ nanos at h'
  rw [mk.injEq]
  omega

theorem not_lt_iff : ¬a < b ↔ b ≤ a := by
  change ¬(_ ∨ _) ↔ _ ∨ _
  omega

theorem earlier_le (a b : Instant) : earlier a b ≤ a ∧ earlier a b ≤ b := by
  unfold earlier
  split
  · rename_i h
    refine ⟨?_, le_self b⟩
    change _ ∨ _ at h ⊢
    omega
  · rename_i h
    exact ⟨le_self a, not_lt_iff.1 h⟩

theorem le_later (a b : Instant) : a ≤ later a b ∧ b ≤ later a b := by
  unfold later
  split
  · rename_i h
    refine ⟨?_, le_self b⟩
    change _ ∨ _ at h ⊢
    omega
  · rename_i h
    exact ⟨le_self a, not_lt_iff.1 h⟩

end Time.Instant

namespace Dated

/-- An operation that bounds its two arguments, folded over a list, bounds all of it. -/
theorem foldl_bounds {α : Type} {R : α → α → Prop} {op : α → α → α} (hself : ∀ a, R a a)
    (htrans : ∀ {a b c}, R a b → R b c → R a c) (hop : ∀ a b, R (op a b) a ∧ R (op a b) b)
    (items : List α) (first : α) : ∀ a ∈ first :: items, R (items.foldl op first) a := by
  induction items generalizing first with
  | nil => exact List.forall_mem_singleton.2 (hself first)
  | cons second items ih =>
    -- the first two give way to what bounds them both
    obtain ⟨hboth, hrest⟩ := List.forall_mem_cons.1 (ih (op first second))
    obtain ⟨hfirst, hsecond⟩ := hop first second
    exact List.forall_mem_cons.2 ⟨htrans hboth hfirst,
      List.forall_mem_cons.2 ⟨htrans hboth hsecond, hrest⟩⟩

/-- An operation that gives one of its two arguments, folded over a list, gives a member of it. -/
theorem foldl_mem {α : Type} {op : α → α → α} (hop : ∀ a b, op a b = a ∨ op a b = b)
    (items : List α) (first : α) : items.foldl op first ∈ first :: items := by
  induction items generalizing first with
  | nil => exact List.mem_singleton_self first
  | cons second items ih =>
    rcases List.mem_cons.1 (ih (op first second)) with heq | hrest
    · rw [List.foldl_cons, heq]
      rcases hop first second with hfirst | hsecond
      · rw [hfirst]
        exact List.mem_cons_self
      · rw [hsecond]
        exact List.mem_cons_of_mem _ List.mem_cons_self
    · exact List.mem_cons_of_mem _ (List.mem_cons_of_mem _ hrest)

/-- The earliest of some instants is one of them. -/
theorem mem_of_earliest? {ts : List Instant} {start : Instant} (h : earliest? ts = some start) :
    start ∈ ts := by
  cases ts with
  | nil => cases h
  | cons first ts =>
    obtain rfl := Option.some.inj h
    exact foldl_mem (fun a b => (ite_eq_or_eq _ _ _).symm) ts first

/-- The latest of some instants is one of them. -/
theorem mem_of_latest? {ts : List Instant} {stop : Instant} (h : latest? ts = some stop) :
    stop ∈ ts := by
  cases ts with
  | nil => cases h
  | cons first ts =>
    obtain rfl := Option.some.inj h
    exact foldl_mem (fun a b => (ite_eq_or_eq _ _ _).symm) ts first

/-- **The earliest of some instants** is not after any of them. -/
theorem le_of_earliest? {ts : List Instant} {start : Instant} (h : earliest? ts = some start) :
    ∀ t ∈ ts, start ≤ t := by
  cases ts with
  | nil => exact nofun
  | cons first ts =>
    obtain rfl := Option.some.inj h
    exact foldl_bounds Instant.le_self Instant.le_trans Instant.earlier_le ts first

/-- **The latest of some instants** is not before any of them. -/
theorem le_of_latest? {ts : List Instant} {stop : Instant} (h : latest? ts = some stop) :
    ∀ t ∈ ts, t ≤ stop := by
  cases ts with
  | nil => exact nofun
  | cons first ts =>
    obtain rfl := Option.some.inj h
    exact foldl_bounds (R := fun a b => b ≤ a) Instant.le_self
      (fun h h' => Instant.le_trans h' h) Instant.le_later ts first

variable {S : Type} [Scalar S]

/-! ### Dated relations that are made -/

/-- **The dated relations that can be made**, from a relation and bounds or from a relation that has
bounds. -/
inductive Made : Dated S → Prop
  | make {r : Relation S} {bounds : Bounds S} {d : Dated S} (made : Dated.make r bounds = .ok d) :
    Made d
  | ofRelation {r : Relation S} {d : Dated S} (made : Dated.ofRelation? r = some (.ok d)) : Made d

/-- **A dated relation that is made is valid**, and its bounds are those of its relation. -/
theorem Made.valid {d : Dated S} (h : d.Made) :
    d.relation.validate = .ok () ∧ d.relation.temporal = some d.bounds := by
  have hmake : ∀ {r : Relation S} {bounds : Bounds S}, Dated.make r bounds = .ok d →
      d.relation.validate = .ok () ∧ d.relation.temporal = some d.bounds := by
    intro r bounds made
    obtain ⟨⟨⟩, hvalid, hmade⟩ := bind_eq_ok_iff.1 made
    obtain rfl := Except.ok.inj hmade
    exact ⟨hvalid, rfl⟩
  cases h with
  | make made => exact hmake made
  | @ofRelation r _ made =>
    obtain ⟨bounds, -, hbounds⟩ := Option.map_eq_some_iff.1 made
    exact hmake hbounds

theorem Made.inUnit {d : Dated S} (h : d.Made) : Scalar.InUnit d.relation.confidence :=
  ((Relation.validate_eq_ok_iff _).1 h.valid.1).2.2.2.1

/-- **A dated relation that is made does not end before it starts.** -/
theorem Made.start_le {d : Dated S} (h : d.Made) {stop : Instant}
    (hstop : d.bounds.stop = some stop) : d.bounds.start ≤ stop := by
  obtain ⟨hvalid, hbounds⟩ := h.valid
  obtain ⟨-, -, -, -, hreversed⟩ := (Relation.validate_eq_ok_iff _).1 hvalid
  exact Instant.not_lt_iff.1 fun hback => hreversed _ hbounds ⟨stop, hstop, hback⟩

/-! ### Chains -/

variable {source target : Entity S} {kind : String} {chain : List (Dated S)}

/-- **The relation that a chain of valid relations yields is valid**, whatever the order of the
chain, when the mean of the confidences lies in the unit interval. -/
theorem valid_of_inUnit (hsource : source.validate = .ok ()) (htarget : target.validate = .ok ())
    (hkind : ¬Text.AllBlank kind) (hchain : ∀ d ∈ chain, d.Made)
    (hmean : Scalar.InUnit (geometricMean (chain.map fun d => d.relation.confidence)))
    {d : Dated S} (h : conclude source target kind chain = some d) :
    d.relation.validate = .ok () := by
  obtain ⟨start, hstart, hd⟩ := Option.bind_eq_some_iff.1 h
  obtain rfl := Option.some.inj hd
  refine (Relation.validate_eq_ok_iff _).2 ⟨hsource, htarget, hkind, hmean, ?_⟩
  intro bounds hbounds
  obtain rfl := Option.some.inj hbounds
  rintro ⟨stop, hstop, hlt⟩
  -- a step that has an end: its own start lies between the two instants
  obtain ⟨stop', hstop'⟩ : ∃ stop', stop' ∈ chain.filterMap fun d => d.bounds.stop := by
    refine List.exists_mem_of_ne_nil _ fun hnil => ?_
    dsimp only at hstop
    rw [hnil] at hstop
    cases hstop
  obtain ⟨step, hstep, hend⟩ := List.mem_filterMap.1 hstop'
  have hfrom : start ≤ step.bounds.start := le_of_earliest? hstart _ (List.mem_map_of_mem hstep)
  have hown : step.bounds.start ≤ stop' := (hchain step hstep).start_le hend
  have hto : stop' ≤ stop := le_of_latest? hstop _ hstop'
  exact Instant.not_lt_iff.2 (Instant.le_trans hfrom (Instant.le_trans hown hto)) hlt

theorem valid_of_conclude [ExactScalar S] (hroot : ExactScalar.RootsInUnit S)
    (hsource : source.validate = .ok ()) (htarget : target.validate = .ok ())
    (hkind : ¬Text.AllBlank kind) (hchain : ∀ d ∈ chain, d.Made) {d : Dated S}
    (h : conclude source target kind chain = some d) : d.relation.validate = .ok () := by
  refine valid_of_inUnit hsource htarget hkind hchain ?_ h
  refine ExactScalar.inUnit_geometricMean hroot fun x hx => ?_
  obtain ⟨step, hstep, rfl⟩ := List.mem_map.1 hx
  exact (hchain step hstep).inUnit

/-- **Chains in time yield valid relations.** -/
theorem valid_infer [ExactScalar S] (hroot : ExactScalar.RootsInUnit S)
    (hsource : source.validate = .ok ()) (htarget : target.validate = .ok ())
    (hkind : ¬Text.AllBlank kind) {layer : Layer (Dated S)} (hlayer : layer.FilledWith Made)
    (settings : ChainSettings S) :
    ∀ d ∈ infer layer settings source target kind, d.relation.validate = .ok () := by
  intro d hd
  obtain ⟨chain, hchain, hconclude⟩ := List.mem_filterMap.1 hd
  have hmade := Layer.of_mem_paths hlayer.of_mem_links (List.mem_filter.1 hchain).1
  exact valid_of_conclude hroot hsource htarget hkind hmade hconclude

end Dated

end GraphReasoner
