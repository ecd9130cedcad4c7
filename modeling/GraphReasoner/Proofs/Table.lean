import GraphReasoner.Table
import Mathlib.Algebra.GroupWithZero.Nat
import Mathlib.Data.List.Basic
import Mathlib.Data.List.Induction

/-!
# Tables as lists of entries

`GraphReasoner.Table.get?` looks a table up from the front, whatever its order. In a table whose
keys ascend the order carries everything else: an entry *is* what its key looks up
(`GraphReasoner.Table.Ordered.mem_iff`), keys do not repeat
(`GraphReasoner.Table.Ordered.keys_nodup`), and entering the entries of an ordered list one after
another gives the list back (`GraphReasoner.Table.Ordered.ofList_eq`).
-/

namespace GraphReasoner

namespace Table

variable {V : Type} {t : Table V} {key : String} {value : V}

/-! ### Entries and look-ups -/

theorem mem_of_get? (h : t.get? key = some value) : (key, value) ∈ t := by
  induction t with
  | nil => cases h
  | cons entry rest ih =>
    obtain ⟨k, v⟩ := entry
    rw [get?] at h
    split at h
    · rename_i hk
      obtain rfl := Option.some.inj h
      exact hk ▸ List.mem_cons_self
    · exact List.mem_cons_of_mem _ (ih h)

/-- **In an ordered table an entry is what its key looks up.** -/
theorem Ordered.mem_iff (ht : t.Ordered) : (key, value) ∈ t ↔ t.get? key = some value := by
  refine ⟨fun h => ?_, mem_of_get?⟩
  induction t with
  | nil => cases h
  | cons entry rest ih =>
    obtain ⟨k, v⟩ := entry
    obtain ⟨hfirst, hrest⟩ := List.pairwise_cons.1 ht
    rcases List.mem_cons.1 h with he | he
    · obtain ⟨rfl, rfl⟩ := Prod.mk.inj he
      simp only [get?, if_true]
    · have hlt : k < key := hfirst _ he
      have hne : k ≠ key := fun heq => String.lt_irrefl key (heq ▸ hlt)
      rw [get?, if_neg hne]
      exact ih hrest he

theorem Ordered.keys_nodup (ht : t.Ordered) : t.keys.Nodup := by
  refine List.pairwise_map.2 (ht.imp fun {a b} hlt heq => ?_)
  exact String.lt_irrefl b.1 (heq ▸ hlt)

theorem mem_values_iff (ht : t.Ordered) : value ∈ t.values ↔ ∃ k, t.get? k = some value := by
  constructor
  · intro h
    obtain ⟨⟨k, v⟩, hm, rfl⟩ := List.mem_map.1 h
    exact ⟨k, ht.mem_iff.1 hm⟩
  · rintro ⟨k, hk⟩
    exact List.mem_map.2 ⟨(k, value), mem_of_get? hk, rfl⟩

theorem contains_iff : t.contains key = true ↔ ∃ value, t.get? key = some value :=
  Option.isSome_iff_exists

theorem mem_keys_iff : key ∈ t.keys ↔ ∃ value, t.get? key = some value := by
  induction t with
  | nil => simp [keys, get?]
  | cons entry rest ih =>
    obtain ⟨k, v⟩ := entry
    rw [keys, List.map_cons, List.mem_cons, get?]
    by_cases h : k = key
    · simp [h]
    · rw [if_neg h, ← ih, keys]
      simp [Ne.symm h]

theorem mem_keys_insert {other : String} :
    other ∈ (t.insert key value).keys ↔ other = key ∨ other ∈ t.keys := by
  simp only [mem_keys_iff, get?_insert]
  by_cases h : key = other
  · simp [h]
  · simp [h, Ne.symm h]

/-- Which keys there are after an insertion does not depend on the values. -/
theorem keys_insert_congr {W : Type} {u : Table W} {value' : W} (h : t.keys = u.keys) :
    (t.insert key value).keys = (u.insert key value').keys := by
  induction t generalizing u with
  | nil =>
    obtain rfl := List.map_eq_nil_iff.1 h.symm
    rfl
  | cons entry rest ih =>
    rcases u with _ | ⟨⟨k', v'⟩, rest'⟩
    · cases h
    obtain ⟨k, v⟩ := entry
    obtain ⟨rfl, hrest⟩ : k = k' ∧ keys rest = keys rest' := List.cons.inj h
    rw [insert, insert]
    split
    · exact congrArg (key :: ·) hrest
    · split
      · exact congrArg (key :: k :: ·) hrest
      · exact congrArg (k :: ·) (ih hrest)

/-- A new key makes a table longer. -/
theorem length_insert (h : t.get? key = none) : (t.insert key value).length = t.length + 1 := by
  induction t with
  | nil => rfl
  | cons entry rest ih =>
    obtain ⟨k, v⟩ := entry
    rw [get?] at h
    split at h
    · cases h
    · rename_i hk
      rw [insert, if_neg hk]
      split
      · rfl
      · rw [List.length_cons, List.length_cons, ih h]

theorem Ordered.nodup (ht : t.Ordered) : t.Nodup := by
  refine ht.imp fun {a b} hlt => ?_
  rintro rfl
  exact String.lt_irrefl a.1 hlt

/-- **In ordered tables the look-ups are everything**: tables that agree on them are equal. -/
theorem Ordered.ext {u : Table V} (ht : t.Ordered) (hu : u.Ordered)
    (h : ∀ key, t.get? key = u.get? key) : t = u := by
  have hmem : ∀ entry, entry ∈ t ↔ entry ∈ u := fun (key, value) => by
    rw [ht.mem_iff, hu.mem_iff, h]
  have hperm := (List.perm_ext_iff_of_nodup ht.nodup hu.nodup).2 hmem
  exact hperm.eq_of_pairwise (fun a b _ _ hab hba =>
    absurd (String.lt_trans hab hba) (String.lt_irrefl a.1)) ht hu

/-! ### Changing every value -/

section Map

variable {W : Type} {f : String → V → W}

/-- Changing every value changes what is looked up. -/
theorem get?_map : get? (t.map fun entry => (entry.1, f entry.1 entry.2)) key =
    (t.get? key).map (f key) := by
  induction t with
  | nil => rfl
  | cons entry rest ih =>
    obtain ⟨k, v⟩ := entry
    rw [List.map_cons, get?, get?, ih]
    by_cases hk : k = key
    · rw [if_pos hk, if_pos hk, hk, Option.map_some]
    · rw [if_neg hk, if_neg hk]

theorem keys_map : keys (t.map fun entry => (entry.1, f entry.1 entry.2)) = t.keys :=
  List.map_map

theorem Ordered.map (ht : t.Ordered) :
    Ordered (t.map fun entry => (entry.1, f entry.1 entry.2)) :=
  List.pairwise_map.2 ht

end Map

/-! ### Sums over a table -/

section Sum

variable {measure : V → Nat}

/-- Entering a value adds what it measures and takes off what the value before it did. -/
theorem Ordered.sum_insert (ht : t.Ordered) (key : String) (value : V) :
    ((t.insert key value).values.map measure).sum + ((t.get? key).map measure).getD 0 =
      (t.values.map measure).sum + measure value := by
  induction t with
  | nil => simp [Table.insert, get?, values]
  | cons entry rest ih =>
    obtain ⟨k, v⟩ := entry
    obtain ⟨hfirst, hrest⟩ := List.pairwise_cons.1 ht
    rw [Table.insert, get?]
    by_cases hk : k = key
    · simp only [if_pos hk, values, List.map_cons, List.sum_cons, Option.map_some,
        Option.getD_some]
      omega
    simp only [if_neg hk]
    by_cases hlt : key < k
    · -- the key comes before all others, so it has no value yet
      have hnone : get? rest key = none := by
        rcases hv : get? rest key with _ | v'
        · rfl
        · have hafter : k < key := hfirst _ (mem_of_get? hv)
          exact absurd (String.lt_trans hlt hafter) (String.lt_irrefl key)
      simp only [if_pos hlt, hnone, values, List.map_cons, List.sum_cons, Option.map_none,
        Option.getD_none]
      omega
    · have hrec := ih hrest
      simp only [if_neg hlt, values, List.map_cons, List.sum_cons] at hrec ⊢
      omega

/-- A change that adds to the measure of a value adds as much to the sum. -/
theorem Ordered.sum_update (ht : t.Ordered) {key : String} {default : V} {f : V → V} {n : Nat}
    (hdefault : measure default = 0) (hf : ∀ v, measure (f v) = measure v + n) :
    ((t.update key default f).values.map measure).sum = (t.values.map measure).sum + n := by
  have hsum : ((t.insert key (f ((t.get? key).getD default))).values.map measure).sum +
      ((t.get? key).map measure).getD 0 =
        (t.values.map measure).sum + measure (f ((t.get? key).getD default)) :=
    ht.sum_insert key _
  have hold : measure ((t.get? key).getD default) = ((t.get? key).map measure).getD 0 := by
    rcases t.get? key with _ | v
    · exact hdefault
    · rfl
  rw [hf, hold] at hsum
  rw [update]
  omega

theorem Ordered.update (ht : t.Ordered) (key : String) (default : V) (f : V → V) :
    (t.update key default f).Ordered :=
  ht.insert key _

theorem get?_update (t : Table V) (key other : String) (default : V) (f : V → V) :
    (t.update key default f).get? other =
      if key = other then some (f ((t.get? key).getD default)) else t.get? other :=
  get?_insert t key other _

end Sum

/-! ### Building a table from a list -/

/-- A key past all others goes to the end. -/
theorem insert_eq_append (h : ∀ entry ∈ t, entry.1 < key) :
    t.insert key value = t ++ [(key, value)] := by
  induction t with
  | nil => rfl
  | cons entry rest ih =>
    obtain ⟨k, v⟩ := entry
    have hlt : k < key := h _ List.mem_cons_self
    have hne : k ≠ key := fun heq => String.lt_irrefl key (heq ▸ hlt)
    have hnot : ¬key < k := fun hgt => String.lt_irrefl k (String.lt_trans hlt hgt)
    rw [insert, if_neg hne, if_neg hnot, ih fun e he => h e (List.mem_cons_of_mem _ he)]
    rfl

theorem insertAll_eq_append {entries : List (String × V)} (h : Ordered (t ++ entries)) :
    t.insertAll entries = t ++ entries := by
  induction entries generalizing t with
  | nil => exact (List.append_nil t).symm
  | cons entry entries ih =>
    obtain ⟨key, value⟩ := entry
    have hlast : ∀ e ∈ t, e.1 < key := fun e he =>
      (List.pairwise_append.1 h).2.2 e he _ List.mem_cons_self
    have hstep : insertAll t ((key, value) :: entries) = insertAll (t.insert key value) entries :=
      rfl
    rw [hstep, insert_eq_append hlast, ih (by simpa using h)]
    simp

/-- **An ordered list is the table of its entries.** -/
theorem Ordered.ofList_eq (ht : t.Ordered) : ofList t = t :=
  insertAll_eq_append (t := []) ht

/-- The last entry of a list stays. -/
theorem get?_ofList_concat (entries : List (String × V)) (key : String) (value : V) :
    (ofList (entries ++ [(key, value)])).get? key = some value := by
  rw [ofList, insertAll, List.foldl_concat, get?_insert, if_pos rfl]

/-- When no key repeats, every entry of a list is found in its table. -/
theorem get?_ofList_of_mem {entries : List (String × V)} (h : (entries.map Prod.fst).Nodup)
    (hmem : (key, value) ∈ entries) : (ofList entries).get? key = some value := by
  induction entries using List.reverseRecOn with
  | nil => cases hmem
  | append_singleton entries last ih =>
    rw [List.map_append, List.map_singleton] at h
    obtain ⟨hentries, -, hlast⟩ := List.nodup_append.1 h
    rw [ofList, insertAll, List.foldl_concat, get?_insert]
    rcases List.mem_append.1 hmem with hin | hin
    · have hne : key ≠ last.1 := hlast key (List.mem_map_of_mem hin) _ (List.mem_singleton_self _)
      rw [if_neg hne.symm]
      exact ih hentries hin
    · obtain rfl := List.mem_singleton.1 hin
      rw [if_pos rfl]

end Table

/-! ### Sets of texts -/

namespace TextSet

variable {set other : TextSet} {member : String}

theorem mem_add {new : String} :
    member ∈ (set.add new).toList ↔ member = new ∨ member ∈ set.toList :=
  Table.mem_keys_insert

theorem mem_foldl_add {members : List String} :
    member ∈ (members.foldl add set).toList ↔ member ∈ set.toList ∨ member ∈ members := by
  induction members generalizing set with
  | nil => simp
  | cons first members ih =>
    rw [List.foldl_cons, ih, mem_add, List.mem_cons, or_comm (a := member = first), or_assoc]

theorem mem_union :
    member ∈ (set.union other).toList ↔ member ∈ set.toList ∨ member ∈ other.toList :=
  mem_foldl_add

/-- The members of a set ascend. -/
theorem ordered_ofList (members : List String) : (ofList members).Ordered := by
  refine List.foldlRecOn members add (motive := Table.Ordered) List.Pairwise.nil ?_
  exact fun set hset member _ => hset.insert member ()

end TextSet

end GraphReasoner
