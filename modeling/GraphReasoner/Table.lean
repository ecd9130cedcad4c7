/-!
# Tables with text keys

A table is a list of keys and values in ascending order of the keys, each key once. Keys are ordered
by the code points of their characters, which is also the order of their bytes. Because the order is
fixed, two tables with the same look-ups are the same list, and everything that shows a table shows
it in one order.

* `GraphReasoner.Table.get?`, `GraphReasoner.Table.insert`, `GraphReasoner.Table.erase` – the
  operations;
* `GraphReasoner.Table.get?_insert`, `GraphReasoner.Table.get?_erase` – what they do to a look-up;
* `GraphReasoner.Table.Ordered` – the invariant, which they keep.
-/

namespace GraphReasoner

/-- A table from texts to values. -/
abbrev Table (V : Type) := List (String × V)

namespace Table

variable {V : Type}

/-- The value of a key. -/
def get? (t : Table V) (key : String) : Option V :=
  match t with
  | [] => none
  | (k, v) :: rest => if k = key then some v else get? rest key

/-- Gives a key a value, replacing the one it had. -/
def insert (t : Table V) (key : String) (value : V) : Table V :=
  match t with
  | [] => [(key, value)]
  | (k, v) :: rest =>
    if k = key then (key, value) :: rest
    else if key < k then (key, value) :: (k, v) :: rest
    else (k, v) :: insert rest key value

/-- The table without a key. -/
def erase (t : Table V) (key : String) : Table V :=
  t.filter fun entry => entry.1 != key

/-- Whether a key has a value. -/
def contains (t : Table V) (key : String) : Bool :=
  (t.get? key).isSome

/-- The keys, in ascending order. -/
def keys (t : Table V) : List String :=
  t.map Prod.fst

/-- The values, in the order of their keys. -/
def values (t : Table V) : List V :=
  t.map Prod.snd

/-- Changes the value of a key, starting from a default when it has none. -/
def update (t : Table V) (key : String) (default : V) (f : V → V) : Table V :=
  t.insert key (f ((t.get? key).getD default))

/-- Inserts every entry of a list in turn, so that the last value of a key stays. -/
def insertAll (t : Table V) (entries : List (String × V)) : Table V :=
  entries.foldl (fun t entry => insert t entry.1 entry.2) t

/-- The table of a list of entries, the last value of a key staying. -/
def ofList (entries : List (String × V)) : Table V :=
  insertAll [] entries

/-- The keys ascend strictly. -/
def Ordered (t : Table V) : Prop :=
  t.Pairwise fun a b => a.1 < b.1

theorem get?_insert (t : Table V) (key other : String) (value : V) :
    (t.insert key value).get? other = if key = other then some value else t.get? other := by
  induction t with
  | nil => simp [insert, get?]
  | cons entry rest ih =>
    obtain ⟨k, v⟩ := entry
    unfold insert
    split
    · rename_i h
      subst h
      by_cases ho : k = other <;> simp [get?, ho]
    · split
      · simp [get?]
      · by_cases ho : k = other
        · subst ho
          rename_i h _
          simp [get?, Ne.symm h]
        · simp [get?, ho, ih]

theorem get?_erase (t : Table V) (key other : String) :
    (t.erase key).get? other = if key = other then none else t.get? other := by
  induction t with
  | nil => simp [erase, get?]
  | cons entry rest ih =>
    obtain ⟨k, v⟩ := entry
    unfold erase at ih ⊢
    by_cases hk : k = key
    · subst hk
      by_cases ho : k = other
      · simpa [get?, ho] using ih
      · simpa [get?, ho] using ih
    · by_cases ho : k = other
      · subst ho
        simp [get?, hk, Ne.symm hk]
      · simpa [get?, hk, ho] using ih

theorem mem_insert {t : Table V} {key : String} {value : V} {entry : String × V}
    (h : entry ∈ t.insert key value) : entry = (key, value) ∨ entry ∈ t := by
  induction t with
  | nil => simpa [insert] using h
  | cons first rest ih =>
    obtain ⟨k, v⟩ := first
    unfold insert at h
    split at h
    · rcases List.mem_cons.1 h with h | h
      · exact Or.inl h
      · exact Or.inr (List.mem_cons_of_mem _ h)
    · split at h
      · rcases List.mem_cons.1 h with h | h
        · exact Or.inl h
        · exact Or.inr h
      · rcases List.mem_cons.1 h with h | h
        · exact Or.inr (h ▸ List.mem_cons_self)
        · exact (ih h).imp id (List.mem_cons_of_mem _)

/-- **Inserting keeps the order.** -/
theorem Ordered.insert {t : Table V} (h : t.Ordered) (key : String) (value : V) :
    (t.insert key value).Ordered := by
  induction t with
  | nil => simp [Table.insert, Ordered]
  | cons first rest ih =>
    obtain ⟨k, v⟩ := first
    obtain ⟨hfirst, hrest⟩ := List.pairwise_cons.1 h
    unfold Table.insert
    split
    · rename_i e
      exact List.pairwise_cons.2 ⟨fun entry he => e ▸ hfirst entry he, hrest⟩
    · rename_i hne
      split
      · rename_i hlt
        refine List.pairwise_cons.2 ⟨fun entry he => ?_, h⟩
        rcases List.mem_cons.1 he with he | he
        · exact he ▸ hlt
        · exact String.lt_trans hlt (hfirst entry he)
      · rename_i hnlt
        refine List.pairwise_cons.2 ⟨fun entry he => ?_, ih hrest⟩
        rcases mem_insert he with he | he
        · subst he
          exact Decidable.byContradiction fun hnlt' =>
            hne (String.le_antisymm (String.not_lt.1 hnlt) (String.not_lt.1 hnlt'))
        · exact hfirst entry he

/-- **Erasing keeps the order.** -/
theorem Ordered.erase {t : Table V} (h : t.Ordered) (key : String) : (t.erase key).Ordered :=
  h.filter _

end Table

/-- A set of texts: a table without values, so that its members ascend. -/
abbrev TextSet := Table Unit

namespace TextSet

/-- The set with one more member. -/
def add (set : TextSet) (member : String) : TextSet :=
  Table.insert set member ()

/-- The set of the members of a list. -/
def ofList (members : List String) : TextSet :=
  members.foldl add []

/-- The members of both sets. -/
def union (set other : TextSet) : TextSet :=
  (Table.keys other).foldl add set

/-- The members, in ascending order. -/
def toList (set : TextSet) : List String :=
  Table.keys set

end TextSet

end GraphReasoner
