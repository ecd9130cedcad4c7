import GraphReasoner.Cache.Medium

/-!
# Media that fail

A cache has to stand every failure of its medium. `GraphReasoner.Unreliable` is a medium around
another one that refuses some of its calls: which ones is decided by the kind of the call and by how
many calls came before it. A refused call does nothing, so a run over an unreliable medium is a run
in which any call may fail without effect.
-/

namespace GraphReasoner

/-- The calls of a medium. -/
inductive MediumCall
  | read
  | write
  | delete
  | clear
  | loadIndex
  | saveIndex
deriving DecidableEq, Repr, Inhabited

/-- A medium some of whose calls are refused. -/
structure Unreliable (M : Type) where
  medium : M
  /-- Whether a call is refused, given how many calls came before it. -/
  refuses : Nat → MediumCall → Bool
  /-- The number of calls so far. -/
  calls : Nat
  /-- The calls that were carried out, the latest first. -/
  done : List MediumCall

namespace Unreliable

variable {M α : Type}

/-- A medium that was not called yet. -/
def make (medium : M) (refuses : Nat → MediumCall → Bool) : Unreliable M :=
  ⟨medium, refuses, 0, []⟩

/-- Carries a call out, or refuses it. -/
def call (u : Unreliable M) (kind : MediumCall) (action : M → Outcome M α) :
    Outcome (Unreliable M) α :=
  if u.refuses u.calls kind then (.error .database, { u with calls := u.calls + 1 })
  else
    let (result, medium) := action u.medium
    (result, { u with medium, calls := u.calls + 1, done := kind :: u.done })

instance [Medium M] : Medium (Unreliable M) where
  read u key := u.call .read fun m => Medium.read m key
  write u key payload := u.call .write fun m => Medium.write m key payload
  delete u key := u.call .delete fun m => Medium.delete m key
  clear u := u.call .clear Medium.clear
  loadIndex u := u.call .loadIndex Medium.loadIndex
  saveIndex u entries := u.call .saveIndex fun m => Medium.saveIndex m entries

end Unreliable

end GraphReasoner
