import GraphReasoner.Time.Instant
import Mathlib.Order.Basic
import Mathlib.Order.Lattice
import Mathlib.Order.MinMax

/-!
# The end of a lifetime

A clock tells instants within the years that have instants and never a leap second
(`GraphReasoner.Time.Instant.IsReading`). Such an instant is the number of nanoseconds up to it
(`GraphReasoner.Time.Instant.count`), and the order of instants is the order of these numbers
(`GraphReasoner.Time.Instant.IsReading.le_iff`), so that a lifetime can be added to an instant as
one number to another.

Three limits meet in `GraphReasoner.Time.Instant.after`: a lifetime may be too long to be counted,
the sum may lie past the last second, and the nanoseconds may carry over. All of them are settled by
one equation, `GraphReasoner.Time.Instant.IsReading.count_after`: a lifetime that is counted ends at
the sum or at the last instant, whichever comes first, and one that is not counted ends at the last
instant. That lifetimes never end before they begin, and that a longer lifetime does not end before
a shorter one, follows from the equation alone.
-/

namespace GraphReasoner.Time

namespace Instant

/-! ### Readings of a clock -/

/-- **A reading of a clock**: an instant in one of the years that have instants, not within a leap
second. -/
structure IsReading (t : Instant) : Prop where
  earliest_le : earliestSecond ≤ t.seconds
  le_latest : t.seconds ≤ latest.seconds
  nanos_lt : t.nanos < nanosPerSecond

instance (t : Instant) : Decidable t.IsReading :=
  decidable_of_iff (earliestSecond ≤ t.seconds ∧ t.seconds ≤ latest.seconds ∧
      t.nanos < nanosPerSecond)
    ⟨fun ⟨h₁, h₂, h₃⟩ => ⟨h₁, h₂, h₃⟩, fun ⟨h₁, h₂, h₃⟩ => ⟨h₁, h₂, h₃⟩⟩

/-- The number of nanoseconds from the beginning of 1970 to an instant. -/
def count (t : Instant) : Int :=
  t.seconds * nanosPerSecond + t.nanos

theorem isReading_latest : latest.IsReading := by decide +kernel

namespace IsReading

variable {t u : Instant}

/-- Readings are ordered as their numbers are. -/
theorem le_iff (ht : t.IsReading) (hu : u.IsReading) : t ≤ u ↔ t.count ≤ u.count := by
  have hnt := ht.nanos_lt
  have hnu := hu.nanos_lt
  change t.seconds < u.seconds ∨ t.seconds = u.seconds ∧ t.nanos ≤ u.nanos ↔ _
  unfold count nanosPerSecond at *
  omega

theorem lt_iff (ht : t.IsReading) (hu : u.IsReading) : t < u ↔ t.count < u.count := by
  have hnt := ht.nanos_lt
  have hnu := hu.nanos_lt
  change t.seconds < u.seconds ∨ t.seconds = u.seconds ∧ t.nanos < u.nanos ↔ _
  unfold count nanosPerSecond at *
  omega

/-- Different readings have different numbers. -/
theorem eq_iff (ht : t.IsReading) (hu : u.IsReading) : t = u ↔ t.count = u.count := by
  have hnt := ht.nanos_lt
  have hnu := hu.nanos_lt
  rw [Instant.mk.injEq]
  unfold count nanosPerSecond at *
  omega

theorem count_le_latest (ht : t.IsReading) : t.count ≤ latest.count := by
  have hseconds := ht.le_latest
  have hnanos := ht.nanos_lt
  have hlast : latest.nanos = nanosPerSecond - 1 := rfl
  unfold count nanosPerSecond at *
  omega

end IsReading

/-! ### Adding a lifetime -/

/-- A lifetime that is too long to be counted ends at the last instant. -/
theorem after_of_greatest_lt {t : Instant} {d : Duration}
    (h : Duration.greatest.nanos < d.nanos) : t.after d = latest := by
  rw [after, if_pos h]

theorem inRange_iff {seconds : Int} :
    inRange seconds = true ↔ earliestSecond ≤ seconds ∧ seconds ≤ latest.seconds := by
  rw [inRange, Bool.and_eq_true, decide_eq_true_eq, decide_eq_true_eq]

/-- The end of a lifetime is a reading, wherever the lifetime begins. -/
theorem isReading_after (t : Instant) (d : Duration) : (t.after d).IsReading := by
  unfold after
  split
  · exact isReading_latest
  · dsimp only
    split
    · rename_i hin
      exact ⟨(inRange_iff.1 hin).1, (inRange_iff.1 hin).2, Nat.mod_lt _ (by decide)⟩
    · exact isReading_latest

namespace IsReading

variable {t : Instant} {d e : Duration}

/-- **A lifetime that is counted ends at the sum**, or at the last instant when the sum lies past
it. -/
theorem count_after (ht : t.IsReading) (hd : d.nanos ≤ Duration.greatest.nanos) :
    (t.after d).count = min (t.count + d.nanos) latest.count := by
  have hfirst := ht.earliest_le
  have hlast : latest.nanos = nanosPerSecond - 1 := rfl
  rw [after, if_neg (Nat.not_lt.2 hd)]
  -- whole seconds and the nanoseconds within one make up the sum
  have hcarry : t.count + d.nanos = (t.seconds + ((t.nanos + d.nanos) / nanosPerSecond : Nat)) *
      nanosPerSecond + ((t.nanos + d.nanos) % nanosPerSecond : Nat) := by
    unfold count nanosPerSecond
    omega
  have hmod : (t.nanos + d.nanos) % nanosPerSecond < nanosPerSecond := Nat.mod_lt _ (by decide)
  dsimp only
  generalize (t.nanos + d.nanos) / nanosPerSecond = whole at *
  generalize (t.nanos + d.nanos) % nanosPerSecond = part at *
  by_cases hin : inRange (t.seconds + whole)
  · have hle := (inRange_iff.1 hin).2
    rw [if_pos hin, hcarry, min_eq_left]
    · rfl
    · unfold count nanosPerSecond at *
      omega
  · have hlt : latest.seconds < t.seconds + whole := by
      rw [inRange_iff] at hin
      omega
    rw [if_neg hin, hcarry, min_eq_right]
    unfold count nanosPerSecond at *
    omega

theorem le_after (ht : t.IsReading) (d : Duration) : t ≤ t.after d := by
  rw [ht.le_iff (isReading_after t d)]
  by_cases hd : d.nanos ≤ Duration.greatest.nanos
  · rw [ht.count_after hd]
    exact le_min (by omega) ht.count_le_latest
  · rw [after_of_greatest_lt (Nat.lt_of_not_le hd)]
    exact ht.count_le_latest

/-- A longer lifetime does not end earlier. -/
theorem after_mono (ht : t.IsReading) (h : d.nanos ≤ e.nanos) : t.after d ≤ t.after e := by
  rw [(isReading_after t d).le_iff (isReading_after t e)]
  by_cases he : e.nanos ≤ Duration.greatest.nanos
  · rw [ht.count_after (h.trans he), ht.count_after he]
    exact min_le_min_right _ (by omega)
  · rw [after_of_greatest_lt (Nat.lt_of_not_le he)]
    exact (isReading_after t d).count_le_latest

/-- **Only the empty lifetime ends where it begins**, before the last instant. -/
theorem after_le_self_iff (ht : t.IsReading) (hlt : t < latest) :
    t.after d ≤ t ↔ d.nanos = 0 := by
  have hroom := (ht.lt_iff isReading_latest).1 hlt
  rw [(isReading_after t d).le_iff ht]
  by_cases hd : d.nanos ≤ Duration.greatest.nanos
  · rw [ht.count_after hd, min_le_iff]
    omega
  · rw [after_of_greatest_lt (Nat.lt_of_not_le hd)]
    omega

end IsReading

/-- **An end of a lifetime that saturates**: the smaller of the sum and the last instant when the
lifetime is counted, and the last instant when it is not. -/
structure Saturates (start : Instant) (d : Duration) (stop : Instant) : Prop where
  reading : stop.IsReading
  counted : d.nanos ≤ Duration.greatest.nanos →
    stop.count = min (start.count + d.nanos) latest.count
  uncounted : Duration.greatest.nanos < d.nanos → stop = latest

/-- **There is one such end**, the one that is computed. -/
theorem IsReading.saturates_iff {start stop : Instant} {d : Duration} (h : start.IsReading) :
    start.Saturates d stop ↔ stop = start.after d := by
  constructor
  · intro hstop
    rcases Nat.lt_or_ge Duration.greatest.nanos d.nanos with hd | hd
    · rw [hstop.uncounted hd, after_of_greatest_lt hd]
    · rw [hstop.reading.eq_iff (isReading_after start d), hstop.counted hd, h.count_after hd]
  · rintro rfl
    exact ⟨isReading_after start d, h.count_after, after_of_greatest_lt⟩

end Instant

end GraphReasoner.Time
