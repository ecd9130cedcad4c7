import GraphReasoner.Query.Planner
import Mathlib.Data.List.DropRight
import Mathlib.Data.List.Induction

/-!
# What a planner remembers

A planner is asked for plans and for suggestions, and now and then its history is cleared. What it
remembers can be read off these calls and their replies, without looking at the planner
(`GraphReasoner.Query.Planner.plannedSinceClear`): every plan that was made since the last clear
leaves an entry, and the last ones, as many as the capacity admits, are the history.

Room for an entry is made by a loop that takes out the oldest questions, one in each round, from
inside its own guard. It ends after as many rounds as there are questions too many, also when the
capacity is zero and the guard holds of an empty history.

* `GraphReasoner.Query.Planner.makeRoom_eq` – what the loop leaves;
* `GraphReasoner.Query.Planner.perform_optimize` – what a call for a plan does;
* `GraphReasoner.Query.Planner.history_exact` – the history after any calls.
-/

namespace GraphReasoner.Query

open GraphReasoner.Time (Instant)

variable {S : Type}

namespace Planner

/-! ### Making room -/

section Room

variable (capacity : Nat) (history : List (HistoryEntry S))

/-- The number of questions that have to go before one more fits. -/
def excess : Nat :=
  history.length - (capacity - 1)

variable {capacity history}

theorem forgetOldest?_drop {n : Nat} (h : n < excess capacity history) :
    forgetOldest? capacity (history.drop n) = some (history.drop (n + 1)) := by
  unfold excess at h
  have hlength : capacity ≤ (history.drop n).length := by
    rw [List.length_drop]
    omega
  have hn : n < history.length := by omega
  rw [forgetOldest?, if_pos hlength, List.drop_eq_getElem_cons hn, List.tail?_cons]

theorem forgetOldest?_drop_excess :
    forgetOldest? capacity (history.drop (excess capacity history)) = none := by
  unfold forgetOldest? excess
  split
  · rename_i hfull
    rw [List.length_drop] at hfull
    -- the guard only holds without capacity, and then there is nothing to take out
    have hnone : history.drop (history.length - (capacity - 1)) = [] := by
      rw [List.drop_eq_nil_iff]
      omega
    rw [hnone, List.tail?_nil]
  · rfl

/-- **What the loop leaves**: all but the questions that are too many. -/
theorem makeRoom_eq (capacity : Nat) (history : List (HistoryEntry S)) :
    makeRoom capacity history = history.drop (excess capacity history) := by
  fun_induction makeRoom capacity history with
  | case1 history rest hforget ih =>
    -- the guard has taken the first of the questions that are too many
    have hpos : 0 < excess capacity history := by
      refine Nat.pos_of_ne_zero fun hzero => ?_
      have hends := @forgetOldest?_drop_excess _ capacity history
      rw [hzero, List.drop_zero, hforget] at hends
      cases hends
    have hrest : rest = history.drop 1 := by
      have hround := forgetOldest?_drop hpos
      rw [List.drop_zero, hforget] at hround
      exact Option.some.inj hround
    have hexcess : excess capacity history = 1 + excess capacity rest := by
      have hlength := length_of_forgetOldest? hforget
      unfold excess at hpos ⊢
      omega
    rw [ih, hexcess, ← List.drop_drop, ← hrest]
  | case2 history hforget =>
    have hzero : excess capacity history = 0 := by
      refine Nat.eq_zero_of_not_pos fun hpos => ?_
      have hround := forgetOldest?_drop hpos
      rw [List.drop_zero, hforget] at hround
      cases hround
    rw [hzero, List.drop_zero]

end Room

/-! ### Calls -/

/-- What a planner can be asked. The graph and whether an answer is stored may change from one call
to the next, so they are part of the call. -/
inductive Call (S : Type)
  | optimize (g : Graph S) (text : String) (cached : Bool) (now : Instant)
  | suggest (g : Graph S) (text : String) (most : Nat)
  | clear

/-- What a planner answers. -/
inductive Reply (S : Type)
  | planned (result : Result S (Plan S))
  | suggested (suggestions : List (Suggestion S))
  | done

/-- The entry that a call leaves: that of the plan it was answered with. -/
def recorded? : Call S × Reply S → Option (HistoryEntry S)
  | (.optimize g text _ now, .planned (.ok made)) =>
    some ⟨text, made.kind, (parse text g).mentionTexts, made.cost, now⟩
  | _ => none

/-- Whether a call clears the history. -/
def clears : Call S × Reply S → Bool
  | (.clear, _) => true
  | _ => false

/-- **The entries of the plans that were made since the last clear**, oldest first. -/
def plannedSinceClear (exchanges : List (Call S × Reply S)) : List (HistoryEntry S) :=
  (exchanges.rtakeWhile fun exchange => !clears exchange).filterMap recorded?

theorem plannedSinceClear_concat (exchanges : List (Call S × Reply S)) (last : Call S × Reply S) :
    plannedSinceClear (exchanges ++ [last]) =
      if clears last then [] else plannedSinceClear exchanges ++ (recorded? last).toList := by
  rw [plannedSinceClear, List.rtakeWhile_concat]
  cases clears last with
  | true => rfl
  | false =>
    rcases h : recorded? last with _ | e <;> simp [plannedSinceClear, h]

variable [Scalar S]

/-- Carries out a call. A call that is refused leaves the planner as it is. -/
def perform (p : Planner S) : Call S → Reply S × Planner S
  | .optimize g text cached now =>
    match p.optimize g text cached now with
    | .ok (made, p) => (.planned (.ok made), p)
    | .error error => (.planned (.error error), p)
  | .suggest g text most => (.suggested (p.suggest g text most), p)
  | .clear => (.done, p.clear)

/-- Carries out calls one after another. -/
def run (p : Planner S) (calls : List (Call S)) : Planner S :=
  calls.foldl (fun p call => (p.perform call).2) p

/-- The calls of a run with their replies. -/
def exchanges (p : Planner S) : List (Call S) → List (Call S × Reply S)
  | [] => []
  | call :: calls => (call, (p.perform call).1) :: exchanges (p.perform call).2 calls

@[simp] theorem run_concat (p : Planner S) (calls : List (Call S)) (call : Call S) :
    p.run (calls ++ [call]) = ((p.run calls).perform call).2 := by
  rw [run, List.foldl_append]
  rfl

theorem exchanges_concat (p : Planner S) (calls : List (Call S)) (call : Call S) :
    p.exchanges (calls ++ [call]) =
      p.exchanges calls ++ [(call, ((p.run calls).perform call).1)] := by
  induction calls generalizing p with
  | nil => rfl
  | cons first calls ih => exact congrArg _ (ih (p.perform first).2)

/-! ### What a call does -/

/-- **A call for a plan** is refused when the text is blank, which changes nothing, and else is
answered with a plan, whose question is remembered. -/
theorem perform_optimize (p : Planner S) (g : Graph S) (text : String) (cached : Bool)
    (now : Instant) :
    if Text.AllBlank text then
      p.perform (.optimize g text cached now) = (.planned (.error .emptyQuery), p)
    else
      ∃ made, p.perform (.optimize g text cached now) = (.planned (.ok made),
        p.remember ⟨text, made.kind, (parse text g).mentionTexts, made.cost, now⟩) := by
  split <;> rename_i hblank
  · simp only [perform, optimize, if_pos hblank]
  · exact ⟨_, by simp only [perform, optimize, if_neg hblank]; rfl⟩

omit [Scalar S] in
theorem remember_settings (p : Planner S) (e : HistoryEntry S) :
    (p.remember e).settings = p.settings := by
  unfold remember
  dsimp only
  split <;> rfl

@[simp] theorem perform_settings (p : Planner S) (call : Call S) :
    (p.perform call).2.settings = p.settings := by
  cases call with
  | optimize g text cached now =>
    have hcall := p.perform_optimize g text cached now
    split at hcall
    · rw [hcall]
    · obtain ⟨made, hmade⟩ := hcall
      rw [hmade]
      exact remember_settings p _
  | suggest | clear => rfl

@[simp] theorem run_settings (p : Planner S) (calls : List (Call S)) :
    (p.run calls).settings = p.settings := by
  induction calls using List.reverseRecOn with
  | nil => rfl
  | append_singleton calls call ih => rw [run_concat, perform_settings, ih]

omit [Scalar S] in
/-- **The last entries, and one more.** To remember keeps a history that is the end of some entries
the end of them with the new one. -/
theorem history_remember {p : Planner S} {entries : List (HistoryEntry S)}
    (h : p.history = entries.rtake p.settings.historyCapacity) (e : HistoryEntry S) :
    (p.remember e).history = (entries ++ [e]).rtake p.settings.historyCapacity := by
  unfold remember
  rcases hcapacity : p.settings.historyCapacity with _ | others
  · rw [hcapacity] at h
    simpa [hcapacity] using h
  · rw [hcapacity] at h
    simp only [Nat.add_one_ne_zero, if_false]
    have hroom : makeRoom (others + 1) p.history = entries.rtake others := by
      rw [makeRoom_eq, h, excess, List.rtake, List.rtake, List.drop_drop, List.length_drop]
      congr 1
      omega
    rw [hroom, List.rtake_concat_succ]

/-- **What a call does to the history** of a planner that remembers the last entries. -/
theorem history_perform {p : Planner S} {before : List (Call S × Reply S)}
    (h : p.history = (plannedSinceClear before).rtake p.settings.historyCapacity)
    (call : Call S) :
    (p.perform call).2.history =
      (plannedSinceClear (before ++ [(call, (p.perform call).1)])).rtake
        p.settings.historyCapacity := by
  rw [plannedSinceClear_concat]
  cases call with
  | optimize g text cached now =>
    have hcall := p.perform_optimize g text cached now
    split at hcall
    · rw [hcall]
      simpa [clears, recorded?] using h
    · obtain ⟨made, hmade⟩ := hcall
      rw [hmade]
      exact history_remember h _
  | suggest g text most => simpa [perform, clears, recorded?] using h
  | clear => simp [perform, clear, clears, List.rtake]

/-- **The history of a planner is the end of what was planned.** This holds of every planner there
is: whatever its capacity and whatever the calls are, it remembers the plans that were made since
the last clear, oldest first, the last ones as many as the capacity admits. A blank text is refused
and changes nothing, any other is planned; to suggest changes nothing. The loop that makes room takes
one question out in each of its rounds and ends after so many rounds as there are questions too
many. -/
theorem history_exact (settings : PlannerSettings S) (calls : List (Call S)) :
    let planned := plannedSinceClear ((empty settings).exchanges calls)
    ((empty settings).run calls).history = planned.rtake settings.historyCapacity ∧
      ((empty settings).run calls).history.length =
        min planned.length settings.historyCapacity ∧
      (∀ (p : Planner S) (g : Graph S) (text : String) (cached : Bool) (now : Instant),
        if Text.AllBlank text then
          p.perform (.optimize g text cached now) = (.planned (.error .emptyQuery), p)
        else ∃ made, p.perform (.optimize g text cached now) = (.planned (.ok made),
          p.remember ⟨text, made.kind, (parse text g).mentionTexts, made.cost, now⟩)) ∧
      (∀ (p : Planner S) (g : Graph S) (text : String) (most : Nat),
        (p.perform (.suggest g text most)).2 = p) ∧
      ∀ (capacity : Nat) (history : List (HistoryEntry S)),
        (∀ n < excess capacity history,
          forgetOldest? capacity (history.drop n) = some (history.drop (n + 1))) ∧
        forgetOldest? capacity (history.drop (excess capacity history)) = none ∧
        makeRoom capacity history = history.drop (excess capacity history) := by
  intro planned
  have hhistory : ((empty settings).run calls).history =
      planned.rtake settings.historyCapacity := by
    subst planned
    induction calls using List.reverseRecOn with
    | nil => simp [run, exchanges, empty, plannedSinceClear, List.rtake]
    | append_singleton calls call ih =>
      have hsettings : ((empty settings).run calls).settings = settings := run_settings _ calls
      have hlast : ((empty settings).run calls).history =
          (plannedSinceClear ((empty settings).exchanges calls)).rtake
            ((empty settings).run calls).settings.historyCapacity := by
        rw [hsettings]
        exact ih
      have hstep := history_perform hlast call
      rwa [hsettings, ← run_concat, ← exchanges_concat] at hstep
  refine ⟨hhistory, ?_, perform_optimize, fun p g text most => rfl, fun capacity history => ?_⟩
  · rw [hhistory, List.rtake, List.length_drop]
    omega
  · exact ⟨fun n => forgetOldest?_drop, forgetOldest?_drop_excess, makeRoom_eq capacity history⟩

end Planner

end GraphReasoner.Query
