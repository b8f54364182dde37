import ChangeLens.Proofs.Pool.Interleaving

/-! Which failure a pool reports when several calls fail. It is that of the first lane with a failed call, whatever the
order in which the calls failed. With one lane, or one failed call, that is the first failure. -/
namespace ChangeLens.Pool

variable {α β ε : Type} {items : List α} {worker : α → Except ε β} {s : State α β ε} {limit : Nat}

def Call.error? (call : Call α β ε) : Option ε :=
  match call.answer with
  | .ok _ => none
  | .error e => some e

theorem Call.error?_eq_some_iff {call : Call α β ε} {e : ε} : call.error? = some e ↔ call.answer = .error e := by
  rw [error?]
  cases call.answer <;> simp

def earliest? (s : State α β ε) : Option ε := s.calls.findSome? Call.error?

/-- The failure of a call in the first lane that has one. -/
structure Foremost (s : State α β ε) (call : Call α β ε) (e : ε) : Prop where
  member : call ∈ s.calls
  failed : call.answer = .error e
  first : ∀ other ∈ s.calls, ∀ e', other.answer = .error e' → call.lane ≤ other.lane

namespace Invariant

variable (invariant : Invariant items worker limit s) (complete : Complete s)
include invariant complete

theorem failed_of_complete {call : Call α β ε} {e : ε} (member : call ∈ s.calls) (failed : call.answer = .error e) :
    s.lanes[call.lane]? = some (.failed e) := by
  rcases invariant.landed_of_complete complete member with ⟨result, kept, -⟩ | ⟨e', same, here⟩
  · exact nomatch kept.symm.trans failed
  · obtain rfl := Except.error.inj (same.symm.trans failed)
    exact here

/-- A lane ends with its first failure, so calls that failed in one lane failed alike. -/
theorem eq_of_same_lane {call other : Call α β ε} {e e' : ε} (member : call ∈ s.calls) (failed : call.answer = .error e)
    (there : other ∈ s.calls) (also : other.answer = .error e') (same : other.lane = call.lane) : e' = e := by
  have here := invariant.failed_of_complete complete member failed
  have beside := invariant.failed_of_complete complete there also
  rw [same, here] at beside
  exact (Phase.failed.inj (Option.some.inj beside)).symm

theorem outcome_eq_error_iff (e : ε) : outcome s = .error e ↔ ∃ call, Foremost s call e := by
  have foremost {e : ε} (raised : outcome s = .error e) : ∃ call, Foremost s call e := by
    obtain ⟨lane, here, first⟩ := exists_failed_of_outcome raised
    obtain ⟨call, member, rfl, failed⟩ := invariant.tells lane _ here
    exact ⟨call, member, failed, fun other there e' also =>
      first _ e' (invariant.failed_of_complete complete there also)⟩
  refine ⟨foremost, ?_⟩
  rintro ⟨call, member, failed, first⟩
  obtain ⟨e', raised⟩ := (invariant.raises_iff complete).mpr ⟨call, member, e, failed⟩
  obtain ⟨other, there, also, before⟩ := foremost raised
  have same : other.lane = call.lane := Nat.le_antisymm (before call member e failed) (first other there e' also)
  rw [raised, invariant.eq_of_same_lane complete member failed there also same]

theorem earliest_of_alone {call : Call α β ε} {e : ε} (member : call ∈ s.calls) (failed : call.answer = .error e)
    (alone : ∀ other ∈ s.calls, ∀ e', other.answer = .error e' → other.lane = call.lane) : earliest? s = some e := by
  cases earliest : earliest? s with
  | none =>
    have fine := List.findSome?_eq_none_iff.mp earliest call member
    rw [Call.error?_eq_some_iff.mpr failed] at fine
    contradiction
  | some e' =>
    obtain ⟨other, there, raised⟩ := List.exists_of_findSome?_eq_some earliest
    have also := Call.error?_eq_some_iff.mp raised
    rw [invariant.eq_of_same_lane complete member failed there also (alone other there e' also)]

end Invariant

/-- Under every schedule the failure that is raised is that of the first lane with a failed call. It is the first
failure if no other lane has one, and so with one lane it always is. -/
theorem execute_raises_foremost (limit : Nat) (items : List α) (worker : α → Except ε β) (schedule : List Nat) :
    let s := execute items worker schedule (start limit items.length)
    Complete s → (∃ call ∈ s.calls, ∃ e, call.answer = .error e) →
      ∃ call e, Foremost s call e ∧ outcome s = .error e ∧
        ((∀ other ∈ s.calls, ∀ e', other.answer = .error e' → other.lane = call.lane) → earliest? s = some e) ∧
        (limit = 1 → earliest? s = some e) := by
  intro s complete raised
  have invariant : Invariant items worker limit s := execute_invariant schedule (start_invariant limit)
  obtain ⟨e, raises⟩ := (invariant.raises_iff complete).mpr raised
  obtain ⟨call, foremost⟩ := (invariant.outcome_eq_error_iff complete e).mp raises
  have alone := invariant.earliest_of_alone complete foremost.member foremost.failed
  refine ⟨call, e, foremost, raises, alone, fun single => alone fun other there e' also => ?_⟩
  have only (call : Call α β ε) (e : ε) (here : s.lanes[call.lane]? = some (.failed e)) : call.lane = 0 := by
    have inside := (List.getElem?_eq_some_iff.mp here).1
    have lanes := invariant.lanes
    omega
  rw [only other e' (invariant.failed_of_complete complete there also),
    only call e (invariant.failed_of_complete complete foremost.member foremost.failed)]

def overtaken : List Nat := [0, 0, 1, 1, 1, 1, 0, 0]

def refuse (n : Nat) : Except Nat Nat := .error n

theorem complete_overtaken : Complete (execute [1, 2] refuse overtaken (start 2 2)) := by
  have ended : (execute [1, 2] refuse overtaken (start 2 2)).lanes = [.failed 1, .failed 2] := by rfl
  simp [Complete, ended, Phase.hasEnded]

theorem execute_raises_foremost_overtaken :
    let s := execute [1, 2] refuse overtaken (start 2 2)
    Complete s ∧ (∃ call ∈ s.calls, ∃ e, call.answer = .error e) ∧
      ∃ call e, Foremost s call e ∧ outcome s = .error e ∧ call.lane = 0 ∧ e = 1 := by
  intro s
  have failed : ∃ call ∈ s.calls, ∃ e, call.answer = .error e :=
    ⟨⟨0, 0, 1, .error 1⟩, .tail _ (.head _), 1, rfl⟩
  obtain ⟨call, e, foremost, raises, -⟩ := execute_raises_foremost 2 [1, 2] refuse overtaken complete_overtaken failed
  refine ⟨complete_overtaken, failed, call, e, foremost, raises, ?_, ?_⟩
  · exact Nat.le_zero.mp (foremost.first ⟨0, 0, 1, .error 1⟩ (.tail _ (.head _)) 1 rfl)
  · exact Except.error.inj (raises.symm.trans rfl)

/-- The call for the second item fails first, and the failure of the first item is raised. -/
theorem later_failure_raised :
    let s := execute [1, 2] refuse overtaken (start 2 2)
    Complete s ∧ s.calls.map (·.item) = [2, 1] ∧ earliest? s = some 2 ∧ outcome s = .error 1 :=
  ⟨complete_overtaken, rfl, rfl, rfl⟩

end ChangeLens.Pool
