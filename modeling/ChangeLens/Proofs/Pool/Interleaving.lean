import ChangeLens.Proofs.Pool.Steps
import Mathlib.Data.List.Basic
import Mathlib.Data.List.Perm.Basic

/-! What holds of a pool under every schedule. Indices are claimed in order and each once, an answer is that of the
worker for the item at its index, and it stands where it belongs as soon as its lane has gone on. So a pool whose lanes
have all ended gives either a failure of some call or the results of all items. -/
namespace ChangeLens.Pool

variable {α β ε : Type} {items : List α} {worker : α → Except ε β} {s : State α β ε} {lane limit : Nat}

def Phase.index? : Phase α β ε → Option Nat
  | working index _ => some index
  | _ => none

/-- Every index that is claimed belongs to one call, which has ended or is in flight. -/
structure Counted (items : List α) (limit : Nat) (s : State α β ε) : Prop where
  lanes : s.lanes.length = min limit items.length
  claimed : s.claimed = List.range s.next
  begun : (s.calls.map (·.index) ++ s.lanes.filterMap Phase.index?).Perm (List.range (min s.next items.length))

/-- What a lane's phase tells. An item is the one at its index, an answer or a failure is that of a call. -/
def Phase.Tells (items : List α) (calls : List (Call α β ε)) (lane : Nat) : Phase α β ε → Prop
  | looking | claiming | done => True
  | working index item => items[index]? = some item
  | answered index answer => ∃ item, ⟨lane, index, item, answer⟩ ∈ calls
  | failed e => ∃ call ∈ calls, call.lane = lane ∧ call.answer = .error e

/-- The answer of a call is still with its lane, or it is kept. -/
def Landed (s : State α β ε) (call : Call α β ε) : Prop :=
  s.lanes[call.lane]? = some (.answered call.index call.answer) ∨
    (∃ result, call.answer = .ok result ∧ s.results[call.index]? = some (some result)) ∨
    ∃ e, call.answer = .error e ∧ s.lanes[call.lane]? = some (.failed e)

/-- What lanes tell and what is kept comes from calls of the worker. -/
structure Truthful (items : List α) (worker : α → Except ε β) (s : State α β ε) : Prop where
  slots : s.results.length = items.length
  calls : ∀ call ∈ s.calls, items[call.index]? = some call.item ∧ call.answer = worker call.item
  tells : ∀ (lane : Nat) (phase : Phase α β ε), s.lanes[lane]? = some phase → phase.Tells items s.calls lane
  landed : ∀ call ∈ s.calls, Landed s call

/-- A lane goes without a failure of its own only after another one, or when nothing is left to claim. -/
structure Closing (items : List α) (s : State α β ε) : Prop where
  stopped : s.stopped = true ↔ ∃ (lane : Nat) (e : ε), s.lanes[lane]? = some (.failed e)
  done : ∀ lane : Nat, s.lanes[lane]? = some .done → s.stopped = true ∨ items.length ≤ s.next

structure Invariant (items : List α) (worker : α → Except ε β) (limit : Nat) (s : State α β ε) : Prop extends
  Counted items limit s, Truthful items worker s, Closing items s

theorem start_invariant (limit : Nat) : Invariant items worker limit (start limit items.length) := by
  have looking (lane : Nat) (phase : Phase α β ε)
      (here : (start limit items.length : State α β ε).lanes[lane]? = some phase) : phase = .looking :=
    (List.mem_replicate.mp (List.mem_of_getElem? here)).2
  have none (call : Call α β ε) : call ∉ (start limit items.length : State α β ε).calls := List.not_mem_nil
  constructor
  · exact ⟨by simp [start], rfl, by simp [start, List.filterMap_replicate, Phase.index?]⟩
  · refine ⟨by simp [start], fun call member => absurd member (none call), fun lane phase here => ?_,
      fun call member => absurd member (none call)⟩
    rw [looking lane phase here]
    exact trivial
  · refine ⟨iff_of_false Bool.false_ne_true ?_, fun lane here => by simpa using looking lane _ here⟩
    rintro ⟨lane, e, here⟩
    simpa using looking lane _ here

theorem filterMap_index_place {t : State α β ε} {phase : Phase α β ε} (here : t.lanes[lane]? = some phase)
    (other : Phase α β ε) :
    ((place t lane other).lanes.filterMap Phase.index? ++ phase.index?.toList).Perm
      (t.lanes.filterMap Phase.index? ++ other.index?.toList) := by
  obtain ⟨before, after, around, placed⟩ := exists_around here
  have split (phase : Phase α β ε) : (before ++ phase :: after).filterMap Phase.index? =
      before.filterMap Phase.index? ++ (phase.index?.toList ++ after.filterMap Phase.index?) := by
    rw [List.filterMap_append, List.filterMap_cons]
    cases phase.index? <;> rfl
  refine List.perm_iff_count.mpr fun index => ?_
  simp only [placed, around, split, List.count_append]
  omega

theorem Counted.place {t : State α β ε} (counted : Counted items limit t) {phase other : Phase α β ε}
    (here : t.lanes[lane]? = some phase) (idle : phase.index? = none) (still : other.index? = none) :
    Counted items limit (place t lane other) := by
  refine ⟨by simp [Pool.place, counted.lanes], counted.claimed, .trans (.append_left _ ?_) counted.begun⟩
  simpa [idle, still] using filterMap_index_place here other

theorem range_min_succ {next n : Nat} (inside : next < n) :
    List.range (min (next + 1) n) = List.range (min next n) ++ [next] := by
  rw [Nat.min_eq_left inside, Nat.min_eq_left (Nat.le_of_lt inside), List.range_succ]

theorem Step.counted {next : State α β ε} (step : Step items worker lane s next) (counted : Counted items limit s) :
    Counted items limit next := by
  obtain ⟨lanes, claimed, begun⟩ := counted
  have claims : (claim s).claimed = List.range (s.next + 1) := by rw [claim, claimed, List.range_succ]
  cases step with
  | idles => exact ⟨lanes, claimed, begun⟩
  | goesOn looking => exact Counted.place ⟨lanes, claimed, begun⟩ looking rfl rfl
  | leaves looking => exact Counted.place ⟨lanes, claimed, begun⟩ looking rfl rfl
  | claims item claiming found =>
    have inside : s.next < items.length := (List.getElem?_eq_some_iff.mp found).1
    have moved := filterMap_index_place (t := claim s) claiming (.working s.next item)
    refine ⟨by simp [Pool.place, claim, lanes], claims, ?_⟩
    change (s.calls.map (·.index) ++ _).Perm (List.range (min (s.next + 1) items.length))
    rw [range_min_succ inside]
    calc
      List.Perm _ (s.calls.map (·.index) ++ (s.lanes.filterMap Phase.index? ++ [s.next])) :=
        .append_left _ (by simpa [Phase.index?, claim] using moved)
      _ = s.calls.map (·.index) ++ s.lanes.filterMap Phase.index? ++ [s.next] := (List.append_assoc ..).symm
      List.Perm _ (List.range (min s.next items.length) ++ [s.next]) := begun.append_right _
  | runsOut claiming out =>
    have same : min (s.next + 1) items.length = min s.next items.length := by omega
    exact Counted.place (t := claim s) ⟨lanes, claims, same ▸ begun⟩ claiming rfl rfl
  | answers index item here =>
    have moved := filterMap_index_place (t := { s with calls := s.calls ++ [⟨lane, index, item, worker item⟩] }) here
      (.answered index (worker item))
    refine ⟨by simp [Pool.place, lanes], claimed, .trans ?_ begun⟩
    change (List.map (·.index) (s.calls ++ [⟨lane, index, item, worker item⟩]) ++ _).Perm _
    rw [List.map_append, List.append_assoc]
    exact .append_left _ (List.perm_append_comm.trans (by simpa [Phase.index?] using moved))
  | keeps index result here =>
    exact Counted.place (t := { s with results := s.results.set index (some result) }) ⟨lanes, claimed, begun⟩ here rfl rfl
  | fails index e here =>
    exact Counted.place (t := { s with stopped := true }) ⟨lanes, claimed, begun⟩ here rfl rfl

theorem Phase.Tells.append {calls : List (Call α β ε)} {phase : Phase α β ε} (tells : phase.Tells items calls lane)
    (call : Call α β ε) : phase.Tells items (calls ++ [call]) lane := by
  cases phase with
  | looking | claiming | done => exact trivial
  | working => exact tells
  | answered index answer =>
    obtain ⟨item, member⟩ := tells
    exact ⟨item, List.mem_append_left _ member⟩
  | failed e =>
    obtain ⟨other, member, answer⟩ := tells
    exact ⟨other, List.mem_append_left _ member, answer⟩

theorem tells_place {t : State α β ε} {phase other : Phase α β ε} (here : t.lanes[lane]? = some phase)
    {calls : List (Call α β ε)} (told : other.Tells items calls lane)
    (tells : ∀ (l : Nat) (p : Phase α β ε), t.lanes[l]? = some p → p.Tells items calls l) (l : Nat) (p : Phase α β ε)
    (there : (place t lane other).lanes[l]? = some p) : p.Tells items calls l := by
  rw [getElem?_place here] at there
  split at there
  next same => exact same ▸ Option.some.inj there ▸ told
  next => exact tells l p there

/-- What has landed stays where it is, unless the lane that moves has the answer. -/
theorem Landed.place {t : State α β ε} {call : Call α β ε} (landed : Landed t call) {phase : Phase α β ε}
    (here : t.lanes[lane]? = some phase) (live : phase.hasEnded = false)
    (elsewhere : phase ≠ .answered call.index call.answer) (other : Phase α β ε) :
    Landed (place t lane other) call := by
  rcases landed with waiting | kept | ⟨e, answer, failed⟩
  · exact .inl (getElem?_place_of_ne here waiting elsewhere.symm other)
  · exact .inr (.inl kept)
  · refine .inr (.inr ⟨e, answer, getElem?_place_of_ne here failed ?_ other⟩)
    rintro rfl
    contradiction

theorem Truthful.place {t : State α β ε} (truthful : Truthful items worker t) {phase other : Phase α β ε}
    (here : t.lanes[lane]? = some phase) (live : phase.hasEnded = false)
    (unanswered : ∀ (index : Nat) (answer : Except ε β), phase ≠ .answered index answer)
    (told : other.Tells items t.calls lane) : Truthful items worker (place t lane other) :=
  ⟨truthful.slots, truthful.calls, tells_place here told truthful.tells,
    fun call member => (truthful.landed call member).place here live (unanswered _ _) other⟩

theorem Truthful.claim (truthful : Truthful items worker s) : Truthful items worker (claim s) :=
  ⟨truthful.slots, truthful.calls, truthful.tells, truthful.landed⟩

theorem Truthful.answer (truthful : Truthful items worker s) {index : Nat} {item : α}
    (here : s.lanes[lane]? = some (.working index item)) :
    Truthful items worker (Pool.place { s with calls := s.calls ++ [⟨lane, index, item, worker item⟩] } lane
      (.answered index (worker item))) := by
  refine ⟨truthful.slots, fun call member => ?_, ?_, fun call member => ?_⟩
  · rcases List.mem_append.mp member with before | now
    · exact truthful.calls call before
    · obtain rfl := List.mem_singleton.mp now
      exact ⟨truthful.tells lane _ here, rfl⟩
  · refine tells_place here ⟨item, List.mem_append_right _ (.head _)⟩ fun l p there => ?_
    exact (truthful.tells l p there).append _
  · rcases List.mem_append.mp member with before | now
    · exact (truthful.landed call before).place here rfl (by simp) _
    · obtain rfl := List.mem_singleton.mp now
      exact .inl ((getElem?_place here _ _).trans (if_pos rfl))

/-- A result goes to its place. One that stands there already is the same, for it answers the same item. -/
theorem Truthful.keep (truthful : Truthful items worker s) {index : Nat} {result : β}
    (here : s.lanes[lane]? = some (.answered index (.ok result))) :
    Truthful items worker (Pool.place { s with results := s.results.set index (some result) } lane .looking) := by
  obtain ⟨item, made⟩ := truthful.tells lane _ here
  obtain ⟨found, answer⟩ := truthful.calls _ made
  have inside : index < s.results.length := truthful.slots ▸ (List.getElem?_eq_some_iff.mp found).1
  refine ⟨by simp [Pool.place, truthful.slots], truthful.calls, tells_place here trivial truthful.tells,
    fun call member => ?_⟩
  by_cases same : call.index = index
  · obtain ⟨there, again⟩ := truthful.calls call member
    have alike : call.item = item := Option.some.inj (there.symm.trans (same ▸ found))
    refine .inr (.inl ⟨result, by rw [again, alike, ← answer], ?_⟩)
    rw [same]
    exact List.getElem?_set_self inside
  · refine Landed.place (t := { s with results := s.results.set index (some result) }) ?_ here rfl
      (fun moves => same (Phase.answered.inj moves).1.symm) _
    rcases truthful.landed call member with waiting | ⟨other, ok, slot⟩ | failed
    · exact .inl waiting
    · exact .inr (.inl ⟨other, ok, (List.getElem?_set_ne (Ne.symm same)).trans slot⟩)
    · exact .inr (.inr failed)

theorem Truthful.fail (truthful : Truthful items worker s) {index : Nat} {e : ε}
    (here : s.lanes[lane]? = some (.answered index (.error e))) :
    Truthful items worker (Pool.place { s with stopped := true } lane (.failed e)) := by
  obtain ⟨item, made⟩ := truthful.tells lane _ here
  refine ⟨truthful.slots, truthful.calls, tells_place here ⟨_, made, rfl, rfl⟩ truthful.tells, fun call member => ?_⟩
  rcases truthful.landed call member with waiting | kept | ⟨e', raised, failed⟩
  · by_cases mine : call.lane = lane
    · rw [mine, here] at waiting
      have raised : .error e = call.answer := (Phase.answered.inj (Option.some.inj waiting)).2
      exact .inr (.inr ⟨e, raised.symm, (getElem?_place here _ _).trans (if_pos mine)⟩)
    · exact .inl ((getElem?_place here _ _).trans ((if_neg mine).trans waiting))
  · exact .inr (.inl kept)
  · exact .inr (.inr ⟨e', raised, getElem?_place_of_ne here failed (by simp) _⟩)

theorem Step.truthful {next : State α β ε} (step : Step items worker lane s next)
    (truthful : Truthful items worker s) : Truthful items worker next := by
  cases step with
  | idles => exact truthful
  | goesOn looking => exact truthful.place looking rfl (by simp) trivial
  | leaves looking => exact truthful.place looking rfl (by simp) trivial
  | claims item claiming found => exact truthful.claim.place claiming rfl (by simp) found
  | runsOut claiming => exact truthful.claim.place claiming rfl (by simp) trivial
  | answers index item working => exact truthful.answer working
  | keeps index result answered => exact truthful.keep answered
  | fails index e answered => exact truthful.fail answered

theorem Closing.place {t : State α β ε} (closing : Closing items t) {phase other : Phase α β ε}
    (here : t.lanes[lane]? = some phase) (live : phase.hasEnded = false) (unfailed : ∀ e, other ≠ .failed e)
    (closes : other = .done → t.stopped = true ∨ items.length ≤ t.next) : Closing items (place t lane other) := by
  refine ⟨closing.stopped.trans ⟨?_, ?_⟩, fun l done => ?_⟩
  · rintro ⟨l, e, failed⟩
    refine ⟨l, e, getElem?_place_of_ne here failed ?_ other⟩
    rintro rfl
    contradiction
  · rintro ⟨l, e, failed⟩
    rw [getElem?_place here] at failed
    split at failed
    next => exact absurd (Option.some.inj failed) (unfailed e)
    next => exact ⟨l, e, failed⟩
  · rw [getElem?_place here] at done
    split at done
    next => exact closes (Option.some.inj done)
    next => exact closing.done l done

theorem Closing.claim (closing : Closing items s) : Closing items (claim s) :=
  ⟨closing.stopped, fun l done => (closing.done l done).imp_right Nat.le_succ_of_le⟩

theorem Step.closing {next : State α β ε} (step : Step items worker lane s next) (closing : Closing items s) :
    Closing items next := by
  cases step with
  | idles => exact closing
  | goesOn looking => exact closing.place looking rfl (by simp) (by simp)
  | leaves looking stopped => exact closing.place looking rfl (by simp) fun _ => .inl stopped
  | claims item claiming => exact closing.claim.place claiming rfl (by simp) (by simp)
  | runsOut claiming out => exact closing.claim.place claiming rfl (by simp) fun _ => .inr (Nat.le_succ_of_le out)
  | answers index item working =>
    exact Closing.place (t := { s with calls := s.calls ++ [⟨lane, index, item, worker item⟩] })
      ⟨closing.stopped, closing.done⟩ working rfl (by simp) (by simp)
  | keeps index result answered =>
    exact Closing.place (t := { s with results := s.results.set index (some result) })
      ⟨closing.stopped, closing.done⟩ answered rfl (by simp) (by simp)
  | fails index e answered =>
    have failed := (getElem?_place (s := { s with stopped := true }) answered (.failed e) lane).trans (if_pos rfl)
    exact ⟨iff_of_true rfl ⟨lane, e, failed⟩, fun _ _ => .inl rfl⟩

theorem advance_invariant (lane : Nat) (invariant : Invariant items worker limit s) :
    Invariant items worker limit (advance items worker lane s) :=
  have step := advance_step items worker lane s
  ⟨step.counted invariant.toCounted, step.truthful invariant.toTruthful, step.closing invariant.toClosing⟩

theorem execute_invariant (schedule : List Nat) (invariant : Invariant items worker limit s) :
    Invariant items worker limit (execute items worker schedule s) := by
  induction schedule generalizing s with
  | nil => exact invariant
  | cons lane schedule ih => exact ih (advance_invariant lane invariant)

theorem Complete.done_or_failed (complete : Complete s) {phase : Phase α β ε} (here : s.lanes[lane]? = some phase) :
    phase = .done ∨ ∃ e, phase = .failed e := by
  have ended := complete phase (List.mem_of_getElem? here)
  cases phase with
  | done => exact .inl rfl
  | failed e => exact .inr ⟨e, rfl⟩
  | looking | claiming | working | answered => simp [Phase.hasEnded] at ended

/-- The failure that is reported is that of the first lane that has one. -/
theorem exists_failed_of_outcome {e : ε} (raised : outcome s = .error e) :
    ∃ lane : Nat, s.lanes[lane]? = some (.failed e) ∧
      ∀ (other : Nat) (e' : ε), s.lanes[other]? = some (.failed e') → lane ≤ other := by
  rw [outcome] at raised
  split at raised
  next found reported =>
    obtain rfl := Except.error.inj raised
    obtain ⟨before, phase, after, split, made, earlier⟩ := List.findSome?_eq_some_iff.mp reported
    have failed : phase = .failed found := by
      cases phase <;> simp_all
    subst failed
    refine ⟨before.length, by simp [split], fun other e' here => Nat.le_of_not_lt fun less => ?_⟩
    rw [split, List.getElem?_append_left less] at here
    exact nomatch earlier _ (List.mem_of_getElem? here)
  next => contradiction

theorem not_failed_of_outcome {slots : List (Option β)} (returned : outcome s = .ok slots) :
    slots = s.results ∧ ∀ (lane : Nat) (e : ε), s.lanes[lane]? ≠ some (.failed e) := by
  rw [outcome] at returned
  split at returned
  next => contradiction
  next silent =>
    refine ⟨(Except.ok.inj returned).symm, fun lane e here => ?_⟩
    exact nomatch List.findSome?_eq_none_iff.mp silent _ (List.mem_of_getElem? here)

/-- A pool whose lanes have ended raises a failure if a call failed, or returns the results of all items. -/
structure Settled (items : List α) (worker : α → Except ε β) (s : State α β ε) : Prop where
  raises_iff : (∃ e, outcome s = .error e) ↔ ∃ call ∈ s.calls, ∃ e, call.answer = .error e
  returns : (∀ call ∈ s.calls, ∃ result, call.answer = .ok result) →
    (s.calls.map (·.index)).Perm (List.range items.length) ∧
      ∃ results : List β, items.map worker = results.map .ok ∧ outcome s = .ok (results.map some)
  /-- No list with an empty slot is returned, nor one without all results. -/
  filled : ∀ slots, outcome s = .ok slots →
    ∃ results : List β, items.map worker = results.map .ok ∧ slots = results.map some

namespace Invariant

variable (invariant : Invariant items worker limit s) (complete : Complete s)
include invariant complete

/-- A failure stands in the lane of its call, a result in the place of its item. -/
theorem landed_of_complete {call : Call α β ε} (member : call ∈ s.calls) :
    (∃ result, call.answer = .ok result ∧ s.results[call.index]? = some (some result)) ∨
      ∃ e, call.answer = .error e ∧ s.lanes[call.lane]? = some (.failed e) := by
  rcases invariant.landed call member with waiting | landed
  · rcases complete.done_or_failed waiting with done | ⟨e, failed⟩ <;> contradiction
  · exact landed

theorem raises_iff : (∃ e, outcome s = .error e) ↔ ∃ call ∈ s.calls, ∃ e, call.answer = .error e := by
  constructor
  · rintro ⟨e, raised⟩
    obtain ⟨lane, here, -⟩ := exists_failed_of_outcome raised
    obtain ⟨call, member, -, answer⟩ := invariant.tells lane _ here
    exact ⟨call, member, e, answer⟩
  · rintro ⟨call, member, e, answer⟩
    cases given : outcome s with
    | error e => exact ⟨e, rfl⟩
    | ok slots =>
      rcases invariant.landed_of_complete complete member with ⟨result, kept, -⟩ | ⟨e, -, here⟩
      · exact nomatch kept.symm.trans answer
      · exact absurd here ((not_failed_of_outcome given).2 _ _)

/-- Without a failure all lanes have gone on until nothing was left to claim. -/
theorem indices_perm (positive : 1 ≤ limit) (fine : ∀ call ∈ s.calls, ∃ result, call.answer = .ok result) :
    (s.calls.map (·.index)).Perm (List.range items.length) := by
  have unfailed (lane : Nat) (e : ε) : s.lanes[lane]? ≠ some (.failed e) := by
    intro here
    obtain ⟨call, member, -, answer⟩ := invariant.tells lane _ here
    obtain ⟨result, kept⟩ := fine call member
    exact nomatch kept.symm.trans answer
  have exhausted : items.length ≤ s.next := by
    by_contra left
    have size : 0 < s.lanes.length := by
      rw [invariant.lanes]
      omega
    have here := List.getElem?_eq_getElem size
    rcases complete.done_or_failed here with done | ⟨e, failed⟩
    · rcases invariant.done 0 (done ▸ here) with stopped | out
      · obtain ⟨lane, e, failed⟩ := invariant.stopped.mp stopped
        exact unfailed lane e failed
      · exact left out
    · exact unfailed 0 e (failed ▸ here)
  have idle : s.lanes.filterMap Phase.index? = [] := by
    refine List.filterMap_eq_nil_iff.mpr fun phase member => ?_
    obtain ⟨lane, here⟩ := List.mem_iff_getElem?.mp member
    rcases complete.done_or_failed here with rfl | ⟨e, rfl⟩ <;> rfl
  simpa [idle, Nat.min_eq_right exhausted] using invariant.begun

/-- Without a failure every item has a result, in its place. -/
theorem exists_results (positive : 1 ≤ limit) (fine : ∀ call ∈ s.calls, ∃ result, call.answer = .ok result) :
    ∃ results : List β, items.map worker = results.map .ok ∧ s.results = results.map some := by
  have each (index : Nat) (item : α) (here : items[index]? = some item) :
      ∃ result, worker item = .ok result ∧ s.results[index]? = some (some result) := by
    have claimed : index ∈ s.calls.map (·.index) :=
      (invariant.indices_perm complete positive fine).mem_iff.mpr
        (List.mem_range.mpr (List.getElem?_eq_some_iff.mp here).1)
    obtain ⟨call, member, rfl⟩ := List.mem_map.mp claimed
    obtain ⟨there, answer⟩ := invariant.calls call member
    obtain rfl := Option.some.inj (there.symm.trans here)
    rcases invariant.landed_of_complete complete member with ⟨result, kept, slot⟩ | ⟨e, failed, -⟩
    · exact ⟨result, answer.symm.trans kept, slot⟩
    · obtain ⟨result, kept⟩ := fine call member
      exact nomatch kept.symm.trans failed
  have full (slot : Option β) (member : slot ∈ s.results) : slot.isSome := by
    obtain ⟨index, inside, rfl⟩ := List.mem_iff_getElem.mp member
    obtain ⟨result, -, here⟩ := each index _ (List.getElem?_eq_getElem (invariant.slots ▸ inside))
    rw [List.getElem?_eq_getElem inside] at here
    rw [Option.some.inj here]
    rfl
  obtain ⟨results, slots⟩ : ∃ results : List β, results.map some = s.results := by
    refine ⟨s.results.filterMap id, ?_⟩
    rw [List.map_filterMap_some_eq_filter_map_isSome, List.map_id, List.filter_eq_self]
    exact full
  refine ⟨results, List.ext_getElem? fun index => ?_, slots.symm⟩
  have place : s.results[index]? = results[index]?.map some := by rw [← slots, List.getElem?_map]
  rw [List.getElem?_map, List.getElem?_map]
  cases here : items[index]? with
  | none =>
    have beyond : s.results[index]? = none :=
      List.getElem?_eq_none_iff.mpr (invariant.slots ▸ List.getElem?_eq_none_iff.mp here)
    rw [beyond, eq_comm, Option.map_eq_none_iff] at place
    rw [place]
    rfl
  | some item =>
    obtain ⟨result, made, slot⟩ := each index item here
    rw [slot, eq_comm, Option.map_eq_some_iff] at place
    obtain ⟨_, found, same⟩ := place
    obtain rfl := Option.some.inj same
    rw [found, Option.map_some, Option.map_some, made]

theorem settled (positive : 1 ≤ limit) : Settled items worker s := by
  have raises_iff := invariant.raises_iff complete
  have returns (fine : ∀ call ∈ s.calls, ∃ result, call.answer = .ok result) :
      ∃ results : List β, items.map worker = results.map .ok ∧ outcome s = .ok (results.map some) := by
    obtain ⟨results, made, kept⟩ := invariant.exists_results complete positive fine
    cases given : outcome s with
    | ok slots => exact ⟨results, made, by rw [(not_failed_of_outcome given).1, kept]⟩
    | error e =>
      obtain ⟨call, member, e, answer⟩ := raises_iff.mp ⟨e, given⟩
      obtain ⟨result, fine⟩ := fine call member
      exact nomatch fine.symm.trans answer
  refine ⟨raises_iff, fun fine => ⟨invariant.indices_perm complete positive fine, returns fine⟩, fun slots given => ?_⟩
  have fine (call : Call α β ε) (member : call ∈ s.calls) : ∃ result, call.answer = .ok result := by
    cases answer : call.answer with
    | ok result => exact ⟨result, rfl⟩
    | error e =>
      obtain ⟨e, raised⟩ := raises_iff.mpr ⟨call, member, e, answer⟩
      exact nomatch given.symm.trans raised
  obtain ⟨results, made, returned⟩ := returns fine
  exact ⟨results, made, Except.ok.inj (given.symm.trans returned)⟩

/-- If every call succeeds, all results are returned. -/
theorem outcome_of_ok (positive : 1 ≤ limit) {f : α → β} (fine : ∀ a ∈ items, worker a = .ok (f a)) :
    outcome s = .ok (items.map fun a => some (f a)) := by
  have answered (call : Call α β ε) (member : call ∈ s.calls) : ∃ result, call.answer = .ok result := by
    obtain ⟨here, answer⟩ := invariant.calls call member
    exact ⟨_, answer.trans (fine call.item (List.mem_of_getElem? here))⟩
  obtain ⟨-, results, made, returned⟩ := (invariant.settled complete positive).returns answered
  have same : results = items.map f := by
    rw [List.map_congr_left fine, ← Function.comp_def, ← List.map_map] at made
    exact List.map_injective_iff.mpr (fun _ _ => Except.ok.inj) made.symm
  rw [returned, same, List.map_map]
  rfl

/-- If a call fails for some item, a failure is raised. -/
theorem exists_error_of_mem (positive : 1 ≤ limit) {a : α} (member : a ∈ items) {e : ε} (fails : worker a = .error e) :
    ∃ e', outcome s = .error e' := by
  cases given : outcome s with
  | error e' => exact ⟨e', rfl⟩
  | ok slots =>
    obtain ⟨results, made, -⟩ := (invariant.settled complete positive).filled slots given
    have raised : Except.error e ∈ results.map .ok := made ▸ List.mem_map.mpr ⟨a, member, fails⟩
    obtain ⟨result, -, same⟩ := List.mem_map.mp raised
    exact nomatch same

end Invariant

structure Safe (items : List α) (worker : α → Except ε β) (limit : Nat) (s : State α β ε) : Prop where
  /-- The indices claimed are the first ones, each once. -/
  claimed : s.claimed = List.range s.claimed.length
  inFlight : s.lanes.countP Phase.isWorking ≤ limit
  /-- The index of a call that has ended or is in flight is claimed, and no item is worked on twice. -/
  once : (s.calls.map (·.index) ++ s.lanes.filterMap Phase.index?).Nodup ∧
    s.calls.map (·.index) ++ s.lanes.filterMap Phase.index? ⊆ s.claimed
  answers : ∀ call ∈ s.calls, items[call.index]? = some call.item ∧ call.answer = worker call.item

theorem Invariant.safe (invariant : Invariant items worker limit s) : Safe items worker limit s where
  claimed := by simp [invariant.claimed]
  inFlight := Nat.le_trans List.countP_le_length (invariant.lanes ▸ Nat.min_le_left ..)
  once := by
    refine ⟨invariant.begun.nodup_iff.mpr List.nodup_range, fun index member => ?_⟩
    rw [invariant.begun.mem_iff, List.mem_range] at member
    rw [invariant.claimed, List.mem_range]
    omega
  answers := invariant.calls

/-- Under every schedule the pool is safe at every moment, it can be completed from there, and what it gives then is a
failure if a call failed, and the results of all items in their order otherwise. -/
theorem execute_safe (positive : 1 ≤ limit) (items : List α) (worker : α → Except ε β) (schedule : List Nat) :
    let s := execute items worker schedule (start limit items.length)
    Safe items worker limit s ∧ (Complete s → Settled items worker s) ∧
      ∃ more, Complete (execute items worker (schedule ++ more) (start limit items.length)) := by
  intro s
  have invariant : Invariant items worker limit s := execute_invariant schedule (start_invariant limit)
  refine ⟨invariant.safe, fun complete => invariant.settled complete positive, ?_⟩
  obtain ⟨more, complete⟩ := exists_completion items worker s
  exact ⟨more, by rwa [execute_append]⟩

def overtaking : List Nat := [0, 1, 0, 1, 1, 1, 1, 1, 1, 0, 0, 1, 0, 1, 0, 1]

def square (n : Nat) : Except String Nat := if n = 9 then .error "too great" else .ok (n * n)

theorem execute_safe_overtaking : 1 ≤ 2 ∧
    let s := execute [3, 1, 2] square overtaking (start 2 3)
    Complete s ∧ s.calls.map (·.item) = [1, 2, 3] ∧ Safe [3, 1, 2] square 2 s ∧ Settled [3, 1, 2] square s ∧
      outcome s = .ok [some 9, some 1, some 4] := by
  refine ⟨by decide, ?_⟩
  intro s
  have ended : s.lanes = [.done, .done] := by rfl
  have complete : Complete s := by
    simp [Complete, ended, Phase.hasEnded]
  obtain ⟨safe, settled, -⟩ := execute_safe (show 1 ≤ 2 by decide) [3, 1, 2] square overtaking
  exact ⟨complete, rfl, safe, settled complete, rfl⟩

/-- Running the pool follows a schedule to its end. -/
theorem exists_schedule_of_run {limit : Int} (positive : 1 ≤ limit) (worker : α → Except ε β) (items : List α) :
    ∃ schedule, let s := execute items worker schedule (start limit.toNat items.length)
      Complete s ∧ run limit worker items = report s := by
  have enough : distance items (start limit.toNat items.length : State α β ε) ≤ steps limit.toNat items.length :=
    Nat.le_of_eq (distance_start _)
  obtain ⟨schedule, same, complete⟩ := finish_complete worker enough
  refine ⟨schedule, same ▸ complete, ?_⟩
  rw [run, if_neg (by omega), ← same]

/-- What is returned is what the worker makes of the items, in their order. -/
theorem map_eq_of_run {limit : Int} {results : List β} (finished : (run limit worker items).result = .ok results) :
    items.map worker = results.map .ok := by
  by_cases positive : 1 ≤ limit
  · obtain ⟨schedule, complete, ran⟩ := exists_schedule_of_run positive worker items
    have invariant : Invariant items worker limit.toNat _ := execute_invariant schedule (start_invariant limit.toNat)
    rw [ran, report] at finished
    dsimp only at finished
    split at finished
    next => contradiction
    next slots returned =>
      obtain ⟨made, same, rfl⟩ := (invariant.settled complete (by omega)).filled slots returned
      obtain rfl : made = results := by simpa [List.filterMap_map] using finished
      exact same
  · rw [run, if_pos (by omega)] at finished
    contradiction

theorem exists_of_mem_run {limit : Int} {results : List β} (finished : (run limit worker items).result = .ok results)
    {b : β} (member : b ∈ results) : ∃ a ∈ items, worker a = .ok b := by
  have made : Except.ok b ∈ items.map worker := by
    rw [map_eq_of_run finished]
    exact List.mem_map_of_mem member
  exact List.mem_map.mp made

end ChangeLens.Pool
