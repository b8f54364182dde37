import ChangeLens.Pool
import Mathlib.Algebra.GroupWithZero.Nat

/-! The steps of a pool. Each step of a lane that has not ended brings the pool nearer to its end, so every schedule
can be completed, and none has more than a bounded number of such steps. -/
namespace ChangeLens.Pool

variable {α β ε : Type} {items : List α} {worker : α → Except ε β} {s : State α β ε} {lane : Nat}

/-- All that one step of a lane can do. -/
inductive Step (items : List α) (worker : α → Except ε β) (lane : Nat) (s : State α β ε) : State α β ε → Prop where
  | idles : (∀ phase, s.lanes[lane]? = some phase → phase.hasEnded) → Step items worker lane s s
  | goesOn : s.lanes[lane]? = some .looking → s.stopped = false → Step items worker lane s (place s lane .claiming)
  | leaves : s.lanes[lane]? = some .looking → s.stopped = true → Step items worker lane s (place s lane .done)
  | claims (item : α) : s.lanes[lane]? = some .claiming → items[s.next]? = some item →
      Step items worker lane s (place (claim s) lane (.working s.next item))
  | runsOut : s.lanes[lane]? = some .claiming → items.length ≤ s.next →
      Step items worker lane s (place (claim s) lane .done)
  | answers (index : Nat) (item : α) : s.lanes[lane]? = some (.working index item) →
      Step items worker lane s (place { s with calls := s.calls ++ [⟨lane, index, item, worker item⟩] } lane
        (.answered index (worker item)))
  | keeps (index : Nat) (result : β) : s.lanes[lane]? = some (.answered index (.ok result)) →
      Step items worker lane s (place { s with results := s.results.set index (some result) } lane .looking)
  | fails (index : Nat) (e : ε) : s.lanes[lane]? = some (.answered index (.error e)) →
      Step items worker lane s (place { s with stopped := true } lane (.failed e))

theorem advance_step (items : List α) (worker : α → Except ε β) (lane : Nat) (s : State α β ε) :
    Step items worker lane s (advance items worker lane s) := by
  rw [advance]
  split
  next here =>
    cases stopped : s.stopped with
    | false => exact .goesOn here stopped
    | true => exact .leaves here stopped
  next here =>
    split
    next item found => exact .claims item here found
    next missing => exact .runsOut here (List.getElem?_eq_none_iff.mp missing)
  next index item here => exact .answers index item here
  next index result here => exact .keeps index result here
  next index e here => exact .fails index e here
  next looking claiming working ok error =>
    refine .idles fun phase here => ?_
    cases phase with
    | done | failed => rfl
    | looking => exact absurd here looking
    | claiming => exact absurd here claiming
    | working index item => exact absurd here (working index item)
    | answered index answer =>
      cases answer with
      | ok result => exact absurd here (ok index result)
      | error e => exact absurd here (error index e)

theorem execute_append (before after : List Nat) (s : State α β ε) :
    execute items worker (before ++ after) s = execute items worker after (execute items worker before s) := by
  induction before generalizing s with
  | nil => rfl
  | cons lane before ih => exact ih _

/-- A lane's phase and the phases around it. -/
theorem exists_around {phase : Phase α β ε} (here : s.lanes[lane]? = some phase) :
    ∃ before after, s.lanes = before ++ phase :: after ∧
      ∀ other, (place s lane other).lanes = before ++ other :: after := by
  obtain ⟨inside, rfl⟩ := List.getElem?_eq_some_iff.mp here
  refine ⟨s.lanes.take lane, s.lanes.drop (lane + 1), by simp, fun other => ?_⟩
  simp [place, List.set_eq_take_append_cons_drop, inside]

theorem getElem?_place {phase : Phase α β ε} (here : s.lanes[lane]? = some phase) (next : Phase α β ε) (other : Nat) :
    (place s lane next).lanes[other]? = if other = lane then some next else s.lanes[other]? := by
  obtain ⟨inside, -⟩ := List.getElem?_eq_some_iff.mp here
  by_cases same : other = lane
  · subst same
    simp [place, inside]
  · simp [place, same, List.getElem?_set_ne (Ne.symm same)]

/-- A lane in another phase than the one that moves stays as it is. -/
theorem getElem?_place_of_ne {phase held : Phase α β ε} {other : Nat} (here : s.lanes[lane]? = some phase)
    (there : s.lanes[other]? = some held) (differs : held ≠ phase) (next : Phase α β ε) :
    (place s lane next).lanes[other]? = some held := by
  rw [getElem?_place here, if_neg, there]
  rintro rfl
  exact differs (Option.some.inj (there.symm.trans here))

def Complete (s : State α β ε) : Prop := ∀ phase ∈ s.lanes, phase.hasEnded

/-- How many more steps a lane takes if there is nothing left to claim. -/
def Phase.distance : Phase α β ε → Nat
  | looking => 2
  | claiming => 1
  | working _ _ => 4
  | answered _ _ => 3
  | done | failed _ => 0

/-- How many more steps a pool takes at most. -/
def distance (items : List α) (s : State α β ε) : Nat :=
  4 * (items.length - s.next) + (s.lanes.map Phase.distance).sum

theorem distance_start (limit : Nat) :
    distance items (start limit items.length : State α β ε) = steps limit items.length := by
  simp [distance, start, steps, Phase.distance, Nat.mul_comm]

theorem distance_place_lt {t : State α β ε} {phase other : Phase α β ε} (here : s.lanes[lane]? = some phase)
    (lanes : t.lanes = s.lanes)
    (less : 4 * (items.length - t.next) + other.distance < 4 * (items.length - s.next) + phase.distance) :
    distance items (place t lane other) < distance items s := by
  obtain ⟨before, after, around, placed⟩ := exists_around (lanes ▸ here)
  simp only [distance, placed, ← lanes, around, List.map_append, List.map_cons, List.sum_append, List.sum_cons]
  change 4 * (items.length - t.next) + _ < _
  omega

/-- A step of a lane that has not ended shortens the way. -/
theorem Step.distance_lt {next : State α β ε} (step : Step items worker lane s next) {phase : Phase α β ε}
    (here : s.lanes[lane]? = some phase) (live : phase.hasEnded = false) : distance items next < distance items s := by
  -- The phase at hand is the one that the step speaks of.
  have same {other : Phase α β ε} (there : s.lanes[lane]? = some other) : phase = other :=
    Option.some.inj (here.symm.trans there)
  cases step with
  | idles ended => simp [ended phase here] at live
  | goesOn looking => exact distance_place_lt here rfl (by simp [same looking, Phase.distance])
  | leaves looking => exact distance_place_lt here rfl (by simp [same looking, Phase.distance])
  | claims item claiming found =>
    have inside : s.next < items.length := (List.getElem?_eq_some_iff.mp found).1
    exact distance_place_lt here rfl (by simp only [same claiming, Phase.distance, claim]; omega)
  | runsOut claiming out =>
    exact distance_place_lt here rfl (by simp only [same claiming, Phase.distance, claim]; omega)
  | answers index item working => exact distance_place_lt here rfl (by simp [same working, Phase.distance])
  | keeps index result answered => exact distance_place_lt here rfl (by simp [same answered, Phase.distance])
  | fails index e answered => exact distance_place_lt here rfl (by simp [same answered, Phase.distance])

theorem complete_of_findIdx?_eq_none (none : s.lanes.findIdx? (!·.hasEnded) = none) : Complete s := by
  intro phase member
  simpa using List.findIdx?_eq_none_iff.mp none phase member

theorem live_of_findIdx?_eq_some (found : s.lanes.findIdx? (!·.hasEnded) = some lane) :
    ∃ phase, s.lanes[lane]? = some phase ∧ phase.hasEnded = false := by
  obtain ⟨inside, live, -⟩ := List.findIdx?_eq_some_iff_getElem.mp found
  exact ⟨s.lanes[lane], List.getElem?_eq_getElem inside, by simpa using live⟩

/-- Finishing is one of the schedules, and it completes them all. -/
theorem finish_complete (worker : α → Except ε β) {fuel : Nat} (enough : distance items s ≤ fuel) :
    ∃ schedule, finish items worker fuel s = execute items worker schedule s ∧
      Complete (finish items worker fuel s) := by
  induction fuel generalizing s with
  | zero =>
    refine ⟨[], rfl, fun phase member => ?_⟩
    obtain ⟨lane, here⟩ := List.mem_iff_getElem?.mp member
    refine eq_true_of_ne_false fun live => ?_
    have shorter := (advance_step items worker lane s).distance_lt here live
    omega
  | succ fuel ih =>
    rw [finish]
    split
    next none => exact ⟨[], rfl, complete_of_findIdx?_eq_none none⟩
    next lane found =>
      obtain ⟨phase, here, live⟩ := live_of_findIdx?_eq_some found
      have shorter := (advance_step items worker lane s).distance_lt here live
      obtain ⟨schedule, same, complete⟩ := ih (s := advance items worker lane s) (by omega)
      exact ⟨lane :: schedule, same, complete⟩

/-- Every schedule can be completed. -/
theorem exists_completion (items : List α) (worker : α → Except ε β) (s : State α β ε) :
    ∃ schedule, Complete (execute items worker schedule s) := by
  obtain ⟨schedule, same, complete⟩ := finish_complete worker (Nat.le_refl (distance items s))
  exact ⟨schedule, same ▸ complete⟩

end ChangeLens.Pool
