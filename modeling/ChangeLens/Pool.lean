/-! A pool of lanes that work through a list of items together. A lane looks whether a call has failed, claims the
next item, works on it, and then keeps the result in the item's place or stops all further claims. Which lane moves
next is up to a schedule. To run the pool the lanes move one after the other, each until it has ended. -/
namespace ChangeLens.Pool

inductive Phase (α β ε : Type) where
  | looking
  | claiming
  | working (index : Nat) (item : α)
  /-- The call has ended, but its answer is not kept yet, and no other lane knows of a failure. -/
  | answered (index : Nat) (answer : Except ε β)
  | done
  | failed (error : ε)

def Phase.isWorking : Phase α β ε → Bool
  | working _ _ => true
  | _ => false

def Phase.hasEnded : Phase α β ε → Bool
  | done | failed _ => true
  | _ => false

/-- A call that has ended, and the lane that made it. -/
structure Call (α β ε : Type) where
  lane : Nat
  index : Nat
  item : α
  answer : Except ε β

structure State (α β ε : Type) where
  /-- The index that is claimed next. It may run past the end, where nothing is left to work on. -/
  next : Nat := 0
  stopped : Bool := false
  lanes : List (Phase α β ε)
  results : List (Option β)
  /-- The indices claimed so far, in order. -/
  claimed : List Nat := []
  /-- The calls that have ended, in order. -/
  calls : List (Call α β ε) := []

/-- As many lanes as may run at once, and no more than there are items. -/
def start (limit items : Nat) : State α β ε where
  lanes := List.replicate (min limit items) .looking
  results := List.replicate items none

def place (s : State α β ε) (lane : Nat) (phase : Phase α β ε) : State α β ε :=
  { s with lanes := s.lanes.set lane phase }

def claim (s : State α β ε) : State α β ε := { s with next := s.next + 1, claimed := s.claimed ++ [s.next] }

/-- Moves one lane by one step. A lane that has ended stays where it is. -/
def advance (items : List α) (worker : α → Except ε β) (lane : Nat) (s : State α β ε) : State α β ε :=
  match s.lanes[lane]? with
  | some .looking => place s lane (if s.stopped then .done else .claiming)
  | some .claiming =>
    match items[s.next]? with
    | some item => place (claim s) lane (.working s.next item)
    | none => place (claim s) lane .done
  | some (.working index item) =>
    place { s with calls := s.calls ++ [⟨lane, index, item, worker item⟩] } lane (.answered index (worker item))
  | some (.answered index (.ok result)) =>
    place { s with results := s.results.set index (some result) } lane .looking
  | some (.answered _ (.error e)) => place { s with stopped := true } lane (.failed e)
  | _ => s

def execute (items : List α) (worker : α → Except ε β) : List Nat → State α β ε → State α β ε
  | [], s => s
  | lane :: schedule, s => execute items worker schedule (advance items worker lane s)

/-- The failure that is reported: that of the first lane that has one. -/
def failure? (s : State α β ε) : Option ε :=
  s.lanes.findSome? fun | .failed e => some e | _ => none

def outcome (s : State α β ε) : Except ε (List (Option β)) :=
  match failure? s with
  | some e => .error e
  | none => .ok s.results

/-- How many steps a pool takes at most: four for each item, and two for each lane that finds nothing more. -/
def steps (limit items : Nat) : Nat := 4 * items + 2 * min limit items

/-- Moves the first lane that has not ended, over and over. The first lane leaves nothing to do for the others. -/
def finish (items : List α) (worker : α → Except ε β) : (fuel : Nat) → State α β ε → State α β ε
  | 0, s => s
  | fuel + 1, s =>
    match s.lanes.findIdx? (!·.hasEnded) with
    | none => s
    | some lane => finish items worker fuel (advance items worker lane s)

inductive Failure (ε : Type) where
  | limit (given : Int)
  | worker (error : ε)

def limitMessage (given : Int) : String := "limit must be >= 1, got " ++ toString given

/-- A finished run: the results in the order of the items, or why there are none, and the items that were
worked on, in the order in which the calls ended. -/
structure Run (α β ε : Type) where
  result : Except (Failure ε) (List β)
  calls : List α

def report (s : State α β ε) : Run α β ε where
  result := match outcome s with
    | .error e => .error (.worker e)
    | .ok slots => .ok (slots.filterMap id)
  calls := s.calls.map (·.item)

def run (limit : Int) (worker : α → Except ε β) (items : List α) : Run α β ε :=
  if limit < 1 then ⟨.error (.limit limit), []⟩
  else report (finish items worker (steps limit.toNat items.length) (start limit.toNat items.length))

end ChangeLens.Pool
