import Mathlib.Algebra.Field.Rat
import Mathlib.Logic.Function.Iterate
import Mathlib.Tactic.NormNum.Basic
import Mecanum.Proofs.Mission.Expansion

/-!
# Material flow

The calls of a mission move items: from the plate into the carrier, from there to the floor and
back, and at last to the far end of the floor, where the second batch goes on top of the first. The
calls are read here over a world of items. An arm task that would need an item where there is none,
or a free place where there is none, has no meaning in it, so a run that can be read to its end
moves every item properly. The claw has to be empty whenever the robot drives.
-/
namespace Mecanum

/-- The exact value of a number; what is not finite counts as zero. -/
def Binary32.exact (x : Float32) : ℚ :=
  match unpack x with
  | .finite .positive mantissa exponent _ => mantissa * 2 ^ exponent
  | .finite .negative mantissa exponent _ => -(mantissa * 2 ^ exponent)
  | _ => 0

namespace Mission

open Script (Slot)

/-! ### The world of items -/

inductive Stop where
  | start
  | scanner
  | plate
  | floor
  | floorEnd
deriving DecidableEq

/-- An item, by the run and the batch for which it is taken from the plate. -/
structure Item where
  run : Nat
  batch : Batch
deriving DecidableEq

/-- An item that was put down. -/
structure Placement where
  stop : Stop
  -- How many millimetres ahead of the place of arrival.
  offset : ℚ
  item : Item
deriving DecidableEq

structure Cargo where
  claw : Option Item
  carrier : Trio (Option Item)
  -- The items on the floor, the last one put down first.
  floor : List Placement
  stop : Stop
  -- How many millimetres the robot has driven ahead since it arrived.
  offset : ℚ
  -- What the plate offers.
  supply : Item
deriving DecidableEq

namespace Script.Slot

variable {α : Type}

/-- The slot of a number. -/
def ofNumber? (number : UInt8) : Option Slot :=
  if number = 1 then some first
  else if number = 2 then some second
  else if number = 3 then some third
  else none

theorem ofNumber?_carrier (slot : Slot) : ofNumber? slot.carrier = some slot := by
  cases slot <;> rfl

def of : Slot → Trio α → α
  | first, trio => trio.first
  | second, trio => trio.second
  | third, trio => trio.third

def put (value : α) : Slot → Trio α → Trio α
  | first, trio => { trio with first := value }
  | second, trio => { trio with second := value }
  | third, trio => { trio with third := value }

end Script.Slot

/-- The way ahead that a command drives. -/
def travel (command : Motion.Command) : ℚ :=
  match command.mode with
  | .forward => Binary32.exact command.target
  | .backward => -Binary32.exact command.target
  | _ => 0

namespace Cargo

def initial : Cargo := ⟨none, ⟨none, none, none⟩, [], .start, 0, ⟨0, .first⟩⟩

def isHere (cargo : Cargo) (placement : Placement) : Bool :=
  placement.stop = cargo.stop ∧ placement.offset = cargo.offset

/-- The item on top where the robot stands. -/
def top? (cargo : Cargo) : Option Item := (cargo.floor.find? cargo.isHere).map Placement.item

def putDown (cargo : Cargo) (item : Item) : Cargo :=
  { cargo with claw := none, floor := ⟨cargo.stop, cargo.offset, item⟩ :: cargo.floor }

/-- What an arm task does, unless it must not be done here. -/
def perform (cargo : Cargo) : Arm.Task → Option Cargo
  | .ready | .stow | .reset => if cargo.claw = none then some cargo else none
  | .pickFromRaw =>
    if cargo.claw = none ∧ cargo.stop = .plate then
      some { cargo with claw := some cargo.supply }
    else none
  | .placeToCar number =>
    match cargo.claw, Slot.ofNumber? number with
    | some item, some slot =>
      if slot.of cargo.carrier = none then
        some { cargo with claw := none, carrier := slot.put (some item) cargo.carrier }
      else none
    | _, _ => none
  | .pickFromCar number =>
    match cargo.claw, Slot.ofNumber? number with
    | none, some slot =>
      (slot.of cargo.carrier).map fun item =>
        { cargo with claw := some item, carrier := slot.put none cargo.carrier }
    | _, _ => none
  | .placeToFloor => cargo.claw.map cargo.putDown
  | .pickFromFloor =>
    match cargo.claw, cargo.top? with
    | none, some item =>
      some { cargo with claw := some item, floor := cargo.floor.eraseP cargo.isHere }
    | _, _ => none
  -- Only an item of the first batch of the same run, at the far end, may lie below.
  | .placeToStack =>
    match cargo.claw, cargo.top? with
    | some item, some below =>
      if cargo.stop = .floorEnd ∧ below = ⟨cargo.supply.run, .first⟩ then
        some (cargo.putDown item)
      else none
    | _, _ => none

/-- A drive that is no nudge. -/
def drive (cargo : Cargo) (command : Motion.Command) : Option Cargo :=
  if cargo.claw = none then some { cargo with offset := cargo.offset + travel command } else none

/-- What calls do. A drive directly behind a look is a nudge and counts for nothing. -/
def follow (cargo : Cargo) : List Call → Option Cargo
  | [] => some cargo
  | .sight _ :: .drive _ :: rest => cargo.follow rest
  | .drive command :: rest => (cargo.drive command).bind (·.follow rest)
  | .arm task :: rest => (cargo.perform task).bind (·.follow rest)
  | _ :: rest => cargo.follow rest

/-- Where the robot stands at the end of a state. The plate is visited for one batch at a time, and
the last state begins another run. -/
def arrive (cargo : Cargo) : State → Cargo
  | .scanCode => { cargo with stop := .scanner, offset := 0 }
  | .goPlate1 =>
    { cargo with stop := .plate, offset := 0, supply := { cargo.supply with batch := .first } }
  | .goPlate2 =>
    { cargo with stop := .plate, offset := 0, supply := { cargo.supply with batch := .second } }
  | .goFloor1 | .goFloor2 => { cargo with stop := .floor, offset := 0 }
  | .goFloorEnd1 | .goFloorEnd2 => { cargo with stop := .floorEnd, offset := 0 }
  | .goHome => { cargo with stop := .start, offset := 0 }
  | .done => { cargo with supply := ⟨cargo.supply.run + 1, .first⟩ }
  | _ => cargo

/-- What the calls of rehearsals do, state by state. -/
def live {W : Type} (cargo : Cargo) (runner : Runner) : List (Rehearsal W) → Option Cargo
  | [] => some cargo
  | rehearsal :: later =>
    (cargo.follow rehearsal.trace).bind fun next =>
      (next.arrive runner.state).live rehearsal.runner later

/-! ### Scripts over the world of items -/

def act (cargo : Cargo) : Action → Option Cargo
  | .drive command => cargo.drive command
  | .arm task => cargo.perform task
  | _ => some cargo

def play (cargo : Cargo) (script : Script) : Option Cargo := script.foldlM act cargo

theorem play_cons (cargo : Cargo) (action : Action) (rest : Script) :
    cargo.play (action :: rest) = (cargo.act action).bind (·.play rest) :=
  List.foldlM_cons

end Cargo

/-! ### Calls and scripts do the same -/

/-- Whether a script begins with a drive. -/
def Script.drives : Script → Bool
  | .drive _ :: _ => true
  | _ => false

/-- Whether no drive comes directly behind an alignment. -/
def Script.steady : Script → Bool
  | .align _ :: rest => !drives rest && steady rest
  | _ :: rest => steady rest
  | [] => true

theorem Script.steady_tail {action : Action} {rest : Script}
    (steady : Script.steady (action :: rest) = true) : rest.steady = true := by
  cases action with
  | align approach => exact (Bool.and_eq_true_iff.mp steady).2
  | _ => exact steady

/-- In no script does a drive come directly behind an alignment. -/
theorem State.steady_script {state : State} {plan : Plan} {offset : UInt8} {script : Script}
    (written : state.script plan offset = .ok script) : script.steady = true := by
  cases state with
  | unloadFloor1 | unloadFloorEnd1 | unloadFloor2 | stackFloorEnd2 =>
    obtain ⟨rings, _, made⟩ := bind_eq_ok_iff.mp written
    cases made
    rfl
  | _ =>
    cases written
    rfl

namespace Cargo

variable {config : Config} {plan : Plan} {script rest : Script} {exchanges later : List Exchange}

/-- A look with no drive behind it does nothing. -/
theorem follow_sight (expands : rest.Expands config plan later) (still : rest.drives = false)
    (cargo : Cargo) (ring : UInt8) :
    cargo.follow (.sight ring :: calls later) = cargo.follow (calls later) := by
  cases expands with
  | @single action call rest later one onward =>
    cases action with
    | drive command => cases still
    | awaitScan | align => cases one
    | _ =>
      cases one
      rfl
  | _ => rfl

theorem follow_single {action : Action} {call : Call} (one : action.single? = some call)
    (cargo : Cargo) (rest : List Call) :
    cargo.follow (call :: rest) = (cargo.act action).bind (·.follow rest) := by
  cases action <;> cases one <;> rfl

/-- Following the calls of a conversation does to the cargo what its script does. -/
theorem follow_calls (expands : script.Expands config plan exchanges)
    (steady : script.steady = true) (cargo : Cargo) :
    cargo.follow (calls exchanges) = cargo.play script := by
  induction expands generalizing cargo with
  | nil => rfl
  | @single action call rest later one onward ih =>
    rw [play_cons, ← funext (ih (Script.steady_tail steady))]
    exact follow_single one cargo (calls later)
  | rejected _ _ ih => exact ih steady cargo
  | accepted _ _ ih => exact ih steady cargo
  | nudged _ _ _ ih => exact ih steady cargo
  -- The look that ends an alignment must not take a scripted drive for a nudge.
  | aligned _ onward ih =>
    obtain ⟨still, steady⟩ := Bool.and_eq_true_iff.mp steady
    rw [Bool.not_eq_true'] at still
    exact (follow_sight onward still cargo _).trans (ih steady cargo)

/-! ### What the parts of scripts do -/

/-- How far a slot is ahead of the one before it. -/
def shift : Slot → ℚ
  | .first => 0
  | .second => 150
  | .third => -300

theorem travel_ahead (speed : Float32) :
    travel (.drive .forward speed Script.slotAhead) = 150 := by
  have value : Binary32.exact Script.slotAhead.abs = 150 := by decide +kernel
  exact value

theorem travel_behind (speed : Float32) :
    travel (.drive .backward speed Script.slotBehind) = -300 := by
  have value : -Binary32.exact Script.slotBehind.abs = -300 := by decide +kernel
  exact value

section Parts

variable (carrier : Trio (Option Item)) (floor : List Placement) (stop : Stop) (offset : ℚ)
  (supply : Item) (slot : Slot) (moves : Script.SlotMoves)

theorem play_arm (cargo : Cargo) (task : Arm.Task) (rest : Script) :
    cargo.play (.arm task :: rest) = (cargo.perform task).bind (·.play rest) :=
  cargo.play_cons (.arm task) rest

theorem play_ready (settle : UInt32) (rest : Script) :
    (Cargo.mk none carrier floor stop offset supply).play (Script.ready settle ++ rest) =
      (Cargo.mk none carrier floor stop offset supply).play rest :=
  rfl

/-- On the way to a slot the robot moves ahead by the shift of the slot. -/
theorem play_toSlot (rest : Script) :
    (Cargo.mk none carrier floor stop offset supply).play (Script.toSlot moves slot ++ rest) =
      (Cargo.mk none carrier floor stop (offset + shift slot) supply).play rest := by
  cases slot with
  | first =>
    rw [shift, add_zero]
    rfl
  | second =>
    rw [shift, ← travel_ahead moves.ahead]
    rfl
  | third =>
    rw [shift, ← travel_behind moves.behind]
    rfl

/-- A pick takes an item from the plate into the slot. -/
theorem play_pickItem (color : Color) (empty : slot.of carrier = none) (rest : Script) :
    (Cargo.mk none carrier floor .plate offset supply).play (Script.pickItem color slot ++ rest) =
      (Cargo.mk none (slot.put (some supply) carrier) floor .plate offset supply).play rest := by
  have placed : perform ⟨some supply, carrier, floor, .plate, offset, supply⟩
      (.placeToCar slot.carrier) =
        some ⟨none, slot.put (some supply) carrier, floor, .plate, offset, supply⟩ := by
    simp only [perform, Slot.ofNumber?_carrier, empty, ↓reduceIte]
  rw [Script.pickItem, List.append_assoc, play_ready]
  exact (play_arm _ _ _).trans (by rw [placed, Option.bind_some]; rfl)

/-- An unloading takes the item out of its slot and puts it down. -/
theorem play_unloadItem {item : Item} (loaded : slot.of carrier = some item)
    (nudge : Script.Nudge) (place : Arm.Task) (ring : UInt8) (rest : Script) :
    (Cargo.mk none carrier floor stop offset supply).play
        (Script.unloadItem moves nudge place ring slot ++ rest) =
      (perform ⟨some item, slot.put none carrier, floor, stop, offset + shift slot, supply⟩
        place).bind (·.play rest) := by
  have picked (offset : ℚ) : perform ⟨none, carrier, floor, stop, offset, supply⟩
      (.pickFromCar slot.carrier) =
        some ⟨some item, slot.put none carrier, floor, stop, offset, supply⟩ := by
    simp only [perform, Slot.ofNumber?_carrier, loaded, Option.map_some]
  rw [Script.unloadItem, List.append_assoc, List.append_assoc, play_toSlot, play_ready]
  exact (play_arm _ _ _).trans (by rw [picked, Option.bind_some]; rfl)

theorem play_reloadItem (rest : Script) :
    (Cargo.mk none carrier floor stop offset supply).play
        (Script.reloadItem moves slot ++ rest) =
      ((perform ⟨none, carrier, floor, stop, offset + shift slot, supply⟩ .pickFromFloor).bind
        (·.perform (.placeToCar slot.carrier))).bind (·.play rest) := by
  rw [Script.reloadItem, List.append_assoc, List.append_assoc, play_toSlot, play_ready,
    Option.bind_assoc]
  exact play_arm _ _ _

/-- Three items of a kind side by side. -/
def row (stop : Stop) (item : Item) : List Placement :=
  [⟨stop, -150, item⟩, ⟨stop, 150, item⟩, ⟨stop, 0, item⟩]

theorem shifts : (0 : ℚ) + shift .first = 0 ∧ (0 : ℚ) + shift .second = 150 ∧
    (150 : ℚ) + shift .third = -150 := by
  norm_num [shift]

/-- Parts of a script side by side, with nothing behind them. -/
theorem append_three (first second third : Script) :
    first ++ second ++ third = first ++ (second ++ (third ++ [])) := by
  rw [List.append_assoc, List.append_nil]

theorem play_pickBatch (colors : Trio Color) :
    (Cargo.mk none ⟨none, none, none⟩ floor .plate offset supply).play (Script.pickBatch colors) =
      some ⟨none, ⟨some supply, some supply, some supply⟩, floor, .plate, offset, supply⟩ := by
  rw [Script.pickBatch, append_three, play_pickItem _ _ _ _ _ _ rfl, play_pickItem _ _ _ _ _ _ rfl,
    play_pickItem _ _ _ _ _ _ rfl]
  rfl

theorem perform_placeToFloor (item : Item) :
    perform ⟨some item, carrier, floor, stop, offset, supply⟩ .placeToFloor =
      some ⟨none, carrier, ⟨stop, offset, item⟩ :: floor, stop, offset, supply⟩ :=
  rfl

/-- Unloading empties the carrier and leaves a row of three items. -/
theorem play_unload (item : Item) (rings : Trio UInt8) (nudge : Script.Nudge) :
    (Cargo.mk none ⟨some item, some item, some item⟩ floor stop 0 supply).play
        (Script.unload rings moves nudge .placeToFloor) =
      some ⟨none, ⟨none, none, none⟩, row stop item ++ floor, stop, -150, supply⟩ := by
  obtain ⟨first, second, third⟩ := shifts
  rw [Script.unload, append_three,
    play_unloadItem _ _ _ _ _ _ _ rfl, perform_placeToFloor, Option.bind_some, first,
    play_unloadItem _ _ _ _ _ _ _ rfl, perform_placeToFloor, Option.bind_some, second,
    play_unloadItem _ _ _ _ _ _ _ rfl, perform_placeToFloor, Option.bind_some, third]
  rfl

theorem perform_placeToStack {run : Nat} (item : Item)
    (below : (Cargo.mk (some item) carrier floor .floorEnd offset ⟨run, .second⟩).top? =
      some ⟨run, .first⟩) :
    perform ⟨some item, carrier, floor, .floorEnd, offset, ⟨run, .second⟩⟩ .placeToStack =
      some ⟨none, carrier, ⟨.floorEnd, offset, item⟩ :: floor, .floorEnd, offset,
        ⟨run, .second⟩⟩ := by
  simp only [perform, below]
  rfl

/-- Stacking puts each item of the carrier on one of the row. -/
theorem play_stack (run : Nat) (rings : Trio UInt8) (nudge : Script.Nudge) (item : Item) :
    (Cargo.mk none ⟨some item, some item, some item⟩
        (row .floorEnd ⟨run, .first⟩ ++ floor) .floorEnd 0 ⟨run, .second⟩).play
          (Script.unload rings moves nudge .placeToStack) =
      some ⟨none, ⟨none, none, none⟩,
        row .floorEnd item ++ (row .floorEnd ⟨run, .first⟩ ++ floor), .floorEnd, -150,
        ⟨run, .second⟩⟩ := by
  obtain ⟨first, second, third⟩ := shifts
  rw [Script.unload, append_three,
    play_unloadItem _ _ _ _ _ _ _ rfl, first, perform_placeToStack _ _ _ _ rfl, Option.bind_some,
    play_unloadItem _ _ _ _ _ _ _ rfl, second, perform_placeToStack _ _ _ _ rfl, Option.bind_some,
    play_unloadItem _ _ _ _ _ _ _ rfl, third, perform_placeToStack _ _ _ _ rfl, Option.bind_some]
  rfl

/-- Reloading takes the three items of the row back onto the carrier. -/
theorem play_reload (item : Item) :
    (Cargo.mk none ⟨none, none, none⟩ (row .floor item ++ floor) .floor (-150) supply).play
        (Script.reload moves) =
      some ⟨none, ⟨some item, some item, some item⟩, floor, .floor, -150, supply⟩ := by
  obtain ⟨first, second, third⟩ := shifts
  -- Unloading ended at the third slot, so the way back to the first comes before the items.
  have back : (-150 : ℚ) + travel (.drive .forward 50 Script.slotAhead) = 0 := by
    rw [travel_ahead]
    norm_num
  have begun (rest : Script) :
      (Cargo.mk none ⟨none, none, none⟩ (row .floor item ++ floor) .floor (-150) supply).play
          (Script.drive .forward 50 Script.slotAhead :: rest) =
        (Cargo.mk none ⟨none, none, none⟩ (row .floor item ++ floor) .floor 0 supply).play
          rest := by
    rw [← back]
    rfl
  rw [Script.reload, begun, append_three, play_reloadItem, first]
  change (Cargo.mk none ⟨some item, none, none⟩
    (⟨.floor, -150, item⟩ :: ⟨.floor, 150, item⟩ :: floor) .floor 0 supply).play _ = _
  rw [play_reloadItem, second]
  change (Cargo.mk none ⟨some item, some item, none⟩
    (⟨.floor, -150, item⟩ :: floor) .floor 150 supply).play _ = _
  rw [play_reloadItem, third]
  rfl

end Parts

/-! ### Whole runs -/

/-- What lies at the far end of the floor after some runs: the items of each second batch on top of
those of the first. -/
def piles : Nat → List Placement
  | 0 => []
  | run + 1 => row .floorEnd ⟨run, .second⟩ ++ (row .floorEnd ⟨run, .first⟩ ++ piles run)

/-- The carrier with an item in each slot, or in none. -/
def filled (item : Option Item) : Trio (Option Item) := ⟨item, item, item⟩

/-- The cargo at the beginning of a state, after some runs. -/
def along (run : Nat) (state : State) : Cargo :=
  let first : Item := ⟨run, .first⟩
  let second : Item := ⟨run, .second⟩
  let laid := row .floorEnd first ++ piles run
  match state with
  | .idle | .scanCode => ⟨none, filled none, piles run, .start, 0, first⟩
  | .goPlate1 => ⟨none, filled none, piles run, .scanner, 0, first⟩
  | .pickPlate1 => ⟨none, filled none, piles run, .plate, 0, first⟩
  | .goFloor1 => ⟨none, filled first, piles run, .plate, 0, first⟩
  | .unloadFloor1 => ⟨none, filled first, piles run, .floor, 0, first⟩
  | .reloadFloor1 => ⟨none, filled none, row .floor first ++ piles run, .floor, -150, first⟩
  | .goFloorEnd1 => ⟨none, filled first, piles run, .floor, -150, first⟩
  | .unloadFloorEnd1 => ⟨none, filled first, piles run, .floorEnd, 0, first⟩
  | .goPlate2 => ⟨none, filled none, laid, .floorEnd, -150, first⟩
  | .pickPlate2 => ⟨none, filled none, laid, .plate, 0, second⟩
  | .goFloor2 => ⟨none, filled second, laid, .plate, 0, second⟩
  | .unloadFloor2 => ⟨none, filled second, laid, .floor, 0, second⟩
  | .reloadFloor2 => ⟨none, filled none, row .floor second ++ laid, .floor, -150, second⟩
  | .goFloorEnd2 => ⟨none, filled second, laid, .floor, -150, second⟩
  | .stackFloorEnd2 => ⟨none, filled second, laid, .floorEnd, 0, second⟩
  | .goHome => ⟨none, filled none, piles (run + 1), .floorEnd, -150, second⟩
  | .done => ⟨none, filled none, piles (run + 1), .start, 0, second⟩

/-- The number of runs that are over once a state is. -/
def runsBehind (run : Nat) (state : State) : Nat := if state = .done then run + 1 else run

/-- Each state leads from its own cargo to that of its successor. -/
theorem play_script {state : State} {plan : Plan} {offset : UInt8} {script : Script}
    (written : state.script plan offset = .ok script) (run : Nat) :
    ∃ next, (along run state).play script = some next ∧
      next.arrive state = along (runsBehind run state) state.successor := by
  cases state with
  | pickPlate1 | pickPlate2 =>
    cases written
    exact ⟨_, play_pickBatch _ _ _ _, rfl⟩
  | unloadFloor1 | unloadFloorEnd1 | unloadFloor2 =>
    obtain ⟨rings, _, made⟩ := bind_eq_ok_iff.mp written
    cases made
    exact ⟨_, play_unload _ _ _ _ _ _ _, rfl⟩
  | stackFloorEnd2 =>
    obtain ⟨rings, _, made⟩ := bind_eq_ok_iff.mp written
    cases made
    exact ⟨_, play_stack _ _ _ _ _ _, rfl⟩
  | reloadFloor1 | reloadFloor2 =>
    cases written
    exact ⟨_, play_reload _ _ _ _, rfl⟩
  | _ =>
    cases written
    exact ⟨_, rfl, rfl⟩

variable {W : Type} [Responder W]

/-- A state that ends well does what its script does. -/
theorem follow_trace {runner : Runner} {world : W} {budget : Nat} {rehearsal : Rehearsal W}
    {ended : State} (rehearsed : runner.rehearse world budget = .ok rehearsal)
    (well : rehearsal.ending = some (.ok ended)) (run : Nat) :
    rehearsal.runner.state = runner.state.successor ∧
      ∃ next, (along run runner.state).follow rehearsal.trace = some next ∧
        next.arrive runner.state =
          along (runsBehind run runner.state) rehearsal.runner.state := by
  obtain ⟨script, exchanges, last, written, carried, same, trace⟩ :=
    Runner.carriesOut_of_rehearse rehearsed well
  have successor : rehearsal.runner.state = runner.state.successor :=
    same ▸ carried.state_eq_successor written
  obtain ⟨next, played, arrived⟩ := play_script written run
  rw [successor, trace, follow_calls carried.expands (State.steady_script written)]
  exact ⟨rfl, next, played, arrived⟩

/-- The place after a state, as the number of runs behind and the state ahead. -/
def onward (place : Nat × State) : Nat × State :=
  (runsBehind place.1 place.2, place.2.successor)

/-- Rehearsals that end well take the cargo along from state to state. -/
theorem live_take {runner : Runner} {world : W} {budget states : Nat}
    {rehearsals : List (Rehearsal W)}
    (rehearsed : runner.rehearseEach world budget states = .ok rehearsals)
    (well : ∀ rehearsal ∈ rehearsals, ∃ next, rehearsal.ending = some (.ok next)) (run : Nat)
    {count : Nat} (within : count ≤ states) :
    let place := onward^[count] (run, runner.state)
    (along run runner.state).live runner (rehearsals.take count) =
      some (along place.1 place.2) := by
  induction count generalizing runner world states rehearsals run with
  | zero => rfl
  | succ count ih =>
    obtain ⟨states, rfl⟩ : ∃ fewer, states = fewer + 1 := ⟨states - 1, by omega⟩
    obtain ⟨first, entered, ⟨hung, rfl⟩ | ⟨ending, later, _, more, rfl⟩⟩ :=
      Runner.rehearseEach_succ rehearsed
    · -- A call that hangs would leave its state without an ending.
      obtain ⟨next, ended⟩ := well first List.mem_cons_self
      cases hung.symm.trans ended
    · obtain ⟨ended, here⟩ := well first List.mem_cons_self
      obtain ⟨successor, next, followed, arrived⟩ := follow_trace entered here run
      have rest := ih more (fun rehearsal member => well rehearsal (List.mem_cons_of_mem _ member))
        (runsBehind run runner.state) (by omega)
      rw [List.take_succ_cons, live, followed, Option.bind_some, arrived, rest,
        Function.iterate_succ_apply, onward, successor]

/-- Eighteen states on, a run is over. -/
theorem onward_runs (runs : Nat) : onward^[18 * runs] (0, .idle) = (runs, .idle) := by
  induction runs with
  | zero => rfl
  | succ runs ih =>
    -- A lap counts one run, whatever the number of runs before it is.
    have later : Function.Semiconj (Prod.map (runs + ·) id) onward onward := fun place => by
      simp only [onward, runsBehind, Prod.map, id]
      split <;> rfl
    have lap : onward^[18] (0, .idle) = (1, .idle) := by decide +kernel
    have counted := later.iterate_right 18 (0, .idle)
    rw [lap] at counted
    rw [Nat.mul_succ, Nat.add_comm, Function.iterate_add_apply, ih]
    exact counted.symm

end Cargo

/-- Material flows consistently over any number of complete runs: no call of them asks for an item
where there is none, or for a place that is taken, and no drive carries an item in the claw. Behind
each run, the claw, the carrier and the near part of the floor are empty, and the items of the
second batch lie on those of the first at the far end. -/
theorem material_flows {W : Type} [Responder W] {config : Config} {plan : Plan} {world : W}
    {budget runs : Nat} {rehearsals : List (Rehearsal W)}
    (rehearsed : (Runner.mk config .idle plan .resting).rehearseEach world budget (18 * runs) =
      .ok rehearsals)
    (well : ∀ rehearsal ∈ rehearsals, ∃ next, rehearsal.ending = some (.ok next)) :
    ∀ complete ≤ runs, ∃ cargo,
      Cargo.initial.live (Runner.mk config .idle plan .resting)
          (rehearsals.take (18 * complete)) = some cargo ∧
        cargo.claw = none ∧ cargo.carrier = ⟨none, none, none⟩ ∧
        cargo.floor = Cargo.piles complete := by
  intro complete within
  have lived := Cargo.live_take rehearsed well 0 (Nat.mul_le_mul_left 18 within)
  rw [Cargo.onward_runs] at lived
  exact ⟨Cargo.along complete .idle, lived, rfl, rfl, rfl⟩

/-- A run with a token that is no code and two nudges. -/
theorem material_flows_oneRun :
    ∃ rehearsals, (Runner.new {}).rehearseEach World.oneRun 100 18 = .ok rehearsals ∧
      ∃ cargo, Cargo.initial.live (Runner.new {}) (rehearsals.take 18) = some cargo ∧
        cargo.claw = none ∧ cargo.carrier = ⟨none, none, none⟩ ∧
        cargo.floor = Cargo.piles 1 := by
  have endings : ((Runner.new {}).rehearseEach World.oneRun 100 (18 * 1)).map
      (List.map Rehearsal.ending) =
        .ok (State.all.map fun state => some (.ok state.successor)) := by
    decide +kernel
  obtain ⟨rehearsals, rehearsed, same⟩ := map_eq_ok_iff.mp endings
  have well : ∀ rehearsal ∈ rehearsals, ∃ next, rehearsal.ending = some (.ok next) := by
    intro rehearsal member
    have ended : rehearsal.ending ∈ rehearsals.map Rehearsal.ending := List.mem_map_of_mem member
    rw [same] at ended
    obtain ⟨state, _, ending⟩ := List.mem_map.mp ended
    exact ⟨state.successor, ending.symm⟩
  exact ⟨rehearsals, rehearsed, material_flows rehearsed well 1 (Nat.le_refl 1)⟩

end Mission

end Mecanum
