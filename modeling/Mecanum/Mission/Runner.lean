import Mecanum.Journal.Note
import Mecanum.Mission.Alignment
import Mecanum.Mission.Call
import Mecanum.Mission.Script

/-!
# The mission runner

The runner holds the state and the plan of a mission. It enters a state, turns the actions of the
state's script into calls, and goes on with each reply until the script is over; then the state's
event leads to the next state. When a watchdog runs out, the chassis is halted and the mission is
back at its beginning, without a plan.

`Runner.enter` and `Runner.reply` are the two ways forward, and `Runner.call?` is the call that the
runner waits for.
-/
namespace Mecanum.Mission

open Journal (Note)

structure Config where
  -- The milliseconds that a guarded call may take; without a number, any time.
  timeout : Option UInt32 := none
  -- What the camera adds to the number of an item for its floor ring.
  ringOffset : UInt8 := 3
  -- The milliseconds between a nudge and the next look.
  alignSettle : UInt32 := 20
  alignment : Alignment := {}
deriving DecidableEq

/-- What the runner is in the middle of. -/
inductive Job where
  | action (action : Action)
  -- A nudge of an alignment is being driven.
  | nudge (approach : Approach) (command : Motion.Command)
  -- The pause behind a nudge.
  | steady (approach : Approach)
  -- A watchdog ran out and the chassis is being halted.
  | abort (timeout : Timeout)
deriving DecidableEq

namespace Job

/-- The call that a job waits for. -/
def call (config : Config) : Job → Call
  | action .awaitStart => .awaitStart
  | action .rezeroHeading => .rezero
  | action .awaitScan => .awaitToken
  | action (.drive command) => .drive command
  | action (.arm task) => .arm task
  | action (.settle ms) => .pause ms
  | action (.awaitTarget color) => .awaitTarget color.id
  | action (.align approach) => .sight approach.ring
  | nudge _ command => .drive command
  | steady _ => .pause config.alignSettle
  | abort _ => .halt

/-- What is reported when an action begins. -/
def openingNotes : Action → List Note
  | .awaitTarget color => [.awaitingItem color]
  | _ => []

end Job

/-- Whether the runner is between states or at work on one. -/
inductive Activity where
  | resting
  -- The job at hand, the actions behind it, and the event that the end of the script means.
  | busy (job : Job) (rest : List Action) (event : Event)
deriving DecidableEq

structure Runner where
  config : Config
  state : State
  plan : Plan
  activity : Activity
deriving DecidableEq

/-- How a state ended: with the next state, or by a watchdog. -/
abbrev Ending := Except Timeout State

/-- One step of the runner. -/
structure Progress where
  runner : Runner
  notes : List Note
  -- The ending of the state, on the step that brought it.
  ending : Option Ending

namespace Runner

def new (config : Config) : Runner := ⟨config, .idle, .default, .resting⟩

def call? (runner : Runner) : Option Call :=
  match runner.activity with
  | .resting => none
  | .busy job _ _ => some (job.call runner.config)

/-- The milliseconds that the present call may take, if it is guarded. -/
def timeLimit? (runner : Runner) : Option UInt32 :=
  match runner.call? with
  | none => none
  | some call => if call.guard?.isSome then runner.config.timeout else none

/-- Gives up whatever call is under way; the state and the plan stay. -/
def abandon (runner : Runner) : Runner := { runner with activity := .resting }

/-- Goes on with the actions that are left. -/
def proceed (runner : Runner) (event : Event) (notes : List Note) : List Action → Progress
  | [] =>
    let next := runner.state.transition event
    ⟨{ runner with state := next, activity := .resting }, notes, some (.ok next)⟩
  | action :: rest =>
    ⟨{ runner with activity := .busy (.action action) rest event },
      notes ++ Job.openingNotes action, none⟩

/-- Turns to another job of the same action. -/
def turnTo (runner : Runner) (job : Job) (rest : List Action) (event : Event)
    (notes : List Note) : Progress :=
  ⟨{ runner with activity := .busy job rest event }, notes, none⟩

def enter (runner : Runner) : Except Fault Progress := do
  let script ← runner.state.script runner.plan runner.config.ringOffset
  return runner.proceed .completed [.stateEntered runner.state] script

/-- A token came in while the plan is awaited. -/
def takeToken (runner : Runner) (token : Scanner.Token) (rest : List Action) (event : Event) :
    Progress :=
  match Plan.parse token with
  | .ok plan => { runner with plan := plan }.proceed .scanned [.planAdopted plan] rest
  | .error error => runner.turnTo (.action .awaitScan) rest event [.tokenRejected error]

/-- The ring of an alignment was seen. -/
def takeSighting (runner : Runner) (approach : Approach) (x y : Int) (rest : List Action)
    (event : Event) : Except Fault Progress := do
  match ← runner.config.alignment.correction x y approach.speed approach.distance with
  | none => return runner.proceed event [.aligned approach.ring x y] rest
  | some command =>
    return runner.turnTo (.nudge approach command) rest event
      [.misaligned approach.ring x y command.mode]

def expire (runner : Runner) (job : Job) (event : Event) : Progress :=
  match (job.call runner.config).guard? with
  | some kind => runner.turnTo (.abort ⟨kind⟩) [] event []
  | none => ⟨runner, [], none⟩

def finish (runner : Runner) (job : Job) (rest : List Action) (event : Event) : Progress :=
  match job with
  | .action .awaitStart => runner.proceed .start [] rest
  | .action (.drive command) => runner.proceed event [.driveDone command.mode] rest
  | .nudge approach command =>
    runner.turnTo (.steady approach) rest event [.driveDone command.mode]
  | .steady approach => runner.turnTo (.action (.align approach)) rest event []
  | .abort timeout =>
    ⟨{ runner with state := .idle, plan := .default, activity := .resting },
      [.missionAborted timeout runner.state], some (.error timeout)⟩
  | .action _ => runner.proceed event [] rest

/-- Goes on with the reply to the present call. A reply of the wrong form changes nothing. -/
def reply (runner : Runner) (reply : Reply) : Except Fault Progress :=
  match runner.activity with
  | .resting => .ok ⟨runner, [], none⟩
  | .busy job rest event =>
    match job, reply with
    | job, .expired => .ok (runner.expire job event)
    | .action .awaitScan, .token token => .ok (runner.takeToken token rest event)
    | .action (.align approach), .position x y => runner.takeSighting approach x y rest event
    | .action .awaitScan, _ => .ok ⟨runner, [], none⟩
    | .action (.align _), _ => .ok ⟨runner, [], none⟩
    | job, .done => .ok (runner.finish job rest event)
    | _, _ => .ok ⟨runner, [], none⟩

end Runner

end Mecanum.Mission
