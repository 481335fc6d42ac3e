import Mathlib.Logic.Relation
import Mecanum.Proofs.Crew.Exclusion
import Mecanum.Robot.Timeline

/-!
# The robot as a crew

The robot on its timeline polls its tasks in a fixed order and lets each go as far as it can. Every
poll consists of moves of the crew, so a robot is always where some schedule leads, and whatever
holds on all schedules holds of the robot.
-/
namespace Mecanum.Robot

open Mission (Errand)
open Motion (WheelDrive)

/-- The call that the mission has begun. A mission that waits for the clock alone is pausing. -/
def MissionTask.pending (task : MissionTask) : Option Crew.Pending :=
  match task.errand, task.wake with
  | some errand, _ => some (.errand errand)
  | none, some _ => some .pause
  | none, none => none

namespace MissionTask

theorem pending_eq_none {task : MissionTask} (free : task.pending = none) :
    task.errand = none ∧ task.wake = none := by
  unfold pending at free
  split at free
  · cases free
  · cases free
  next errand wake => exact ⟨errand, wake⟩

theorem pending_eq_pause {task : MissionTask} (paused : task.pending = some .pause) :
    task.errand = none ∧ ∃ wake, task.wake = some wake := by
  unfold pending at paused
  split at paused
  · cases paused
  next errand wake => exact ⟨errand, _, wake⟩
  · cases paused

theorem pending_eq_errand {task : MissionTask} {errand : Errand}
    (busy : task.pending = some (.errand errand)) : task.errand = some errand := by
  unfold pending at busy
  split at busy
  next held => cases busy; exact held
  · cases busy
  · cases busy

theorem resume_ok {task : MissionTask} {shared : Shared.State} {reply : Mission.Reply}
    {result : Step} (resumed : task.resume shared reply = .ok result) :
    ∃ progress, task.runner.reply reply = .ok progress ∧
      result.task = ⟨progress.runner, none, none⟩ ∧ result.shared = shared := by
  obtain ⟨progress, replied, produced⟩ := bind_eq_ok_iff.mp resumed
  cases produced
  exact ⟨progress, replied, rfl, rfl⟩

end MissionTask

namespace Crew

variable {W : Type} [WheelDrive W]

/-- One move leads from a crew to the next. -/
def Onward (crew next : Crew W) : Prop := ∃ move events, crew.step move = .ok (next, events)

/-- Some moves lead from a crew to another. -/
abbrev Leads : Crew W → Crew W → Prop := Relation.ReflTransGen Onward

/-- What some moves lead to, a schedule leads to. -/
theorem Leads.schedule {crew next : Crew W} (leads : Leads crew next) :
    ∃ schedule, (crew.run schedule).1 = next := by
  -- From the front, where a schedule grows.
  induction leads using Relation.ReflTransGen.head_induction_on with
  | refl => exact ⟨[], rfl⟩
  | head onward _ ih =>
    obtain ⟨move, events, moved⟩ := onward
    obtain ⟨schedule, rest⟩ := ih
    exact ⟨move :: schedule, by simp only [run, moved, rest]⟩

/-- A start signal is a press and a release, in the order that leaves the button as it was. -/
theorem leads_press (crew : Crew W) :
    Leads crew { crew with shared := crew.shared.signalStart } := by
  obtain ⟨runner, pending, motion, arm, serving, provider, recorder, framer, ⟨⟨down⟩⟩, shared⟩ :=
    crew
  cases down with
  | true => exact .tail (.single ⟨.button .high, _, rfl⟩) ⟨.button .low, _, rfl⟩
  | false => exact .tail (.single ⟨.button .low, _, rfl⟩) ⟨.button .high, _, rfl⟩

/-! ### The mission -/

omit [WheelDrive W] in
theorem Begun.operates {crew : Crew W} {opening : List Event} {errand : Errand}
    (begun : Begun crew opening errand) : crew.stepMission = crew.operate opening errand := by
  cases begun with
  | first free waiting made => simp only [stepMission, free, waiting, made]
  | again pending => simp only [stepMission, pending]

/-- The errand goes on, or its call ends with a reply. -/
def LeadsOn (crew : Crew W) : Option Mission.Reply × Errand × Shared.State → Prop
  | (none, errand, shared) =>
    Leads crew { crew with pending := some (.errand errand), shared := shared }
  | (some reply, _, shared) =>
    ∀ progress, crew.runner.reply reply = .ok progress →
      Leads crew { crew with runner := progress.runner, pending := none, shared := shared }

theorem LeadsOn.head {crew : Crew W} {pending : Option Pending} {shared : Shared.State}
    {result : Option Mission.Reply × Errand × Shared.State}
    (first : Onward crew { crew with pending := pending, shared := shared })
    (rest : LeadsOn { crew with pending := pending, shared := shared } result) :
    LeadsOn crew result := by
  obtain ⟨reply, errand, behind⟩ := result
  cases reply with
  | none => exact Relation.ReflTransGen.head first rest
  | some reply =>
    intro progress resumed
    exact Relation.ReflTransGen.head first (rest progress resumed)

/-- One operation is one move of the mission. -/
theorem Begun.leadsOn_step {crew : Crew W} {opening : List Event} {errand : Errand} {count : Nat}
    (begun : Begun crew opening errand)
    (rest : ∀ next shared, errand.step crew.shared = .moved next shared →
      LeadsOn { crew with pending := some (.errand next), shared := shared }
        (next.advance shared count)) :
    crew.LeadsOn (errand.advance crew.shared (count + 1)) := by
  have move : crew.step .mission = crew.operate opening errand := begun.operates
  rw [operate] at move
  rw [Errand.advance]
  rcases stepped : errand.step crew.shared with ⟨next, shared⟩ | ⟨next, shared⟩ | ⟨reply, shared⟩
  -- The operation blocks, gets on, or ends the call.
  · rw [stepped] at move
    exact .single ⟨_, _, move⟩
  · rw [stepped] at move
    exact (rest next shared stepped).head ⟨_, _, move⟩
  · rw [stepped] at move
    intro progress resumed
    simp only [resume, resumed] at move
    exact .single ⟨_, _, move⟩

/-- The operations that an errand makes without a break are as many moves of the mission. -/
theorem Begun.leadsOn {crew : Crew W} {opening : List Event} {errand : Errand}
    (begun : Begun crew opening errand) (count : Nat) :
    crew.LeadsOn (errand.advance crew.shared (count + 1)) := by
  -- The operations left are counted; whoever has made one goes on with the next errand.
  induction count generalizing crew opening errand with
  | zero => exact begun.leadsOn_step fun next shared _ => .refl
  | succ count ih => exact begun.leadsOn_step fun next shared _ => ih (.again rfl)

/-- A crew whose mission is where a task has got to. -/
def withMission (crew : Crew W) (task : MissionTask) (shared : Shared.State) : Crew W :=
  { crew with runner := task.runner, pending := task.pending, shared := shared }

section Mission

variable {crew : Crew W} {history : List Event} {task : MissionTask} {now : Nat}
  {result : MissionTask.Step}

theorem leads_resume {shared : Shared.State} {reply : Mission.Reply}
    (runner : crew.runner = task.runner)
    (leads : ∀ progress, crew.runner.reply reply = .ok progress →
      Leads crew { crew with runner := progress.runner, pending := none, shared := shared })
    (resumed : task.resume shared reply = .ok result) :
    Leads crew (crew.withMission result.task result.shared) := by
  obtain ⟨progress, replied, behind, left⟩ := MissionTask.resume_ok resumed
  rw [← runner] at replied
  have reached := leads progress replied
  rwa [withMission, behind, left]

theorem wake_onward (pending : crew.pending = some .pause) {progress : Mission.Progress}
    (resumed : crew.runner.reply .done = .ok progress) :
    Onward crew { crew with runner := progress.runner, pending := none } :=
  ⟨.mission, _, by simp only [step, stepMission, pending, resume, resumed]; rfl⟩

theorem expire_onward {current : Pending} {limit : UInt32} (pending : crew.pending = some current)
    (guarded : crew.runner.timeLimit? = some limit) {progress : Mission.Progress}
    (resumed : crew.runner.reply .expired = .ok progress) :
    Onward crew { crew with runner := progress.runner, pending := none } :=
  ⟨.watchdog, _, by simp only [step, stepWatchdog, pending, guarded, resume, resumed]; rfl⟩

/-- The watchdog of the robot expires where a watchdog of the crew may. -/
theorem leads_watch {shared : Shared.State} {errand : Errand}
    (runner : crew.runner = task.runner)
    (leads : Leads crew { crew with pending := some (.errand errand), shared := shared })
    (watched : task.watch now shared errand = .ok result) :
    Leads crew (crew.withMission result.task result.shared) := by
  unfold MissionTask.watch at watched
  split at watched
  · cases watched
    rw [withMission, ← runner]
    exact leads
  next limit guarded =>
    simp only at watched
    split at watched
    · refine leads_resume runner (fun progress replied => leads.tail ?_) watched
      exact expire_onward rfl (runner ▸ guarded) replied
    · cases watched
      rw [withMission, ← runner]
      exact leads

/-- A pause of the robot ends where one of the crew may. -/
theorem leads_pause {ms : UInt32} (underWay : UnderWay crew history)
    (runner : crew.runner = task.runner) (pending : crew.pending = task.pending)
    (waiting : crew.runner.call? = some (.pause ms))
    (paused : task.pause now crew.shared ms = .ok result) :
    Leads crew (crew.withMission result.task result.shared) := by
  -- The pause is begun if it is not yet, and then it goes on or ends.
  have begun : Leads crew { crew with pending := some .pause } ∧ task.errand = none := by
    cases current : crew.pending with
    | none =>
      have first : Onward crew { crew with pending := some .pause } :=
        ⟨.mission, [.called (.pause ms)],
          by simp only [step, stepMission, current, waiting, Errand.ofCall?]⟩
      exact ⟨.single first, (MissionTask.pending_eq_none (pending ▸ current)).1⟩
    | some busy =>
      cases busy with
      | errand errand =>
        have other := (underWay.errand errand current).1
        rw [waiting] at other
        cases errand <;> cases other
      | pause =>
        have same : { crew with pending := some .pause } = crew := by rw [← current]
        rw [same]
        exact ⟨.refl, (MissionTask.pending_eq_pause (pending ▸ current)).1⟩
  obtain ⟨leads, free⟩ := begun
  unfold MissionTask.pause at paused
  simp only at paused
  split at paused
  · exact leads_resume runner (fun progress replied => leads.tail (wake_onward rfl replied)) paused
  · cases paused
    rw [withMission, MissionTask.pending, free, ← runner]
    exact leads

omit [WheelDrive W] in
/-- A task that goes on with an errand does so where the crew does. -/
theorem begun_of_task {call : Mission.Call} {errand : Errand} (underWay : UnderWay crew history)
    (pending : crew.pending = task.pending) (waiting : crew.runner.call? = some call)
    (busy : ∀ ms, call ≠ .pause ms) (present : (task.errand <|> Errand.ofCall? call) = some errand) :
    ∃ opening, Begun crew opening errand := by
  cases current : crew.pending with
  | none =>
    rw [(MissionTask.pending_eq_none (pending ▸ current)).1] at present
    exact ⟨_, .first current waiting present⟩
  | some held =>
    cases held with
    | errand held =>
      rw [MissionTask.pending_eq_errand (pending ▸ current)] at present
      cases present
      exact ⟨_, .again current⟩
    | pause =>
      obtain ⟨ms, other, _⟩ := underWay.pause current
      rw [waiting] at other
      exact absurd (Option.some.inj other) (busy ms)

/-- One step of the mission on the timeline is some moves of it, and perhaps its watchdog. -/
theorem leads_mission (underWay : UnderWay crew history) (runner : crew.runner = task.runner)
    (pending : crew.pending = task.pending) (stepped : task.step now crew.shared = .ok result) :
    Leads crew (crew.withMission result.task result.shared) := by
  unfold MissionTask.step at stepped
  rw [← runner] at stepped
  split at stepped
  next resting =>
    obtain ⟨progress, entered, produced⟩ := bind_eq_ok_iff.mp stepped
    cases produced
    -- A runner that waits for no call has none under way, so the move enters the state.
    have free := underWay.free_of_resting resting
    have move : crew.step .mission = crew.enter := by simp only [step, stepMission, free, resting]
    rw [enter, entered] at move
    have same : crew.withMission ⟨progress.runner, none, none⟩ crew.shared =
        { crew with runner := progress.runner } := by
      rw [withMission, MissionTask.pending, ← free]
    rw [same]
    exact .single ⟨_, _, move⟩
  next call waiting =>
    split at stepped
    next ms => exact leads_pause underWay runner pending waiting stepped
    next busy unmade =>
      -- Only a pause is no errand.
      rw [Option.orElse_eq_orElse, Option.orElse_eq_or, Option.or_eq_none_iff] at unmade
      obtain ⟨_, pause⟩ := Errand.ofCall?_eq_none unmade.2
      exact absurd pause (busy _)
    next errand busy present =>
      obtain ⟨opening, begun⟩ := begun_of_task underWay pending waiting busy present
      -- The poll makes the operations at a stretch, and then the call has ended or its watchdog is
      -- looked at.
      have leads : crew.LeadsOn (errand.poll crew.shared) := begun.leadsOn errand.stepsLeft
      split at stepped
      next polled =>
        rw [polled] at leads
        exact leads_resume runner leads stepped
      next polled =>
        rw [polled] at leads
        exact leads_watch runner leads stepped

end Mission

end Crew

/-! ### Bytes -/

/-- The crew of a robot whose arm serves a request. -/
def crew (robot : Robot) (serving : Option Arm.Task) : Crew Body where
  runner := robot.mission.runner
  pending := robot.mission.pending
  motion := robot.motion
  arm := robot.arm
  serving := serving
  provider := robot.provider
  recorder := robot.recorder
  framer := robot.framer
  button := robot.start.button
  shared := robot.shared

/-- A robot with other bytes at a port. -/
def refill (robot : Robot) (port : Crew.Port) (queue : Shared.ByteQueue) : Robot :=
  { robot with
    shared := match port with
      | .inertial => { robot.shared with inertialBytes := queue }
      | .camera => { robot.shared with cameraBytes := queue }
      | .scanner => { robot.shared with scannerBytes := queue } }

section Ports

variable {serving : Option Arm.Task} {take : Robot → UInt8 → Robot}

/-- A task that empties its queue at once does what it would do byte by byte. -/
theorem leads_drain (port : Crew.Port)
    (one : ∀ (robot : Robot) (queue : Shared.ByteQueue) {byte rest},
      queue.pop? = some (byte, rest) →
        (((robot.refill port queue).crew serving).intake port).1 =
          ((take (robot.refill port .empty) byte).refill port rest).crew serving)
    (emptied : ∀ (robot : Robot) byte,
      (take (robot.refill port .empty) byte).refill port .empty =
        take (robot.refill port .empty) byte)
    (robot : Robot) (queue : Shared.ByteQueue) :
    Crew.Leads ((robot.refill port queue).crew serving)
      ((queue.toList.foldl take (robot.refill port .empty)).crew serving) := by
  -- On the bytes that are queued. The robot takes one from an emptied queue, the crew pops it from a
  -- full one, and behind it both have the same bytes left.
  induction held : queue.toList generalizing robot queue with
  | nil =>
    have same : queue = .empty := by
      obtain ⟨bytes, bounded⟩ := queue
      cases held
      rfl
    rw [same]
    exact .refl
  | cons byte bytes ih =>
    cases taken : queue.pop? with
    | none =>
      rw [Shared.Queue.pop?_eq_none_iff, held] at taken
      cases taken
    | some popped =>
      obtain ⟨first, rest⟩ := popped
      have split := Shared.Queue.toList_pop? taken
      rw [held] at split
      obtain ⟨rfl, rfl⟩ := List.cons.inj split
      have move : Crew.Onward ((robot.refill port queue).crew serving)
          (((take (robot.refill port .empty) byte).refill port rest).crew serving) :=
        ⟨.intake port, _, congrArg Except.ok (Prod.ext (one robot queue taken) rfl)⟩
      have later := ih (take (robot.refill port .empty) byte) rest rfl
      rw [emptied] at later
      exact .head move later

theorem arrive_refill (robot : Robot) (port : Crew.Port) (queue : Shared.ByteQueue)
    (byte : UInt8) :
    Crew.arrive (robot.refill port queue).shared byte port =
      (robot.refill port ((queue.push? byte).getD queue)).shared := by
  cases port <;> rfl

/-- Bytes that come together come one by one. -/
theorem leads_arrivals (port : Crew.Port) (robot : Robot) (queue : Shared.ByteQueue)
    (bytes : List UInt8) :
    Crew.Leads ((robot.refill port queue).crew serving)
      ((robot.refill port (queue.pushAll bytes).1).crew serving) := by
  induction bytes generalizing queue with
  | nil => exact .refl
  | cons byte rest ih =>
    have move : Crew.Onward ((robot.refill port queue).crew serving)
        ((robot.refill port ((queue.push? byte).getD queue)).crew serving) := by
      refine ⟨.arrival port byte, [], ?_⟩
      rw [Crew.step, crew, arrive_refill]
      cases port <;> rfl
    have same : (queue.pushAll (byte :: rest)).1 =
        (((queue.push? byte).getD queue).pushAll rest).1 := by
      rw [Shared.Queue.pushAll]
      cases queue.push? byte <;> rfl
    rw [same]
    exact .head move (ih _)

end Ports

/-- The bytes drained to the heading provider are so many moves of the intake. -/
theorem leads_heading (robot : Robot) (serving : Option Arm.Task) :
    Crew.Leads (robot.crew serving) (robot.pollHeading.2.crew serving) := by
  unfold pollHeading
  split
  · exact .refl
  · refine leads_drain .inertial ?_ ?_ robot robot.shared.inertialBytes
    · intro robot queue byte rest taken
      simp only [Crew.intake, Crew.takeInertial, refill, crew, taken, report]
    · intro robot byte
      rfl

/-- The bytes drained to the camera recorder are so many moves of the intake. -/
theorem leads_vision (robot : Robot) (serving : Option Arm.Task) :
    Crew.Leads (robot.crew serving) (robot.pollVision.2.crew serving) := by
  unfold pollVision
  split
  · exact .refl
  · refine leads_drain .camera ?_ ?_ robot robot.shared.cameraBytes
    · intro robot queue byte rest taken
      simp only [Crew.intake, Crew.takeCamera, refill, crew, taken]
      cases pushed : robot.recorder.push byte with
      | mk record recorder => cases record <;> rfl
    · intro robot byte
      simp only [refill]
      cases pushed : robot.recorder.push byte with
      | mk record recorder => cases record <;> rfl

/-- The bytes drained to the scanner intake are so many moves of the intake. -/
theorem leads_scanner (robot : Robot) (serving : Option Arm.Task) :
    Crew.Leads (robot.crew serving) (robot.pollScanner.2.crew serving) := by
  unfold pollScanner
  split
  · exact .refl
  · refine leads_drain .scanner ?_ ?_ robot robot.shared.scannerBytes
    · intro robot queue byte rest taken
      simp only [Crew.intake, Crew.takeScanner, refill, crew, taken, report]
    · intro robot byte
      rfl

/-! ### Polls -/

/-- A control period of the robot is one of the crew, with the wheels left as they roll. -/
theorem leads_motion {robot next : Robot} {moved : Bool}
    (polled : robot.pollMotion = .ok (moved, next)) (serving : Option Arm.Task) :
    Crew.Leads (robot.crew serving) (next.crew serving) := by
  unfold pollMotion at polled
  split at polled
  · obtain ⟨step, period, produced⟩ := bind_eq_ok_iff.mp polled
    obtain ⟨begun, stepped, published⟩ := bind_eq_ok_iff.mp period
    cases published
    cases produced
    have first : Crew.Onward (robot.crew serving)
        { robot.crew serving with motion := begun.loop, shared := begun.shared } := by
      have move : (robot.crew serving).step .motion = (robot.crew serving).stepMotion := rfl
      rw [Crew.stepMotion, crew, stepped] at move
      exact ⟨_, _, move⟩
    -- A body that knows its heading publishes it, which is a move of its own.
    cases known : begun.loop.wheels.snapshot? with
    | none =>
      simp only [publishBody, known]
      exact .single first
    | some snapshot =>
      simp only [publishBody, known]
      exact .tail (.single first) ⟨.heading snapshot, [], rfl⟩
  · cases polled
    exact .refl

theorem leads_start (robot : Robot) (serving : Option Arm.Task) :
    Crew.Leads (robot.crew serving) (robot.pollStart.2.crew serving) := by
  unfold pollStart
  split
  · exact .single ⟨.button robot.pin, _, rfl⟩
  · exact .refl

/-- The steps of the arm are moves, each with the body as it is then. -/
theorem leads_arm {robot next : Robot} {moved gotOn : Bool} {count : Nat}
    (polled : robot.pollArm moved count = .ok (gotOn, next)) (serving : Option Arm.Task) :
    ∃ later, Crew.Leads (robot.crew serving) (next.crew later) := by
  induction count generalizing robot moved serving with
  | zero =>
    cases polled
    exact ⟨serving, .refl⟩
  | succ count ih =>
    obtain ⟨step, stepped, rest⟩ := bind_eq_ok_iff.mp polled
    -- One step of the arm, after which the body is where the step has left it.
    have leads : Crew.Leads (robot.crew serving)
        (({ robot with
            arm := step.task
            shared := step.shared
            motion := { robot.motion with wheels := step.body }
            pulses := step.pulses }.report step.notes).crew
          ((robot.crew serving).serve step.task).1) := by
      have move : (robot.crew serving).step (.arm robot.now robot.motion.wheels robot.pulses) =
          (robot.crew serving).stepArm robot.now robot.motion.wheels robot.pulses := rfl
      rw [Crew.stepArm] at move
      change _ = robot.arm.step robot.now robot.shared robot.motion.wheels robot.pulses >>= _ at move
      rw [stepped] at move
      exact .tail (.single ⟨_, _, move⟩) ⟨.wheels step.body, [], rfl⟩
    split at rest
    · obtain ⟨later, onward⟩ := ih rest _
      exact ⟨later, leads.trans onward⟩
    · cases rest
      exact ⟨_, leads⟩

/-! ### Robots at work -/

/-- The parameters of the crew of a robot. The heading provider has its defaults. -/
def Setup.crew (setup : Setup) : Crew.Setup where
  mission := setup.mission
  motion := setup.motion
  arm := setup.arm

/-- Some schedule leads to where the robot is. -/
def Scheduled (setup : Setup) (robot : Robot) : Prop :=
  ∃ serving, Crew.Leads (Crew.new setup.crew setup.body) (robot.crew serving)

section Scheduled

variable {setup : Setup} {robot next : Robot}

theorem Scheduled.reached (scheduled : Scheduled setup robot) :
    ∃ schedule serving, Crew.reached setup.crew setup.body schedule = robot.crew serving := by
  obtain ⟨serving, leads⟩ := scheduled
  obtain ⟨schedule, same⟩ := leads.schedule
  exact ⟨schedule, serving, same⟩

theorem Scheduled.onward (scheduled : Scheduled setup robot)
    (leads : ∀ serving, Crew.Leads (robot.crew serving) (next.crew serving)) :
    Scheduled setup next := by
  obtain ⟨serving, before⟩ := scheduled
  exact ⟨serving, before.trans (leads serving)⟩

theorem scheduled_assemble (setup : Setup) : Scheduled setup (assemble setup) := ⟨none, .refl⟩

/-- The steps of the mission stay on a schedule of the crew. -/
theorem Scheduled.mission {moved gotOn : Bool} {count : Nat} (scheduled : Scheduled setup robot)
    (polled : robot.pollMission moved count = .ok (gotOn, next)) : Scheduled setup next := by
  induction count generalizing robot moved with
  | zero =>
    cases polled
    exact scheduled
  | succ count ih =>
    obtain ⟨step, stepped, rest⟩ := bind_eq_ok_iff.mp polled
    have behind : Scheduled setup
        ({ robot with mission := step.task, shared := step.shared }.report step.notes) := by
      obtain ⟨serving, before⟩ := scheduled
      obtain ⟨schedule, same⟩ := before.schedule
      -- The crew has come here on a schedule, so the call under way fits its runner.
      have underWay := Crew.underWay_reached setup.crew setup.body schedule
      rw [Crew.reached, same] at underWay
      exact ⟨serving, before.trans (Crew.leads_mission underWay rfl rfl stepped)⟩
    split at rest
    · exact ih behind rest
    · cases rest
      exact behind

/-- A round of polls stays on a schedule of the crew. -/
theorem Scheduled.round {moved : Bool} (scheduled : Scheduled setup robot)
    (polled : robot.round = .ok (moved, next)) : Scheduled setup next := by
  -- One lemma for each task, in the order of the round.
  have intakes := ((scheduled.onward (leads_heading robot)).onward
    (leads_vision robot.pollHeading.2)).onward (leads_scanner robot.pollHeading.2.pollVision.2)
  obtain ⟨⟨_, rolled⟩, motion, polled⟩ := bind_eq_ok_iff.mp polled
  obtain ⟨⟨_, called⟩, mission, polled⟩ := bind_eq_ok_iff.mp polled
  obtain ⟨⟨_, served⟩, arm, polled⟩ := bind_eq_ok_iff.mp polled
  cases polled
  obtain ⟨serving, before⟩ := (intakes.onward (leads_motion motion)).mission mission
  obtain ⟨later, leads⟩ := leads_arm arm serving
  exact Scheduled.onward ⟨later, before.trans leads⟩ (leads_start served)

/-- A robot that settles stays on a schedule of the crew. -/
theorem Scheduled.settleWithin {rounds : Nat} (scheduled : Scheduled setup robot)
    (settled : robot.settleWithin rounds = .ok next) : Scheduled setup next := by
  induction rounds generalizing robot with
  | zero =>
    cases settled
    exact scheduled
  | succ rounds ih =>
    obtain ⟨⟨moved, behind⟩, polled, rest⟩ := bind_eq_ok_iff.mp settled
    have later := scheduled.round polled
    simp only at rest
    split at rest
    · exact ih later rest
    · cases rest
      exact later

theorem Scheduled.settle (scheduled : Scheduled setup robot)
    (settled : robot.settle = .ok next) : Scheduled setup next :=
  scheduled.settleWithin settled

/-! ### What happens to robots -/

/-- Whatever happens to the robot, short of a command from outside, is on some schedule. -/
theorem Scheduled.meet {incident : Incident} (scheduled : Scheduled setup robot)
    (apart : ∀ command, incident ≠ .command command) (met : robot.meet incident = .ok next) :
    Scheduled setup next := by
  refine Scheduled.settle ?_ met
  cases incident with
  | inertial bytes =>
    exact scheduled.onward fun _ => leads_arrivals .inertial robot robot.shared.inertialBytes bytes
  | camera bytes =>
    exact scheduled.onward fun _ => leads_arrivals .camera robot robot.shared.cameraBytes bytes
  | scanner bytes =>
    exact scheduled.onward fun _ => leads_arrivals .scanner robot robot.shared.scannerBytes bytes
  | pin reading => exact scheduled
  | startSignal => exact scheduled.onward fun serving => (robot.crew serving).leads_press
  | command command => exact absurd rfl (apart command)

theorem leads_exposeCamera (robot : Robot) (serving : Option Arm.Task) :
    Crew.Leads (robot.crew serving) (robot.exposeCamera.crew serving) := by
  unfold exposeCamera
  split
  · exact .refl
  · split
    · exact leads_arrivals .camera robot robot.shared.cameraBytes _
    · exact .refl

theorem Scheduled.goTo {time : Nat} (scheduled : Scheduled setup robot)
    (gone : robot.goTo time = .ok next) : Scheduled setup next := by
  refine Scheduled.settle (Scheduled.onward (scheduled.onward fun serving => ?_)
    (leads_exposeCamera _)) gone
  exact .single ⟨.wheels _, [], rfl⟩

/-- As time passes, the robot stays on a schedule of the crew. -/
theorem Scheduled.advanceWithin {last count : Nat} (scheduled : Scheduled setup robot)
    (advanced : robot.advanceWithin last count = .ok next) : Scheduled setup next := by
  induction count generalizing robot with
  | zero =>
    cases advanced
    exact scheduled
  | succ count ih =>
    obtain ⟨behind, gone, rest⟩ := bind_eq_ok_iff.mp advanced
    have later := scheduled.goTo gone
    split at rest
    · cases rest
      exact later
    · exact ih later rest

end Scheduled

/-- The robots that there can be, as long as nobody but the mission commands the chassis. -/
inductive Lived (setup : Setup) : Robot → Prop where
  | booted {robot : Robot} (booted : boot setup = .ok robot) : Lived setup robot
  | met {robot next : Robot} {incident : Incident} (lived : Lived setup robot)
      (apart : ∀ command, incident ≠ .command command) (met : robot.meet incident = .ok next) :
      Lived setup next
  | advanced {robot next : Robot} {ms : Nat} (lived : Lived setup robot)
      (advanced : robot.advance ms = .ok next) : Lived setup next
  | drained {robot : Robot} (lived : Lived setup robot) : Lived setup robot.drainJournal.2

/-- Every robot is where some schedule of its tasks leads. -/
theorem Lived.scheduled {setup : Setup} {robot : Robot} (lived : Lived setup robot) :
    Scheduled setup robot := by
  induction lived with
  | booted booted => exact (scheduled_assemble setup).settle booted
  | met _ apart met ih => exact ih.meet apart met
  | advanced _ advanced ih => exact ih.advanceWithin advanced
  | drained _ ih => exact ih

/-- The chassis of a robot is at rest unless its mission drives it or is about to halt it. -/
theorem Lived.atRest {setup : Setup} {robot : Robot} (lived : Lived setup robot)
    (idle : ∀ command, robot.mission.runner.call? ≠ some (.drive command))
    (unhalted : robot.mission.runner.call? ≠ some .halt) : robot.motion.AtRest robot.shared := by
  obtain ⟨schedule, serving, same⟩ := lived.scheduled.reached
  have underWay := Crew.underWay_reached setup.crew setup.body schedule
  have stance := Crew.stance_reached setup.crew setup.body schedule
  rw [same] at underWay stance
  refine stance.rest (fun command pending => ?_) fun _ => unhalted
  exact idle command (underWay.errand _ pending).1

/-- Without a watchdog, the chassis of a robot is at rest while its arm performs a request. -/
theorem Lived.atRest_of_requested {setup : Setup} {robot : Robot} (lived : Lived setup robot)
    (unlimited : setup.mission.timeout = none) (requested : robot.arm.requested = true) :
    robot.motion.AtRest robot.shared := by
  obtain ⟨schedule, serving, same⟩ := lived.scheduled.reached
  have ledger := Crew.ledger_reached setup.crew setup.body schedule
  have serves := ledger.serving
  rw [same] at serves
  obtain ⟨task, busy⟩ := Option.isSome_iff_exists.mp (serves.trans requested)
  have unlimited : setup.crew.mission.timeout = none := unlimited
  have rest := Crew.rest_of_serving unlimited setup.body schedule (same ▸ busy)
  rwa [same] at rest

end Mecanum.Robot
