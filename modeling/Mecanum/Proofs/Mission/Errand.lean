import Mecanum.Mission.Errand

/-!
# Operations of errands

What one operation of an errand can do, told once: each way it can go, with the condition under
which it goes so and the shared state that it leaves. An errand carries out one call from its first
operation to its last. Only a drive and a halt touch what the chassis looks at, and only a request
that gets on touches the queue of the arm.
-/
namespace Mecanum.Mission.Errand

/-- The ways an operation can go. -/
inductive Stepped (shared : Shared.State) : Errand → Step → Prop where
  | startCleared : Stepped shared (start false) (.moved (start true) shared.clearStart)
  | startAwaited (unraised : shared.missionStart.isRaised = false) :
      Stepped shared (start true) (.blocked (start true) shared)
  | started (raised : shared.missionStart.isRaised = true) :
      Stepped shared (start true) (.over .done shared.clearStart)
  | tokenAwaited : Stepped shared token (.blocked token shared)
  | tokenTaken {oldest : Scanner.Token} {tokens : Shared.TokenQueue} :
      Stepped shared token (.over (.token oldest) { shared with tokens := tokens })
  | driveCleared {command : Motion.Command} :
      Stepped shared (drive command .clear) (.moved (drive command .request) shared.clearMove)
  | drivePosted {command : Motion.Command} :
      Stepped shared (drive command .request)
        (.moved (drive command .await) (shared.postCommand command))
  | driveAwaited {command : Motion.Command} (unraised : shared.moveFinished.isRaised = false) :
      Stepped shared (drive command .await) (.blocked (drive command .await) shared)
  | driven {command : Motion.Command} (raised : shared.moveFinished.isRaised = true) :
      Stepped shared (drive command .await) (.over .done shared.clearMove)
  | armCleared {task : Arm.Task} :
      Stepped shared (arm task .clear) (.moved (arm task .request) shared.clearArm)
  | armRequested {task : Arm.Task} {tasks : Shared.TaskQueue}
      (pushed : shared.tasks.push? task = some tasks) :
      Stepped shared (arm task .request) (.moved (arm task .await) { shared with tasks := tasks })
  | armRefused {task : Arm.Task} (refused : shared.tasks.push? task = none) :
      Stepped shared (arm task .request) (.blocked (arm task .request) shared)
  | armAwaited {task : Arm.Task} (unraised : shared.armFinished.isRaised = false) :
      Stepped shared (arm task .await) (.blocked (arm task .await) shared)
  | served {task : Arm.Task} (raised : shared.armFinished.isRaised = true) :
      Stepped shared (arm task .await) (.over .done shared.clearArm)
  | targetAwaited {id : UInt8} {wait next : Shared.Board.Wait} {board : Shared.Board} :
      Stepped shared (target id wait) (.blocked (target id next) { shared with board := board })
  | targetSeen {id : UInt8} {wait : Shared.Board.Wait} {board : Shared.Board} :
      Stepped shared (target id wait) (.over .done { shared with board := board })
  | sightAwaited {id : UInt8} {wait next : Shared.Board.Wait} {board : Shared.Board} :
      Stepped shared (sight id wait) (.blocked (sight id next) { shared with board := board })
  | sighted {id : UInt8} {wait : Shared.Board.Wait} {x y : Int} {board : Shared.Board} :
      Stepped shared (sight id wait) (.over (.position x y) { shared with board := board })
  | rezeroed : Stepped shared rezero (.over .done shared.requestRezero)
  | halted : Stepped shared halt (.over .done (shared.postCommand .stop))

/-- Every operation goes in one of the ways told. -/
theorem step_stepped (errand : Errand) (shared : Shared.State) :
    Stepped shared errand (errand.step shared) := by
  cases errand with
  | start cleared =>
    cases cleared with
    | false => exact .startCleared
    | true =>
      simp only [step, stepAwait, Shared.State.takeStart]
      cases raised : shared.missionStart.isRaised with
      | false => exact .startAwaited raised
      | true => exact .started raised
  | token =>
    rw [step]
    split
    · exact .tokenTaken
    · exact .tokenAwaited
  | drive command stage =>
    cases stage with
    | clear => exact .driveCleared
    | request => exact .drivePosted
    | await =>
      simp only [step, stepAwait, Shared.State.takeMove]
      cases raised : shared.moveFinished.isRaised with
      | false => exact .driveAwaited raised
      | true => exact .driven raised
  | arm task stage =>
    cases stage with
    | clear => exact .armCleared
    | request =>
      rw [step]
      split
      next pushed => exact .armRequested pushed
      next refused => exact .armRefused refused
    | await =>
      simp only [step, stepAwait, Shared.State.takeArm]
      cases raised : shared.armFinished.isRaised with
      | false => exact .armAwaited raised
      | true => exact .served raised
  | target id wait =>
    rw [step, stepBoard]
    split
    · exact .targetSeen
    · exact .targetAwaited
  | sight id wait =>
    rw [step, stepBoard]
    split
    · exact .sighted
    · exact .sightAwaited
  | rezero => exact .rezeroed
  | halt => exact .halted

theorem stepped_of_step {errand : Errand} {shared : Shared.State} {result : Step}
    (stepped : errand.step shared = result) : Stepped shared errand result :=
  stepped ▸ errand.step_stepped shared

/-! ### The call behind an errand -/

def call : Errand → Call
  | start _ => .awaitStart
  | token => .awaitToken
  | drive command _ => .drive command
  | arm task _ => .arm task
  | target id _ => .awaitTarget id
  | sight id _ => .sight id
  | rezero => .rezero
  | halt => .halt

theorem call_of_ofCall? {asked : Call} {errand : Errand} (made : ofCall? asked = some errand) :
    errand.call = asked := by
  cases asked <;> cases made <;> rfl

theorem ofCall?_eq_none {asked : Call} (none : ofCall? asked = none) :
    ∃ ms, asked = .pause ms := by
  cases asked <;> simp [ofCall?] at none
  exact ⟨_, rfl⟩

def Step.errand? : Step → Option Errand
  | .blocked errand _ | .moved errand _ => some errand
  | .over .. => none

def Step.shared : Step → Shared.State
  | .blocked _ shared | .moved _ shared | .over _ shared => shared

/-- The reply with which an operation ends its call. -/
def Step.reply? : Step → Option Reply
  | .over reply _ => some reply
  | .blocked .. | .moved .. => none

theorem call_step {errand next : Errand} {shared : Shared.State}
    (left : (errand.step shared).errand? = some next) : next.call = errand.call := by
  have way := errand.step_stepped shared
  generalize errand.step shared = result at way left
  cases way <;> cases left <;> rfl

theorem reply_arm {task : Arm.Task} {stage : Stage} {shared behind : Shared.State} {reply : Reply}
    (stepped : (arm task stage).step shared = .over reply behind) : reply = .done := by
  cases stepped_of_step stepped
  rfl

/-- Only a watchdog makes a call expire. -/
theorem reply_ne_expired {errand : Errand} {shared behind : Shared.State} {reply : Reply}
    (stepped : errand.step shared = .over reply behind) : reply ≠ .expired := by
  rintro rfl
  cases stepped_of_step stepped

/-! ### What an operation leaves alone -/

/-- Whether an errand commands the chassis. -/
def commands : Errand → Bool
  | drive .. | halt => true
  | _ => false

/-- Whether an errand deals with the arm. -/
def instructs : Errand → Bool
  | arm .. => true
  | _ => false

theorem commands_step {errand next : Errand} {shared : Shared.State}
    (left : (errand.step shared).errand? = some next) : next.commands = errand.commands := by
  have same := call_step left
  cases next <;> cases errand <;> cases same <;> rfl

theorem instructs_step {errand next : Errand} {shared : Shared.State}
    (left : (errand.step shared).errand? = some next) : next.instructs = errand.instructs := by
  have same := call_step left
  cases next <;> cases errand <;> cases same <;> rfl

theorem step_chassis {errand : Errand} (aside : errand.commands = false) (shared : Shared.State) :
    (errand.step shared).shared.command = shared.command ∧
      (errand.step shared).shared.moveFinished = shared.moveFinished := by
  have way := errand.step_stepped shared
  generalize errand.step shared = result at way ⊢
  cases way <;> first | exact ⟨rfl, rfl⟩ | cases aside

/-- Only an operation that gets on changes the queue of the arm. -/
theorem tasks_blocked {errand next : Errand} {shared behind : Shared.State}
    (stepped : errand.step shared = .blocked next behind) : behind.tasks = shared.tasks := by
  cases stepped_of_step stepped <;> rfl

theorem tasks_over {errand : Errand} {shared behind : Shared.State} {reply : Reply}
    (stepped : errand.step shared = .over reply behind) : behind.tasks = shared.tasks := by
  cases stepped_of_step stepped <;> rfl

end Mecanum.Mission.Errand
