import Mecanum.Proofs.Crew.Exclusion
import Mecanum.Proofs.Crew.Tokens
import Mecanum.Proofs.Mission.Adoption

/-!
# From scanned bytes to plans

The mission takes the tokens of the scanner's lines, in order and each once, but for those that were
completed while the queue was full. A visit of the state that scans adopts the plan of the first
token that is a task code. So a code on a line of its own that goes to an empty queue is adopted as
it was sent.
-/
namespace Mecanum.Robot.Crew

open Mission (Errand Plan)
open Motion (WheelDrive)
open Scanner (Token)

variable {W : Type}

/-! ### Visits -/

/-- A token is no task code. -/
def Rejected (token : Token) : Prop := ∃ error, Plan.parse token = .error error

/-- Where a visit of the state that scans stands behind the tokens taken in it. The plan at its
entry is kept up to the first code; a watchdog drops it. -/
inductive Visited (before : Plan) (runner : Mission.Runner) (tokens : List Token) : Prop where
  | seeking (seeks : runner.Seeks before) (rejected : ∀ token ∈ tokens, Rejected token)
  | adopted {others : List Token} {token : Token} (split : tokens = others ++ [token])
      (rejected : ∀ other ∈ others, Rejected other) (code : Plan.parse token = .ok runner.plan)
      (state : runner.state = .goPlate1) (resting : runner.call? = none)

theorem taken_replied (reply : Mission.Reply) (progress : Mission.Progress) :
    taken (.replied reply :: endings progress) = (Event.replied reply).token?.toList := by
  have quiet : ∀ event ∈ endings progress, event.isToken = false :=
    forall_endings (fun _ => rfl) progress
  rw [← List.singleton_append, taken_append, taken_aside quiet, List.append_nil]
  cases reply <;> rfl

section Visits

variable {crew next : Crew W} {history events : List Event} {before : Plan} {tokens : List Token}

/-- A reply carries a visit on: another token is rejected, or the first code is adopted. -/
theorem Visited.replied {runner : Mission.Runner} {reply : Mission.Reply}
    {progress : Mission.Progress} (visited : Visited before runner tokens)
    (busy : runner.call? ≠ none) (replied : runner.reply reply = .ok progress)
    (asked : ∀ token, reply = .token token → runner.call? = some .awaitToken) :
    Visited before progress.runner
      (tokens ++ taken (.replied reply :: endings progress)) := by
  rw [taken_replied]
  cases visited with
  | adopted _ _ _ _ resting => exact absurd resting busy
  | seeking seeks rejected =>
    cases seeks.reply replied with
    | onward seeks unread =>
      refine .seeking seeks (List.forall_mem_append.mpr ⟨rejected, ?_⟩)
      cases reply with
      | token token =>
        exact List.forall_mem_singleton.mpr (unread (asked token rfl) token rfl)
      | _ => exact List.forall_mem_nil _
    | adopted taken code ended =>
      subst taken
      refine .adopted rfl rejected ?_ ?_ ?_
      · rw [ended]
        exact code
      · rw [ended]
        rfl
      · rw [ended]
        rfl

/-- A move that enters no state goes on with the visit. -/
theorem Visited.kept [WheelDrive W] (visited : Visited before crew.runner tokens)
    (underWay : UnderWay crew history) (transition : Transition crew next events)
    (within : ∀ event ∈ events, event.isEntry = false) :
    Visited before next.runner (tokens ++ taken events) := by
  have apart (same : next.runner = crew.runner) (untaken : taken events = []) :
      Visited before next.runner (tokens ++ taken events) := by
    rwa [same, untaken, List.append_nil]
  cases transition with
  | enter => cases within _ List.mem_cons_self
  | pause => exact apart rfl rfl
  | blocked begun => exact apart rfl (taken_aside begun.isToken)
  | @moved _ errand _ _ begun =>
    refine apart rfl (taken_aside (List.forall_mem_append.mpr ⟨begun.isToken, ?_⟩))
    exact forall_requestsOf (fun _ => rfl) errand
  | @ended _ errand _ reply progress begun stepped resumed =>
    have waiting := (underWay.begun begun).1
    rw [taken_append, taken_aside begun.isToken, List.nil_append]
    refine visited.replied (by simp [waiting]) resumed ?_
    rintro token rfl
    cases Errand.stepped_of_step stepped
    exact waiting
  | wake pending resumed =>
    obtain ⟨ms, waiting, _⟩ := underWay.pause pending
    exact visited.replied (by simp [waiting]) resumed (by simp)
  | expire pending _ resumed =>
    refine visited.replied (fun resting => ?_) resumed (by simp)
    simp [underWay.free_of_resting resting] at pending
  | period => exact apart rfl rfl
  | arm => exact apart rfl (taken_aside
      (forall_serve (fun _ => rfl) (fun _ => rfl) (fun _ => rfl) crew _ _))
  | aside aside =>
    refine apart aside.runner (List.filterMap_eq_nil_iff.mpr fun event member => ?_)
    have quiet := aside.events event member
    cases event <;> first | rfl | cases quiet

/-- Only the entry into a state is an entry. -/
theorem Transition.entry [WheelDrive W] (transition : Transition crew next events) :
    (∀ event ∈ events, event.isEntry = false) ∨
      ∃ progress, crew.runner.enter = .ok progress ∧ next.runner = progress.runner ∧
        events = .entered crew.runner.state crew.runner.plan :: endings progress := by
  cases transition with
  | enter _ _ entered => exact .inr ⟨_, entered, rfl, rfl⟩
  | pause => exact .inl (List.forall_mem_singleton.mpr rfl)
  | blocked begun => exact .inl begun.isEntry
  | @moved _ errand _ _ begun =>
    exact .inl (List.forall_mem_append.mpr ⟨begun.isEntry, isEntry_requestsOf errand⟩)
  | @ended _ _ _ _ progress begun =>
    exact .inl (List.forall_mem_append.mpr ⟨begun.isEntry,
      List.forall_mem_cons.mpr ⟨rfl, isEntry_endings progress⟩⟩)
  | wake => exact .inl (List.forall_mem_cons.mpr ⟨rfl, isEntry_endings _⟩)
  | expire => exact .inl (List.forall_mem_cons.mpr ⟨rfl, isEntry_endings _⟩)
  | period => exact .inl (List.forall_mem_singleton.mpr rfl)
  | arm => exact .inl (isEntry_serve crew _ _)
  | aside aside =>
    exact .inl fun event member => Event.isEntry_of_isAside (aside.events event member)

/-- Every visit of the state that scans, as long as no other entry is behind it. -/
def Visits (crew : Crew W) (history : List Event) : Prop :=
  ∀ front before visit, history = front ++ .entered .scanCode before :: visit →
    (∀ event ∈ visit, event.isEntry = false) → Visited before crew.runner (taken visit)

/-- An item of two lists in a row stands in the first of them or in the second. -/
theorem split_append {α : Type} {front back before after : List α} {item : α}
    (split : front ++ back = before ++ item :: after) :
    (∃ middle, front = before ++ item :: middle ∧ after = middle ++ back) ∨
      ∃ early, back = early ++ item :: after ∧ before = front ++ early := by
  rcases List.append_eq_append_iff.mp split with ⟨early, rfl, here⟩ | ⟨middle, old, behind⟩
  · exact .inr ⟨early, here, rfl⟩
  · rcases List.cons_eq_append_iff.mp behind with ⟨rfl, rfl⟩ | ⟨between, rfl, rfl⟩
    · exact .inr ⟨[], rfl, by simpa using old.symm⟩
    · exact .inl ⟨between, old, rfl⟩

/-- Every transition keeps to the visits so far, or begins one. -/
theorem Visits.kept [WheelDrive W] (visits : Visits crew history)
    (underWay : UnderWay crew history) (transition : Transition crew next events) :
    Visits next (history ++ events) := by
  intro front before visit split within
  rcases split_append split with ⟨earlier, old, rfl⟩ | ⟨early, own, rfl⟩
  · obtain ⟨first, quiet⟩ := List.forall_mem_append.mp within
    rw [taken_append]
    exact (visits _ _ _ old first).kept underWay transition quiet
  · -- The entry is the one of this move.
    rcases transition.entry with quiet | ⟨progress, entered, runner, rfl⟩
    · have unentered := quiet (.entered .scanCode before) (by simp [own])
      cases unentered
    · rcases List.cons_eq_append_iff.mp own with ⟨rfl, same⟩ | ⟨others, rfl, behind⟩
      · simp only [List.cons.injEq, Event.entered.injEq] at same
        obtain ⟨⟨state, rfl⟩, rfl⟩ := same
        rw [runner, taken_aside (forall_endings (fun _ => rfl) progress)]
        exact .seeking (Mission.Runner.seeks_enter entered state.symm) (by simp)
      · have unentered := isEntry_endings progress (.entered .scanCode before) (by simp [behind])
        cases unentered

theorem visits_reached [WheelDrive W] (setup : Setup) (wheels : W) (schedule : List (Move W)) :
    Visits (reached setup wheels schedule) (Crew.history setup wheels schedule) := by
  have joint := run_invariant (fun (crew : Crew W) history => UnderWay crew history ∧
      Visits crew history)
    (fun both transition => ⟨both.1.kept transition, both.2.kept both.1 transition⟩)
    (⟨underWay_new setup wheels, fun _ _ _ split => by simp at split⟩) schedule
  exact joint.2

/-- The mission takes the oldest token as soon as it asks for one, and adopts it if it is a code. -/
theorem exists_adoption [WheelDrive W] {token : Token} {others : List Token} {plan : Plan}
    (underWay : UnderWay crew history) (seeks : crew.runner.Seeks before)
    (asked : crew.runner.call? = some .awaitToken)
    (queue : crew.shared.tokens.toList = token :: others) (code : Plan.parse token = .ok plan) :
    ∃ next events, crew.step .mission = .ok (next, events) ∧
      next.runner = crew.runner.adopt plan ∧ next.shared.tokens.toList = others := by
  obtain ⟨progress, replied, adopted⟩ := seeks.reply_code asked code
  obtain ⟨rest, popped, left⟩ :
      ∃ rest, crew.shared.tokens.pop? = some (token, rest) ∧ rest.toList = others := by
    cases popped : crew.shared.tokens.pop? with
    | none => simp [Shared.Queue.pop?_eq_none_iff.mp popped] at queue
    | some entry =>
      rw [Shared.Queue.toList_pop? popped] at queue
      obtain ⟨rfl, rfl⟩ := List.cons.inj queue
      exact ⟨entry.2, rfl, rfl⟩
  have operated (opening : List Event) : ∃ next events,
      crew.operate opening .token = .ok (next, events) ∧
        next.runner = crew.runner.adopt plan ∧ next.shared.tokens.toList = others := by
    simp only [operate, Errand.step, popped, resume, replied]
    exact ⟨_, _, rfl, adopted, left⟩
  simp only [step, stepMission]
  cases pending : crew.pending with
  | none =>
    simp only [asked]
    exact operated [.called .awaitToken]
  | some current =>
    cases current with
    | pause =>
      obtain ⟨ms, waiting, _⟩ := underWay.pause pending
      rw [asked] at waiting
      cases waiting
    | errand errand =>
      have waiting := (underWay.errand errand pending).1
      rw [asked] at waiting
      cases errand <;> cases waiting
      exact operated []

end Visits

/-! ### From bytes to plans -/

variable [WheelDrive W]

def scannedOn (setup : Setup) (wheels : W) (schedule : List (Move W)) : List UInt8 :=
  (new setup wheels).scanned schedule

def admittedOn (setup : Setup) (wheels : W) (schedule : List (Move W)) : List Token :=
  (new setup wheels).admitted schedule

/-- Behind a first schedule, a plan is sent on a line of its own to an empty queue. -/
structure Sent (setup : Setup) (wheels : W) (first schedule : List (Move W)) (plan : Plan)
    (line : List UInt8) : Prop where
  empty : (reached setup wheels first).shared.tokens.toList = []
  fresh : Scanner.currentLine (scannedOn setup wheels first) = []
  code : ∃ separator tail, line = plan.code separator tail
  inside : ∀ byte ∈ line, Scanner.isBreak byte = false
  sent : ∃ terminator more, Scanner.isBreak terminator = true ∧
    scannedOn setup wheels schedule =
      scannedOn setup wheels first ++ (line ++ terminator :: more)

/-- A line that was sent is still to be taken, and a mission that waits for it adopts its plan with
its next operation; or the line has been taken, and the plan is adopted. -/
inductive Delivered (crew : Crew W) (plan : Plan) (token : Token) (since : List Event) : Prop where
  | ahead (untaken : taken since = []) (oldest : crew.shared.tokens.toList.head? = some token)
      (adopts : crew.runner.call? = some .awaitToken → ∃ next events,
        crew.step .mission = .ok (next, events) ∧ next.runner = crew.runner.adopt plan)
  | adopted (single : taken since = [token]) (state : crew.runner.state = .goPlate1)
      (plan : crew.runner.plan = plan)

/-- From the bytes of the scanner to the plan of the mission, on a schedule and one move behind. -/
structure PlansScanned (setup : Setup) (wheels : W) (schedule : List (Move W)) : Prop where
  -- The tokens framed are those of the lines,
  framed : framings (history setup wheels schedule) =
    Scanner.tokens (scannedOn setup wheels schedule)
  -- and a move frames one exactly if it takes in the terminator of a line that is no noise.
  terminated : ∀ {move next events token},
    (reached setup wheels schedule).step move = .ok (next, events) →
      (.framed token ∈ events ↔
        ∃ byte, (reached setup wheels schedule).byteOf move = [byte] ∧
          Scanner.isBreak byte = true ∧
          3 ≤ (Scanner.currentLine (scannedOn setup wheels schedule)).length ∧
          token = (Scanner.currentLine (scannedOn setup wheels schedule)).take 15)
  -- The tokens taken, and then those that wait, are those that the queue had room for.
  received : taken (history setup wheels schedule) ++
      (reached setup wheels schedule).shared.tokens.toList = admittedOn setup wheels schedule
  -- A token is a code by its six digits alone,
  parsed : ∀ token plan, Plan.parse token = .ok plan ↔
    ∃ separator rest, token = plan.code separator rest
  -- and the first token taken that is a code is adopted.
  visits : Visits (reached setup wheels schedule) (history setup wheels schedule)
  -- A code that is sent to an empty queue is the next token,
  next : ∀ {first rest since plan line}, schedule = first ++ rest →
    Sent setup wheels first schedule plan line →
    history setup wheels schedule = history setup wheels first ++ since →
      (taken since ++ (reached setup wheels schedule).shared.tokens.toList).head? =
          some (line.take 15) ∧
        Plan.parse (line.take 15) = .ok plan
  -- and adopted as it was sent, if the tokens that the visit took before it are none.
  sent : ∀ {first rest since plan line}, schedule = first ++ rest →
    Sent setup wheels first schedule plan line →
    history setup wheels schedule = history setup wheels first ++ since →
    ∀ {front before visit earlier},
      history setup wheels schedule = front ++ .entered .scanCode before :: visit →
      (∀ event ∈ visit, event.isEntry = false) → taken visit = earlier ++ taken since →
      (∀ token ∈ earlier, Rejected token) →
        Delivered (reached setup wheels schedule) plan (line.take 15) since

section Schedules

variable {setup : Setup} {wheels : W} {first rest schedule : List (Move W)} {plan : Plan}
  {line : List UInt8} {since : List Event}

theorem framings_eq_tokens (setup : Setup) (wheels : W) (schedule : List (Move W)) :
    (reached setup wheels schedule).framer = Scanner.framer (scannedOn setup wheels schedule) ∧
      framings (history setup wheels schedule) =
        Scanner.tokens (scannedOn setup wheels schedule) := by
  have start : (new setup wheels).framer = Scanner.framer [] := rfl
  obtain ⟨framer, tokens⟩ := run_framer start schedule
  exact ⟨framer, tokens.symm⟩

theorem mem_framings {events : List Event} {token : Token} :
    token ∈ framings events ↔ .framed token ∈ events := by
  rw [framings, List.mem_filterMap]
  constructor
  · rintro ⟨event, member, told⟩
    cases event <;> cases told
    exact member
  · intro member
    exact ⟨_, member, rfl⟩

/-- A token is completed by the terminator of its line. -/
theorem framed_iff {crew next : Crew W} {move : Move W} {events : List Event} {token : Token}
    {bytes : List UInt8} (framer : crew.framer = Scanner.framer bytes)
    (moved : crew.step move = .ok (next, events)) :
    .framed token ∈ events ↔ ∃ byte, crew.byteOf move = [byte] ∧
      Scanner.isBreak byte = true ∧
      3 ≤ (Scanner.currentLine bytes).length ∧
      token = (Scanner.currentLine bytes).take 15 := by
  obtain ⟨_, grown⟩ := step_framer framer moved
  rw [← mem_framings]
  have single : crew.byteOf move = [] ∨ ∃ byte, crew.byteOf move = [byte] := by
    unfold byteOf
    split
    · cases crew.shared.scannerBytes.pop? <;> simp
    · exact .inl rfl
  rcases single with unread | ⟨byte, read⟩
  · rw [unread, List.append_nil, List.self_eq_append_right] at grown
    simp [unread, grown]
  · rw [read, (Scanner.push_framer bytes byte).2, List.append_cancel_left_eq] at grown
    rw [← grown]
    cases ends : Scanner.isBreak byte with
    | true =>
      rw [Scanner.push_terminator ends, Scanner.tokenOf_take]
      by_cases long : 3 ≤ (Scanner.currentLine bytes).length <;>
        simp [read, ends, long]
    | false => simp [read, ends, Scanner.push_inside ends]

theorem received_eq_admitted (setup : Setup) (wheels : W) (schedule : List (Move W)) :
    taken (history setup wheels schedule) ++
      (reached setup wheels schedule).shared.tokens.toList = admittedOn setup wheels schedule :=
  (run_queue (new setup wheels) schedule).symm

theorem Sent.parse (sent : Sent setup wheels first schedule plan line) :
    Plan.parse (line.take 15) = .ok plan := by
  obtain ⟨separator, tail, rfl⟩ := sent.code
  rw [Plan.take_code, Plan.parse_eq_ok_iff]
  exact ⟨_, _, rfl⟩

/-- A schedule on which bytes came in had no fault before them. -/
theorem Sent.sound (sent : Sent setup wheels first (first ++ rest) plan line) :
    (new setup wheels).Sound first := by
  by_contra faulty
  obtain ⟨terminator, more, _, bytes⟩ := sent.sent
  have stuck : scannedOn setup wheels (first ++ rest) = scannedOn setup wheels first :=
    gather_append_of_fault faulty rest
  simp [stuck] at bytes

/-- The line of a code that is sent to an empty queue is the next token. -/
theorem Sent.next (sent : Sent setup wheels first (first ++ rest) plan line)
    (split : history setup wheels (first ++ rest) = history setup wheels first ++ since) :
    (taken since ++ (reached setup wheels (first ++ rest)).shared.tokens.toList).head? =
      some (line.take 15) := by
  have sound := sent.sound
  obtain ⟨terminator, more, ends, bytes⟩ := sent.sent
  have long : 3 ≤ line.length := by
    obtain ⟨separator, tail, rfl⟩ := sent.code
    simp only [Plan.length_code, Plan.codeLength]
    omega
  -- The bytes and events behind the first schedule are those of the rest.
  have run := sound.run_append rest
  have later : since = ((reached setup wheels first).run rest).2 := by
    rw [history, run] at split
    exact (List.append_cancel_left split).symm
  have last : reached setup wheels (first ++ rest) = ((reached setup wheels first).run rest).1 := by
    rw [reached, run]
    rfl
  have read : (reached setup wheels first).scanned rest = line ++ terminator :: more := by
    rw [scannedOn, scanned, sound.gather_append] at bytes
    exact List.append_cancel_left bytes
  -- So the line is the first that is framed, and the empty queue has room for it.
  obtain ⟨framer, _⟩ := framings_eq_tokens setup wheels first
  have grown := (run_framer framer rest).2
  obtain ⟨others, tokens⟩ := Scanner.tokens_line sent.fresh sent.inside ends long more
  rw [read, tokens] at grown
  have framed := List.append_cancel_left grown
  have queue := run_queue (reached setup wheels first) rest
  rw [sent.empty, List.nil_append, ← later, ← last] at queue
  rw [← queue, head?_admitted sent.empty, ← framed]
  rfl

/-- What was sent to an empty queue is taken next, and adopted as it was sent. -/
theorem Sent.delivered (sent : Sent setup wheels first (first ++ rest) plan line)
    (split : history setup wheels (first ++ rest) = history setup wheels first ++ since)
    {front : List Event} {before : Plan} {visit : List Event} {earlier : List Token}
    (entry : history setup wheels (first ++ rest) = front ++ .entered .scanCode before :: visit)
    (within : ∀ event ∈ visit, event.isEntry = false)
    (behind : taken visit = earlier ++ taken since)
    (rejected : ∀ token ∈ earlier, Rejected token) :
    Delivered (reached setup wheels (first ++ rest)) plan (line.take 15)
      since := by
  have code := sent.parse
  have accepted : ¬Rejected (line.take 15) := by
    rintro ⟨error, wrong⟩
    rw [code] at wrong
    cases wrong
  have next := sent.next split
  cases visits_reached setup wheels (first ++ rest) front before visit entry within with
  | seeking seeks none =>
    -- Nothing has been taken since, for it would be the code.
    cases untaken : taken since with
    | cons token others =>
      rw [untaken, List.cons_append, List.head?_cons, Option.some.injEq] at next
      refine absurd (none token ?_) (next ▸ accepted)
      simp [behind, untaken]
    | nil =>
      rw [untaken, List.nil_append] at next
      refine .ahead untaken next fun asked => ?_
      obtain ⟨others, queue⟩ := List.head?_eq_some_iff.mp next
      obtain ⟨next, events, moved, adopted, _⟩ := exists_adoption
        (underWay_reached setup wheels (first ++ rest)) seeks asked queue code
      exact ⟨next, events, moved, adopted⟩
  | @adopted others token tokens none parsed state _ =>
    rw [behind] at tokens
    cases untaken : taken since with
    | nil =>
      rw [untaken, List.append_nil] at tokens
      obtain ⟨error, wrong⟩ := rejected token (by simp [tokens])
      rw [parsed] at wrong
      cases wrong
    | cons head tail =>
      rw [untaken, List.cons_append, List.head?_cons, Option.some.injEq] at next
      subst next
      rw [untaken] at tokens
      rcases split_append tokens.symm with ⟨middle, rfl, _⟩ | ⟨_, single, _⟩
      · exact absurd (none _ (by simp)) accepted
      · rcases List.cons_eq_append_iff.mp single with ⟨rfl, same⟩ | ⟨_, _, none⟩
        · obtain ⟨rfl, rfl⟩ := List.cons.inj same
          rw [code] at parsed
          exact .adopted untaken state (Except.ok.inj parsed).symm
        · simp at none

/-- On every schedule the tokens are framed, queued and taken as the bytes have them, and the first
code taken is the plan. -/
theorem plans_scanned (setup : Setup) (wheels : W) (schedule : List (Move W)) :
    PlansScanned setup wheels schedule where
  framed := (framings_eq_tokens setup wheels schedule).2
  terminated moved := framed_iff (framings_eq_tokens setup wheels schedule).1 moved
  received := received_eq_admitted setup wheels schedule
  parsed _ _ := Plan.parse_eq_ok_iff
  visits := visits_reached setup wheels schedule
  next := by
    rintro first rest since plan line rfl sent split
    exact ⟨sent.next split, sent.parse⟩
  sent := by
    rintro first rest since plan line rfl sent split front before visit earlier
    exact sent.delivered split

end Schedules

/-- A run that waits for a code, behind a line of noise and a token that is no code. -/
def behindNoise : List (Move Motion.SimulatedChassis) :=
  toScan ++ scan [57, 57, 10] ++ scan [57, 57, 57, 43, 57, 57, 57, 10] ++ [.mission]

/-- A code with nine more bytes on its line, one too many for a token. -/
def longLine : List UInt8 := lateCode ++ List.replicate 9 33

/-- The long line arrives, ended by a carriage return, and the mission goes on. -/
def longCode : List (Move Motion.SimulatedChassis) :=
  behindNoise ++ (scan (longLine ++ [13]) ++ [.mission])

/-- Behind noise and a token that was refused, the code on a line that is too long is the plan. -/
theorem plans_scanned_longCode :
    PlansScanned {} (.new {}) longCode ∧
      framings (history {} (.new {}) longCode) =
        [[57, 57, 57, 43, 57, 57, 57], longLine.take 15] ∧
      Sent {} (.new {}) behindNoise longCode ⟨⟨.blue, .green, .red⟩, ⟨.blue, .green, .red⟩⟩
        longLine ∧
      Delivered (reached {} (.new {}) longCode)
        ⟨⟨.blue, .green, .red⟩, ⟨.blue, .green, .red⟩⟩ (longLine.take 15)
        ((history {} (.new {}) longCode).drop 19) ∧
      (reached {} (.new {}) longCode).runner.plan =
        ⟨⟨.blue, .green, .red⟩, ⟨.blue, .green, .red⟩⟩ := by
  have sent : Sent {} (.new {}) behindNoise longCode
      ⟨⟨.blue, .green, .red⟩, ⟨.blue, .green, .red⟩⟩ longLine :=
    ⟨by decide +kernel, by decide +kernel, ⟨43, List.replicate 9 33, by decide⟩,
      by decide +kernel, 13, [], by decide, by decide +kernel⟩
  have split : history {} (.new {}) longCode =
      history {} (.new {}) behindNoise ++ (history {} (.new {}) longCode).drop 19 := by
    decide +kernel
  have entry : history {} (.new {}) longCode =
      (history {} (.new {}) longCode).take 5 ++ .entered .scanCode .default ::
        (history {} (.new {}) longCode).drop 6 := by
    decide +kernel
  have visited : taken ((history {} (.new {}) longCode).drop 6) =
      [[57, 57, 57, 43, 57, 57, 57]] ++ taken ((history {} (.new {}) longCode).drop 19) := by
    decide +kernel
  have scanned := plans_scanned {} (.new {}) longCode
  refine ⟨scanned, by decide +kernel, sent, ?_, by decide +kernel⟩
  exact scanned.sent rfl sent split entry (by decide +kernel) visited
    (List.forall_mem_singleton.mpr ⟨_, rfl⟩)

end Mecanum.Robot.Crew
