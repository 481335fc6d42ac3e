import Mecanum.Mission.Responder
import Mecanum.Mission.Runner

/-!
# Rehearsals

A rehearsal runs a mission against a responder instead of a robot. A call that never ends makes the
rehearsal end there, and the runner gives the state up, unless a watchdog guards the call and runs
out.

A scripted world is a responder that has presses, tokens and sightings in store, and answers so many
drives, arm tasks and target waits. A call that it cannot answer hangs, and its watchdog runs out at
once.
-/
namespace Mecanum.Mission

open Journal (Note)

/-! ### Scripted worlds -/

/-- What a scripted world has in store. -/
structure World where
  starts : Nat
  tokens : List Scanner.Token
  sightings : List (Int × Int)
  -- Given when the sightings are used up.
  defaultSighting : Option (Int × Int)
  -- How many more drives end; without a number, all do.
  drives : Option Nat
  arms : Option Nat
  targets : Option Nat
deriving DecidableEq

namespace World

def initial : World := ⟨0, [], [], none, none, none, none⟩

/-- Ends a call at the cost of one from a supply that may be without end. -/
def spend (world : World) (supply : Option Nat) (leave : Option Nat → World) : Looks World Unit :=
  match supply with
  | none => .now () (leave none)
  | some 0 => .never world
  | some (n + 1) => .now () (leave (some n))

instance : Responder World where
  awaitStart world :=
    match world.starts with
    | 0 => .never world
    | n + 1 => .now () { world with starts := n }
  rezero := id
  awaitToken world :=
    match world.tokens with
    | [] => .never world
    | token :: rest => .now token { world with tokens := rest }
  drive world _ := world.spend world.drives fun left => { world with drives := left }
  halt := id
  arm world _ := world.spend world.arms fun left => { world with arms := left }
  awaitTarget world _ := world.spend world.targets fun left => { world with targets := left }
  sight world _ :=
    match world.sightings, world.defaultSighting with
    | place :: rest, _ => .now place { world with sightings := rest }
    | [], some place => .now place world
    | [], none => .never world
  pause world _ := .now () world

end World

/-! ### Rehearsals -/

structure Rehearsal (W : Type) where
  runner : Runner
  world : W
  -- The calls made, in order. A watchdog that ran out shows as its pause.
  trace : List Call
  notes : List Note
  -- The ending of the last state, unless a call hung.
  ending : Option Ending

variable {W : Type}

namespace Rehearsal

/-- Puts what went before in front. -/
def after (trace : List Call) (notes : List Note) (rehearsal : Rehearsal W) : Rehearsal W :=
  { rehearsal with trace := trace ++ rehearsal.trace, notes := notes ++ rehearsal.notes }

end Rehearsal

variable [Responder W]

namespace Runner

/-- How the present call ends. -/
def outcome (runner : Runner) (world : W) (call : Call) : Outcome W :=
  .ofLooks runner.timeLimit?.isSome (Responder.looks world call)

/-- The calls that the present call leads to, and the reply, unless it hangs for good. -/
def consult (runner : Runner) (world : W) (call : Call) : List Call × Option (Reply × W) :=
  match runner.outcome world call with
  | .replied reply world => ([call], some (reply, world))
  | .expired world => (call :: (runner.timeLimit?.map .pause).toList, some (.expired, world))
  | .hung => ([call], none)

end Runner

/-- Carries the present state on to its end, with at most `budget` calls. -/
def Progress.rehearse (progress : Progress) (world : W) (budget : Nat) :
    Except Fault (Rehearsal W) :=
  match progress.ending, budget with
  | some ending, _ => .ok ⟨progress.runner, world, [], progress.notes, some ending⟩
  | none, 0 => .ok ⟨progress.runner.abandon, world, [], progress.notes, none⟩
  | none, budget + 1 =>
    match progress.runner.call? with
    | none => .ok ⟨progress.runner, world, [], progress.notes, none⟩
    | some call =>
      match progress.runner.consult world call with
      | (calls, none) => .ok ⟨progress.runner.abandon, world, calls, progress.notes, none⟩
      | (calls, some (reply, world)) => do
        let next ← progress.runner.reply reply
        return (← next.rehearse world budget).after calls progress.notes

namespace Runner

def rehearse (runner : Runner) (world : W) (budget : Nat) : Except Fault (Rehearsal W) := do
  (← runner.enter).rehearse world budget

/-- Rehearses one state after another until a call hangs, for at most `states` states. -/
def rehearseEach (runner : Runner) (world : W) (budget : Nat) :
    Nat → Except Fault (List (Rehearsal W))
  | 0 => .ok []
  | states + 1 => do
    let first ← runner.rehearse world budget
    match first.ending with
    | none => return [first]
    | some _ => return first :: (← first.runner.rehearseEach first.world budget states)

/-- The same states as one rehearsal. -/
def rehearseAll (runner : Runner) (world : W) (budget states : Nat) :
    Except Fault (Rehearsal W) := do
  let rehearsals ← runner.rehearseEach world budget states
  return rehearsals.foldl (fun before next => next.after before.trace before.notes)
    ⟨runner, world, [], [], none⟩

end Runner

end Mecanum.Mission
