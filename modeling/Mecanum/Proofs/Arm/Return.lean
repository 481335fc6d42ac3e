import Mathlib.Logic.Relation
import Mathlib.Tactic.Linarith
import Mecanum.Proofs.Arm.Interlock

/-!
# The way back to the top

Every travel sets the counter to zero and stops at the first look that shows its depth, however far
beyond it the lift has come by then. Nothing keeps the position over the two travels of a pick or a
place. So the lift is back at the top exactly if the two are equally long (`at_top_iff`). They are
for a lift that moves by the same number of steps between any two looks (`steady_at_top`). Any other
drifts with every job by less than it moves between two looks (`drift_le`).
-/
namespace Mecanum.Arm

/-- The lift as a trace shows it, with its displacement over all resets of the counter. -/
structure Gauge where
  speed : Int
  count : Int
  position : Int
deriving DecidableEq

namespace Gauge

def top : Gauge := ⟨0, 0, 0⟩

/-- The lift behind a call. It moves only between two looks. -/
def next (gauge : Gauge) (entry : Entry) : Gauge :=
  match entry.call with
  | .lift speed => { gauge with speed := speed }
  | .zero => { gauge with count := 0 }
  | .look => { gauge with
      count := entry.count, position := gauge.position + (entry.count - gauge.count) }
  | .servo .. | .pause _ => gauge

def after (gauge : Gauge) (trace : List Entry) : Gauge := trace.foldl next gauge

/-- A lift that moves by a rule, which relates its speed and the steps between two looks. -/
def Follows (rule : Int → Int → Prop) : Gauge → List Entry → Prop
  | _, [] => True
  | gauge, entry :: rest =>
    (entry.call = .look → rule gauge.speed (entry.count - gauge.count)) ∧
      Follows rule (gauge.next entry) rest

instance decidableFollows (rule : Int → Int → Prop) [∀ speed steps, Decidable (rule speed steps)] :
    ∀ gauge trace, Decidable (Follows rule gauge trace)
  | _, [] => inferInstanceAs (Decidable True)
  | gauge, entry :: rest =>
    have := decidableFollows rule (gauge.next entry) rest
    inferInstanceAs (Decidable ((entry.call = .look →
      rule gauge.speed (entry.count - gauge.count)) ∧ Follows rule (gauge.next entry) rest))

end Gauge

/-- The lift moves in the direction of its speed, and not at all at speed zero. -/
def Obeys (speed steps : Int) : Prop := steps.sign = speed.sign

instance (speed steps : Int) : Decidable (Obeys speed steps) :=
  inferInstanceAs (Decidable (steps.sign = speed.sign))

/-- The lift moves by the same number of steps each time. -/
def Steady (pace : Nat) (speed steps : Int) : Prop := steps = speed.sign * pace

/-- The counts at which the lift was stopped. -/
def landings : List Entry → List Int
  | ⟨.look, count⟩ :: ⟨.lift _, _⟩ :: rest => count :: landings rest
  | _ :: rest => landings rest
  | [] => []

/-- All travels of a deed are equally long. -/
def Deed.Even {config : Config} (deed : Deed config) : Prop :=
  ∀ first ∈ landings deed.trace, ∀ second ∈ landings deed.trace, first.natAbs = second.natAbs

/-! ### A single travel -/

section Gauge

variable {rule : Int → Int → Prop} {gauge : Gauge} {front back : List Entry}

theorem Gauge.after_append (gauge : Gauge) :
    gauge.after (front ++ back) = (gauge.after front).after back :=
  List.foldl_append

/-- A trace follows the rule when its first part does and its second does from there. -/
theorem Gauge.follows_append_iff :
    gauge.Follows rule (front ++ back) ↔
      gauge.Follows rule front ∧ (gauge.after front).Follows rule back := by
  induction front generalizing gauge with
  | nil => simp [Gauge.Follows, Gauge.after]
  | cons entry front step =>
    simp only [List.cons_append, Gauge.Follows, step, and_assoc]
    rfl

/-- Without a look the lift has not been seen to move, nor to land. -/
theorem unseen {trace : List Entry} (blind : ∀ entry ∈ trace, entry.call ≠ .look) :
    (∀ gauge : Gauge, (gauge.after trace).position = gauge.position) ∧
      ∀ rest, landings (trace ++ rest) = landings rest := by
  induction trace with
  | nil => exact ⟨fun _ => rfl, fun _ => rfl⟩
  | cons entry trace step =>
    obtain ⟨call, count⟩ := entry
    simp only [List.forall_mem_cons] at blind
    obtain ⟨position, landed⟩ := step blind.2
    cases call with
    | look => exact absurd rfl blind.1
    | _ => exact ⟨fun gauge => position (gauge.next _), landed⟩

end Gauge

/-- The counts that the lift can come to by its rule, from zero on. -/
def Reaches (rule : Int → Int → Prop) (speed : Int) : Int → Prop :=
  Relation.ReflTransGen (fun before count => rule speed (count - before)) 0

/-- A count at which a travel ends: the step that has led to it was the first to reach the depth. -/
structure Lands (rule : Int → Int → Prop) (speed depth count : Int) : Prop where
  reached : depth.natAbs ≤ count.natAbs
  last : ∃ before, Reaches rule speed before ∧ before.natAbs < depth.natAbs ∧
    rule speed (count - before)

section Travel

variable {config : Config} {speed depth : Int} {rule : Int → Int → Prop} {polls : List Entry}

theorem Polling.landings (polling : Polling config depth polls) (rest : List Entry) :
    Arm.landings (polls ++ rest) = Arm.landings rest := by
  induction polling with
  | done => rfl
  | short _ _ _ step => exact step

/-- While it is polled, the lift keeps its speed and its counter follows its position. -/
theorem Polling.kept (polling : Polling config depth polls) (gauge : Gauge) :
    (gauge.after polls).speed = gauge.speed ∧
      (gauge.after polls).position - (gauge.after polls).count = gauge.position - gauge.count := by
  induction polling generalizing gauge with
  | done => exact ⟨rfl, rfl⟩
  | @short count _ _ other _ step =>
    obtain ⟨speed, origin⟩ := step ((gauge.next ⟨.look, count⟩).next ⟨.pause _, other⟩)
    refine ⟨speed, origin.trans ?_⟩
    simp only [Gauge.next]
    omega

/-- Polls that find the lift short leave it short, at a count that it can reach. -/
theorem Polling.reaches (polling : Polling config depth polls) (gauge : Gauge)
    (follows : gauge.Follows rule polls) (reached : Reaches rule gauge.speed gauge.count)
    (short : gauge.count.natAbs < depth.natAbs) :
    Reaches rule gauge.speed (gauge.after polls).count ∧
      (gauge.after polls).count.natAbs < depth.natAbs := by
  induction polling generalizing gauge with
  | done => exact ⟨reached, short⟩
  | @short count polls further _ _ step =>
    obtain ⟨moved, -, rest⟩ := follows
    exact step _ rest (reached.tail (moved rfl)) further

/-- A travel lands at one count, which is where the lift has moved to. -/
theorem Travels.landed {trace : List Entry} (travels : Travels config speed depth trace)
    (deep : 0 < depth) :
    ∃ count, (∀ rest, Arm.landings (trace ++ rest) = count :: Arm.landings rest) ∧
      ∀ gauge : Gauge, (gauge.after trace).position = gauge.position + count ∧
        ∀ rule, gauge.Follows rule trace → Lands rule speed depth count := by
  cases travels with
  | @reached polls count polling reached zeroed started stopped =>
    refine ⟨count, ?_, ?_⟩
    · intro rest
      simp only [List.cons_append, List.append_assoc, Arm.landings, polling.landings]
      rfl
    · intro gauge
      -- Behind the start the counter is zero and the lift runs.
      let begun : Gauge := ⟨speed, 0, gauge.position⟩
      have split : gauge.after (⟨.zero, zeroed⟩ :: ⟨.lift speed, started⟩ ::
          (polls ++ [⟨.look, count⟩, ⟨.lift 0, stopped⟩])) =
          (begun.after polls).after [⟨.look, count⟩, ⟨.lift 0, stopped⟩] :=
        begun.after_append
      obtain ⟨kept, origin⟩ := polling.kept begun
      constructor
      · have shown : (gauge.position - 0 : Int) + count = gauge.position + count := by omega
        rw [split, ← shown, ← origin]
        simp only [Gauge.after, List.foldl_cons, List.foldl_nil, Gauge.next]
        omega
      · intro rule follows
        obtain ⟨-, -, follows⟩ := follows
        obtain ⟨polled, moved, -⟩ := Gauge.follows_append_iff.mp follows
        obtain ⟨reaches, short⟩ := polling.reaches begun polled .refl
          (Int.natAbs_pos.mpr (Int.ne_of_gt deep))
        refine ⟨reached, _, reaches, short, ?_⟩
        have last := moved rfl
        rwa [show ((gauge.next _).next _).after polls = begun.after polls from rfl, kept] at last

end Travel

/-! ### Tasks -/

section Deed

variable {config : Config}

/-- Moves without a travel never look at the count. -/
theorem Carries.blind {moves : List Move} {trace : List Entry}
    (carries : Carries config moves trace)
    (still : ∀ move ∈ moves, ∀ direction depth, move ≠ .travel direction depth) :
    ∀ entry ∈ trace, entry.call ≠ .look := by
  induction carries with
  | nil => simp
  | cons first _ step =>
    simp only [List.forall_mem_cons] at still
    simp only [List.forall_mem_append]
    refine ⟨?_, step still.2⟩
    cases first with
    | travel => exact absurd rfl (still.1 _ _)
    | _ => simp

/-- What a deed does to the lift: nothing to be seen, or a travel down and one up. -/
inductive Deed.Legs (deed : Deed config) : Prop where
  | none (landed : landings deed.trace = [])
      (position : ∀ gauge : Gauge, (gauge.after deed.trace).position = gauge.position)
  | two {depth low high : Int} (landed : landings deed.trace = [low, high])
      (position : ∀ gauge : Gauge, (gauge.after deed.trace).position = gauge.position + low + high)
      (lands : ∀ {rule : Int → Int → Prop} {gauge : Gauge}, gauge.Follows rule deed.trace →
        Lands rule config.liftSpeed depth low ∧ Lands rule (-config.liftSpeed) depth high)

theorem Deed.legs_of_moves (deed : Deed config)
    (still : ∀ move ∈ deed.job.moves config, ∀ direction depth, move ≠ .travel direction depth) :
    deed.Legs := by
  obtain ⟨position, landed⟩ := unseen ((carries_of_completes deed.completed).blind still)
  refine .none ?_ position
  simpa [landings] using landed []

/-- A grip lands twice, and the position moves by the sum of both counts. -/
theorem Grips.legs {depth : Int} {angle : Float32} {trace : List Entry}
    (grips : Grips config depth angle trace) (deep : 0 < depth) :
    ∃ low high, landings trace = [low, high] ∧
      (∀ gauge : Gauge, (gauge.after trace).position = gauge.position + low + high) ∧
      ∀ {rule : Int → Int → Prop} {gauge : Gauge}, gauge.Follows rule trace →
        Lands rule config.liftSpeed depth low ∧ Lands rule (-config.liftSpeed) depth high := by
  cases grips with
  | @complete approach down between up settle approaches lowers works raises =>
    have blind : ∀ entry ∈ approach, entry.call ≠ .look := by
      intro entry inside looks
      have still := approaches entry inside
      rw [looks] at still
      cases still
    have pausing : ∀ entry ∈ between, entry.call ≠ .look := by
      intro entry inside looks
      have worked := List.mem_map_of_mem (f := Entry.call) inside
      rw [works, looks] at worked
      simp at worked
    obtain ⟨low, lowLanded, lowered⟩ := lowers.landed deep
    obtain ⟨high, highLanded, raised⟩ := raises.landed deep
    obtain ⟨approached, approachLanded⟩ := unseen blind
    obtain ⟨paused, pauseLanded⟩ := unseen pausing
    refine ⟨low, high, ?_, ?_, ?_⟩
    · have none := highLanded []
      rw [List.append_nil] at none
      rw [approachLanded, List.append_assoc, lowLanded, pauseLanded, none]
      rfl
    · intro gauge
      simp only [Gauge.after_append, (raised _).1, paused, (lowered _).1, approached]
    · intro rule gauge follows
      simp only [Gauge.follows_append_iff] at follows
      exact ⟨(lowered _).2 rule follows.2.1.1, (raised _).2 rule follows.2.2⟩

/-- A job travels down and up again, or not at all. -/
theorem Deed.legs (deed : Deed config) : deed.Legs := by
  cases job : deed.job with
  | reset =>
    apply deed.legs_of_moves
    simp [job, Job.moves, Task.resetMoves]
  | perform task =>
    cases grip : task.grip? config with
    | none =>
      apply deed.legs_of_moves
      cases task <;> simp [Task.grip?] at grip <;>
        simp [job, Job.moves, Task.moves, Task.resetMoves]
    | some gripped =>
      obtain ⟨depth, angle⟩ := gripped
      by_cases deep : 0 < depth
      · obtain ⟨low, high, landed, position, lands⟩ := (deed.grips job grip deep).legs deep
        exact .two landed position lands
      · -- Without a depth the lift does not travel at all.
        obtain ⟨approach, settle, still, moves⟩ := moves_of_grip grip
        apply deed.legs_of_moves
        have travel (direction : Direction) : Task.travel direction depth = [] :=
          if_pos (Int.not_lt.mp deep)
        rw [job, Job.moves, moves, travel, travel]
        simp only [List.forall_mem_append]
        refine ⟨?_, by simp⟩
        rintro move inside direction depth rfl
        cases still _ inside

end Deed

/-! ### Sessions -/

section Session

variable {config : Config}

theorem Obeys.along {speed steps : Int} (obeys : Obeys speed steps) :
    (0 < speed → 0 < steps) ∧ (speed < 0 → steps < 0) := by
  constructor
  · intro rising
    exact Int.sign_eq_one_iff_pos.mp (obeys.trans (Int.sign_eq_one_iff_pos.mpr rising))
  · intro falling
    exact Int.sign_eq_neg_one_iff_neg.mp (obeys.trans (Int.sign_eq_neg_one_iff_neg.mpr falling))

theorem Reaches.along {speed count : Int} (reaches : Reaches Obeys speed count) :
    (0 < speed → 0 ≤ count) ∧ (speed < 0 → count ≤ 0) := by
  induction reaches with
  | refl => simp
  | tail _ moved step =>
    have moved := Obeys.along moved
    omega

/-- A lift that obeys lands on the side that it travels to. -/
theorem Lands.along {speed depth count : Int} (lands : Lands Obeys speed depth count) :
    (0 < speed → 0 < count) ∧ (speed < 0 → count < 0) := by
  obtain ⟨before, reaches, -, moved⟩ := lands.last
  have reached := reaches.along
  have moved := Obeys.along moved
  omega

/-- A deed brings the lift back to where it was if its travels are equally long. -/
theorem Deed.back_iff (deed : Deed config) (lowers : 0 < config.liftSpeed) {gauge : Gauge}
    (obeyed : gauge.Follows Obeys deed.trace) :
    (gauge.after deed.trace).position = gauge.position ↔ deed.Even := by
  cases deed.legs with
  | none landed position => simp [Even, landed, position]
  | @two depth low high landed position lands =>
    obtain ⟨down, up⟩ := lands obeyed
    have below := down.along.1 lowers
    have above := up.along.2 (by omega)
    have even : deed.Even ↔ low.natAbs = high.natAbs := by
      constructor
      · intro even
        exact even low (by simp [landed]) high (by simp [landed])
      · intro same
        simp [Even, landed, same]
    rw [even, position]
    omega

/-- The lift is back after every job exactly when the two legs of each cancel. -/
theorem back_at_start_iff (lowers : 0 < config.liftSpeed) {session : List (Deed config)}
    {gauge : Gauge} (obeyed : gauge.Follows Obeys (calls session)) :
    (∀ deeds, deeds <+: session → (gauge.after (calls deeds)).position = gauge.position) ↔
      ∀ deed ∈ session, deed.Even := by
  induction session generalizing gauge with
  | nil =>
    simp [calls, Gauge.after]
  | cons deed session step =>
    have split (deeds : List (Deed config)) : gauge.after (calls (deed :: deeds)) =
        (gauge.after deed.trace).after (calls deeds) := gauge.after_append
    obtain ⟨first, rest⟩ := Gauge.follows_append_iff.mp obeyed
    have back := deed.back_iff lowers first
    simp only [List.forall_mem_cons, ← step rest, ← back]
    constructor
    · intro level
      have behind : (gauge.after deed.trace).position = gauge.position := by
        have single := level [deed] (by simp)
        rwa [split] at single
      refine ⟨behind, ?_⟩
      intro deeds initial
      rw [behind, ← split]
      exact level (deed :: deeds) (List.prefix_cons_inj deed |>.mpr initial)
    · rintro ⟨behind, further⟩ deeds initial
      cases deeds with
      | nil => rfl
      | cons other deeds =>
        obtain ⟨rfl, inner⟩ := List.cons_prefix_cons.mp initial
        rw [split, further deeds inner, behind]

/-- A lift that obeys is back at the top behind every job exactly if the travels of each are equally
long. -/
theorem at_top_iff (lowers : 0 < config.liftSpeed) (session : List (Deed config))
    (obeyed : Gauge.top.Follows Obeys (calls session)) :
    (∀ deeds, deeds <+: session → (Gauge.top.after (calls deeds)).position = 0) ↔
      ∀ deed ∈ session, deed.Even :=
  back_at_start_iff lowers obeyed

/-- The trace of a pick from the plate whose travels both end with their first look. -/
def platePick (down up : Int) : List Entry :=
  [⟨.servo .base 0, 0⟩, ⟨.servo .claw 10, 0⟩, ⟨.pause 300, 0⟩,
    ⟨.zero, 0⟩, ⟨.lift 5000, 0⟩, ⟨.look, down⟩, ⟨.lift 0, down⟩,
    ⟨.pause 200, down⟩, ⟨.servo .claw 60, down⟩, ⟨.pause 500, down⟩,
    ⟨.zero, 0⟩, ⟨.lift (-5000), 0⟩, ⟨.look, up⟩, ⟨.lift 0, up⟩]

def evenPick : Deed {} := ⟨.perform .pickFromRaw, platePick 8100 (-8100), by decide +kernel⟩

def unevenPick : Deed {} := ⟨.perform .pickFromRaw, platePick 10000 (-8000), by decide +kernel⟩

theorem at_top_iff_evenPick :
    Gauge.top.Follows Obeys (calls [evenPick]) ∧
      ∀ deeds, deeds <+: [evenPick] → (Gauge.top.after (calls deeds)).position = 0 := by
  have obeyed : Gauge.top.Follows Obeys (calls [evenPick]) := by decide +kernel
  refine ⟨obeyed, (at_top_iff (by decide) [evenPick] obeyed).mpr ?_⟩
  simp only [List.forall_mem_singleton, Deed.Even]
  decide +kernel

/-- A lift that obeys, and that a pick leaves two thousand steps below the top. -/
theorem ends_below_top :
    0 < ({} : Config).liftSpeed ∧ Gauge.top.Follows Obeys (calls [unevenPick]) ∧
      (Gauge.top.after (calls [unevenPick])).position = 2000 := by
  decide +kernel

/-! ### Lifts with a pace -/

/-- A trace that follows a rule follows every weaker one. -/
theorem Gauge.Follows.mono {rule other : Int → Int → Prop} {gauge : Gauge} {trace : List Entry}
    (follows : gauge.Follows rule trace)
    (weaker : ∀ {speed steps}, rule speed steps → other speed steps) :
    gauge.Follows other trace := by
  induction trace generalizing gauge with
  | nil => trivial
  | cons entry trace step =>
    obtain ⟨moved, rest⟩ := follows
    refine ⟨?_, step rest⟩
    intro looks
    exact weaker (moved looks)

/-- The lift moves in the direction of its speed, by one step more than `most` at the most. -/
def Paced (most : Nat) (speed steps : Int) : Prop := Obeys speed steps ∧ steps.natAbs ≤ most + 1

/-- The two travels of a deed differ by less than the lift moves between two looks. -/
theorem Deed.drift_le (deed : Deed config) (lowers : 0 < config.liftSpeed) {most : Nat}
    {gauge : Gauge} (paced : gauge.Follows (Paced most) deed.trace) :
    ((gauge.after deed.trace).position - gauge.position).natAbs ≤ most := by
  cases deed.legs with
  | none _ position => simp [position]
  | @two depth low high _ position lands =>
    obtain ⟨down, up⟩ := lands (paced.mono And.left)
    have below := down.along.1 lowers
    have above := up.along.2 (by omega)
    obtain ⟨⟨lowered, _, -, short, -, step⟩, ⟨raised, _, -, short', -, step'⟩⟩ := lands paced
    rw [position]
    omega

/-- With every job, a lift drifts by less than it moves between two looks. -/
theorem drift_le (lowers : 0 < config.liftSpeed) {most : Nat} (session : List (Deed config))
    (gauge : Gauge) (paced : gauge.Follows (Paced most) (calls session)) :
    ((gauge.after (calls session)).position - gauge.position).natAbs ≤ session.length * most := by
  induction session generalizing gauge with
  | nil => simp [calls, Gauge.after]
  | cons deed session step =>
    obtain ⟨first, rest⟩ := Gauge.follows_append_iff.mp paced
    have split : gauge.after (calls (deed :: session)) =
        (gauge.after deed.trace).after (calls session) := gauge.after_append
    have moved := deed.drift_le lowers first
    have behind := step _ rest
    rw [split, List.length_cons, Nat.succ_mul]
    omega

/-- At a steady pace the count is a multiple of the pace. -/
theorem Reaches.multiple {pace : Nat} {speed count : Int}
    (reaches : Reaches (Steady pace) speed count) :
    ∃ looks : Nat, count = speed.sign * (pace * looks : Nat) := by
  induction reaches with
  | refl => exact ⟨0, by simp⟩
  | @tail before count _ moved step =>
    obtain ⟨looks, reached⟩ := step
    have moved : count - before = speed.sign * pace := moved
    refine ⟨looks + 1, ?_⟩
    push_cast at reached ⊢
    linarith

/-- A steady lift lands at the first multiple of its pace that is not less than the depth. -/
theorem Lands.multiple {pace : Nat} {speed depth count : Int} (runs : speed ≠ 0)
    (lands : Lands (Steady pace) speed depth count) :
    ∃ looks : Nat, count.natAbs = pace * (looks + 1) ∧ pace * looks < depth.natAbs ∧
      depth.natAbs ≤ pace * (looks + 1) := by
  obtain ⟨before, reaches, short, moved⟩ := lands.last
  obtain ⟨looks, rfl⟩ := reaches.multiple
  have moved : count - speed.sign * (pace * looks : Nat) = speed.sign * pace := moved
  have landed : count = speed.sign * (pace * (looks + 1) : Nat) := by
    push_cast at moved ⊢
    linarith
  have size (steps : Nat) : (speed.sign * steps).natAbs = steps := by
    rw [Int.natAbs_mul, Int.natAbs_sign_of_ne_zero runs, Nat.one_mul, Int.natAbs_natCast]
  have reached := lands.reached
  rw [landed, size] at reached
  rw [size] at short
  exact ⟨looks, by rw [landed, size], short, reached⟩

/-- Both travels of a steady lift are equally long. -/
theorem Deed.even_of_steady (deed : Deed config) (lowers : 0 < config.liftSpeed) {pace : Nat}
    {gauge : Gauge} (steady : gauge.Follows (Steady pace) deed.trace) : deed.Even := by
  cases deed.legs with
  | none landed => simp [Even, landed]
  | @two depth low high landed _ lands =>
    obtain ⟨down, up⟩ := lands steady
    obtain ⟨first, lowered, short, reached⟩ := down.multiple (by omega)
    obtain ⟨second, raised, short', reached'⟩ := up.multiple (by omega)
    -- Neither travel takes fewer looks than the other.
    have most : first < second + 1 := Nat.lt_of_mul_lt_mul_left (short.trans_le reached')
    have least : second < first + 1 := Nat.lt_of_mul_lt_mul_left (short'.trans_le reached)
    have same : first = second := by omega
    simp [Even, landed, lowered, raised, same]

/-- A lift that moves by the same number of steps between any two looks is back at the top behind
every job. -/
theorem steady_at_top (lowers : 0 < config.liftSpeed) {pace : Nat} (moves : 0 < pace)
    (session : List (Deed config)) (steady : Gauge.top.Follows (Steady pace) (calls session)) :
    ∀ deeds, deeds <+: session → (Gauge.top.after (calls deeds)).position = 0 := by
  have obeyed : Gauge.top.Follows Obeys (calls session) := by
    apply steady.mono
    rintro speed steps rfl
    simp [Obeys, Int.sign_mul, Int.sign_natCast_of_ne_zero (Nat.ne_of_gt moves)]
  apply (back_at_start_iff lowers obeyed).mpr
  intro deed inside
  obtain ⟨before, after, rfl⟩ := List.append_of_mem inside
  have split : calls (before ++ deed :: after) = calls before ++ (deed.trace ++ calls after) := by
    simp [calls]
  rw [split, Gauge.follows_append_iff, Gauge.follows_append_iff] at steady
  exact deed.even_of_steady lowers steady.2.1

end Session

end Mecanum.Arm
