import Mecanum.Proofs.Mission.Run

/-!
# Alignments that converge

An alignment has no bound of its own: it nudges as long as the ring is seen out of place. Suppose
that each nudge moves the ring in the image along one axis, by at least one pixel and by at most the
pixels of the dead band. Then no nudge jumps across the band, each brings its own axis nearer to the
reference point and leaves the other alone, and the alignment ends after no more nudges than there
were pixels outside the band.
-/
namespace Mecanum.Mission

open Motion (Mode)

/-! ### One nudge -/

namespace Alignment

/-- By how many pixels an error leaves the dead band. -/
def excess (tolerance error : Int) : Nat := error.natAbs - tolerance.toNat

theorem excess_le (tolerance error : Int) : excess tolerance error ≤ error.natAbs := Nat.sub_le ..

theorem excess_eq_zero_iff {tolerance error : Int} (proper : 0 ≤ tolerance) :
    excess tolerance error = 0 ↔ -tolerance ≤ error ∧ error ≤ tolerance := by
  unfold excess
  omega

theorem excess_lt {tolerance error next : Int} (off : 0 < excess tolerance error)
    (nearer : next.natAbs < error.natAbs) : excess tolerance next < excess tolerance error := by
  unfold excess at off ⊢
  omega

theorem Fits.of_nearer {error next : Int} (fits : Fits error)
    (nearer : next.natAbs < error.natAbs) : Fits next := by
  unfold Fits at fits ⊢
  omega

variable {alignment : Alignment} {approach : Approach} {x y : Int} {mode : Mode}

/-- The excess along the robot. -/
def excessAlong (alignment : Alignment) (x : Int) : Nat :=
  excess alignment.tolerance (x - alignment.referenceX)

/-- The excess across the robot. -/
def excessAcross (alignment : Alignment) (y : Int) : Nat :=
  excess alignment.tolerance (y - alignment.referenceY)

theorem inside_iff (proper : 0 ≤ alignment.tolerance) :
    alignment.Inside x y ↔ alignment.excessAlong x = 0 ∧ alignment.excessAcross y = 0 :=
  (and_congr (excess_eq_zero_iff proper) (excess_eq_zero_iff proper)).symm

/-- A target at a pixel calls for a nudge, and no difference leaves its word. -/
def Asks (alignment : Alignment) (approach : Approach) (x y : Int) (mode : Mode) : Prop :=
  alignment.correction x y approach.speed approach.distance =
    .ok (some (.drive mode approach.speed approach.distance))

/-- Where a target is seen behind a nudge that moves it by so many pixels. -/
def shifted (mode : Mode) (pixels x y : Int) : Int × Int :=
  match mode with
  | .backward => (x - pixels, y)
  | .forward => (x + pixels, y)
  | .slideRight => (x, y - pixels)
  | .slideLeft => (x, y + pixels)
  | _ => (x, y)

/-- A nudge brings a target nearer along the robot, or nearer across it once it is right along. -/
inductive Nearer (alignment : Alignment) (x y : Int) : Mode → Int × Int → Prop
  | along {mode : Mode} {next : Int} (turn : mode = .backward ∨ mode = .forward)
      (off : 0 < alignment.excessAlong x)
      (nearer : (next - alignment.referenceX).natAbs < (x - alignment.referenceX).natAbs) :
      Nearer alignment x y mode (next, y)
  | across {mode : Mode} {next : Int} (turn : mode = .slideRight ∨ mode = .slideLeft)
      (level : alignment.excessAlong x = 0) (off : 0 < alignment.excessAcross y)
      (nearer : (next - alignment.referenceY).natAbs < (y - alignment.referenceY).natAbs) :
      Nearer alignment x y mode (x, next)

/-- What a nudge lowers is the sum of both excesses, and no difference grows out of its word. -/
theorem Nearer.keeps {next : Int × Int} (nearer : alignment.Nearer x y mode next)
    (fitsX : Fits (x - alignment.referenceX)) (fitsY : Fits (y - alignment.referenceY)) :
    alignment.excessAlong next.1 + alignment.excessAcross next.2 <
        alignment.excessAlong x + alignment.excessAcross y ∧
      Fits (next.1 - alignment.referenceX) ∧ Fits (next.2 - alignment.referenceY) := by
  cases nearer with
  | along _ off nearer =>
    exact ⟨Nat.add_lt_add_right (excess_lt off nearer) _, fitsX.of_nearer nearer, fitsY⟩
  | across _ _ off nearer =>
    exact ⟨Nat.add_lt_add_left (excess_lt off nearer) _, fitsX, fitsY.of_nearer nearer⟩

/-- A target out of place calls for a nudge, which cannot jump across the dead band. -/
theorem Asks.nearer {pixels : Int} (asked : alignment.Asks approach x y mode)
    (proper : 0 ≤ alignment.tolerance) (fitsX : Fits (x - alignment.referenceX))
    (fitsY : Fits (y - alignment.referenceY)) (least : 1 ≤ pixels)
    (greatest : pixels ≤ 2 * alignment.tolerance + 1) :
    alignment.Nearer x y mode (shifted mode pixels x y) := by
  obtain ⟨settled, corrected⟩ := correction_of_fits fitsX fitsY approach.speed approach.distance
  unfold Asks at asked
  by_cases inside : alignment.Inside x y
  · rw [settled inside] at asked
    cases asked
  rw [corrected inside] at asked
  by_cases level : alignment.excessAlong x = 0
  · have within := (excess_eq_zero_iff proper).mp level
    have off : alignment.excessAcross y ≠ 0 := fun zero =>
      inside ((inside_iff proper).mpr ⟨level, zero⟩)
    have outside := mt (excess_eq_zero_iff proper).mpr off
    simp only [nudge, if_pos within] at asked
    split at asked <;> cases asked
    · exact .across (.inl rfl) level (Nat.pos_of_ne_zero off) (by omega)
    · exact .across (.inr rfl) level (Nat.pos_of_ne_zero off) (by omega)
  · have outside := mt (excess_eq_zero_iff proper).mpr level
    simp only [nudge, if_neg outside] at asked
    split at asked <;> cases asked
    · exact .along (.inl rfl) (Nat.pos_of_ne_zero level) (by omega)
    · exact .along (.inr rfl) (Nat.pos_of_ne_zero level) (by omega)

theorem exists_asks (fitsX : Fits (x - alignment.referenceX))
    (fitsY : Fits (y - alignment.referenceY)) (outside : ¬alignment.Inside x y) :
    ∃ mode, alignment.Asks approach x y mode :=
  ⟨_, (correction_of_fits fitsX fitsY approach.speed approach.distance).2 outside⟩

end Alignment

/-! ### Rounds -/

/-- A sighting out of place, with the nudge made for it. -/
structure Round where
  x : Int
  y : Int
  mode : Mode

def Round.exchanges (config : Config) (approach : Approach) (round : Round) : List Exchange :=
  [⟨.sight approach.ring, .position round.x round.y⟩,
    ⟨.drive (.drive round.mode approach.speed approach.distance), .done⟩,
    ⟨.pause config.alignSettle, .done⟩]

/-- An alignment: rounds along the robot, rounds across it, and the last sighting. -/
structure Course where
  along : List Round
  across : List Round
  lastX : Int
  lastY : Int

namespace Course

variable {course : Course} {alignment : Alignment} {config : Config} {approach : Approach}
  {x y : Int} {mode : Mode}

def rounds (course : Course) : List Round := course.along ++ course.across

def exchanges (config : Config) (approach : Approach) (course : Course) : List Exchange :=
  course.rounds.flatMap (Round.exchanges config approach) ++
    [⟨.sight approach.ring, .position course.lastX course.lastY⟩]

/-- A course leads from a pixel into the dead band: every sighting asks for the nudge of its round,
but the last asks for none. -/
structure Settles (course : Course) (alignment : Alignment) (approach : Approach) (x y : Int) :
    Prop where
  asked : ∀ round ∈ course.rounds, alignment.Asks approach round.x round.y round.mode
  settled : alignment.correction course.lastX course.lastY approach.speed approach.distance =
    .ok none
  inside : alignment.Inside course.lastX course.lastY
  along : ∀ round ∈ course.along, round.mode = .backward ∨ round.mode = .forward
  across : ∀ round ∈ course.across, round.mode = .slideRight ∨ round.mode = .slideLeft
  alongLe : course.along.length ≤ alignment.excessAlong x
  acrossLe : course.across.length ≤ alignment.excessAcross y

/-- A course with a round before it. -/
structure Prepends (longer : Course) (round : Round) (course : Course) : Prop where
  rounds : longer.rounds = round :: course.rounds
  lastX : longer.lastX = course.lastX
  lastY : longer.lastY = course.lastY

theorem Prepends.exchanges {longer : Course} {round : Round}
    (prepends : longer.Prepends round course) :
    longer.exchanges config approach =
      round.exchanges config approach ++ course.exchanges config approach := by
  obtain ⟨rounds, lastX, lastY⟩ := prepends
  simp only [Course.exchanges, rounds, lastX, lastY, List.flatMap_cons, List.append_assoc]

/-- A round that brings the target nearer, before a course from there on. A round across the robot
comes before no rounds along it, for there the target is right along already. -/
theorem Settles.prepend {next : Int × Int}
    (settles : course.Settles alignment approach next.1 next.2)
    (asked : alignment.Asks approach x y mode) (nearer : alignment.Nearer x y mode next) :
    ∃ longer : Course, longer.Prepends ⟨x, y, mode⟩ course ∧
      longer.Settles alignment approach x y := by
  obtain ⟨along, across, lastX, lastY⟩ := course
  cases nearer with
  | along turn off nearer =>
    refine ⟨⟨⟨x, y, mode⟩ :: along, across, lastX, lastY⟩, ⟨rfl, rfl, rfl⟩, ?_⟩
    exact {
      settles with
      asked := List.forall_mem_cons.mpr ⟨asked, settles.asked⟩
      along := List.forall_mem_cons.mpr ⟨turn, settles.along⟩
      alongLe := Nat.lt_of_le_of_lt settles.alongLe (Alignment.excess_lt off nearer) }
  | across turn level off nearer =>
    have empty : along = [] :=
      List.length_eq_zero_iff.mp (Nat.le_zero.mp (level ▸ settles.alongLe))
    subst empty
    refine ⟨⟨[], ⟨x, y, mode⟩ :: across, lastX, lastY⟩, ⟨rfl, rfl, rfl⟩, ?_⟩
    exact {
      settles with
      asked := List.forall_mem_cons.mpr ⟨asked, settles.asked⟩
      across := List.forall_mem_cons.mpr ⟨turn, settles.across⟩
      acrossLe := Nat.lt_of_le_of_lt settles.acrossLe (Alignment.excess_lt off nearer) }

end Course

/-! ### Cameras that follow the nudges -/

variable {W : Type} [Responder W]

/-- A camera that sees the ring of an approach at a pixel, and a chassis that moves that pixel along
the axis of each nudge asked for, by at least one and at most the pixels of the dead band. Looks and
pauses leave the pixel alone, and no watchdog runs out. -/
structure Steered (config : Config) (approach : Approach) (Sees : W → Int → Int → Prop) : Prop where
  look {world : W} {x y : Int} : Sees world x y → ∃ next,
    Responder.EndsInTime config world (.sight approach.ring) (.position x y) next ∧ Sees next x y
  settle {world : W} {x y : Int} : Sees world x y → ∃ next,
    Responder.EndsInTime config world (.pause config.alignSettle) .done next ∧ Sees next x y
  nudge {world : W} {x y : Int} {mode : Mode} : Sees world x y →
    config.alignment.Asks approach x y mode → ∃ pixels next,
      (1 ≤ pixels ∧ pixels ≤ 2 * config.alignment.tolerance + 1) ∧
      Responder.EndsInTime config world (.drive (.drive mode approach.speed approach.distance))
        .done next ∧
      Sees next (Alignment.shifted mode pixels x y).1 (Alignment.shifted mode pixels x y).2

section Steered

variable {runner : Runner} {approach : Approach} {rest : Script} {event : Event}
  {notes : List Journal.Note} {world seen driven next final : W} {x y : Int} {mode : Mode}
  {last : Progress} {later : List Exchange} {Sees : W → Int → Int → Prop}

/-- A round of an alignment ends where it began, with the ring to be sighted. -/
theorem Conversation.round (asked : runner.config.alignment.Asks approach x y mode)
    (looked : Responder.EndsInTime runner.config world (.sight approach.ring) (.position x y) seen)
    (drove : Responder.EndsInTime runner.config seen
      (.drive (.drive mode approach.speed approach.distance)) .done driven)
    (paused : Responder.EndsInTime runner.config driven (.pause runner.config.alignSettle) .done
      next)
    (onward : Conversation ⟨runner.facing (.align approach) rest event, [], none⟩ next later last
      final) :
    Conversation ⟨runner.facing (.align approach) rest event, notes, none⟩ world
      (Round.exchanges runner.config approach ⟨x, y, mode⟩ ++ later) last final := by
  refine .step_in_time rfl rfl looked (Runner.reply_nudged asked) ?_
  refine .step_in_time rfl rfl drove rfl ?_
  exact .step_in_time rfl rfl paused rfl onward

/-- From a sighting whose differences are words, a steered alignment takes a course into the dead
band. -/
theorem Steered.exists_course (steered : Steered runner.config approach Sees)
    (proper : 0 ≤ runner.config.alignment.tolerance)
    (fitsX : Alignment.Fits (x - runner.config.alignment.referenceX))
    (fitsY : Alignment.Fits (y - runner.config.alignment.referenceY)) (sees : Sees world x y) :
    ∃ (course : Course) (final : W), course.Settles runner.config.alignment approach x y ∧
      Sees final course.lastX course.lastY ∧
      Conversation ⟨runner.facing (.align approach) rest event, notes, none⟩ world
        (course.exchanges runner.config approach)
        ((runner.facing (.align approach) rest event).proceed event
          [.aligned approach.ring course.lastX course.lastY] rest) final := by
  -- Every nudge lowers the sum of both excesses.
  induction excess : runner.config.alignment.excessAlong x +
    runner.config.alignment.excessAcross y using Nat.strongRecOn generalizing x y world notes with
  | ind excess ih =>
    subst excess
    obtain ⟨seen, looked, sees⟩ := steered.look sees
    by_cases inside : runner.config.alignment.Inside x y
    · have settled := (Alignment.correction_of_fits fitsX fitsY approach.speed
        approach.distance).1 inside
      exact ⟨⟨[], [], x, y⟩, seen, ⟨nofun, settled, inside, nofun, nofun, Nat.zero_le _,
        Nat.zero_le _⟩, sees, .step_in_time rfl rfl looked (Runner.reply_aligned settled) .done⟩
    · obtain ⟨mode, asked⟩ := Alignment.exists_asks fitsX fitsY inside
      obtain ⟨pixels, driven, ⟨least, greatest⟩, drove, sees⟩ := steered.nudge sees asked
      obtain ⟨between, paused, sees⟩ := steered.settle sees
      have nearer := asked.nearer proper fitsX fitsY least greatest
      obtain ⟨less, nextFitsX, nextFitsY⟩ := nearer.keeps fitsX fitsY
      obtain ⟨course, final, settles, sees, onward⟩ := ih _ less nextFitsX nextFitsY sees rfl
      obtain ⟨longer, prepends, settles⟩ := settles.prepend asked nearer
      refine ⟨longer, final, settles, ?_, ?_⟩
      · rw [prepends.lastX, prepends.lastY]
        exact sees
      · rw [prepends.exchanges, prepends.lastX, prepends.lastY]
        exact .round asked looked drove paused onward

/-- A steered alignment ends: after at most as many nudges as there are pixels between the first
sighting and the reference point, the ring is sighted inside the dead band. All nudges along the
robot come before those across it, and no difference of coordinates leaves its word. -/
theorem alignment_converges (steered : Steered runner.config approach Sees)
    (proper : 0 ≤ runner.config.alignment.tolerance)
    (referenceX : -10000 ≤ runner.config.alignment.referenceX ∧
      runner.config.alignment.referenceX ≤ 10000)
    (referenceY : -10000 ≤ runner.config.alignment.referenceY ∧
      runner.config.alignment.referenceY ≤ 10000)
    (frame : Alignment.InFrame x y) (sees : Sees world x y) (rest : Script) (event : Event)
    (notes : List Journal.Note) :
    ∃ (course : Course) (final : W) (onward : Progress) (reported : List Journal.Note),
      course.Settles runner.config.alignment approach x y ∧
      course.rounds.length ≤ (x - runner.config.alignment.referenceX).natAbs +
        (y - runner.config.alignment.referenceY).natAbs ∧
      Sees final course.lastX course.lastY ∧
      onward = (runner.facing (.align approach) rest event).proceed event
        [.aligned approach.ring course.lastX course.lastY] rest ∧
      Conversation ⟨runner.facing (.align approach) rest event, notes, none⟩ world
        (course.exchanges runner.config approach) onward final ∧
      ∀ budget, (Progress.mk (runner.facing (.align approach) rest event) notes none).rehearse world
          ((course.exchanges runner.config approach).length + budget) =
        (onward.rehearse final budget).map
          (.after (calls (course.exchanges runner.config approach)) reported) := by
  obtain ⟨⟨left, right⟩, above, below⟩ := frame
  obtain ⟨course, final, settles, sees, conversation⟩ :=
    steered.exists_course proper ⟨by omega, by omega⟩ ⟨by omega, by omega⟩ sees
  obtain ⟨reported, rehearsed⟩ := conversation.rehearse
  refine ⟨course, final, _, reported, settles, ?_, sees, rfl, conversation, rehearsed⟩
  rw [Course.rounds, List.length_append]
  exact Nat.add_le_add (Nat.le_trans settles.alongLe (Alignment.excess_le ..))
    (Nat.le_trans settles.acrossLe (Alignment.excess_le ..))

end Steered

/-! ### A camera that follows -/

/-- A ring in the image, and by how many pixels each nudge to come will move it. -/
structure Picture where
  x : Int
  y : Int
  shifts : List Int

namespace Picture

/-- The picture behind a nudge. When no shifts are left, the ring moves by single pixels. -/
def nudged (picture : Picture) (mode : Mode) : Picture :=
  let place := Alignment.shifted mode (picture.shifts.headD 1) picture.x picture.y
  ⟨place.1, place.2, picture.shifts.tail⟩

instance : Responder Picture where
  awaitStart picture := .now () picture
  rezero := id
  awaitToken picture := .now [] picture
  drive picture command := .now () (picture.nudged command.mode)
  halt := id
  arm picture _ := .now () picture
  awaitTarget picture _ := .now () picture
  sight picture _ := .now (picture.x, picture.y) picture
  pause picture _ := .now () picture

/-- A picture shows the ring at a pixel, and no shift to come is wider than the dead band. -/
structure Shows (tolerance : Int) (picture : Picture) (x y : Int) : Prop where
  x : picture.x = x
  y : picture.y = y
  shifts : ∀ shift ∈ picture.shifts, 1 ≤ shift ∧ shift ≤ 2 * tolerance + 1

/-- A picture that shifts by at most the dead band can be steered. -/
theorem steered {config : Config} (proper : 0 ≤ config.alignment.tolerance) (approach : Approach) :
    Steered config approach (Shows config.alignment.tolerance) where
  look {picture _ _} shows := by
    cases shows.x
    cases shows.y
    exact ⟨picture, rfl, rfl, rfl, shows.shifts⟩
  settle {picture _ _} shows := ⟨picture, rfl, shows⟩
  nudge {picture x y mode} shows asked := by
    obtain ⟨_, _, shifts⟩ := picture
    obtain ⟨rfl, rfl, narrow⟩ := shows
    cases shifts with
    | nil => exact ⟨1, _, ⟨by omega, by omega⟩, rfl, rfl, rfl, nofun⟩
    | cons shift shifts =>
      obtain ⟨here, later⟩ := List.forall_mem_cons.mp narrow
      exact ⟨shift, _, here, rfl, rfl, rfl, later⟩

end Picture

/-- A ring off on both axes, with nudges of one pixel, of the widest shift and of others between. -/
theorem alignment_converges_picture :
    Steered (Runner.new {}).config ⟨4, 20, 10⟩ (Picture.Shows 10) ∧
      Picture.Shows 10 ⟨200, 100, [1, 21, 13, 5, 20]⟩ 200 100 ∧ Alignment.InFrame 200 100 ∧
      ∃ (course : Course) (final : Picture),
        course.Settles {} ⟨4, 20, 10⟩ 200 100 ∧ course.rounds.length ≤ 80 ∧
        Picture.Shows 10 final course.lastX course.lastY ∧
        Conversation ⟨(Runner.new {}).facing (.align ⟨4, 20, 10⟩) [] .completed, [], none⟩
          (Picture.mk 200 100 [1, 21, 13, 5, 20])
          (course.exchanges {} ⟨4, 20, 10⟩)
          (((Runner.new {}).facing (.align ⟨4, 20, 10⟩) [] .completed).proceed .completed
            [.aligned 4 course.lastX course.lastY] []) final := by
  have steered : Steered (Runner.new {}).config ⟨4, 20, 10⟩ (Picture.Shows 10) :=
    Picture.steered (by decide) ⟨4, 20, 10⟩
  have shows : Picture.Shows 10 ⟨200, 100, [1, 21, 13, 5, 20]⟩ 200 100 := ⟨rfl, rfl, by decide⟩
  have frame : Alignment.InFrame 200 100 := by decide
  obtain ⟨course, final, _, _, settles, few, last, rfl, conversation, _⟩ :=
    alignment_converges steered (by decide) (by decide) (by decide) frame shows [] .completed []
  exact ⟨steered, shows, frame, course, final, settles, few, last, conversation⟩

end Mecanum.Mission
