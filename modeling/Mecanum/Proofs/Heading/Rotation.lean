import Mecanum.Proofs.Heading.Rezero

/-!
# Unwrapped rotation

Between two samples less than 60 degrees apart the reading jumps by more than 300 degrees if it
passes the seam, and only then. So the wraps that the estimator counts are the turns that the
reading leaves out. As long as they are few, the estimator computes with angles of few bits, and
what it tells is exact.
-/
namespace Mecanum.Heading

open Binary32

def samples (heading : Nat → Int) (count : Nat) : List Float32 :=
  (List.range count).map fun moment => yaw (heading moment)

theorem samples_succ (heading : Nat → Int) (count : Nat) :
    samples heading (count + 1) = samples heading count ++ [yaw (heading count)] := by
  simp [samples, List.range_succ]

/-! ### One sample -/

/-- The threshold lies just below 54614 counts. -/
theorem threshold_lt_degrees_iff {counts : Int} :
    (300 : Int) < degrees counts ↔ 54614 ≤ counts := by
  have scaled : ((300 : Int) : ℚ) < degrees counts ↔ 300 * 8192 < counts * 45 := by
    rw [degrees, lt_div_iff₀ (by norm_num)]
    exact_mod_cast Iff.rfl
  rw [scaled]
  omega

/-- Samples less than 60 degrees apart count a wrap just as the reading leaves out a turn. -/
theorem wrapsOf_jump {last next : Int} (slow : (next - last).natAbs ≤ 10922) :
    65536 * Estimator.wrapsOf 300 (yaw next - yaw last) =
      (next - reading next) - (last - reading last) := by
  have jump := stores_jump last next
  have threshold : Stores 300 (300 : Int) := stores_of_eq_ofInt rfl (by decide)
  have opposite : Stores (-300) (-300 : Int) := stores_of_eq_ofInt rfl (by decide)
  have above : 300 < yaw next - yaw last ↔ 54614 ≤ reading next - reading last := by
    rw [threshold.lt_iff jump, threshold_lt_degrees_iff]
  have below : yaw next - yaw last < -300 ↔ 54614 ≤ reading last - reading next := by
    rw [jump.lt_iff opposite, ← neg_sub, degrees_neg, ← threshold_lt_degrees_iff, Int.cast_neg,
      neg_lt_neg_iff]
  -- The reading passes the seam by a whole turn, once at most.
  obtain ⟨turns, same⟩ := exists_turns last
  obtain ⟨turns', same'⟩ := exists_turns next
  have bounds := reading_bounds last
  have bounds' := reading_bounds next
  unfold Estimator.wrapsOf
  simp only [above, below]
  split
  · omega
  · split <;> omega

/-! ### Runs -/

/-- How an estimator stands behind samples from a first to a last heading. -/
structure Follows (first last : Int) (estimator : Estimator) : Prop where
  threshold : estimator.wrapThreshold = 300
  armed : estimator.armed = true
  zero : estimator.zeroReference = yaw first
  raw : estimator.lastRaw = yaw last
  wraps : 65536 * estimator.wraps = (last - reading last) - (first - reading first)

theorem follows_first (heading : Int) :
    Follows heading heading ((Estimator.new {}).observe (yaw heading)) where
  threshold := rfl
  armed := rfl
  zero := rfl
  raw := rfl
  wraps := (sub_self _).symm

variable {first last : Int} {estimator : Estimator}

/-- A slow rotation keeps the estimator following. -/
theorem Follows.observe (follows : Follows first last estimator) {next : Int}
    (slow : (next - last).natAbs ≤ 10922) : Follows first next (estimator.observe (yaw next)) := by
  have step := wrapsOf_jump slow
  have before := follows.wraps
  unfold Estimator.observe
  rw [if_pos follows.armed]
  refine ⟨follows.threshold, follows.armed, follows.zero, rfl, ?_⟩
  show 65536 * (estimator.wraps + Estimator.wrapsOf _ _) = _
  rw [follows.threshold, follows.raw]
  omega

/-- Over a slow trajectory the estimator follows the heading. -/
theorem follows_run (heading : Nat → Int) (count : Nat)
    (slow : ∀ moment < count, (heading (moment + 1) - heading moment).natAbs ≤ 10922) :
    Follows (heading 0) (heading count)
      ((Estimator.new {}).fed (samples heading (count + 1))) := by
  induction count with
  | zero => exact follows_first (heading 0)
  | succ count ih =>
    have before := ih fun moment early => slow moment (by omega)
    rw [samples_succ, Estimator.fed_concat]
    exact before.observe (slow count (by omega))

/-- Up to four turns are converted and multiplied exactly. -/
theorem stores_turns {wraps : Int} (few : wraps.natAbs ≤ 4) :
    Stores (360 * ofInt wraps) (degrees (65536 * wraps)) := by
  have turn : Stores 360 (360 : Int) := stores_of_eq_ofInt rfl (by decide)
  have product : degrees (65536 * wraps) = (360 : Int) * wraps := by
    unfold degrees
    push_cast
    ring
  rw [product]
  exact turn.mul (stores_ofInt (by omega)) (product ▸ storable_degrees (by omega))

namespace Follows

variable (follows : Follows first last estimator) (few : estimator.wraps.natAbs ≤ 4)

include follows few

theorem stores_continuous :
    Stores estimator.snapshot.continuous (degrees (last - first + reading first)) := by
  have bounds := reading_bounds last
  have unwrapped : last - first + reading first = reading last + 65536 * estimator.wraps := by
    have wraps := follows.wraps
    omega
  rw [unwrapped, degrees_add, Estimator.snapshot, follows.raw]
  exact (stores_yaw last).add (stores_turns few)
    (degrees_add .. ▸ storable_degrees (by omega))

/-- The relative heading stores the rotation since the start. -/
theorem stores_relative : Stores estimator.snapshot.relative (degrees (last - first)) := by
  have bounds := reading_bounds last
  have bounds' := reading_bounds first
  have wraps := follows.wraps
  have continuous := follows.stores_continuous few
  have difference : degrees (last - first) =
      degrees (last - first + reading first) - degrees (reading first) := by
    rw [← degrees_sub, add_sub_cancel_right]
  have zero : Stores estimator.zeroReference (degrees (reading first)) := by
    rw [follows.zero]
    exact stores_yaw first
  rw [difference]
  exact continuous.sub zero (difference ▸ storable_degrees (by omega))

end Follows

/-- What an update gives for the last of some headings, the first of which is the zero. -/
structure Unwraps (heading : Nat → Int) (count : Nat) (given : Snapshot × Estimator) : Prop where
  -- The wraps are the turns that the reading has left out since the first heading.
  wraps : 65536 * given.2.wraps =
    (heading count - reading (heading count)) - (heading 0 - reading (heading 0))
  -- The heading is told exactly, and so are the numbers it is made of.
  relative : given.2.wraps.natAbs ≤ 4 →
    Stores given.1.relative (degrees (heading count - heading 0))
  continuous : given.2.wraps.natAbs ≤ 4 →
    Stores given.1.continuous (degrees (heading count - heading 0 + reading (heading 0)))
  turns : given.2.wraps.natAbs ≤ 4 →
    Stores (360 * ofInt given.2.wraps) (degrees (65536 * given.2.wraps))
  sample : Stores (yaw (heading count)) (degrees (reading (heading count)))
  jump : ∀ moment < count,
    Stores (yaw (heading (moment + 1)) - yaw (heading moment))
      (degrees (reading (heading (moment + 1)) - reading (heading moment)))

/-- Over every slow trajectory the estimator unwraps the rotation exactly. -/
theorem unwraps_rotation (heading : Nat → Int) (count : Nat)
    (slow : ∀ moment < count, (heading (moment + 1) - heading moment).natAbs ≤ 10922) :
    Unwraps heading count
      (((Estimator.new {}).fed (samples heading count)).update (yaw (heading count))) := by
  have follows := follows_run heading count slow
  rw [samples_succ, Estimator.fed_concat] at follows
  exact {
    wraps := follows.wraps
    relative := follows.stores_relative
    continuous := follows.stores_continuous
    turns := stores_turns
    sample := stores_yaw _
    jump := fun moment _ => stores_jump .. }

/-- A rotation by just under 60 degrees a sample. -/
def spinning (moment : Nat) : Int := 10922 * moment

/-- Behind thirteen samples it has wrapped twice, and the heading is still exact. -/
theorem unwraps_rotation_spinning :
    (∀ moment < 13, (spinning (moment + 1) - spinning moment).natAbs ≤ 10922) ∧
      (((Estimator.new {}).fed (samples spinning 13)).update (yaw (spinning 13))).2.wraps = 2 ∧
      Stores (((Estimator.new {}).fed (samples spinning 13)).update (yaw (spinning 13))).1.relative
        (degrees 141986) := by
  have slow : ∀ moment < 13, (spinning (moment + 1) - spinning moment).natAbs ≤ 10922 := by
    decide
  have unwraps := unwraps_rotation spinning 13 slow
  have twice : 65536 * _ = (141986 - 10914 : Int) - (0 - 0) := unwraps.wraps
  exact ⟨slow, by omega, unwraps.relative (by omega)⟩

/-- One count more in a sample may pass the seam unseen. -/
example : ((Estimator.new {}).fed [yaw 21845, yaw 32768]).wraps = 0 := by decide +kernel

end Mecanum.Heading
