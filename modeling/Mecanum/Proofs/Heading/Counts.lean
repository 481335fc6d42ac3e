import Mecanum.Inertial.Packet
import Mecanum.Proofs.Binary32.Exact

/-!
# Yaws in counts

The true heading of the robot is an integer of any size, in counts of the inertial module, which
reads it modulo a full turn of 65536 counts. One count is 45/8192 of a degree, so an angle is a
multiple of that by an integer of few bits. A yaw and the jump between two yaws are such angles, and
they are computed without any rounding.
-/
namespace Mecanum.Heading

open Binary32

/-- What the inertial module reads of a heading. -/
def reading (heading : Int) : Int := heading.bmod 65536

/-- The yaw that is told for a heading. -/
def yaw (heading : Int) : Float32 := ofInt (reading heading) / 32768 * 180

def degrees (counts : Int) : ℚ := counts * 45 / 8192

theorem degrees_neg (counts : Int) : degrees (-counts) = -degrees counts := by
  unfold degrees
  push_cast
  ring

theorem degrees_add (counts more : Int) :
    degrees (counts + more) = degrees counts + degrees more := by
  unfold degrees
  push_cast
  ring

theorem degrees_sub (counts less : Int) :
    degrees (counts - less) = degrees counts - degrees less := by
  rw [sub_eq_add_neg, degrees_add, degrees_neg, sub_eq_add_neg]

/-- A reading differs from the heading by whole turns. -/
theorem exists_turns (heading : Int) :
    ∃ turns : Int, heading = reading heading + 65536 * turns := by
  obtain ⟨turns, left⟩ := Int.dvd_self_sub_bmod (x := heading) (m := 65536)
  refine ⟨turns, ?_⟩
  unfold reading
  push_cast at left
  omega

theorem reading_bounds (heading : Int) : -32768 ≤ reading heading ∧ reading heading ≤ 32767 := by
  have least := Int.le_bmod (x := heading) (m := 65536) (by decide)
  have most := Int.bmod_le (x := heading) (m := 65536) (by decide)
  unfold reading
  omega

/-- What a word holds is read as it is. -/
theorem reading_word (low high : UInt8) :
    reading (Inertial.word low high) = Inertial.word low high := by
  unfold reading Inertial.word
  exact Int.bmod_bmod

/-- The yaw in a packet is that of the heading in its word. -/
theorem scaled_eq_yaw (packet : List UInt8) (position : Nat) :
    Inertial.scaled packet position 180 =
      yaw (Inertial.word (packet.getD position 0) (packet.getD (position + 1) 0)) := by
  rw [yaw, reading_word, Inertial.scaled]

/-! ### Exact angles -/

/-- The degrees of so few counts are exact in binary32. -/
theorem storable_degrees {counts : Int} (small : counts.natAbs ≤ 372827) :
    Storable (degrees counts) := by
  have dyadic : Storable ((counts * 45 : Int) * 2 ^ (-13 : Int)) :=
    storable_dyadic (by omega) (by decide) (by decide)
  have same : degrees counts = (counts * 45 : Int) * 2 ^ (-13 : Int) := by
    unfold degrees
    push_cast
    norm_num
    ring
  rwa [same]

/-- The yaw of a heading is stored without rounding. -/
theorem stores_yaw (heading : Int) : Stores (yaw heading) (degrees (reading heading)) := by
  obtain ⟨least, most⟩ := reading_bounds heading
  have whole : Stores (ofInt (reading heading)) (reading heading) := stores_ofInt (by omega)
  have range : Stores 32768 (32768 : Int) := stores_of_eq_ofInt rfl (by decide)
  have half : Stores 180 (180 : Int) := stores_of_eq_ofInt rfl (by decide)
  have share : Storable (reading heading / (32768 : Int)) := by
    have dyadic : Storable (reading heading * 2 ^ (-15 : Int)) :=
      storable_dyadic (by omega) (by decide) (by decide)
    convert dyadic using 1
    norm_num
    ring
  have angle : degrees (reading heading) = reading heading / (32768 : Int) * (180 : Int) := by
    unfold degrees
    push_cast
    ring
  rw [angle]
  exact (whole.div range (by decide) share).mul half (angle ▸ storable_degrees (by omega))

theorem stores_jump (last next : Int) :
    Stores (yaw next - yaw last) (degrees (reading next - reading last)) := by
  have bounds := reading_bounds last
  have bounds' := reading_bounds next
  rw [degrees_sub]
  exact (stores_yaw next).sub (stores_yaw last) (degrees_sub .. ▸ storable_degrees (by omega))

end Mecanum.Heading
