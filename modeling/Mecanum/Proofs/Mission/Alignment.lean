import Mecanum.Mission.Alignment
import Mecanum.Proofs.Fault

/-!
# The dead band of an alignment

A target inside the dead band on both axes needs no nudge, and any other needs one. With a camera of
at most a thousand pixels a side, the reference point would have to lie far outside the image before
a difference left its word.
-/
namespace Mecanum.Mission.Alignment

open Motion (Mode)

/-- Whether a target stands within the tolerance on both axes. -/
def Inside (alignment : Alignment) (x y : Int) : Prop :=
  (-alignment.tolerance ≤ x - alignment.referenceX ∧
      x - alignment.referenceX ≤ alignment.tolerance) ∧
    -alignment.tolerance ≤ y - alignment.referenceY ∧
      y - alignment.referenceY ≤ alignment.tolerance

instance (alignment : Alignment) (x y : Int) : Decidable (alignment.Inside x y) :=
  inferInstanceAs (Decidable ((_ ∧ _) ∧ _ ∧ _))

/-- An axis is left alone exactly inside the tolerance. -/
theorem nudgeMode_eq_ok {tolerance error : Int} {above below : Mode} {mode : Option Mode}
    (nudged : nudgeMode tolerance error above below = .ok mode) :
    mode = none ↔ -tolerance ≤ error ∧ error ≤ tolerance := by
  obtain ⟨magnitude, measured, produced⟩ := bind_eq_ok_iff.mp nudged
  cases produced
  have exact : magnitude = if error < 0 then -error else error := by
    unfold Checked.abs at measured
    split at measured
    next negative => rw [if_pos negative, (Checked.fit_eq_ok.mp measured).2]
    next positive =>
      cases measured
      rw [if_neg positive]
  split <;> simp only [reduceCtorEq, false_iff, true_iff] <;> grind

/-- No nudge is made exactly if the target stands inside the tolerance on both axes. -/
theorem correction_eq_ok {alignment : Alignment} {x y : Int} {speed distance : Float32}
    {nudge : Option Motion.Command}
    (corrected : alignment.correction x y speed distance = .ok nudge) :
    nudge = none ↔ alignment.Inside x y := by
  unfold correction at corrected
  obtain ⟨dx, fitsX, corrected⟩ := bind_eq_ok_iff.mp corrected
  obtain ⟨dy, fitsY, corrected⟩ := bind_eq_ok_iff.mp corrected
  obtain ⟨along, nudgedX, corrected⟩ := bind_eq_ok_iff.mp corrected
  obtain ⟨_, rfl⟩ := Checked.fit_eq_ok.mp fitsX
  obtain ⟨_, rfl⟩ := Checked.fit_eq_ok.mp fitsY
  have withinX := nudgeMode_eq_ok nudgedX
  cases along with
  | some mode =>
    cases corrected
    simp only [reduceCtorEq, false_iff] at withinX ⊢
    exact fun inside => withinX inside.1
  | none =>
    obtain ⟨across, nudgedY, corrected⟩ := bind_eq_ok_iff.mp corrected
    have withinY := nudgeMode_eq_ok nudgedY
    cases across with
    | some mode =>
      cases corrected
      simp only [reduceCtorEq, false_iff] at withinY ⊢
      exact fun inside => withinY inside.2
    | none =>
      cases corrected
      exact ⟨fun _ => ⟨withinX.mp rfl, withinY.mp rfl⟩, fun _ => rfl⟩

/-! ### Where differences fit -/

/-- A reference point whose coordinates are signed words, not too far below the image. -/
structure Near (alignment : Alignment) : Prop where
  leastX : -31768 ≤ alignment.referenceX
  greatestX : alignment.referenceX ≤ 32767
  leastY : -31768 ≤ alignment.referenceY
  greatestY : alignment.referenceY ≤ 32767

/-- Whether a pixel lies in an image of a thousand pixels a side. -/
def InFrame (x y : Int) : Prop := (0 ≤ x ∧ x ≤ 999) ∧ 0 ≤ y ∧ y ≤ 999

instance (x y : Int) : Decidable (InFrame x y) :=
  inferInstanceAs (Decidable ((_ ∧ _) ∧ _ ∧ _))

/-- Whether a distance from the reference point is a signed word, and its magnitude too. -/
def Fits (error : Int) : Prop := -32767 ≤ error ∧ error ≤ 32767

theorem sub_of_fits {x reference : Int} (fits : Fits (x - reference)) :
    Checked.sub 16 x reference = .ok (x - reference) := by
  have bounds : Checked.least 16 = -32768 ∧ Checked.greatest 16 = 32767 := by decide
  obtain ⟨least, greatest⟩ := fits
  exact Checked.fit_eq_ok.mpr ⟨by omega, rfl⟩

/-- An error that has a magnitude is answered by its sign, outside the tolerance. -/
theorem nudgeMode_of_least {tolerance error : Int} {above below : Mode} (fits : -32767 ≤ error) :
    nudgeMode tolerance error above below =
      .ok (if -tolerance ≤ error ∧ error ≤ tolerance then none
        else some (if 0 < error then above else below)) := by
  have bounds : Checked.least 16 = -32768 ∧ Checked.greatest 16 = 32767 := by decide
  obtain ⟨magnitude, measured⟩ : ∃ magnitude, Checked.abs 16 error = .ok magnitude := by
    unfold Checked.abs
    split
    next negative => exact ⟨-error, Checked.fit_eq_ok.mpr ⟨by omega, rfl⟩⟩
    next => exact ⟨error, rfl⟩
  have nudged : nudgeMode tolerance error above below =
      .ok (if tolerance < magnitude then some (if 0 < error then above else below) else none) :=
    bind_eq_ok_iff.mpr ⟨magnitude, measured, rfl⟩
  have within := nudgeMode_eq_ok nudged
  rw [nudged]
  split at within <;> grind

/-- The nudge for a target out of place: along x first, and across only if x is right. -/
def nudge (alignment : Alignment) (x y : Int) (speed distance : Float32) : Motion.Command :=
  let dx := x - alignment.referenceX
  .drive
    (if -alignment.tolerance ≤ dx ∧ dx ≤ alignment.tolerance then
      if 0 < y - alignment.referenceY then .slideRight else .slideLeft
    else if 0 < dx then .backward else .forward)
    speed distance

/-- With differences that fit their words the first axis out of tolerance is corrected. -/
theorem correction_of_fits {alignment : Alignment} {x y : Int}
    (fitsX : Fits (x - alignment.referenceX)) (fitsY : Fits (y - alignment.referenceY))
    (speed distance : Float32) :
    (alignment.Inside x y → alignment.correction x y speed distance = .ok none) ∧
      (¬alignment.Inside x y → alignment.correction x y speed distance =
        .ok (some (alignment.nudge x y speed distance))) := by
  unfold correction Inside nudge
  rw [sub_of_fits fitsX, sub_of_fits fitsY]
  simp only [bind, Except.bind, nudgeMode_of_least fitsX.1, nudgeMode_of_least fitsY.1]
  by_cases along : -alignment.tolerance ≤ x - alignment.referenceX ∧
      x - alignment.referenceX ≤ alignment.tolerance
  · by_cases across : -alignment.tolerance ≤ y - alignment.referenceY ∧
        y - alignment.referenceY ≤ alignment.tolerance
    · refine ⟨fun _ => ?_, fun outside => absurd ⟨along, across⟩ outside⟩
      simp only [if_pos along, if_pos across]
      rfl
    · refine ⟨fun inside => absurd inside.2 across, fun _ => ?_⟩
      simp only [if_pos along, if_neg across]
      rfl
  · refine ⟨fun inside => absurd inside.1 along, fun _ => ?_⟩
    simp only [if_neg along]
    rfl

theorem correction_in_frame {alignment : Alignment} (near : alignment.Near) {x y : Int}
    (frame : InFrame x y) (speed distance : Float32) :
    (alignment.Inside x y → alignment.correction x y speed distance = .ok none) ∧
      (¬alignment.Inside x y → alignment.correction x y speed distance =
        .ok (some (alignment.nudge x y speed distance))) := by
  obtain ⟨leastX, greatestX, leastY, greatestY⟩ := near
  obtain ⟨⟨left, right⟩, above, below⟩ := frame
  exact correction_of_fits ⟨by omega, by omega⟩ ⟨by omega, by omega⟩ speed distance

end Mecanum.Mission.Alignment
