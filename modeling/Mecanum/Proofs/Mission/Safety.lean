import Mathlib.Data.List.Induction
import Mecanum.Mission.Errand
import Mecanum.Proofs.Camera.Frames
import Mecanum.Proofs.Mission.Independence
import Mecanum.Proofs.Mission.Watchdog

/-!
# Missions without faults

The arithmetic of a mission is that of ring numbers, which are bytes, and of pixel differences, which
are words of 16 bits. The camera reports pixels from 0 to 999 only, so the configuration alone
decides whether a mission can fault: it cannot exactly if the ring number of the last colour is a
byte and the reference point does not lie too far below the image. The scripts always fit the store.
-/
namespace Mecanum.Mission

open Camera (Detection Receiver)

/-! ### What the camera can report -/

def heard (bytes : List UInt8) : Receiver :=
  bytes.foldl (fun receiver byte => (receiver.push byte).2) .new

/-- Whether the camera can report a target at a pixel. -/
def Reported (x y : Int) : Prop :=
  ∃ bytes byte detection, ((heard bytes).push byte).1 = some detection ∧
    x = Errand.pixel detection.x ∧ y = Errand.pixel detection.y

theorem heard_concat (bytes : List UInt8) (byte : UInt8) :
    heard (bytes ++ [byte]) = ((heard bytes).push byte).2 := by
  simp [heard]

theorem heard_eq_after (bytes : List UInt8) : heard bytes = Camera.after bytes := by
  induction bytes using List.reverseRecOn with
  | nil => rfl
  | append_singleton earlier byte ih => rw [heard_concat, Camera.after_concat, ih]

theorem pixel_of_lt {coordinate : UInt16} (small : coordinate.toNat < 1000) :
    Errand.pixel coordinate = coordinate.toNat := by
  have bound : (coordinate.toNat : Int) < (65536 + 1) / 2 := by omega
  exact Int.bmod_eq_of_le (by omega) bound

/-- Three digits of a frame spell a pixel of the image. -/
theorem pixel_detection (frame : Camera.Frame) :
    Errand.pixel frame.detection.x = Camera.decimal frame.x ∧
      Errand.pixel frame.detection.y = Camera.decimal frame.y := by
  have boundX := Camera.decimal_lt frame.x
  have boundY := Camera.decimal_lt frame.y
  rw [← frame.x_detection] at boundX
  rw [← frame.y_detection] at boundY
  rw [pixel_of_lt boundX, pixel_of_lt boundY, frame.x_detection, frame.y_detection]
  exact ⟨rfl, rfl⟩

/-- Pixels of at most 999 are those that the camera can report. -/
theorem reported_iff {x y : Int} : Reported x y ↔ Alignment.InFrame x y := by
  constructor
  · rintro ⟨bytes, byte, detection, found, atX, atY⟩
    rw [heard_eq_after, Camera.push_after_iff] at found
    obtain ⟨frame, _, rfl⟩ := found
    obtain ⟨alongX, alongY⟩ := pixel_detection frame
    have boundX := Camera.decimal_lt frame.x
    have boundY := Camera.decimal_lt frame.y
    constructor <;> omega
  · rintro ⟨⟨leastX, greatestX⟩, leastY, greatestY⟩
    obtain ⟨x, rfl⟩ := Int.eq_ofNat_of_zero_le leastX
    obtain ⟨y, rfl⟩ := Int.eq_ofNat_of_zero_le leastY
    obtain ⟨frame, atX, atY⟩ : ∃ frame : Camera.Frame,
        Camera.decimal frame.x = x ∧ Camera.decimal frame.y = y :=
      ⟨.of 0 ⟨x, by omega⟩ ⟨y, by omega⟩, Camera.decimal_digitsOf _, Camera.decimal_digitsOf _⟩
    obtain ⟨alongX, alongY⟩ := pixel_detection frame
    have told := Camera.push_after_iff.mpr ⟨frame, List.suffix_refl frame.bytes, rfl⟩
    rw [← heard_eq_after] at told
    refine ⟨_, _, frame.detection, told, ?_, ?_⟩
    · rw [alongX, atX]
    · rw [alongY, atY]

/-- Whatever an alignment of the present state is told, the camera can report. -/
def Runner.Sighted {W : Type} [Responder W] (runner : Runner) (world : W) : Prop :=
  ∀ exchanges moment present approach,
    runner.Moment world exchanges moment present (.action (.align approach)) →
      ∀ look ∈ Responder.looks present (.sight approach.ring), ∀ x y,
        look.answer = some (.position x y) → Reported x y

theorem Runner.sighted_iff {W : Type} [Responder W] {runner : Runner} {world : W} :
    runner.Sighted world ↔ runner.Framed world := by
  simp only [Sighted, Framed, reported_iff]

/-! ### The script store -/

/-- Every script fits the store. -/
theorem State.length_script_le {state : State} {plan : Plan} {offset : UInt8} {script : Script}
    (written : state.script plan offset = .ok script) : script.length ≤ Script.capacity := by
  cases state with
  | unloadFloor1 | unloadFloorEnd1 | unloadFloor2 | stackFloorEnd2 =>
    obtain ⟨rings, _, made⟩ := bind_eq_ok_iff.mp written
    cases made
    exact Nat.le_of_ble_eq_true rfl
  | _ =>
    cases written
    exact Nat.le_of_ble_eq_true rfl

/-! ### Configurations -/

/-- A reference point and a tolerance that are signed words. -/
structure Alignment.Words (alignment : Alignment) : Prop where
  referenceX : -32768 ≤ alignment.referenceX ∧ alignment.referenceX ≤ 32767
  referenceY : -32768 ≤ alignment.referenceY ∧ alignment.referenceY ≤ 32767
  tolerance : -32768 ≤ alignment.tolerance ∧ alignment.tolerance ≤ 32767

/-- Whether the ring numbers and the pixel differences stay within their types. -/
structure Config.Fits (config : Config) : Prop where
  rings : config.ringOffset ≤ 252
  along : -31768 ≤ config.alignment.referenceX
  across : -31768 ≤ config.alignment.referenceY

/-- A world with the start and the code for a trip to the first floor, where the camera sees every
ring at the far corner of the image. -/
def World.farCorner : World :=
  { World.initial with
    starts := 1, tokens := [[49, 50, 51, 43, 49, 50, 51]], defaultSighting := some (999, 999) }

theorem World.farCorner_framed : farCorner.Framed :=
  ⟨nofun, fun place seen => by cases seen; decide⟩

/-- The trip leads to the first floor, whatever the configuration is. -/
theorem Runner.reached_unloadFloor1 (config : Config) :
    Reached config ⟨config, .unloadFloor1, .default, .resting⟩ := by
  -- The first five states neither number rings nor align, so their rehearsals compute.
  have last : ((new config).rehearseEach World.farCorner 40 5).toOption.bind
      (fun rehearsals => rehearsals.getLast?.map Rehearsal.runner) =
        some ⟨config, .unloadFloor1, .default, .resting⟩ := rfl
  cases rehearsed : (new config).rehearseEach World.farCorner 40 5 with
  | error fault =>
    rw [rehearsed] at last
    cases last
  | ok rehearsals =>
    rw [rehearsed] at last
    obtain ⟨rehearsal, member, same⟩ := Option.map_eq_some_iff.mp last
    rw [← same]
    exact Reached.new.rehearseEach rehearsed rehearsal (List.mem_of_getLast? member)

/-- The ring of blue has a number only for an offset of at most 252. -/
theorem Color.offset_le_of_ringId {offset ring : UInt8}
    (numbered : Color.blue.ringId offset = .ok ring) : offset ≤ 252 := by
  unfold ringId at numbered
  split at numbered
  next fits =>
    have blue : Color.blue.id.toNat = 3 := rfl
    rw [UInt8.le_iff_toNat_le]
    have top : (252 : UInt8).toNat = 252 := rfl
    omega
  next => cases numbered

/-- A difference to the far corner that fits its word has a reference not too far below. -/
theorem Alignment.bounds_of_correction {alignment : Alignment} {speed distance : Float32}
    {nudge : Option Motion.Command}
    (corrected : alignment.correction 999 999 speed distance = .ok nudge) :
    -31768 ≤ alignment.referenceX ∧ -31768 ≤ alignment.referenceY := by
  obtain ⟨dx, fitsX, corrected⟩ := bind_eq_ok_iff.mp corrected
  obtain ⟨dy, fitsY, corrected⟩ := bind_eq_ok_iff.mp corrected
  obtain ⟨⟨_, alongX⟩, _⟩ := Checked.fit_eq_ok.mp fitsX
  obtain ⟨⟨_, alongY⟩, _⟩ := Checked.fit_eq_ok.mp fitsY
  have greatest : Checked.greatest 16 = 32767 := by decide
  omega

/-- A rehearsal at the first floor has numbered the rings and looked at the first of them. -/
theorem Runner.fits_of_rehearsal {config : Config} {rehearsal : Rehearsal World}
    (rehearsed : (Runner.mk config .unloadFloor1 .default .resting).rehearse World.farCorner 3 =
      .ok rehearsal) : config.Fits := by
  obtain ⟨start, entered, onward⟩ := bind_eq_ok_iff.mp rehearsed
  obtain ⟨script, written, produced⟩ := bind_eq_ok_iff.mp entered
  obtain ⟨rings, numbered, made⟩ := bind_eq_ok_iff.mp written
  cases made
  cases produced
  -- Blue is the last colour of the batch, and the ring of blue has the greatest number.
  obtain ⟨red, _, others⟩ := bind_eq_ok_iff.mp numbered
  obtain ⟨green, _, others⟩ := bind_eq_ok_iff.mp others
  obtain ⟨blue, last, _⟩ := bind_eq_ok_iff.mp others
  -- The arm gets ready, the robot settles, and then the camera is asked.
  obtain ⟨_, ready, _, onward, _⟩ := Progress.rehearse_behind rfl rfl rfl onward
  cases ready
  obtain ⟨_, settled, _, onward, _⟩ := Progress.rehearse_behind rfl rfl rfl onward
  cases settled
  obtain ⟨_, looked, _⟩ := Progress.rehearse_behind rfl rfl rfl onward
  obtain ⟨nudge, corrected, _⟩ := bind_eq_ok_iff.mp looked
  obtain ⟨along, across⟩ := Alignment.bounds_of_correction corrected
  exact ⟨Color.offset_le_of_ringId last, along, across⟩

/-- A mission cannot fault, wherever it has got to and whatever answers it within what the camera can
report, exactly if its configuration fits; and its scripts fit the store in any case. -/
theorem mission_sound_iff {config : Config} (words : config.alignment.Words) :
    ((∀ runner : Runner, runner.Reached config → ∀ (W : Type) [Responder W] (world : W),
        runner.Sighted world → ∀ budget, ∃ rehearsal, runner.rehearse world budget = .ok rehearsal) ↔
      config.Fits) ∧
      ∀ state : State, ∀ plan script, state.script plan config.ringOffset = .ok script →
        script.length ≤ Script.capacity := by
  refine ⟨⟨fun sound => ?_, fun fits runner reached W _ world sighted budget => ?_⟩,
    fun state plan script written => State.length_script_le written⟩
  · obtain ⟨rehearsal, rehearsed⟩ := sound _ (Runner.reached_unloadFloor1 config) World
      World.farCorner (Runner.sighted_iff.mpr (World.farCorner_framed.framed _)) 3
    exact Runner.fits_of_rehearsal rehearsed
  · have same := reached.resting.1
    have near : config.alignment.Near :=
      ⟨fits.along, words.referenceX.2, fits.across, words.referenceY.2⟩
    exact Runner.exists_rehearsal (same ▸ fits.rings) (same ▸ near)
      (Runner.sighted_iff.mp sighted) budget

theorem Config.default_fits : ({} : Config).Fits := by
  constructor <;> decide

/-- The configuration that a mission comes with has no faults. -/
theorem mission_sound_iff_default :
    ({} : Config).alignment.Words ∧ ∀ runner : Runner, runner.Reached {} →
      ∀ (W : Type) [Responder W] (world : W), runner.Sighted world → ∀ budget,
        ∃ rehearsal, runner.rehearse world budget = .ok rehearsal := by
  have words : ({} : Config).alignment.Words := by constructor <;> decide
  exact ⟨words, (mission_sound_iff words).1.mpr Config.default_fits⟩

/-- A configuration with a reference point far left of the image. -/
def Config.farLeft : Config := { alignment := { referenceX := -32000 } }

/-- A configuration with ring numbers from 254 on. -/
def Config.highRings : Config := { ringOffset := 253 }

/-- At the first floor, a target that the camera can report is too far from such a reference point,
and the ring of blue has no number with such an offset. -/
theorem mission_faults :
    (Runner.mk .farLeft .unloadFloor1 .default .resting).Reached .farLeft ∧
      (Runner.mk .farLeft .unloadFloor1 .default .resting).Sighted World.farCorner ∧
      (Runner.mk .farLeft .unloadFloor1 .default .resting).rehearse World.farCorner 100 =
        .error .subtractOverflow ∧
      (Runner.mk .highRings .unloadFloor1 .default .resting).Reached .highRings ∧
      (Runner.mk .highRings .unloadFloor1 .default .resting).Sighted World.farCorner ∧
      (Runner.mk .highRings .unloadFloor1 .default .resting).rehearse World.farCorner 100 =
        .error .addOverflow :=
  ⟨Runner.reached_unloadFloor1 _, Runner.sighted_iff.mpr (World.farCorner_framed.framed _), rfl,
    Runner.reached_unloadFloor1 _, Runner.sighted_iff.mpr (World.farCorner_framed.framed _), rfl⟩

end Mecanum.Mission
