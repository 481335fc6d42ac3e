import Mecanum.Heading.Provider
import Mecanum.Proofs.Heading.Counts
import Mecanum.Stream

/-!
# A fresh estimator for each zero

Bytes and requests for a new zero reach the provider in any order. What it publishes for an angle
packet is what a new estimator gives for the yaws since the first packet behind the latest request.
Any other packet, a broken one too, publishes nothing and leaves a request as it is.
-/
namespace Mecanum.Heading

open Binary32
open Inertial (Frame Receiver)

/-! ### Inputs -/

inductive Input where
  | byte (byte : UInt8)
  | rezero
deriving DecidableEq

def Input.byte? : Input → Option UInt8
  | byte value => some value
  | rezero => none

/-- The provision behind some inputs. -/
def after (config : Config) (inputs : List Input) : Provision :=
  inputs.foldl
    (fun provision input =>
      match input with
      | .byte byte => (provision.push byte).2
      | .rezero => provision.requestRezero)
    (.new config)

def bytesOf (inputs : List Input) : List UInt8 := inputs.filterMap Input.byte?

def yaw? : Frame → Option Float32
  | .angle axes => some axes.z
  | _ => none

def receiver (inputs : List Input) : Receiver :=
  (Stream.run Receiver.push .new (bytesOf inputs)).2

def yaws (inputs : List Input) : List Float32 :=
  (Stream.run Receiver.push .new (bytesOf inputs)).1.filterMap (yaw? ·.2)

/-- The inputs up to the latest request; without one, none. -/
def upToRequest (inputs : List Input) : List Input := inputs.rdropWhile (·.byte?.isSome)

/-- The yaws of the angle packets completed since the latest request. -/
def yawsSince (inputs : List Input) : List Float32 :=
  (yaws inputs).drop (yaws (upToRequest inputs)).length

def Estimator.snapshots (estimator : Estimator) : List Float32 → List Snapshot
  | [] => []
  | raw :: rest => (estimator.update raw).1 :: (estimator.update raw).2.snapshots rest

section Inputs

variable (inputs : List Input) (byte : UInt8)

/-- The yaw that a byte behind some inputs completes. -/
def completed : Option Float32 := ((receiver inputs).push byte).1.bind yaw?

theorem bytesOf_byte : bytesOf (inputs ++ [.byte byte]) = bytesOf inputs ++ [byte] :=
  List.filterMap_append ..

theorem bytesOf_rezero : bytesOf (inputs ++ [.rezero]) = bytesOf inputs :=
  (List.filterMap_append ..).trans (List.append_nil _)

theorem receiver_byte : receiver (inputs ++ [.byte byte]) = ((receiver inputs).push byte).2 := by
  rw [receiver, bytesOf_byte, Stream.run_concat, receiver]

theorem receiver_rezero : receiver (inputs ++ [.rezero]) = receiver inputs := by
  rw [receiver, bytesOf_rezero, receiver]

theorem yaws_byte :
    yaws (inputs ++ [.byte byte]) = yaws inputs ++ (completed inputs byte).toList := by
  rw [yaws, bytesOf_byte, Stream.values_concat, List.filterMap_append, completed, receiver, yaws]
  cases ((Stream.run Receiver.push .new (bytesOf inputs)).2.push byte).1 with
  | none => rfl
  | some frame => cases frame <;> rfl

theorem upToRequest_byte : upToRequest (inputs ++ [.byte byte]) = upToRequest inputs :=
  List.rdropWhile_concat_pos _ _ _ rfl

theorem upToRequest_rezero : upToRequest (inputs ++ [.rezero]) = inputs ++ [.rezero] :=
  List.rdropWhile_concat_neg _ _ _ (by simp [Input.byte?])

theorem length_yaws_upToRequest_le : (yaws (upToRequest inputs)).length ≤ (yaws inputs).length := by
  induction inputs using List.reverseRecOn with
  | nil => exact Nat.le_refl _
  | append_singleton inputs input ih =>
    cases input with
    | byte byte =>
      rw [upToRequest_byte, yaws_byte, List.length_append]
      exact Nat.le_trans ih (Nat.le_add_right _ _)
    | rezero => rw [upToRequest_rezero]

theorem yawsSince_byte :
    yawsSince (inputs ++ [.byte byte]) = yawsSince inputs ++ (completed inputs byte).toList := by
  rw [yawsSince, upToRequest_byte, yaws_byte,
    List.drop_append_of_le_length (length_yaws_upToRequest_le inputs), yawsSince]

theorem yawsSince_rezero : yawsSince (inputs ++ [.rezero]) = [] := by
  rw [yawsSince, upToRequest_rezero, List.drop_length]

end Inputs

/-! ### The estimator -/

namespace Estimator

/-- The estimator behind some yaws. -/
def fed (estimator : Estimator) (raws : List Float32) : Estimator := raws.foldl observe estimator

theorem fed_concat (estimator : Estimator) (raws : List Float32) (raw : Float32) :
    estimator.fed (raws ++ [raw]) = (estimator.fed raws).observe raw := List.foldl_concat ..

theorem getLast?_snapshots (estimator : Estimator) (raws : List Float32) (raw : Float32) :
    (estimator.snapshots (raws ++ [raw])).getLast? =
      some (estimator.fed (raws ++ [raw])).snapshot := by
  induction raws generalizing estimator with
  | nil => rfl
  | cons first rest ih =>
    have more : (estimator.update first).2.snapshots (rest ++ [raw]) ≠ [] := by
      cases rest <;> exact List.cons_ne_nil _ _
    rw [List.cons_append, snapshots, List.getLast?_cons_of_ne_nil more, ih]
    rfl

variable {config : Config} {estimator : Estimator}

/-- An estimator without a zero takes a sample like a new one, whatever it has seen before. -/
theorem observe_unarmed (threshold : estimator.wrapThreshold = config.wrapThreshold)
    (unarmed : estimator.armed = false) (raw : Float32) :
    estimator.observe raw = (new config).observe raw := by
  rw [observe, if_neg (by simp [unarmed])]
  simp [observe, new, threshold]

theorem observe_reset (threshold : estimator.wrapThreshold = config.wrapThreshold)
    (raw : Float32) : estimator.reset.observe raw = (new config).observe raw := by
  have same : estimator.reset.wrapThreshold = config.wrapThreshold := threshold
  exact observe_unarmed same rfl raw

theorem wrapThreshold_observe (estimator : Estimator) (raw : Float32) :
    (estimator.observe raw).wrapThreshold = estimator.wrapThreshold := by
  unfold observe
  split <;> rfl

theorem wrapThreshold_fed (raws : List Float32) :
    ((new config).fed raws).wrapThreshold = config.wrapThreshold := by
  induction raws using List.reverseRecOn with
  | nil => rfl
  | append_singleton raws raw ih => rw [fed_concat, wrapThreshold_observe, ih]

/-- The sample that is taken as the zero is zero degrees from it. -/
theorem relative_first {raw : Float32} (finite : raw.isFinite = true) :
    ((new config).observe raw).snapshot.relative = 0 := by
  have none : (360 : Float32) * Binary32.ofInt 0 = 0 := rfl
  simp only [observe, new, snapshot, Bool.false_eq_true, if_false, none]
  exact Binary32.add_zero_sub_self finite

end Estimator

/-- A share of half a turn is finite. -/
theorem isFinite_scaled (packet : List UInt8) (position : Nat) :
    (Inertial.scaled packet position 180).isFinite = true := by
  rw [scaled_eq_yaw]
  exact (stores_yaw _).finite

/-- The axes of an angle frame are read from its packet, on the scale of 180 degrees. -/
theorem eq_axes_of_angle {packet : List UInt8} {axes : Inertial.Axes}
    (angle : Frame.ofPacket? packet = some (.angle axes)) : axes = Inertial.axes packet 180 := by
  simp only [Frame.ofPacket?] at angle
  split at angle
  · cases angle
  · split at angle
    · cases angle
    · split at angle
      · cases angle
        rfl
      · cases angle

/-- The yaw of a received frame is finite. -/
theorem isFinite_yaw {receiver : Receiver} {byte : UInt8} {axes : Inertial.Axes}
    (told : (receiver.push byte).1 = some (.angle axes)) : axes.z.isFinite = true := by
  simp only [Receiver.push] at told
  split at told
  · cases told
  · split at told
    · rw [eq_axes_of_angle told]
      exact isFinite_scaled _ 6
    · cases told

/-! ### The provider -/

/-- How a provision stands behind some inputs: waiting for its next zero, or with the estimator
that the yaws since the latest request have made. -/
inductive Stands (config : Config) (inputs : List Input) (provision : Provision) : Prop where
  | zeroDue (read : provision.provider.receiver = receiver inputs)
      (threshold : provision.provider.estimator.wrapThreshold = config.wrapThreshold)
      (none : yawsSince inputs = [])
      (pending : provision.cell.rezero.isRaised = true ↔ .rezero ∈ inputs)
      (unarmed : .rezero ∉ inputs → provision.provider.estimator.armed = false)
  | zeroed {raws : List Float32} {raw : Float32}
      (read : provision.provider.receiver = receiver inputs)
      (some : yawsSince inputs = raws ++ [raw])
      (estimator : provision.provider.estimator = (Estimator.new config).fed (yawsSince inputs))
      (honoured : provision.cell.rezero = .empty)

section Provider

variable {config : Config} {inputs : List Input} {provision : Provision} {byte : UInt8}

theorem Stands.receiver_eq (stands : Stands config inputs provision) :
    provision.provider.receiver = receiver inputs := by
  cases stands <;> assumption

theorem Stands.threshold (stands : Stands config inputs provision) :
    provision.provider.estimator.wrapThreshold = config.wrapThreshold := by
  cases stands with
  | zeroDue _ threshold => exact threshold
  | zeroed _ _ estimator => rw [estimator, Estimator.wrapThreshold_fed]

/-- A request is pending until the next angle packet. -/
theorem Stands.pending_iff (stands : Stands config inputs provision) :
    provision.cell.rezero.isRaised = true ↔ .rezero ∈ inputs ∧ yawsSince inputs = [] := by
  cases stands with
  | zeroDue _ _ none pending => simp [pending, none]
  | zeroed _ some _ honoured => simp [honoured, some, Shared.Signal.isRaised, Shared.Signal.empty]

/-- Whether a request is honoured or not, the estimator takes a yaw as a new one does that has been
fed the yaws since the latest request. -/
theorem Stands.observe (stands : Stands config inputs provision) (yaw : Float32) :
    (if provision.cell.rezero.isRaised then provision.provider.estimator.reset
      else provision.provider.estimator).observe yaw =
        (Estimator.new config).fed (yawsSince inputs ++ [yaw]) := by
  have pending := stands.pending_iff
  rw [Estimator.fed_concat]
  cases stands with
  | zeroDue _ threshold none _ unarmed =>
    rw [none]
    split
    next => exact Estimator.observe_reset threshold yaw
    next still =>
      have unasked : .rezero ∉ inputs := fun asked => still (pending.mpr ⟨asked, none⟩)
      exact Estimator.observe_unarmed threshold (unarmed unasked) yaw
  | zeroed _ _ estimator honoured =>
    rw [if_neg (by simp [honoured, Shared.Signal.isRaised, Shared.Signal.empty]), estimator]

/-- The estimator that takes a yaw: honouring a request, it starts anew. -/
def taking (provision : Provision) (yaw : Float32) : Estimator :=
  (if provision.cell.rezero.isRaised then provision.provider.estimator.reset
    else provision.provider.estimator).observe yaw

/-- An angle frame publishes the snapshot of the estimator it is given to. -/
theorem push_angle {axes : Inertial.Axes}
    (told : (provision.provider.receiver.push byte).1 = some (.angle axes)) :
    (provision.push byte).1 = some (taking provision axes.z).snapshot ∧
      (provision.push byte).2.cell = ⟨(taking provision axes.z).snapshot, .empty⟩ ∧
      (provision.push byte).2.provider =
        ⟨(provision.provider.receiver.push byte).2, taking provision axes.z⟩ := by
  unfold Provision.push Provider.feed
  cases pushed : provision.provider.receiver.push byte with
  | mk frame next =>
    rw [pushed] at told
    cases told
    exact ⟨rfl, rfl, rfl⟩

/-- Any other byte publishes nothing and leaves the estimator and its cell alone. -/
theorem push_other
    (told : ∀ axes, (provision.provider.receiver.push byte).1 ≠ some (.angle axes)) :
    (provision.push byte).1 = none ∧ (provision.push byte).2.cell = provision.cell ∧
      (provision.push byte).2.provider =
        ⟨(provision.provider.receiver.push byte).2, provision.provider.estimator⟩ := by
  unfold Provision.push Provider.feed
  cases pushed : provision.provider.receiver.push byte with
  | mk frame next =>
    rw [pushed] at told
    cases frame with
    | none => exact ⟨rfl, rfl, rfl⟩
    | some frame =>
      cases frame with
      | angle axes => exact absurd rfl (told axes)
      | _ => exact ⟨rfl, rfl, rfl⟩

theorem requestRezero_of_pending (pending : provision.cell.rezero.isRaised = true) :
    provision.requestRezero = provision := by
  obtain ⟨provider, ⟨snapshot, ⟨slot⟩⟩, notes⟩ := provision
  cases slot with
  | none => cases pending
  | some => rfl

/-- A byte keeps the provision where the inputs put it. -/
theorem Stands.takeByte (stands : Stands config inputs provision) (byte : UInt8) :
    Stands config (inputs ++ [.byte byte]) (provision.push byte).2 := by
  have same := stands.receiver_eq
  have unasked : .rezero ∈ inputs ++ [.byte byte] ↔ .rezero ∈ inputs := by simp
  by_cases angle : ∃ axes, ((receiver inputs).push byte).1 = some (.angle axes)
  · obtain ⟨axes, told⟩ := angle
    have since : yawsSince (inputs ++ [.byte byte]) = yawsSince inputs ++ [axes.z] := by
      rw [yawsSince_byte, completed, told]
      rfl
    rw [← same] at told
    obtain ⟨_, cell, provider⟩ := push_angle told
    refine .zeroed ?_ since ?_ ?_
    · rw [provider, receiver_byte, same]
    · rw [provider, since]
      exact stands.observe axes.z
    · rw [cell]
  · rw [not_exists] at angle
    have since : yawsSince (inputs ++ [.byte byte]) = yawsSince inputs := by
      rw [yawsSince_byte, completed]
      cases told : ((receiver inputs).push byte).1 with
      | none => exact List.append_nil _
      | some frame =>
        cases frame with
        | angle axes => exact absurd told (angle axes)
        | _ => exact List.append_nil _
    rw [← same] at angle
    obtain ⟨_, cell, provider⟩ := push_other angle
    have read : (provision.push byte).2.provider.receiver =
        receiver (inputs ++ [.byte byte]) := by rw [provider, receiver_byte, same]
    cases stands with
    | zeroDue _ threshold none pending unarmed =>
      refine .zeroDue read ?_ ?_ ?_ ?_
      · rw [provider]
        exact threshold
      · rw [since, none]
      · rw [cell, unasked]
        exact pending
      · rw [provider, unasked]
        exact unarmed
    | zeroed _ some estimator honoured =>
      refine .zeroed read (since.trans some) ?_ ?_
      · rw [provider, since]
        exact estimator
      · rw [cell]
        exact honoured

/-- A request keeps the provision where the inputs put it. -/
theorem Stands.takeRezero (stands : Stands config inputs provision) :
    Stands config (inputs ++ [.rezero]) provision.requestRezero := by
  refine .zeroDue ?_ stands.threshold (yawsSince_rezero inputs) ?_ ?_
  · rw [receiver_rezero, ← stands.receiver_eq]
    rfl
  · refine iff_of_true rfl (by simp)
  · intro unasked
    simp at unasked

theorem stands_after (config : Config) (inputs : List Input) :
    Stands config inputs (after config inputs) := by
  induction inputs using List.reverseRecOn with
  | nil => exact .zeroDue rfl rfl rfl (iff_of_false Bool.false_ne_true (by simp)) fun _ => rfl
  | append_singleton inputs input ih =>
    rw [after, List.foldl_concat]
    cases input with
    | byte byte => exact ih.takeByte byte
    | rezero => exact ih.takeRezero

end Provider

/-- The provider gives what a new estimator gives for each zero, behind some inputs. -/
structure FreshPerZero (config : Config) (inputs : List Input) : Prop where
  -- An angle packet publishes what a new estimator gives for the yaws since the latest request.
  published : ∀ {byte axes}, ((receiver inputs).push byte).1 = some (.angle axes) →
    ((after config inputs).push byte).1 =
        ((Estimator.new config).snapshots (yawsSince inputs ++ [axes.z])).getLast? ∧
      some ((after config inputs).push byte).2.cell.snapshot =
        ((Estimator.new config).snapshots (yawsSince inputs ++ [axes.z])).getLast?
  -- Any other byte publishes nothing and leaves the heading and a request as they are.
  silent : ∀ {byte}, (∀ axes, ((receiver inputs).push byte).1 ≠ some (.angle axes)) →
    ((after config inputs).push byte).1 = none ∧
      ((after config inputs).push byte).2.cell = (after config inputs).cell
  -- A request is pending up to the next angle packet, and asking again changes nothing.
  pending : (after config inputs).cell.rezero.isRaised = true ↔
    .rezero ∈ inputs ∧ yawsSince inputs = []
  once : (after config inputs).cell.rezero.isRaised = true →
    after config (inputs ++ [.rezero]) = after config inputs
  -- The packet that honours a request is zero degrees from the new zero.
  zeroed : ∀ {byte axes}, ((receiver inputs).push byte).1 = some (.angle axes) →
    (after config inputs).cell.rezero.isRaised = true →
      ∃ snapshot, ((after config inputs).push byte).1 = some snapshot ∧ snapshot.relative = 0 ∧
        ((after config inputs).push byte).2.cell.rezero.isRaised = false

/-- Each snapshot is that of a fresh estimator, given the yaws since the last request honoured. -/
theorem fresh_per_zero (config : Config) (inputs : List Input) : FreshPerZero config inputs := by
  have stands := stands_after config inputs
  have same := stands.receiver_eq
  refine ⟨?_, ?_, stands.pending_iff, ?_, ?_⟩
  · intro byte axes told
    rw [← same] at told
    obtain ⟨published, cell, _⟩ := push_angle told
    rw [published, cell, Estimator.getLast?_snapshots, taking, stands.observe]
    exact ⟨rfl, rfl⟩
  · intro byte told
    rw [← same] at told
    obtain ⟨silent, cell, _⟩ := push_other told
    exact ⟨silent, cell⟩
  · intro pending
    rw [after, List.foldl_concat]
    exact requestRezero_of_pending pending
  · intro byte axes told pending
    have finite := isFinite_yaw told
    have none := (stands.pending_iff.mp pending).2
    rw [← same] at told
    obtain ⟨published, cell, _⟩ := push_angle told
    refine ⟨_, published, ?_, by rw [cell]; rfl⟩
    rw [taking, stands.observe, none]
    exact Estimator.relative_first finite

def quarterTurn : List UInt8 := [0x55, 0x53, 0, 0, 0, 0, 0, 0x40, 0, 0, 0xe8]

/-- A request in the middle of a packet is honoured by that packet. -/
example :
    ((after {} ((quarterTurn ++ quarterTurn.take 5).map .byte ++ [.rezero] ++
      ((quarterTurn.drop 5).take 5).map .byte)).push 0xe8).1 = some ⟨0, 90⟩ := by
  decide +kernel

end Mecanum.Heading
