import Mecanum.Heading.Continuous
import Mecanum.Inertial.Packet
import Mecanum.Journal.Note
import Mecanum.Shared.State

/-!
# The heading provider

The provider turns the bytes of the inertial module into the shared heading. Each angle packet
gives one sample; a pending request for a new zero is honoured by the first sample that comes.
-/
namespace Mecanum.Heading

open Journal (Note)
open Shared (HeadingCell)

/-- The receiver and the estimator behind it. -/
structure Provider where
  receiver : Inertial.Receiver
  estimator : Estimator
deriving DecidableEq

structure Provider.Step where
  provider : Provider
  cell : HeadingCell
  -- The heading published, if the byte completed an angle packet.
  published : Option Snapshot
  notes : List Note

namespace Provider

def new (config : Config) : Provider := ⟨.new, .new config⟩

/-- Takes a yaw sample into the estimator, honouring a pending request for a new zero. -/
def sample (estimator : Estimator) (cell : HeadingCell) (yaw : Float32) :
    Snapshot × Estimator × List Note :=
  let rezero := cell.rezero.isRaised
  let (snapshot, estimator) := (if rezero then estimator.reset else estimator).update yaw
  (snapshot, estimator,
    (if rezero then [.headingZeroed yaw] else [])
      ++ (if estimator.wraps ≠ 0 then [.headingWrapped snapshot.continuous estimator.wraps]
        else []))

def feed (provider : Provider) (byte : UInt8) (cell : HeadingCell) : Step :=
  match provider.receiver.push byte with
  | (some (.angle axes), receiver) =>
    let (snapshot, estimator, notes) := sample provider.estimator cell axes.z
    ⟨⟨receiver, estimator⟩, ⟨snapshot, .empty⟩, some snapshot, notes⟩
  | (_, receiver) => ⟨{ provider with receiver := receiver }, cell, none, []⟩

end Provider

/-- A provider at work on a cell of its own, with what it has reported. -/
structure Provision where
  provider : Provider
  cell : HeadingCell
  notes : List Note

namespace Provision

def new (config : Config) : Provision := ⟨.new config, .initial, []⟩

def push (provision : Provision) (byte : UInt8) : Option Snapshot × Provision :=
  let step := provision.provider.feed byte provision.cell
  (step.published, ⟨step.provider, step.cell, provision.notes ++ step.notes⟩)

def requestRezero (provision : Provision) : Provision :=
  { provision with cell := provision.cell.requestRezero }

end Provision

end Mecanum.Heading
