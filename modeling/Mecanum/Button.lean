/-!
# Push buttons

A button is sampled, and a press is the change from released to pressed between two samples. The
start button pulls its pin low; a sample that cannot be read counts as released.
-/
namespace Mecanum

/-- The changes that one sample shows. -/
structure Edges where
  pressed : Bool
  released : Bool
deriving DecidableEq, Repr

/-- Finds the edges in a sequence of samples. -/
structure EdgeDetector where
  down : Bool
deriving DecidableEq, Repr

namespace EdgeDetector

def new : EdgeDetector := ⟨false⟩

def update (detector : EdgeDetector) (down : Bool) : Edges × EdgeDetector :=
  (⟨down && !detector.down, !down && detector.down⟩, ⟨down⟩)

end EdgeDetector

inductive Reading where
  | low
  | high
  -- The pin could not be read.
  | unreadable
deriving DecidableEq, Repr

/-- A button that pulls its pin low. -/
structure Button where
  detector : EdgeDetector
deriving DecidableEq, Repr

namespace Button

def new : Button := ⟨.new⟩

/-- Samples the pin and tells whether the button was pressed since the last sample. -/
def poll (button : Button) (reading : Reading) : Bool × Button :=
  let (edges, detector) := button.detector.update (reading = .low)
  (edges.pressed, ⟨detector⟩)

end Button

end Mecanum
