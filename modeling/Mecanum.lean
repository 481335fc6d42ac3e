import Mecanum.Hardware.SerialPort
import Mecanum.Hardware.Timer
import Mecanum.Hardware.Wire
import Mecanum.Mission.Rehearsal
import Mecanum.Mission.Waits
import Mecanum.Proofs.Crew.Timeline
import Mecanum.Robot.Timeline
import Mecanum.Stream
import Mecanum.Proofs.Mission.Conversation
import Mecanum.Proofs.Mission.Alignment
import Mecanum.Proofs.Mission.Cargo
import Mecanum.Proofs.Mission.Independence
import Mecanum.Proofs.Mission.Run
import Mecanum.Proofs.Mission.Watchdog
import Mecanum.Proofs.Crew.Codes
import Mecanum.Proofs.Crew.Start
import Mecanum.Proofs.Crew.Zero
import Mecanum.Proofs.Mission.Safety
import Mecanum.Proofs.Inertial.Scan
import Mecanum.Proofs.Binary32.Sign
import Mecanum.Proofs.Binary32.Zero
import Mecanum.Proofs.Motion.Tick
import Mecanum.Proofs.Motion.Calls
import Mecanum.Proofs.Motion.Completion
import Mecanum.Proofs.Motion.Succession
import Mecanum.Proofs.Camera.Frames
import Mecanum.Proofs.Crew.Tokens
import Mecanum.Proofs.Mission.Adoption
import Mecanum.Proofs.Crew.Plans
import Mecanum.Proofs.Binary32.Finite
import Mecanum.Proofs.Heading.Rezero
import Mecanum.Proofs.Stepper.Edges
import Mecanum.Proofs.Binary32.Rounding
import Mecanum.Proofs.Motion.Arrival
import Mecanum.Proofs.Arm.Traces
import Mecanum.Proofs.Arm.Interlock
import Mecanum.Proofs.Arm.Return
import Mecanum.Proofs.Journal.Losses
import Mecanum.Proofs.Servo.Frames
import Mecanum.Proofs.Stepper.Phase
import Mecanum.Proofs.Journal.Reports
import Mecanum.Proofs.Binary32.Exact
import Mecanum.Proofs.Heading.Rotation
import Mecanum.Proofs.Motion.Braking
import Mecanum.Proofs.Binary32.Word
import Mecanum.Proofs.Motion.Speed
import Mecanum.Proofs.Motion.Lock
import Mecanum.Proofs.Motion.Reversal
import Mecanum.Proofs.Binary32.Opposite
import Mecanum.Proofs.Pid.Bounds
import Mecanum.Proofs.Motion.Mixing
import Mecanum.Proofs.Binary32.Remainder
import Mecanum.Proofs.Heading.Directions
import Mecanum.Proofs.Motion.Turning
import Mecanum.Proofs.Mission.Convergence
import Mecanum.Proofs.Shared.Waits
import Mecanum.Proofs.Hardware.Rate
