/-!
# The tick timer

A basic timer counts at one megahertz behind its prescaler and raises an interrupt each time it
reloads. The registers are words of 32 bits, of which the timer changes single bits, except for the
prescaler, the reload value and the event register, which it writes whole.
-/
namespace Mecanum.Hardware

structure TimerRegisters where
  control : UInt32
  interruptEnable : UInt32
  status : UInt32
  eventGeneration : UInt32
  prescaler : UInt32
  reload : UInt32
  clockEnable : UInt32
deriving DecidableEq, Repr

structure Timer where
  registers : TimerRegisters
  rateHz : Option UInt32
deriving DecidableEq, Repr

namespace Timer

/-- The rate of the counter behind the prescaler. -/
def counterHz : UInt32 := 1000000

def setBit (word : UInt32) (bit : UInt32) : UInt32 := word ||| (1 <<< bit)

def clearBit (word : UInt32) (bit : UInt32) : UInt32 := word &&& ~~~(1 <<< bit)

def idle : Timer := ⟨⟨0, 0, 0, 0, 0, 0, 0⟩, none⟩

/-- The rate that can be had nearest to the one asked for. -/
def rateFor (rateHz : UInt32) : UInt32 := max 1 (min rateHz counterHz)

/-- One less than a divider, or zero where there is nothing to divide. -/
def dividerValue (divider : UInt32) : UInt32 := if divider = 0 then 0 else divider - 1

def prescalerFor (clockHz : UInt32) : UInt32 := dividerValue (clockHz / counterHz)

def reloadFor (rateHz : UInt32) : UInt32 := dividerValue (counterHz / rateFor rateHz)

/-- Enables the timer's clock: bit 4. -/
def clockBit : UInt32 := 4

/-- Runs the counter: bit 0. -/
def runBit : UInt32 := 0

/-- Leaves only overflows as a source of updates: bit 2. -/
def overflowOnlyBit : UInt32 := 2

/--
Starts the timer from the clock it is fed with. The counter is stopped while its dividers are
written; the update that takes them over is not to raise an interrupt.
-/
def start (timer : Timer) (clockHz rateHz : UInt32) : Timer :=
  let registers := timer.registers
  { registers :=
      { control := setBit (setBit (clearBit registers.control runBit) overflowOnlyBit) runBit
        interruptEnable := setBit registers.interruptEnable 0
        status := clearBit registers.status 0
        eventGeneration := 1
        prescaler := prescalerFor clockHz
        reload := reloadFor rateHz
        clockEnable := setBit registers.clockEnable clockBit }
    rateHz := some (rateFor rateHz) }

def clearInterrupt (timer : Timer) : Timer :=
  { timer with
    registers := { timer.registers with status := clearBit timer.registers.status 0 } }

/-- The counter has set the status. -/
def raiseStatus (timer : Timer) (status : UInt32) : Timer :=
  { timer with registers := { timer.registers with status := status } }

/-- Writes registers that others share with the timer. -/
def preset (timer : Timer) (control interruptEnable clockEnable : UInt32) : Timer :=
  { timer with
    registers :=
      { timer.registers with
        control := control, interruptEnable := interruptEnable, clockEnable := clockEnable } }

end Timer

end Mecanum.Hardware
