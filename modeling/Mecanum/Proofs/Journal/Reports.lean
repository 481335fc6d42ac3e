import Mathlib.Data.List.DropRight
import Mecanum.Proofs.Journal.Losses

/-!
# What a drain reports

A record is accepted if its level is enabled, its line has at most 160 bytes, and it has at most
1024 bytes together with the lines accepted since the last drain. The buffer holds just these lines,
and it remembers a loss just if some record of an enabled level was not accepted (`holds_after`). So
a drain into a sink that takes everything writes the accepted lines in their order, and the marker
behind them if there is a loss to tell of (`drains_accepted`).
-/
namespace Mecanum.Journal

structure Entry where
  level : Level
  text : String

/-- The line that a record is to leave. -/
def Entry.line : Entry → String
  | ⟨.error, text⟩ => "[ERROR] " ++ text ++ "\r\n"
  | ⟨.warn, text⟩ => "[WARN] " ++ text ++ "\r\n"
  | ⟨.info, text⟩ => "[INFO] " ++ text ++ "\r\n"
  | ⟨.debug, text⟩ => "[DEBUG] " ++ text ++ "\r\n"
  | ⟨.trace, text⟩ => "[TRACE] " ++ text ++ "\r\n"

theorem line_eq (level : Level) (text : String) : line level text = Entry.line ⟨level, text⟩ := by
  cases level <;> rfl

def Event.entry? : Event → Option Entry
  | record level text => some ⟨level, text⟩
  | drain _ => none

def sinceDrain (history : List Event) : List Entry :=
  (history.rtakeWhile (!·.isDrain)).filterMap Event.entry?

/-- A line is not too long, and finds room behind the lines that were accepted. -/
def Fits (accepted : List String) (line : String) : Prop :=
  line.utf8ByteSize ≤ 160 ∧ (String.join accepted).utf8ByteSize + line.utf8ByteSize ≤ 1024

instance (accepted : List String) (line : String) : Decidable (Fits accepted line) :=
  inferInstanceAs (Decidable (_ ∧ _))

/-- The levels of which records are kept: all up to the threshold. -/
def enabledLevels : Option Level → List Level
  | none => []
  | some .error => [.error]
  | some .warn => [.error, .warn]
  | some .info => [.error, .warn, .info]
  | some .debug => [.error, .warn, .info, .debug]
  | some .trace => [.error, .warn, .info, .debug, .trace]

def Enabled (threshold : Option Level) (level : Level) : Prop := level ∈ enabledLevels threshold

instance (threshold : Option Level) (level : Level) : Decidable (Enabled threshold level) :=
  inferInstanceAs (Decidable (level ∈ enabledLevels threshold))

/-- The lines of the accepted records. -/
def acceptedLines (threshold : Option Level) (entries : List Entry) : List String :=
  entries.foldl
    (fun accepted entry =>
      if Enabled threshold entry.level ∧ Fits accepted entry.line then accepted ++ [entry.line]
      else accepted)
    []

/-- A record of an enabled level was not accepted. -/
def Lossy (threshold : Option Level) (entries : List Entry) : Prop :=
  ∃ before entry later, entries = before ++ entry :: later ∧ Enabled threshold entry.level ∧
    ¬Fits (acceptedLines threshold before) entry.line

/-- What a drain is to write about the records since the last one. -/
inductive Report (threshold : Option Level) (entries : List Entry) : String → Prop where
  | complete (kept : ¬Lossy threshold entries) :
      Report threshold entries (String.join (acceptedLines threshold entries))
  | lossy (lost : Lossy threshold entries) :
      Report threshold entries
        (String.join (acceptedLines threshold entries) ++ "[log overflow]\r\n")

/-! ### One more record -/

section Entries

variable (threshold : Option Level) (entries : List Entry) (entry : Entry)

theorem acceptedLines_concat :
    acceptedLines threshold (entries ++ [entry]) =
      if Enabled threshold entry.level ∧ Fits (acceptedLines threshold entries) entry.line then
        acceptedLines threshold entries ++ [entry.line]
      else acceptedLines threshold entries :=
  List.foldl_concat ..

theorem not_lossy_nil : ¬Lossy threshold [] := by
  simp [Lossy]

/-- One more entry loses something when it is enabled and its line does not fit behind those
accepted. -/
theorem lossy_concat :
    Lossy threshold (entries ++ [entry]) ↔
      Lossy threshold entries ∨
        Enabled threshold entry.level ∧ ¬Fits (acceptedLines threshold entries) entry.line := by
  constructor
  · rintro ⟨before, lost, later, split, enabled, refused⟩
    rcases List.eq_nil_or_concat later with rfl | ⟨later, last, rfl⟩
    · obtain ⟨rfl, same⟩ := List.append_inj' split (by simp)
      cases same
      exact .inr ⟨enabled, refused⟩
    · rw [List.concat_eq_append, ← List.cons_append, ← List.append_assoc] at split
      obtain ⟨rfl, -⟩ := List.append_inj' split (by simp)
      exact .inl ⟨before, lost, later, rfl, enabled, refused⟩
  · rintro (⟨before, lost, later, rfl, enabled, refused⟩ | ⟨enabled, refused⟩)
    · exact ⟨before, lost, later ++ [entry], by simp, enabled, refused⟩
    · exact ⟨entries, entry, [], rfl, enabled, refused⟩

end Entries

section SinceDrain

variable (history : List Event)

theorem sinceDrain_record (level : Level) (text : String) :
    sinceDrain (history ++ [.record level text]) = sinceDrain history ++ [⟨level, text⟩] := by
  rw [sinceDrain, List.rtakeWhile_concat_pos _ _ _ (by simp [Event.isDrain])]
  simp [Event.entry?, sinceDrain]

theorem sinceDrain_drain (accepted : Nat) : sinceDrain (history ++ [.drain accepted]) = [] := by
  rw [sinceDrain, List.rtakeWhile_concat_neg _ _ _ (by simp [Event.isDrain])]
  simp

end SinceDrain

/-! ### The buffer -/

/-- The buffer stands for the records since the last drain. -/
structure Holds (threshold : Option Level) (entries : List Entry) (buffer : Buffer) : Prop where
  configured : buffer.threshold = threshold
  pending : buffer.pending = String.join (acceptedLines threshold entries)
  overflowed : buffer.overflowed = true ↔ Lossy threshold entries

section Buffer

variable {threshold : Option Level} {entries : List Entry} {buffer : Buffer}

theorem Holds.enabled_iff (holds : Holds threshold entries buffer) (level : Level) :
    buffer.enabled level = true ↔ Enabled threshold level := by
  rw [Buffer.enabled, holds.configured]
  cases threshold with
  | none => simp [Enabled, enabledLevels]
  | some most => cases most <;> cases level <;> decide

theorem Holds.admits_iff (holds : Holds threshold entries buffer) (line : String) :
    buffer.admits line = true ↔ Fits (acceptedLines threshold entries) line := by
  rw [Buffer.admits, holds.pending, Bool.and_eq_true, decide_eq_true_iff, decide_eq_true_iff]
  rfl

/-- Recording an entry keeps the buffer holding what was accepted. -/
theorem Holds.record (holds : Holds threshold entries buffer) (level : Level) (text : String) :
    Holds threshold (entries ++ [⟨level, text⟩]) (buffer.record level text) := by
  have lines := acceptedLines_concat threshold entries ⟨level, text⟩
  have losses := lossy_concat threshold entries ⟨level, text⟩
  have admits := holds.admits_iff (Entry.line ⟨level, text⟩)
  by_cases enabled : Enabled threshold level
  · rw [Buffer.record_of_enabled ((holds.enabled_iff level).mpr enabled), line_eq]
    by_cases fits : Fits (acceptedLines threshold entries) (Entry.line ⟨level, text⟩)
    · rw [Buffer.append_admitted (admits.mpr fits)]
      refine ⟨holds.configured, ?_, ?_⟩
      · simp [lines, enabled, fits, holds.pending]
      · simp [losses, fits, holds.overflowed]
    · rw [Buffer.append_lost (admits.not.mpr fits)]
      refine ⟨holds.configured, ?_, ?_⟩
      · simp [lines, fits, holds.pending]
      · simp [losses, enabled, fits]
  · have silent : buffer.record level text = buffer :=
      if_neg ((holds.enabled_iff level).not.mpr enabled)
    rw [silent]
    refine ⟨holds.configured, ?_, ?_⟩
    · simp [lines, enabled, holds.pending]
    · simp [losses, enabled, holds.overflowed]

theorem Holds.drained (holds : Holds threshold entries buffer) :
    Holds threshold [] buffer.drain.2 := by
  refine ⟨holds.configured, rfl, ?_⟩
  simp [Buffer.drain, not_lossy_nil]

end Buffer

/-- At every moment the buffer stands for the records since the last drain, whatever the sinks of
the drains so far have taken. -/
theorem holds_after (threshold : Option Level) (history : List Event) :
    Holds threshold (sinceDrain history) ((Buffer.new threshold).after history) := by
  induction history using List.reverseRecOn with
  | nil =>
    refine ⟨rfl, rfl, ?_⟩
    simp [Buffer.after, Buffer.new, sinceDrain, not_lossy_nil]
  | append_singleton history event ih =>
    rw [Buffer.after_concat]
    cases event with
    | record level text =>
      rw [sinceDrain_record]
      exact ih.record level text
    | drain accepted =>
      rw [sinceDrain_drain]
      exact ih.drained

/-! ### Drains -/

/-- A sink that takes everything gets all that a drain writes. -/
theorem writeAll_drain (buffer : Buffer) :
    (Sink.new none).writeAll buffer.drain.1 =
      (true, ⟨none, buffer.pending ++ if buffer.overflowed then overflowMarker else ""⟩) := by
  cases flag : buffer.overflowed <;>
    simp [Buffer.drain, flag, Sink.writeAll, Sink.write?, Sink.new]

/-- An accepting sink takes a drain whole, and what it writes is the report. -/
theorem Holds.report {threshold : Option Level} {entries : List Entry} {buffer : Buffer}
    (holds : Holds threshold entries buffer) :
    ∃ text, (Sink.new none).writeAll buffer.drain.1 = (true, ⟨none, text⟩) ∧
      Report threshold entries text := by
  refine ⟨_, writeAll_drain buffer, ?_⟩
  have overflowed := holds.overflowed
  rw [holds.pending]
  by_cases lost : Lossy threshold entries
  · rw [if_pos (overflowed.mpr lost)]
    exact .lossy lost
  · rw [if_neg (overflowed.not.mpr lost), String.append_empty]
    exact .complete lost

/-- What becomes of the records since the last drain of a history. -/
structure DrainsAccepted (threshold : Option Level) (history : List Event) : Prop where
  -- A drain into a sink that takes everything writes the report, and nothing is left of it.
  drained : ∃ text,
    (Sink.new none).writeAll ((Buffer.new threshold).after history).drain.1 =
        (true, ⟨none, text⟩) ∧
      Report threshold (sinceDrain history) text
  -- Whatever was lost before it, a record that fits is drained behind the lines before it.
  undaunted : ∀ level text, Lossy threshold (sinceDrain history) → Enabled threshold level →
    Fits (acceptedLines threshold (sinceDrain history)) (Entry.line ⟨level, text⟩) →
      (Sink.new none).writeAll
          ((Buffer.new threshold).after (history ++ [.record level text])).drain.1 =
        (true, ⟨none, String.join (acceptedLines threshold (sinceDrain history)) ++
          Entry.line ⟨level, text⟩ ++ "[log overflow]\r\n"⟩)

/-- Every drain into an accepting sink writes the lines accepted since the one before, and the
marker if something was lost. -/
theorem drains_accepted (threshold : Option Level) (history : List Event) :
    DrainsAccepted threshold history := by
  have holds := holds_after threshold history
  refine ⟨holds.report, ?_⟩
  intro level text lost enabled fits
  have further := holds.record level text
  have flag := further.overflowed.mpr ((lossy_concat ..).mpr (.inl lost))
  rw [Buffer.after_concat, Event.apply, writeAll_drain, if_pos flag, further.pending,
    acceptedLines_concat, if_pos ⟨enabled, fits⟩]
  simp [overflowMarker]

def filler (character : Char) (length : Nat) : String :=
  String.ofList (List.replicate length character)

/-- Six lines of the greatest length and one that fills the buffer to its last byte, behind a drain of
something else. -/
def fullHistory : List Event :=
  [.record .warn "old", .drain 1] ++ List.replicate 6 (.record .info (filler 'x' 151)) ++
    [.record .debug "quiet", .record .info (filler 'y' 55)]

def fullText : String :=
  String.join (List.replicate 6 ("[INFO] " ++ filler 'x' 151 ++ "\r\n")) ++
    "[INFO] " ++ filler 'y' 55 ++ "\r\n"

/-- What a drain writes into a sink that takes everything, at a threshold of `info`. -/
def drainedText (history : List Event) : String :=
  ((Sink.new none).writeAll ((Buffer.new (some .info)).after history).drain.1).2.taken

/-- A full buffer is drained without a marker and, when one more record has come, with it. A line of
161 bytes is lost from an empty buffer. -/
theorem drains_accepted_full :
    DrainsAccepted (some .info) fullHistory ∧ drainedText fullHistory = fullText ∧
      drainedText (fullHistory ++ [.record .error ""]) = fullText ++ "[log overflow]\r\n" ∧
      drainedText [.record .info (filler 'x' 152), .record .error "short"] =
        "[ERROR] short\r\n[log overflow]\r\n" :=
  ⟨drains_accepted _ _, by decide +kernel, by decide +kernel, by decide +kernel⟩

end Mecanum.Journal
