import Mathlib.Data.List.Induction
import Mecanum.Journal.Buffer

/-!
# Losses of the journal

A line that finds no room is lost when it comes, and the next drain is to say so. A drain empties
the buffer and forgets about losses before it writes, so what its sink refuses is lost without a
word. Every record is accounted for, at every moment, exactly if no sink refuses the lines or the
marker of a drain that has any (`lossless_iff`).
-/
namespace Mecanum.Journal

/-- What happens to the journal. A drain makes its writes until the sink refuses one. -/
inductive Event where
  | record (level : Level) (text : String)
  | drain (accepted : Nat)

namespace Event

def isDrain : Event → Bool
  | record .. => false
  | drain _ => true

def apply (buffer : Buffer) : Event → Buffer
  | record level text => buffer.record level text
  | drain _ => buffer.drain.2

end Event

/-- Whatever the sink, it takes the writes up to the first that it refuses. -/
theorem Sink.exists_accepted (sink : Sink) (writes : List String) :
    ∃ accepted, (sink.writeAll writes).2.taken =
        (writes.take accepted).foldl (· ++ ·) sink.taken ∧
      ((sink.writeAll writes).1 = true ↔ writes.length ≤ accepted) := by
  induction writes generalizing sink with
  | nil => exact ⟨0, rfl, by simp [writeAll]⟩
  | cons text rest step =>
    cases wrote : sink.write? text with
    | none => exact ⟨0, by simp [writeAll, wrote], by simp [writeAll, wrote]⟩
    | some next =>
      have taken : next.taken = sink.taken ++ text := by
        simp only [write?] at wrote
        split at wrote
        · cases wrote
          rfl
        · split at wrote
          · cases wrote
            rfl
          · cases wrote
      obtain ⟨accepted, result, all⟩ := step next
      refine ⟨accepted + 1, ?_, ?_⟩
      · simp [writeAll, wrote, result, taken]
      · simp [writeAll, wrote, all]

namespace Buffer

def after (buffer : Buffer) (history : List Event) : Buffer := history.foldl Event.apply buffer

/-- The writes of a drain that the sink takes. -/
def written (buffer : Buffer) (accepted : Nat) : List String := buffer.drain.1.take accepted

/-- The sink takes all that the buffer has to say. -/
structure Served (buffer : Buffer) (accepted : Nat) : Prop where
  lines : buffer.pending ≠ "" → 1 ≤ accepted
  marker : buffer.overflowed = true → 2 ≤ accepted

end Buffer

/-- What has become of a line that came to a buffer, with what has happened later. -/
inductive Accounted (buffer : Buffer) (line : String) (later : List Event) : Prop where
  -- The whole line is waiting to be drained.
  | held {more : String} (admitted : buffer.admits line = true)
      (undrained : ∀ event ∈ later, event.isDrain = false)
      (kept : ((buffer.append line).after later).pending = buffer.pending ++ line ++ more)
  -- The first drain has written the whole line.
  | written {between rest : List Event} {accepted : Nat} {more : String}
      (admitted : buffer.admits line = true) (split : later = between ++ .drain accepted :: rest)
      (undrained : ∀ event ∈ between, event.isDrain = false)
      (taken : (((buffer.append line).after between).written accepted)[0]? =
        some (buffer.pending ++ line ++ more))
  -- A drain has written the marker.
  | marked {between rest : List Event} {accepted : Nat}
      (split : later = between ++ .drain accepted :: rest)
      (taken : (((buffer.append line).after between).written accepted)[1]? = some overflowMarker)
  -- The next drain is to write the marker.
  | owed (flag : ((buffer.append line).after later).overflowed = true)

/-! ### Between two drains -/

section Undrained

variable {buffer : Buffer} {history later : List Event}

theorem Buffer.after_append :
    buffer.after (history ++ later) = (buffer.after history).after later :=
  List.foldl_append

theorem Buffer.threshold_after : (buffer.after history).threshold = buffer.threshold := by
  induction history generalizing buffer with
  | nil => rfl
  | cons event history step =>
    refine step.trans ?_
    cases event with
    | record level text =>
      simp only [Event.apply, record, append]
      split
      · split <;> rfl
      · rfl
    | drain => rfl

theorem Buffer.after_concat {event : Event} :
    buffer.after (history ++ [event]) = event.apply (buffer.after history) := by
  simp [after]

theorem Buffer.record_of_enabled {level : Level} (enabled : buffer.enabled level = true)
    (text : String) : buffer.record level text = buffer.append (line level text) :=
  if_pos enabled

theorem Buffer.append_admitted {line : String} (admitted : buffer.admits line = true) :
    buffer.append line = { buffer with pending := buffer.pending ++ line } := if_pos admitted

theorem Buffer.append_lost {line : String} (lost : ¬buffer.admits line = true) :
    buffer.append line = { buffer with overflowed := true } := if_neg lost

/-- A record only adds to what is held, and no loss is forgotten. -/
theorem Buffer.record_grows (level : Level) (text : String) :
    (∃ more, (buffer.record level text).pending = buffer.pending ++ more) ∧
      (buffer.overflowed = true → (buffer.record level text).overflowed = true) := by
  by_cases enabled : buffer.enabled level = true
  · rw [buffer.record_of_enabled enabled]
    by_cases admitted : buffer.admits (line level text) = true
    · rw [append_admitted admitted]
      exact ⟨⟨_, rfl⟩, id⟩
    · rw [append_lost admitted]
      exact ⟨⟨"", by simp⟩, fun _ => rfl⟩
  · rw [record, if_neg enabled]
    exact ⟨⟨"", by simp⟩, id⟩

/-- Between drains the buffer only grows, and an overflow stays noted. -/
theorem Buffer.grows (undrained : ∀ event ∈ later, event.isDrain = false) :
    (∃ more, (buffer.after later).pending = buffer.pending ++ more) ∧
      (buffer.overflowed = true → (buffer.after later).overflowed = true) := by
  induction later using List.reverseRecOn with
  | nil => exact ⟨⟨"", by simp [after]⟩, id⟩
  | append_singleton later event step =>
    obtain ⟨⟨more, grown⟩, lost⟩ := step fun event inside => undrained event (by simp [inside])
    rw [after_concat]
    cases event with
    | drain accepted => cases undrained (.drain accepted) (by simp)
    | record level text =>
      obtain ⟨⟨further, added⟩, kept⟩ := (buffer.after later).record_grows level text
      refine ⟨⟨more ++ further, ?_⟩, fun flag => kept (lost flag)⟩
      rw [Event.apply, added, grown, String.append_assoc]

/-- Events up to the first drain. -/
theorem undrained_or_split (later : List Event) :
    (∀ event ∈ later, event.isDrain = false) ∨
      ∃ between accepted rest, later = between ++ .drain accepted :: rest ∧
        ∀ event ∈ between, event.isDrain = false := by
  induction later with
  | nil => exact .inl (by simp)
  | cons event later step =>
    cases event with
    | drain accepted => exact .inr ⟨[], accepted, later, rfl, by simp⟩
    | record level text =>
      rcases step with undrained | ⟨between, accepted, rest, rfl, undrained⟩
      · exact .inl (by simpa [Event.isDrain] using undrained)
      · exact .inr ⟨.record level text :: between, accepted, rest, rfl,
          by simpa [Event.isDrain] using undrained⟩

/-- The only drain of a list is found in one way. -/
theorem split_at_drain {between others rest : List Event} {accepted count : Nat}
    (undrained : ∀ event ∈ between, event.isDrain = false)
    (split : between ++ [.drain accepted] = others ++ .drain count :: rest) :
    others = between ∧ count = accepted := by
  rcases List.append_eq_append_iff.mp split with ⟨middle, rfl, same⟩ | ⟨middle, rfl, same⟩
  · cases middle with
    | nil =>
      cases same
      simp
    | cons first middle => simp at same
  · cases middle with
    | nil =>
      cases same
      simp
    | cons first middle =>
      cases same
      cases undrained (.drain count) (by simp)

end Undrained

/-! ### Where text and losses come from -/

section Origin

variable {threshold : Option Level} {history : List Event}

/-- A record that has come since the last drain and was kept, or was lost. -/
def Recent (threshold : Option Level) (history : List Event) (admitted : Bool) : Prop :=
  ∃ before level text later, history = before ++ .record level text :: later ∧
    (Buffer.new threshold).enabled level = true ∧ (∀ event ∈ later, event.isDrain = false) ∧
    ((Buffer.new threshold).after before).admits (line level text) = admitted

theorem Recent.concat {admitted : Bool} (recent : Recent threshold history admitted) {event : Event}
    (undrained : event.isDrain = false) : Recent threshold (history ++ [event]) admitted := by
  obtain ⟨before, level, text, later, rfl, enabled, quiet, taken⟩ := recent
  refine ⟨before, level, text, later ++ [event], by simp, enabled, ?_, taken⟩
  simpa [or_imp, forall_and] using ⟨quiet, undrained⟩

theorem enabled_after (level : Level) : ((Buffer.new threshold).after history).enabled level =
    (Buffer.new threshold).enabled level := by
  rw [Buffer.enabled, Buffer.threshold_after]
  rfl

/-- What waits to be drained, and a loss that is remembered, is due to a recent record. -/
theorem recent_of_after (threshold : Option Level) (history : List Event) :
    (((Buffer.new threshold).after history).pending ≠ "" → Recent threshold history true) ∧
      (((Buffer.new threshold).after history).overflowed = true →
        Recent threshold history false) := by
  induction history using List.reverseRecOn with
  | nil => simp [Buffer.after, Buffer.new]
  | append_singleton history event step =>
    obtain ⟨kept, lost⟩ := step
    rw [Buffer.after_concat]
    cases event with
    | drain accepted => simp [Event.apply, Buffer.drain]
    | record level text =>
      rw [Event.apply]
      by_cases enabled : (Buffer.new threshold).enabled level = true
      · rw [Buffer.record_of_enabled ((enabled_after level).trans enabled)]
        have recent (taken : Bool) (same : ((Buffer.new threshold).after history).admits
            (line level text) = taken) :
            Recent threshold (history ++ [.record level text]) taken :=
          ⟨history, level, text, [], rfl, enabled, by simp, same⟩
        by_cases admitted : ((Buffer.new threshold).after history).admits (line level text) = true
        · rw [Buffer.append_admitted admitted]
          exact ⟨fun _ => recent true admitted, fun flag => (lost flag).concat rfl⟩
        · rw [Buffer.append_lost admitted]
          have refused := Bool.eq_false_iff.mpr admitted
          exact ⟨fun some => (kept some).concat rfl, fun _ => recent false refused⟩
      · rw [Buffer.record, enabled_after, if_neg enabled]
        exact ⟨fun some => (kept some).concat rfl, fun flag => (lost flag).concat rfl⟩

end Origin

/-! ### Accounts -/

theorem line_ne_empty (level : Level) (text : String) : line level text ≠ "" := by
  simp [line]

section Accounts

variable {buffer : Buffer} {accepted : Nat}

theorem Buffer.written_lines : (buffer.written accepted)[0]? =
    if 1 ≤ accepted then some buffer.pending else none := by
  cases accepted <;> simp [written, drain]

theorem Buffer.written_marker : (buffer.written accepted)[1]? =
    if buffer.overflowed = true ∧ 2 ≤ accepted then some overflowMarker else none := by
  match accepted with
  | 0 => simp [written, drain]
  | 1 => simp [written, drain]
  | accepted + 2 => cases flag : buffer.overflowed <;> simp [written, drain, flag]

variable {line : String} {later : List Event}

theorem Buffer.holds_admitted (admitted : buffer.admits line = true)
    (undrained : ∀ event ∈ later, event.isDrain = false) :
    ∃ more, ((buffer.append line).after later).pending = buffer.pending ++ line ++ more := by
  have grown := ((buffer.append line).grows undrained).1
  rwa [append_admitted admitted] at grown ⊢

theorem Buffer.remembers_lost (lost : ¬buffer.admits line = true)
    (undrained : ∀ event ∈ later, event.isDrain = false) :
    ((buffer.append line).after later).overflowed = true := by
  apply ((buffer.append line).grows undrained).2
  rw [append_lost lost]

/-- A line is accounted for if the drains behind it are served. -/
theorem accounted_of_served (some : line ≠ "")
    (served : ∀ between accepted rest, later = between ++ .drain accepted :: rest →
      ((buffer.append line).after between).Served accepted) : Accounted buffer line later := by
  by_cases admitted : buffer.admits line = true
  · rcases undrained_or_split later with undrained | ⟨between, accepted, rest, split, undrained⟩
    · obtain ⟨more, kept⟩ := Buffer.holds_admitted admitted undrained
      exact .held admitted undrained kept
    · obtain ⟨more, kept⟩ := Buffer.holds_admitted admitted undrained
      have present : ((buffer.append line).after between).pending ≠ "" := by
        simp [kept, some]
      have taken := (served between accepted rest split).lines present
      exact .written admitted split undrained (by rw [Buffer.written_lines, if_pos taken, kept])
  · rcases undrained_or_split later with undrained | ⟨between, accepted, rest, split, undrained⟩
    · exact .owed (Buffer.remembers_lost admitted undrained)
    · have flag := Buffer.remembers_lost admitted undrained
      have taken := (served between accepted rest split).marker flag
      exact .marked split (by rw [Buffer.written_marker, if_pos ⟨flag, taken⟩])

/-- A line that is accounted for right behind its first drain was served by that drain. -/
theorem taken_of_accounted {between : List Event}
    (undrained : ∀ event ∈ between, event.isDrain = false)
    (accounted : Accounted buffer line (between ++ [.drain accepted])) :
    1 ≤ accepted ∧ (buffer.admits line = false → 2 ≤ accepted) := by
  cases accounted with
  | held admitted quiet => cases quiet (.drain accepted) (by simp)
  | @written others rest count more admitted split quiet taken =>
    obtain ⟨rfl, rfl⟩ := split_at_drain undrained split
    rw [Buffer.written_lines] at taken
    split at taken
    · simp_all
    · cases taken
  | @marked others rest count split taken =>
    obtain ⟨rfl, rfl⟩ := split_at_drain undrained split
    rw [Buffer.written_marker] at taken
    split at taken
    next both => exact ⟨by omega, fun _ => both.2⟩
    next => cases taken
  | owed flag =>
    rw [Buffer.after_concat] at flag
    cases flag

end Accounts

/-- Every record of an enabled level is accounted for at every moment. -/
def Lossless (threshold : Option Level) (history : List Event) : Prop :=
  ∀ before level text later rest, history = before ++ .record level text :: later ++ rest →
    (Buffer.new threshold).enabled level = true →
    Accounted ((Buffer.new threshold).after before) (line level text) later

/-- No record disappears without a word exactly if every drain finds a sink that takes the lines, as
far as there are any, and the marker, if it is owed. -/
theorem lossless_iff (threshold : Option Level) (history : List Event) :
    Lossless threshold history ↔
      ∀ before accepted rest, history = before ++ .drain accepted :: rest →
        ((Buffer.new threshold).after before).Served accepted := by
  constructor
  · intro lossless before accepted rest split
    have taken {admitted : Bool} (recent : Recent threshold before admitted) :
        1 ≤ accepted ∧ (admitted = false → 2 ≤ accepted) := by
      obtain ⟨front, level, text, later, rfl, enabled, undrained, same⟩ := recent
      have accounted := lossless front level text (later ++ [.drain accepted]) rest
        (by simp [split]) enabled
      exact same ▸ taken_of_accounted undrained accounted
    obtain ⟨kept, lost⟩ := recent_of_after threshold before
    exact ⟨fun some => (taken (kept some)).1, fun flag => (taken (lost flag)).2 rfl⟩
  · intro served before level text later rest split enabled
    apply accounted_of_served (line_ne_empty level text)
    rintro between accepted behind rfl
    have drained := served (before ++ .record level text :: between) accepted (behind ++ rest)
      (by simp [split])
    have recorded : (Buffer.new threshold).after (before ++ .record level text :: between) =
        (((Buffer.new threshold).after before).record level text).after between :=
      Buffer.after_append
    rwa [recorded, Buffer.record_of_enabled ((enabled_after level).trans enabled)] at drained

/-- A line that is drained, and a drain of nothing that is refused. -/
theorem lossless_iff_drained :
    Lossless (some .info) [.record .info "ready", .drain 1, .drain 0] := by
  apply (lossless_iff (some .info) _).mpr
  intro before accepted rest split
  match before with
  | [] => cases split
  | [_] =>
    cases split
    exact ⟨fun _ => by decide, fun flag => by cases flag⟩
  | [_, _] =>
    cases split
    exact ⟨fun some => absurd rfl some, fun flag => by cases flag⟩
  | _ :: _ :: _ :: _ => simp at split

def longText : String := String.ofList (List.replicate 160 'x')

/-- A record is lost for its length, and the sink of the next drain refuses the marker. Then nothing
is left of the loss: the drain after it finds a sink that takes everything, and has nothing to
say. -/
theorem loss_forgotten :
    let begun := Buffer.new (some .info)
    let recorded := begun.record .info longText
    let drained := recorded.drain.2
    begun.enabled .info = true ∧ recorded.written 1 = [""] ∧ drained.written 2 = [""] ∧
      drained.drain.2.overflowed = false := by
  decide +kernel

end Mecanum.Journal
