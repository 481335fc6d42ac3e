import Mathlib.Data.List.DropRight
import Mathlib.Data.List.Induction
import Mecanum.Mission.Errand

/-!
# Waits on the sighting board

The board keeps the latest record for good and the signal of a change until somebody takes it, so a
signal can be left over from any earlier time. It is then that of the record held (`Sound`), and a
wait is not misled by it: its first poll either has looked at that record already or clears the
signal. From then on a signal means that a record came in since the poll before, and the record is
the latest.
-/
namespace Mecanum.Shared.Board

open Camera (Record)

/-! ### What is done at a board -/

/-- What is done at a board: a record is published, or somebody polls. -/
inductive Deed (α : Type) where
  | publish (record : Record)
  | poll (who : α)
deriving DecidableEq

namespace Deed

variable {α : Type}

def record? : Deed α → Option Record
  | publish record => some record
  | poll _ => none

def isPoll : Deed α → Bool
  | publish _ => false
  | poll _ => true

end Deed

section Deeds

variable {α : Type}

def published (deeds : List (Deed α)) : List Record := deeds.filterMap Deed.record?

/-- The deeds from the first poll on. -/
def fromFirst (deeds : List (Deed α)) : List (Deed α) := deeds.dropWhile (!·.isPoll)

/-- The deeds behind the latest poll. -/
def sinceLatest (deeds : List (Deed α)) : List (Deed α) := deeds.rtakeWhile (!·.isPoll)

theorem published_append (front back : List (Deed α)) :
    published (front ++ back) = published front ++ published back :=
  List.filterMap_append ..

theorem published_concat_publish (deeds : List (Deed α)) (record : Record) :
    published (deeds ++ [.publish record]) = published deeds ++ [record] :=
  published_append ..

theorem published_concat_poll (deeds : List (Deed α)) (who : α) :
    published (deeds ++ [.poll who]) = published deeds := by
  rw [published_append]
  exact List.append_nil _

theorem sinceLatest_concat_publish (deeds : List (Deed α)) (record : Record) :
    sinceLatest (deeds ++ [.publish record]) = sinceLatest deeds ++ [.publish record] :=
  List.rtakeWhile_concat_pos _ _ _ rfl

theorem sinceLatest_concat_poll (deeds : List (Deed α)) (who : α) :
    sinceLatest (deeds ++ [.poll who]) = [] :=
  List.rtakeWhile_concat_neg _ _ _ (by simp [Deed.isPoll])

theorem sinceLatest_suffix (deeds : List (Deed α)) : sinceLatest deeds <:+ deeds :=
  List.rtakeWhile_suffix _ _

/-- A record published since the latest poll is the latest of all. -/
theorem getLast?_published {deeds : List (Deed α)} (earlier : List Record)
    (renewed : published (sinceLatest deeds) ≠ []) :
    (earlier ++ published deeds).getLast? = (published (sinceLatest deeds)).getLast? := by
  obtain ⟨front, same⟩ := sinceLatest_suffix deeds
  have split : published deeds = published front ++ published (sinceLatest deeds) := by
    rw [← published_append, same]
  rw [split, ← List.append_assoc, List.getLast?_append_of_ne_nil _ renewed]

end Deeds

/-! ### One poll -/

/-- A signal that nobody has taken is that of the record held. -/
def Sound (board : Board) : Prop :=
  ∀ record, board.changed.pending = some record → board.latest = some record

theorem sound_publish (board : Board) (record : Record) : (board.publish record).Sound :=
  fun _ signalled => signalled

section Poll

variable (accept : Record → Bool) (board : Board)

theorem poll_change : Wait.change.poll accept board =
    (board.changed.pending.filter accept, .change, { board with changed := .empty }) := by
  obtain ⟨latest, ⟨_ | record⟩⟩ := board
  · rfl
  · cases accepted : accept record <;>
      simp [Wait.poll, Wait.pollChange, Signal.take, Option.filter, accepted]

/-- The first poll of a wait that counts the record held: behind a record that it does not accept, a
signal that is left over is of the same record. -/
theorem poll_held {board : Board} (sound : board.Sound) :
    (Wait.held.poll accept board).1 = board.latest.filter accept := by
  rw [Wait.poll]
  cases held : board.latest.filter accept with
  | some record => rfl
  | none =>
    have change := congrArg Prod.fst (poll_change accept board)
    refine change.trans (Option.filter_eq_none_iff.mpr fun record signalled => ?_)
    exact Option.filter_eq_none_iff.mp held record (sound record signalled)

/-- All that a poll can do: end the wait with the record held, or take the signal. -/
theorem poll_cases (wait : Wait) :
    (∃ record, wait.poll accept board = (some record, .change, board)) ∨
      ∃ found, wait.poll accept board = (found, .change, { board with changed := .empty }) := by
  cases wait with
  | fresh => exact .inr ⟨none, rfl⟩
  | change => exact .inr ⟨_, poll_change accept board⟩
  | held =>
    rw [Wait.poll]
    cases board.latest.filter accept with
    | some record => exact .inl ⟨record, rfl⟩
    | none => exact .inr ⟨_, poll_change accept board⟩

variable {accept board} {wait : Wait}

/-- A poll that finds nothing leaves a wait for the next change, and no signal. -/
theorem poll_none {next : Wait × Board} (nothing : wait.poll accept board = (none, next)) :
    next = (.change, { board with changed := .empty }) := by
  obtain ⟨record, ended⟩ | ⟨found, left⟩ := poll_cases accept board wait
  · cases ended.symm.trans nothing
  · exact congrArg Prod.snd (nothing.symm.trans left)

theorem latest_poll : (wait.poll accept board).2.2.latest = board.latest := by
  obtain ⟨record, polled⟩ | ⟨found, polled⟩ := poll_cases accept board wait <;> rw [polled]

theorem Sound.poll (sound : board.Sound) : (wait.poll accept board).2.2.Sound := by
  obtain ⟨record, polled⟩ | ⟨found, polled⟩ := poll_cases accept board wait
  · rwa [polled]
  · rw [polled]
    nofun

end Poll

/-! ### What came before -/

/-- One deed at a board. The wait that is polled may stand anywhere and ask for anything. -/
def act (board : Board) : Deed (Wait × (Record → Bool)) → Board
  | .publish record => board.publish record
  | .poll (wait, accept) => (wait.poll accept board).2.2

/-- The board behind some deeds. A wait that is over or has been dropped is not polled any more. -/
def after (deeds : List (Deed (Wait × (Record → Bool)))) : Board := deeds.foldl act .empty

theorem after_concat (deeds : List (Deed (Wait × (Record → Bool))))
    (deed : Deed (Wait × (Record → Bool))) : after (deeds ++ [deed]) = (after deeds).act deed :=
  List.foldl_concat ..

/-- The latest record of the cell is the last published. -/
theorem latest_after (deeds : List (Deed (Wait × (Record → Bool)))) :
    (after deeds).latest = (published deeds).getLast? := by
  induction deeds using List.reverseRecOn with
  | nil => rfl
  | append_singleton earlier deed ih =>
    rw [after_concat]
    cases deed with
    | publish record => rw [published_concat_publish, List.getLast?_concat]; rfl
    | poll who => rw [published_concat_poll, ← ih]; exact latest_poll

/-- Every history leaves the board sound. -/
theorem sound_after (deeds : List (Deed (Wait × (Record → Bool)))) : (after deeds).Sound := by
  induction deeds using List.reverseRecOn with
  | nil => nofun
  | append_singleton earlier deed ih =>
    rw [after_concat]
    cases deed with
    | publish record => exact sound_publish (after earlier) record
    | poll who => exact ih.poll

/-! ### One wait -/

/-- What one deed makes of a wait under way. A poll that finds a record ends it. -/
def turn (accept : Record → Bool) (scene : Wait × Board) : Deed Unit → Option (Wait × Board)
  | .publish record => some (scene.1, scene.2.publish record)
  | .poll () =>
    match scene.1.poll accept scene.2 with
    | (none, next) => some next
    | (some _, _) => none

/-- The wait and the board behind some deeds, if the wait is still under way. -/
def follow (accept : Record → Bool) (scene : Wait × Board) (deeds : List (Deed Unit)) :
    Option (Wait × Board) :=
  deeds.foldlM (turn accept) scene

/-- A record was published since the previous poll. -/
def Renewed (deeds : List (Deed Unit)) : Prop :=
  .poll () ∈ deeds ∧ published (sinceLatest deeds) ≠ []

/-- The latest record was held at the first poll, which may be the one to come. -/
def HeldAtFirst (deeds : List (Deed Unit)) : Prop := published (fromFirst deeds) = []

instance (deeds : List (Deed Unit)) : Decidable (Renewed deeds) :=
  inferInstanceAs (Decidable (_ ∧ _))

instance (deeds : List (Deed Unit)) : Decidable (HeldAtFirst deeds) :=
  inferInstanceAs (Decidable (_ = _))

theorem heldAtFirst_of_unpolled {deeds : List (Deed Unit)} (unpolled : .poll () ∉ deeds) :
    HeldAtFirst deeds := by
  have none : fromFirst deeds = [] := by
    refine List.dropWhile_eq_nil_iff.mpr fun deed member => ?_
    cases deed with
    | publish => rfl
    | poll => exact absurd member unpolled
  rw [HeldAtFirst, none]
  rfl

section Follow

variable {accept : Record → Bool} {first wait : Wait} {start board : Board}
  {deeds : List (Deed Unit)}

theorem follow_concat {scene : Wait × Board} {deed : Deed Unit}
    (followed : follow accept (first, start) (deeds ++ [deed]) = some scene) :
    ∃ before, follow accept (first, start) deeds = some before ∧
      turn accept before deed = some scene := by
  rw [follow, List.foldlM_append] at followed
  obtain ⟨before, earlier, last⟩ := Option.bind_eq_some_iff.mp followed
  exact ⟨before, earlier, by simpa using last⟩

theorem turn_poll {before scene : Wait × Board}
    (turned : turn accept before (.poll ()) = some scene) :
    before.1.poll accept before.2 = (none, scene) ∧
      scene = (.change, { before.2 with changed := .empty }) := by
  rw [turn] at turned
  split at turned
  next next nothing =>
    cases turned
    exact ⟨nothing, poll_none nothing⟩
  next => cases turned

/-- A wait under way: before its first poll it is as it began, and behind it the signal is that of
the latest record published since the latest poll, if there is one. -/
structure Underway (first : Wait) (start : Board) (deeds : List (Deed Unit)) (wait : Wait)
    (board : Board) : Prop where
  latest : board.latest = (start.latest.toList ++ published deeds).getLast?
  sound : start.Sound → board.Sound
  stands : .poll () ∉ deeds ∧ wait = first ∨
    .poll () ∈ deeds ∧ wait = .change ∧
      board.changed.pending = (published (sinceLatest deeds)).getLast?

/-- A wait that has not come out is where the deeds since its start put it. -/
theorem underway_of_follow (followed : follow accept (first, start) deeds = some (wait, board)) :
    Underway first start deeds wait board := by
  induction deeds using List.reverseRecOn generalizing wait board with
  | nil =>
    cases followed
    exact ⟨by cases start.latest <;> rfl, id, .inl ⟨nofun, rfl⟩⟩
  | append_singleton earlier deed ih =>
    obtain ⟨before, earlier, turned⟩ := follow_concat followed
    obtain ⟨latest, sound, stands⟩ := ih earlier
    cases deed with
    | publish record =>
      cases turned
      refine ⟨?_, fun _ => sound_publish before.2 record, ?_⟩
      · rw [published_concat_publish, ← List.append_assoc, List.getLast?_concat]
        rfl
      · rw [sinceLatest_concat_publish, published_concat_publish, List.getLast?_concat]
        simp only [List.mem_append, List.mem_singleton, reduceCtorEq, or_false]
        exact stands.imp_right fun polled => ⟨polled.1, polled.2.1, rfl⟩
    | poll who =>
      obtain ⟨_, same⟩ := turn_poll turned
      cases same
      refine ⟨?_, fun _ => nofun, .inr ⟨by simp, rfl, ?_⟩⟩
      · rw [published_concat_poll]
        exact latest
      · rw [sinceLatest_concat_poll]
        rfl

/-- Behind a poll of a wait that counts the record held, that record is none that it accepts, unless
it is newer than the poll. -/
theorem refused_of_follow (sound : start.Sound)
    (followed : follow accept (.held, start) deeds = some (wait, board))
    (polled : .poll () ∈ deeds) (unrenewed : published (sinceLatest deeds) = []) :
    board.latest.filter accept = none := by
  induction deeds using List.reverseRecOn generalizing wait board with
  | nil => cases polled
  | append_singleton earlier deed ih =>
    obtain ⟨⟨before, held⟩, prior, turned⟩ := follow_concat followed
    cases deed with
    | publish record =>
      rw [sinceLatest_concat_publish, published_concat_publish] at unrenewed
      simp at unrenewed
    | poll who =>
      obtain ⟨nothing, same⟩ := turn_poll turned
      cases same
      have underway := underway_of_follow prior
      obtain ⟨_, rfl⟩ | ⟨again, rfl, pending⟩ := underway.stands
      · -- The first poll looks at the record held.
        rw [← poll_held accept (underway.sound sound)]
        exact congrArg Prod.fst nothing
      · -- Any later poll looks at the signal, which is of the record held if it is newer.
        by_cases fresh : published (sinceLatest earlier) = []
        · have refused := ih prior again fresh
          exact refused
        · have newest := getLast?_published start.latest.toList fresh
          have found := congrArg Prod.fst ((poll_change accept held).symm.trans nothing)
          rw [underway.latest, newest, ← pending]
          exact found

/-- Behind the first poll, the next one finds the latest record, if that is new and accepted. -/
theorem Underway.poll_change_iff (underway : Underway first start deeds wait board)
    (polled : .poll () ∈ deeds)
    (pending : board.changed.pending = (published (sinceLatest deeds)).getLast?) {record : Record} :
    (Wait.change.poll accept board).1 = some record ↔
      board.latest = some record ∧ accept record = true ∧ Renewed deeds := by
  rw [poll_change, pending]
  by_cases fresh : published (sinceLatest deeds) = []
  · rw [fresh]
    exact ⟨nofun, fun found => absurd fresh found.2.2.2⟩
  · rw [underway.latest, getLast?_published _ fresh, Option.filter_eq_some_iff]
    exact and_congr_right fun _ => ⟨fun accepted => ⟨accepted, polled, fresh⟩, And.left⟩

theorem Underway.latest_of_renewed (underway : Underway first start deeds wait board)
    (renewed : Renewed deeds) : board.latest = (published deeds).getLast? := by
  have newest := getLast?_published [] renewed.2
  rw [underway.latest, getLast?_published _ renewed.2, ← newest, List.nil_append]

/-- A fresh wait comes out with the latest record, if it is accepted, when it was published since
the previous poll. -/
theorem poll_iff_of_follow_fresh
    (followed : follow accept (.fresh, start) deeds = some (wait, board)) {record : Record} :
    (wait.poll accept board).1 = some record ↔
      board.latest = some record ∧ accept record = true ∧ Renewed deeds := by
  have underway := underway_of_follow followed
  obtain ⟨unpolled, rfl⟩ | ⟨polled, rfl, pending⟩ := underway.stands
  · exact ⟨nofun, fun found => absurd found.2.2.1 unpolled⟩
  · exact underway.poll_change_iff polled pending

/-- A held wait comes out with the latest record, if it is accepted, when the first poll held it or
it was published since the previous poll. -/
theorem poll_iff_of_follow_held (sound : start.Sound)
    (followed : follow accept (.held, start) deeds = some (wait, board)) {record : Record} :
    (wait.poll accept board).1 = some record ↔
      board.latest = some record ∧ accept record = true ∧ (HeldAtFirst deeds ∨ Renewed deeds) := by
  have underway := underway_of_follow followed
  obtain ⟨unpolled, rfl⟩ | ⟨polled, rfl, pending⟩ := underway.stands
  · rw [poll_held accept (underway.sound sound), Option.filter_eq_some_iff]
    exact and_congr_right fun _ => (and_iff_left (.inl (heldAtFirst_of_unpolled unpolled))).symm
  · rw [underway.poll_change_iff polled pending]
    refine and_congr_right fun same => and_congr_right fun accepted => ?_
    refine ⟨.inr, fun current => current.elim (fun _ => ⟨polled, fun unrenewed => ?_⟩) id⟩
    -- A record that has been there since the first poll would have ended the wait.
    have refused := refused_of_follow sound followed polled unrenewed
    exact absurd accepted (Option.filter_eq_none_iff.mp refused record same)

end Follow

end Mecanum.Shared.Board

/-! ### The call for a sighting -/

namespace Mecanum.Mission.Errand

open Shared (Board)
open Shared.Board (Deed follow turn)

/-- What one deed makes of a call under way. The other tasks have changed the rest of the shared
state at will before it. -/
def visit (scene : Errand × Shared.State) (deed : Shared.State × Deed Unit) :
    Option (Errand × Shared.State) :=
  let shared := { deed.1 with board := scene.2.board }
  match deed.2 with
  | .publish record => some (scene.1, shared.publishRecord record)
  | .poll () =>
    match scene.1.poll shared with
    | (none, next) => some next
    | (some _, _) => none

/-- The call and the shared state behind some deeds, if the call is still under way. -/
def pursue (scene : Errand × Shared.State) (deeds : List (Shared.State × Deed Unit)) :
    Option (Errand × Shared.State) :=
  deeds.foldlM visit scene

/-- Waiting for a sight of a ring is waiting for a record that shows it. -/
theorem poll_sight (id : UInt8) (wait : Board.Wait) (shared : Shared.State) :
    (sight id wait).poll shared =
      match wait.poll (shows id) shared.board with
      | (some record, _, board) => (some (.position (pixel record.x) (pixel record.y)),
          sight id wait, { shared with board := board })
      | (none, next, board) => (none, sight id next, { shared with board := board }) := by
  have one : (sight id wait).stepsLeft = 0 := rfl
  rw [poll, one, advance, step, stepBoard]
  rcases wait.poll (shows id) shared.board with ⟨_ | record, next, board⟩ <;> rfl

theorem poll_sight_eq_position {id : UInt8} {wait : Board.Wait} {shared : Shared.State}
    {x y : Int} :
    ((sight id wait).poll shared).1 = some (.position x y) ↔
      ∃ record, (wait.poll (shows id) shared.board).1 = some record ∧
        pixel record.x = x ∧ pixel record.y = y := by
  rw [poll_sight]
  rcases wait.poll (shows id) shared.board with ⟨_ | record, next, board⟩ <;> simp

/-- A call for a sighting goes as its wait on the board does. -/
theorem follow_of_pursue {id : UInt8} {first : Board.Wait} {start behind : Shared.State}
    {errand : Errand} {deeds : List (Shared.State × Deed Unit)}
    (pursued : pursue (sight id first, start) deeds = some (errand, behind)) :
    ∃ wait, errand = sight id wait ∧
      follow (shows id) (first, start.board) (deeds.map Prod.snd) = some (wait, behind.board) := by
  induction deeds generalizing first start with
  | nil =>
    cases pursued
    exact ⟨first, rfl, rfl⟩
  | cons deed rest ih =>
    obtain ⟨others, deed⟩ := deed
    obtain ⟨next, visited, onward⟩ := Option.bind_eq_some_iff.mp pursued
    cases deed with
    | publish record =>
      cases visited
      exact ih onward
    | poll who =>
      simp only [visit, poll_sight] at visited
      cases found : first.poll (shows id) start.board with
      | mk record left =>
        rw [found] at visited
        cases record with
        | some record => cases visited
        | none =>
          cases visited
          obtain ⟨wait, same, followed⟩ := ih onward
          refine ⟨wait, same, ?_⟩
          have turned : turn (shows id) (first, start.board) (.poll ()) = some left := by
            rw [turn, found]
          rw [List.map_cons, follow, List.foldlM_cons, turned]
          exact followed

end Mecanum.Mission.Errand

namespace Mecanum.Shared.Board

open Camera (Record)
open Mission (Errand)

/-- A wait on the board is over at a poll exactly if the latest record is one that it accepts and is
not older than it may be: for a wait that counts the record held, it was there at the first poll or
has been published since the poll before, and for a wait for a fresh record it is the latter. The
wait then ends with that record. This holds whatever was done at the board before, and so the call
for a sighting is answered with the pixel of the latest record, published behind its first poll. -/
theorem waits_see_current (earlier : List (Deed (Wait × (Record → Bool))))
    (accept : Record → Bool) (deeds : List (Deed Unit)) :
    (∀ wait board, follow accept (.held, after earlier) deeds = some (wait, board) → ∀ record,
      ((wait.poll accept board).1 = some record ↔
        (published earlier ++ published deeds).getLast? = some record ∧ accept record = true ∧
          (HeldAtFirst deeds ∨ Renewed deeds))) ∧
      (∀ wait board, follow accept (.fresh, after earlier) deeds = some (wait, board) → ∀ record,
        ((wait.poll accept board).1 = some record ↔
          (published earlier ++ published deeds).getLast? = some record ∧ accept record = true ∧
            Renewed deeds)) ∧
      ∀ id start visits errand behind,
        Errand.pursue (.sight id .fresh, start) visits = some (errand, behind) → ∀ x y,
          ((errand.poll behind).1 = some (.position x y) ↔
            ∃ record, (published (visits.map Prod.snd)).getLast? = some record ∧
              Errand.shows id record = true ∧ Renewed (visits.map Prod.snd) ∧
              Errand.pixel record.x = x ∧ Errand.pixel record.y = y) := by
  have all {first wait : Wait} {board : Board}
      (followed : follow accept (first, after earlier) deeds = some (wait, board)) :
      board.latest = (published earlier ++ published deeds).getLast? := by
    rw [(underway_of_follow followed).latest, latest_after, List.getLast?_append,
      List.getLast?_append]
    cases (published earlier).getLast? <;> rfl
  refine ⟨fun wait board followed record => ?_, fun wait board followed record => ?_, ?_⟩
  · rw [← all followed]
    exact poll_iff_of_follow_held (sound_after earlier) followed
  · rw [← all followed]
    exact poll_iff_of_follow_fresh followed
  · intro id start visits errand behind pursued x y
    obtain ⟨wait, rfl, followed⟩ := Errand.follow_of_pursue pursued
    have newest := (underway_of_follow followed).latest_of_renewed
    simp only [Errand.poll_sight_eq_position, poll_iff_of_follow_fresh followed]
    refine exists_congr fun record => ?_
    constructor
    · rintro ⟨⟨latest, shown, renewed⟩, place⟩
      exact ⟨newest renewed ▸ latest, shown, renewed, place⟩
    · rintro ⟨latest, shown, renewed, place⟩
      exact ⟨⟨(newest renewed).trans latest, shown, renewed⟩, place⟩

/-- A record of target 4 that is left over, and its signal. -/
def leftOver : List (Deed (Wait × (Record → Bool))) := [.publish ⟨4, 10, 20, true, 1⟩]

def renewed : Board := ⟨some ⟨4, 12, 20, true, 2⟩, ⟨some ⟨4, 12, 20, true, 2⟩⟩⟩

/-- Waits for target 5 pass over two records of target 4, and the call for a sighting of target 4
passes over the one that is left over. -/
theorem waits_see_current_leftOver :
    (∃ wait board, follow (Errand.shows 5) (.held, after leftOver)
        [.poll (), .publish ⟨4, 12, 20, true, 2⟩, .poll (), .publish ⟨5, 50, 60, true, 3⟩] =
          some (wait, board) ∧
        (wait.poll (Errand.shows 5) board).1 = some ⟨5, 50, 60, true, 3⟩) ∧
      (∃ wait board, follow (Errand.shows 5) (.fresh, after leftOver)
        [.poll (), .publish ⟨4, 12, 20, true, 2⟩, .poll (), .publish ⟨5, 50, 60, true, 3⟩] =
          some (wait, board) ∧
        (wait.poll (Errand.shows 5) board).1 = some ⟨5, 50, 60, true, 3⟩) ∧
      Errand.pursue (.sight 4 .fresh, { State.initial with board := after leftOver })
          [(.initial, .poll ()), (.initial, .publish ⟨4, 12, 20, true, 2⟩)] =
        some (.sight 4 .change, { State.initial with board := renewed }) ∧
      ((Errand.sight 4 .change).poll { State.initial with board := renewed }).1 =
        some (.position 12 20) := by
  obtain ⟨held, fresh, sight⟩ := waits_see_current leftOver (Errand.shows 5)
    [.poll (), .publish ⟨4, 12, 20, true, 2⟩, .poll (), .publish ⟨5, 50, 60, true, 3⟩]
  have pursued : Errand.pursue (.sight 4 .fresh, { State.initial with board := after leftOver })
      [(.initial, .poll ()), (.initial, .publish ⟨4, 12, 20, true, 2⟩)] =
        some (.sight 4 .change, { State.initial with board := renewed }) := rfl
  refine ⟨⟨_, _, rfl, (held _ _ rfl _).mpr (by decide)⟩,
    ⟨_, _, rfl, (fresh _ _ rfl _).mpr (by decide)⟩, pursued, ?_⟩
  exact (sight _ _ _ _ _ pursued 12 20).mpr ⟨⟨4, 12, 20, true, 2⟩, by decide⟩

end Mecanum.Shared.Board
