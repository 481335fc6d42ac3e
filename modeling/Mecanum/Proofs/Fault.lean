import Mecanum.Fault

/-!
# Results of checked computations

A checked computation has a result exactly if each of its parts has one. Two computations agree if
they end with the same fault or with results that are alike.
-/
namespace Mecanum

theorem bind_eq_ok_iff {α β : Type} {value : Except Fault α} {next : α → Except Fault β}
    {result : β} :
    value >>= next = .ok result ↔ ∃ produced, value = .ok produced ∧ next produced = .ok result := by
  constructor
  · intro bound
    cases value with
    | error fault => cases bound
    | ok produced => exact ⟨produced, rfl, bound⟩
  · rintro ⟨produced, rfl, rest⟩
    exact rest

theorem exists_bind {α β : Type} {value : Except Fault α} {next : α → Except Fault β}
    (answered : ∃ produced, value = .ok produced)
    (onward : ∀ produced, ∃ result, next produced = .ok result) :
    ∃ result, value >>= next = .ok result := by
  obtain ⟨produced, rfl⟩ := answered
  exact onward produced

theorem map_eq_ok_iff {α β : Type} {value : Except Fault α} {view : α → β} {result : β} :
    value.map view = .ok result ↔ ∃ produced, value = .ok produced ∧ view produced = result := by
  cases value <;> simp [Except.map]

/-- Two computations end with the same fault, or with results that are alike. -/
inductive Agree {α : Type} (same : α → α → Prop) : Except Fault α → Except Fault α → Prop
  | fault (fault : Fault) : Agree same (.error fault) (.error fault)
  | result {x y : α} (alike : same x y) : Agree same (.ok x) (.ok y)

namespace Agree

variable {α β : Type} {same : α → α → Prop} {alike : β → β → Prop} {x y : Except Fault α}

theorem refl (reflexive : ∀ a, same a a) (x : Except Fault α) : Agree same x x := by
  cases x with
  | error fault => exact .fault fault
  | ok a => exact .result (reflexive a)

theorem bind {f g : α → Except Fault β} (agree : Agree same x y)
    (onward : ∀ a b, same a b → Agree alike (f a) (g b)) : Agree alike (x >>= f) (y >>= g) := by
  cases agree with
  | fault fault => exact .fault fault
  | result both => exact onward _ _ both

theorem bind_same {f g : α → Except Fault β} (x : Except Fault α)
    (onward : ∀ a, Agree alike (f a) (g a)) : Agree alike (x >>= f) (x >>= g) := by
  cases x with
  | error fault => exact .fault fault
  | ok a => exact onward a

theorem ite {p q : Prop} [Decidable p] [Decidable q] {x' y' : Except Fault α} (equal : p ↔ q)
    (yes : p → Agree same x y) (no : ¬p → Agree same x' y') :
    Agree same (if p then x else x') (if q then y else y') := by
  by_cases holds : p
  · rw [if_pos holds, if_pos (equal.mp holds)]
    exact yes holds
  · rw [if_neg holds, if_neg (mt equal.mpr holds)]
    exact no holds

theorem map_eq {view : α → β} (agree : Agree same x y)
    (seen : ∀ a b, same a b → view a = view b) : x.map view = y.map view := by
  cases agree with
  | fault => rfl
  | result both => exact congrArg Except.ok (seen _ _ both)

end Agree

end Mecanum
