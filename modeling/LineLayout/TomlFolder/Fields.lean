-- Named entries, in the order in which their names first appeared. A name stands at most
-- once.

namespace LineLayout

namespace Fields

/-- The entry of a name. -/
def find? {α : Type} (name : String) : List (String × α) → Option α
  | [] => none
  | (key, value) :: rest => if key = name then some value else find? name rest

/-- Gives a name an entry: in its place when it has one, else at the end. -/
def set {α : Type} (name : String) (value : α) : List (String × α) → List (String × α)
  | [] => [(name, value)]
  | (key, old) :: rest =>
    if key = name then (name, value) :: rest else (key, old) :: set name value rest

/-- Takes the entry of a name away. -/
def erase {α : Type} (name : String) : List (String × α) → List (String × α)
  | [] => []
  | (key, value) :: rest => if key = name then rest else (key, value) :: erase name rest

theorem find?_set {α : Type} (name other : String) (value : α) (fields : List (String × α)) :
    find? other (set name value fields) =
      if name = other then some value else find? other fields := by
  induction fields with
  | nil => simp [set, find?]
  | cons entry rest ih =>
    obtain ⟨key, old⟩ := entry
    by_cases hk : key = name
    · subst hk
      by_cases ho : key = other <;> simp [set, find?, ho]
    · by_cases ho : key = other
      · subst ho
        simp [set, find?, hk, Ne.symm hk]
      · simp [set, find?, hk, ho, ih]

end Fields

end LineLayout
