/-
  Bindings: the names of one scope with their values, in the order they were declared.

  Declaring a name again keeps its place and replaces its value.
-/
import Scriptlet.Value

namespace Scriptlet

/-- Names with their values, oldest first. -/
abbrev Bindings := List (String × Value)

namespace Bindings

/-- The value of a name. -/
def get? (b : Bindings) (name : String) : Option Value :=
  match b with
  | [] => none
  | (x, v) :: rest => if x = name then some v else get? rest name

/-- Binds a name, in its old place if it has one, else at the end. -/
def put (b : Bindings) (name : String) (value : Value) : Bindings :=
  match b with
  | [] => [(name, value)]
  | (x, v) :: rest => if x = name then (x, value) :: rest else (x, v) :: put rest name value

/-- The names in declaration order. -/
def names (b : Bindings) : List String := b.map Prod.fst

/-- The values in declaration order. -/
def values (b : Bindings) : List Value := b.map Prod.snd

/-- After `put` the name has the new value and every other name its old one. -/
theorem get?_put (b : Bindings) (name other : String) (value : Value) :
    (b.put name value).get? other = if other = name then some value else b.get? other := by
  induction b with
  | nil =>
    simp only [put, get?]
    by_cases h : other = name
    · simp [h]
    · simp [h, Ne.symm h]
  | cons entry rest ih =>
    obtain ⟨x, v⟩ := entry
    by_cases hx : x = name
    · subst hx
      by_cases h : other = x
      · simp [put, get?, h]
      · simp [put, get?, h, Ne.symm h]
    · rw [put, if_neg hx, get?, ih]
      by_cases h : other = name
      · subst h; simp [hx]
      · simp [get?, h]

/-- Binding with `put` adds a new name at the end and leaves the names otherwise as they were. -/
theorem names_put (b : Bindings) (name : String) (value : Value) :
    (b.put name value).names = if (b.get? name).isSome then b.names else b.names ++ [name] := by
  induction b with
  | nil => rfl
  | cons entry rest ih =>
    obtain ⟨x, v⟩ := entry
    by_cases hx : x = name
    · simp [put, get?, names, hx]
    · rw [put, if_neg hx, get?, if_neg hx]
      have ih' : List.map Prod.fst (put rest name value) = _ := ih
      simp only [names, List.map_cons, ih']
      split <;> rfl

end Bindings

end Scriptlet
