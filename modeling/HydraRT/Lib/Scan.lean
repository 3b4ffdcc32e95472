import Mathlib

/-!
# Taking the first thing found

A family of collections is searched in a given order.  The first that yields an
item loses it; the others are left alone.
-/

namespace HydraRT.Lib.Scan

variable {Place Content Item : Type} [DecidableEq Place]
  {take : Place → Content → Option (Item × Content)}
  {contents : Place → Content} {first places : List Place}

/-- What is left after a search of `places`, and the item that was found. -/
def takeFirst (take : Place → Content → Option (Item × Content))
    (contents : Place → Content) :
    List Place → (Place → Content) × Option Item
  | [] => (contents, none)
  | place :: rest =>
      match take place (contents place) with
      | none => takeFirst take contents rest
      | some (item, left) =>
          (Function.update contents place left, some item)

theorem takeFirst_cons_of_none {place : Place}
    (nothing : take place (contents place) = none) (rest : List Place) :
    takeFirst take contents (place :: rest) =
      takeFirst take contents rest := by
  rw [takeFirst, nothing]

theorem takeFirst_cons_of_some {place : Place} {item : Item} {left : Content}
    (taken : take place (contents place) = some (item, left))
    (rest : List Place) :
    takeFirst take contents (place :: rest) =
      (Function.update contents place left, some item) := by
  rw [takeFirst, taken]

/-- A search that finds nothing leaves everything alone. -/
theorem takeFirst_of_none
    (missed : (takeFirst take contents places).2 = none) :
    (takeFirst take contents places).1 = contents := by
  induction places with
  | nil =>
      rfl
  | cons place rest inductionHypothesis =>
      cases taken : take place (contents place) with
      | none =>
          rw [takeFirst_cons_of_none taken] at missed ⊢
          exact inductionHypothesis missed
      | some _ =>
          rw [takeFirst_cons_of_some taken] at missed
          cases missed

/-- After a search that finds nothing the search goes on. -/
theorem takeFirst_append_of_none
    (missed : (takeFirst take contents first).2 = none) :
    takeFirst take contents (first ++ places) =
      takeFirst take contents places := by
  induction first with
  | nil =>
      rfl
  | cons place rest inductionHypothesis =>
      cases taken : take place (contents place) with
      | none =>
          rw [takeFirst_cons_of_none taken] at missed
          rw [List.cons_append, takeFirst_cons_of_none taken]
          exact inductionHypothesis missed
      | some _ =>
          rw [takeFirst_cons_of_some taken] at missed
          cases missed

/-- After a search that finds something it does not. -/
theorem takeFirst_append_of_some {item : Item}
    (found : (takeFirst take contents first).2 = some item) :
    takeFirst take contents (first ++ places) =
      takeFirst take contents first := by
  induction first with
  | nil =>
      cases found
  | cons place rest inductionHypothesis =>
      cases taken : take place (contents place) with
      | none =>
          rw [takeFirst_cons_of_none taken] at found ⊢
          rw [List.cons_append, takeFirst_cons_of_none taken]
          exact inductionHypothesis found
      | some _ =>
          rw [List.cons_append, takeFirst_cons_of_some taken,
            takeFirst_cons_of_some taken]

end HydraRT.Lib.Scan
