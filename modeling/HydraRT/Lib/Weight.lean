import Mathlib

/-!
# Weighing collections

A system in which things move between places is described by what each step
takes away and what it puts back.  Instead of permutations of lists this file
uses *weights*: two lists hold the same things exactly if every weight function
gives them the same total, and totals turn a step into a linear equation.

Counting the elements with a property is weighing with its indicator, so one
equation about all weights yields every counting invariant of a step.
-/

namespace HydraRT.Lib

variable {Item : Type}

/-- The total of `weigh` over a list. -/
def total (weigh : Item → Nat) (items : List Item) : Nat :=
  (items.map weigh).sum

section Total

variable (weigh : Item → Nat)

@[simp]
theorem total_nil : total weigh [] = 0 := rfl

@[simp]
theorem total_cons (item : Item) (items : List Item) :
    total weigh (item :: items) = weigh item + total weigh items := by
  simp [total]

@[simp]
theorem total_append (first second : List Item) :
    total weigh (first ++ second) = total weigh first + total weigh second := by
  simp [total]

@[simp]
theorem total_map {Source : Type}
    (convert : Source → Item) (items : List Source) :
    total weigh (items.map convert) =
      total (fun item => weigh (convert item)) items := by
  simp only [total, List.map_map]
  rfl

theorem total_flatMap {Source : Type}
    (convert : Source → List Item) (items : List Source) :
    total weigh (items.flatMap convert) =
      total (fun item => total weigh (convert item)) items := by
  induction items with
  | nil =>
      rfl
  | cons item rest inductionHypothesis =>
      rw [List.flatMap_cons, total_append, inductionHypothesis, total_cons]

theorem total_perm {first second : List Item} (same : first.Perm second) :
    total weigh first = total weigh second :=
  (same.map weigh).sum_eq

/-- Replacing one element of a list. -/
theorem total_set {items : List Item} {index : Nat} {old : Item}
    (found : items[index]? = some old) (new : Item) :
    total weigh (items.set index new) + weigh old =
      total weigh items + weigh new := by
  induction items generalizing index with
  | nil =>
      simp at found
  | cons item rest inductionHypothesis =>
      cases index with
      | zero =>
          obtain rfl : item = old := by simpa using found
          simp only [List.set_cons_zero, total_cons]
          omega
      | succ index =>
          have shifted := inductionHypothesis
            (by simpa using found : rest[index]? = some old)
          simp only [List.set_cons_succ, total_cons]
          omega

/-- What a list held is still there after one element was replaced, unless it
is that element. -/
theorem mem_or_mem_set {items : List Item} {index : Nat} {old item : Item}
    (found : items[index]? = some old) (new : Item) (member : item ∈ items) :
    item = old ∨ item ∈ items.set index new := by
  obtain ⟨place, atPlace⟩ := List.mem_iff_getElem?.mp member
  by_cases same : place = index
  · subst same
    exact .inl (Option.some.inj (atPlace.symm.trans found))
  · refine .inr (List.mem_iff_getElem?.mpr ⟨place, ?_⟩)
    rw [List.getElem?_set_ne (Ne.symm same), atPlace]

theorem total_eraseIdx {items : List Item} {index : Nat} {old : Item}
    (found : items[index]? = some old) :
    total weigh (items.eraseIdx index) + weigh old = total weigh items := by
  induction items generalizing index with
  | nil =>
      simp at found
  | cons item rest inductionHypothesis =>
      cases index with
      | zero =>
          obtain rfl : item = old := by simpa using found
          simp only [List.eraseIdx_cons_zero, total_cons]
          omega
      | succ index =>
          have shifted := inductionHypothesis
            (by simpa using found : rest[index]? = some old)
          simp only [List.eraseIdx_cons_succ, total_cons]
          omega

/-- Splitting a list by a test keeps its total. -/
theorem total_filter_add_filter_not (test : Item → Bool) (items : List Item) :
    total weigh (items.filter test) +
        total weigh (items.filter fun item => !test item) =
      total weigh items := by
  induction items with
  | nil =>
      rfl
  | cons item rest inductionHypothesis =>
      cases decided : test item <;>
        simp only [List.filter_cons, decided, total_cons, Bool.not_true,
          Bool.not_false, if_true, Bool.false_eq_true, if_false] <;>
        omega

@[simp]
theorem total_zero (items : List Item) :
    total (fun _ => 0) items = 0 := by
  induction items with
  | nil =>
      rfl
  | cons item rest inductionHypothesis =>
      rw [total_cons, inductionHypothesis]

@[simp]
theorem total_one (items : List Item) :
    total (fun _ => 1) items = items.length := by
  induction items with
  | nil =>
      rfl
  | cons item rest inductionHypothesis =>
      rw [total_cons, inductionHypothesis, List.length_cons, Nat.add_comm]

/-- Counting is weighing with an indicator. -/
theorem countP_eq_total (test : Item → Bool) (items : List Item) :
    items.countP test = total (fun item => if test item then 1 else 0) items := by
  induction items with
  | nil =>
      rfl
  | cons item rest inductionHypothesis =>
      rw [List.countP_cons, total_cons, inductionHypothesis]
      omega

variable {weigh}

theorem total_eq_zero {items : List Item} :
    total weigh items = 0 ↔ ∀ item ∈ items, weigh item = 0 := by
  induction items with
  | nil =>
      simp
  | cons item rest inductionHypothesis =>
      simp [inductionHypothesis]

theorem exists_of_total_pos {items : List Item}
    (positive : 0 < total weigh items) : ∃ item ∈ items, 0 < weigh item := by
  by_contra none
  have zero : total weigh items = 0 := by
    rw [total_eq_zero]
    intro item member
    by_contra nonzero
    exact none ⟨item, member, by omega⟩
  omega

theorem le_total_of_mem {items : List Item} {item : Item}
    (member : item ∈ items) : weigh item ≤ total weigh items := by
  induction items with
  | nil =>
      cases member
  | cons head rest inductionHypothesis =>
      rw [total_cons]
      rcases List.mem_cons.mp member with rfl | inside
      · omega
      · have bound := inductionHypothesis inside
        omega

theorem total_le_total {heavier : Item → Nat} {items : List Item}
    (bound : ∀ item ∈ items, weigh item ≤ heavier item) :
    total weigh items ≤ total heavier items := by
  induction items with
  | nil =>
      exact Nat.le_refl 0
  | cons head rest inductionHypothesis =>
      have first := bound head List.mem_cons_self
      have later := inductionHypothesis
        (fun item member => bound item (List.mem_cons_of_mem head member))
      simp only [total_cons]
      omega

theorem total_congr {other : Item → Nat} {items : List Item}
    (same : ∀ item ∈ items, weigh item = other item) :
    total weigh items = total other items := by
  apply Nat.le_antisymm
  · exact total_le_total fun item member => Nat.le_of_eq (same item member)
  · exact total_le_total fun item member => Nat.le_of_eq (same item member).symm

theorem total_add (other : Item → Nat) (items : List Item) :
    total (fun item => weigh item + other item) items =
      total weigh items + total other items := by
  induction items with
  | nil =>
      rfl
  | cons item rest inductionHypothesis =>
      simp only [total_cons, inductionHypothesis]
      omega

end Total

/-! ## Shelves -/

section Shelves

variable {Shelf : Type}

/-- Two weights that differ on one element of a list without repetitions. -/
theorem total_replace [DecidableEq Shelf] (weigh other : Shelf → Nat)
    {all : List Shelf} (distinct : all.Nodup) {shelf : Shelf}
    (listed : shelf ∈ all)
    (elsewhere : ∀ each, each ≠ shelf → weigh each = other each) :
    total weigh all + other shelf = total other all + weigh shelf := by
  induction all with
  | nil =>
      cases listed
  | cons head rest inductionHypothesis =>
      obtain ⟨fresh, distinct⟩ := List.nodup_cons.mp distinct
      simp only [total_cons]
      rcases List.mem_cons.mp listed with rfl | inside
      · have others : total weigh rest = total other rest := by
          apply total_congr
          intro each member
          exact elsewhere each fun same => fresh (same ▸ member)
        omega
      · have different : head ≠ shelf := fun same => fresh (same ▸ inside)
        have later := inductionHypothesis distinct inside
        rw [elsewhere head different]
        omega

/-- Two elements of a list weigh no more than the list. -/
theorem add_le_total [DecidableEq Shelf] (weigh : Shelf → Nat)
    {all : List Shelf} {first second : Shelf} (different : first ≠ second)
    (isFirst : first ∈ all) (isSecond : second ∈ all) :
    weigh first + weigh second ≤ total weigh all := by
  rw [total_perm weigh (List.perm_cons_erase isFirst), total_cons]
  exact Nat.add_le_add_left
    (le_total_of_mem ((List.mem_erase_of_ne different.symm).mpr isSecond)) _

/-- Restocking one shelf of a family that is listed without repetition. -/
theorem total_shelves_update [DecidableEq Shelf]
    (weigh : Shelf → List Item → Nat)
    {all : List Shelf} (distinct : all.Nodup)
    (shelves : Shelf → List Item) {shelf : Shelf} (listed : shelf ∈ all)
    (items : List Item) :
    total (fun each => weigh each (Function.update shelves shelf items each))
          all + weigh shelf (shelves shelf) =
      total (fun each => weigh each (shelves each)) all +
        weigh shelf items := by
  have replaced := total_replace
    (fun each => weigh each (Function.update shelves shelf items each))
    (fun each => weigh each (shelves each)) distinct listed ?_
  · simpa only [Function.update_self] using replaced
  · intro each different
    simp only [Function.update_of_ne different]

end Shelves

/-! ## Moves -/

open Classical in
/-- The indicator of one item. -/
private noncomputable def only (item other : Item) : Nat :=
  if other = item then 1 else 0

open Classical in
private theorem total_only_pos {item : Item} {items : List Item} :
    0 < total (only item) items ↔ item ∈ items := by
  constructor
  · intro positive
    obtain ⟨other, member, weighs⟩ := exists_of_total_pos positive
    unfold only at weighs
    split at weighs
    · rename_i same
      exact same ▸ member
    · omega
  · intro member
    have bound : only item item ≤ total (only item) items :=
      le_total_of_mem member
    rw [only, if_pos rfl] at bound
    omega

/-- From `before` to `after`, the items `removed` go and the items `added`
come, unless they get lost on the way. -/
def Leaks (before after removed added : List Item) : Prop :=
  ∀ weigh : Item → Nat,
    total weigh after + total weigh removed ≤
      total weigh before + total weigh added

/-- From `before` to `after`, exactly the items `removed` go and the items
`added` come. -/
def Moves (before after removed added : List Item) : Prop :=
  ∀ weigh : Item → Nat,
    total weigh after + total weigh removed =
      total weigh before + total weigh added

section Membership

variable {before after removed added : List Item} {item : Item}

/-- What stays or goes was there or came. -/
theorem Leaks.mem_sources (leaks : Leaks before after removed added)
    (member : item ∈ after ∨ item ∈ removed) :
    item ∈ before ∨ item ∈ added := by
  have bound := leaks (only item)
  have positive := member.imp total_only_pos.mpr total_only_pos.mpr
  by_contra neither
  rw [not_or] at neither
  have notBefore := mt total_only_pos.mp neither.1
  have notAdded := mt total_only_pos.mp neither.2
  omega

theorem Leaks.mem (leaks : Leaks before after removed added)
    (member : item ∈ after) : item ∈ before ∨ item ∈ added :=
  leaks.mem_sources (.inl member)

theorem Leaks.mem_removed (leaks : Leaks before after removed added)
    (member : item ∈ removed) : item ∈ before ∨ item ∈ added :=
  leaks.mem_sources (.inr member)

theorem Moves.leaks (moves : Moves before after removed added) :
    Leaks before after removed added :=
  fun weigh => Nat.le_of_eq (moves weigh)

theorem Moves.symm (moves : Moves before after removed added) :
    Moves after before added removed :=
  fun weigh => (moves weigh).symm

theorem Moves.mem (moves : Moves before after removed added)
    (member : item ∈ after) : item ∈ before ∨ item ∈ added :=
  moves.leaks.mem member

theorem Moves.mem_removed (moves : Moves before after removed added)
    (member : item ∈ removed) : item ∈ before ∨ item ∈ added :=
  moves.leaks.mem_removed member

/-- What was there is there or went. -/
theorem Moves.mem_or_removed (moves : Moves before after removed added)
    (member : item ∈ before) : item ∈ after ∨ item ∈ removed :=
  moves.symm.leaks.mem member

end Membership

/-! ## Moves that make things smaller -/

/-- The two sides of a move, as multisets. -/
theorem Moves.multiset {before after removed added : List Item}
    (moves : Moves before after removed added) :
    (after : Multiset Item) + (removed : Multiset Item) =
      before + added := by
  classical
  have countEq : ∀ (items : List Item) (item : Item),
      items.count item = total (fun other => if other == item then 1 else 0)
        items := by
    intro items item
    rw [List.count, countP_eq_total]
  apply Multiset.ext.mpr
  intro item
  simp only [Multiset.count_add, Multiset.coe_count, countEq]
  exact moves _

/-- An item gives way to any number of smaller ones.  No sequence of such moves
goes on for ever if the order is well-founded. -/
theorem Moves.cutExpand {smaller : Item → Item → Prop}
    {before after added : List Item} {item : Item}
    (moves : Moves before after [item] added)
    (below : ∀ new ∈ added, smaller new item) :
    Relation.CutExpand smaller (after : Multiset Item) before := by
  refine ⟨added, item, ?_, ?_⟩
  · intro new member
    exact below new (Multiset.mem_coe.mp member)
  · exact moves.multiset

end HydraRT.Lib
