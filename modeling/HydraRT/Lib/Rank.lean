import Mathlib

/-!
# Nearest ranks

The element of a list that a rank asks for, described by counting: enough
elements are at most it, and too few are below it.  The rank may be fractional
and the list may repeat elements.  Such an element is unique, grows with the
rank, and depends on the elements of the list but not on their order; a sorted
list has it at the rank rounded up.
-/

namespace HydraRT.Lib

variable {Value : Type} [LinearOrder Value]

/-- How many values are at most this one. -/
def atMost (values : List Value) (value : Value) : Nat :=
  values.countP (· ≤ value)

/-- How many values are less than this one. -/
def below (values : List Value) (value : Value) : Nat :=
  values.countP (· < value)

/-- The value is among those given; at least `rank` of them are at most it, and
fewer than `rank` are below it. -/
structure NearestRank (values : List Value) (rank : ℚ) (value : Value) :
    Prop where
  mem : value ∈ values
  enough : rank ≤ atMost values value
  tooFew : (below values value : ℚ) < rank

/-- What is at most a smaller value is below the larger one. -/
theorem atMost_le_below (values : List Value) {low high : Value}
    (less : low < high) : atMost values low ≤ below values high := by
  apply List.countP_mono_left
  intro value _ atLow
  exact decide_eq_true (lt_of_le_of_lt (of_decide_eq_true atLow) less)

namespace NearestRank

variable {values : List Value} {rank higher : ℚ} {value other : Value}

/-- A higher rank has no smaller value. -/
theorem mono (nearest : NearestRank values rank value)
    (nearestHigher : NearestRank values higher other)
    (ordered : rank ≤ higher) : value ≤ other := by
  by_contra notLe
  have counted : (atMost values other : ℚ) ≤ below values value := by
    exact_mod_cast atMost_le_below values (lt_of_not_ge notLe)
  have impossible : (below values value : ℚ) < below values value :=
    calc (below values value : ℚ)
        < rank := nearest.tooFew
      _ ≤ higher := ordered
      _ ≤ atMost values other := nearestHigher.enough
      _ ≤ below values value := counted
  exact lt_irrefl _ impossible

theorem unique (nearest : NearestRank values rank value)
    (another : NearestRank values rank other) : value = other :=
  le_antisymm (nearest.mono another le_rfl) (another.mono nearest le_rfl)

/-- The order of the values does not matter. -/
theorem of_perm {permuted : List Value} (perm : values.Perm permuted)
    (nearest : NearestRank values rank value) :
    NearestRank permuted rank value where
  mem := perm.mem_iff.mp nearest.mem
  enough := by
    have enough := nearest.enough
    rw [atMost, perm.countP_eq] at enough
    exact enough
  tooFew := by
    have tooFew := nearest.tooFew
    rw [below, perm.countP_eq] at tooFew
    exact tooFew

end NearestRank

/-! ## Sorted lists -/

section Sorted

variable {sorted : List Value}

/-- Everything up to an index is at most the element there. -/
theorem lt_atMost_getElem (isSorted : sorted.Pairwise (· ≤ ·)) {index : Nat}
    (inside : index < sorted.length) :
    index < atMost sorted sorted[index] := by
  have front : ∀ value ∈ sorted.take (index + 1),
      decide (value ≤ sorted[index]) = true := by
    intro value member
    obtain ⟨position, early, rfl⟩ := List.mem_take_iff_getElem.mp member
    apply decide_eq_true
    by_cases same : position = index
    · subst same
      exact le_rfl
    · exact List.pairwise_iff_getElem.mp isSorted position index _ inside
        (by omega)
  have all := List.countP_eq_length.mpr front
  rw [List.length_take_of_le (Nat.succ_le_of_lt inside)] at all
  have part := (List.take_sublist (index + 1) sorted).countP_le
    (p := fun value => decide (value ≤ sorted[index]))
  unfold atMost
  omega

/-- Nothing from an index on is below the element there. -/
theorem below_getElem_le (isSorted : sorted.Pairwise (· ≤ ·)) {index : Nat}
    (inside : index < sorted.length) :
    below sorted sorted[index] ≤ index := by
  have back : (sorted.drop index).countP
      (fun value => decide (value < sorted[index])) = 0 := by
    apply List.countP_eq_zero.mpr
    intro value member
    obtain ⟨position, late, rfl⟩ := List.mem_drop_iff_getElem.mp member
    rw [decide_eq_true_eq, not_lt]
    by_cases same : position = 0
    · subst same
      exact le_rfl
    · exact List.pairwise_iff_getElem.mp isSorted index _ inside _ (by omega)
  have parted : below sorted sorted[index] =
      (sorted.take index).countP (fun value => decide (value < sorted[index])) +
        (sorted.drop index).countP
          (fun value => decide (value < sorted[index])) := by
    rw [← List.countP_append, List.take_append_drop]
    rfl
  rw [parted, back, Nat.add_zero]
  exact List.countP_le_length.trans (List.length_take_le index sorted)

/-- The element of a rank is where the rank rounded up points, counting from
one. -/
theorem nearestRank_getElem (isSorted : sorted.Pairwise (· ≤ ·)) {rank : ℚ}
    (positive : 0 < rank) (atMostAll : rank ≤ sorted.length) :
    ∃ inside : ⌈rank⌉₊ - 1 < sorted.length,
      NearestRank sorted rank sorted[⌈rank⌉₊ - 1] := by
  have ceilPositive : 0 < ⌈rank⌉₊ := Nat.ceil_pos.mpr positive
  have ceilLe : ⌈rank⌉₊ ≤ sorted.length := Nat.ceil_le.mpr atMostAll
  have inside : ⌈rank⌉₊ - 1 < sorted.length := by omega
  refine ⟨inside, List.getElem_mem inside, ?_, ?_⟩
  · have counted := lt_atMost_getElem isSorted inside
    apply Nat.ceil_le.mp
    omega
  · have counted := below_getElem_le isSorted inside
    apply Nat.lt_ceil.mp
    omega

end Sorted

/-- Sorting takes away the order a list is given in. -/
theorem insertionSort_eq_of_perm {values permuted : List Value}
    (perm : values.Perm permuted) :
    values.insertionSort (· ≤ ·) = permuted.insertionSort (· ≤ ·) := by
  have sameValues :=
    ((List.perm_insertionSort (· ≤ ·) values).trans perm).trans
      (List.perm_insertionSort (· ≤ ·) permuted).symm
  exact sameValues.eq_of_pairwise'
    (List.pairwise_insertionSort (· ≤ ·) values)
    (List.pairwise_insertionSort (· ≤ ·) permuted)

end HydraRT.Lib
