import Mathlib

/-!
# Texts that arrive in pieces

The first occurrence of a pattern in a text, also when only a beginning of the
text is there yet, and how far a reader gets that takes whole pieces until it
has as much as it wants.
-/

namespace HydraRT.Lib

variable {Letter : Type}

/-! ## Searching -/

section Search

variable [BEq Letter]

/-- The first place where the pattern occurs. -/
def find (pattern : List Letter) : List Letter → Option Nat
  | [] => if pattern.isPrefixOf [] then some 0 else none
  | letter :: rest =>
      if pattern.isPrefixOf (letter :: rest) then some 0
      else (find pattern rest).map (· + 1)

variable [LawfulBEq Letter]

/-- An occurrence is found in a beginning of the text if and only if it ends
there. -/
theorem find_take (pattern text : List Letter) (count : Nat) :
    find pattern (text.take count) =
      (find pattern text).filter
        fun index => index + pattern.length ≤ count := by
  induction text generalizing count with
  | nil =>
      rw [List.take_nil, find]
      split_ifs with isPrefix
      · have empty := List.prefix_nil.mp (List.isPrefixOf_iff_prefix.mp isPrefix)
        simp [empty, Option.filter]
      · rfl
  | cons letter rest inductionHypothesis =>
      cases count with
      | zero =>
          cases pattern with
          | nil =>
              simp [find, Option.filter]
          | cons first others =>
              symm
              simp [find]
      | succ count =>
          rw [List.take_succ_cons, find, find, inductionHypothesis]
          have bounded :
              pattern.isPrefixOf (letter :: rest.take count) = true ↔
                pattern.isPrefixOf (letter :: rest) = true ∧
                  pattern.length ≤ count + 1 := by
            rw [List.isPrefixOf_iff_prefix, List.isPrefixOf_iff_prefix,
              ← List.take_succ_cons, List.prefix_take_iff]
          by_cases here : pattern.isPrefixOf (letter :: rest) = true
          · by_cases short : pattern.length ≤ count + 1
            · rw [if_pos (bounded.mpr ⟨here, short⟩), if_pos here]
              simpa [Option.filter] using short
            · rw [if_neg (fun both => short (bounded.mp both).2), if_pos here]
              have never : ∀ index, ¬ index + pattern.length ≤ count := by
                omega
              have notHere : ¬ pattern.length ≤ count + 1 := short
              cases find pattern rest with
              | none => simp [Option.filter, notHere]
              | some index => simp [Option.filter, never, notHere]
          · rw [if_neg (fun both => here (bounded.mp both).1), if_neg here]
            cases find pattern rest with
            | none =>
                rfl
            | some index =>
                have shifted : index + 1 + pattern.length ≤ count + 1 ↔
                    index + pattern.length ≤ count := by
                  omega
                by_cases inside : index + pattern.length ≤ count
                · simp [Option.filter, shifted, inside]
                · simp [Option.filter, shifted, inside]

theorem find_le {pattern text : List Letter} {index : Nat}
    (found : find pattern text = some index) :
    index + pattern.length ≤ text.length := by
  have whole := find_take pattern text text.length
  rw [List.take_length, found] at whole
  simpa using (Option.filter_eq_some_iff.mp whole.symm).2

omit [BEq Letter] [LawfulBEq Letter] in
/-- A text up to the first mark, and the rest, are determined by the whole. -/
theorem append_mark_inj {mark : Letter}
    {first second rest other : List Letter} (unmarked : mark ∉ first)
    (alsoUnmarked : mark ∉ second)
    (same : first ++ mark :: rest = second ++ mark :: other) :
    first = second ∧ rest = other := by
  rcases List.append_eq_append_iff.mp same with
    ⟨between, rfl, cut⟩ | ⟨between, rfl, cut⟩
  · cases between with
    | nil =>
        exact ⟨(List.append_nil _).symm, (List.cons.inj cut).2⟩
    | cons letter between =>
        obtain ⟨rfl, _⟩ := List.cons.inj cut
        simp at alsoUnmarked
  · cases between with
    | nil =>
        exact ⟨List.append_nil _, (List.cons.inj cut).2.symm⟩
    | cons letter between =>
        obtain ⟨rfl, _⟩ := List.cons.inj cut
        simp at unmarked

end Search

/-! ## Pieces -/

/-- How much of the pieces is read until there are at least `count`
letters. -/
def cover : (count : Nat) → List (List Letter) → Nat
  | _, [] => 0
  | count, piece :: rest =>
      if count = 0 then 0
      else piece.length + cover (count - piece.length) rest

@[simp]
theorem cover_zero (pieces : List (List Letter)) : cover 0 pieces = 0 := by
  cases pieces with
  | nil => rfl
  | cons piece rest => rfl

theorem cover_le (count : Nat) (pieces : List (List Letter)) :
    cover count pieces ≤ pieces.flatten.length := by
  induction pieces generalizing count with
  | nil =>
      exact Nat.zero_le _
  | cons piece rest inductionHypothesis =>
      have later := inductionHypothesis (count - piece.length)
      rw [cover, List.flatten_cons, List.length_append]
      split_ifs
      · exact Nat.zero_le _
      · omega

/-- The reader gets what it wants or everything. -/
theorem min_le_cover (count : Nat) (pieces : List (List Letter)) :
    min count pieces.flatten.length ≤ cover count pieces := by
  induction pieces generalizing count with
  | nil =>
      simp
  | cons piece rest inductionHypothesis =>
      have later := inductionHypothesis (count - piece.length)
      rw [cover, List.flatten_cons, List.length_append]
      split_ifs
      · omega
      · omega

/-- It stops within a piece's length of what it wants. -/
theorem cover_lt {bound count : Nat} (positive : 0 < count)
    {pieces : List (List Letter)}
    (small : ∀ piece ∈ pieces, piece.length ≤ bound) :
    cover count pieces < count + bound := by
  induction pieces generalizing count with
  | nil =>
      rw [cover]
      omega
  | cons piece rest inductionHypothesis =>
      obtain ⟨pieceSmall, restSmall⟩ := List.forall_mem_cons.mp small
      rw [cover, if_neg (by omega)]
      by_cases enough : count ≤ piece.length
      · have nothing : cover (count - piece.length) rest = 0 := by
          rw [Nat.sub_eq_zero_of_le enough, cover_zero]
        omega
      · have left : 0 < count - piece.length := by omega
        have later := inductionHypothesis left restSmall
        omega

theorem cover_append (count : Nat) (first second : List (List Letter)) :
    cover count (first ++ second) =
      cover count first + cover (count - first.flatten.length) second := by
  induction first generalizing count with
  | nil =>
      simp [cover]
  | cons piece rest inductionHypothesis =>
      rw [List.cons_append, cover, cover, inductionHypothesis,
        List.flatten_cons, List.length_append, Nat.sub_sub]
      split_ifs with nothing
      · subst nothing
        rw [Nat.zero_sub, cover_zero]
      · omega

theorem cover_mono {fewer more : Nat} (ordered : fewer ≤ more)
    (pieces : List (List Letter)) : cover fewer pieces ≤ cover more pieces := by
  induction pieces generalizing fewer more with
  | nil =>
      exact le_rfl
  | cons piece rest inductionHypothesis =>
      have later := inductionHypothesis
        (Nat.sub_le_sub_right ordered piece.length)
      rw [cover, cover]
      split_ifs
      · exact le_rfl
      · exact Nat.zero_le _
      · omega
      · omega

/-- Letter by letter the reader gets exactly what it wants. -/
theorem cover_singles (count : Nat) (text : List Letter) :
    cover count (text.map fun letter => [letter]) = min count text.length := by
  induction text generalizing count with
  | nil =>
      simp [cover]
  | cons letter rest inductionHypothesis =>
      rw [List.map_cons, cover, inductionHypothesis]
      split_ifs
      · omega
      · simp only [List.length_cons, List.length_nil]
        omega

theorem flatten_singles (text : List Letter) :
    (text.map fun letter => [letter]).flatten = text := by
  induction text with
  | nil =>
      rfl
  | cons letter rest inductionHypothesis =>
      rw [List.map_cons, List.flatten_cons, inductionHypothesis]
      rfl

end HydraRT.Lib
