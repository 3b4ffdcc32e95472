import Mathlib

/-!
# The first of the largest

An element of a list with the largest rank that no earlier element reaches.
It is what a loop finds that keeps the best item so far and replaces it only
for a better one.
-/

namespace HydraRT.Lib

variable {Item Rank : Type} [LinearOrder Rank] {rank : Item → Rank}

/-- `item` has the largest rank, and none before it has the same. -/
def Leads (rank : Item → Rank) (items : List Item) (item : Item) : Prop :=
  ∃ before after, items = before ++ item :: after ∧
    (∀ other ∈ before, rank other < rank item) ∧
      ∀ other ∈ after, rank other ≤ rank item

theorem Leads.mem {items : List Item} {item : Item}
    (leads : Leads rank items item) : item ∈ items := by
  obtain ⟨before, after, rfl, _⟩ := leads
  exact List.mem_append_right _ List.mem_cons_self

theorem Leads.rank_le {items : List Item} {item other : Item}
    (leads : Leads rank items item) (member : other ∈ items) :
    rank other ≤ rank item := by
  obtain ⟨before, after, rfl, below, notAbove⟩ := leads
  rcases List.mem_append.mp member with early | late
  · exact (below other early).le
  · rcases List.mem_cons.mp late with rfl | later
    · exact le_rfl
    · exact notAbove other later

/-- One more item is looked at. -/
theorem Leads.next {items : List Item} {best : Item}
    (leads : Leads rank items best) (item : Item) :
    Leads rank (items ++ [item])
      (if rank best < rank item then item else best) := by
  by_cases better : rank best < rank item
  · rw [if_pos better]
    refine ⟨items, [], rfl, ?_, by simp⟩
    intro other member
    exact (leads.rank_le member).trans_lt better
  · rw [if_neg better]
    obtain ⟨before, after, rfl, below, notAbove⟩ := leads
    refine ⟨before, after ++ [item], by simp, below, ?_⟩
    intro other member
    rcases List.mem_append.mp member with earlier | last
    · exact notAbove other earlier
    · rw [List.mem_singleton.mp last]
      exact not_lt.mp better

theorem Leads.foldl {items : List Item} {best : Item}
    (leads : Leads rank items best) (rest : List Item) :
    Leads rank (items ++ rest) (rest.foldl (fun best item =>
      if rank best < rank item then item else best) best) := by
  induction rest generalizing items best with
  | nil =>
      rw [List.append_nil]
      exact leads
  | cons item rest inductionHypothesis =>
      have later := inductionHypothesis (leads.next item)
      rwa [List.append_assoc] at later

theorem Leads.unique {items : List Item} {first second : Item}
    (firstLeads : Leads rank items first)
    (secondLeads : Leads rank items second) : first = second := by
  obtain ⟨before, after, rfl, below, notAbove⟩ := firstLeads
  obtain ⟨before', after', same, below', notAbove'⟩ := secondLeads
  rcases List.append_eq_append_iff.mp same with
    ⟨between, rfl, cut⟩ | ⟨between, rfl, cut⟩
  · cases between with
    | nil =>
        exact (List.cons.inj cut).1
    | cons item between =>
        obtain ⟨rfl, rfl⟩ := List.cons.inj cut
        have smaller := below' first (by simp)
        exact absurd smaller (not_lt.mpr (notAbove second (by simp)))
  · cases between with
    | nil =>
        exact (List.cons.inj cut).1.symm
    | cons item between =>
        obtain ⟨rfl, rfl⟩ := List.cons.inj cut
        have smaller := below second (by simp)
        exact absurd smaller (not_lt.mpr (notAbove' first (by simp)))

/-- Only the ranks of the items matter. -/
theorem Leads.congr {items : List Item} {item : Item}
    {other : Item → Rank} (leads : Leads rank items item)
    (same : ∀ member ∈ items, rank member = other member) :
    Leads other items item := by
  obtain ⟨before, after, rfl, below, notAbove⟩ := leads
  have here := same item (by simp)
  refine ⟨before, after, rfl, ?_, ?_⟩
  · intro another member
    rw [← here, ← same another (by simp [member])]
    exact below another member
  · intro another member
    rw [← here, ← same another (by simp [member])]
    exact notAbove another member

end HydraRT.Lib
