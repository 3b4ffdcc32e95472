import Mathlib

/-!
# Tables with keys

A list of entries that is searched by key.  An entry is changed where it
stands, or added at the end if its key is new.  `lookup` sees the effect of
these operations one key at a time.
-/

namespace HydraRT.Lib.Keyed

variable {Entry Key : Type} [DecidableEq Key] (key : Entry → Key)

/-- The first entry with the key. -/
def lookup (wanted : Key) (table : List Entry) : Option Entry :=
  table.find? fun entry => key entry = wanted

/-- Change the first entry with the key of `new`, or add `new`. -/
def upsert (change : Entry → Entry) (new : Entry) :
    List Entry → List Entry
  | [] => [new]
  | entry :: rest =>
      if key entry = key new then change entry :: rest
      else entry :: upsert change new rest

/-- Change the entries with the key. -/
def changeAt (wanted : Key) (change : Entry → Entry)
    (table : List Entry) : List Entry :=
  table.map fun entry => if key entry = wanted then change entry else entry

variable {key}

theorem lookup_cons (wanted : Key) (entry : Entry) (rest : List Entry) :
    lookup key wanted (entry :: rest) =
      if key entry = wanted then some entry else lookup key wanted rest := by
  rw [lookup, List.find?_cons]
  by_cases same : key entry = wanted
  · rw [if_pos same, decide_eq_true same]
  · rw [if_neg same, decide_eq_false same]
    rfl

theorem lookup_eq_none_iff {wanted : Key} {table : List Entry} :
    lookup key wanted table = none ↔ wanted ∉ table.map key := by
  rw [lookup, List.find?_eq_none, List.mem_map, not_exists]
  constructor
  · rintro missing entry ⟨member, same⟩
    exact missing entry member (decide_eq_true same)
  · intro missing entry member same
    exact missing entry ⟨member, of_decide_eq_true same⟩

theorem lookup_append (wanted : Key) (first second : List Entry) :
    lookup key wanted (first ++ second) =
      (lookup key wanted first).or (lookup key wanted second) := by
  rw [lookup, lookup, lookup, List.find?_append]

/-- Where keys are distinct, an entry is found by its key. -/
theorem lookup_eq_some_iff {table : List Entry}
    (distinct : (table.map key).Nodup) {wanted : Key} {entry : Entry} :
    lookup key wanted table = some entry ↔
      entry ∈ table ∧ key entry = wanted := by
  constructor
  · intro found
    exact ⟨List.mem_of_find?_eq_some found,
      by simpa using List.find?_some found⟩
  · rintro ⟨member, rfl⟩
    induction table with
    | nil =>
        exact absurd member List.not_mem_nil
    | cons first rest inductionHypothesis =>
        obtain ⟨isNew, restDistinct⟩ := List.nodup_cons.mp distinct
        rw [lookup_cons]
        rcases List.mem_cons.mp member with rfl | later
        · rw [if_pos rfl]
        · have different : key first ≠ key entry := by
            intro same
            apply isNew
            rw [same]
            exact List.mem_map_of_mem later
          rw [if_neg different, inductionHypothesis restDistinct later]

/-- Adding without changing. -/
theorem upsert_keep (new : Entry) (table : List Entry) :
    upsert key (fun entry => entry) new table =
      if (lookup key (key new) table).isSome then table else table ++ [new] := by
  induction table with
  | nil =>
      rfl
  | cons entry rest inductionHypothesis =>
      rw [upsert, lookup_cons, inductionHypothesis]
      by_cases here : key entry = key new
      · rw [if_pos here, if_pos here]
        rfl
      · rw [if_neg here, if_neg here]
        split_ifs
        · rfl
        · rfl

section Operations

variable {change : Entry → Entry}
  (keepsKey : ∀ entry, key (change entry) = key entry)

include keepsKey

theorem lookup_upsert (wanted : Key) (new : Entry) (table : List Entry) :
    lookup key wanted (upsert key change new table) =
      if wanted = key new then some ((lookup key wanted table).elim new change)
      else lookup key wanted table := by
  induction table with
  | nil =>
      rw [upsert, lookup_cons]
      by_cases same : wanted = key new
      · rw [if_pos same.symm, if_pos same]
        rfl
      · rw [if_neg (Ne.symm same), if_neg same]
  | cons entry rest inductionHypothesis =>
      rw [upsert]
      by_cases here : key entry = key new
      · rw [if_pos here, lookup_cons, lookup_cons, keepsKey]
        by_cases same : wanted = key new
        · rw [if_pos (here.trans same.symm), if_pos same,
            if_pos (here.trans same.symm)]
          rfl
        · have other : key entry ≠ wanted := fun found =>
            same (found.symm.trans here)
          rw [if_neg other, if_neg same, if_neg other]
      · rw [if_neg here, lookup_cons, lookup_cons, inductionHypothesis]
        by_cases first : key entry = wanted
        · have same : wanted ≠ key new := fun found =>
            here (first.trans found)
          rw [if_pos first, if_neg same, if_pos first]
        · rw [if_neg first, if_neg first]

theorem map_key_upsert (new : Entry) (table : List Entry) :
    (upsert key change new table).map key =
      if key new ∈ table.map key then table.map key
      else table.map key ++ [key new] := by
  induction table with
  | nil =>
      rfl
  | cons entry rest inductionHypothesis =>
      rw [upsert]
      by_cases here : key entry = key new
      · rw [if_pos here, List.map_cons, List.map_cons, keepsKey,
          if_pos (here ▸ List.mem_cons_self)]
      · rw [if_neg here, List.map_cons, List.map_cons, inductionHypothesis]
        by_cases known : key new ∈ rest.map key
        · rw [if_pos known, if_pos (List.mem_cons_of_mem _ known)]
        · rw [if_neg known, if_neg, List.cons_append]
          rw [List.mem_cons, not_or]
          exact ⟨Ne.symm here, known⟩

theorem nodup_upsert {table : List Entry}
    (distinct : (table.map key).Nodup) (new : Entry) :
    ((upsert key change new table).map key).Nodup := by
  rw [map_key_upsert keepsKey]
  by_cases known : key new ∈ table.map key
  · rw [if_pos known]
    exact distinct
  · rw [if_neg known]
    rw [← List.concat_eq_append]
    exact distinct.concat known

theorem map_key_changeAt (wanted : Key) (table : List Entry) :
    (changeAt key wanted change table).map key = table.map key := by
  rw [changeAt, List.map_map]
  apply List.map_congr_left
  intro entry _
  rw [Function.comp_apply]
  split_ifs
  · exact keepsKey entry
  · rfl

theorem lookup_changeAt (wanted other : Key) (table : List Entry) :
    lookup key other (changeAt key wanted change table) =
      if other = wanted then (lookup key other table).map change
      else lookup key other table := by
  induction table with
  | nil =>
      split_ifs
      · rfl
      · rfl
  | cons entry rest inductionHypothesis =>
      rw [changeAt, List.map_cons, ← changeAt, lookup_cons, lookup_cons,
        inductionHypothesis]
      by_cases changed : key entry = wanted
      · rw [if_pos changed, keepsKey]
        by_cases found : key entry = other
        · rw [if_pos found, if_pos found,
            if_pos (found.symm.trans changed)]
          rfl
        · rw [if_neg found, if_neg found]
      · rw [if_neg changed]
        by_cases found : key entry = other
        · have different : other ≠ wanted := fun same =>
            changed (found.trans same)
          rw [if_pos found, if_neg different, if_pos found]
        · rw [if_neg found, if_neg found]

omit keepsKey in
/-- Where keys are distinct, one entry is changed. -/
theorem changeAt_of_nodup {before after : List Entry} {entry : Entry}
    (distinct : ((before ++ entry :: after).map key).Nodup) :
    changeAt key (key entry) change (before ++ entry :: after) =
      before ++ change entry :: after := by
  rw [List.map_append, List.map_cons, List.nodup_append] at distinct
  obtain ⟨_, afterDistinct, apart⟩ := distinct
  have untouched : ∀ part : List Entry,
      (∀ other ∈ part, key other ≠ key entry) →
        changeAt key (key entry) change part = part := by
    intro part different
    calc
      changeAt key (key entry) change part = part.map id := by
        apply List.map_congr_left
        intro other member
        rw [if_neg (different other member), id_eq]
      _ = part := List.map_id part
  have beforeSame := untouched before fun other member =>
    apart _ (List.mem_map_of_mem member) _ List.mem_cons_self
  have afterSame := untouched after fun other member same =>
    (List.nodup_cons.mp afterDistinct).1 (same ▸ List.mem_map_of_mem member)
  rw [changeAt, List.map_append, List.map_cons, ← changeAt, ← changeAt,
    beforeSame, afterSame, if_pos rfl]

end Operations

end HydraRT.Lib.Keyed
