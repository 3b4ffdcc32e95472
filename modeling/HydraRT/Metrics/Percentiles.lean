import HydraRT.Lib.Rank

/-!
# Latency statistics

`percentile` and `compute_stats` of the metrics.  The rank `p / 100 * n` is
taken in exact arithmetic.  The mean is summed up in floating point; its
operations are left open, since nothing here depends on what they compute.
-/

namespace HydraRT.Metrics

open HydraRT.Lib

instance linearOrderUInt64 : LinearOrder UInt64 where
  le_refl _ := UInt64.le_refl _
  le_trans _ _ _ := UInt64.le_trans
  lt_iff_le_not_ge first second := by
    rw [UInt64.lt_iff_toNat_lt, UInt64.le_iff_toNat_le, UInt64.le_iff_toNat_le]
    omega
  le_antisymm _ _ := UInt64.le_antisymm
  le_total := UInt64.le_total
  toDecidableLE := inferInstance
  toDecidableEq := inferInstance
  toDecidableLT := inferInstance

/-- The `long double` operations of the mean, and its conversion to
`double`. -/
structure FloatingPoint (Wide Double : Type) where
  zero : Wide
  add : Wide → Wide → Wide
  ofUInt64 : UInt64 → Wide
  ofSize : Nat → Wide
  div : Wide → Wide → Wide
  round : Wide → Double
  zeroDouble : Double

structure LatencyStats (Double : Type) where
  count : Nat := 0
  min : UInt64 := 0
  p50 : UInt64 := 0
  p95 : UInt64 := 0
  p99 : UInt64 := 0
  max : UInt64 := 0
  mean : Double
  deriving DecidableEq, Repr

def percentile (sorted : List UInt64) (p : ℚ) : UInt64 :=
  if sorted.isEmpty then 0
  else
    let rank := p / 100 * sorted.length
    let idx := ⌈rank⌉₊
    let idx := if idx = 0 then 1 else idx
    let idx := if idx > sorted.length then sorted.length else idx
    sorted.getD (idx - 1) 0

def computeStats {Wide Double : Type} (fp : FloatingPoint Wide Double)
    (values : List UInt64) : LatencyStats Double :=
  if values.isEmpty then { mean := fp.zeroDouble }
  else
    let sorted := values.insertionSort (· ≤ ·)
    { count := sorted.length
      min := sorted.headD 0
      max := sorted.getLastD 0
      p50 := percentile sorted 50
      p95 := percentile sorted 95
      p99 := percentile sorted 99
      mean := fp.round (fp.div
        (sorted.foldl (fun sum value => fp.add sum (fp.ofUInt64 value))
          fp.zero)
        (fp.ofSize sorted.length)) }

/-- Between the clamps the percentile is the element of its rank. -/
theorem percentile_nearest {sorted : List UInt64} {p : ℚ}
    (nonempty : sorted ≠ []) (isSorted : sorted.Pairwise (· ≤ ·))
    (positive : 0 < p) (atMostAll : p ≤ 100) :
    NearestRank sorted (p / 100 * sorted.length) (percentile sorted p) := by
  have length : (0 : ℚ) < sorted.length := by
    exact_mod_cast List.length_pos_iff.mpr nonempty
  have rankPositive : 0 < p / 100 * (sorted.length : ℚ) := by positivity
  have rankAtMost : p / 100 * (sorted.length : ℚ) ≤ sorted.length := by
    have share : p / 100 ≤ 1 := by linarith
    nlinarith
  obtain ⟨inside, nearest⟩ :=
    nearestRank_getElem isSorted rankPositive rankAtMost
  have notZero : ⌈p / 100 * (sorted.length : ℚ)⌉₊ ≠ 0 :=
    (Nat.ceil_pos.mpr rankPositive).ne'
  have notAbove :
      ¬ ⌈p / 100 * (sorted.length : ℚ)⌉₊ > sorted.length := by
    rw [gt_iff_lt, not_lt]
    exact Nat.ceil_le.mpr rankAtMost
  have found : percentile sorted p =
      sorted[⌈p / 100 * (sorted.length : ℚ)⌉₊ - 1] := by
    simp only [percentile, List.isEmpty_iff, if_neg nonempty,
      if_neg notZero, if_neg notAbove]
    exact List.getD_eq_getElem sorted 0 inside
  rw [found]
  exact nearest

section Stats

variable {Wide Double : Type} (fp : FloatingPoint Wide Double)
  {values : List UInt64}

/-- The statistics depend on the values but not on their order. -/
theorem computeStats_perm {permuted : List UInt64}
    (perm : values.Perm permuted) :
    computeStats fp values = computeStats fp permuted := by
  have sameSorted := insertionSort_eq_of_perm perm
  have sameEmpty : values.isEmpty = permuted.isEmpty := by
    rw [Bool.eq_iff_iff, List.isEmpty_iff_length_eq_zero,
      List.isEmpty_iff_length_eq_zero, perm.length_eq]
  unfold computeStats
  rw [sameSorted, sameEmpty]

/-- What `compute_stats` reports of a non-empty vector. -/
structure LatencyStats.Describes (stats : LatencyStats Double)
    (values : List UInt64) : Prop where
  count : stats.count = values.length
  min : IsLeast {value | value ∈ values} stats.min
  max : IsGreatest {value | value ∈ values} stats.max
  p50 : NearestRank values (50 / 100 * values.length) stats.p50
  p95 : NearestRank values (95 / 100 * values.length) stats.p95
  p99 : NearestRank values (99 / 100 * values.length) stats.p99

theorem isLeast_headD {sorted : List UInt64} (nonempty : sorted ≠ [])
    (isSorted : sorted.Pairwise (· ≤ ·)) :
    IsLeast {value | value ∈ sorted} (sorted.headD 0) := by
  cases sorted with
  | nil =>
      exact absurd rfl nonempty
  | cons first rest =>
      refine ⟨List.mem_cons_self, ?_⟩
      intro value member
      rcases List.mem_cons.mp member with rfl | later
      · exact le_rfl
      · exact List.rel_of_pairwise_cons isSorted later

theorem isGreatest_getLastD {sorted : List UInt64} (nonempty : sorted ≠ [])
    (isSorted : sorted.Pairwise (· ≤ ·)) :
    IsGreatest {value | value ∈ sorted} (sorted.getLastD 0) := by
  induction sorted using List.reverseRecOn with
  | nil =>
      exact absurd rfl nonempty
  | append_singleton earlier last _ =>
      have atEnd : (earlier ++ [last]).getLastD 0 = last := by simp
      rw [atEnd]
      refine ⟨List.mem_append_right _ (List.mem_singleton_self _), ?_⟩
      intro value member
      rcases List.mem_append.mp member with before | isLast
      · exact (List.pairwise_append.mp isSorted).2.2 value before last
          (List.mem_singleton_self _)
      · exact le_of_eq (List.mem_singleton.mp isLast)

theorem computeStats_describes (nonempty : values ≠ []) :
    (computeStats fp values).Describes values := by
  have perm := List.perm_insertionSort (· ≤ ·) values
  have isSorted := List.pairwise_insertionSort (· ≤ ·) values
  have sortedNonempty : values.insertionSort (· ≤ ·) ≠ [] := by
    intro empty
    rw [empty] at perm
    exact nonempty perm.symm.eq_nil
  have sameValues : {value | value ∈ values.insertionSort (· ≤ ·)} =
      {value | value ∈ values} :=
    Set.ext fun _ => perm.mem_iff
  have nearest : ∀ p : ℚ, 0 < p → p ≤ 100 →
      NearestRank values (p / 100 * values.length)
        (percentile (values.insertionSort (· ≤ ·)) p) := by
    intro p positive atMostAll
    rw [← perm.length_eq]
    exact (percentile_nearest sortedNonempty isSorted positive
      atMostAll).of_perm perm
  unfold computeStats
  rw [if_neg (by simpa using nonempty)]
  refine ⟨perm.length_eq, ?_, ?_, ?_, ?_, ?_⟩
  · rw [← sameValues]
    exact isLeast_headD sortedNonempty isSorted
  · rw [← sameValues]
    exact isGreatest_getLastD sortedNonempty isSorted
  · exact nearest 50 (by norm_num) (by norm_num)
  · exact nearest 95 (by norm_num) (by norm_num)
  · exact nearest 99 (by norm_num) (by norm_num)

/-- The percentiles of a description are ordered. -/
theorem LatencyStats.Describes.ordered {stats : LatencyStats Double}
    (describes : stats.Describes values) :
    stats.min ≤ stats.p50 ∧ stats.p50 ≤ stats.p95 ∧
      stats.p95 ≤ stats.p99 ∧ stats.p99 ≤ stats.max := by
  have higher : ∀ {low high : ℚ}, low ≤ high →
      low * (values.length : ℚ) ≤ high * values.length := by
    intro low high ordered
    exact mul_le_mul_of_nonneg_right ordered (Nat.cast_nonneg _)
  refine ⟨?_, ?_, ?_, ?_⟩
  · exact describes.min.2 describes.p50.mem
  · exact describes.p50.mono describes.p95 (higher (by norm_num))
  · exact describes.p95.mono describes.p99 (higher (by norm_num))
  · exact describes.max.2 describes.p99.mem

/-- Of a non-empty vector `compute_stats` reports the size, the extremes and
the nearest ranks, in order, and the same for every permutation. -/
theorem percentiles_nearest_rank (nonempty : values ≠ []) :
    (computeStats fp values).Describes values ∧
      ((computeStats fp values).min ≤ (computeStats fp values).p50 ∧
        (computeStats fp values).p50 ≤ (computeStats fp values).p95 ∧
        (computeStats fp values).p95 ≤ (computeStats fp values).p99 ∧
        (computeStats fp values).p99 ≤ (computeStats fp values).max) ∧
      ∀ permuted : List UInt64, permuted.Perm values →
        computeStats fp permuted = computeStats fp values := by
  have describes := computeStats_describes fp nonempty
  refine ⟨describes, describes.ordered, ?_⟩
  intro permuted perm
  exact computeStats_perm fp perm

end Stats

/-- Sums of natural numbers, with a division that rounds down. -/
def wholeNumbers : FloatingPoint Nat Nat where
  zero := 0
  add := (· + ·)
  ofUInt64 := UInt64.toNat
  ofSize := id
  div := (· / ·)
  round := id
  zeroDouble := 0

/-- The rank of 95 percent of three values is fractional, and two values are
equal. -/
theorem percentiles_nearest_rank_three :
    computeStats wholeNumbers [8, 2, 8] =
        { count := 3, min := 2, p50 := 8, p95 := 8, p99 := 8, max := 8,
          mean := 6 } ∧
      (computeStats wholeNumbers [8, 2, 8]).Describes [8, 2, 8] :=
  ⟨by decide +kernel,
    (percentiles_nearest_rank wholeNumbers (by decide)).1⟩

end HydraRT.Metrics
