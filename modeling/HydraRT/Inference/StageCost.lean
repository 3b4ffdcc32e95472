import HydraRT.Inference.InferenceJob

/-!
# The cost of a stage

`stage_cost_units` multiplies the cost of one item by the batch size in 64
bits and then caps the product to 32.  The cost of one item always fits, but
for the attention term of a long sequence the product need not.
-/

namespace HydraRT.Inference

/-! ## The cost without overflow -/

/-- A size as the cost model reads it: zero counts as one. -/
def sizeUnits (size : UInt32) : Nat :=
  if size ≠ 0 then size.toNat else 1

/-- The cost of one item of the batch. -/
def StagePayload.itemCost (p : StagePayload) : Nat :=
  let px := sizeUnits p.imagePixels
  let len := sizeUnits p.sequenceLength
  if p.kind = .imageClassifier then
    if p.stage = .decode then 200 + px / 64
    else if p.stage = .preprocess then 300 + px / 16
    else if p.stage = .infer then 2000 + px / 2
    else if p.stage = .postprocess then 150
    else 0
  else if p.kind = .textTransformer then
    if p.stage = .decode then 100 + len
    else if p.stage = .preprocess then 200 + len * 4
    else if p.stage = .infer then 1000 + len * len / 4
    else if p.stage = .postprocess then 120 + len / 2
    else 0
  else 0

/-- The formula of `stage_cost_units` in unbounded integers, before the cap. -/
def StagePayload.cost (p : StagePayload) : Nat :=
  p.itemCost * sizeUnits p.batchSize

/-! ## What is computed -/

theorem sizeUnits_lt (size : UInt32) : sizeUnits size < 2 ^ 32 := by
  unfold sizeUnits
  have bound := UInt32.toNat_lt size
  split <;> omega

/-- The 64-bit variable that holds a size. -/
theorem toNat_atLeastOne (size : UInt32) :
    (if size ≠ 0 then size.toUInt64 else 1 : UInt64).toNat =
      sizeUnits size := by
  unfold sizeUnits
  by_cases zero : size = 0
  · simp [zero]
  · simp [zero]

/-- `units` before the batch size is multiplied in. -/
def StagePayload.itemUnits (p : StagePayload) : UInt64 :=
  let px : UInt64 :=
    if p.imagePixels ≠ 0 then p.imagePixels.toUInt64 else 1
  let len : UInt64 :=
    if p.sequenceLength ≠ 0 then p.sequenceLength.toUInt64 else 1
  if p.kind = .imageClassifier then
    if p.stage = .decode then 200 + px / 64
    else if p.stage = .preprocess then 300 + px / 16
    else if p.stage = .infer then 2000 + px / 2
    else if p.stage = .postprocess then 150
    else 0
  else if p.kind = .textTransformer then
    if p.stage = .decode then 100 + len
    else if p.stage = .preprocess then 200 + len * 4
    else if p.stage = .infer then 1000 + len * len / 4
    else if p.stage = .postprocess then 120 + len / 2
    else 0
  else 0

/-- The cost of one item never overflows. -/
theorem toNat_itemUnits (p : StagePayload) :
    p.itemUnits.toNat = p.itemCost := by
  have pixels := sizeUnits_lt p.imagePixels
  have length := sizeUnits_lt p.sequenceLength
  have square : sizeUnits p.sequenceLength * sizeUnits p.sequenceLength <
      2 ^ 64 :=
    calc
      sizeUnits p.sequenceLength * sizeUnits p.sequenceLength
          < 2 ^ 32 * 2 ^ 32 := Nat.mul_lt_mul'' length length
      _ = 2 ^ 64 := by norm_num
  unfold StagePayload.itemUnits StagePayload.itemCost
  rw [← toNat_atLeastOne] at pixels length square
  simp only [← toNat_atLeastOne]
  generalize (if p.imagePixels ≠ 0 then p.imagePixels.toUInt64 else 1 :
    UInt64) = px at pixels ⊢
  generalize (if p.sequenceLength ≠ 0 then p.sequenceLength.toUInt64 else 1 :
    UInt64) = len at length square ⊢
  -- every sum is a small constant and at most the square of a length
  split_ifs
  all_goals
    simp only [UInt64.toNat_add, UInt64.toNat_mul, UInt64.toNat_div,
      UInt64.reduceToNat]
  all_goals omega

/-- The product wraps, and what is left of it is capped. -/
theorem toNat_stageCostUnits (p : StagePayload) :
    (stageCostUnits p).toNat = min (2 ^ 32 - 1) (p.cost % 2 ^ 64) := by
  have product : (p.itemUnits *
      (if p.batchSize ≠ 0 then p.batchSize.toUInt64 else 1 : UInt64)).toNat =
        p.cost % 2 ^ 64 := by
    rw [UInt64.toNat_mul, toNat_itemUnits, toNat_atLeastOne]
    rfl
  change (if p.itemUnits *
      (if p.batchSize ≠ 0 then p.batchSize.toUInt64 else 1 : UInt64) >
        0xFFFFFFFF then 0xFFFFFFFF
      else (p.itemUnits * (if p.batchSize ≠ 0 then p.batchSize.toUInt64
        else 1 : UInt64)).toUInt32).toNat = _
  generalize (p.itemUnits * (if p.batchSize ≠ 0 then p.batchSize.toUInt64
    else 1 : UInt64)) = units at product ⊢
  by_cases large : units > 0xFFFFFFFF
  · rw [if_pos large]
    have beyond : 2 ^ 32 - 1 < units.toNat := by
      simpa using UInt64.lt_iff_toNat_lt.mp large
    rw [Nat.min_eq_left (by omega)]
    rfl
  · rw [if_neg large]
    have within : ¬ 2 ^ 32 - 1 < units.toNat := by
      intro beyond
      exact large (UInt64.lt_iff_toNat_lt.mpr (by simpa using beyond))
    rw [Nat.min_eq_right (by omega), ← product]
    simp only [UInt64.toNat_toUInt32]
    omega

/-! ## When the cap works -/

/-- The cost is the capped formula exactly when the product fits 64 bits, or
what is left of it after the wrap still exceeds the cap. -/
theorem stageCostUnits_saturates_iff (p : StagePayload) :
    (stageCostUnits p).toNat = min (2 ^ 32 - 1) p.cost ↔
      p.cost < 2 ^ 64 ∨ 2 ^ 32 - 1 ≤ p.cost % 2 ^ 64 := by
  rw [toNat_stageCostUnits]
  by_cases fits : p.cost < 2 ^ 64
  · rw [Nat.mod_eq_of_lt fits]
    exact ⟨fun _ => .inl fits, fun _ => rfl⟩
  · omega

/-- The inference stage for sixteen sequences of length `2 ^ 31`. -/
def longBatch : StagePayload where
  requestId := 1
  kind := .textTransformer
  stage := .infer
  imagePixels := 0
  sequenceLength := 0x80000000
  batchSize := 16

/-- Its cost wraps to 16000. -/
theorem stageCostUnits_longBatch_wraps :
    stageCostUnits longBatch = 16000 ∧
      (stageCostUnits longBatch).toNat ≠
        min (2 ^ 32 - 1) longBatch.cost := by
  decide +kernel

end HydraRT.Inference
