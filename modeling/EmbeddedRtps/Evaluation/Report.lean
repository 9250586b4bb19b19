import EmbeddedRtps.Latency.Unit
import EmbeddedRtps.Multicast.Basic
import Mathlib.Analysis.Real.Sqrt
import Mathlib.Data.List.Sort
import Mathlib.Data.Rat.Floor

/-!
# The statistics the benchmarks print

`MulticastSender::evaluate`, `MeasurementUnit::evaluate` and its copy in
`LwipMeasurementUnit` are the same algorithm up to the mean and the last quantile.
Times are rationals in microseconds and arithmetic is exact, except that a conversion
to `int` truncates toward zero.

Dereferencing the result of `std::min_element` on an empty vector is undefined, so an
evaluation is partial.
-/

namespace EmbeddedRtps.Evaluation

open Multicast

/-- The numbers of one line of output.  A quantile that is `NAN` is `none`. -/
structure Report where
  size : Nat
  mean : ℚ
  min : ℚ
  max : ℚ
  /-- The sum of the squared deviations from the mean. -/
  variance : ℚ
  quantiles : List (Option ℚ)
  deriving DecidableEq

/-- `sqrt(variance) / size()`. -/
noncomputable def Report.stddev (report : Report) : ℝ :=
  Real.sqrt report.variance / report.size

/-- The sum of `pow(d - mean, 2)`. -/
def squaredDeviations (times : List ℚ) (mean : ℚ) : ℚ :=
  (times.map fun time => (time - mean) ^ 2).sum

/-- The element at `ceil(size() * q) - 1` of a sorted vector, or `NAN`.  A negative index
becomes a huge `size_t`. -/
def quantile (sorted : List ℚ) (q : ℚ) : Option ℚ :=
  let index := ⌈sorted.length * q⌉ - 1
  if 0 ≤ index ∧ index < sorted.length then
    sorted[index.toNat]?
  else
    none

/-- The algorithm, for a way to compute the mean and a list of quantiles. -/
def evaluateWith (mean : List ℚ → ℚ) (quantiles : List ℚ) (times : List ℚ) :
    Option Report := do
  let min ← times.min?
  let max ← times.max?
  let sorted := times.insertionSort (· ≤ ·)
  return {
    size := times.length
    mean := mean times
    min := min
    max := max
    variance := squaredDeviations times (mean times)
    quantiles := quantiles.map (quantile sorted) }

/-- Conversion to `int`. -/
def truncate (value : ℚ) : ℤ :=
  value.num.tdiv value.den

/-- `std::accumulate` with the initial value `0`, which makes the accumulator an
`int`. -/
def accumulateInt (times : List ℚ) : ℤ :=
  times.foldl (fun sum time => truncate (sum + time)) 0

/-- `MulticastSender::evaluate`.  The array has four elements and three initialisers. -/
def MulticastSender.evaluate : List ℚ → Option Report :=
  evaluateWith (fun times => (accumulateInt times : ℚ) / numSamples)
    [1 / 2, 9 / 10, 99 / 100, 0]

/-- `MeasurementUnit::evaluate`. -/
def MeasurementUnit.evaluate : List ℚ → Option Report :=
  evaluateWith (fun times => times.sum / times.length)
    [1 / 2, 9 / 10, 99 / 100, 9999 / 10000]

/-- `LwipMeasurementUnit::evaluate`. -/
def LwipMeasurementUnit.evaluate : List ℚ → Option Report :=
  evaluateWith (fun times => times.sum / times.length)
    [1 / 2, 9 / 10, 99 / 100, 9999 / 10000]

/-- An evaluation is defined exactly when there is something to evaluate. -/
theorem isSome_evaluateWith (mean : List ℚ → ℚ) (quantiles times : List ℚ) :
    (evaluateWith mean quantiles times).isSome = true ↔ times ≠ [] := by
  cases times with
  | nil => simp [evaluateWith]
  | cons first rest => simp [evaluateWith, List.min?, List.max?]

/-- What a report says about the times it was made from. -/
structure Report.Describes (report : Report) (times : List ℚ) (mean : ℚ)
    (quantiles : List ℚ) : Prop where
  size : report.size = times.length
  mean : report.mean = mean
  min : times.min? = some report.min
  max : times.max? = some report.max
  variance : report.variance = squaredDeviations times report.mean
  quantiles : report.quantiles =
    quantiles.map (quantile (times.insertionSort (· ≤ ·)))

theorem exists_evaluateWith (mean : List ℚ → ℚ) (quantiles : List ℚ) {times : List ℚ}
    (nonempty : times ≠ []) :
    ∃ report, evaluateWith mean quantiles times = some report ∧
      report.Describes times (mean times) quantiles := by
  cases times with
  | nil => exact absurd rfl nonempty
  | cons first rest => exact ⟨_, rfl, rfl, rfl, rfl, rfl, rfl, rfl⟩

end EmbeddedRtps.Evaluation

namespace EmbeddedRtps.Latency

open Evaluation

/-- `evaluate` of the unit that is running. -/
def Variant.evaluate : Variant → List ℚ → Option Report
  | .rtps => MeasurementUnit.evaluate
  | .lwip => LwipMeasurementUnit.evaluate

/-- The copy has not drifted. -/
theorem Variant.evaluate_eq (variant : Variant) :
    variant.evaluate = evaluateWith (fun times => times.sum / times.length)
      [1 / 2, 9 / 10, 99 / 100, 9999 / 10000] := by
  cases variant with
  | rtps => rfl
  | lwip => rfl

theorem Variant.isSome_evaluate (variant : Variant) (times : List ℚ) :
    (variant.evaluate times).isSome = true ↔ times ≠ [] := by
  rw [variant.evaluate_eq, isSome_evaluateWith]

theorem Variant.exists_evaluate (variant : Variant) {times : List ℚ}
    (nonempty : times ≠ []) :
    ∃ report, variant.evaluate times = some report ∧
      report.Describes times (times.sum / times.length)
        [1 / 2, 9 / 10, 99 / 100, 9999 / 10000] := by
  rw [variant.evaluate_eq]
  exact exists_evaluateWith _ _ nonempty

end EmbeddedRtps.Latency
