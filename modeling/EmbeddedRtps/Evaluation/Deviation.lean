import EmbeddedRtps.Evaluation.Report
import EmbeddedRtps.Foundation.Samples
import Mathlib.Tactic.FieldSimp
import Mathlib.Tactic.Linarith
import Mathlib.Tactic.Positivity

/-!
# The printed deviation

`sqrt(variance) / size()` has the sum of the squared deviations under the root and the
number of samples outside of it.  Against the population standard deviation it is too
small by the root of the number of samples, so that more samples of the same kind print
a smaller deviation.  Only where there is no deviation at all the two are the same.
-/

namespace EmbeddedRtps.Evaluation

open Foundation

/-- `deviation` is the population standard deviation, up to its sign. -/
def IsStandardDeviation (times : List ℚ) (deviation : ℝ) : Prop :=
  times.length * deviation ^ 2 =
    (times.map fun time => ((time : ℝ) - (times.sum / times.length : ℚ)) ^ 2).sum

/-- All samples took the same time. -/
def Constant (times : List ℚ) : Prop :=
  ∀ time ∈ times, ∀ other ∈ times, time = other

instance (times : List ℚ) : Decidable (Constant times) :=
  inferInstanceAs (Decidable (∀ time ∈ times, ∀ other ∈ times, time = other))

theorem constant_of_length_eq_one {times : List ℚ} (single : times.length = 1) :
    Constant times := by
  obtain ⟨only, rfl⟩ := List.length_eq_one_iff.mp single
  intro time mem other mem'
  rw [List.mem_singleton.mp mem, List.mem_singleton.mp mem']

/-! ### The sum of the squared deviations -/

theorem cast_squaredDeviations (times : List ℚ) (mean : ℚ) :
    (squaredDeviations times mean : ℝ) =
      (times.map fun time => ((time : ℝ) - mean) ^ 2).sum := by
  induction times with
  | nil => simp [squaredDeviations]
  | cons time times ih =>
      simp only [squaredDeviations, List.map_cons, List.sum_cons] at ih ⊢
      rw [Rat.cast_add, ih]
      push_cast
      rfl

theorem squaredDeviations_append (left right : List ℚ) (mean : ℚ) :
    squaredDeviations (left ++ right) mean =
      squaredDeviations left mean + squaredDeviations right mean := by
  rw [squaredDeviations, List.map_append, List.sum_append]
  rfl

theorem squares_nonneg (times : List ℚ) (mean : ℚ) :
    ∀ square ∈ times.map fun time => (time - mean) ^ 2, 0 ≤ square := by
  intro square mem
  obtain ⟨time, _, rfl⟩ := List.mem_map.mp mem
  exact sq_nonneg _

theorem squaredDeviations_nonneg (times : List ℚ) (mean : ℚ) :
    0 ≤ squaredDeviations times mean :=
  List.sum_nonneg (squares_nonneg times mean)

theorem squaredDeviations_eq_zero_iff (times : List ℚ) (mean : ℚ) :
    squaredDeviations times mean = 0 ↔ ∀ time ∈ times, time = mean := by
  rw [squaredDeviations, sum_eq_zero_iff_of_nonneg (squares_nonneg times mean)]
  simp only [List.mem_map, forall_exists_index, and_imp, forall_apply_eq_imp_iff₂,
    sq_eq_zero_iff, sub_eq_zero]

/-- There is no deviation from the mean exactly if there is none at all. -/
theorem squaredDeviations_mean_eq_zero_iff {times : List ℚ} (nonempty : times ≠ []) :
    squaredDeviations times (times.sum / times.length) = 0 ↔ Constant times := by
  rw [squaredDeviations_eq_zero_iff]
  constructor
  · intro equal time mem other mem'
    rw [equal time mem, equal other mem']
  · intro constant time mem
    apply le_antisymm
    · exact le_sum_div_length nonempty fun other mem' => (constant time mem other mem').le
    · exact sum_div_length_le nonempty fun other mem' => (constant other mem' time mem).le

/-! ### The printed number -/

/-- What the printed number is the root of. -/
theorem size_mul_stddev_sq {report : Report} (size_pos : 0 < report.size)
    (variance_nonneg : 0 ≤ report.variance) :
    report.size * report.stddev ^ 2 = (report.variance : ℝ) / report.size := by
  have size_ne : (report.size : ℝ) ≠ 0 := Nat.cast_ne_zero.mpr size_pos.ne'
  rw [Report.stddev, div_pow, Real.sq_sqrt (Rat.cast_nonneg.mpr variance_nonneg)]
  field_simp

/-- Dividing by the number of samples once more changes the sum only if there is more
than one. -/
theorem size_mul_stddev_sq_eq_iff (report : Report) (size_pos : 0 < report.size)
    (variance_nonneg : 0 ≤ report.variance) :
    report.size * report.stddev ^ 2 = (report.variance : ℝ) ↔
      report.size = 1 ∨ report.variance = 0 := by
  have size_ne : (report.size : ℝ) ≠ 0 := Nat.cast_ne_zero.mpr size_pos.ne'
  rw [size_mul_stddev_sq size_pos variance_nonneg, div_eq_iff size_ne, eq_comm,
    mul_right_eq_self₀, Nat.cast_eq_one, Rat.cast_eq_zero]

/-- Twice the squares over twice the samples. -/
theorem stddev_eq_of_doubled_iff (report doubled : Report)
    (size_pos : 0 < report.size) (variance_nonneg : 0 ≤ report.variance)
    (size : doubled.size = 2 * report.size)
    (variance : doubled.variance = 2 * report.variance) :
    doubled.stddev = report.stddev ↔ report.variance = 0 := by
  have half : doubled.size * doubled.stddev ^ 2 = report.size * report.stddev ^ 2 := by
    rw [size_mul_stddev_sq size_pos variance_nonneg,
      size_mul_stddev_sq (by omega) (by rw [variance]; positivity), size, variance]
    push_cast
    exact mul_div_mul_left _ _ two_ne_zero
  have size_real : (0 : ℝ) < report.size := Nat.cast_pos.mpr size_pos
  constructor
  · intro same
    rw [same, size] at half
    push_cast at half
    have root_zero : report.size * report.stddev ^ 2 = 0 := by linarith
    rw [size_mul_stddev_sq size_pos variance_nonneg, div_eq_zero_iff] at root_zero
    exact Rat.cast_eq_zero.mp (root_zero.resolve_right size_real.ne')
  · intro zero
    rw [Report.stddev, Report.stddev, variance, zero, mul_zero, Rat.cast_zero,
      Real.sqrt_zero, zero_div, zero_div]

/-! ### The units -/

/-- Both latency units print the population standard deviation, and the same deviation
for a list and that list twice, exactly if all samples took the same time.  The mean of
a list and of that list twice is always the same. -/
theorem stddev_iff_constant (variant : Latency.Variant) (times : List ℚ)
    (nonempty : times ≠ []) :
    ∃ report doubled, variant.evaluate times = some report ∧
      variant.evaluate (times ++ times) = some doubled ∧
      (IsStandardDeviation times report.stddev ↔ Constant times) ∧
      doubled.mean = report.mean ∧
      (doubled.stddev = report.stddev ↔ Constant times) := by
  have twice : times ++ times ≠ [] := List.append_ne_nil_of_left_ne_nil nonempty times
  have same_mean := sum_div_length_append_self times
  have constant := squaredDeviations_mean_eq_zero_iff nonempty
  obtain ⟨report, evaluated, describes⟩ := variant.exists_evaluate nonempty
  obtain ⟨doubled, evaluated', describes'⟩ := variant.exists_evaluate twice
  have size_pos : 0 < report.size := by
    rw [describes.size]
    exact List.length_pos_of_ne_nil nonempty
  have variance_nonneg : 0 ≤ report.variance := by
    rw [describes.variance]
    exact squaredDeviations_nonneg _ _
  rw [← describes.mean, ← describes.variance] at constant
  refine ⟨report, doubled, evaluated, evaluated', ?_, ?_, ?_⟩
  · rw [IsStandardDeviation, ← cast_squaredDeviations, ← describes.mean,
      ← describes.variance, ← describes.size,
      size_mul_stddev_sq_eq_iff report size_pos variance_nonneg, constant]
    constructor
    · rintro (single | equal)
      · exact constant_of_length_eq_one (describes.size.symm.trans single)
      · exact equal
    · exact Or.inr
  · rw [describes.mean, describes'.mean, same_mean]
  · rw [stddev_eq_of_doubled_iff report doubled size_pos variance_nonneg, constant]
    · rw [describes.size, describes'.size, List.length_append, two_mul]
    · rw [describes.variance, describes'.variance, describes.mean, describes'.mean,
        same_mean, squaredDeviations_append, two_mul]

/-- Three samples of five microseconds each. -/
theorem stddev_of_constant :
    ∃ report doubled, Latency.Variant.rtps.evaluate [5, 5, 5] = some report ∧
      Latency.Variant.rtps.evaluate [5, 5, 5, 5, 5, 5] = some doubled ∧
      IsStandardDeviation [5, 5, 5] report.stddev ∧
      doubled.stddev = report.stddev := by
  obtain ⟨report, doubled, evaluated, evaluated', standard, _, unchanged⟩ :=
    stddev_iff_constant .rtps [5, 5, 5] (by decide)
  have constant : Constant [5, 5, 5] := by decide
  exact ⟨report, doubled, evaluated, evaluated', standard.mpr constant,
    unchanged.mpr constant⟩

/-- The deviation of one and three microseconds is one microsecond.  Both units print
less, and less again when both samples are taken twice. -/
theorem stddev_of_two_samples :
    ∃ report doubled : Report, MeasurementUnit.evaluate [1, 3] = some report ∧
      LwipMeasurementUnit.evaluate [1, 3] = some report ∧
      MeasurementUnit.evaluate [1, 3, 1, 3] = some doubled ∧
      LwipMeasurementUnit.evaluate [1, 3, 1, 3] = some doubled ∧
      IsStandardDeviation [1, 3] 1 ∧ ¬ IsStandardDeviation [1, 3] report.stddev ∧
      doubled.stddev ≠ report.stddev := by
  let report : Report := ⟨2, 2, 1, 3, 2, [some 1, some 3, some 3, some 3]⟩
  let doubled : Report := ⟨4, 2, 1, 3, 4, [some 1, some 3, some 3, some 3]⟩
  have mean : (([1, 3] : List ℚ).sum / ([1, 3] : List ℚ).length : ℚ) = 2 := by
    decide +kernel
  have squares : (([1, 3] : List ℚ).map fun time => ((time : ℝ) - (2 : ℚ)) ^ 2).sum =
      (2 : ℚ) := by
    norm_num
  have unequal := size_mul_stddev_sq_eq_iff report (by decide) (by decide)
  have changed := stddev_eq_of_doubled_iff report doubled (by decide) (by decide) rfl
    (by decide +kernel)
  refine ⟨report, doubled, by decide +kernel, by decide +kernel, by decide +kernel,
    by decide +kernel, ?_, ?_, ?_⟩
  · rw [IsStandardDeviation, mean, squares]
    norm_num
  · rw [IsStandardDeviation, mean, squares]
    intro standard
    exact absurd (unequal.mp standard) (by decide)
  · intro same
    exact absurd (changed.mp same) (by decide)

end EmbeddedRtps.Evaluation
