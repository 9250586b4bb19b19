import EmbeddedRtps.Evaluation.Report
import EmbeddedRtps.Foundation.Samples
import Mathlib.Tactic.Linarith
import Mathlib.Tactic.Positivity

/-!
# The two evaluators compared

`MulticastSender::evaluate` sums into an `int` and divides by `NUM_SAMPLES`.  The first
drops every fractional part, the second counts missing samples as zero.  Neither is made
up for by the other, as both make the mean smaller.
-/

namespace EmbeddedRtps.Evaluation

open Foundation Multicast

/-- What both evaluators print. -/
structure Report.Agree (left right : Report) : Prop where
  mean : left.mean = right.mean
  min : left.min = right.min
  max : left.max = right.max
  stddev : left.stddev = right.stddev
  quantiles : left.quantiles.take 3 = right.quantiles.take 3

/-- Nothing is lost to truncation or to missing samples. -/
def Lossless (times : List ℚ) : Prop :=
  (times.length = numSamples ∧ ∀ time ∈ times, Int.fract time = 0) ∨
    ∀ time ∈ times, time = 0

/-! ### The truncating sum -/

theorem truncate_of_nonneg {value : ℚ} (nonneg : 0 ≤ value) :
    truncate value = ⌊value⌋ := by
  rw [truncate, Int.tdiv_eq_ediv_of_nonneg (Rat.num_nonneg.mpr nonneg), Rat.floor_def']

theorem foldl_truncate {times : List ℚ} (nonneg : ∀ time ∈ times, 0 ≤ time) {sum : ℤ}
    (sum_nonneg : 0 ≤ sum) :
    times.foldl (fun sum time => truncate (sum + time)) sum =
      sum + (times.map Int.floor).sum := by
  induction times generalizing sum with
  | nil => simp
  | cons time times ih =>
      have time_nonneg : 0 ≤ time := nonneg time List.mem_cons_self
      have truncated : truncate (sum + time) = sum + ⌊time⌋ := by
        rw [truncate_of_nonneg (by positivity), Int.floor_intCast_add]
      have floor_nonneg : 0 ≤ ⌊time⌋ := Int.floor_nonneg.mpr time_nonneg
      rw [List.foldl_cons, truncated,
        ih (fun time mem => nonneg time (List.mem_cons_of_mem _ mem))
          (Int.add_nonneg sum_nonneg floor_nonneg),
        List.map_cons, List.sum_cons, Int.add_assoc]

theorem accumulateInt_eq {times : List ℚ} (nonneg : ∀ time ∈ times, 0 ≤ time) :
    accumulateInt times = (times.map Int.floor).sum := by
  rw [accumulateInt, foldl_truncate nonneg (Int.le_refl 0), Int.zero_add]

/-- The exact sum is what `MulticastSender::evaluate` sums and the fractional parts. -/
theorem accumulateInt_add_fract {times : List ℚ} (nonneg : ∀ time ∈ times, 0 ≤ time) :
    (accumulateInt times : ℚ) + (times.map Int.fract).sum = times.sum := by
  rw [accumulateInt_eq nonneg]
  clear nonneg
  induction times with
  | nil => simp
  | cons time times ih =>
      simp only [List.map_cons, List.sum_cons, Int.cast_add]
      rw [← ih]
      linarith [Int.floor_add_fract time]

theorem accumulateInt_nonneg {times : List ℚ} (nonneg : ∀ time ∈ times, 0 ≤ time) :
    0 ≤ accumulateInt times := by
  rw [accumulateInt_eq nonneg]
  apply List.sum_nonneg
  simp only [List.mem_map, forall_exists_index, and_imp, forall_apply_eq_imp_iff₂]
  exact fun time mem => Int.floor_nonneg.mpr (nonneg time mem)

theorem sum_fract_nonneg (times : List ℚ) : 0 ≤ (times.map Int.fract).sum := by
  apply List.sum_nonneg
  simp only [List.mem_map, forall_exists_index, and_imp, forall_apply_eq_imp_iff₂]
  exact fun time _ => Int.fract_nonneg time

theorem sum_fract_eq_zero_iff (times : List ℚ) :
    (times.map Int.fract).sum = 0 ↔ ∀ time ∈ times, Int.fract time = 0 := by
  rw [sum_eq_zero_iff_of_nonneg] <;>
    simp only [List.mem_map, forall_exists_index, and_imp, forall_apply_eq_imp_iff₂]
  exact fun time _ => Int.fract_nonneg time

/-! ### The means -/

/-- The two means, cross-multiplied: the fractions that are dropped and the samples that
are missing cannot make up for each other. -/
theorem whole_mul_eq_iff {whole fract length samples : ℚ} (whole_nonneg : 0 ≤ whole)
    (fract_nonneg : 0 ≤ fract) (bounded : length ≤ samples) (samples_pos : 0 < samples) :
    whole * length = (whole + fract) * samples ↔
      fract = 0 ∧ (length = samples ∨ whole = 0) := by
  have missing_nonneg : 0 ≤ (samples - length) * whole :=
    mul_nonneg (sub_nonneg.mpr bounded) whole_nonneg
  have dropped_nonneg : 0 ≤ samples * fract := mul_nonneg samples_pos.le fract_nonneg
  constructor
  · intro cross
    have dropped : samples * fract = 0 := by linarith
    have missing : (samples - length) * whole = 0 := by linarith
    constructor
    · exact (mul_eq_zero.mp dropped).resolve_left samples_pos.ne'
    · rcases mul_eq_zero.mp missing with full | zero
      · exact Or.inl (sub_eq_zero.mp full).symm
      · exact Or.inr zero
  · rintro ⟨rfl, rfl | rfl⟩
    · rw [add_zero]
    · rw [add_zero, zero_mul, zero_mul]

theorem mean_eq_iff {times : List ℚ} (nonempty : times ≠ [])
    (nonneg : ∀ time ∈ times, 0 ≤ time) (bounded : times.length ≤ numSamples) :
    (accumulateInt times : ℚ) / numSamples = times.sum / times.length ↔
      Lossless times := by
  have split := accumulateInt_add_fract nonneg
  have fract_nonneg := sum_fract_nonneg times
  have whole_nonneg : (0 : ℚ) ≤ accumulateInt times :=
    Int.cast_nonneg (accumulateInt_nonneg nonneg)
  have length_pos : (0 : ℚ) < times.length :=
    Nat.cast_pos.mpr (List.length_pos_of_ne_nil nonempty)
  have samples_pos : (0 : ℚ) < numSamples := Nat.cast_pos.mpr (by decide)
  rw [div_eq_div_iff samples_pos.ne' length_pos.ne', ← split,
    whole_mul_eq_iff whole_nonneg fract_nonneg (Nat.cast_le.mpr bounded) samples_pos,
    Nat.cast_inj, Lossless, ← sum_fract_eq_zero_iff,
    ← sum_eq_zero_iff_of_nonneg nonneg, ← split]
  constructor
  · rintro ⟨integral, full | zero⟩
    · exact Or.inl ⟨full, integral⟩
    · exact Or.inr (by rw [zero, integral, add_zero])
  · rintro (⟨full, integral⟩ | zero)
    · exact ⟨integral, Or.inl full⟩
    · exact ⟨by linarith, Or.inr (by linarith)⟩

/-! ### The reports -/

/-- The two evaluators print the same numbers, and `MulticastSender::evaluate` prints
the mean, exactly when nothing is lost. -/
theorem agree_iff_lossless (times : List ℚ) (nonempty : times ≠ [])
    (nonneg : ∀ time ∈ times, 0 ≤ time) (bounded : times.length ≤ numSamples) :
    ∃ multicast unicast,
      MulticastSender.evaluate times = some multicast ∧
      MeasurementUnit.evaluate times = some unicast ∧
      (multicast.Agree unicast ↔ Lossless times) ∧
      (multicast.mean = times.sum / times.length ↔ Lossless times) := by
  have means := mean_eq_iff nonempty nonneg bounded
  obtain ⟨multicast, evaluated, describes⟩ := exists_evaluateWith
    (fun times => (accumulateInt times : ℚ) / numSamples) [1 / 2, 9 / 10, 99 / 100, 0]
    nonempty
  obtain ⟨unicast, evaluated', describes'⟩ := exists_evaluateWith
    (fun times => times.sum / times.length) [1 / 2, 9 / 10, 99 / 100, 9999 / 10000]
    nonempty
  rw [← describes.mean] at means
  refine ⟨multicast, unicast, evaluated, evaluated', ?_, means⟩
  constructor
  · intro agree
    exact means.mp (agree.mean.trans describes'.mean)
  · intro lossless
    have same : multicast.mean = unicast.mean :=
      (means.mpr lossless).trans describes'.mean.symm
    have variance : multicast.variance = unicast.variance := by
      rw [describes.variance, describes'.variance, same]
    exact {
      mean := same
      min := Option.some.inj (describes.min.symm.trans describes'.min)
      max := Option.some.inj (describes.max.symm.trans describes'.max)
      stddev := by
        rw [Report.stddev, Report.stddev, variance, describes.size, describes'.size]
      quantiles := by
        rw [describes.quantiles, describes'.quantiles]
        rfl }

/-- A hundred samples of two microseconds each. -/
theorem agree_iff_lossless_full :
    ∃ multicast unicast,
      MulticastSender.evaluate (List.replicate 100 2) = some multicast ∧
      MeasurementUnit.evaluate (List.replicate 100 2) = some unicast ∧
      multicast.Agree unicast := by
  obtain ⟨multicast, unicast, multicast_eq, unicast_eq, agree, _⟩ :=
    agree_iff_lossless (List.replicate 100 2) (by decide) (by decide) (by decide)
  refine ⟨multicast, unicast, multicast_eq, unicast_eq, agree.mpr (Or.inl ⟨rfl, ?_⟩)⟩
  intro time mem
  rw [List.eq_of_mem_replicate mem]
  exact Int.fract_natCast 2

/-- One sample of one and a half microseconds is printed as a mean of a hundredth. -/
theorem single_sample_disagrees :
    ∃ multicast unicast,
      MulticastSender.evaluate [3 / 2] = some multicast ∧
      MeasurementUnit.evaluate [3 / 2] = some unicast ∧
      multicast.mean = 1 / 100 ∧ unicast.mean = 3 / 2 ∧
      ¬ multicast.Agree unicast := by
  refine ⟨_, _, rfl, rfl, by decide +kernel, by decide +kernel, fun agree => ?_⟩
  exact absurd agree.mean (by decide +kernel)

end EmbeddedRtps.Evaluation
