import EmbeddedRtps.Evaluation.Report
import EmbeddedRtps.Foundation.Samples
import Mathlib.Algebra.Order.Floor.Ring
import Mathlib.Tactic.Linarith
import Mathlib.Tactic.NormNum

/-!
# The printed quantiles

The entry at `ceil(size() * q) - 1` of the sorted vector is a nearest-rank quantile.  The
index is inside the vector for every `q` of the unit interval without zero, at both ends
too, and grows with `q`.
-/

namespace EmbeddedRtps.Evaluation

open Foundation

/-! ### The index -/

section Index

variable {q : ℚ}

theorem one_le_ceil {count : Nat} (positive : 0 < count) (above : 0 < q) :
    1 ≤ ⌈count * q⌉ := by
  have product_pos : 0 < count * q := mul_pos (Nat.cast_pos.mpr positive) above
  exact Int.one_le_ceil_iff.mpr product_pos

theorem ceil_le_count (count : Nat) (below : q ≤ 1) : ⌈count * q⌉ ≤ count := by
  rw [Int.ceil_le, Int.cast_natCast]
  exact mul_le_of_le_one_right (Nat.cast_nonneg count) below

end Index

/-! ### The entry -/

section Entry

variable {sorted : List ℚ} {q : ℚ}

theorem quantile_eq_getElem (above : 0 < q) (below : q ≤ 1) (nonempty : sorted ≠ []) :
    ∃ (index : Nat) (inside : index < sorted.length),
      (index : ℤ) = ⌈sorted.length * q⌉ - 1 ∧
      quantile sorted q = some sorted[index] := by
  have first := one_le_ceil (List.length_pos_of_ne_nil nonempty) above
  have last := ceil_le_count sorted.length below
  obtain ⟨index, index_eq⟩ := Int.eq_ofNat_of_zero_le (Int.sub_nonneg_of_le first)
  have inside : index < sorted.length := by omega
  refine ⟨index, inside, index_eq.symm, ?_⟩
  rw [quantile, index_eq, if_pos (by omega), Int.toNat_natCast,
    List.getElem?_eq_getElem inside]

theorem eq_getElem_of_quantile (above : 0 < q) (below : q ≤ 1) {value : ℚ}
    (found : quantile sorted q = some value) :
    ∃ (index : Nat) (inside : index < sorted.length),
      (index : ℤ) = ⌈sorted.length * q⌉ - 1 ∧ value = sorted[index] := by
  have nonempty : sorted ≠ [] := by
    rintro rfl
    simp [quantile] at found
  obtain ⟨index, inside, index_eq, entry⟩ := quantile_eq_getElem above below nonempty
  exact ⟨index, inside, index_eq, Option.some.inj (found.symm.trans entry)⟩

/-- A quantile is at its rank. -/
theorem nearestRank_of_quantile (ordered : sorted.Pairwise (· ≤ ·)) (above : 0 < q)
    (below : q ≤ 1) {value : ℚ} (found : quantile sorted q = some value) :
    NearestRank sorted ⌈sorted.length * q⌉ value := by
  obtain ⟨index, inside, index_eq, rfl⟩ := eq_getElem_of_quantile above below found
  have ranked := nearestRank_getElem ordered inside
  rwa [index_eq, Int.sub_add_cancel] at ranked

/-- Quantiles grow. -/
theorem quantile_mono (ordered : sorted.Pairwise (· ≤ ·)) {p : ℚ} (above : 0 < p)
    (le : p ≤ q) (below : q ≤ 1) {smaller larger : ℚ}
    (found : quantile sorted p = some smaller)
    (found' : quantile sorted q = some larger) : smaller ≤ larger := by
  obtain ⟨index, inside, index_eq, rfl⟩ :=
    eq_getElem_of_quantile above (le_trans le below) found
  obtain ⟨index', inside', index_eq', rfl⟩ :=
    eq_getElem_of_quantile (lt_of_lt_of_le above le) below found'
  have ceil_le : ⌈sorted.length * p⌉ ≤ ⌈sorted.length * q⌉ :=
    Int.ceil_le_ceil (mul_le_mul_of_nonneg_left le (Nat.cast_nonneg _))
  exact getElem_le_of_sorted ordered (by omega) inside'

end Entry

/-- The quantiles of recorded times. -/
theorem exists_quantile {times : List ℚ} (nonempty : times ≠ []) {q : ℚ} (above : 0 < q)
    (below : q ≤ 1) :
    ∃ value, quantile (times.insertionSort (· ≤ ·)) q = some value ∧
      NearestRank times ⌈times.length * q⌉ value := by
  have perm := List.perm_insertionSort (· ≤ ·) times
  have nonempty' : times.insertionSort (· ≤ ·) ≠ [] := by
    intro empty
    rw [empty] at perm
    exact nonempty perm.nil_eq.symm
  obtain ⟨index, inside, _, found⟩ := quantile_eq_getElem above below nonempty'
  have ranked := nearestRank_of_quantile (List.pairwise_insertionSort (· ≤ ·) times) above
    below found
  rw [perm.length_eq] at ranked
  exact ⟨_, found, ranked.perm perm⟩

/-! ### The order of the samples -/

/-- An evaluation depends on the order of the times only as far as its mean does. -/
theorem evaluateWith_eq_of_perm {mean : List ℚ → ℚ} (quantiles : List ℚ)
    {times others : List ℚ} (perm : times.Perm others)
    (same_mean : mean times = mean others) :
    evaluateWith mean quantiles times = evaluateWith mean quantiles others := by
  have same_squares : squaredDeviations times (mean others) =
      squaredDeviations others (mean others) :=
    (perm.map _).sum_eq
  simp only [evaluateWith, min?_eq_of_perm perm, max?_eq_of_perm perm, perm.length_eq,
    insertionSort_eq_of_perm perm, same_mean, same_squares]

theorem evaluate_eq_of_perm (variant : Latency.Variant) {times others : List ℚ}
    (perm : times.Perm others) : variant.evaluate times = variant.evaluate others := by
  rw [variant.evaluate_eq]
  apply evaluateWith_eq_of_perm _ perm
  rw [perm.sum_eq, perm.length_eq]

/-! ### The report -/

/-- For every `q` above zero and up to one the index of both latency units is inside the
sorted list, and the entry there is a nearest-rank quantile of the recorded times.  The
numbers of a report are ordered, and do not depend on the order of the times. -/
theorem quantiles_nearest_rank (variant : Latency.Variant) (times : List ℚ)
    (nonempty : times ≠ []) :
    (∀ q : ℚ, 0 < q → q ≤ 1 →
      (0 ≤ ⌈times.length * q⌉ - 1 ∧ ⌈times.length * q⌉ - 1 < times.length) ∧
      ∃ value, quantile (times.insertionSort (· ≤ ·)) q = some value ∧
        NearestRank times ⌈times.length * q⌉ value) ∧
    ∃ report q50 q90 q99 q9999, variant.evaluate times = some report ∧
      report.quantiles = [some q50, some q90, some q99, some q9999] ∧
      NearestRank times ⌈(times.length : ℚ) * (1 / 2)⌉ q50 ∧
      NearestRank times ⌈(times.length : ℚ) * (9 / 10)⌉ q90 ∧
      NearestRank times ⌈(times.length : ℚ) * (99 / 100)⌉ q99 ∧
      NearestRank times ⌈(times.length : ℚ) * (9999 / 10000)⌉ q9999 ∧
      (report.min ≤ q50 ∧ q50 ≤ q90 ∧ q90 ≤ q99 ∧ q99 ≤ q9999 ∧ q9999 ≤ report.max) ∧
      (report.min ≤ report.mean ∧ report.mean ≤ report.max) ∧
      ∀ others, others.Perm times → variant.evaluate others = some report := by
  have count_pos := List.length_pos_of_ne_nil nonempty
  have ordered := List.pairwise_insertionSort (· ≤ ·) times
  obtain ⟨report, evaluated, describes⟩ := variant.exists_evaluate nonempty
  obtain ⟨_, least⟩ := List.min?_eq_some_iff.mp describes.min
  obtain ⟨_, greatest⟩ := List.max?_eq_some_iff.mp describes.max
  obtain ⟨q50, found50, ranked50⟩ := exists_quantile nonempty
    (show (0 : ℚ) < 1 / 2 by norm_num) (by norm_num)
  obtain ⟨q90, found90, ranked90⟩ := exists_quantile nonempty
    (show (0 : ℚ) < 9 / 10 by norm_num) (by norm_num)
  obtain ⟨q99, found99, ranked99⟩ := exists_quantile nonempty
    (show (0 : ℚ) < 99 / 100 by norm_num) (by norm_num)
  obtain ⟨q9999, found9999, ranked9999⟩ := exists_quantile nonempty
    (show (0 : ℚ) < 9999 / 10000 by norm_num) (by norm_num)
  constructor
  · intro q above below
    have first := one_le_ceil count_pos above
    have last := ceil_le_count times.length below
    exact ⟨⟨by omega, by omega⟩, exists_quantile nonempty above below⟩
  · refine ⟨report, q50, q90, q99, q9999, evaluated, ?_, ranked50, ranked90, ranked99,
      ranked9999, ⟨?_, ?_, ?_, ?_, ?_⟩, ⟨?_, ?_⟩, ?_⟩
    · rw [describes.quantiles, List.map_cons, List.map_cons, List.map_cons,
        List.map_cons, List.map_nil, found50, found90, found99, found9999]
    · exact least q50 ranked50.mem
    · exact quantile_mono ordered (by norm_num) (by norm_num) (by norm_num) found50 found90
    · exact quantile_mono ordered (by norm_num) (by norm_num) (by norm_num) found90 found99
    · exact quantile_mono ordered (by norm_num) (by norm_num) (by norm_num) found99
        found9999
    · exact greatest q9999 ranked9999.mem
    · rw [describes.mean]
      exact le_sum_div_length nonempty least
    · rw [describes.mean]
      exact sum_div_length_le nonempty greatest
    · intro others perm
      rw [evaluate_eq_of_perm variant perm, evaluated]

/-- The median of three samples is the middle one, in whatever order they come. -/
theorem quantiles_of_three_samples :
    ∃ report q50, Latency.Variant.rtps.evaluate [4, 9, 2] = some report ∧
      report.quantiles.head? = some (some q50) ∧ NearestRank [4, 9, 2] 2 q50 ∧
      Latency.Variant.rtps.evaluate [9, 2, 4] = some report := by
  obtain ⟨_, report, q50, _, _, _, evaluated, quantiles, ranked, _, _, _, _, _, same⟩ :=
    quantiles_nearest_rank .rtps [4, 9, 2] (by decide)
  refine ⟨report, q50, evaluated, by rw [quantiles]; rfl, ?_, same _ (by decide)⟩
  have rank : ⌈(([4, 9, 2] : List ℚ).length : ℚ) * (1 / 2)⌉ = 2 := by decide +kernel
  rwa [rank] at ranked

end EmbeddedRtps.Evaluation
