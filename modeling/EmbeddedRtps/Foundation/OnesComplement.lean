import Mathlib.Algebra.Ring.Nat
import Mathlib.Data.Nat.Bits
import Mathlib.Data.Nat.ModEq

/-!
# One's complement sums

A one's complement sum of 16-bit words adds carries back in at the low end.  Up to
representation it is the sum modulo `2 ^ 16 - 1`, except that a sum is zero only if
all its words are.  `SameSum` is equality of such sums; it does not see when carries
are added back, or in which of the two byte orders the words are read, once the bytes
of the result are swapped accordingly.
-/

namespace EmbeddedRtps.Foundation

/-- Two numbers that stand for the same one's complement sum. -/
def SameSum (left right : Nat) : Prop :=
  left ≡ right [MOD 65535] ∧ (left = 0 ↔ right = 0)

namespace SameSum

variable {first second third fourth : Nat}

@[refl] theorem refl (number : Nat) : SameSum number number := ⟨rfl, Iff.rfl⟩

@[symm] theorem symm (same : SameSum first second) : SameSum second first :=
  ⟨same.1.symm, same.2.symm⟩

@[trans] theorem trans (same : SameSum first second) (same' : SameSum second third) :
    SameSum first third :=
  ⟨same.1.trans same'.1, same.2.trans same'.2⟩

theorem add (same : SameSum first second) (same' : SameSum third fourth) :
    SameSum (first + third) (second + fourth) := by
  refine ⟨same.1.add same'.1, ?_⟩
  rw [Nat.add_eq_zero_iff, Nat.add_eq_zero_iff, same.2, same'.2]

theorem mul_left (same : SameSum first second) {factor : Nat} (positive : factor ≠ 0) :
    SameSum (factor * first) (factor * second) := by
  refine ⟨same.1.mul_left factor, ?_⟩
  simp [positive, same.2]

/-- Numbers of 16 bits stand for different sums. -/
theorem eq (same : SameSum first second) (small : first ≤ 65535)
    (small' : second ≤ 65535) : first = second := by
  obtain ⟨congruent, zero⟩ := same
  rw [Nat.ModEq] at congruent
  omega

end SameSum

/-! ## Carries -/

/-- Add the upper half of a 32-bit sum to the lower half. -/
def foldCarry (sum : Nat) : Nat := sum / 65536 + sum % 65536

theorem sameSum_foldCarry (sum : Nat) : SameSum (foldCarry sum) sum := by
  refine ⟨?_, ?_⟩
  · rw [Nat.ModEq, foldCarry]
    omega
  · rw [foldCarry]
    omega

theorem foldCarry_le {sum : Nat} (small : sum ≤ 131070) : foldCarry sum ≤ 65535 := by
  rw [foldCarry]
  omega

/-- Folding a 32-bit sum twice leaves 16 bits. -/
theorem foldCarry_foldCarry_le {sum : Nat} (small : sum < 2 ^ 32) :
    foldCarry (foldCarry sum) ≤ 65535 := by
  apply foldCarry_le
  rw [foldCarry]
  omega

/-- Add two 32-bit numbers and add the carry back. -/
def addCarry (left right : Nat) : Nat :=
  let sum := (left + right) % 2 ^ 32
  if sum < left then sum + 1 else sum

theorem sameSum_addCarry {left right : Nat} (small : left < 2 ^ 32)
    (small' : right < 2 ^ 32) : SameSum (addCarry left right) (left + right) := by
  simp only [SameSum, Nat.ModEq, addCarry]
  split <;> omega

theorem addCarry_lt {left right : Nat} (small : left < 2 ^ 32) :
    addCarry left right < 2 ^ 32 := by
  simp only [addCarry]
  split <;> omega

/-! ## Bytes -/

/-- Exchange the two bytes of a word. -/
def swapBytes (word : Nat) : Nat := word % 256 * 256 + word / 256 % 256

theorem swapBytes_le (word : Nat) : swapBytes word ≤ 65535 := by
  rw [swapBytes]
  omega

theorem swapBytes_add {low high : Nat} (small : low < 256) (small' : high < 256) :
    swapBytes (low + 256 * high) = 256 * low + high := by
  rw [swapBytes, Nat.add_mul_mod_self_left, Nat.add_mul_div_left _ _ (by decide),
    Nat.div_eq_of_lt small, Nat.mod_eq_of_lt small, Nat.zero_add, Nat.mod_eq_of_lt small',
    Nat.mul_comm]

/-- Exchanging the bytes multiplies a sum by 256. -/
theorem sameSum_swapBytes {word : Nat} (small : word ≤ 65535) :
    SameSum (swapBytes word) (256 * word) := by
  have upper : word / 256 % 256 = word / 256 := Nat.mod_eq_of_lt (by omega)
  have shifted : 256 * word = 65535 * (word / 256) + swapBytes word := by
    rw [swapBytes, upper]
    omega
  refine ⟨?_, ?_⟩
  · rw [Nat.ModEq, shifted, Nat.mul_add_mod]
  · rw [swapBytes]
    omega

theorem sameSum_mul_256_mul_256 (sum : Nat) : SameSum (256 * (256 * sum)) sum := by
  simp only [SameSum, Nat.ModEq]
  omega

/-- The factor of a byte in a word, by whether it is the upper one. -/
def byteWeight (upper : Bool) : Nat := if upper then 256 else 1

/-- The sum of the words that are made of successive bytes, the first of which is an
upper one or not; a byte that is left alone is completed by zero. -/
def wordSum : Bool → List UInt8 → Nat
  | _, [] => 0
  | upper, byte :: rest => byteWeight upper * byte.toNat + wordSum (!upper) rest

@[simp] theorem wordSum_nil (upper : Bool) : wordSum upper [] = 0 := rfl

theorem wordSum_cons (upper : Bool) (byte : UInt8) (rest : List UInt8) :
    wordSum upper (byte :: rest) =
      byteWeight upper * byte.toNat + wordSum (!upper) rest := rfl

/-- An odd number of bytes before shifts the others to the other half. -/
theorem wordSum_append (upper : Bool) (front back : List UInt8) :
    wordSum upper (front ++ back) =
      wordSum upper front + wordSum (upper ^^ front.length.bodd) back := by
  induction front generalizing upper with
  | nil => simp
  | cons byte front ih =>
      rw [List.cons_append, wordSum_cons, ih, wordSum_cons, List.length_cons, Nat.bodd_succ]
      cases upper <;> simp [Nat.add_assoc]

/-- Reading the bytes in the other order multiplies a sum by 256. -/
theorem sameSum_wordSum_not (upper : Bool) (bytes : List UInt8) :
    SameSum (wordSum (!upper) bytes) (256 * wordSum upper bytes) := by
  induction bytes generalizing upper with
  | nil => simp [SameSum.refl]
  | cons byte rest ih =>
      rw [wordSum_cons, wordSum_cons, Nat.mul_add]
      refine SameSum.add ?_ (ih (!upper))
      cases upper with
      | false => simp [byteWeight, SameSum.refl]
      | true =>
          simp only [byteWeight, Bool.not_true, Bool.false_eq_true, if_false, if_true,
            Nat.one_mul]
          exact (sameSum_mul_256_mul_256 _).symm

/-! ## Frames -/

/-- A sum in a frame in which the bytes of the words are swapped or not. -/
def turned (swapped : Bool) (sum : Nat) : Nat := if swapped then 256 * sum else sum

theorem turned_add (swapped : Bool) (left right : Nat) :
    turned swapped (left + right) = turned swapped left + turned swapped right := by
  cases swapped <;> simp [turned, Nat.mul_add]

/-- The frame in which the bytes are read cancels. -/
theorem sameSum_turned_wordSum (swapped upper : Bool) (bytes : List UInt8) :
    SameSum (turned swapped (wordSum (upper ^^ swapped) bytes)) (wordSum upper bytes) := by
  cases swapped with
  | true =>
      have other := sameSum_wordSum_not (!upper) bytes
      simpa [turned] using other.symm
  | false => simp [turned, SameSum.refl]

/-- Swapping the bytes of a sum changes to the other frame. -/
theorem sameSum_swapBytes_turned {swapped : Bool} {word sum : Nat}
    (small : word ≤ 65535) (same : SameSum word (turned swapped sum)) :
    SameSum (swapBytes word) (turned (!swapped) sum) := by
  refine ((sameSum_swapBytes small).trans (same.mul_left (by decide))).trans ?_
  cases swapped with
  | true => exact sameSum_mul_256_mul_256 sum
  | false => exact .refl _

/-- Swapping the bytes of a sum undoes an odd offset. -/
theorem sameSum_swapBytes_wordSum {upper : Bool} {word : Nat} {bytes : List UInt8}
    (small : word ≤ 65535) (same : SameSum word (wordSum (!upper) bytes)) :
    SameSum (swapBytes word) (wordSum upper bytes) := by
  have turned := sameSum_wordSum_not (!upper) bytes
  rw [Bool.not_not] at turned
  exact ((sameSum_swapBytes small).trans (same.mul_left (by decide))).trans turned.symm

end EmbeddedRtps.Foundation
