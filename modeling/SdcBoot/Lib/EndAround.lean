/-
# Addition with the carry brought round

Ones' complement addition of words below `M`: what overflows is added again at the low end.  A
processor does it with a chain of additions with carry and one addition of the last carry; a program
in a high-level language adds in a wide integer and folds the upper part onto the lower one.  Both
come to `around M` of the plain sum, so neither has to be compared with the other.

That the single last addition of the chain is enough is the invariant of `Open`: the word and the
carry behind it are never the largest word and one.
-/
import Mathlib.Data.Nat.ModEq
import Mathlib.Tactic.Ring
import Mathlib.Algebra.BigOperators.Group.List.Basic

namespace SdcBoot.Lib.EndAround

open Nat

variable {M : Nat}

/-! ## 1. The sum -/

/-- The word that stands for `n`: zero for zero only, otherwise the remainder by `M - 1` that is not
zero. -/
def around (M n : Nat) : Nat := if n = 0 then 0 else (n - 1) % (M - 1) + 1

@[simp] theorem around_zero : around M 0 = 0 := rfl

theorem around_pos {n : Nat} (h : n ≠ 0) : around M n = (n - 1) % (M - 1) + 1 := if_neg h

theorem around_lt (hM : 2 ≤ M) (n : Nat) : around M n < M := by
  unfold around
  split
  · omega
  · have := mod_lt (n - 1) (show 0 < M - 1 by omega)
    omega

theorem around_of_lt {n : Nat} (h : n < M) : around M n = n := by
  by_cases h0 : n = 0
  · rw [h0, around_zero]
  · rw [around_pos h0, mod_eq_of_lt (by omega)]
    omega

/-- Taking out `M - 1` makes no difference as long as something is left. -/
theorem around_sub {n : Nat} (h : n ≠ 0) (k : Nat) :
    around M (n + k * (M - 1)) = around M n := by
  have hk : n + k * (M - 1) ≠ 0 := by omega
  rw [around_pos h, around_pos hk]
  have hswap : n + k * (M - 1) - 1 = (n - 1) + k * (M - 1) := by omega
  rw [hswap, add_mul_mod_self_right]

/-- One folding. -/
theorem around_fold (hM : 2 ≤ M) (n : Nat) : around M (n % M + n / M) = around M n := by
  by_cases h : n % M + n / M = 0
  · obtain ⟨h1, h2⟩ := Nat.add_eq_zero_iff.mp h
    have hn : n = 0 := by
      rw [← div_add_mod n M, h1, h2, mul_zero]
    rw [h, hn]
  · rw [← around_sub h (n / M)]
    congr 1
    have hn := div_add_mod n M
    have hmul : M * (n / M) = n / M + n / M * (M - 1) := by
      obtain ⟨m, rfl⟩ : ∃ m, M = m + 1 := ⟨M - 1, by omega⟩
      rw [Nat.add_sub_cancel]
      ring
    omega

theorem around_add (a b : Nat) : around M (around M a + b) = around M (a + b) := by
  by_cases h : a = 0
  · rw [h, around_zero]
  · have ha := div_add_mod (a - 1) (M - 1)
    have hsplit : a + b = (around M a + b) + (a - 1) / (M - 1) * (M - 1) := by
      rw [around_pos h, mul_comm ((a - 1) / (M - 1))]
      omega
    rw [hsplit, around_sub]
    rw [around_pos h]
    omega

/-- The sum and its complement cancel. -/
theorem around_complement (hM : 2 ≤ M) (n : Nat) :
    around M (n + (M - 1 - around M n)) = M - 1 := by
  have hlt := around_lt hM n
  rw [← around_add, show around M n + (M - 1 - around M n) = M - 1 by omega,
    around_of_lt (by omega)]

/-! ## 2. Chains of additions with carry -/

/-- A sum so far `w` with a carry to come: the two do not overflow. -/
def Open (M : Nat) (w carry : Nat) : Prop := w + carry < M

/-- One addition with carry: what is in the word and the carry together afterwards is the same sum,
brought round, and still does not overflow. -/
theorem Open.adc (hM : 2 ≤ M) {w carry a : Nat} (h : Open M w carry) (ha : a < M) :
    Open M ((w + a + carry) % M) ((w + a + carry) / M) ∧
      around M ((w + a + carry) % M + (w + a + carry) / M) = around M (w + carry + a) := by
  unfold Open at h
  refine ⟨?_, by rw [around_fold hM]; congr 1; omega⟩
  unfold Open
  by_cases hc : w + a + carry < M
  · rw [mod_eq_of_lt hc, div_eq_of_lt hc]
    exact hc
  · have hdiv : (w + a + carry) / M = 1 := by
      rw [Nat.div_eq_iff (by omega)]
      omega
    have hmod : (w + a + carry) % M = w + a + carry - M := by
      rw [mod_eq_sub_mod (by omega), mod_eq_of_lt (by omega)]
    omega

/-- The last addition takes the carry in, and nothing more comes out. -/
theorem Open.close {w carry : Nat} (h : Open M w carry) :
    (w + carry) % M = around M (w + carry) ∧ (w + carry) / M = 0 := by
  rw [around_of_lt h, mod_eq_of_lt h]
  exact ⟨rfl, div_eq_of_lt h⟩

/-! ## 3. Folding -/

/-- The upper part folded onto the lower one until there is none. -/
def folded (M : Nat) : Nat → Nat → Nat
  | 0, sum => sum
  | fuel + 1, sum => if sum / M = 0 then sum else folded M fuel (sum % M + sum / M)

theorem folded_eq (hM : 2 ≤ M) : ∀ {fuel sum : Nat}, sum ≤ fuel → folded M fuel sum = around M sum := by
  intro fuel
  induction fuel with
  | zero =>
    intro sum h
    rw [Nat.le_zero.mp h, around_zero]
    rfl
  | succ fuel ih =>
    intro sum h
    rw [folded]
    split
    · rename_i hzero
      rw [around_of_lt ((div_eq_zero_iff_lt (by omega)).mp hzero)]
    · have hn := div_add_mod sum M
      have hq : 2 * (sum / M) ≤ M * (sum / M) := Nat.mul_le_mul_right _ hM
      rw [ih (by omega), around_fold hM]

end SdcBoot.Lib.EndAround
