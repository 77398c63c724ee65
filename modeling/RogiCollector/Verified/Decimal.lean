import Mathlib.Data.String.Basic
import Mathlib.Algebra.Order.Ring.Int
import Mathlib.Tactic.IntervalCases

/-!
# Zero-padded decimals

`padded w n` is `fmt.Sprintf("%0*d", w, n)` for a number of at most `w`
digits.  File names that start with such a field sort by it: at equal width
the lexicographic order of the digits is the order of the numbers, and what
follows the field does not matter.  `zeroPadded w n` is the same for every
integer, wider if need be.
-/

namespace RogiCollector.Verified

/-- The last `w` decimal digits of `n`, most significant first. -/
def padded : Nat → Nat → List Char
  | 0, _ => []
  | w + 1, n => padded w (n / 10) ++ [Nat.digitChar (n % 10)]

@[simp] theorem length_padded (w n : Nat) : (padded w n).length = w := by
  induction w generalizing n with
  | zero => rfl
  | succ w ih => simp [padded, ih]

/-- Digits are ordered like their values. -/
theorem digitChar_lt {a b : Nat} (hab : a < b) (hb : b < 10) :
    Nat.digitChar a < Nat.digitChar b := by
  interval_cases b <;> interval_cases a <;> decide

/-- A strict comparison of lists of one length is not undone by what follows. -/
theorem append_lt_append {α : Type} [LinearOrder α] {l1 l2 : List α}
    (hlen : l1.length = l2.length) (h : l1 < l2) (x y : List α) : l1 ++ x < l2 ++ y := by
  induction l1 generalizing l2 with
  | nil =>
    cases l2 with
    | nil => exact absurd h (lt_irrefl _)
    | cons b l2 => simp at hlen
  | cons a l1 ih =>
    cases l2 with
    | nil => simp at hlen
    | cons b l2 =>
      rw [List.cons_append, List.cons_append, List.cons_lt_cons_iff] at *
      rcases h with hab | ⟨rfl, hlt⟩
      · exact Or.inl hab
      · exact Or.inr ⟨rfl, ih (by simpa using hlen) hlt⟩

/-- Padding is strictly monotone. -/
theorem forall_mem_padded {P : Char → Prop} (h : ∀ d < 10, P (Nat.digitChar d)) {w n : Nat} :
    ∀ c ∈ padded w n, P c := by
  induction w generalizing n with
  | zero => exact fun c hc => absurd hc List.not_mem_nil
  | succ w ih =>
    intro c hc
    rw [padded] at hc
    rcases List.mem_append.mp hc with hc | hc
    · exact ih c hc
    · rw [List.mem_singleton.mp hc]
      exact h _ (Nat.mod_lt _ (by decide))

theorem padded_lt {w n m : Nat} (hlt : n < m) (hm : m < 10 ^ w) : padded w n < padded w m := by
  induction w generalizing n m with
  | zero =>
    rw [pow_zero] at hm
    omega
  | succ w ih =>
    have hm' : m / 10 < 10 ^ w := by
      rw [pow_succ] at hm
      omega
    rw [padded, padded]
    -- Either the leading digits decide, or they agree and the last one does.
    rcases Nat.lt_or_ge (n / 10) (m / 10) with hlead | hlead
    · exact append_lt_append (by simp) (ih hlead hm') _ _
    · have heq : n / 10 = m / 10 := by omega
      have hlast : n % 10 < m % 10 := by omega
      rw [heq]
      apply List.append_left_lt
      exact List.cons_lt_cons_iff.mpr (Or.inl (digitChar_lt hlast (by omega)))

/-- Names that start with the padded field sort by the number. -/
theorem padded_append_lt {w n m : Nat} (hlt : n < m) (hm : m < 10 ^ w) (x y : List Char) :
    padded w n ++ x < padded w m ++ y :=
  append_lt_append (by simp) (padded_lt hlt hm) x y

/-- `fmt.Sprintf("%0*d", w, n)`; the sign counts. -/
def zeroPadded (w : Nat) : Int → List Char
  | .ofNat n => List.replicate (w - (Nat.toDigits 10 n).length) '0' ++ Nat.toDigits 10 n
  | .negSucc n =>
    '-' :: (List.replicate (w - 1 - (Nat.toDigits 10 (n + 1)).length) '0' ++
      Nat.toDigits 10 (n + 1))

theorem length_zeroPadded {w n : Nat} (hw : 0 < w) (hn : n < 10 ^ w) :
    (zeroPadded w n).length = w := by
  have hlen := (Nat.length_toDigits_le_iff (by decide : 1 < 10) hw).mpr hn
  rw [← Int.ofNat_eq_natCast, zeroPadded, List.length_append, List.length_replicate]
  omega

theorem isDigit_of_mem_zeroPadded {w n : Nat} {c : Char} (h : c ∈ zeroPadded w n) :
    c.isDigit = true := by
  rw [← Int.ofNat_eq_natCast, zeroPadded, List.mem_append] at h
  rcases h with h | h
  · rw [(List.mem_replicate.mp h).2]
    decide
  · exact Nat.isDigit_of_mem_toDigits (by decide) (by decide) h

end RogiCollector.Verified
