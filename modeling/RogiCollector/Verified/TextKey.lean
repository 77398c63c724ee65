import Mathlib.Data.String.Basic

/-!
# Keys built from fields

A key text such as `session/first-last-…` determines its fields when every
field is free of the separator that follows it, or everything behind a separator
is free of it.
-/

namespace RogiCollector.Verified

/-- A text splits at its first separator in one way. -/
theorem append_cons_inj {α : Type} {sep : α} {x x' y y' : List α} (hx : sep ∉ x)
    (hx' : sep ∉ x') (h : x ++ sep :: y = x' ++ sep :: y') : x = x' ∧ y = y' := by
  induction x generalizing x' with
  | nil =>
    cases x' with
    | nil => exact ⟨rfl, (List.cons.inj h).2⟩
    | cons a x' =>
      obtain ⟨rfl, -⟩ := List.cons.inj h
      exact absurd List.mem_cons_self hx'
  | cons a x ih =>
    cases x' with
    | nil =>
      obtain ⟨rfl, -⟩ := List.cons.inj h
      exact absurd List.mem_cons_self hx
    | cons b x' =>
      obtain ⟨rfl, hrest⟩ := List.cons.inj h
      obtain ⟨rfl, hy⟩ := ih (fun hm => hx (List.mem_cons_of_mem _ hm))
        (fun hm => hx' (List.mem_cons_of_mem _ hm)) hrest
      exact ⟨rfl, hy⟩

/-- And at its last one. -/
theorem append_cons_inj_last {α : Type} {sep : α} {x x' y y' : List α} (hy : sep ∉ y)
    (hy' : sep ∉ y') (h : x ++ sep :: y = x' ++ sep :: y') : x = x' ∧ y = y' := by
  have hreverse : y.reverse ++ sep :: x.reverse = y'.reverse ++ sep :: x'.reverse := by
    simpa using congrArg List.reverse h
  obtain ⟨hy, hx⟩ := append_cons_inj (by simpa using hy) (by simpa using hy') hreverse
  exact ⟨List.reverse_injective hx, List.reverse_injective hy⟩

theorem toList_toString (n : Nat) : (toString n).toList = Nat.toDigits 10 n := by
  simp [toString, Nat.repr]

/-- Decimal numbers have digits only. -/
theorem notMem_toString {c : Char} (hc : c.isDigit = false) (n : Nat) :
    c ∉ (toString n).toList := by
  rw [toList_toString]
  intro h
  rw [Nat.isDigit_of_mem_toDigits (by decide) (by decide) h] at hc
  cases hc

/-- Different numbers have different decimals. -/
theorem toString_inj {n m : Nat} (h : (toString n).toList = (toString m).toList) : n = m := by
  rw [toList_toString, toList_toString] at h
  rw [← Nat.ofDigitChars_ten_toDigits (n := n), h, Nat.ofDigitChars_ten_toDigits]

/-- A UUID in its usual form: lower hexadecimal digits in groups. -/
def canonicalUUID (s : String) : Bool :=
  s.utf8ByteSize = 36 ∧ s.toList.length = 36 ∧
    (s.toList.zip "xxxxxxxx-xxxx-xxxx-xxxx-xxxxxxxxxxxx".toList).all fun x =>
      if x.2 = '-' then x.1 = '-' else x.1.isDigit ∨ ('a' ≤ x.1 ∧ x.1 ≤ 'f')

theorem utf8ByteSize_canonicalUUID_le (s : String) (h : canonicalUUID s = true) :
    s.utf8ByteSize ≤ 45 := by
  rw [(of_decide_eq_true h).1]
  decide

end RogiCollector.Verified
