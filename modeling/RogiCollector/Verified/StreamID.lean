import Mathlib.Data.String.Basic
import RogiCollector.Verified.Decimal
import RogiCollector.Verified.TextKey

/-!
# Stream entry identifiers and their text

An entry of a Redis stream is named by two 64-bit numbers, a time and a
counter, ordered lexicographically and written `time-counter`.  `key` is the
order as one number; `textKey` reads the number back from any text of two
decimals, so that a comparison of texts is a comparison of keys.
-/

namespace RogiCollector.Verified

/-- The identifier of a stream entry. -/
structure StreamID where
  ms : Fin (2 ^ 64)
  seq : Fin (2 ^ 64)
  deriving Repr, DecidableEq

namespace StreamID

/-- The order as one number. -/
def key (id : StreamID) : Nat := id.ms.val * 2 ^ 64 + id.seq.val

def text (id : StreamID) : String := toString id.ms.val ++ "-" ++ toString id.seq.val

end StreamID

/-- `strconv.ParseUint(s, 10, 64)`: the number and whether there was no error.
What comes with an error is zero for a text that is no number, and the largest
number for one that is too large. -/
def parseUint (digits : List Char) : Nat × Bool :=
  if digits = [] ∨ !digits.all Char.isDigit then (0, false)
  else if Nat.ofDigitChars 10 digits 0 < 2 ^ 64 then (Nat.ofDigitChars 10 digits 0, true)
  else (2 ^ 64 - 1, false)

theorem parseUint_lt (digits : List Char) : (parseUint digits).1 < 2 ^ 64 := by
  unfold parseUint
  split
  · decide
  · split
    · assumption
    · decide

/-- Parsing inverts printing. -/
theorem parseUint_toString {n : Nat} (h : n < 2 ^ 64) :
    parseUint (toString n).toList = (n, true) := by
  have hdigits : (Nat.toDigits 10 n).all Char.isDigit = true :=
    List.all_eq_true.mpr fun c hc => Nat.isDigit_of_mem_toDigits (by decide) (by decide) hc
  have hne : Nat.toDigits 10 n ≠ [] := Nat.toDigits_ne_nil
  rw [toList_toString, parseUint, if_neg, Nat.ofDigitChars_ten_toDigits, if_pos h]
  simp [hdigits, hne]

theorem ofDigitChars_replicate_zero (k : Nat) :
    Nat.ofDigitChars 10 (List.replicate k '0') 0 = 0 := by
  induction k with
  | zero => rfl
  | succ k ih =>
    rw [List.replicate_succ', Nat.ofDigitChars_append, ih]
    rfl

/-- Leading zeros do not matter. -/
theorem parseUint_zeroPadded {n : Nat} (w : Nat) (h : n < 2 ^ 64) :
    parseUint (zeroPadded w n) = (n, true) := by
  have hdigits : (zeroPadded w n).all Char.isDigit = true :=
    List.all_eq_true.mpr fun c hc => isDigit_of_mem_zeroPadded hc
  have hne : zeroPadded w n ≠ [] := by
    rw [← Int.ofNat_eq_natCast, zeroPadded]
    exact List.append_ne_nil_of_right_ne_nil _ Nat.toDigits_ne_nil
  have hvalue : Nat.ofDigitChars 10 (zeroPadded w n) 0 = n := by
    rw [← Int.ofNat_eq_natCast, zeroPadded, Nat.ofDigitChars_append, ofDigitChars_replicate_zero,
      Nat.ofDigitChars_ten_toDigits]
  rw [parseUint, if_neg (by simp [hdigits, hne]), hvalue, if_pos h]

/-- The parts of a text between dashes. -/
def splitDash (s : String) : List (List Char) := s.toList.splitOn '-'

/-- What a text of two decimals says as a key. -/
def textKey (s : String) : Nat :=
  match splitDash s with
  | [a, b] => (parseUint a).1 * 2 ^ 64 + (parseUint b).1
  | _ => 0

theorem splitDash_text (id : StreamID) :
    splitDash id.text = [(toString id.ms.val).toList, (toString id.seq.val).toList] := by
  have hdash : ∀ part ∈ [(toString id.ms.val).toList, (toString id.seq.val).toList],
      '-' ∉ part := by
    intro part hpart
    simp only [List.mem_cons, List.not_mem_nil, or_false] at hpart
    rcases hpart with rfl | rfl <;> exact notMem_toString (by decide) _
  rw [splitDash, ← List.splitOn_intercalate '-' hdash (by simp)]
  simp [StreamID.text]

/-- Reading an identifier's text gives its key. -/
theorem textKey_text (id : StreamID) : textKey id.text = id.key := by
  rw [textKey, splitDash_text]
  dsimp only
  rw [parseUint_toString id.ms.isLt, parseUint_toString id.seq.isLt]
  rfl

/-- Comparing the parts in turn is comparing the keys. -/
theorem lex_iff_key_lt {a a' b b' : Nat} (ha' : a' < 2 ^ 64) (hb' : b' < 2 ^ 64) :
    (if a ≠ b then a < b else if a' ≠ b' then a' < b' else False) ↔
      a * 2 ^ 64 + a' < b * 2 ^ 64 + b' := by
  split
  · omega
  · rename_i h
    push Not at h
    subst h
    split
    · omega
    · simp
      omega

end RogiCollector.Verified
