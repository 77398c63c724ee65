import Mathlib.Data.List.Infix

/-!
# Patterns of `LIKE`

In a pattern `%` stands for any text, `_` for any character and a backslash takes the next
character as it is.  Without such characters in it, a text between two `%` is looked for as
it stands.
-/

namespace RogiCollector.Verified.Like

/-- The characters of a pattern that do not stand for themselves. -/
def special (c : Char) : Bool := c = '%' ∨ c = '_' ∨ c = '\\'

/-- `text LIKE pattern`; a backslash at the end, which is an error, matches nothing. -/
def like : List Char → List Char → Bool
  | [], text => text = []
  | '%' :: pattern, text => text.tails.any (like pattern)
  | '_' :: pattern, _ :: text => like pattern text
  | '_' :: _, [] => false
  | '\\' :: c :: pattern, c' :: text => c = c' && like pattern text
  | '\\' :: _, _ => false
  | c :: pattern, c' :: text => c = c' && like pattern text
  | _ :: _, [] => false

theorem like_percent (pattern text : List Char) :
    like ('%' :: pattern) text = true ↔ ∃ rest, rest <:+ text ∧ like pattern rest = true := by
  rw [like, List.any_eq_true]
  simp only [List.mem_tails]

theorem like_cons {c : Char} (h : special c = false) (pattern text : List Char) :
    like (c :: pattern) text = true ↔ ∃ rest, text = c :: rest ∧ like pattern rest = true := by
  simp only [special, decide_eq_false_iff_not, not_or] at h
  obtain ⟨hpercent, hunderscore, hbackslash⟩ := h
  cases text with
  | nil => simp [like]
  | cons c' text =>
    rw [like]
    · simp only [Bool.and_eq_true, decide_eq_true_eq, List.cons.injEq]
      constructor
      · rintro ⟨rfl, hrest⟩
        exact ⟨text, ⟨rfl, rfl⟩, hrest⟩
      · rintro ⟨rest, ⟨rfl, rfl⟩, hrest⟩
        exact ⟨rfl, hrest⟩
    all_goals simp_all

/-- A plain front of a pattern is a front of the text. -/
theorem like_append {plain : List Char} (h : ∀ c ∈ plain, special c = false)
    (pattern text : List Char) :
    like (plain ++ pattern) text = true ↔
      ∃ rest, text = plain ++ rest ∧ like pattern rest = true := by
  induction plain generalizing text with
  | nil => simp
  | cons c plain ih =>
    rw [List.cons_append, like_cons (h c List.mem_cons_self)]
    have htail : ∀ c' ∈ plain, special c' = false :=
      fun c' hc' => h c' (List.mem_cons_of_mem _ hc')
    constructor
    · rintro ⟨rest, rfl, hrest⟩
      obtain ⟨rest', rfl, hrest'⟩ := (ih htail rest).mp hrest
      exact ⟨rest', rfl, hrest'⟩
    · rintro ⟨rest, rfl, hrest⟩
      exact ⟨plain ++ rest, rfl, (ih htail _).mpr ⟨rest, rfl, hrest⟩⟩

theorem like_any (text : List Char) : like ['%'] text = true := by
  rw [like_percent]
  exact ⟨[], List.nil_suffix, rfl⟩

/-- A plain text between two `%` is looked for as it stands. -/
theorem like_contains {plain : List Char} (h : ∀ c ∈ plain, special c = false)
    (text : List Char) : like ('%' :: plain ++ ['%']) text = true ↔ plain <:+: text := by
  rw [List.cons_append, like_percent]
  constructor
  · rintro ⟨rest, ⟨front, rfl⟩, hrest⟩
    obtain ⟨back, rfl, -⟩ := (like_append h _ _).mp hrest
    exact ⟨front, back, List.append_assoc _ _ _⟩
  · rintro ⟨front, back, rfl⟩
    refine ⟨plain ++ back, ⟨front, (List.append_assoc _ _ _).symm⟩, ?_⟩
    exact (like_append h _ _).mpr ⟨back, rfl, like_any back⟩

end RogiCollector.Verified.Like
