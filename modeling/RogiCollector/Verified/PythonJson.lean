import RogiCollector.Verified.JsonText

/-!
# JSON from Python

How the `json` module of Python writes strings, with `ensure_ascii`, and what a decoder
of another language reads.  A string of Python is a list of code points, among them
surrogates that have no partner.  It is written in UTF-16: what is not printable ASCII
becomes `\uXXXX`, a code point beyond the first 65536 a pair of them.  The reader puts
pairs together and U+FFFD for the rest of the surrogates, so a string may come back
changed, but it always comes back.

## Main definitions

* `dumps` — writing a string.
* `received` — what is read.
-/

namespace RogiCollector.Verified.Json

/-- A string of Python, as code points. -/
abbrev PyString := List Nat

def pyString (s : String) : PyString := s.toList.map Char.toNat

/-- The UTF-16 code units of a code point. -/
def units (n : Nat) : List Nat :=
  if n < 0x10000 then [n]
  else [0xD800 + (n - 0x10000) / 0x400 % 0x400, 0xDC00 + (n - 0x10000) % 0x400]

/-- One code unit inside a string. -/
def unitText (u : Nat) : Text :=
  match shortEscapes.lookup (Char.ofNat u) with
  | some letter => ['\\', letter]
  | none => if 0x20 ≤ u ∧ u ≤ 0x7e then [Char.ofNat u] else unicodeEscape u

/-- `json.dumps` of a string. -/
def dumps (s : PyString) : Text := '"' :: ((s.flatMap units).flatMap unitText ++ ['"'])

/-- A code unit that is not part of a pair. -/
def single (u : Nat) : Char :=
  if isHighSurrogate u ∨ isLowSurrogate u then replacementRune else Char.ofNat u

/-- The characters that the code units stand for. -/
def decodeUnits : List Nat → Text
  | [] => []
  | [u] => [single u]
  | u :: low :: rest =>
    if isHighSurrogate u ∧ isLowSurrogate low then
      Char.ofNat (0x10000 + (u - 0xD800) * 0x400 + (low - 0xDC00)) :: decodeUnits rest
    else single u :: decodeUnits (low :: rest)

/-- What a reader gets of a string of Python. -/
def received (s : PyString) : Text := decodeUnits (s.flatMap units)

/-! ## Code units -/

theorem units_lt (n : Nat) : ∀ u ∈ units n, u < 0x10000 := by
  intro u hu
  unfold units at hu
  split at hu
  · rename_i hlt
    rw [List.mem_singleton.mp hu]
    exact hlt
  · simp only [List.mem_cons, List.not_mem_nil, or_false] at hu
    rcases hu with hu | hu <;> omega

theorem flatMap_units_lt (s : PyString) : ∀ u ∈ s.flatMap units, u < 0x10000 := by
  intro u hu
  obtain ⟨n, -, hn⟩ := List.mem_flatMap.mp hu
  exact units_lt n u hn

variable {u : Nat}

/-- A code unit that stands for a character does not belong to a pair. -/
theorem single_of_lt (h : u < 0xD800) : single u = Char.ofNat u := by
  have hhigh : isHighSurrogate u = false := by
    simp only [isHighSurrogate, decide_eq_false_iff_not]
    omega
  have hlow : isLowSurrogate u = false := by
    simp only [isLowSurrogate, decide_eq_false_iff_not]
    omega
  simp [single, hhigh, hlow]

theorem toNat_ofNat (h : u < 0xD800) : (Char.ofNat u).toNat = u := by
  rw [Char.ofNat, dif_pos (Or.inl h)]
  rfl

/-- A number that stands for no character stands for the first. -/
theorem ofNat_eq_or (u : Nat) : (Char.ofNat u).toNat = u ∨ Char.ofNat u = '\x00' := by
  by_cases h : u.isValidChar
  · left
    rw [Char.ofNat, dif_pos h]
    rfl
  · right
    rw [Char.ofNat, dif_neg h]
    rfl

/-- The three ways a code unit is written. -/
theorem unitText_cases (u : Nat) :
    (∃ letter, (Char.ofNat u, letter) ∈ shortEscapes ∧ unitText u = ['\\', letter] ∧ u < 0x80) ∨
      (0x20 ≤ u ∧ u ≤ 0x7e ∧ Char.ofNat u ≠ '"' ∧ Char.ofNat u ≠ '\\' ∧
        unitText u = [Char.ofNat u]) ∨
      unitText u = unicodeEscape u := by
  cases hshort : shortEscapes.lookup (Char.ofNat u) with
  | some letter =>
    have hmem := shortEscapes_cases hshort
    have hsmall : ∀ m ∈ shortEscapes, m.1 ≠ '\x00' ∧ m.1.toNat < 0x80 := by decide
    have hu := hsmall _ hmem
    refine Or.inl ⟨letter, hmem, by rw [unitText, hshort], ?_⟩
    cases ofNat_eq_or u with
    | inl h =>
      rw [← h]
      exact hu.2
    | inr h => exact absurd h hu.1
  | none =>
    have hquote : Char.ofNat u ≠ '"' := by
      intro h
      rw [h] at hshort
      simp [shortEscapes] at hshort
    have hback : Char.ofNat u ≠ '\\' := by
      intro h
      rw [h] at hshort
      simp [shortEscapes] at hshort
    by_cases hprint : 0x20 ≤ u ∧ u ≤ 0x7e
    · refine Or.inr (Or.inl ⟨hprint.1, hprint.2, hquote, hback, ?_⟩)
      rw [unitText, hshort]
      exact if_pos hprint
    · refine Or.inr (Or.inr ?_)
      rw [unitText, hshort]
      exact if_neg hprint

/-- A code unit does not look like the end of the string. -/
theorem head_unitText (u : Nat) (rest : Text) : (unitText u ++ rest).head? ≠ some '"' := by
  rcases unitText_cases u with ⟨letter, -, h, -⟩ | ⟨-, -, hquote, -, h⟩ | h
  · rw [h]
    simp
  · rw [h]
    simpa using hquote
  · rw [h]
    simp [unicodeEscape]

theorem one_le_length_unitText (u : Nat) : 1 ≤ (unitText u).length := by
  rcases unitText_cases u with ⟨letter, -, h, -⟩ | ⟨-, -, -, -, h⟩ | h
  · rw [h]
    simp
  · rw [h]
    simp
  · rw [h]
    simp [unicodeEscape]

/-- A short escape is not read as `\uXXXX`. -/
theorem readUnicode_short {c letter : Char} (h : (c, letter) ∈ shortEscapes) (rest : Text) :
    readUnicode ('\\' :: letter :: rest) = none := by
  have hne : ∀ m ∈ shortEscapes, m.2 ≠ 'u' := by decide
  have hu := hne _ h
  unfold readUnicode
  split
  · rename_i heq
    simp only [List.cons.injEq] at heq
    exact absurd heq.2.1 hu
  · rfl

/-- What is read of a code unit as the second of a pair. -/
theorem readUnicode_unitText {n : Nat} (hu : u < 0x10000) {rest rest' : Text}
    (h : readUnicode (unitText u ++ rest) = some (n, rest')) : n = u ∧ rest' = rest := by
  rcases unitText_cases u with ⟨letter, hmem, htext, -⟩ | ⟨-, -, -, hback, htext⟩ | htext
  · rw [htext, List.cons_append, List.cons_append, List.nil_append, readUnicode_short hmem] at h
    contradiction
  · rw [htext, List.cons_append, List.nil_append] at h
    unfold readUnicode at h
    split at h
    · rename_i heq
      exact absurd (List.cons.inj heq).1 hback
    · contradiction
  · rw [htext, readUnicode_unicodeEscape hu] at h
    simp only [Option.some.injEq, Prod.mk.injEq] at h
    exact ⟨h.1.symm, h.2.symm⟩

theorem readRune_unicode (hu : u < 0x10000) (rest : Text) :
    readRune (unicodeEscape u ++ rest) = some (joinSurrogates u rest) := by
  have hread := readUnicode_unicodeEscape hu rest
  simp only [unicodeEscape, List.cons_append, List.nil_append] at hread ⊢
  simp only [readRune, hread]

/-- Surrogates are written as `\uXXXX`. -/
theorem unitText_surrogate (h : 0xD800 ≤ u) : unitText u = unicodeEscape u := by
  rcases unitText_cases u with ⟨-, -, -, hlt⟩ | ⟨-, hle, -⟩ | htext
  · omega
  · omega
  · exact htext

theorem le_of_isHighSurrogate (h : isHighSurrogate u = true) : 0xD800 ≤ u := by
  simp only [isHighSurrogate, decide_eq_true_eq] at h
  exact h.1

theorem le_of_isLowSurrogate (h : isLowSurrogate u = true) : 0xD800 ≤ u := by
  simp only [isLowSurrogate, decide_eq_true_eq] at h
  omega

/-- A code unit that starts no pair is read by itself. -/
theorem readRune_single (hu : u < 0x10000) (rest : Text)
    (halone : isHighSurrogate u = true → ∀ low rest', readUnicode rest = some (low, rest') →
      isLowSurrogate low = false) :
    readRune (unitText u ++ rest) = some (single u, rest) := by
  rcases unitText_cases u with ⟨letter, hmem, htext, hlt⟩ | ⟨hge, hle, -, hback, htext⟩ | htext
  · have hread : ∀ m ∈ shortEscapes, shortUnescapes.lookup m.2 = some m.1 := by decide
    have hlookup := hread _ hmem
    have hnone := readUnicode_short hmem rest
    rw [htext, single_of_lt (by omega)]
    simp only [List.cons_append, List.nil_append, readRune, hnone, hlookup, Option.map_some]
  · have hnat := toNat_ofNat (show u < 0xD800 by omega)
    rw [htext, single_of_lt (by omega)]
    simp only [List.cons_append, List.nil_append]
    unfold readRune
    split
    · contradiction
    · rename_i heq
      exact absurd (List.cons.inj heq).1 hback
    · rename_i heq
      obtain ⟨rfl, rfl⟩ := List.cons.inj heq
      rw [hnat, if_neg (by omega)]
  · rw [htext, readRune_unicode hu]
    unfold joinSurrogates single
    by_cases hhigh : isHighSurrogate u = true
    · rw [if_pos hhigh, if_pos (Or.inl hhigh)]
      cases hnext : readUnicode rest with
      | none => rfl
      | some next => simp [halone hhigh next.1 next.2 hnext]
    · by_cases hlow : isLowSurrogate u = true
      · rw [if_neg hhigh, if_pos hlow, if_pos (Or.inr hlow)]
      · rw [if_neg hhigh, if_neg hlow, if_neg (by rintro (h | h) <;> contradiction)]

theorem readRune_pair {low : Nat} (hu : u < 0x10000) (hlow : low < 0x10000)
    (hpair : isHighSurrogate u = true ∧ isLowSurrogate low = true) (rest : Text) :
    readRune (unitText u ++ (unitText low ++ rest)) =
      some (Char.ofNat (0x10000 + (u - 0xD800) * 0x400 + (low - 0xDC00)), rest) := by
  rw [unitText_surrogate (le_of_isHighSurrogate hpair.1),
    unitText_surrogate (le_of_isLowSurrogate hpair.2), readRune_unicode hu]
  simp [joinSurrogates, hpair.1, hpair.2, readUnicode_unicodeEscape hlow]

/-! ## Strings -/

/-- Nothing can be put together with the end of the string. -/
theorem readUnicode_quote (rest : Text) : readUnicode ('"' :: rest) = none := rfl

theorem readString_units (us : List Nat) (hus : ∀ u ∈ us, u < 0x10000) (rest : Text) {fuel : Nat}
    (hfuel : us.length < fuel) :
    readString fuel (us.flatMap unitText ++ '"' :: rest) = some (decodeUnits us, rest) := by
  -- The induction follows the reader: a pair is two code units and one character.
  induction us using decodeUnits.induct generalizing fuel with
  | case1 =>
    cases fuel with
    | zero => simp at hfuel
    | succ fuel => simp [readString, decodeUnits]
  | case2 u =>
    have hu := hus u List.mem_cons_self
    have hread := readRune_single hu ('"' :: rest) (fun _ low rest' h => by
      rw [readUnicode_quote] at h
      contradiction)
    cases fuel with
    | zero => simp at hfuel
    | succ fuel =>
      cases fuel with
      | zero => simp at hfuel
      | succ fuel =>
        rw [List.flatMap_cons, List.flatMap_nil, List.append_nil, readString,
          if_neg (head_unitText _ _), hread]
        simp [readString, decodeUnits]
  | case3 u low us hpair ih =>
    have hu := hus u List.mem_cons_self
    have hlow := hus low (List.mem_cons_of_mem _ List.mem_cons_self)
    have hrest : ∀ u' ∈ us, u' < 0x10000 := fun u' h =>
      hus u' (List.mem_cons_of_mem _ (List.mem_cons_of_mem _ h))
    cases fuel with
    | zero => simp at hfuel
    | succ fuel =>
      have htail := ih hrest (show us.length < fuel by simp at hfuel; omega)
      rw [List.flatMap_cons, List.flatMap_cons, List.append_assoc, List.append_assoc,
        readString, if_neg (head_unitText _ _), readRune_pair hu hlow hpair, decodeUnits,
        if_pos hpair]
      simp only [Option.bind_eq_bind, Option.bind_some]
      rw [htail]
      rfl
  | case4 u low us hpair ih =>
    have hu := hus u List.mem_cons_self
    have hlow := hus low (List.mem_cons_of_mem _ List.mem_cons_self)
    have hread := readRune_single hu ((low :: us).flatMap unitText ++ '"' :: rest)
      (fun hhigh n rest' h => by
        rw [List.flatMap_cons, List.append_assoc] at h
        rw [(readUnicode_unitText hlow h).1]
        by_contra hn
        rw [Bool.not_eq_false] at hn
        exact hpair ⟨hhigh, hn⟩)
    cases fuel with
    | zero => simp at hfuel
    | succ fuel =>
      have htail := ih (fun u' h => hus u' (List.mem_cons_of_mem _ h))
        (show (low :: us).length < fuel by simpa using hfuel)
      rw [List.flatMap_cons, List.append_assoc, readString, if_neg (head_unitText _ _), hread,
        decodeUnits, if_neg hpair]
      simp only [Option.bind_eq_bind, Option.bind_some]
      rw [htail]
      rfl

theorem length_le_flatMap_unitText (us : List Nat) : us.length ≤ (us.flatMap unitText).length := by
  induction us with
  | nil => simp
  | cons u us ih =>
    have hone := one_le_length_unitText u
    simp only [List.length_cons, List.flatMap_cons, List.length_append]
    omega

theorem readQuoted_dumps (s : PyString) (rest : Text) :
    readQuoted (dumps s ++ rest) = some (received s, rest) := by
  have hlen := length_le_flatMap_unitText (s.flatMap units)
  simp only [readQuoted, dumps, List.cons_append, List.head?_cons, if_true, List.tail_cons,
    List.append_assoc, List.nil_append]
  refine readString_units _ (flatMap_units_lt s) rest ?_
  rw [List.length_cons, List.length_append]
  omega

theorem IsValue.dumps (s : PyString) : IsValue (dumps s) where
  skips fuel rest hfuel _ := by
    cases fuel with
    | zero => simp at hfuel
    | succ fuel =>
      have hread := readQuoted_dumps s rest
      have hhead : (Json.dumps s ++ rest).head? = some '"' := rfl
      simp only [skip, hhead, hread, Option.map_some]
  starts := ⟨'"', _, rfl, by decide, by decide, by decide⟩

theorem stringValue_dumps (held : String) (s : PyString) :
    stringValue held (dumps s) = some (String.ofList (received s)) := by
  have hread := readQuoted_dumps s []
  rw [List.append_nil] at hread
  have hnull : dumps s ≠ nullText := by
    intro h
    exact absurd (List.cons.inj h).1 (by decide)
  rw [stringValue, if_neg hnull, unquote, hread]
  rfl

/-- What is ASCII comes back as it was. -/
theorem received_ascii {s : PyString} (h : ∀ n ∈ s, n < 0x80) : received s = s.map Char.ofNat := by
  have hunits : s.flatMap units = s := by
    induction s with
    | nil => rfl
    | cons n s ih =>
      have hn := h n List.mem_cons_self
      rw [List.flatMap_cons, ih fun n' h' => h n' (List.mem_cons_of_mem _ h'), units,
        if_pos (by omega)]
      rfl
  rw [received, hunits]
  clear hunits
  induction s using decodeUnits.induct with
  | case1 => rfl
  | case2 u =>
    have hu := h u List.mem_cons_self
    rw [decodeUnits, single_of_lt (by omega)]
    rfl
  | case3 u low us hpair =>
    have hu := h u List.mem_cons_self
    have hge := le_of_isHighSurrogate hpair.1
    omega
  | case4 u low us hpair ih =>
    have hu := h u List.mem_cons_self
    rw [decodeUnits, if_neg hpair, ih fun n h' => h n (List.mem_cons_of_mem _ h'),
      single_of_lt (by omega)]
    rfl

/-! ## Numbers of any size -/

/-- A number that does not fit 64 bits is not parsed. -/
theorem parseUint_natText_of_le {n : Nat} (h : 2 ^ 64 ≤ n) : (parseUint (natText n)).2 = false := by
  have hvalue : Nat.ofDigitChars 10 (natText n) 0 = n := Nat.ofDigitChars_ten_toDigits
  unfold parseUint
  split
  · rfl
  · rw [if_neg (by omega)]

theorem parseInt_intText_of_le {n : Int} (h : 2 ^ 64 ≤ n.natAbs) : parseInt (intText n) = none := by
  cases n with
  | ofNat n =>
    obtain ⟨d, ds, hds, hd⟩ := natText_cons n
    have hminus : (natText n).head? ≠ some '-' := by
      rw [hds, List.head?_cons, ne_eq, Option.some.injEq]
      rintro rfl
      simp at hd
    have hparse := parseUint_natText_of_le (show 2 ^ 64 ≤ n from h)
    simp [parseInt, intText, hminus, hparse]
  | negSucc n =>
    have hparse := parseUint_natText_of_le (show 2 ^ 64 ≤ n + 1 from h)
    simp [parseInt, intText, hparse]

/-- A number is read exactly if it is within the limits of the type. -/
theorem intValue_eq {lo hi : Int} (hlo : -2 ^ 64 < lo) (hhi : hi < 2 ^ 64) (held n : Int) :
    intValue lo hi held (intText n) = if lo ≤ n ∧ n ≤ hi then some n else none := by
  rw [intValue, if_neg (intText_ne_null n)]
  by_cases hn : n.natAbs < 2 ^ 64
  · rw [parseInt_intText hn]
    rfl
  · rw [parseInt_intText_of_le (not_lt.mp hn), if_neg (by omega)]
    rfl

/-! ## Truth values -/

def boolText (b : Bool) : Text := if b then "true".toList else "false".toList

def boolValue (held : Bool) (raw : Text) : Option Bool :=
  if raw = nullText then some held
  else if raw = "true".toList then some true
  else if raw = "false".toList then some false
  else none

theorem boolValue_boolText (held b : Bool) : boolValue held (boolText b) = some b := by
  cases b with
  | false | true => rfl

theorem IsValue.bool (b : Bool) : IsValue (boolText b) := by
  cases b with
  | false =>
    constructor
    · intro fuel rest hfuel _
      cases fuel with
      | zero => simp at hfuel
      | succ fuel => rfl
    · exact ⟨'f', "alse".toList, rfl, by decide, by decide, by decide⟩
  | true =>
    constructor
    · intro fuel rest hfuel _
      cases fuel with
      | zero => simp at hfuel
      | succ fuel => rfl
    · exact ⟨'t', "rue".toList, rfl, by decide, by decide, by decide⟩

end RogiCollector.Verified.Json
