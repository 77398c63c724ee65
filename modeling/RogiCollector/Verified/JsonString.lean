import Mathlib.Algebra.GroupWithZero.Nat
import RogiCollector.Verified.Utf8

/-!
# JSON strings

How `encoding/json` of Go writes a byte string and reads it back.  Quotation
marks, backslashes, control characters, `<`, `>`, `&`, U+2028 and U+2029 are
escaped, everything else stands for itself.  An invalid byte becomes U+FFFD;
whether that is written as the six characters `\ufffd` or as the character
itself is a parameter, since the documentation leaves it open.

Reading accepts every escape, pairs of surrogates included, and puts U+FFFD for
a surrogate that has no partner.

## Main definitions

* `quote`, `readString` — writing and reading.
* `escapesNul` — whether a text contains the escape of U+0000.
-/

namespace RogiCollector.Verified.Json

/-- JSON text. -/
abbrev Text := List Char

/-- The length of a text in bytes. -/
def size (t : Text) : Nat := (utf8 t).length

@[simp] theorem size_nil : size [] = 0 := rfl

@[simp] theorem size_cons (c : Char) (t : Text) : size (c :: t) = c.utf8Size + size t := by
  simp [size]

@[simp] theorem size_append (t t' : Text) : size (t ++ t') = size t + size t' := by
  simp [size, utf8]

/-! ## Writing -/

/-- `\uXXXX`. -/
def unicodeEscape (n : Nat) : Text :=
  ['\\', 'u', Nat.digitChar (n / 4096 % 16), Nat.digitChar (n / 256 % 16),
    Nat.digitChar (n / 16 % 16), Nat.digitChar (n % 16)]

/-- The characters with an escape of one letter. -/
def shortEscapes : List (Char × Char) :=
  [('"', '"'), ('\\', '\\'), ('\x08', 'b'), ('\x0c', 'f'), ('\n', 'n'), ('\r', 'r'), ('\t', 't')]

/-- What has no short escape and still must not stand for itself. -/
def needsUnicodeEscape (c : Char) : Bool :=
  c.toNat < 0x20 ∨ c = '<' ∨ c = '>' ∨ c = '&' ∨ c.toNat = 0x2028 ∨ c.toNat = 0x2029

/-- One character inside a string. -/
def escape (c : Char) : Text :=
  match shortEscapes.lookup c with
  | some letter => ['\\', letter]
  | none => if needsUnicodeEscape c then unicodeEscape c.toNat else [c]

/-- One rune; `escaped` says how the replacement of an invalid byte is written. -/
def quoteRune (escaped : Bool) : Option Char → Text
  | some c => escape c
  | none => if escaped then unicodeEscape replacementRune.toNat else [replacementRune]

def quote (escaped : Bool) (s : List (Option Char)) : Text :=
  '"' :: (s.flatMap (quoteRune escaped) ++ ['"'])

/-! ## Reading -/

def hexVal (c : Char) : Option Nat :=
  if '0' ≤ c ∧ c ≤ '9' then some (c.toNat - '0'.toNat)
  else if 'a' ≤ c ∧ c ≤ 'f' then some (c.toNat - 'a'.toNat + 10)
  else if 'A' ≤ c ∧ c ≤ 'F' then some (c.toNat - 'A'.toNat + 10)
  else none

/-- The digits of `\uXXXX`. -/
def hex4 (a b c d : Char) : Option Nat := do
  let a ← hexVal a
  let b ← hexVal b
  let c ← hexVal c
  let d ← hexVal d
  return ((a * 16 + b) * 16 + c) * 16 + d

/-- A `\uXXXX` at the head of a text. -/
def readUnicode : Text → Option (Nat × Text)
  | '\\' :: 'u' :: a :: b :: c :: d :: rest => (hex4 a b c d).map (·, rest)
  | _ => none

def isHighSurrogate (n : Nat) : Bool := 0xD800 ≤ n ∧ n < 0xDC00

def isLowSurrogate (n : Nat) : Bool := 0xDC00 ≤ n ∧ n < 0xE000

/-- What the number of a `\uXXXX` stands for, given the text behind it. -/
def joinSurrogates (n : Nat) (rest : Text) : Char × Text :=
  if isHighSurrogate n then
    match readUnicode rest with
    | some (low, rest') =>
      if isLowSurrogate low then
        (Char.ofNat (0x10000 + (n - 0xD800) * 0x400 + (low - 0xDC00)), rest')
      else (replacementRune, rest)
    | none => (replacementRune, rest)
  else if isLowSurrogate n then (replacementRune, rest)
  else (Char.ofNat n, rest)

/-- What a letter behind a backslash stands for. -/
def shortUnescapes : List (Char × Char) :=
  ('/', '/') :: shortEscapes.map Prod.swap

/-- One character of a string that has not ended. -/
def readRune : Text → Option (Char × Text)
  | [] => none
  | '\\' :: rest =>
    match readUnicode ('\\' :: rest) with
    | some (n, rest') => some (joinSurrogates n rest')
    | none =>
      match rest with
      | [] => none
      | letter :: rest' => (shortUnescapes.lookup letter).map (·, rest')
  | c :: rest => if c.toNat < 0x20 then none else some (c, rest)

/-- The string whose opening quotation mark was read, and the text behind its
end.  A character of the string takes at least one of the text, so the length
of the text bounds the number of rounds. -/
def readString : Nat → Text → Option (Text × Text)
  | 0, _ => none
  | fuel + 1, text =>
    if text.head? = some '"' then some ([], text.tail)
    else do
      let (c, rest) ← readRune text
      let (s, rest) ← readString fuel rest
      return (c :: s, rest)

/-! ## Reading what was written -/

variable {n : Nat}

theorem hexVal_digitChar (h : n < 16) : hexVal (Nat.digitChar n) = some n := by
  revert n
  decide

theorem readUnicode_unicodeEscape (h : n < 0x10000) (rest : Text) :
    readUnicode (unicodeEscape n ++ rest) = some (n, rest) := by
  simp only [unicodeEscape, List.cons_append, List.nil_append, readUnicode, hex4,
    hexVal_digitChar (Nat.mod_lt _ (by decide : 0 < 16)), Option.bind_eq_bind, Option.bind_some,
    Option.pure_def, Option.map_some]
  congr 2
  omega

/-- A character is not a surrogate: the number is its own. -/
theorem joinSurrogates_toNat (c : Char) (rest : Text) :
    joinSurrogates c.toNat rest = (c, rest) := by
  have hvalid : c.toNat < 0xD800 ∨ (0xDFFF < c.toNat ∧ c.toNat < 0x110000) := c.valid
  have hhigh : isHighSurrogate c.toNat = false := by
    simp only [isHighSurrogate, decide_eq_false_iff_not]
    omega
  have hlow : isLowSurrogate c.toNat = false := by
    simp only [isLowSurrogate, decide_eq_false_iff_not]
    omega
  simp [joinSurrogates, hhigh, hlow]

variable {c : Char}

theorem readRune_unicodeEscape (h : c.toNat < 0x10000) (rest : Text) :
    readRune (unicodeEscape c.toNat ++ rest) = some (c, rest) := by
  have hread := readUnicode_unicodeEscape h rest
  simp only [unicodeEscape, List.cons_append, List.nil_append] at hread ⊢
  simp only [readRune, hread, joinSurrogates_toNat]

/-- The characters that have a short escape. -/
theorem shortEscapes_cases {letter : Char} (h : shortEscapes.lookup c = some letter) :
    (c, letter) ∈ shortEscapes := by
  obtain ⟨l1, l2, hl, -⟩ := List.lookup_eq_some_iff.mp h
  rw [hl]
  exact List.mem_append_right _ List.mem_cons_self

/-- The numbers written as `\uXXXX`. -/
theorem toNat_lt_of_needsUnicodeEscape (h : needsUnicodeEscape c = true) : c.toNat < 0x10000 := by
  simp only [needsUnicodeEscape, decide_eq_true_eq] at h
  rcases h with h | rfl | rfl | rfl | h | h
  · omega
  · decide
  · decide
  · decide
  · omega
  · omega

/-- How a character is written. -/
inductive Escapes (c : Char) : Text → Prop
  | short {letter : Char} (hmem : (c, letter) ∈ shortEscapes) : Escapes c ['\\', letter]
  | unicode (hneeds : needsUnicodeEscape c = true) : Escapes c (unicodeEscape c.toNat)
  | plain (hquote : c ≠ '"') (hback : c ≠ '\\') (hneeds : needsUnicodeEscape c = false) :
      Escapes c [c]

theorem escapes_escape (c : Char) : Escapes c (escape c) := by
  unfold escape
  cases hshort : shortEscapes.lookup c with
  | some letter => exact .short (shortEscapes_cases hshort)
  | none =>
    have hlookup : ∀ c', shortEscapes.lookup c' ≠ none → c ≠ c' := by
      rintro c' hc' rfl
      exact hc' hshort
    cases hneeds : needsUnicodeEscape c with
    | true => exact .unicode hneeds
    | false => exact .plain (hlookup _ (by decide)) (hlookup _ (by decide)) hneeds

theorem readRune_escape (c : Char) (rest : Text) :
    readRune (escape c ++ rest) = some (c, rest) := by
  have hescapes := escapes_escape c
  generalize escape c = text at hescapes ⊢
  cases hescapes with
  | short hmem =>
    simp only [shortEscapes, List.mem_cons, Prod.mk.injEq, List.not_mem_nil, or_false] at hmem
    rcases hmem with ⟨rfl, rfl⟩ | ⟨rfl, rfl⟩ | ⟨rfl, rfl⟩ | ⟨rfl, rfl⟩ | ⟨rfl, rfl⟩ |
      ⟨rfl, rfl⟩ | ⟨rfl, rfl⟩ <;> rfl
  | unicode hneeds => exact readRune_unicodeEscape (toNat_lt_of_needsUnicodeEscape hneeds) rest
  | plain _ hback hneeds =>
    have hctl : ¬c.toNat < 0x20 := by
      intro h
      simp [needsUnicodeEscape, h] at hneeds
    simp [readRune, hctl]

/-- A rune is read back, an invalid byte as U+FFFD. -/
theorem readRune_quoteRune (escaped : Bool) (r : Option Char) (rest : Text) :
    readRune (quoteRune escaped r ++ rest) = some (r.getD replacementRune, rest) := by
  cases r with
  | some c => exact readRune_escape c rest
  | none =>
    cases escaped with
    | true => exact readRune_unicodeEscape (by decide) rest
    | false => rfl

/-- A rune does not look like the end of the string. -/
theorem head_quoteRune (escaped : Bool) (r : Option Char) (rest : Text) :
    (quoteRune escaped r ++ rest).head? ≠ some '"' := by
  cases r with
  | some c =>
    have hescapes := escapes_escape c
    rw [quoteRune]
    generalize escape c = text at hescapes ⊢
    cases hescapes with
    | short | unicode => simp [unicodeEscape]
    | plain hquote => simp [hquote]
  | none => cases escaped <;> simp [quoteRune, unicodeEscape, replacementRune]

/-- The body of a written string is read back. -/
theorem readString_body (escaped : Bool) (s : List (Option Char)) (rest : Text) {fuel : Nat}
    (hfuel : s.length < fuel) :
    readString fuel (s.flatMap (quoteRune escaped) ++ '"' :: rest) =
      some (s.map fun r => r.getD replacementRune, rest) := by
  induction s generalizing fuel with
  | nil =>
    cases fuel with
    | zero => simp at hfuel
    | succ fuel => simp [readString]
  | cons r s ih =>
    cases fuel with
    | zero => simp at hfuel
    | succ fuel =>
      rw [List.flatMap_cons, List.append_assoc, readString, if_neg (head_quoteRune _ _ _),
        readRune_quoteRune]
      simp only [Option.bind_eq_bind, Option.bind_some]
      rw [ih (by simpa using hfuel)]
      rfl

/-! ## Escaped zeros -/

/-- The text contains the escape of U+0000.  A backslash takes the character
behind it along, so that an escaped backslash starts no escape. -/
def escapesNul : Text → Bool
  | [] => false
  | '\\' :: rest =>
    rest.take 5 = ['u', '0', '0', '0', '0'] ||
      match rest with
      | [] => false
      | _ :: rest' => escapesNul rest'
  | _ :: rest => escapesNul rest

theorem escapesNul_cons (h : c ≠ '\\') (rest : Text) :
    escapesNul (c :: rest) = escapesNul rest := by
  simp [escapesNul]

theorem digitChar_ne_backslash (h : n < 16) : Nat.digitChar n ≠ '\\' := by
  revert n
  decide

theorem digitChar_eq_zero (h : n < 16) : Nat.digitChar n = '0' ↔ n = 0 := by
  revert n
  decide

theorem escapesNul_unicodeEscape (h : n < 0x10000) (rest : Text) :
    escapesNul (unicodeEscape n ++ rest) = (decide (n = 0) || escapesNul rest) := by
  have hmod : ∀ m : Nat, m % 16 < 16 := fun m => Nat.mod_lt m (by decide)
  have hdigit : ∀ (m : Nat) (rest : Text),
      escapesNul (Nat.digitChar (m % 16) :: rest) = escapesNul rest :=
    fun m rest => escapesNul_cons (digitChar_ne_backslash (hmod m)) rest
  simp only [unicodeEscape, List.cons_append, List.nil_append, escapesNul, hdigit]
  congr 1
  simp only [List.take_succ_cons, List.take_zero, List.cons.injEq, digitChar_eq_zero (hmod _),
    true_and, and_true, decide_eq_decide]
  omega

theorem escapesNul_quoteRune (escaped : Bool) (r : Option Char) (rest : Text) :
    escapesNul (quoteRune escaped r ++ rest) = (decide (r = some '\x00') || escapesNul rest) := by
  cases r with
  | none =>
    cases escaped with
    | true => exact escapesNul_unicodeEscape (by decide) rest
    | false => exact escapesNul_cons (by decide) rest
  | some c =>
    have hescapes := escapes_escape c
    rw [quoteRune]
    generalize escape c = text at hescapes ⊢
    cases hescapes with
    | short hmem =>
      simp only [shortEscapes, List.mem_cons, Prod.mk.injEq, List.not_mem_nil, or_false] at hmem
      rcases hmem with ⟨rfl, rfl⟩ | ⟨rfl, rfl⟩ | ⟨rfl, rfl⟩ | ⟨rfl, rfl⟩ | ⟨rfl, rfl⟩ |
        ⟨rfl, rfl⟩ | ⟨rfl, rfl⟩ <;> simp [escapesNul]
    | unicode hneeds =>
      have hzero : c.toNat = '\x00'.toNat ↔ c = '\x00' := Char.toNat_inj
      rw [escapesNul_unicodeEscape (toNat_lt_of_needsUnicodeEscape hneeds)]
      simp only [Option.some.injEq, ← hzero]
      rfl
    | plain _ hback hneeds =>
      have hnul : c ≠ '\x00' := by
        rintro rfl
        simp [needsUnicodeEscape] at hneeds
      simp [escapesNul_cons hback, hnul]

/-- A written string escapes U+0000 exactly where it contains it. -/
theorem escapesNul_quote (escaped : Bool) (s : List (Option Char)) (rest : Text) :
    escapesNul (quote escaped s ++ rest) = (decide (some '\x00' ∈ s) || escapesNul rest) := by
  have hbody : ∀ s : List (Option Char), escapesNul (s.flatMap (quoteRune escaped) ++ '"' :: rest) =
      (decide (some '\x00' ∈ s) || escapesNul rest) := by
    intro s
    induction s with
    | nil => simp [escapesNul]
    | cons r s ih =>
      rw [List.flatMap_cons, List.append_assoc, escapesNul_quoteRune, ih]
      simp [Bool.or_assoc, eq_comm]
  rw [quote, List.cons_append, escapesNul_cons (by decide), List.append_assoc]
  exact hbody s

/-! ## Text that stands for invalid bytes -/

/-- Where U+FFFD is written as itself, an invalid byte cannot be told from it. -/
theorem quote_false_replaced (s : List (Option Char)) :
    quote false (s.map fun r => some (r.getD replacementRune)) = quote false s := by
  have hrune : ∀ r, quoteRune false (some (r.getD replacementRune)) = quoteRune false r := by
    intro r
    cases r with
    | none => decide
    | some c => rfl
  simp only [quote, List.flatMap_map, hrune]

/-- Where it is written as an escape, an invalid byte takes five characters more
than U+FFFD. -/
theorem length_quote_true (s : List (Option Char)) :
    (quote true s).length =
      (quote true (s.map fun r => some (r.getD replacementRune))).length + 5 * s.count none := by
  have hbody : ∀ s : List (Option Char), (s.flatMap (quoteRune true)).length =
      ((s.map fun r => some (r.getD replacementRune)).flatMap (quoteRune true)).length +
        5 * s.count none := by
    intro s
    induction s with
    | nil => rfl
    | cons r s ih =>
      cases r with
      | none =>
        have hescape : (quoteRune true none).length =
            (quoteRune true (some replacementRune)).length + 5 := by decide
        simp only [List.flatMap_cons, List.map_cons, List.length_append, Option.getD_none,
          List.count_cons_self]
        omega
      | some c =>
        have hcount : (some c :: s).count none = s.count none :=
          List.count_cons_of_ne (by simp)
        simp only [List.flatMap_cons, List.map_cons, List.length_append, Option.getD_some,
          hcount]
        omega
  have hs := hbody s
  simp only [quote, List.length_cons, List.length_append]
  omega

/-! ## Sizes -/

theorem utf8Size_digitChar (h : n < 16) : (Nat.digitChar n).utf8Size = 1 := by
  revert n
  decide

theorem size_unicodeEscape (n : Nat) : size (unicodeEscape n) = 6 := by
  have hmod : ∀ m : Nat, m % 16 < 16 := fun m => Nat.mod_lt m (by decide)
  simp [unicodeEscape, utf8Size_digitChar (hmod _)]
  decide

/-- The bytes a rune was read from. -/
def runeWidth : Option Char → Nat
  | some c => c.utf8Size
  | none => 1

theorem size_quoteRune_le (escaped : Bool) (r : Option Char) :
    size (quoteRune escaped r) ≤ 6 * runeWidth r := by
  cases r with
  | none => cases escaped <;> decide
  | some c =>
    have hpos := Char.utf8Size_pos c
    have hescapes := escapes_escape c
    simp only [quoteRune, runeWidth]
    generalize escape c = text at hescapes ⊢
    cases hescapes with
    | short hmem =>
      have hsize : ∀ m ∈ shortEscapes, size ['\\', m.2] = 2 := by decide
      rw [hsize _ hmem]
      omega
    | unicode =>
      rw [size_unicodeEscape]
      omega
    | plain =>
      rw [size_cons, size_nil]
      omega

theorem sum_runeWidth (b : Bytes) : ((runes b).map runeWidth).sum = b.length := by
  induction b using rune_induction with
  | nil => rfl
  | char c rest ih => simp [runeWidth, ih]
  | invalid b rest hb ih => simp [runes_invalid hb, runeWidth, ih, Nat.add_comm]

/-- A character that stands for itself and takes one byte. -/
def Plain (c : Char) : Prop := escape c = [c] ∧ c.utf8Size = 1

instance (c : Char) : Decidable (Plain c) := inferInstanceAs (Decidable (_ ∧ _))

theorem plain_of_between {lo hi : Char}
    (h : (List.range' lo.toNat (hi.toNat + 1 - lo.toNat)).all
      (fun n => decide (Plain (Char.ofNat n))) = true)
    (hlo : lo ≤ c) (hhi : c ≤ hi) : Plain c := by
  have hlo' : lo.toNat ≤ c.toNat := hlo
  have hhi' : c.toNat ≤ hi.toNat := hhi
  have hmem : c.toNat ∈ List.range' lo.toNat (hi.toNat + 1 - lo.toNat) :=
    List.mem_range'_1.mpr ⟨hlo', by omega⟩
  have hplain := of_decide_eq_true (List.all_eq_true.mp h _ hmem)
  rwa [Char.ofNat_toNat] at hplain

/-- Hexadecimal digits are plain. -/
theorem plain_of_hexDigit (h : ('0' ≤ c ∧ c ≤ '9') ∨ ('a' ≤ c ∧ c ≤ 'f') ∨ ('A' ≤ c ∧ c ≤ 'F')) :
    Plain c := by
  rcases h with ⟨hlo, hhi⟩ | ⟨hlo, hhi⟩ | ⟨hlo, hhi⟩ <;> exact plain_of_between (by decide) hlo hhi

theorem size_quote_plain (escaped : Bool) {cs : List Char} (h : ∀ c ∈ cs, Plain c) :
    size (quote escaped (cs.map some)) = cs.length + 2 := by
  have hbody : size ((cs.map some).flatMap (quoteRune escaped)) = cs.length := by
    induction cs with
    | nil => rfl
    | cons c cs ih =>
      have hc := h c List.mem_cons_self
      rw [List.map_cons, List.flatMap_cons, size_append,
        ih fun c' hc' => h c' (List.mem_cons_of_mem c hc'), quoteRune, hc.1, size_cons, hc.2,
        size_nil, List.length_cons]
      omega
  have hquote : '"'.utf8Size = 1 := by decide
  rw [quote, size_cons, size_append, hbody, size_cons, size_nil, hquote]
  omega

/-- A byte takes at most six bytes in a string. -/
theorem size_quote_le (escaped : Bool) (b : Bytes) :
    size (quote escaped (runes b)) ≤ 6 * b.length + 2 := by
  have hbody : ∀ s : List (Option Char),
      size (s.flatMap (quoteRune escaped)) ≤ 6 * (s.map runeWidth).sum := by
    intro s
    induction s with
    | nil => simp
    | cons r s ih =>
      have hr := size_quoteRune_le escaped r
      simp only [List.flatMap_cons, size_append, List.map_cons, List.sum_cons]
      omega
  have hsum := hbody (runes b)
  have hquote : '"'.utf8Size = 1 := by decide
  rw [sum_runeWidth] at hsum
  simp only [quote, size_cons, size_append, size_nil, hquote]
  omega

end RogiCollector.Verified.Json
