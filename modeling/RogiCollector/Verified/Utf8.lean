import Mathlib.Data.String.Basic
import Mathlib.Data.List.Induction

/-!
# Byte strings and their runes

A string of a language like Go is any sequence of bytes.  Reading it rune by
rune yields, at each position, the character encoded there or, where no valid
encoding starts, one invalid byte; what consumes such a string usually puts
U+FFFD in the place of an invalid byte.

Encoding and decoding of one character are core Lean's
(`String.utf8EncodeChar`, `ByteArray.utf8DecodeChar?`): shortest form only, no
surrogates, nothing above U+10FFFF.

## Main definitions

* `runes` — the characters and invalid bytes of a byte string.
* `lossy` — its text, with U+FFFD for every invalid byte.
-/

namespace RogiCollector.Verified

/-- A byte string. -/
abbrev Bytes := List UInt8

/-- U+FFFD. -/
def replacementRune : Char := '�'

/-! ## Encoding and decoding -/

/-- The encoding of a text. -/
def utf8 (cs : List Char) : Bytes := cs.flatMap String.utf8EncodeChar

@[simp] theorem utf8_nil : utf8 [] = [] := rfl

@[simp] theorem utf8_cons (c : Char) (cs : List Char) :
    utf8 (c :: cs) = String.utf8EncodeChar c ++ utf8 cs := rfl

/-- The character encoded at the head of a byte string. -/
def decodeRune (b : Bytes) : Option Char := b.toByteArray.utf8DecodeChar? 0

theorem decodeRune_encode_append (c : Char) (rest : Bytes) :
    decodeRune (String.utf8EncodeChar c ++ rest) = some c := by
  rw [decodeRune, List.toByteArray_append]
  exact ByteArray.utf8DecodeChar?_utf8EncodeChar_append

variable {b : Bytes}

/-- A list of bytes is determined by its array. -/
theorem toByteArray_injective {b' : Bytes} (h : b.toByteArray = b'.toByteArray) : b = b' := by
  have hdata := congrArg ByteArray.data h
  simpa [List.data_toByteArray] using hdata

theorem decodeRune_eq_some {c : Char} (h : decodeRune b = some c) :
    ∃ rest, b = String.utf8EncodeChar c ++ rest := by
  obtain ⟨l, hl⟩ := ByteArray.exists_of_utf8DecodeChar?_eq_some h
  refine ⟨l.data.toList, toByteArray_injective ?_⟩
  rw [hl, List.toByteArray_append]
  congr 1
  exact ByteArray.ext (by simp [List.data_toByteArray])

theorem length_encode (c : Char) : (String.utf8EncodeChar c).length = c.utf8Size :=
  String.length_utf8EncodeChar c

/-- An encoding is not empty. -/
theorem encode_eq_cons (c : Char) : ∃ b rest, String.utf8EncodeChar c = b :: rest := by
  have hpos := Char.utf8Size_pos c
  rw [← length_encode] at hpos
  exact List.exists_cons_of_length_pos hpos

theorem zero_eq_ofNat {n : Nat} (h : n < 256) : (0 : UInt8) = UInt8.ofNat n ↔ n = 0 := by
  rw [← UInt8.toNat_inj, UInt8.toNat_ofNat_of_lt' h]
  exact eq_comm

/-- Only U+0000 contains the byte zero. -/
theorem zero_mem_encode (c : Char) : 0 ∈ String.utf8EncodeChar c ↔ c = '\x00' := by
  have hchar : c = '\x00' ↔ c.val.toNat = 0 := Char.toNat_inj.symm
  rw [hchar]
  unfold String.utf8EncodeChar
  dsimp only
  -- One case for each length of the encoding; a leading or continuation byte is not zero.
  split
  · rw [List.mem_singleton, zero_eq_ofNat (by omega)]
  split
  · simp only [List.mem_cons, List.not_mem_nil, or_false]
    rw [zero_eq_ofNat (by omega), zero_eq_ofNat (by omega)]
    omega
  split
  · simp only [List.mem_cons, List.not_mem_nil, or_false]
    rw [zero_eq_ofNat (by omega), zero_eq_ofNat (by omega), zero_eq_ofNat (by omega)]
    omega
  · simp only [List.mem_cons, List.not_mem_nil, or_false]
    rw [zero_eq_ofNat (by omega), zero_eq_ofNat (by omega), zero_eq_ofNat (by omega),
      zero_eq_ofNat (by omega)]
    omega

/-! ## Runes -/

/-- The runes of a byte string whose first `skip` bytes belong to a character
that was read before. -/
def runesSkipping : Nat → Bytes → List (Option Char)
  | _, [] => []
  | skip + 1, _ :: rest => runesSkipping skip rest
  | 0, b :: rest =>
    match decodeRune (b :: rest) with
    | some c => some c :: runesSkipping (c.utf8Size - 1) rest
    | none => none :: runesSkipping 0 rest

/-- The runes of a byte string, `none` for an invalid byte. -/
def runes (b : Bytes) : List (Option Char) := runesSkipping 0 b

theorem runesSkipping_eq (skip : Nat) (b : Bytes) : runesSkipping skip b = runes (b.drop skip) := by
  induction b generalizing skip with
  | nil => cases skip <;> rfl
  | cons b rest ih =>
    cases skip with
    | zero => rfl
    | succ skip => exact ih skip

@[simp] theorem runes_nil : runes [] = [] := rfl

@[simp] theorem runes_encode_append (c : Char) (rest : Bytes) :
    runes (String.utf8EncodeChar c ++ rest) = some c :: runes rest := by
  have hdecode := decodeRune_encode_append c rest
  have hlen := length_encode c
  obtain ⟨b, tail, hencode⟩ := encode_eq_cons c
  rw [hencode] at hdecode hlen ⊢
  rw [List.cons_append] at hdecode ⊢
  simp only [runes, runesSkipping, hdecode]
  rw [runesSkipping_eq, ← hlen]
  simp [runes]

theorem runes_invalid {b : UInt8} {rest : Bytes} (h : decodeRune (b :: rest) = none) :
    runes (b :: rest) = none :: runes rest := by
  simp only [runes, runesSkipping, h]

/-- Induction along the runes of a byte string. -/
theorem rune_induction {P : Bytes → Prop} (nil : P [])
    (char : ∀ c rest, P rest → P (String.utf8EncodeChar c ++ rest))
    (invalid : ∀ b rest, decodeRune (b :: rest) = none → P rest → P (b :: rest)) (b : Bytes) :
    P b := by
  induction hn : b.length using Nat.strong_induction_on generalizing b with
  | _ n ih =>
    cases b with
    | nil => exact nil
    | cons b rest =>
      cases hdecode : decodeRune (b :: rest) with
      | none => exact invalid b rest hdecode (ih rest.length (by simp [← hn]) rest rfl)
      | some c =>
        obtain ⟨rest', hrest'⟩ := decodeRune_eq_some hdecode
        have hlen := congrArg List.length hrest'
        rw [List.length_append, length_encode, hn] at hlen
        have hpos := Char.utf8Size_pos c
        rw [hrest']
        exact char c rest' (ih rest'.length (by omega) rest' rfl)

@[simp] theorem runes_utf8 (cs : List Char) : runes (utf8 cs) = cs.map some := by
  induction cs with
  | nil => rfl
  | cons c cs ih => simp [ih]

/-- U+0000 is the byte zero and nothing else. -/
theorem zero_mem_iff (b : Bytes) : 0 ∈ b ↔ some '\x00' ∈ runes b := by
  induction b using rune_induction with
  | nil => simp
  | char c rest ih => simp [zero_mem_encode, ih, eq_comm]
  | invalid b rest h ih =>
    have hne : b ≠ 0 := by
      rintro rfl
      have hzero := decodeRune_encode_append '\x00' rest
      rw [show String.utf8EncodeChar '\x00' = [0] from rfl, List.singleton_append, h] at hzero
      contradiction
    simp [runes_invalid h, ih, Ne.symm hne]

/-! ## Text -/

/-- The text of a byte string, with U+FFFD for every invalid byte. -/
def lossy (b : Bytes) : List Char := (runes b).map fun r => r.getD replacementRune

@[simp] theorem lossy_utf8 (cs : List Char) : lossy (utf8 cs) = cs := by
  simp [lossy, Function.comp_def]

/-- Every byte belongs to a character. -/
def ValidUtf8 (b : Bytes) : Prop := none ∉ runes b

instance (b : Bytes) : Decidable (ValidUtf8 b) := inferInstanceAs (Decidable (none ∉ runes b))

/-- A valid byte string is the encoding of its text. -/
theorem ValidUtf8.utf8_lossy (h : ValidUtf8 b) : utf8 (lossy b) = b := by
  induction b using rune_induction with
  | nil => rfl
  | char c rest ih =>
    have hrest : ValidUtf8 rest := fun hmem => h (by simp [hmem])
    simpa [lossy] using ih hrest
  | invalid b rest hb ih => exact absurd (by simp [runes_invalid hb]) h

/-- The runes of a valid byte string are those of its text. -/
theorem ValidUtf8.runes_eq (h : ValidUtf8 b) : runes b = (lossy b).map some := by
  conv_lhs => rw [← h.utf8_lossy]
  exact runes_utf8 _

theorem length_utf8 (cs : List Char) : (utf8 cs).length = (String.ofList cs).utf8ByteSize := by
  induction cs with
  | nil => rfl
  | cons c cs ih => simp [ih]

theorem nul_mem_lossy (b : Bytes) : '\x00' ∈ lossy b ↔ 0 ∈ b := by
  rw [zero_mem_iff, lossy, List.mem_map]
  constructor
  · rintro ⟨r, hr, hnul⟩
    cases r with
    | none => simp [replacementRune] at hnul
    | some c => exact hnul ▸ hr
  · exact fun hr => ⟨_, hr, rfl⟩

theorem lossy_eq_nil (h : lossy b = []) : b = [] := by
  induction b using rune_induction with
  | nil => rfl
  | char c rest ih => simp [lossy] at h
  | invalid b rest hb ih => simp [lossy, runes_invalid hb] at h

/-- Digits take one byte each. -/
theorem length_utf8_digits {cs : List Char} (h : ∀ c ∈ cs, c.isDigit = true) :
    (utf8 cs).length = cs.length := by
  induction cs with
  | nil => rfl
  | cons c cs ih =>
    have hc : c.utf8Size = 1 := by
      have hdigit := h c List.mem_cons_self
      rw [Char.isDigit, Bool.and_eq_true, decide_eq_true_eq, decide_eq_true_eq] at hdigit
      rw [Char.utf8Size_eq_one_iff]
      exact UInt32.le_trans hdigit.2 (by decide)
    rw [utf8_cons, List.length_append, length_encode, hc, List.length_cons,
      ih fun c' hc' => h c' (List.mem_cons_of_mem c hc')]
    omega

theorem length_utf8_lossy_le (b : Bytes) : (utf8 (lossy b)).length ≤ 3 * b.length := by
  induction b using rune_induction with
  | nil => simp [lossy]
  | char c rest ih =>
    simp only [lossy, runes_encode_append, List.map_cons, Option.getD_some, utf8_cons,
      List.length_append] at ih ⊢
    omega
  | invalid b rest hb ih =>
    have hlen : (String.utf8EncodeChar replacementRune).length = 3 := by decide
    simp only [lossy, runes_invalid hb, List.map_cons, Option.getD_none, utf8_cons,
      List.length_append, List.length_cons, hlen] at ih ⊢
    omega

/-! ## Strings -/

def bytesOf (s : String) : Bytes := utf8 s.toList

def textOf (b : Bytes) : String := String.ofList (lossy b)

@[simp] theorem textOf_bytesOf (s : String) : textOf (bytesOf s) = s := by
  simp [textOf, bytesOf]

@[simp] theorem length_bytesOf (s : String) : (bytesOf s).length = s.utf8ByteSize := by
  rw [bytesOf, length_utf8, String.ofList_toList]

theorem zero_mem_bytesOf (s : String) : 0 ∈ bytesOf s ↔ '\x00' ∈ s.toList := by
  rw [bytesOf, ← nul_mem_lossy, lossy_utf8]

theorem nul_mem_textOf (b : Bytes) : '\x00' ∈ (textOf b).toList ↔ 0 ∈ b := by
  rw [textOf, String.toList_ofList, nul_mem_lossy]

theorem utf8ByteSize_textOf_le (b : Bytes) : (textOf b).utf8ByteSize ≤ 3 * b.length := by
  rw [textOf, ← length_utf8]
  exact length_utf8_lossy_le b

theorem textOf_eq_empty : textOf b = "" ↔ b = [] := by
  constructor
  · intro h
    have hnil : lossy b = [] := by simpa [textOf] using congrArg String.toList h
    exact lossy_eq_nil hnil
  · rintro rfl
    rfl

end RogiCollector.Verified
