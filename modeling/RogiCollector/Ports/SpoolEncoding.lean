import RogiCollector.Verified.JsonScan
import RogiCollector.Ports.JournalSchema

/-!
# What the spools take from the standard library

Both spools write their records as JSON with a checksum.  The form of the texts
is spelled out in `Verified`; here is what is left open of `encoding/json`,
`time` and `crypto/sha256`, and how a string and an instant of a record read
back.
-/

namespace RogiCollector.Ports.SpoolFile

open Verified
open Verified.Json
open Journal (Time)

/-- How U+FFFD is written for an invalid byte; the RFC 3339 text of an instant,
which reads back as this instant and which a year of five digits does not have;
and the hexadecimal SHA-256 of a text. -/
structure Encoding where
  escapesInvalid : Bool
  formatTime : Time → Option Text
  parseTime : Text → Option Time
  sha256Hex : Text → String
  parse_format : ∀ t s, formatTime t = some s → parseTime s = some t
  format_size : ∀ t s, formatTime t = some s → size s ≤ 35
  format_plain : ∀ t s, formatTime t = some s → '\x00' ∉ s
  sha256Hex_size : ∀ t, (sha256Hex t).utf8ByteSize = 64

variable (E : Encoding)

/-- A string with any bytes. -/
def Encoding.bytes (b : Bytes) : Text := quote E.escapesInvalid (runes b)

/-- A string that is text. -/
def Encoding.string (s : String) : Text := E.bytes (bytesOf s)

/-- The text of an instant has nothing to escape. -/
def Encoding.time (t : Time) : Option Text :=
  (E.formatTime t).map fun s => quote false (s.map some)

/-- `Time.UnmarshalJSON`. -/
def Encoding.timeValue (held : Time) (raw : Text) : Option Time :=
  if raw = nullText then some held else (unquote raw).bind E.parseTime

/-- PostgreSQL takes any text without U+0000 as a `text` parameter. -/
def textAccepts (s : String) : Bool := '\x00' ∉ s.toList

/-! ## Reading back -/

variable {E}

theorem Written.bytes (b : Bytes) : Written (E.bytes b) := Written.quote _ _

theorem escapesNul_bytes (b : Bytes) : escapesNul (E.bytes b) = decide (0 ∈ b) := by
  rw [Encoding.bytes, escapesNul_quote_eq, decide_eq_decide, zero_mem_iff]

theorem size_bytes_le (b : Bytes) : size (E.bytes b) ≤ 6 * b.length + 2 := size_quote_le _ b

@[simp] theorem stringValue_bytes (held : String) (b : Bytes) :
    stringValue held (E.bytes b) = some (textOf b) :=
  stringValue_quote held E.escapesInvalid (runes b)

theorem stringValue_string (held s : String) : stringValue held (E.string s) = some s := by
  rw [Encoding.string, stringValue_bytes, textOf_bytesOf]

theorem runes_bytesOf_textOf (b : Bytes) :
    runes (bytesOf (textOf b)) = (runes b).map fun r => some (r.getD replacementRune) := by
  rw [bytesOf, textOf, String.toList_ofList, runes_utf8, lossy, List.map_map]
  rfl

/-- Encoding a string's text again gives the same JSON if no invalid byte was
written as an escape. -/
theorem bytes_text_eq {b : Bytes} (h : E.escapesInvalid = false ∨ ValidUtf8 b) :
    E.bytes (bytesOf (textOf b)) = E.bytes b := by
  rw [Encoding.bytes, Encoding.bytes, runes_bytesOf_textOf]
  rcases h with hfalse | hvalid
  · rw [hfalse, quote_false_replaced]
  · rw [hvalid.runes_eq, List.map_map]
    rfl

/-- Otherwise it is shorter. -/
theorem length_bytes (h : E.escapesInvalid = true) (b : Bytes) :
    (E.bytes b).length = (E.bytes (bytesOf (textOf b))).length + 5 * (runes b).count none := by
  rw [Encoding.bytes, Encoding.bytes, runes_bytesOf_textOf, h]
  exact length_quote_true (runes b)

@[simp] theorem pointerValue_bytes (held : Option String) (b : Bytes) :
    pointerValue held (E.bytes b) = some (some (textOf b)) :=
  pointerValue_quote held E.escapesInvalid (runes b)

theorem stringsValue_bytes (held : List String) (bs : List Bytes) :
    stringsValue held (array (bs.map E.bytes)) = some (bs.map textOf) := by
  have h := stringsValue_array held E.escapesInvalid (bs.map runes)
  rw [List.map_map, List.map_map] at h
  exact h

/-- What is used of the text of an instant. -/
structure IsTime (E : Encoding) (t : Time) (v : Text) : Prop where
  written : Written v
  read : ∀ held, E.timeValue held v = some t
  plain : escapesNul v = false
  size_le : size v ≤ 212

theorem isTime {t : Time} {v : Text} (h : E.time t = some v) : IsTime E t v := by
  obtain ⟨s, hs, rfl⟩ := Option.map_eq_some_iff.mp h
  have hlen := E.format_size t s hs
  have hsize := size_quote_map_le false s
  refine ⟨Written.quote _ _, ?_, ?_, ?_⟩
  · intro held
    have hunquote := unquote_quote false (s.map some)
    simp only [List.map_map, Function.comp_def, Option.getD_some, List.map_id'] at hunquote
    rw [Encoding.timeValue, if_neg (quote_ne_null _ _), hunquote, Option.bind_some]
    exact E.parse_format t s hs
  · rw [escapesNul_quote_eq]
    simpa using E.format_plain t s hs
  · omega

/-! ## A stand-in -/

theorem size_padded (w n : Nat) : size (padded w n) = w := by
  induction w generalizing n with
  | zero => rfl
  | succ w ih =>
    have hdigit : (Nat.digitChar (n % 10)).utf8Size = 1 := utf8Size_digitChar (by omega)
    rw [padded, size_append, ih, size_cons, hdigit, size_nil]

/-- Times are numbers of at most eight digits, and a text is told from others by
its length. -/
def fixtureEncoding : Encoding where
  escapesInvalid := false
  formatTime := fun t => if t < 10 ^ 8 then some (natText t) else none
  parseTime := fun s => if (parseUint s).2 then some (parseUint s).1 else none
  sha256Hex := fun t => String.ofList (padded 64 t.length)
  parse_format := by
    intro t s h
    by_cases ht : t < 10 ^ 8
    · rw [if_pos ht] at h
      obtain rfl := Option.some.inj h
      rw [parseUint_natText (Nat.lt_trans ht (by decide))]
      rfl
    · rw [if_neg ht] at h
      contradiction
  format_size := by
    intro t s h
    by_cases ht : t < 10 ^ 8
    · rw [if_pos ht] at h
      obtain rfl := Option.some.inj h
      have hsize := size_natText_le (k := 8) (by decide) ht
      omega
    · rw [if_neg ht] at h
      contradiction
  format_plain := by
    intro t s h
    by_cases ht : t < 10 ^ 8
    · rw [if_pos ht] at h
      obtain rfl := Option.some.inj h
      exact fun hmem => absurd (isDigit_of_mem_natText hmem) (by decide)
    · rw [if_neg ht] at h
      contradiction
  sha256Hex_size := by
    intro t
    rw [← length_utf8]
    exact size_padded 64 t.length

end RogiCollector.Ports.SpoolFile
