import Mathlib.Data.List.Nodup
import RogiCollector.Verified.JsonString
import RogiCollector.Verified.StreamID

/-!
# JSON values as text

A decoder like `encoding/json` of Go first checks that a text is one JSON value
and then hands each destination the piece of text that belongs to it: a struct
field gets the text of its member, and `json.RawMessage` keeps that text as it
is.  So values are not parsed into trees here; `skip` finds where a value ends,
and `readObject`, `readArray` cut a value into the texts of its parts.

## Main definitions

* `skip`, `document` — one value, one value and nothing else.
* `object`, `array` — writing without any space.
* `readObject`, `readArray` — the members and elements of a value.
* `field` — what a struct field gets from the members: names are compared
  without regard to case, members without a field are ignored.
* `IsValue` — a text that reads as one value wherever a value may stand.
-/

namespace RogiCollector.Verified.Json

/-! ## Where a value ends -/

def isSpace (c : Char) : Bool := c = ' ' ∨ c = '\t' ∨ c = '\n' ∨ c = '\r'

def skipSpace (t : Text) : Text := t.dropWhile isSpace

/-- The text behind `c`, which may follow space. -/
def expect (c : Char) (t : Text) : Option Text :=
  if (skipSpace t).head? = some c then some (skipSpace t).tail else none

/-- `[eE][+-]?[0-9]+`, or nothing. -/
def skipExponent (t : Text) : Option Text :=
  if t.head? = some 'e' ∨ t.head? = some 'E' then
    let digits := if t.tail.head? = some '+' ∨ t.tail.head? = some '-' then t.tail.tail else t.tail
    if digits.head?.any Char.isDigit then some (digits.dropWhile Char.isDigit) else none
  else some t

/-- `\.[0-9]+`, or nothing, and an exponent. -/
def skipFraction (t : Text) : Option Text :=
  if t.head? = some '.' then
    if t.tail.head?.any Char.isDigit then skipExponent (t.tail.dropWhile Char.isDigit) else none
  else skipExponent t

/-- A number: no leading zero but for zero itself. -/
def skipNumber (t : Text) : Option Text :=
  let digits := if t.head? = some '-' then t.tail else t
  if digits.head? = some '0' then skipFraction digits.tail
  else if digits.head?.any Char.isDigit then skipFraction (digits.dropWhile Char.isDigit)
  else none

/-- `true`, `false`, `null`. -/
def skipLiteral (t : Text) : Option Text :=
  ["true", "false", "null"].findSome? fun word => word.toList.isPrefixOf? t

/-- The string at the head of a text. -/
def readQuoted (t : Text) : Option (Text × Text) :=
  if t.head? = some '"' then readString (t.length) t.tail else none

inductive Mode where
  | value
  | members
  | elements

/-- The text behind a value, or behind the members of an object or the elements
of an array whose opening bracket was read.  A round takes at least one
character, so the length of the text bounds their number. -/
def skip : Nat → Mode → Text → Option Text
  | 0, _, _ => none
  | fuel + 1, .value, t =>
    match t.head? with
    | some '"' => (readQuoted t).map Prod.snd
    | some '{' => expect '}' t.tail <|> skip fuel .members (skipSpace t.tail)
    | some '[' => expect ']' t.tail <|> skip fuel .elements (skipSpace t.tail)
    | _ => skipLiteral t <|> skipNumber t
  | fuel + 1, .members, t => do
      let (_, t) ← readQuoted t
      let t ← expect ':' t
      let t ← skip fuel .value (skipSpace t)
      expect '}' t <|> (expect ',' t).bind fun t => skip fuel .members (skipSpace t)
  | fuel + 1, .elements, t => do
      let t ← skip fuel .value t
      expect ']' t <|> (expect ',' t).bind fun t => skip fuel .elements (skipSpace t)

/-- The value at the head of a text, and the text behind it. -/
def readValue (t : Text) : Option (Text × Text) :=
  (skip (t.length + 1) .value t).map fun rest => (t.take (t.length - rest.length), rest)

/-- The text of the value a document consists of. -/
def document (t : Text) : Option Text := do
  let (raw, rest) ← readValue (skipSpace t)
  if skipSpace rest = [] then some raw else none

/-! ## The parts of a value -/

def readMembers : Nat → Text → Option (List (Text × Text))
  | 0, _ => none
  | fuel + 1, t => do
      let (name, t) ← readQuoted t
      let t ← expect ':' t
      let (raw, t) ← readValue (skipSpace t)
      match expect ',' t with
      | some t => (readMembers fuel (skipSpace t)).map ((name, raw) :: ·)
      | none => (expect '}' t).map fun _ => [(name, raw)]

/-- The members of an object, names without their quotation marks. -/
def readObject (t : Text) : Option (List (Text × Text)) :=
  if t.head? = some '{' then
    if (expect '}' t.tail).isSome then some [] else readMembers t.length (skipSpace t.tail)
  else none

def readElements : Nat → Text → Option (List Text)
  | 0, _ => none
  | fuel + 1, t => do
      let (raw, t) ← readValue t
      match expect ',' t with
      | some t => (readElements fuel (skipSpace t)).map (raw :: ·)
      | none => (expect ']' t).map fun _ => [raw]

def readArray (t : Text) : Option (List Text) :=
  if t.head? = some '[' then
    if (expect ']' t.tail).isSome then some [] else readElements t.length (skipSpace t.tail)
  else none

/-- The letters that have a case, folded; two more letters fold to ASCII ones. -/
def foldRune (c : Char) : Char :=
  if c.toNat = 0x17F then 'S' else if c.toNat = 0x212A then 'K' else c.toUpper

def foldName (name : Text) : Text := name.map foldRune

/-- What a struct field gets: every member of its name is decoded over what
the field holds. -/
def field {α : Type} (decode : α → Text → Option α) (name : String) (zero : α)
    (ms : List (Text × Text)) : Option α :=
  ms.foldlM
    (fun held m => if foldName m.1 = foldName name.toList then decode held m.2 else some held)
    zero

/-! ## Writing -/

/-- A name of the source, which has no characters to escape. -/
def memberText (m : String × Text) : Text := quote false (m.1.toList.map some) ++ ':' :: m.2

/-- The texts with commas between them. -/
def joined : List Text → Text
  | [] => []
  | t :: ts => t ++ ts.flatMap (',' :: ·)

def object (ms : List (String × Text)) : Text := '{' :: joined (ms.map memberText) ++ ['}']

def array (ts : List Text) : Text := '[' :: joined ts ++ [']']

def natText (n : Nat) : Text := Nat.toDigits 10 n

def intText : Int → Text
  | .ofNat n => natText n
  | .negSucc n => '-' :: natText (n + 1)

/-- A number of a field with the option `string`. -/
def quotedNat (n : Nat) : Text := quote false ((natText n).map some)

/-! ## Destinations

`null` leaves a destination as it is. -/

def nullText : Text := "null".toList

/-- A value that is a string and nothing else. -/
def unquote (raw : Text) : Option Text :=
  match readQuoted raw with
  | some (s, []) => some s
  | _ => none

def stringValue (held : String) (raw : Text) : Option String :=
  if raw = nullText then some held else (unquote raw).map String.ofList

/-- `strconv.ParseInt` of a number without sign or with a minus. -/
def parseInt (raw : Text) : Option Int :=
  if raw.head? = some '-' then
    if (parseUint raw.tail).2 then some (-(parseUint raw.tail).1) else none
  else if (parseUint raw).2 then some (parseUint raw).1
  else none

/-- `strconv.ParseInt(s, 10, 64)` and `strconv.Atoi`, where a plus is a sign as well. -/
def parseInt64 (s : Text) : Option Int :=
  let n :=
    if s.head? = some '+' then
      if (parseUint s.tail).2 then some ((parseUint s.tail).1 : Int) else none
    else parseInt s
  n.bind fun n => if -2 ^ 63 ≤ n ∧ n < 2 ^ 63 then some n else none

/-- An integer type with these limits. -/
def intValue (lo hi : Int) (held : Int) (raw : Text) : Option Int :=
  if raw = nullText then some held
  else (parseInt raw).bind fun n => if lo ≤ n ∧ n ≤ hi then some n else none

/-- `uint64` with the option `string`. -/
def quotedNatValue (held : Nat) (raw : Text) : Option Nat :=
  if raw = nullText then some held
  else (unquote raw).bind fun s => if (parseUint s).2 then some (parseUint s).1 else none

/-- A slice of strings. -/
def stringsValue (_held : List String) (raw : Text) : Option (List String) :=
  if raw = nullText then some []
  else (readArray raw).bind fun elements => elements.mapM (stringValue "")

/-- A pointer to a string. -/
def pointerValue (_held : Option String) (raw : Text) : Option (Option String) :=
  if raw = nullText then some none else ((unquote raw).map String.ofList).map some

/-! ## Reading what was written -/

/-- What may stand behind a value. -/
def Follows (rest : Text) : Prop :=
  rest = [] ∨ ∃ c t, rest = c :: t ∧ (c = ',' ∨ c = '}' ∨ c = ']')

theorem Follows.comma (t : Text) : Follows (',' :: t) := Or.inr ⟨',', t, rfl, Or.inl rfl⟩

theorem Follows.brace (t : Text) : Follows ('}' :: t) :=
  Or.inr ⟨'}', t, rfl, Or.inr (Or.inl rfl)⟩

theorem Follows.bracket (t : Text) : Follows (']' :: t) :=
  Or.inr ⟨']', t, rfl, Or.inr (Or.inr rfl)⟩

/-- A text that reads as one value wherever a value may stand. -/
structure IsValue (v : Text) : Prop where
  skips : ∀ fuel rest, v.length < fuel → Follows rest → skip fuel .value (v ++ rest) = some rest
  starts : ∃ c t, v = c :: t ∧ isSpace c = false ∧ c ≠ '}' ∧ c ≠ ']'

theorem skipSpace_cons {c : Char} (h : isSpace c = false) (t : Text) :
    skipSpace (c :: t) = c :: t := by
  simp [skipSpace, h]

theorem expect_cons {c : Char} (h : isSpace c = false) (t : Text) : expect c (c :: t) = some t := by
  simp [expect, skipSpace_cons h]

theorem expect_ne {c c' : Char} (h : isSpace c' = false) (hne : c' ≠ c) (t : Text) :
    expect c (c' :: t) = none := by
  simp [expect, skipSpace_cons h, hne]

theorem IsValue.skipSpace_append {v : Text} (h : IsValue v) (rest : Text) :
    skipSpace (v ++ rest) = v ++ rest := by
  obtain ⟨c, t, rfl, hc, -⟩ := h.starts
  exact skipSpace_cons hc _

theorem IsValue.readValue_append {v rest : Text} (h : IsValue v) (hrest : Follows rest) :
    readValue (v ++ rest) = some (v, rest) := by
  have hlength : v.length < (v ++ rest).length + 1 := by
    rw [List.length_append]
    omega
  have hskip := h.skips ((v ++ rest).length + 1) rest hlength hrest
  rw [readValue, hskip, Option.map_some]
  simp

/-- A value is a document. -/
theorem IsValue.document_eq {v : Text} (h : IsValue v) : document v = some v := by
  have hspace := h.skipSpace_append []
  have hread := h.readValue_append (Or.inl rfl)
  rw [List.append_nil] at hspace hread
  rw [document, hspace, hread]
  rfl

/-! ### Strings -/

theorem length_le_flatMap_quoteRune (escaped : Bool) (s : List (Option Char)) :
    s.length ≤ (s.flatMap (quoteRune escaped)).length := by
  induction s with
  | nil => simp
  | cons r s ih =>
    have hne : 1 ≤ (quoteRune escaped r).length := by
      have hread := readRune_quoteRune escaped r []
      cases hr : quoteRune escaped r with
      | nil => simp [hr, readRune] at hread
      | cons c t => simp
    simp only [List.length_cons, List.flatMap_cons, List.length_append]
    omega

theorem readQuoted_quote (escaped : Bool) (s : List (Option Char)) (rest : Text) :
    readQuoted (quote escaped s ++ rest) = some (s.map fun r => r.getD replacementRune, rest) := by
  have hlen := length_le_flatMap_quoteRune escaped s
  simp only [readQuoted, quote, List.cons_append, List.head?_cons, if_true, List.tail_cons,
    List.append_assoc, List.nil_append]
  refine readString_body escaped s rest ?_
  rw [List.length_cons, List.length_append]
  omega

theorem IsValue.quote (escaped : Bool) (s : List (Option Char)) : IsValue (quote escaped s) where
  skips fuel rest hfuel _ := by
    cases fuel with
    | zero => simp at hfuel
    | succ fuel =>
      have hread := readQuoted_quote escaped s rest
      have hhead : (Json.quote escaped s ++ rest).head? = some '"' := rfl
      simp only [skip, hhead, hread, Option.map_some]
  starts := ⟨'"', _, rfl, by decide, by decide, by decide⟩

/-! ### Numbers -/

/-- Only zero starts with the digit zero. -/
theorem head_natText {n : Nat} (h : 0 < n) : (natText n).head? ≠ some '0' := by
  induction n using Nat.strong_induction_on with
  | _ n ih =>
    rw [natText, Nat.toDigits_eq_if (by decide)]
    split
    · rename_i hlt
      have hzero := digitChar_eq_zero (show n < 16 by omega)
      simp only [List.head?_cons, ne_eq, Option.some.injEq, hzero]
      omega
    · have hne : Nat.toDigits 10 (n / 10) ≠ [] := Nat.toDigits_ne_nil
      rw [List.head?_append_of_ne_nil _ hne]
      exact ih (n / 10) (by omega) (by omega)

theorem isDigit_of_mem_natText {n : Nat} {c : Char} (h : c ∈ natText n) : c.isDigit = true :=
  Nat.isDigit_of_mem_toDigits (by decide) (by decide) h

/-- A number starts with a digit. -/
theorem natText_cons (n : Nat) : ∃ d ds, natText n = d :: ds ∧ d.isDigit = true := by
  obtain ⟨d, ds, hds⟩ : ∃ d ds, natText n = d :: ds :=
    List.exists_cons_of_ne_nil Nat.toDigits_ne_nil
  exact ⟨d, ds, hds, isDigit_of_mem_natText (hds ▸ List.mem_cons_self)⟩

theorem Follows.head_ne {rest : Text} (h : Follows rest) {c : Char} (hc : c ≠ ',') (hc' : c ≠ '}')
    (hc'' : c ≠ ']') : rest.head? ≠ some c := by
  rcases h with rfl | ⟨c', t, rfl, rfl | rfl | rfl⟩
  · simp
  · simpa using hc.symm
  · simpa using hc'.symm
  · simpa using hc''.symm

theorem Follows.skipFraction_eq {rest : Text} (h : Follows rest) :
    skipFraction rest = some rest := by
  have hdot := h.head_ne (show '.' ≠ ',' by decide) (by decide) (by decide)
  have he := h.head_ne (show 'e' ≠ ',' by decide) (by decide) (by decide)
  have hE := h.head_ne (show 'E' ≠ ',' by decide) (by decide) (by decide)
  simp [skipFraction, skipExponent, hdot, he, hE]

theorem Follows.dropWhile_append {rest digits : Text} (h : Follows rest)
    (hdigits : ∀ c ∈ digits, c.isDigit = true) :
    (digits ++ rest).dropWhile Char.isDigit = rest := by
  rw [List.dropWhile_append_of_pos hdigits]
  rcases h with rfl | ⟨c', t, rfl, rfl | rfl | rfl⟩ <;> rfl

theorem skipNumber_natText (n : Nat) {rest : Text} (h : Follows rest) :
    skipNumber (natText n ++ rest) = some rest := by
  obtain ⟨d, ds, hds, hd⟩ := natText_cons n
  have hdigits : ∀ c ∈ d :: ds, c.isDigit = true := fun c hc => isDigit_of_mem_natText (hds ▸ hc)
  have hminus : d ≠ '-' := by
    rintro rfl
    simp at hd
  by_cases hzero : d = '0'
  · have hn : n = 0 := by
      by_contra hn
      exact head_natText (Nat.pos_of_ne_zero hn) (by rw [hds, hzero]; rfl)
    subst hn
    simp [natText, skipNumber, h.skipFraction_eq]
  · have hdrop := h.dropWhile_append hdigits
    rw [hds]
    simp only [List.cons_append] at hdrop ⊢
    simp [skipNumber, hminus, hzero, hd, hdrop, h.skipFraction_eq]

theorem IsValue.nat (n : Nat) : IsValue (natText n) := by
  obtain ⟨d, ds, hds, hd⟩ := natText_cons n
  have hne : ∀ c : Char, c.isDigit = false → d ≠ c := by
    rintro c hc rfl
    rw [hd] at hc
    contradiction
  constructor
  · intro fuel rest hfuel hrest
    have hnumber := skipNumber_natText n hrest
    cases fuel with
    | zero => simp at hfuel
    | succ fuel =>
      rw [hds, List.cons_append] at hnumber ⊢
      have hliteral : skipLiteral (d :: (ds ++ rest)) = none := by
        have ht := (hne 't' (by decide)).symm
        have hf := (hne 'f' (by decide)).symm
        have hn := (hne 'n' (by decide)).symm
        simp [skipLiteral, List.isPrefixOf?, ht, hf, hn]
      simp [skip, hne '"' (by decide), hne '{' (by decide), hne '[' (by decide), hliteral, hnumber]
  · refine ⟨d, ds, hds, ?_, hne _ (by decide), hne _ (by decide)⟩
    simp [isSpace, hne ' ' (by decide), hne '\t' (by decide), hne '\n' (by decide),
      hne '\r' (by decide)]

theorem skipNumber_minus (n : Nat) (rest : Text) :
    skipNumber ('-' :: (natText n ++ rest)) = skipNumber (natText n ++ rest) := by
  obtain ⟨d, ds, hds, hd⟩ := natText_cons n
  have hminus : d ≠ '-' := by
    rintro rfl
    simp at hd
  simp [skipNumber, hds, hminus]

theorem IsValue.int (n : Int) : IsValue (intText n) := by
  cases n with
  | ofNat n => exact IsValue.nat n
  | negSucc n =>
    constructor
    · intro fuel rest hfuel hrest
      cases fuel with
      | zero => simp at hfuel
      | succ fuel =>
        have hnumber := skipNumber_natText (n + 1) hrest
        rw [← skipNumber_minus] at hnumber
        have hliteral : skipLiteral ('-' :: (natText (n + 1) ++ rest)) = none := rfl
        simp [intText, skip, hliteral, hnumber]
    · exact ⟨'-', _, rfl, by decide, by decide, by decide⟩

/-! ### Objects -/

/-- Names without characters to escape are read as they are. -/
theorem readQuoted_memberText (m : String × Text) (rest : Text) :
    readQuoted (memberText m ++ rest) = some (m.1.toList, ':' :: (m.2 ++ rest)) := by
  have hread := readQuoted_quote false (m.1.toList.map some) (':' :: (m.2 ++ rest))
  simpa [memberText, Function.comp_def] using hread

theorem length_memberText (m : String × Text) : m.2.length + 3 ≤ (memberText m).length := by
  simp [memberText, quote]

/-- The text of the members behind the first. -/
theorem joined_cons_cons (t t' : Text) (ts : List Text) (rest : Text) :
    joined (t :: t' :: ts) ++ rest = t ++ ',' :: (joined (t' :: ts) ++ rest) := by
  simp [joined]

theorem length_joined_cons (t t' : Text) (ts : List Text) :
    (joined (t :: t' :: ts)).length = t.length + ((joined (t' :: ts)).length + 1) := by
  simp [joined]

theorem joined_singleton (t : Text) : joined [t] = t := by
  simp [joined]

/-- The text of some members starts with a quotation mark. -/
theorem skipSpace_members (m : String × Text) (ts : List Text) (rest : Text) :
    skipSpace (joined (memberText m :: ts) ++ rest) = joined (memberText m :: ts) ++ rest :=
  skipSpace_cons (by decide) _

theorem expect_members (m : String × Text) (ts : List Text) (rest : Text) :
    expect '}' (joined (memberText m :: ts) ++ rest) = none :=
  expect_ne (by decide) (by decide) _

theorem skip_members (m : String × Text) (ms : List (String × Text))
    (hms : ∀ m' ∈ m :: ms, IsValue m'.2) (rest : Text) {fuel : Nat}
    (hfuel : (joined ((m :: ms).map memberText)).length < fuel) :
    skip fuel .members (joined ((m :: ms).map memberText) ++ '}' :: rest) = some rest := by
  induction fuel generalizing m ms with
  | zero => simp at hfuel
  | succ fuel ih =>
    obtain ⟨hm, hms⟩ := List.forall_mem_cons.mp hms
    have hlen := length_memberText m
    cases ms with
    | nil =>
      simp only [List.map_cons, List.map_nil, joined_singleton] at hfuel ⊢
      have hskip := hm.skips fuel ('}' :: rest) (by omega) (Follows.brace rest)
      simp [skip, readQuoted_memberText, expect_cons, hm.skipSpace_append, hskip, isSpace]
    | cons m' ms =>
      simp only [List.map_cons, length_joined_cons] at hfuel ih ⊢
      have hrest := ih m' ms hms (by omega)
      have hskip := hm.skips fuel _ (by omega)
        (Follows.comma (joined (memberText m' :: ms.map memberText) ++ '}' :: rest))
      simp [joined_cons_cons, skip, readQuoted_memberText, expect_cons, expect_ne,
        hm.skipSpace_append, hskip, skipSpace_members, isSpace, hrest]

/-- An object ends with its bracket, whatever stands behind it. -/
theorem skip_object {ms : List (String × Text)} (hms : ∀ m ∈ ms, IsValue m.2) (rest : Text)
    {fuel : Nat} (hfuel : (object ms).length < fuel) :
    skip fuel .value (object ms ++ rest) = some rest := by
  cases fuel with
  | zero => simp at hfuel
  | succ fuel =>
    cases ms with
    | nil => simp [Json.object, joined, skip, expect_cons, isSpace]
    | cons m ms =>
      have hmembers := skip_members m ms hms rest
        (show _ < fuel by simp [Json.object] at hfuel ⊢; omega)
      simp only [List.map_cons] at hmembers
      simp [Json.object, skip, expect_members, skipSpace_members, hmembers]

theorem IsValue.object {ms : List (String × Text)} (hms : ∀ m ∈ ms, IsValue m.2) :
    IsValue (object ms) where
  skips _ rest hfuel _ := skip_object hms rest hfuel
  starts := ⟨'{', _, rfl, by decide, by decide, by decide⟩

theorem readMembers_joined (m : String × Text) (ms : List (String × Text))
    (hms : ∀ m' ∈ m :: ms, IsValue m'.2) (rest : Text) {fuel : Nat} (hfuel : ms.length < fuel) :
    readMembers fuel (joined ((m :: ms).map memberText) ++ '}' :: rest) =
      some ((m :: ms).map fun m => (m.1.toList, m.2)) := by
  induction fuel generalizing m ms with
  | zero => simp at hfuel
  | succ fuel ih =>
    obtain ⟨hm, hms⟩ := List.forall_mem_cons.mp hms
    cases ms with
    | nil =>
      have hread := hm.readValue_append (Follows.brace rest)
      simp [joined_singleton, readMembers, readQuoted_memberText, expect_cons, expect_ne,
        hm.skipSpace_append, hread, isSpace]
    | cons m' ms =>
      simp only [List.map_cons] at ih ⊢
      have hrest := ih m' ms hms (by simpa using hfuel)
      have hread := hm.readValue_append
        (Follows.comma (joined (memberText m' :: ms.map memberText) ++ '}' :: rest))
      simp [joined_cons_cons, readMembers, readQuoted_memberText, expect_cons,
        hm.skipSpace_append, hread, skipSpace_members, isSpace, hrest]

/-- There are no more texts than characters. -/
theorem length_le_joined (t : Text) (ts : List Text) : ts.length ≤ (joined (t :: ts)).length := by
  have htail : ∀ ts : List Text, ts.length ≤ (ts.flatMap (',' :: ·)).length := by
    intro ts
    induction ts with
    | nil => simp
    | cons t ts ih =>
      rw [List.length_cons, List.flatMap_cons, List.length_append, List.length_cons]
      omega
  have hts := htail ts
  rw [joined, List.length_append]
  omega

/-- An object is no shorter than what it holds. -/
theorem length_le_object {ms : List (String × Text)} {m : String × Text} (hm : m ∈ ms) :
    m.2.length ≤ (object ms).length := by
  have hmember := length_memberText m
  obtain ⟨front, back, rfl⟩ := List.append_of_mem hm
  cases front with
  | nil =>
    simp only [Json.object, List.nil_append, List.map_cons, joined, List.cons_append,
      List.length_cons, List.length_append]
    omega
  | cons x front =>
    simp only [Json.object, List.cons_append, List.map_cons, List.map_append, joined,
      List.flatMap_append, List.flatMap_cons, List.length_cons, List.length_append]
    omega

/-- An object is read back member by member. -/
theorem readObject_object {ms : List (String × Text)} (hms : ∀ m ∈ ms, IsValue m.2) :
    readObject (object ms) = some (ms.map fun m => (m.1.toList, m.2)) := by
  cases ms with
  | nil => rfl
  | cons m ms =>
    have hlen := length_le_joined (memberText m) (ms.map memberText)
    rw [List.length_map] at hlen
    have hmembers := readMembers_joined m ms hms []
      (show _ < (Json.object (m :: ms)).length by simp [Json.object]; omega)
    simpa [Json.object, readObject, expect_members, skipSpace_members] using hmembers

/-! ### Arrays -/

theorem IsValue.skipSpace_joined {v : Text} (h : IsValue v) (vs : List Text) (rest : Text) :
    skipSpace (joined (v :: vs) ++ rest) = joined (v :: vs) ++ rest := by
  rw [joined, List.append_assoc, h.skipSpace_append]

theorem IsValue.expect_joined {v : Text} (h : IsValue v) (vs : List Text) (rest : Text) :
    expect ']' (joined (v :: vs) ++ rest) = none := by
  obtain ⟨c, t, rfl, hspace, -, hbracket⟩ := h.starts
  exact expect_ne hspace hbracket _

theorem skip_elements (v : Text) (vs : List Text) (hvs : ∀ v' ∈ v :: vs, IsValue v') (rest : Text)
    {fuel : Nat} (hfuel : (joined (v :: vs)).length + 1 < fuel) :
    skip fuel .elements (joined (v :: vs) ++ ']' :: rest) = some rest := by
  induction fuel generalizing v vs with
  | zero => simp at hfuel
  | succ fuel ih =>
    obtain ⟨hv, hvs⟩ := List.forall_mem_cons.mp hvs
    cases vs with
    | nil =>
      rw [joined_singleton] at hfuel ⊢
      have hskip := hv.skips fuel (']' :: rest) (by omega) (Follows.bracket rest)
      simp [skip, expect_cons, hskip, isSpace]
    | cons v' vs =>
      rw [length_joined_cons] at hfuel
      have hv' := (hvs v' List.mem_cons_self).skipSpace_joined vs (']' :: rest)
      have hrest := ih v' vs hvs (by omega)
      have hskip := hv.skips fuel _ (by omega) (Follows.comma (joined (v' :: vs) ++ ']' :: rest))
      simp [joined_cons_cons, skip, expect_cons, expect_ne, hskip, hv', isSpace, hrest]

theorem IsValue.array {vs : List Text} (hvs : ∀ v ∈ vs, IsValue v) : IsValue (array vs) where
  skips fuel rest hfuel _ := by
    cases fuel with
    | zero => simp at hfuel
    | succ fuel =>
      cases vs with
      | nil => simp [Json.array, joined, skip, expect_cons, isSpace]
      | cons v vs =>
        have hv := hvs v List.mem_cons_self
        have helements := skip_elements v vs hvs rest
          (show _ < fuel by simp [Json.array] at hfuel ⊢; omega)
        simp [Json.array, skip, hv.expect_joined, hv.skipSpace_joined, helements]
  starts := ⟨'[', _, rfl, by decide, by decide, by decide⟩

theorem readElements_joined (v : Text) (vs : List Text) (hvs : ∀ v' ∈ v :: vs, IsValue v')
    (rest : Text) {fuel : Nat} (hfuel : vs.length < fuel) :
    readElements fuel (joined (v :: vs) ++ ']' :: rest) = some (v :: vs) := by
  induction fuel generalizing v vs with
  | zero => simp at hfuel
  | succ fuel ih =>
    obtain ⟨hv, hvs⟩ := List.forall_mem_cons.mp hvs
    cases vs with
    | nil =>
      have hread := hv.readValue_append (Follows.bracket rest)
      simp [joined_singleton, readElements, expect_cons, expect_ne, hread, isSpace]
    | cons v' vs =>
      have hv' := (hvs v' List.mem_cons_self).skipSpace_joined vs (']' :: rest)
      have hrest := ih v' vs hvs (by simpa using hfuel)
      have hread := hv.readValue_append (Follows.comma (joined (v' :: vs) ++ ']' :: rest))
      simp [joined_cons_cons, readElements, expect_cons, hread, hv', isSpace, hrest]

/-- An array is read back element by element. -/
theorem readArray_array {vs : List Text} (hvs : ∀ v ∈ vs, IsValue v) :
    readArray (array vs) = some vs := by
  cases vs with
  | nil => rfl
  | cons v vs =>
    have hv := hvs v List.mem_cons_self
    have hlen := length_le_joined v vs
    have helements := readElements_joined v vs hvs []
      (show _ < (Json.array (v :: vs)).length by simp [Json.array]; omega)
    simpa [Json.array, readArray, hv.expect_joined, hv.skipSpace_joined] using helements

/-! ### Fields -/

section Field

variable {α : Type} {decode : α → Text → Option α} {name : String} {zero : α}

/-- A field without a member keeps what it holds. -/
theorem field_of_notMem {ms : List (String × Text)}
    (h : foldName name.toList ∉ ms.map fun m => foldName m.1.toList) :
    field decode name zero (ms.map fun m => (m.1.toList, m.2)) = some zero := by
  induction ms with
  | nil => rfl
  | cons m ms ih =>
    rw [List.map_cons, List.mem_cons, not_or] at h
    have hm : foldName m.1.toList ≠ foldName name.toList := fun heq => h.1 heq.symm
    have hrest := ih h.2
    simp only [field, List.map_cons, List.foldlM_cons, hm, if_false] at hrest ⊢
    exact hrest

/-- A field gets the member of its name. -/
theorem field_of_mem {ms : List (String × Text)} {raw : Text}
    (hnodup : (ms.map fun m => foldName m.1.toList).Nodup) (hmem : (name, raw) ∈ ms) :
    field decode name zero (ms.map fun m => (m.1.toList, m.2)) = decode zero raw := by
  induction ms with
  | nil => simp at hmem
  | cons m ms ih =>
    rw [List.map_cons, List.nodup_cons] at hnodup
    rcases List.mem_cons.mp hmem with rfl | hrest
    · simp only [field, List.map_cons, List.foldlM_cons, if_true]
      cases hdecode : decode zero raw with
      | none => rfl
      | some held => exact field_of_notMem hnodup.1
    · have hm : foldName m.1.toList ≠ foldName name.toList := by
        intro heq
        exact hnodup.1 (heq ▸ List.mem_map.mpr ⟨(name, raw), hrest, rfl⟩)
      have htail := ih hnodup.2 hrest
      simp only [field, List.map_cons, List.foldlM_cons, hm, if_false] at htail ⊢
      exact htail

end Field

/-! ### Destinations -/

theorem quote_ne_null (escaped : Bool) (s : List (Option Char)) : quote escaped s ≠ nullText := by
  intro h
  have hhead : some '"' = some 'n' := congrArg List.head? h
  simp at hhead

theorem unquote_quote (escaped : Bool) (s : List (Option Char)) :
    unquote (quote escaped s) = some (s.map fun r => r.getD replacementRune) := by
  have hread := readQuoted_quote escaped s []
  rw [List.append_nil] at hread
  simp [unquote, hread]

@[simp] theorem stringValue_quote (held : String) (escaped : Bool) (s : List (Option Char)) :
    stringValue held (quote escaped s) =
      some (String.ofList (s.map fun r => r.getD replacementRune)) := by
  rw [stringValue, if_neg (quote_ne_null escaped s), unquote_quote, Option.map_some]

@[simp] theorem pointerValue_quote (held : Option String) (escaped : Bool)
    (s : List (Option Char)) :
    pointerValue held (quote escaped s) =
      some (some (String.ofList (s.map fun r => r.getD replacementRune))) := by
  rw [pointerValue, if_neg (quote_ne_null escaped s), unquote_quote, Option.map_some,
    Option.map_some]

theorem parseUint_natText {n : Nat} (h : n < 2 ^ 64) : parseUint (natText n) = (n, true) := by
  rw [natText, ← toList_toString]
  exact parseUint_toString h

theorem quotedNatValue_quotedNat {n : Nat} (held : Nat) (h : n < 2 ^ 64) :
    quotedNatValue held (quotedNat n) = some n := by
  have hunquote := unquote_quote false ((natText n).map some)
  simp only [List.map_map, Function.comp_def, Option.getD_some, List.map_id'] at hunquote
  rw [quotedNatValue, quotedNat, if_neg (quote_ne_null _ _), hunquote, Option.bind_some,
    parseUint_natText h]
  rfl

theorem parseInt_intText {n : Int} (h : n.natAbs < 2 ^ 64) : parseInt (intText n) = some n := by
  cases n with
  | ofNat n =>
    obtain ⟨d, ds, hds, hd⟩ := natText_cons n
    have hminus : (natText n).head? ≠ some '-' := by
      rw [hds, List.head?_cons, ne_eq, Option.some.injEq]
      rintro rfl
      simp at hd
    have hparse := parseUint_natText (show n < 2 ^ 64 from h)
    rw [parseInt, intText, if_neg hminus, hparse]
    rfl
  | negSucc n =>
    have hparse := parseUint_natText (show n + 1 < 2 ^ 64 from h)
    simp only [parseInt, intText, List.head?_cons, if_true, List.tail_cons, hparse]
    rfl

theorem intText_ne_null (n : Int) : intText n ≠ nullText := by
  intro h
  cases n with
  | ofNat n =>
    obtain ⟨d, ds, hds, hd⟩ := natText_cons n
    rw [intText, hds] at h
    have hhead : some d = some 'n' := congrArg List.head? h
    rw [Option.some.inj hhead] at hd
    contradiction
  | negSucc n =>
    have hhead : some '-' = some 'n' := congrArg List.head? h
    simp at hhead

theorem intValue_intText {lo hi n : Int} (held : Int) (h : n.natAbs < 2 ^ 64) (hlo : lo ≤ n)
    (hhi : n ≤ hi) : intValue lo hi held (intText n) = some n := by
  rw [intValue, if_neg (intText_ne_null n), parseInt_intText h, Option.bind_some,
    if_pos ⟨hlo, hhi⟩]

theorem stringsValue_array (held : List String) (escaped : Bool)
    (ss : List (List (Option Char))) :
    stringsValue held (array (ss.map (quote escaped))) =
      some (ss.map fun s => String.ofList (s.map fun r => r.getD replacementRune)) := by
  have hvalues : ∀ v ∈ ss.map (quote escaped), IsValue v := by
    intro v hv
    obtain ⟨s, -, rfl⟩ := List.mem_map.mp hv
    exact IsValue.quote escaped s
  have hnull : array (ss.map (quote escaped)) ≠ nullText := by
    intro h
    have hhead : some '[' = some 'n' := congrArg List.head? h
    simp at hhead
  rw [stringsValue, if_neg hnull, readArray_array hvalues, Option.bind_some]
  clear hvalues hnull
  induction ss with
  | nil => rfl
  | cons s ss ih => simp [ih]

end RogiCollector.Verified.Json
