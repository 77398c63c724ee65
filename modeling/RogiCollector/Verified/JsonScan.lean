import Mathlib.Algebra.Order.BigOperators.Group.List
import Mathlib.Data.Nat.Digits.Defs
import RogiCollector.Verified.JsonText

/-!
# Two scans over finished JSON text

**Compacting**: what becomes of a value that is already JSON text
(`json.RawMessage`) when it is written as part of another one.  Space between
tokens is dropped, and the characters that the encoder never leaves in a string
are escaped wherever they stand.  A text the encoder wrote itself stays as it is.

**Looking for an escaped U+0000**, which PostgreSQL's `jsonb` refuses: an object
or array has one exactly if one of its parts has.
-/

namespace RogiCollector.Verified.Json

/-! ## Compacting -/

/-- The characters that are escaped in a finished text. -/
def isLoose (c : Char) : Bool :=
  c = '<' ∨ c = '>' ∨ c = '&' ∨ c.toNat = 0x2028 ∨ c.toNat = 0x2029

def tighten (c : Char) : Text := if isLoose c then unicodeEscape c.toNat else [c]

/-- Where the scan is: between tokens, in a string, behind a backslash. -/
inductive Scan where
  | token
  | string
  | escaped

def compactFrom : Scan → Text → Text
  | _, [] => []
  | .token, c :: t =>
    if isSpace c then compactFrom .token t
    else tighten c ++ compactFrom (if c = '"' then .string else .token) t
  | .string, c :: t =>
    tighten c ++ compactFrom (if c = '"' then .token else if c = '\\' then .escaped else .string) t
  | .escaped, c :: t => tighten c ++ compactFrom .string t

def compact (t : Text) : Text := compactFrom .token t

/-- A text that compacting passes over, from `s` to `s'`. -/
def Passes (s s' : Scan) (t : Text) : Prop :=
  ∀ rest, compactFrom s (t ++ rest) = t ++ compactFrom s' rest

/-- A text that compacting leaves alone between tokens. -/
abbrev Settled (t : Text) : Prop := Passes .token .token t

variable {t : Text}

theorem Settled.compact_eq (h : Settled t) : compact t = t := by
  have hpass := h []
  simpa [compact, compactFrom] using hpass

theorem Passes.nil (s : Scan) : Passes s s [] := fun _ => rfl

theorem Passes.append {s s' s'' : Scan} {t' : Text} (h : Passes s s' t) (h' : Passes s' s'' t') :
    Passes s s'' (t ++ t') := by
  intro rest
  rw [List.append_assoc, h, h', List.append_assoc]

variable {α : Type}

theorem Passes.flatMap {s : Scan} {f : α → Text} {l : List α} (h : ∀ a ∈ l, Passes s s (f a)) :
    Passes s s (l.flatMap f) := by
  induction l with
  | nil => exact Passes.nil s
  | cons a l ih =>
    rw [List.flatMap_cons]
    exact (h a List.mem_cons_self).append (ih fun b hb => h b (List.mem_cons_of_mem _ hb))

variable {c : Char}

/-- A character between tokens that is neither space nor the start of a string. -/
theorem Settled.char (hspace : isSpace c = false) (hloose : isLoose c = false)
    (hquote : c ≠ '"') : Settled [c] := by
  intro rest
  simp [compactFrom, hspace, tighten, hloose, hquote]

theorem Passes.openQuote : Passes .token .string ['"'] := fun _ => rfl

theorem Passes.closeQuote : Passes .string .token ['"'] := fun _ => rfl

theorem Passes.plain (hloose : isLoose c = false) (hquote : c ≠ '"') (hback : c ≠ '\\') :
    Passes .string .string [c] := by
  intro rest
  simp [compactFrom, tighten, hloose, hquote, hback]

theorem Passes.escape (hloose : isLoose c = false) : Passes .string .string ['\\', c] := by
  intro rest
  have hback : isLoose '\\' = false := by decide
  simp [compactFrom, tighten, hloose, hback]

theorem digitChar_plain {n : Nat} (h : n < 16) : isLoose (Nat.digitChar n) = false ∧
    Nat.digitChar n ≠ '"' ∧ Nat.digitChar n ≠ '\\' := by
  revert n
  decide

theorem Passes.unicodeEscape (n : Nat) : Passes .string .string (unicodeEscape n) := by
  have hdigit : ∀ m : Nat, Passes .string .string [Nat.digitChar (m % 16)] := by
    intro m
    obtain ⟨hloose, hquote, hback⟩ := digitChar_plain (Nat.mod_lt m (by decide : 0 < 16))
    exact Passes.plain hloose hquote hback
  have hstart : Passes .string .string ['\\', 'u'] := Passes.escape (by decide)
  exact hstart.append ((hdigit _).append ((hdigit _).append ((hdigit _).append (hdigit _))))

theorem Passes.quoteRune (escaped : Bool) (r : Option Char) :
    Passes .string .string (quoteRune escaped r) := by
  cases r with
  | none =>
    cases escaped with
    | true => exact Passes.unicodeEscape _
    | false => exact Passes.plain (by decide) (by decide) (by decide)
  | some c =>
    have hescapes := escapes_escape c
    rw [Json.quoteRune]
    generalize Json.escape c = text at hescapes ⊢
    cases hescapes with
    | short hmem =>
      have hloose : ∀ m ∈ shortEscapes, isLoose m.2 = false := by decide
      exact Passes.escape (hloose _ hmem)
    | unicode => exact Passes.unicodeEscape _
    | plain hquote hback hneeds =>
      have hloose : isLoose c = false := by
        simp only [needsUnicodeEscape, decide_eq_false_iff_not, not_or] at hneeds
        simp [isLoose, hneeds]
      exact Passes.plain hloose hquote hback

theorem Settled.quote (escaped : Bool) (s : List (Option Char)) : Settled (quote escaped s) :=
  Passes.openQuote.append
    ((Passes.flatMap fun r _ => Passes.quoteRune escaped r).append Passes.closeQuote)

/-- Digits are neither space nor part of a string, and never escaped. -/
theorem Settled.digit (h : c.isDigit = true) : Settled [c] := by
  have hne : ∀ c' : Char, c'.isDigit = false → c ≠ c' := by
    rintro c' hc' rfl
    rw [h] at hc'
    contradiction
  have hle : c.toNat ≤ 57 := by
    simp only [Char.isDigit, Bool.and_eq_true, decide_eq_true_eq] at h
    exact h.2
  have h2028 : c.toNat ≠ 0x2028 := by omega
  have h2029 : c.toNat ≠ 0x2029 := by omega
  apply Settled.char
  · simp [isSpace, hne ' ' (by decide), hne '\t' (by decide), hne '\n' (by decide),
      hne '\r' (by decide)]
  · simp [isLoose, hne '<' (by decide), hne '>' (by decide), hne '&' (by decide), h2028, h2029]
  · exact hne _ (by decide)

theorem Settled.nat (n : Nat) : Settled (natText n) := by
  have hdigits : Settled ((natText n).flatMap fun c => [c]) :=
    Passes.flatMap fun c hc => Settled.digit (isDigit_of_mem_natText hc)
  simpa using hdigits

theorem Settled.int (n : Int) : Settled (intText n) := by
  cases n with
  | ofNat n => exact Settled.nat n
  | negSucc n =>
    have hminus : Settled ['-'] := Settled.char (by decide) (by decide) (by decide)
    exact hminus.append (Settled.nat (n + 1))

variable {ts : List Text}

theorem Settled.joined (h : ∀ t ∈ ts, Settled t) : Settled (joined ts) := by
  have hcomma : Settled [','] := Settled.char (by decide) (by decide) (by decide)
  cases ts with
  | nil => exact Passes.nil .token
  | cons t ts =>
    refine (h t List.mem_cons_self).append (Passes.flatMap fun t' ht' => ?_)
    exact hcomma.append (h t' (List.mem_cons_of_mem _ ht'))

theorem Settled.object {ms : List (String × Text)} (h : ∀ m ∈ ms, Settled m.2) :
    Settled (object ms) := by
  have hopen : Settled ['{'] := Settled.char (by decide) (by decide) (by decide)
  have hclose : Settled ['}'] := Settled.char (by decide) (by decide) (by decide)
  have hcolon : Settled [':'] := Settled.char (by decide) (by decide) (by decide)
  have hmembers : Settled (Json.joined (ms.map memberText)) := by
    apply Settled.joined
    intro t ht
    obtain ⟨m, hm, rfl⟩ := List.mem_map.mp ht
    exact (Settled.quote false _).append (hcolon.append (h m hm))
  exact (hopen.append hmembers).append hclose

theorem Settled.array (h : ∀ t ∈ ts, Settled t) : Settled (array ts) := by
  have hopen : Settled ['['] := Settled.char (by decide) (by decide) (by decide)
  have hclose : Settled [']'] := Settled.char (by decide) (by decide) (by decide)
  exact (hopen.append (Settled.joined h)).append hclose

/-! ## Escaped zeros -/

/-- A text that does not end in the middle of an escape: what stands behind it
is looked at on its own. -/
def Complete (t : Text) : Prop :=
  ∀ rest, escapesNul (t ++ rest) = (escapesNul t || escapesNul rest)

theorem Complete.nil : Complete [] := fun _ => rfl

theorem Complete.append {t' : Text} (h : Complete t) (h' : Complete t') : Complete (t ++ t') := by
  intro rest
  rw [List.append_assoc, h, h', h, Bool.or_assoc]

theorem Complete.char (h : c ≠ '\\') : Complete [c] := by
  intro rest
  rw [List.singleton_append, escapesNul_cons h, escapesNul_cons h]
  rfl

theorem escapesNul_singleton (h : c ≠ '\\') : escapesNul [c] = false := by
  rw [escapesNul_cons h]
  rfl

theorem escapesNul_quote_eq (escaped : Bool) (s : List (Option Char)) :
    escapesNul (quote escaped s) = decide (some '\x00' ∈ s) := by
  have hquote := escapesNul_quote escaped s []
  simpa [escapesNul] using hquote

theorem Complete.quote (escaped : Bool) (s : List (Option Char)) : Complete (quote escaped s) := by
  intro rest
  rw [escapesNul_quote, escapesNul_quote_eq]

/-- A text without a backslash. -/
theorem Complete.plain (h : '\\' ∉ t) : Complete t ∧ escapesNul t = false := by
  induction t with
  | nil => exact ⟨Complete.nil, rfl⟩
  | cons c t ih =>
    rw [List.mem_cons, not_or] at h
    obtain ⟨hcomplete, hnul⟩ := ih h.2
    have hc : c ≠ '\\' := fun heq => h.1 heq.symm
    exact ⟨(Complete.char hc).append hcomplete, (escapesNul_cons hc t).trans hnul⟩

theorem backslash_notMem_intText (n : Int) : '\\' ∉ intText n := by
  intro h
  cases n with
  | ofNat n => exact absurd (isDigit_of_mem_natText h) (by decide)
  | negSucc n =>
    rcases List.mem_cons.mp h with heq | hmem
    · simp at heq
    · exact absurd (isDigit_of_mem_natText hmem) (by decide)

theorem Complete.joined (h : ∀ t ∈ ts, Complete t) :
    Complete (joined ts) ∧ escapesNul (joined ts) = ts.any escapesNul := by
  have htail : ∀ ts : List Text, (∀ t ∈ ts, Complete t) →
      Complete (ts.flatMap (',' :: ·)) ∧
        escapesNul (ts.flatMap (',' :: ·)) = ts.any escapesNul := by
    intro ts h
    induction ts with
    | nil => exact ⟨Complete.nil, rfl⟩
    | cons t ts ih =>
      obtain ⟨hcomplete, hnul⟩ := ih fun t' ht' => h t' (List.mem_cons_of_mem _ ht')
      have ht : Complete (',' :: t) :=
        (Complete.char (by decide)).append (h t List.mem_cons_self)
      refine ⟨ht.append hcomplete, ?_⟩
      rw [List.flatMap_cons, ht, hnul, escapesNul_cons (by decide), List.any_cons]
  cases ts with
  | nil => exact ⟨Complete.nil, rfl⟩
  | cons t ts =>
    obtain ⟨hcomplete, hnul⟩ := htail ts fun t' ht' => h t' (List.mem_cons_of_mem _ ht')
    have ht := h t List.mem_cons_self
    exact ⟨ht.append hcomplete, by rw [Json.joined, ht, hnul, List.any_cons]⟩

/-- Brackets around a text. -/
theorem Complete.bracketed {o : Char} (ho : o ≠ '\\') (hc : c ≠ '\\') (h : Complete t) :
    Complete (o :: t ++ [c]) ∧ escapesNul (o :: t ++ [c]) = escapesNul t := by
  refine ⟨((Complete.char ho).append h).append (Complete.char hc), ?_⟩
  rw [List.cons_append, escapesNul_cons ho, h, escapesNul_singleton hc, Bool.or_false]

/-- An object of complete texts under names without U+0000. -/
theorem Complete.object {ms : List (String × Text)} (h : ∀ m ∈ ms, Complete m.2)
    (hnames : ∀ m ∈ ms, '\x00' ∉ m.1.toList) :
    Complete (object ms) ∧ escapesNul (object ms) = ms.any fun m => escapesNul m.2 := by
  have hmember : ∀ m ∈ ms, Complete (memberText m) ∧
      escapesNul (memberText m) = escapesNul m.2 := by
    intro m hm
    have hname := Complete.quote false (m.1.toList.map some)
    have hvalue : Complete (':' :: m.2) := (Complete.char (by decide)).append (h m hm)
    refine ⟨hname.append hvalue, ?_⟩
    rw [memberText, hname, escapesNul_quote_eq, escapesNul_cons (by decide)]
    simp [hnames m hm]
  have hparts : ∀ t ∈ ms.map memberText, Complete t := by
    intro t ht
    obtain ⟨m, hm, rfl⟩ := List.mem_map.mp ht
    exact (hmember m hm).1
  obtain ⟨hcomplete, hnul⟩ := Complete.joined hparts
  obtain ⟨hobject, hobjectNul⟩ := hcomplete.bracketed (o := '{') (c := '}') (by decide) (by decide)
  refine ⟨hobject, hobjectNul.trans (hnul.trans ?_)⟩
  rw [List.any_map, Bool.eq_iff_iff, List.any_eq_true, List.any_eq_true]
  constructor
  · rintro ⟨m, hm, hzero⟩
    exact ⟨m, hm, (hmember m hm).2 ▸ hzero⟩
  · rintro ⟨m, hm, hzero⟩
    exact ⟨m, hm, (hmember m hm).2.trans hzero⟩

theorem Complete.array (h : ∀ t ∈ ts, Complete t) :
    Complete (array ts) ∧ escapesNul (array ts) = ts.any escapesNul := by
  obtain ⟨hcomplete, hnul⟩ := Complete.joined h
  obtain ⟨harray, harrayNul⟩ := hcomplete.bracketed (o := '[') (c := ']') (by decide) (by decide)
  exact ⟨harray, harrayNul.trans hnul⟩

/-! ## What the encoder writes -/

/-- A value as the encoder writes it: the reader passes over it, compacting
leaves it alone, and it ends outside of an escape. -/
structure Written (v : Text) : Prop where
  value : IsValue v
  settled : Settled v
  complete : Complete v

theorem Written.quote (escaped : Bool) (s : List (Option Char)) : Written (quote escaped s) :=
  ⟨IsValue.quote escaped s, Settled.quote escaped s, Complete.quote escaped s⟩

theorem Written.int (n : Int) : Written (intText n) :=
  ⟨IsValue.int n, Settled.int n, (Complete.plain (backslash_notMem_intText n)).1⟩

theorem Written.object {ms : List (String × Text)} (h : ∀ m ∈ ms, Written m.2)
    (hnames : ∀ m ∈ ms, '\x00' ∉ m.1.toList) : Written (object ms) :=
  ⟨IsValue.object fun m hm => (h m hm).value, Settled.object fun m hm => (h m hm).settled,
    (Complete.object (fun m hm => (h m hm).complete) hnames).1⟩

theorem Written.array {vs : List Text} (h : ∀ v ∈ vs, Written v) : Written (array vs) :=
  ⟨IsValue.array fun v hv => (h v hv).value, Settled.array fun v hv => (h v hv).settled,
    (Complete.array fun v hv => (h v hv).complete).1⟩

/-! ### Sizes -/

theorem size_le (t : Text) : size t ≤ 4 * t.length := by
  induction t with
  | nil => simp
  | cons c t ih =>
    have hc := Char.utf8Size_le_four c
    rw [size_cons, List.length_cons]
    omega

theorem length_le_size (t : Text) : t.length ≤ size t := by
  induction t with
  | nil => exact Nat.zero_le _
  | cons c t ih =>
    have hc := Char.utf8Size_pos c
    rw [List.length_cons, size_cons]
    omega

theorem size_quote_map_le (escaped : Bool) (s : Text) :
    size (quote escaped (s.map some)) ≤ 6 * size s + 2 := by
  have h := size_quote_le escaped (utf8 s)
  rwa [runes_utf8] at h

theorem size_natText_le {n k : Nat} (hk : 0 < k) (h : n < 10 ^ k) : size (natText n) ≤ 4 * k := by
  have hlen : (natText n).length ≤ k := Nat.toDigits_length 10 n k hk h
  exact (size_le _).trans (Nat.mul_le_mul_left 4 hlen)

theorem size_intText_le {n : Int} {k : Nat} (hk : 0 < k) (h : n.natAbs < 10 ^ k) :
    size (intText n) ≤ 4 * k + 1 := by
  cases n with
  | ofNat n => exact (size_natText_le hk h).trans (Nat.le_succ _)
  | negSucc n =>
    have hminus : '-'.utf8Size = 1 := by decide
    have hsize := size_natText_le (n := n + 1) hk h
    rw [intText, size_cons, hminus]
    omega

theorem size_joined_le (ts : List Text) : size (joined ts) ≤ (ts.map fun t => size t + 1).sum := by
  have htail : ∀ ts : List Text,
      size (ts.flatMap (',' :: ·)) = (ts.map fun t => size t + 1).sum := by
    intro ts
    induction ts with
    | nil => rfl
    | cons t ts ih =>
      have hcomma : ','.utf8Size = 1 := by decide
      simp only [List.flatMap_cons, size_append, size_cons, ih, hcomma, List.map_cons,
        List.sum_cons]
      omega
  cases ts with
  | nil => simp [joined]
  | cons t ts =>
    simp only [joined, size_append, htail, List.map_cons, List.sum_cons]
    omega

/-- Brackets, quotes, colons and commas take four bytes a member. -/
theorem size_object_le (ms : List (String × Text)) :
    size (object ms) ≤ (ms.map fun m => 6 * m.1.utf8ByteSize + size m.2 + 4).sum + 2 := by
  have hmember : ∀ m : String × Text,
      size (memberText m) ≤ 6 * m.1.utf8ByteSize + size m.2 + 3 := by
    intro m
    have hname := size_quote_map_le false m.1.toList
    have hlen : size m.1.toList = m.1.utf8ByteSize := by
      rw [size, length_utf8, String.ofList_toList]
    have hcolon : ':'.utf8Size = 1 := by decide
    simp only [memberText, size_append, size_cons, hcolon]
    omega
  have hsum : ((ms.map memberText).map fun t => size t + 1).sum ≤
      (ms.map fun m => 6 * m.1.utf8ByteSize + size m.2 + 4).sum := by
    rw [List.map_map]
    exact List.sum_le_sum fun m _ => Nat.succ_le_succ (hmember m)
  have hjoined := size_joined_le (ms.map memberText)
  have hopen : '{'.utf8Size = 1 := by decide
  have hclose : '}'.utf8Size = 1 := by decide
  simp only [object, List.cons_append, size_cons, size_append, size_nil, hopen, hclose]
  omega

theorem size_object_le_of_names {ms : List (String × Text)} {k : Nat}
    (h : ∀ m ∈ ms, m.1.utf8ByteSize ≤ k) :
    size (object ms) ≤ (ms.map fun m => size m.2).sum + ms.length * (6 * k + 4) + 2 := by
  have hsum : (ms.map fun m => 6 * m.1.utf8ByteSize + size m.2 + 4).sum ≤
      (ms.map fun m => size m.2).sum + ms.length * (6 * k + 4) := by
    induction ms with
    | nil => simp
    | cons m ms ih =>
      have hm := h m List.mem_cons_self
      have hms := ih fun m' hm' => h m' (List.mem_cons_of_mem m hm')
      simp only [List.map_cons, List.sum_cons, List.length_cons, Nat.add_mul]
      omega
  have hobject := size_object_le ms
  omega

theorem size_array_le (vs : List Text) :
    size (array vs) ≤ (vs.map fun v => size v + 1).sum + 2 := by
  have hjoined := size_joined_le vs
  have hopen : '['.utf8Size = 1 := by decide
  have hclose : ']'.utf8Size = 1 := by decide
  simp only [array, List.cons_append, size_cons, size_append, size_nil, hopen, hclose]
  omega

/-! ### Records -/

/-- What the names of a record's members have to be: different in more than
case, without U+0000, and of at most `k` bytes. -/
def Names (names : List String) (k : Nat) : Prop :=
  (names.map fun name => foldName name.toList).Nodup ∧
    ∀ name ∈ names, '\x00' ∉ name.toList ∧ name.utf8ByteSize ≤ k

instance (names : List String) (k : Nat) : Decidable (Names names k) :=
  inferInstanceAs (Decidable (_ ∧ _))

/-- The members of a record as the encoder writes it. -/
structure Members (ms : List (String × Text)) (k : Nat) : Prop where
  names : Names (ms.map Prod.fst) k
  written : ∀ m ∈ ms, Written m.2

namespace Members

variable {ms : List (String × Text)} {k : Nat} (h : Members ms k)

include h

theorem plain : ∀ m ∈ ms, '\x00' ∉ m.1.toList :=
  fun m hm => (h.names.2 m.1 (List.mem_map_of_mem hm)).1

theorem object : Written (object ms) := Written.object h.written h.plain

theorem readObject_eq : readObject (Json.object ms) = some (ms.map fun m => (m.1.toList, m.2)) :=
  readObject_object fun m hm => (h.written m hm).value

theorem nodup : (ms.map fun m => foldName m.1.toList).Nodup := by
  have hnodup := h.names.1
  rwa [List.map_map] at hnodup

theorem field_eq {decode : α → Text → Option α} {name : String} {held : α} {raw : Text}
    (hmem : (name, raw) ∈ ms) :
    field decode name held (ms.map fun m => (m.1.toList, m.2)) = decode held raw :=
  field_of_mem h.nodup hmem

/-- A field reads what its member was written for. -/
theorem field_some {decode : α → Text → Option α} (name : String) {held v : α} {raw : Text}
    (hread : decode held raw = some v) (hmem : (name, raw) ∈ ms) :
    field decode name held (ms.map fun m => (m.1.toList, m.2)) = some v :=
  (h.field_eq hmem).trans hread

omit h in
theorem field_eq_held {decode : α → Text → Option α} {name : String} {held : α}
    (hname : foldName name.toList ∉ (ms.map Prod.fst).map fun n => foldName n.toList) :
    field decode name held (ms.map fun m => (m.1.toList, m.2)) = some held := by
  rw [List.map_map] at hname
  exact field_of_notMem hname

theorem escapesNul_eq :
    escapesNul (Json.object ms) = ms.any fun m => escapesNul m.2 :=
  (Complete.object (fun m hm => (h.written m hm).complete) h.plain).2

theorem size_le :
    size (Json.object ms) ≤ (ms.map fun m => size m.2).sum + ms.length * (6 * k + 4) + 2 :=
  size_object_le_of_names fun m hm => (h.names.2 m.1 (List.mem_map_of_mem hm)).2

end Members

/-- A decoder that goes on after a field was read. -/
theorem bind_of_eq_some {β : Type} {o : Option α} {a : α} {f : α → Option β} {r : Option β}
    (h : o = some a) (hf : f a = r) : o.bind f = r := by
  rw [h]
  exact hf

theorem object_ne_null (ms : List (String × Text)) : object ms ≠ nullText := by
  intro h
  have hhead : some '{' = some 'n' := congrArg List.head? h
  simp at hhead

end RogiCollector.Verified.Json
