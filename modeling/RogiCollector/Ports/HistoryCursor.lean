import RogiCollector.Verified.Base64
import RogiCollector.Ports.SpoolEncoding

/-!
# Signed cursors of the public history

`query/publicapi/history_cursor.go`.  A cursor is a JSON object in base64 with an
HMAC behind a dot; the client hands it back as it is.  One format serves the list
of broadcasts and the chats of a broadcast, told apart by a kind.
-/

namespace RogiCollector.Ports.History

open Verified
open Verified.Json
open Journal (Time)
open SpoolFile (Encoding IsTime isTime)

/-- What the history takes from libraries: the text of an instant, HMAC-SHA-256
under a key, and `uuid.Parse`, which does not take an empty text and whose longest
form has the prefix `urn:uuid:`. -/
structure Tools where
  encoding : Encoding
  mac : Bytes → Bytes → Bytes
  parseUUID : String → Bool
  mac_length : ∀ key body, (mac key body).length = 32
  uuid_empty : parseUUID "" = false
  uuid_size : ∀ s : String, parseUUID s = true → s.utf8ByteSize ≤ 45

structure HistoryCursor where
  version : Int
  kind : String
  sessionID : String
  position : Int
  startedAt : Time
  deriving Repr, DecidableEq

def zeroCursor : HistoryCursor := ⟨0, "", "", 0, 0⟩

variable (T : Tools)

/-- An empty session ID and the position zero are left out; a time never is. -/
def HistoryCursor.members (v : HistoryCursor) (startedAt : Text) : List (String × Text) :=
  [("v", intText v.version), ("k", T.encoding.string v.kind)] ++
    (if v.sessionID = "" then [] else [("s", T.encoding.string v.sessionID)]) ++
    (if v.position = 0 then [] else [("p", intText v.position)]) ++ [("t", startedAt)]

/-- The numbers are an `int` and an `int64`. -/
def HistoryCursor.inRange (v : HistoryCursor) : Bool :=
  -2 ^ 63 ≤ v.version ∧ v.version < 2 ^ 63 ∧ -2 ^ 63 ≤ v.position ∧ v.position < 2 ^ 63

/-- `json.Marshal(value)`. -/
def HistoryCursor.marshal (v : HistoryCursor) : Option Text :=
  if v.inRange then
    (T.encoding.time v.startedAt).map fun startedAt => object (v.members T startedAt)
  else none

/-- `json.Unmarshal(body, &value)`. -/
def decodeCursor (body : Bytes) : Option HistoryCursor := do
  let raw ← document (lossy body)
  if raw = nullText then return zeroCursor
  let ms ← readObject raw
  return {
    version := ← field (intValue (-2 ^ 63) (2 ^ 63 - 1)) "v" 0 ms
    kind := ← field stringValue "k" "" ms
    sessionID := ← field stringValue "s" "" ms
    position := ← field (intValue (-2 ^ 63) (2 ^ 63 - 1)) "p" 0 ms
    startedAt := ← field T.encoding.timeValue "t" 0 ms }

/-- The bytes that are signed: none if the value could not be encoded, an error
that `signHistoryCursor` does not look at. -/
def HistoryCursor.body (v : HistoryCursor) : Bytes :=
  (({ v with version := 1 } : HistoryCursor).marshal T).elim [] utf8

def signHistoryCursor (key : Bytes) (v : HistoryCursor) : String :=
  String.ofList (Base64.encode (v.body T) ++ '.' :: Base64.encode (T.mac key (v.body T)))

/-- `strings.Split(raw, ".")` into exactly two parts. -/
def twoParts (t : Text) : Option (Text × Text) :=
  match t.dropWhile (· ≠ '.') with
  | [] => none
  | _ :: rest => if '.' ∈ rest then none else some (t.takeWhile (· ≠ '.'), rest)

def parseHistoryCursor (key : Bytes) (raw kind : String) : Except String HistoryCursor :=
  if raw = "" then .ok zeroCursor
  else if 1024 < raw.utf8ByteSize then .error "history cursor too long"
  else
    match twoParts raw.toList with
    | none => .error "invalid history cursor"
    | some (head, tail) =>
      match Base64.decode head with
      | none => .error "invalid history cursor"
      | some body =>
        match Base64.decode tail with
        | none => .error "invalid history cursor"
        | some signature =>
          if T.mac key body ≠ signature then .error "invalid history cursor signature"
          else
            match decodeCursor T body with
            | none => .error "invalid history cursor payload"
            | some v =>
              if v.version ≠ 1 ∨ v.kind ≠ kind then
                .error "invalid history cursor payload"
              else .ok v

/-! ## Reading back -/

variable {T} {v : HistoryCursor} {startedAt : Text}

theorem names_members (v : HistoryCursor) (startedAt : Text) :
    (v.members T startedAt).map Prod.fst =
      ["v", "k"] ++ (if v.sessionID = "" then [] else ["s"]) ++
        (if v.position = 0 then [] else ["p"]) ++ ["t"] := by
  rw [HistoryCursor.members]
  split <;> split <;> rfl

theorem cursorMembers (ht : Written startedAt) : Members (v.members T startedAt) 1 := by
  constructor
  · rw [names_members]
    split <;> split <;> decide
  · have hversion : Written (intText v.version) := Written.int _
    have hkind : Written (T.encoding.string v.kind) := SpoolFile.Written.bytes _
    have hsession : Written (T.encoding.string v.sessionID) := SpoolFile.Written.bytes _
    have hposition : Written (intText v.position) := Written.int _
    rw [HistoryCursor.members]
    split <;> split <;> simp [hversion, hkind, ht, hsession, hposition]

theorem cursor_marshal_eq_some {text : Text} (h : v.marshal T = some text) :
    v.inRange = true ∧ ∃ startedAt, IsTime T.encoding v.startedAt startedAt ∧
      text = object (v.members T startedAt) := by
  rw [HistoryCursor.marshal] at h
  split at h
  · rename_i hrange
    obtain ⟨startedAt, ht, rfl⟩ := Option.map_eq_some_iff.mp h
    exact ⟨hrange, startedAt, isTime ht, rfl⟩
  · cases h

theorem isSome_cursor_marshal (hrange : v.inRange = true)
    (htime : (T.encoding.time v.startedAt).isSome = true) : (v.marshal T).isSome = true := by
  rw [HistoryCursor.marshal, if_pos hrange, Option.isSome_map]
  exact htime

/-- The object reads back. -/
theorem decodeCursor_marshal {text : Text} (h : v.marshal T = some text) :
    decodeCursor T (utf8 text) = some v := by
  obtain ⟨hrange, startedAt, ht, rfl⟩ := cursor_marshal_eq_some h
  rw [HistoryCursor.inRange, decide_eq_true_eq] at hrange
  have hms := cursorMembers (T := T) (v := v) ht.written
  have hstring :=
    fun name s => hms.field_some name (SpoolFile.stringValue_string (E := T.encoding) "" s)
  have hsession : field stringValue "s" ""
      ((v.members T startedAt).map fun m => (m.1.toList, m.2)) = some v.sessionID := by
    by_cases hs : v.sessionID = ""
    · rw [hs]
      refine Members.field_eq_held ?_
      rw [names_members, if_pos hs]
      split <;> decide
    · exact hstring "s" v.sessionID (by simp [HistoryCursor.members, hs])
  have hposition : field (intValue (-2 ^ 63) (2 ^ 63 - 1)) "p" 0
      ((v.members T startedAt).map fun m => (m.1.toList, m.2)) = some v.position := by
    by_cases hp : v.position = 0
    · rw [hp]
      refine Members.field_eq_held ?_
      rw [names_members, if_pos hp]
      split <;> decide
    · exact hms.field_some "p" (intValue_intText 0 (by omega) (by omega) (by omega))
        (by simp [HistoryCursor.members, hp])
  have hversion : field (intValue (-2 ^ 63) (2 ^ 63 - 1)) "v" 0
      ((v.members T startedAt).map fun m => (m.1.toList, m.2)) = some v.version :=
    hms.field_some _ (intValue_intText 0 (by omega) (by omega) (by omega))
      (by simp [HistoryCursor.members])
  have hkind := hstring "k" v.kind (by simp [HistoryCursor.members])
  have htime := hms.field_some "t" (ht.read 0) (by simp [HistoryCursor.members])
  unfold decodeCursor
  rw [lossy_utf8]
  refine bind_of_eq_some hms.object.value.document_eq ?_
  rw [if_neg (object_ne_null _)]
  exact bind_of_eq_some hms.readObject_eq <| bind_of_eq_some hversion <|
    bind_of_eq_some hkind <| bind_of_eq_some hsession <| bind_of_eq_some hposition <|
    bind_of_eq_some htime rfl

theorem twoParts_append {a b : Text} (ha : '.' ∉ a) (hb : '.' ∉ b) :
    twoParts (a ++ '.' :: b) = some (a, b) := by
  have hall : ∀ c ∈ a, decide (c ≠ '.') = true := by
    intro c hc
    rw [decide_eq_true_eq]
    rintro rfl
    exact ha hc
  have hdrop : (a ++ '.' :: b).dropWhile (· ≠ '.') = '.' :: b := by
    rw [List.dropWhile_append_of_pos hall]
    rfl
  have htake : (a ++ '.' :: b).takeWhile (· ≠ '.') = a := by
    rw [List.takeWhile_append_of_pos hall]
    simp
  rw [twoParts, hdrop]
  dsimp only
  rw [if_neg hb, htake]

/-- The length of a cursor. -/
theorem size_sign (key : Bytes) (v : HistoryCursor) :
    (signHistoryCursor T key v).utf8ByteSize = (4 * (v.body T).length + 2) / 3 + 44 := by
  have hascii : ∀ c ∈ Base64.alphabet, c.utf8Size = 1 := by
    have hall : Base64.alphabet.all (fun c => c.utf8Size == 1) = true := by decide
    simpa using hall
  have hencode : ∀ b : Bytes, size (Base64.encode b) = (4 * b.length + 2) / 3 := by
    intro b
    rw [← Base64.length_encode]
    have hmem : ∀ c ∈ Base64.encode b, c.utf8Size = 1 := by
      intro c hc
      by_cases h : c ∈ Base64.alphabet
      · exact hascii c h
      · exact absurd hc (Base64.notMem_encode h b)
    generalize Base64.encode b = t at hmem
    induction t with
    | nil => rfl
    | cons c t ih =>
      rw [size_cons, hmem c List.mem_cons_self,
        ih fun c' hc' => hmem c' (List.mem_cons_of_mem c hc'),
        List.length_cons]
      omega
  have hdot : '.'.utf8Size = 1 := by decide
  rw [signHistoryCursor, ← length_utf8]
  change size _ = _
  rw [size_append, size_cons, hencode, hencode, hdot, T.mac_length]

/-- A cursor is no shorter than the session ID it holds. -/
theorem length_sessionID_le {w : HistoryCursor} (h : (w.marshal T).isSome = true)
    (hs : w.sessionID ≠ "") (hw : w.version = 1) :
    w.sessionID.toList.length ≤ (w.body T).length := by
  obtain ⟨text, htext⟩ := Option.isSome_iff_exists.mp h
  obtain ⟨-, startedAt, -, rfl⟩ := cursor_marshal_eq_some htext
  have hmem : ("s", T.encoding.string w.sessionID) ∈ w.members T startedAt := by
    rw [HistoryCursor.members, if_neg hs]
    simp
  have hobject := length_le_object hmem
  have hsize := length_le_size (object (w.members T startedAt))
  have hquote := length_le_flatMap_quoteRune T.encoding.escapesInvalid
    (runes (bytesOf w.sessionID))
  have hstring : (T.encoding.string w.sessionID).length =
      ((runes (bytesOf w.sessionID)).flatMap
        (quoteRune T.encoding.escapesInvalid)).length + 2 := by
    rw [Encoding.string, Encoding.bytes, quote]
    simp
  have hrunes : (runes (bytesOf w.sessionID)).length = w.sessionID.toList.length := by
    rw [bytesOf, runes_utf8, List.length_map]
  have hversion : ({ w with version := 1 } : HistoryCursor) = w := by rw [← hw]
  have hbody : (w.body T).length = size (object (w.members T startedAt)) := by
    rw [HistoryCursor.body, hversion, htext]
    rfl
  dsimp only at hobject
  omega

theorem sign_ne_empty (key : Bytes) (v : HistoryCursor) : signHistoryCursor T key v ≠ "" := by
  intro heq
  have hlen := size_sign (T := T) key v
  rw [heq] at hlen
  have hzero : ("" : String).utf8ByteSize = 0 := by decide
  omega

theorem twoParts_sign (key : Bytes) (v : HistoryCursor) :
    twoParts (signHistoryCursor T key v).toList =
      some (Base64.encode (v.body T), Base64.encode (T.mac key (v.body T))) := by
  rw [signHistoryCursor, String.toList_ofList]
  exact twoParts_append (Base64.notMem_encode (by decide) _) (Base64.notMem_encode (by decide) _)

/-- What becomes of a signed cursor: a value that can be encoded comes back under
its kind if the cursor is not too long, and is refused under every other kind. -/
theorem parse_sign (key : Bytes) (kind : String)
    (hsome : (({ v with version := 1 } : HistoryCursor).marshal T).isSome = true)
    (hsize : (signHistoryCursor T key v).utf8ByteSize ≤ 1024) :
    parseHistoryCursor T key (signHistoryCursor T key v) kind =
      if v.kind = kind then .ok { v with version := 1 }
      else .error "invalid history cursor payload" := by
  obtain ⟨text, htext⟩ := Option.isSome_iff_exists.mp hsome
  have hbody : v.body T = utf8 text := by
    rw [HistoryCursor.body, htext]
    rfl
  have hdecode := decodeCursor_marshal htext
  rw [parseHistoryCursor, if_neg (sign_ne_empty key v), if_neg (Nat.not_lt.mpr hsize),
    twoParts_sign]
  simp only [Base64.decode_encode, ne_eq, not_true_eq_false, if_false, hbody, hdecode, false_or]
  by_cases hkind : v.kind = kind
  · rw [if_neg (not_not_intro hkind), if_pos hkind]
  · rw [if_pos hkind, if_neg hkind]

/-- Under another kind a cursor is refused, whatever it holds. -/
theorem parse_sign_other (key : Bytes) {kind : String} (h : v.kind ≠ kind) :
    ∃ e, parseHistoryCursor T key (signHistoryCursor T key v) kind = .error e := by
  by_cases hsize : (signHistoryCursor T key v).utf8ByteSize ≤ 1024
  · cases hmarshal : ({ v with version := 1 } : HistoryCursor).marshal T with
    | some text =>
      rw [parse_sign key kind (by rw [hmarshal]; rfl) hsize, if_neg h]
      exact ⟨_, rfl⟩
    | none =>
      have hbody : v.body T = [] := by
        rw [HistoryCursor.body, hmarshal]
        rfl
      have hnone : decodeCursor T [] = none := rfl
      rw [parseHistoryCursor, if_neg (sign_ne_empty key v), if_neg (Nat.not_lt.mpr hsize),
        twoParts_sign]
      simp only [Base64.decode_encode, ne_eq, not_true_eq_false, if_false, hbody, hnone]
      exact ⟨_, rfl⟩
  · rw [parseHistoryCursor, if_neg (sign_ne_empty key v), if_pos (Nat.lt_of_not_le hsize)]
    exact ⟨_, rfl⟩

end RogiCollector.Ports.History
