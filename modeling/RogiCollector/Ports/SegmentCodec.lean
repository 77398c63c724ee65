import RogiCollector.Verified.JsonStream
import RogiCollector.Ports.ArchiveTiers
import RogiCollector.Ports.SpoolEncoding

/-!
# The codec of archive segments

`query/archive/segment.go` with the lines of a segment as `encoding/json` writes
and reads them.  Compression, hashing and the syntax of a UUID stay parameters
(`SegmentTools`): gzip is inverted by its decoder, refuses an empty body and
enlarges a text by less than one percent and 64 bytes.

`Build` and `Decode` have their limits twice, and the exporter halves a batch
that is too large.  That ends well because one chat that passed
`ArchiveChatRecord.Validate` is far from the limits, with every byte escaped.
-/

namespace RogiCollector.Ports.Archive

open Verified
open Verified.Json
open Journal (Time)
open SpoolFile (Encoding IsTime isTime)

/-! ## Lines -/

variable (E : Encoding)

def ChatRow.members (row : ChatRow) (receivedAt : Text) : List (String × Text) :=
  [("sessionId", E.string row.sessionID), ("position", intText row.position),
    ("eventId", E.string row.eventID), ("receivedAt", receivedAt),
    ("userIdVersion", intText row.userIDVersion), ("publicUserId", E.string row.publicUserID),
    ("displayName", E.string row.displayName), ("message", E.string row.message)]

/-- The numbers are an `int64` and an `int16`. -/
def ChatRow.inRange (row : ChatRow) : Bool :=
  row.position < 2 ^ 63 ∧ -2 ^ 15 ≤ row.userIDVersion ∧ row.userIDVersion < 2 ^ 15

/-- `json.Marshal(row)`. -/
def ChatRow.marshal (row : ChatRow) : Option Text :=
  if row.inRange then
    (E.time row.receivedAt).map fun receivedAt => object (row.members E receivedAt)
  else none

def zeroRow : ChatRow := ⟨"", 0, "", 0, 0, "", "", ""⟩

/-- `decoder.Decode(&row)` on the text of a value.  A negative position is no
better than zero, which `Decode` refuses. -/
def decodeRow (raw : Text) : Option ChatRow :=
  if raw = nullText then some zeroRow
  else do
    let ms ← readObject raw
    return {
      sessionID := ← field stringValue "sessionId" "" ms
      position := (← field (intValue (-2 ^ 63) (2 ^ 63 - 1)) "position" 0 ms).toNat
      eventID := ← field stringValue "eventId" "" ms
      receivedAt := ← field E.timeValue "receivedAt" 0 ms
      userIDVersion := ← field (intValue (-2 ^ 15) (2 ^ 15 - 1)) "userIdVersion" 0 ms
      publicUserID := ← field stringValue "publicUserId" "" ms
      displayName := ← field stringValue "displayName" "" ms
      message := ← field stringValue "message" "" ms }

section Line

variable {E} {row : ChatRow} {receivedAt : Text}

theorem rowMembers (row : ChatRow) (ht : Written receivedAt) :
    Members (row.members E receivedAt) 13 := by
  constructor
  · simp only [ChatRow.members, List.map_cons, List.map_nil]
    decide
  · simp only [ChatRow.members, List.forall_mem_cons, List.not_mem_nil, false_imp_iff,
      implies_true, and_true]
    exact ⟨SpoolFile.Written.bytes _, Written.int _, SpoolFile.Written.bytes _, ht,
      Written.int _, SpoolFile.Written.bytes _, SpoolFile.Written.bytes _,
      SpoolFile.Written.bytes _⟩

variable {line : Text}

theorem marshal_eq_some (h : row.marshal E = some line) :
    row.inRange = true ∧ ∃ receivedAt, IsTime E row.receivedAt receivedAt ∧
      line = object (row.members E receivedAt) := by
  rw [ChatRow.marshal] at h
  split at h
  · rename_i hrange
    obtain ⟨receivedAt, ht, rfl⟩ := Option.map_eq_some_iff.mp h
    exact ⟨hrange, receivedAt, isTime ht, rfl⟩
  · cases h

/-- A line reads back as its row. -/
theorem decodeRow_marshal (h : row.marshal E = some line) : decodeRow E line = some row := by
  obtain ⟨hrange, receivedAt, ht, rfl⟩ := marshal_eq_some h
  rw [ChatRow.inRange, decide_eq_true_eq] at hrange
  have hms := rowMembers row (E := E) ht.written
  have hstring := fun name s => hms.field_some name (SpoolFile.stringValue_string (E := E) "" s)
  have hsession := hstring "sessionId" row.sessionID (by simp [ChatRow.members])
  have hevent := hstring "eventId" row.eventID (by simp [ChatRow.members])
  have hpublic := hstring "publicUserId" row.publicUserID (by simp [ChatRow.members])
  have hname := hstring "displayName" row.displayName (by simp [ChatRow.members])
  have hmessage := hstring "message" row.message (by simp [ChatRow.members])
  have hposition : field (intValue (-2 ^ 63) (2 ^ 63 - 1)) "position" 0
      ((row.members E receivedAt).map fun m => (m.1.toList, m.2)) = some (row.position : Int) :=
    hms.field_some _ (intValue_intText 0 (by omega) (by omega) (by omega))
      (by simp [ChatRow.members])
  have hversion : field (intValue (-2 ^ 15) (2 ^ 15 - 1)) "userIdVersion" 0
      ((row.members E receivedAt).map fun m => (m.1.toList, m.2)) = some row.userIDVersion :=
    hms.field_some _ (intValue_intText 0 (by omega) (by omega) (by omega))
      (by simp [ChatRow.members])
  have htime := hms.field_some "receivedAt" (ht.read 0) (by simp [ChatRow.members])
  rw [decodeRow, if_neg (object_ne_null _)]
  exact bind_of_eq_some hms.readObject_eq <|
    bind_of_eq_some hsession <| bind_of_eq_some hposition <| bind_of_eq_some hevent <|
    bind_of_eq_some htime <| bind_of_eq_some hversion <|
    bind_of_eq_some hpublic <| bind_of_eq_some hname <| bind_of_eq_some hmessage rfl

/-- The length of a line, with every byte of its strings escaped. -/
theorem size_marshal_le (h : row.marshal E = some line) :
    size line ≤ 6 * (row.sessionID.utf8ByteSize + row.eventID.utf8ByteSize +
      row.publicUserID.utf8ByteSize + row.displayName.utf8ByteSize + row.message.utf8ByteSize) +
      1100 := by
  obtain ⟨hrange, receivedAt, ht, rfl⟩ := marshal_eq_some h
  rw [ChatRow.inRange, decide_eq_true_eq] at hrange
  have hobject := (rowMembers row (E := E) ht.written).size_le
  have hstring : ∀ s : String, size (E.string s) ≤ 6 * s.utf8ByteSize + 2 := by
    intro s
    have hs := SpoolFile.size_bytes_le (E := E) (bytesOf s)
    rwa [length_bytesOf] at hs
  have hsession := hstring row.sessionID
  have hevent := hstring row.eventID
  have hpublic := hstring row.publicUserID
  have hname := hstring row.displayName
  have hmessage := hstring row.message
  have hposition : size (intText row.position) ≤ 4 * 19 + 1 :=
    size_intText_le (by decide) (by omega)
  have hversion : size (intText row.userIDVersion) ≤ 4 * 5 + 1 :=
    size_intText_le (by decide) (by omega)
  have hreceived := ht.size_le
  simp only [ChatRow.members, List.map_cons, List.map_nil, List.sum_cons, List.sum_nil,
    List.length_cons, List.length_nil] at hobject ⊢
  omega

end Line

/-! ## The codec -/

/-- What the archive calls from `compress/gzip`, `crypto/sha256`, `uuid` and
`regexp`.  `β` is the type of object bodies; the longest form of a UUID has the
prefix `urn:uuid:`. -/
structure SegmentTools (β : Type) where
  compress : Bytes → β
  expand : β → Option Bytes
  size : β → Nat
  sha256Hex : β → String
  parseUUID : String → Bool
  validObject : String → String → Bool
  expand_compress : ∀ b, expand (compress b) = some b
  expand_size : ∀ body b, expand body = some b → 0 < size body
  compress_size : ∀ b, 100 * size (compress b) < 101 * b.length + 6400
  sha256_slash : ∀ body, '/' ∉ (sha256Hex body).toList
  uuid_size : ∀ s : String, parseUUID s = true → s.utf8ByteSize ≤ 45

variable {β : Type} (L : SegmentTools β)

/-- The line of a row that can be marshalled. -/
def ChatRow.line (row : ChatRow) : Text := (row.marshal E).getD []

theorem delimited_line {E : Encoding} {row : ChatRow} (h : (row.marshal E).isSome = true) :
    Delimited (row.line E) := by
  obtain ⟨line, hline⟩ := Option.isSome_iff_exists.mp h
  obtain ⟨-, receivedAt, ht, rfl⟩ := marshal_eq_some hline
  rw [ChatRow.line, hline]
  exact Delimited.object fun m hm => ((rowMembers _ ht.written).written m hm).value

/-- The codec of the program.  An invalid byte of an expanded body is read as
U+FFFD, which stands in a string or is an error. -/
def segmentCodec : Codec β where
  lineLen row := (row.marshal E).map size
  encode rows := L.compress (utf8 (lines (rows.map fun row => row.line E)))
  size := L.size
  sha256Hex := L.sha256Hex
  plainLen body := (L.expand body).map List.length
  decode body :=
    match L.expand body with
    | none => ([], false)
    | some b => decodeEach (decodeRow E) (values (lossy b)).2 (values (lossy b)).1
  parseUUID := L.parseUUID
  validObject := L.validObject
  round_trip := by
    intro rows h
    have hrow : ∀ row ∈ rows, (row.marshal E).isSome = true := by
      intro row hrow
      have hsome := h row hrow
      rwa [Option.isSome_map] at hsome
    have hvalues : values (lines (rows.map fun row => row.line E)) =
        (rows.map fun row => row.line E, true) := by
      refine values_lines ?_
      intro line hline
      obtain ⟨row, hmem, rfl⟩ := List.mem_map.mp hline
      exact delimited_line (hrow row hmem)
    have hdecode : ∀ row ∈ rows, decodeRow E (row.line E) = some row := by
      intro row hmem
      obtain ⟨line, hline⟩ := Option.isSome_iff_exists.mp (hrow row hmem)
      rw [ChatRow.line, hline]
      exact decodeRow_marshal hline
    simp only [L.expand_compress, lossy_utf8, hvalues]
    exact decodeEach_map hdecode true
  plain_encode := by
    intro rows
    have hline : ∀ row : ChatRow, size (row.line E) = ((row.marshal E).map size).getD 0 := by
      intro row
      rw [ChatRow.line]
      cases row.marshal E with
      | none | some => rfl
    have hsize := size_lines (rows.map fun row => row.line E)
    rw [L.expand_compress, Option.map_some]
    simp only [List.map_map, Function.comp_def, hline] at hsize
    exact congrArg some hsize
  sha256_slash := L.sha256_slash

variable {E L}

theorem segmentCodec_size {rows : List ChatRow} :
    (segmentCodec E L).size ((segmentCodec E L).encode rows) ≠ 0 :=
  Nat.ne_of_gt (L.expand_size _ _ (L.expand_compress _))

/-! ## What `Decode` accepts -/

/-- The rows are what the segment says. -/
structure Framed (x : Segment β) (rows : List ChatRow) : Prop where
  session : ∀ r ∈ rows, r.sessionID = x.sessionID
  ordered : Increasing rows
  positive : ∀ r ∈ rows, 0 < r.position
  count : rows.length = x.count
  first : rows.head?.map (·.position) = some x.firstPosition
  last : rows.getLast?.map (·.position) = some x.lastPosition

section Decode

variable {K : Codec β} {x : Segment β} {rows : List ChatRow}

variable {previous n last : Nat}

theorem decodeRows_cons {row : ChatRow} (h : decodeRows x previous n (row :: rows) = .ok last) :
    row.sessionID = x.sessionID ∧ previous < row.position ∧
      decodeRows x row.position (n + 1) rows = .ok last := by
  rw [decodeRows] at h
  split at h
  · cases h
  rename_i hrow
  split at h
  · cases h
  push Not at hrow
  exact ⟨hrow.1, hrow.2.1, h⟩

/-- The rows of the loop are of the session, and come in order. -/
theorem decodeRows_ordered (h : decodeRows x previous n rows = .ok last) :
    (∀ r ∈ rows, r.sessionID = x.sessionID ∧ previous < r.position) ∧ Increasing rows := by
  induction rows generalizing previous n with
  | nil => exact ⟨by simp, List.Pairwise.nil⟩
  | cons row rows ih =>
    obtain ⟨hsession, hlt, hrest⟩ := decodeRows_cons h
    obtain ⟨hrows, hordered⟩ := ih hrest
    refine ⟨?_, List.pairwise_cons.mpr ⟨fun r hr => (hrows r hr).2, hordered⟩⟩
    intro r hr
    rcases List.mem_cons.mp hr with rfl | hr
    · exact ⟨hsession, hlt⟩
    · exact ⟨(hrows r hr).1, Nat.lt_trans hlt (hrows r hr).2⟩

theorem decodeRows_last (h : decodeRows x previous n rows = .ok last) :
    last = (rows.getLast?.map (·.position)).getD previous := by
  induction rows generalizing previous n with
  | nil =>
    cases h
    rfl
  | cons row rows ih =>
    obtain ⟨-, -, hrest⟩ := decodeRows_cons h
    rw [ih hrest]
    cases rows with
    | nil => rfl
    | cons next rows => rw [List.getLast?_cons_cons, List.getLast?_cons, Option.map_some]; rfl

/-- What `Decode` returns is what the segment says. -/
theorem decode_framed (h : decode K x = .ok rows) : Framed x rows := by
  unfold decode at h
  split at h
  · cases h
  split at h
  · cases h
  split at h
  · cases h
  split at h
  · cases h
  split at h
  · cases h
  rename_i previous hloop
  split at h
  · cases h
  split at h
  · cases h
  rename_i hends
  cases h
  push Not at hends
  obtain ⟨hcount, hfirst, hlast⟩ := hends
  obtain ⟨hrows, hordered⟩ := decodeRows_ordered hloop
  have hprevious := decodeRows_last hloop
  refine ⟨fun r hr => (hrows r hr).1, hordered, fun r hr => (hrows r hr).2, hcount, hfirst, ?_⟩
  cases hgetLast : (K.decode x.body).1.getLast? with
  | none =>
    rw [List.getLast?_eq_none_iff.mp hgetLast] at hfirst
    cases hfirst
  | some row =>
    rw [hgetLast] at hprevious
    rw [← hlast, hprevious]
    rfl

end Decode

/-! ## Halving a batch -/

section Halving

variable {K : Codec β} {rows : List ChatRow}

/-- What a batch is: rows of one session in order, which can be encoded. -/
structure IsBatch (K : Codec β) (session : String) (rows : List ChatRow) : Prop where
  count : rows.length ≤ maxSegmentRows
  uuid : K.parseUUID session = true
  session : ∀ r ∈ rows, r.sessionID = session
  ordered : Increasing rows
  positive : ∀ r ∈ rows, 0 < r.position
  named : ∀ r ∈ rows, r.eventID ≠ ""
  timed : ∀ r ∈ rows, r.receivedAt ≠ 0
  encoded : ∀ r ∈ rows, (K.lineLen r).isSome = true

variable {session : String}

theorem IsBatch.take (h : IsBatch K session rows) (n : Nat) : IsBatch K session (rows.take n) where
  count := (List.length_take_le' n rows).trans h.count
  uuid := h.uuid
  session r hr := h.session r (List.mem_of_mem_take hr)
  ordered := h.ordered.sublist (List.take_sublist n rows)
  positive r hr := h.positive r (List.mem_of_mem_take hr)
  named r hr := h.named r (List.mem_of_mem_take hr)
  timed r hr := h.timed r (List.mem_of_mem_take hr)
  encoded r hr := h.encoded r (List.mem_of_mem_take hr)

theorem IsBatch.tail {row : ChatRow} (h : IsBatch K session (row :: rows)) :
    IsBatch K session rows where
  count := (Nat.le_succ _).trans h.count
  uuid := h.uuid
  session r hr := h.session r (List.mem_cons_of_mem row hr)
  ordered := (List.pairwise_cons.mp h.ordered).2
  positive r hr := h.positive r (List.mem_cons_of_mem row hr)
  named r hr := h.named r (List.mem_cons_of_mem row hr)
  timed r hr := h.timed r (List.mem_cons_of_mem row hr)
  encoded r hr := h.encoded r (List.mem_cons_of_mem row hr)

/-- The text is all the loop of `Build` can object to. -/
theorem IsBatch.buildRows (h : IsBatch K session rows) {previous plain : Nat}
    (hprevious : ∀ r ∈ rows, previous < r.position) :
    (∃ last, buildRows K session previous plain rows = .ok last) ∨
      buildRows K session previous plain rows = .error .tooLarge ∧
        maxSegmentPlainBytes < plain + (rows.map fun r => (K.lineLen r).getD 0 + 1).sum := by
  induction rows generalizing previous plain with
  | nil => exact Or.inl ⟨previous, rfl⟩
  | cons row rows ih =>
    obtain ⟨len, hlen⟩ := Option.isSome_iff_exists.mp (h.encoded row List.mem_cons_self)
    have hrow : ¬(row.sessionID ≠ session ∨ row.position ≤ previous ∨ row.eventID = "" ∨
        row.receivedAt = 0) := by
      push Not
      exact ⟨h.session row List.mem_cons_self, hprevious row List.mem_cons_self,
        h.named row List.mem_cons_self, h.timed row List.mem_cons_self⟩
    have hsum : ((row :: rows).map fun r => (K.lineLen r).getD 0 + 1).sum =
        len + 1 + (rows.map fun r => (K.lineLen r).getD 0 + 1).sum := by
      rw [List.map_cons, List.sum_cons, hlen, Option.getD_some]
    rw [Archive.buildRows, if_neg hrow, hlen, hsum]
    dsimp only
    by_cases hlarge : maxSegmentPlainBytes < plain + len + 1
    · rw [if_pos hlarge]
      exact Or.inr ⟨rfl, by omega⟩
    · rw [if_neg hlarge]
      rcases ih h.tail (List.pairwise_cons.mp h.ordered).1 with hok | ⟨herror, hlt⟩
      · exact Or.inl hok
      · exact Or.inr ⟨herror, by omega⟩

/-- A batch is built unless it is too large. -/
theorem IsBatch.build (h : IsBatch K session rows) (hne : rows ≠ []) :
    (∃ x, build K rows = .ok x) ∨ build K rows = .error .tooLarge ∧
      (maxSegmentPlainBytes < (rows.map fun r => (K.lineLen r).getD 0 + 1).sum ∨
        maxSegmentGzipBytes < K.size (K.encode rows)) := by
  cases rows with
  | nil => exact absurd rfl hne
  | cons first rest =>
    have hsession := h.session first List.mem_cons_self
    have hfirst : ¬((!K.parseUUID first.sessionID) = true ∨ first.position = 0) := by
      rw [hsession, h.uuid]
      have hpos := h.positive first List.mem_cons_self
      simp only [Bool.not_true, Bool.false_eq_true, false_or]
      omega
    rw [Archive.build, if_neg (Nat.not_lt.mpr h.count), if_neg hfirst, hsession]
    rcases h.buildRows (fun r hr => h.positive r hr) with ⟨last, hok⟩ | ⟨herror, hlt⟩
    · rw [hok]
      dsimp only
      by_cases hlarge : maxSegmentGzipBytes < K.size (K.encode (first :: rest))
      · rw [if_pos hlarge]
        exact Or.inr ⟨rfl, Or.inr hlarge⟩
      · rw [if_neg hlarge]
        exact Or.inl ⟨_, rfl⟩
    · rw [herror]
      exact Or.inr ⟨rfl, Or.inl (by omega)⟩

/-- A row that is a segment on its own. -/
structure Fits (K : Codec β) (row : ChatRow) : Prop where
  plain : (K.lineLen row).getD 0 + 1 ≤ maxSegmentPlainBytes
  gzip : K.size (K.encode [row]) ≤ maxSegmentGzipBytes

/-- The loop of `RunOnce` ends with a first part of the batch if each of its rows
fits on its own. -/
theorem IsBatch.halving (h : IsBatch K session rows) (hne : rows ≠ [])
    (hfits : ∀ r ∈ rows, Fits K r) :
    ∃ n x, 0 < n ∧ n ≤ rows.length ∧ Archive.build K (rows.take n) = .ok x ∧
      buildHalving K rows = .ok x := by
  induction hlen : rows.length using Nat.strong_induction_on generalizing rows with
  | _ len ih =>
    subst hlen
    have hpos := List.length_pos_iff.mpr hne
    rw [buildHalving_eq]
    rcases h.build hne with ⟨x, hx⟩ | ⟨herror, hlarge⟩
    · rw [hx]
      exact ⟨rows.length, x, hpos, Nat.le_refl _, by rwa [List.take_length], rfl⟩
    rw [herror]
    by_cases hone : 1 < rows.length
    · rw [if_pos hone]
      have hhalf : (rows.take (rows.length / 2)).length = rows.length / 2 := by
        rw [List.length_take]
        omega
      have hhalfNe : rows.take (rows.length / 2) ≠ [] := by
        rw [← List.length_pos_iff, hhalf]
        omega
      obtain ⟨n, x, hn, hle, hx, hhalving⟩ := ih _ (by omega) (h.take _) hhalfNe
        (fun r hr => hfits r (List.mem_of_mem_take hr)) rfl
      rw [hhalf] at hle
      rw [List.take_take, Nat.min_eq_left hle] at hx
      exact ⟨n, x, hn, by omega, hx, hhalving⟩
    · -- One row is never too large.
      obtain ⟨row, rfl⟩ := List.length_eq_one_iff.mp (show rows.length = 1 by omega)
      have hrow := hfits row List.mem_cons_self
      have hplain := hrow.plain
      have hgzip := hrow.gzip
      simp only [List.map_cons, List.map_nil, List.sum_cons, List.sum_nil] at hlarge
      omega

end Halving

/-! ## Batches of the exporter -/

/-- The size limits of `Validate`. -/
structure Limits (row : ChatRow) : Prop where
  eventID : row.eventID.utf8ByteSize ≤ 255
  message : row.message.utf8ByteSize ≤ 65536
  displayName : row.displayName.utf8ByteSize ≤ 2048
  publicUserID : hex32 row.publicUserID = true

theorem Limits.size_publicUserID {row : ChatRow} (h : Limits row) :
    row.publicUserID.utf8ByteSize ≤ 256 := by
  have hhex := h.publicUserID
  rw [hex32, decide_eq_true_eq] at hhex
  have hsize := size_le row.publicUserID.toList
  rw [hhex.1] at hsize
  rw [← length_bytesOf]
  exact hsize

/-- A row within the limits of `Validate` is a segment on its own. -/
theorem Limits.fits {row : ChatRow} (h : Limits row) (huuid : L.parseUUID row.sessionID = true)
    (hsome : (row.marshal E).isSome = true) : Fits (segmentCodec E L) row := by
  obtain ⟨line, hline⟩ := Option.isSome_iff_exists.mp hsome
  have hsize := size_marshal_le hline
  have hsession := L.uuid_size _ huuid
  have hevent := h.eventID
  have hmessage := h.message
  have hname := h.displayName
  have hpublic := h.size_publicUserID
  have hlen : (segmentCodec E L).lineLen row = some (size line) :=
    congrArg (Option.map size) hline
  have hrowLine : row.line E = line := by
    rw [ChatRow.line, hline]
    rfl
  have hplain : (utf8 (lines [line])).length = size line + 1 := size_lines [line]
  have hgzip := L.compress_size (utf8 (lines [line]))
  rw [hplain] at hgzip
  constructor
  · rw [hlen, Option.getD_some, maxSegmentPlainBytes]
    omega
  · change L.size (L.compress (utf8 (lines [row.line E]))) ≤ maxSegmentGzipBytes
    rw [hrowLine, maxSegmentGzipBytes]
    omega

/-- A hot row is of a record that passed `Validate`.  Its session is a UUID, its
position an identity value, its version a `SMALLINT`, and its time has a year that
RFC 3339 can write. -/
structure HotRow (E : Encoding) (L : SegmentTools β) (p : Nat) (row : ChatRow) : Prop where
  validated : ∃ r : ChatRecord, r.validate (segmentCodec E L) = .ok () ∧
    row = r.row row.sessionID p
  uuid : L.parseUUID row.sessionID = true
  positive : 0 < p
  encoded : (row.marshal E).isSome = true

/-- The hot table, as `AppendArchiveChat` fills it. -/
def HotTable (E : Encoding) (L : SegmentTools β) (db : Db) : Prop :=
  ∀ p row, db.hot.Has p row → HotRow E L p row

variable {r : ChatRecord}

theorem limits_of_validate {K : Codec β} (h : r.validate K = .ok ()) (session : String)
    (p : Nat) :
    r.eventID ≠ "" ∧ r.receivedAt ≠ 0 ∧ Limits (r.row session p) := by
  unfold ChatRecord.validate at h
  split at h
  · cases h
  split at h
  · cases h
  rename_i hfields
  split at h
  · cases h
  rename_i hhex
  push Not at hfields
  obtain ⟨hevent, heventSize, -, -, htime, -, hmessage, hname⟩ := hfields
  have hpublic : hex32 r.publicUserID = true := by simpa using hhex
  exact ⟨hevent, htime, heventSize, hmessage, hname, hpublic⟩

section HotRow

variable {p : Nat} {row : ChatRow} (h : HotRow E L p row)

include h

theorem HotRow.position : row.position = p := by
  obtain ⟨r, -, heq⟩ := h.validated
  rw [heq]
  rfl

theorem HotRow.named : row.eventID ≠ "" ∧ row.receivedAt ≠ 0 := by
  obtain ⟨r, hvalid, heq⟩ := h.validated
  have hlimits := limits_of_validate hvalid row.sessionID p
  rw [heq]
  exact ⟨hlimits.1, hlimits.2.1⟩

theorem HotRow.limits : Limits row := by
  obtain ⟨r, hvalid, heq⟩ := h.validated
  rw [heq]
  exact (limits_of_validate hvalid _ _).2.2

end HotRow

variable {db : Db}

/-- What `NextBatch` returns is a batch of hot rows. -/
theorem nextBatch_isBatch (h : HotTable E L db) {channel : String} {cutoff : Time} {limit : Nat}
    {rows : List ChatRow} (hb : nextBatch db channel cutoff limit = .ok rows) (hne : rows ≠ []) :
    (∃ session, IsBatch (segmentCodec E L) session rows) ∧ ∀ r ∈ rows, Limits r := by
  unfold nextBatch at hb
  split at hb
  · cases hb
  split at hb
  · cases hb
    exact absurd rfl hne
  rename_i first _
  dsimp only at hb
  split at hb
  · cases hb
  cases hb
  have hordered := hotRows_increasing (fun hp => (h _ _ hp).position) first.sessionID
    first.position (nextIndexed db first.sessionID first.position)
  have hmem : ∀ r ∈ hotRows db first.sessionID first.position
      (nextIndexed db first.sessionID first.position),
      r.sessionID = first.sessionID ∧ HotRow E L r.position r := by
    intro r hr
    obtain ⟨p, hp, hsession, -⟩ := mem_hotRows.mp hr
    have hrow := h p r hp
    exact ⟨hsession, hrow.position.symm ▸ hrow⟩
  generalize hotRows db first.sessionID first.position
    (nextIndexed db first.sessionID first.position) = all at hordered hmem hne ⊢
  have htake : ∀ r ∈ all.take limit, r.sessionID = first.sessionID ∧ HotRow E L r.position r :=
    fun r hr => hmem r (List.mem_of_mem_take hr)
  obtain ⟨row, hrow⟩ := List.exists_mem_of_ne_nil _ hne
  refine ⟨⟨first.sessionID, ?_⟩, fun r hr => (htake r hr).2.limits⟩
  exact
    { count := by
        rw [List.length_take]
        omega
      uuid := by
        rw [← (htake row hrow).1]
        exact (htake row hrow).2.uuid
      session := fun r hr => (htake r hr).1
      ordered := hordered.sublist (List.take_sublist limit all)
      positive := fun r hr => (htake r hr).2.positive
      named := fun r hr => (htake r hr).2.named.1
      timed := fun r hr => (htake r hr).2.named.2
      encoded := fun r hr => by
        change ((r.marshal E).map size).isSome = true
        rw [Option.isSome_map]
        exact (htake r hr).2.encoded }

/-! ## The hot table along a run -/

/-- The hot rows and the session IDs of a database. -/
structure HotInv (E : Encoding) (L : SegmentTools β) (db : Db) : Prop where
  hot : HotTable E L db
  uuid : ∀ id row, db.sessions.Has id row → L.parseUUID id = true

/-- What the types of an append promise: the ID drawn is a UUID, and the position,
the version and the time are a `BIGINT`, an `int16` and one that came out of a JSON
text. -/
def typed (E : Encoding) (L : SegmentTools β) : Input → Bool
  | .append r uuid position _ =>
    L.parseUUID uuid && ((r.row uuid position).marshal E).isSome
  | _ => true

theorem isSome_marshal (row : ChatRow) :
    (row.marshal E).isSome = (row.inRange && (E.time row.receivedAt).isSome) := by
  rw [ChatRow.marshal]
  cases row.inRange with
  | false => rfl
  | true => rw [if_pos rfl, Option.isSome_map, Bool.true_and]

theorem ensureSession_uuid {uuid : String} {b : BroadcastRow}
    {sessions : Table String SessionRow} {session : String}
    (hdb : ∀ id row, db.sessions.Has id row → L.parseUUID id = true)
    (huuid : L.parseUUID uuid = true) (h : ensureSession db uuid r b = .ok (sessions, session)) :
    L.parseUUID session = true ∧ ∀ id row, sessions.Has id row → L.parseUUID id = true := by
  unfold ensureSession at h
  split at h
  · rename_i found hfound
    cases h
    obtain ⟨⟨id, row⟩, hrow, rfl⟩ := Option.map_eq_some_iff.mp hfound
    have hsel := Table.mem_select.mp (List.mem_of_mem_head? hrow)
    exact ⟨hdb id row hsel.1, hdb⟩
  · split at h
    · cases h
    rename_i sessions' hins
    cases h
    refine ⟨huuid, ?_⟩
    intro id row hrow
    rcases ((Table.insert_eq_some hins).2 id row).mp hrow with hold | ⟨rfl, -⟩
    · exact hdb id row hold
    · exact huuid

variable {db' : Db}

/-- `AppendArchiveChat` puts a validated record into the hot table. -/
theorem HotInv.append (hinv : HotInv E L db) {B : Journal.Backend} {uuid : String}
    {position : Nat} {assigned : Bool} (hpos : 0 < position) (huuid : L.parseUUID uuid = true)
    (hsome : ((r.row uuid position).marshal E).isSome = true)
    (h : appendArchiveChat (segmentCodec E L) B uuid position db r = .ok (db', assigned)) :
    HotInv E L db' := by
  unfold appendArchiveChat at h
  split at h
  · cases h
  rename_i hvalid
  split at h
  · cases h
  split at h
  · split at h
    · cases h
    rename_i sessions session hsession
    obtain ⟨hsessionID, hsessions⟩ := ensureSession_uuid hinv.uuid huuid hsession
    split at h
    · cases h
      exact ⟨hinv.hot, hsessions⟩
    split at h
    · cases h
    rename_i hot hins
    cases h
    constructor
    · intro p row hrow
      rcases ((Table.insert_eq_some hins).2 p row).mp hrow with hold | ⟨rfl, rfl⟩
      · exact hinv.hot p row hold
      · -- The session is no part of what a line can fail on.
        have hrow' : ((r.row session p).marshal E).isSome = true := by
          rw [isSome_marshal] at hsome ⊢
          exact hsome
        exact ⟨⟨r, hvalid, rfl⟩, hsessionID, hpos, hrow'⟩
    · intro id row hrow
      rcases Table.has_modify.mp hrow with ⟨rfl, row0, hold, -⟩ | ⟨-, hold⟩
      · exact hsessions _ row0 hold
      · exact hsessions id row hold
  · dsimp only at h
    split at h
    · cases h
      exact hinv
    · cases h
      exact ⟨hinv.hot, hinv.uuid⟩

/-- `CommitSegment` only takes hot rows away. -/
theorem commitSegment_hot {K : Codec β} {channel bucket : String} {pick : Nat} {x : Segment β}
    (h : commitSegment K channel bucket pick db x = .ok db') :
    db'.sessions = db.sessions ∧ ∀ p row, db'.hot.Has p row → db.hot.Has p row := by
  unfold commitSegment at h
  split at h
  · cases h
  split at h
  · cases h
  split at h
  · cases h
  split at h
  · split at h
    · cases h
      exact ⟨rfl, fun p row hrow => hrow⟩
    · cases h
  split at h
  · cases h
  split at h
  · cases h
  dsimp only at h
  split at h
  · cases h
  cases h
  exact ⟨rfl, fun p row hrow => (Table.has_delete.mp hrow).1⟩

theorem HotInv.same (h : HotInv E L db) (hsessions : db'.sessions = db.sessions)
    (hhot : ∀ p row, db'.hot.Has p row → db.hot.Has p row) : HotInv E L db' := by
  refine ⟨fun p row hrow => h.hot p row (hhot p row hrow), ?_⟩
  rw [hsessions]
  exact h.uuid

section Run

variable [DecidableEq β]

theorem HotInv.step {C : Config β} (hC : C.codec = segmentCodec E L) {s : State β} {i : Input}
    (h : HotInv E L s.db) (hi : admits s i) (ht : typed E L i = true) :
    HotInv E L (step C s i).1.db := by
  cases i with
  | broadcasts rows => exact h.same rfl fun _ _ hrow => hrow
  | append r uuid position fate =>
    have hdrawn : HotInv E L { s.db with lastPosition := position } :=
      h.same rfl fun _ _ hrow => hrow
    simp only [Archive.step]
    rcases settle_db
      { s with db := { s.db with lastPosition := position }, minted := uuid :: s.minted } fate
      .appended (appendArchiveChat C.codec C.backend uuid position
        { s.db with lastPosition := position } r) with heq | ⟨db, assigned, hok, heq⟩
    · rw [heq]
      exact hdrawn
    · rw [heq]
      rw [hC] at hok
      rw [typed, Bool.and_eq_true] at ht
      exact hdrawn.append (Nat.zero_lt_of_lt hi.2) ht.1 ht.2 hok
  | start | stop => exact h
  | select | get =>
    simp only [Archive.step]
    split <;> try exact h
    split <;> try exact h
    split <;> exact h
  | build k =>
    simp only [Archive.step]
    split <;> try exact h
    split <;> exact h
  | put k stored answered =>
    simp only [Archive.step]
    split <;> try exact h
    split <;> try exact h
    cases stored <;> cases answered <;> exact h
  | commit k pick fate =>
    simp only [Archive.step]
    split
    · rename_i x _
      rcases settle_db (s.at k .idle) fate .committed
        ((commitSegment C.codec C.channel C.bucket pick s.db x).map (·, ())) with
        heq | ⟨db, a, hok, heq⟩
      · rw [heq]
        exact h
      · obtain ⟨hsessions, hhot⟩ := commitSegment_hot (map_unit_ok hok)
        rw [heq]
        exact h.same hsessions hhot
    · exact h

/-- Along every run the hot table holds validated records. -/
theorem run_hotTable {C : Config β} (hC : C.codec = segmentCodec E L) {s : State β}
    {tr : List (Input × Output)}
    (hr : ((machine C).restrict fun _ i => typed E L i = true).Run (State.init β) tr s) :
    HotTable E L s.db := by
  have hinit : HotInv E L (State.init β).db :=
    ⟨fun p row hrow => absurd hrow (Table.has_empty p row),
      fun id row hrow => absurd hrow (Table.has_empty id row)⟩
  have hstep : ∀ (s : State β) (i : Input), HotInv E L s.db →
      ((machine C).restrict fun _ i => typed E L i = true).admits s i →
      HotInv E L (Archive.step C s i).1.db :=
    fun s i h hi => h.step hC hi.1 hi.2
  exact (hr.invariant hstep hinit).hot

end Run

/-! ## The codec and the exporter -/

/-- What is built is read back, what is read is what the segment says, every
batch within the limits has a first part that the loop of `RunOnce` builds, and
what `NextBatch` returns is such a batch. -/
structure SegmentCodecSound (E : Encoding) (L : SegmentTools β) : Prop where
  round_trip : ∀ rows x, build (segmentCodec E L) rows = .ok x →
    decode (segmentCodec E L) x = .ok rows
  framed : ∀ x rows, decode (segmentCodec E L) x = .ok rows → Framed x rows
  halving : ∀ session rows, IsBatch (segmentCodec E L) session rows → rows ≠ [] →
    (∀ r ∈ rows, Limits r) →
    ∃ n x, 0 < n ∧ n ≤ rows.length ∧ build (segmentCodec E L) (rows.take n) = .ok x ∧
      buildHalving (segmentCodec E L) rows = .ok x
  batch : ∀ db channel cutoff limit rows, HotTable E L db →
    nextBatch db channel cutoff limit = .ok rows → rows ≠ [] →
    (∃ session, IsBatch (segmentCodec E L) session rows) ∧ ∀ r ∈ rows, Limits r

theorem segment_codec (E : Encoding) (L : SegmentTools β) : SegmentCodecSound E L where
  round_trip rows x h := by
    refine decode_build h ?_
    rw [(build_ok h).body]
    exact segmentCodec_size
  framed x rows h := decode_framed h
  halving session rows hbatch hne hlimits := by
    refine hbatch.halving hne ?_
    intro r hr
    have hsome := hbatch.encoded r hr
    change ((r.marshal E).map size).isSome = true at hsome
    rw [Option.isSome_map] at hsome
    have huuid := hbatch.uuid
    rw [← hbatch.session r hr] at huuid
    exact (hlimits r hr).fits huuid hsome
  batch db channel cutoff limit rows hdb hb hne := nextBatch_isBatch hdb hb hne

/-! ## Two chats -/

/-- Nothing is compressed, and a body has a header of twenty bytes. -/
def fixtureTools : SegmentTools Bytes where
  compress := id
  expand := some
  size b := b.length + 20
  sha256Hex b := toString b.length
  parseUUID := canonicalUUID
  validObject _ _ := true
  expand_compress _ := rfl
  expand_size _ _ _ := Nat.succ_pos _
  compress_size b := by
    dsimp only [id]
    omega
  sha256_slash b := notMem_toString (by decide) b.length
  uuid_size := utf8ByteSize_canonicalUUID_le

def segmentConfig : Config Bytes :=
  ⟨segmentCodec SpoolFile.fixtureEncoding fixtureTools, Journal.fixtureBackend, "fixture_channel",
    "fixture_bucket"⟩

def segmentMachine : Machine (State Bytes) Input Output :=
  (machine segmentConfig).restrict fun _ i =>
    typed SpoolFile.fixtureEncoding fixtureTools i = true

def twoChats : State Bytes × List (Input × Output) :=
  segmentMachine.exec (State.init Bytes)
    [ .broadcasts [⟨.soop, "fixture_channel", 1, 1, 1, 100, none⟩]
    , .append (fixtureRecord "a" 10) sessionA 1 .answered
    , .append (fixtureRecord "b" 20) sessionB 2 .answered ]

instance (s : State Bytes) (i : Input) : Decidable (segmentMachine.admits s i) :=
  inferInstanceAs (Decidable (_ ∧ _))

theorem run_twoChats : segmentMachine.Run (State.init Bytes) twoChats.2 twoChats.1 :=
  Machine.run_exec _ _ (by decide)

theorem segment_codec_twoChats :
    ∃ rows n x, nextBatch twoChats.1.db "fixture_channel" 50 maxSegmentRows = .ok rows ∧
      rows.length = 2 ∧ 0 < n ∧ n ≤ rows.length ∧
      buildHalving (segmentCodec SpoolFile.fixtureEncoding fixtureTools) rows = .ok x ∧
      decode (segmentCodec SpoolFile.fixtureEncoding fixtureTools) x = .ok (rows.take n) ∧
      Framed x (rows.take n) := by
  have hsound := segment_codec SpoolFile.fixtureEncoding fixtureTools
  have hhot := run_hotTable rfl run_twoChats
  obtain ⟨rows, hrows, hlen⟩ : ∃ rows,
      nextBatch twoChats.1.db "fixture_channel" 50 maxSegmentRows = .ok rows ∧
        rows.length = 2 :=
    ⟨[(fixtureRecord "a" 10).row sessionA 1, (fixtureRecord "b" 20).row sessionA 2],
      by decide, rfl⟩
  have hne : rows ≠ [] := by
    rw [← List.length_pos_iff, hlen]
    decide
  obtain ⟨⟨session, hbatch⟩, hlimits⟩ := hsound.batch _ _ _ _ rows hhot hrows hne
  obtain ⟨n, x, hn, hle, hx, hhalving⟩ := hsound.halving session rows hbatch hne hlimits
  have hdecode := hsound.round_trip _ x hx
  exact ⟨rows, n, x, hrows, hlen, hn, hle, hhalving, hdecode, hsound.framed x _ hdecode⟩

end RogiCollector.Ports.Archive
