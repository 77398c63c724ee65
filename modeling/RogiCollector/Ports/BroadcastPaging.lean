import Mathlib.Data.Prod.Lex
import Mathlib.Data.String.Basic
import RogiCollector.Verified.Keyset
import RogiCollector.Verified.Machine
import RogiCollector.Ports.ArchiveStore
import RogiCollector.Ports.HistoryCursor

/-!
# The list of broadcasts, page by page

`ListSessions` of `query/archive/sessions.go` and the handler `broadcasts` of
`query/publicapi/history.go`.  A page ends where one more row was found behind it;
its last row becomes the cursor of the next page.  Between two requests sessions
are added, with any start time.

A start time passes through JSON in the cursor and through the microseconds of
PostgreSQL as a parameter.  The zero time stands for a field that is missing, so
the handler does not take back a cursor at a session that starts there.
-/

namespace RogiCollector.Ports.History

open Verified
open Verified.Json
open Journal (Time)
open Archive (Platform SessionRow)

/-! ## Tables -/

/-- The key of `broadcast_sessions`. -/
structure Source where
  startedAt : Time
  platform : Platform
  channelID : String
  sessionSeq : Nat
  deriving Repr, DecidableEq

/-- What `ListSessions` reads of `broadcast_sessions`. -/
structure Broadcast where
  endedAt : Option Time
  title : Option String
  endedObservedAt : Option Time
  gapDetected : Bool
  deriving Repr, DecidableEq

/-- `archive_quality_gaps`. -/
structure QualityGap where
  platform : Platform
  channelID : String
  startedAt : Time
  endedAt : Option Time
  deriving Repr, DecidableEq

/-- The broadcast an archive session belongs to. -/
def source (row : SessionRow) : Source :=
  ⟨row.sourceStartedAt, row.platform, row.channelID, row.sourceSessionSeq⟩

/-- The tables, with the foreign key of `archive_sessions`. -/
structure View where
  sessions : Table String SessionRow
  broadcasts : Table Source Broadcast
  gaps : List QualityGap
  foreignKey : ∀ id row, sessions.Has id row → ∃ b, broadcasts.Has (source row) b

/-! ## Sessions -/

structure Session where
  sessionID : String
  startedAt : Time
  endedAt : Option Time
  title : Option String
  recordingStartedAt : Option Time
  sourceGapDetected : Bool
  knownArchiveGap : Bool
  complete : Bool
  deriving Repr, DecidableEq

/-- A gap of the channel that reaches into the broadcast. -/
def View.knownGap (view : View) (row : SessionRow) (b : Broadcast) : Bool :=
  view.gaps.any fun g =>
    g.platform = row.platform ∧ g.channelID = row.channelID ∧
      row.sourceStartedAt ≤ g.endedAt.getD g.startedAt ∧
      b.endedObservedAt.all fun ended => g.startedAt ≤ ended

def View.session (view : View) (id : String) (row : SessionRow) (b : Broadcast) : Session where
  sessionID := id
  startedAt := row.sourceStartedAt
  endedAt := b.endedAt
  title := b.title
  recordingStartedAt := row.recordingStartedAt
  sourceGapDetected := b.gapDetected
  knownArchiveGap := view.knownGap row b
  complete := false

/-- The join of both tables, for the channel. -/
def View.joined (view : View) (channel : String) : List Session :=
  (view.sessions.select fun _ row => row.platform = .soop ∧ row.channelID = channel).filterMap
    fun r => (view.broadcasts.find (source r.2)).map (view.session r.1 r.2)

/-- `ORDER BY source_started_at DESC, session_id DESC`.  The text of a UUID has
the order of its bytes. -/
abbrev SessionKey : Type := (Lex (Nat × String))ᵒᵈ

def keyOf (startedAt : Time) (id : String) : SessionKey := OrderDual.toDual (toLex (startedAt, id))

def Session.key (s : Session) : SessionKey := keyOf s.startedAt s.sessionID

/-- `(source_started_at, session_id) < (t, id)`. -/
def Session.before (s : Session) (t : Time) (id : String) : Bool :=
  s.startedAt < t ∨ s.startedAt = t ∧ s.sessionID < id

/-- A time as a parameter of a statement, in microseconds. -/
def pgTime (t : Time) : Time := t - t % 1000

def listSessions (T : Tools) (view : View) (channel : String) (beforeAt : Option Time)
    (beforeID : String) (limit : Nat) : Except String (List Session) :=
  if limit < 1 ∨ 101 < limit then .error "invalid session page limit"
  else if (beforeAt.isSome ∧ !T.parseUUID beforeID) ∨ (beforeAt = none ∧ beforeID ≠ "") then
    .error "invalid session cursor"
  else
    .ok ((orderBy Session.key ((view.joined channel).filter fun s =>
      beforeAt.all fun t => s.before (pgTime t) beforeID)).take limit)

/-! ## The handler -/

/-- `historyAccess` as far as it is data. -/
structure Access where
  channel : String
  cursorKey : Bytes

structure Page where
  items : List Session
  next : Option String
  deriving DecidableEq

def pageLimit (raw : String) (default max : Nat) : Option Nat :=
  if raw = "" then some default
  else (parseInt64 raw.toList).bind fun n => if 1 ≤ n ∧ n ≤ max then some n.toNat else none

/-- The cursor of the page behind a session. -/
def cursorAt (startedAt : Time) (id : String) : HistoryCursor :=
  ⟨0, "broadcasts", id, 0, startedAt⟩

/-- `broadcasts`; `dbOK` is whether the query succeeds. -/
def broadcasts (T : Tools) (history : Option Access) (view : View) (dbOK : Bool)
    (limit cursor : String) : Except (Nat × String) Page :=
  match history with
  | none => .error (503, "archive_unavailable")
  | some H =>
    match pageLimit limit 20 100 with
    | none => .error (400, "invalid_limit")
    | some limit =>
      match parseHistoryCursor T H.cursorKey cursor "broadcasts" with
      | .error _ => .error (400, "invalid_cursor")
      | .ok c =>
        if c.version ≠ 0 ∧ (c.startedAt = 0 ∨ c.sessionID = "" ∨ c.position ≠ 0) then
          .error (400, "invalid_cursor")
        else
          match
            if dbOK then
              listSessions T view H.channel (if c.version ≠ 0 then some c.startedAt else none)
                c.sessionID (limit + 1)
            else .error "query" with
          | .error _ => .error (503, "archive_unavailable")
          | .ok items =>
            if limit < items.length then
              .ok ⟨items.take limit, (items.take limit).getLast?.map fun last =>
                signHistoryCursor T H.cursorKey (cursorAt last.startedAt last.sessionID)⟩
            else .ok ⟨items, none⟩

/-- The check of `broadcastChats` on its cursor; the position to read behind. -/
def chatsCursor (T : Tools) (H : Access) (sessionID cursor : String) : Except (Nat × String) Int :=
  match parseHistoryCursor T H.cursorKey cursor "chats" with
  | .error _ => .error (400, "invalid_cursor")
  | .ok c =>
    if c.version ≠ 0 ∧ (c.sessionID ≠ sessionID ∨ c.position ≤ 0 ∨ c.startedAt ≠ 0) then
      .error (400, "invalid_cursor")
    else .ok c.position

/-! ## A client that follows the cursors -/

/-- The archive, the cursor to send next, what was listed, whether the last page
had no cursor, and the number of pages. -/
structure State where
  view : View
  cursor : String
  listed : List Session
  done : Bool
  pages : Nat

def State.init (view : View) : State := ⟨view, "", [], false, 0⟩

inductive Input where
  | change (view : View)
  | request (limit : String) (dbOK : Bool)

def step (T : Tools) (H : Access) (s : State) : Input → State
  | .change view => { s with view }
  | .request limit dbOK =>
    if s.done then s
    else
      match broadcasts T (some H) s.view dbOK limit s.cursor with
      | .error _ => s
      | .ok page =>
        { s with
          cursor := page.next.getD ""
          listed := s.listed ++ page.items
          done := page.next.isNone
          pages := s.pages + 1 }

/-- Sessions are added, and keep their source. -/
def View.Grows (view view' : View) : Prop :=
  ∀ id row, view.sessions.Has id row →
    ∃ row', view'.sessions.Has id row' ∧ source row' = source row

/-- What the columns hold: a UUID, and a time of whole microseconds that JSON can
write and that is not the zero time. -/
structure Dated (T : Tools) (id : String) (startedAt : Time) : Prop where
  uuid : T.parseUUID id = true
  micros : startedAt % 1000 = 0
  nonzero : startedAt ≠ 0
  formats : (T.encoding.time startedAt).isSome = true

def View.Proper (T : Tools) (view : View) : Prop :=
  ∀ id row, view.sessions.Has id row → Dated T id row.sourceStartedAt

def machine (T : Tools) (H : Access) : Machine State Input Unit where
  admits s i :=
    match i with
    | .change view => s.view.Grows view ∧ view.Proper T
    | .request _ _ => True
  step s i := (step T H s i, ())

/-! ## Keys -/

variable {t : Time} {id : String}

theorem keyOf_lt {t' : Time} {id' : String} :
    keyOf t id < keyOf t' id' ↔ t' < t ∨ t' = t ∧ id' < id := by
  rw [keyOf, keyOf, OrderDual.toDual_lt_toDual, Prod.Lex.toLex_lt_toLex]

theorem keyOf_inj {t' : Time} {id' : String} (h : keyOf t id = keyOf t' id') :
    t = t' ∧ id = id' := by
  have hpair : (t, id) = (t', id') := toLex.injective (OrderDual.toDual.injective h)
  exact Prod.mk.inj hpair

variable {T : Tools} {H : Access} {view : View} {channel : String}

theorem mem_joined {s : Session} : s ∈ view.joined channel ↔
    ∃ id row b, view.sessions.Has id row ∧ row.platform = .soop ∧ row.channelID = channel ∧
      view.broadcasts.Has (source row) b ∧ s = view.session id row b := by
  rw [View.joined, List.mem_filterMap]
  constructor
  · rintro ⟨⟨id, row⟩, hrow, hs⟩
    rw [Table.mem_select, decide_eq_true_eq] at hrow
    obtain ⟨b, hb, rfl⟩ := Option.map_eq_some_iff.mp hs
    exact ⟨id, row, b, hrow.1, hrow.2.1, hrow.2.2, Table.find_eq_some_iff.mp hb, rfl⟩
  · rintro ⟨id, row, b, hrow, hplatform, hchannel, hb, rfl⟩
    refine ⟨(id, row), Table.mem_select.mpr ⟨hrow, by simp [hplatform, hchannel]⟩, ?_⟩
    rw [Table.find_eq_some_iff.mpr hb]
    rfl

/-- A session ID stands for one row. -/
theorem nodup_joined (view : View) (channel : String) :
    ((view.joined channel).map Session.key).Nodup := by
  have hids : ((view.joined channel).map Session.sessionID).Nodup := by
    have hkeys := view.sessions.nodup_select_keys fun _ row =>
      row.platform = .soop ∧ row.channelID = channel
    rw [View.joined]
    generalize view.sessions.select _ = rows at hkeys
    induction rows with
    | nil => simp
    | cons r rows ih =>
      rw [List.map_cons, List.nodup_cons] at hkeys
      rw [List.filterMap_cons]
      cases hb : view.broadcasts.find (source r.2) with
      | none => exact ih hkeys.2
      | some b =>
        rw [Option.map_some]
        rw [List.map_cons, List.nodup_cons]
        refine ⟨?_, ih hkeys.2⟩
        intro hmem
        obtain ⟨s, hs, hid⟩ := List.mem_map.mp hmem
        obtain ⟨r', hr', hs'⟩ := List.mem_filterMap.mp hs
        obtain ⟨b', -, rfl⟩ := Option.map_eq_some_iff.mp hs'
        refine hkeys.1 ?_
        rw [show r.1 = r'.1 from hid.symm]
        exact List.mem_map_of_mem hr'
  refine List.Nodup.of_map (fun k => (ofLex (OrderDual.ofDual k)).2) ?_
  rw [List.map_map]
  exact hids

variable {after : Option (Time × String)} {limit : Nat}

theorem listSessions_ok (view : View) (channel : String) (hlimit : limit ≤ 100)
    (hafter : ∀ a ∈ after, Dated T a.2 a.1) :
    listSessions T view channel (after.map Prod.fst) ((after.map Prod.snd).getD "") (limit + 1) =
      .ok ((behind Session.key (after.map fun a => keyOf a.1 a.2) (view.joined channel)).take
        (limit + 1)) := by
  rw [listSessions, if_neg (by omega)]
  cases after with
  | none =>
    rw [if_neg (by simp)]
    rfl
  | some a =>
    have hdated := hafter a rfl
    have hmicros : pgTime a.1 = a.1 := by rw [pgTime, hdated.micros, Nat.sub_zero]
    rw [if_neg (by simp [hdated.uuid])]
    have hfilter : ∀ s : Session,
        (s.before a.1 a.2) = decide (keyOf a.1 a.2 < s.key) := by
      intro s
      rw [Session.before, Session.key, decide_eq_decide, keyOf_lt]
    simp only [Option.map_some, Option.getD_some, Option.all_some, hmicros, hfilter, behind]

/-! ## The answer to a signed cursor -/

/-- The cursor behind a session; the first request has none. -/
def cursorText (T : Tools) (H : Access) : Option (Time × String) → String
  | none => ""
  | some a => signHistoryCursor T H.cursorKey (cursorAt a.1 a.2)

theorem Dated.id_ne (h : Dated T id t) : id ≠ "" := by
  rintro rfl
  have huuid := h.uuid
  rw [T.uuid_empty] at huuid
  cases huuid

theorem marshal_cursorAt (id : String) (h : (T.encoding.time t).isSome = true) :
    (({ cursorAt t id with version := 1 } : HistoryCursor).marshal T).isSome = true := by
  have hrange : ({ cursorAt t id with version := 1 } : HistoryCursor).inRange = true := by
    simp [HistoryCursor.inRange, cursorAt]
  exact isSome_cursor_marshal hrange h

/-- A cursor at a session is far from the limit. -/
theorem size_cursorAt (huuid : T.parseUUID id = true)
    (hformats : (T.encoding.time t).isSome = true) (key : Bytes) :
    (signHistoryCursor T key (cursorAt t id)).utf8ByteSize ≤ 1024 := by
  obtain ⟨text, htext⟩ := Option.isSome_iff_exists.mp (marshal_cursorAt id hformats)
  obtain ⟨-, startedAt, ht, rfl⟩ := cursor_marshal_eq_some htext
  have hbody : ((cursorAt t id).body T).length =
      size (object
        (({ cursorAt t id with version := 1 } : HistoryCursor).members T startedAt)) := by
    rw [HistoryCursor.body, htext]
    rfl
  have hobject := (cursorMembers (T := T)
    (v := { cursorAt t id with version := 1 }) ht.written).size_le
  have hid := T.uuid_size id huuid
  have hstring : ∀ s : String, size (T.encoding.string s) ≤ 6 * s.utf8ByteSize + 2 := by
    intro s
    have hs := SpoolFile.size_bytes_le (E := T.encoding) (bytesOf s)
    rwa [length_bytesOf] at hs
  have hkind := hstring "broadcasts"
  have hten : "broadcasts".utf8ByteSize = 10 := by decide
  have hsession := hstring id
  have hone : size (intText 1) = 1 := by decide
  have htime := ht.size_le
  have hsize : size (object
      (({ cursorAt t id with version := 1 } : HistoryCursor).members T startedAt)) ≤ 600 := by
    refine hobject.trans ?_
    by_cases hempty : id = ""
    · simp only [HistoryCursor.members, cursorAt, hempty, if_true, List.append_nil,
        List.cons_append, List.nil_append, List.map_cons, List.map_nil, List.sum_cons,
        List.sum_nil, List.length_cons, List.length_nil]
      omega
    · simp only [HistoryCursor.members, cursorAt, hempty, if_true, if_false, List.append_nil,
        List.cons_append, List.nil_append, List.map_cons, List.map_nil, List.sum_cons,
        List.sum_nil, List.length_cons, List.length_nil]
      omega
  rw [size_sign, hbody]
  omega

/-- What the cursor of a page parses to. -/
theorem parse_cursorText (hafter : ∀ a ∈ after, Dated T a.2 a.1) :
    parseHistoryCursor T H.cursorKey (cursorText T H after) "broadcasts" =
      .ok (after.elim zeroCursor fun a => { cursorAt a.1 a.2 with version := 1 }) := by
  cases after with
  | none => rfl
  | some a =>
    have hdated := hafter a rfl
    exact (parse_sign H.cursorKey "broadcasts" (marshal_cursorAt _ hdated.formats)
      (size_cursorAt hdated.uuid hdated.formats H.cursorKey)).trans (if_pos rfl)

/-- The page of what was found behind a cursor. -/
def pageOf (T : Tools) (H : Access) (limit : Nat) (found : List Session) : Page :=
  if limit < found.length then
    ⟨found.take limit, (found.take limit).getLast?.map fun last =>
      cursorText T H (some (last.startedAt, last.sessionID))⟩
  else ⟨found, none⟩

variable {raw : String}

theorem pageLimit_le (h : pageLimit raw 20 100 = some limit) : 0 < limit ∧ limit ≤ 100 := by
  rw [pageLimit] at h
  split at h
  · cases h
    decide
  · obtain ⟨n, -, hn⟩ := Option.bind_eq_some_iff.mp h
    split at hn
    · cases hn
      omega
    · cases hn

/-- The answer of the handler to a cursor it has signed. -/
theorem broadcasts_eq (hafter : ∀ a ∈ after, Dated T a.2 a.1)
    (hlimit : pageLimit raw 20 100 = some limit) :
    broadcasts T (some H) view true raw (cursorText T H after) =
      .ok (pageOf T H limit (behind Session.key (after.map fun a => keyOf a.1 a.2)
        (view.joined H.channel))) := by
  have hle := (pageLimit_le hlimit).2
  have hlist := listSessions_ok view H.channel hle hafter
  generalize hfound : behind Session.key (after.map fun a => keyOf a.1 a.2)
    (view.joined H.channel) = found at hlist ⊢
  -- One row more than the page was fetched, and tells whether there is another.
  have hpage : (if limit < (found.take (limit + 1)).length then
        (.ok ⟨(found.take (limit + 1)).take limit,
          ((found.take (limit + 1)).take limit).getLast?.map fun last =>
            signHistoryCursor T H.cursorKey (cursorAt last.startedAt last.sessionID)⟩ :
          Except (Nat × String) Page)
      else .ok ⟨found.take (limit + 1), none⟩) = .ok (pageOf T H limit found) := by
    rw [pageOf, List.length_take, List.take_take]
    by_cases hmore : limit < found.length
    · rw [if_pos (by omega), if_pos hmore, Nat.min_eq_left (by omega)]
      rfl
    · rw [if_neg (by omega), if_neg hmore, List.take_of_length_le (by omega)]
  cases after with
  | none =>
    have hlist' : listSessions T view H.channel none "" (limit + 1) =
        .ok (found.take (limit + 1)) := hlist
    simp only [broadcasts, hlimit, parse_cursorText hafter, Option.elim_none, zeroCursor, ne_eq,
      not_true_eq_false, false_and, if_false, if_true, hlist']
    exact hpage
  | some a =>
    have hdated := hafter a rfl
    have hlist' : listSessions T view H.channel (some a.1) a.2 (limit + 1) =
        .ok (found.take (limit + 1)) := hlist
    have hone : ¬(1 : Int) = 0 := by decide
    simp only [broadcasts, hlimit, parse_cursorText hafter, Option.elim_some, cursorAt, ne_eq,
      hone, not_false_eq_true, not_true_eq_false, hdated.nonzero, hdated.id_ne, or_self,
      and_false, if_false, if_true, hlist']
    exact hpage

/-- The zero time stands for a missing one: a cursor there is refused. -/
theorem broadcasts_zero (huuid : T.parseUUID id = true)
    (hformats : (T.encoding.time 0).isSome = true) (dbOK : Bool) (raw : String) :
    ∃ e, broadcasts T (some H) view dbOK raw
      (signHistoryCursor T H.cursorKey (cursorAt 0 id)) = .error e := by
  have hkind : (cursorAt 0 id).kind = "broadcasts" := rfl
  have hparse := parse_sign H.cursorKey "broadcasts" (marshal_cursorAt id hformats)
    (size_cursorAt huuid hformats H.cursorKey)
  rw [if_pos hkind] at hparse
  simp only [broadcasts, hparse]
  cases pageLimit raw 20 100 with
  | none => exact ⟨_, rfl⟩
  | some limit => exact ⟨_, if_pos ⟨by decide, Or.inl rfl⟩⟩

/-- A request whose cursor the handler has signed. -/
theorem step_request {s : State} (hafter : ∀ a ∈ after, Dated T a.2 a.1)
    (hcursor : s.cursor = cursorText T H after) (hdone : s.done = false)
    (hlimit : pageLimit raw 20 100 = some limit) {page : Page}
    (hpage : pageOf T H limit (behind Session.key (after.map fun a => keyOf a.1 a.2)
      (s.view.joined H.channel)) = page) :
    step T H s (.request raw true) =
      { s with
        cursor := page.next.getD ""
        listed := s.listed ++ page.items
        done := page.next.isNone
        pages := s.pages + 1 } := by
  rw [step, if_neg (by simp [hdone]), hcursor, broadcasts_eq hafter hlimit, hpage]

theorem broadcasts_failed {cursor : String} {page : Page}
    (h : broadcasts T (some H) view false raw cursor = .ok page) : False := by
  simp only [broadcasts, Bool.false_eq_true, if_false] at h
  split at h
  · cases h
  split at h
  · cases h
  split at h <;> cases h

/-! ## What a client has listed -/

/-- The sessions of the channel, by their keys. -/
def View.keys (view : View) (channel : String) (k : SessionKey) : Prop :=
  ∃ id row, view.sessions.Has id row ∧ row.platform = .soop ∧ row.channelID = channel ∧
    k = keyOf row.sourceStartedAt id

/-- By the foreign key every session is part of the join. -/
theorem View.keys.joined {k : SessionKey} (h : view.keys channel k) :
    ∃ x ∈ view.joined channel, x.key = k := by
  obtain ⟨id, row, hrow, hplatform, hchannel, rfl⟩ := h
  obtain ⟨b, hb⟩ := view.foreignKey id row hrow
  exact ⟨view.session id row b, mem_joined.mpr ⟨id, row, b, hrow, hplatform, hchannel, hb, rfl⟩,
    rfl⟩

theorem View.Grows.joined {view' : View} (h : view.Grows view') {x : Session}
    (hx : x ∈ view.joined channel) : ∃ y ∈ view'.joined channel, y.key = x.key := by
  obtain ⟨id, row, b, hrow, hplatform, hchannel, -, rfl⟩ := mem_joined.mp hx
  obtain ⟨row', hrow', hsource⟩ := h id row hrow
  obtain ⟨hstarted, hplatform', hchannel', -⟩ := Source.mk.inj hsource
  refine View.keys.joined ⟨id, row', hrow', hplatform'.trans hplatform, hchannel'.trans hchannel,
    ?_⟩
  rw [hstarted]
  rfl

theorem View.Proper.dated (h : view.Proper T) {x : Session} (hx : x ∈ view.joined channel) :
    Dated T x.sessionID x.startedAt := by
  obtain ⟨id, row, b, hrow, -, -, -, rfl⟩ := mem_joined.mp hx
  exact h id row hrow

/-- What is known between two requests. -/
structure ReaderInv (T : Tools) (H : Access) (old : SessionKey → Prop) (s : State) : Prop where
  proper : s.view.Proper T
  present : ∀ k, old k → ∃ x ∈ s.view.joined H.channel, x.key = k
  listed : ∀ x ∈ s.listed, ∃ y ∈ s.view.joined H.channel, y.key = x.key
  increasing : s.listed.Pairwise fun x y => x.key < y.key
  reading : s.done = false → ∃ after : Option (Time × String),
    (∀ a ∈ after, Dated T a.2 a.1) ∧ s.cursor = cursorText T H after ∧
      Listing Session.key old s.listed (after.map fun a => keyOf a.1 a.2) ∧
      s.pages ≤ s.listed.length
  finished : s.done = true → ∀ k, old k → ∃ x ∈ s.listed, x.key = k

variable {old : SessionKey → Prop} {s : State}

theorem ReaderInv.init (h : view.Proper T) :
    ReaderInv T H (view.keys H.channel) (State.init view) where
  proper := h
  present _ hk := hk.joined
  listed := by simp [State.init]
  increasing := List.Pairwise.nil
  reading _ := ⟨none, by simp, rfl, Listing.start _ _, Nat.le_refl _⟩
  finished := by simp [State.init]

theorem ReaderInv.change (h : ReaderInv T H old s) {view' : View} (hgrows : s.view.Grows view')
    (hproper : view'.Proper T) : ReaderInv T H old { s with view := view' } where
  proper := hproper
  present k hk := by
    obtain ⟨x, hx, rfl⟩ := h.present k hk
    exact hgrows.joined hx
  listed x hx := by
    obtain ⟨y, hy, hkey⟩ := h.listed x hx
    obtain ⟨z, hz, hkey'⟩ := hgrows.joined hy
    exact ⟨z, hz, hkey'.trans hkey⟩
  increasing := h.increasing
  reading := h.reading
  finished := h.finished

/-- The rows of a page are rows of the archive. -/
theorem ReaderInv.listed_append (h : ReaderInv T H old s) {items : List Session}
    {after : Option SessionKey}
    (hitems : ∀ x ∈ items, x ∈ behind Session.key after (s.view.joined H.channel)) :
    ∀ x ∈ s.listed ++ items, ∃ y ∈ s.view.joined H.channel, y.key = x.key := by
  intro x hx
  rcases List.mem_append.mp hx with hold | hnew
  · exact h.listed x hold
  · exact ⟨x, (mem_behind.mp (hitems x hnew)).1, rfl⟩

/-- One more page. -/
theorem ReaderInv.page (h : ReaderInv T H old s)
    (hlisting : Listing Session.key old s.listed (after.map fun a => keyOf a.1 a.2))
    (hpages : s.pages ≤ s.listed.length) (hpos : 0 < limit) {page : Page}
    (hpage : pageOf T H limit (behind Session.key (after.map fun a => keyOf a.1 a.2)
      (s.view.joined H.channel)) = page) :
    ReaderInv T H old
      { s with
        cursor := page.next.getD ""
        listed := s.listed ++ page.items
        done := page.next.isNone
        pages := s.pages + 1 } := by
  have hnodup := nodup_joined s.view H.channel
  generalize hfound : behind Session.key (after.map fun a => keyOf a.1 a.2)
    (s.view.joined H.channel) = found at hpage
  by_cases hmore : limit < found.length
  · -- A full page, with its last session as the cursor.
    obtain ⟨last, hlast⟩ : ∃ last, (found.take limit).getLast? = some last := by
      rw [← Option.isSome_iff_exists, List.getLast?_isSome, ← List.length_pos_iff,
        List.length_take]
      omega
    have hlastMem : last ∈ s.view.joined H.channel := by
      have hmem := List.mem_of_mem_take (List.mem_of_getLast? hlast)
      rw [← hfound] at hmem
      exact (mem_behind.mp hmem).1
    have hlength : (found.take limit).length = limit := by
      rw [List.length_take]
      omega
    have heq : page =
        ⟨found.take limit, some (cursorText T H (some (last.startedAt, last.sessionID)))⟩ := by
      rw [← hpage, pageOf, if_pos hmore, hlast]
      rfl
    rw [← hfound] at hlast
    have hnext := hlisting.page hnodup h.present hlast
    rw [hfound] at hnext
    rw [heq]
    exact
      { proper := h.proper
        present := h.present
        listed := h.listed_append fun x hx => hfound ▸ List.mem_of_mem_take hx
        increasing := hnext.increasing
        reading := fun _ => by
          refine ⟨some (last.startedAt, last.sessionID), ?_, rfl, hnext, ?_⟩
          · intro a ha
            cases ha
            exact h.proper.dated hlastMem
          · dsimp only
            rw [List.length_append, hlength]
            omega
        finished := fun hfalse => absurd hfalse Bool.false_ne_true }
  · -- The rest.
    have heq : page = ⟨found, none⟩ := by rw [← hpage, pageOf, if_neg hmore]
    have hlt := hlisting.append_lt hnodup (s.view.joined H.channel).length
    have hall : found.length ≤ (s.view.joined H.channel).length := by
      rw [← hfound, behind, (orderBy_perm _ _).length_eq]
      exact List.length_filter_le _ _
    rw [hfound, List.take_of_length_le hall] at hlt
    rw [heq]
    exact
      { proper := h.proper
        present := h.present
        listed := h.listed_append fun x hx => hfound ▸ hx
        increasing := hlt
        reading := fun hfalse => absurd hfalse.symm Bool.false_ne_true
        finished := fun _ k hk => hfound ▸ hlisting.final h.present hk }

theorem ReaderInv.request (h : ReaderInv T H old s) (raw : String) (dbOK : Bool) :
    ReaderInv T H old (step T H s (.request raw dbOK)) := by
  cases hdone : s.done with
  | true =>
    rw [step, if_pos hdone]
    exact h
  | false =>
    obtain ⟨after, hafter, hcursor, hlisting, hpages⟩ := h.reading hdone
    cases hlimit : pageLimit raw 20 100 with
    | none =>
      rw [step, if_neg (by simp [hdone])]
      simp only [broadcasts, hlimit]
      exact h
    | some limit =>
      cases dbOK with
      | false =>
        rw [step, if_neg (by simp [hdone])]
        split
        · exact h
        · rename_i page hpage
          exact (broadcasts_failed hpage).elim
      | true =>
        rw [step_request hafter hcursor hdone hlimit rfl]
        exact h.page hlisting hpages (pageLimit_le hlimit).1 rfl

/-- Every request and every change of the archive. -/
theorem ReaderInv.step (h : ReaderInv T H old s) {i : Input} (hi : (machine T H).admits s i) :
    ReaderInv T H old (step T H s i) := by
  cases i with
  | change view' => exact h.change hi.1 hi.2
  | request raw dbOK => exact h.request raw dbOK

/-- There are no more sessions listed than there are. -/
theorem ReaderInv.length_le (h : ReaderInv T H old s) :
    s.listed.length ≤ (s.view.joined H.channel).length := by
  have hnodup : (s.listed.map Session.key).Nodup :=
    (List.pairwise_map.mpr h.increasing).imp ne_of_lt
  have hsubset : s.listed.map Session.key ⊆ (s.view.joined H.channel).map Session.key := by
    intro k hk
    obtain ⟨x, hx, rfl⟩ := List.mem_map.mp hk
    obtain ⟨y, hy, hkey⟩ := h.listed x hx
    exact List.mem_map.mpr ⟨y, hy, hkey⟩
  have hle := (List.subperm_of_subset hnodup hsubset).length_le
  rwa [List.length_map, List.length_map] at hle

/-! ## Cursors and pages -/

/-- What a client gets that follows the cursors from the archive `view` on. -/
structure PagingSound (T : Tools) (H : Access) (view : View) (s : State) : Prop where
  decreasing : s.listed.Pairwise fun x y =>
    y.startedAt < x.startedAt ∨ y.startedAt = x.startedAt ∧ y.sessionID < x.sessionID
  answered : s.done = false → ∀ raw limit, pageLimit raw 20 100 = some limit →
    ∃ page, broadcasts T (some H) s.view true raw s.cursor = .ok page
  complete : s.done = true → ∀ id row, view.sessions.Has id row → row.platform = .soop →
    row.channelID = H.channel →
    ∃ x ∈ s.listed, x.sessionID = id ∧ x.startedAt = row.sourceStartedAt
  ends : (s.view.joined H.channel).length < s.pages → s.done = true

theorem ReaderInv.sound (h : ReaderInv T H (view.keys H.channel) s) : PagingSound T H view s where
  decreasing := h.increasing.imp fun hlt => keyOf_lt.mp hlt
  answered hdone raw limit hlimit := by
    obtain ⟨after, hafter, hcursor, -⟩ := h.reading hdone
    rw [hcursor]
    exact ⟨_, broadcasts_eq hafter hlimit⟩
  complete hdone id row hrow hplatform hchannel := by
    obtain ⟨x, hx, hkey⟩ := h.finished hdone _ ⟨id, row, hrow, hplatform, hchannel, rfl⟩
    obtain ⟨hstarted, hid⟩ := keyOf_inj hkey
    exact ⟨x, hx, hid, hstarted⟩
  ends hlt := by
    by_contra hdone
    obtain ⟨-, -, -, -, hpages⟩ := h.reading (Bool.eq_false_of_not_eq_true hdone)
    have hle := h.length_le
    omega

/-- Cursors read back under their kind and are refused under every other, by both
endpoints; and whoever follows them lists every session once and in order. -/
structure HistoryPaging (T : Tools) : Prop where
  round_trip : ∀ key v kind,
    (({ v with version := 1 } : HistoryCursor).marshal T).isSome = true →
    (signHistoryCursor T key v).utf8ByteSize ≤ 1024 → v.kind = kind →
    parseHistoryCursor T key (signHistoryCursor T key v) kind = .ok { v with version := 1 }
  other_kind : ∀ key v kind, v.kind ≠ kind →
    ∃ e, parseHistoryCursor T key (signHistoryCursor T key v) kind = .error e
  chats_refuse : ∀ H v sessionID, v.kind = "broadcasts" →
    chatsCursor T H sessionID (signHistoryCursor T H.cursorKey v) = .error (400, "invalid_cursor")
  broadcasts_refuse : ∀ H v view dbOK raw, v.kind = "chats" →
    ∃ e, broadcasts T (some H) view dbOK raw (signHistoryCursor T H.cursorKey v) = .error e
  paging : ∀ H view tr s, view.Proper T → (machine T H).Run (State.init view) tr s →
    PagingSound T H view s

theorem history_paging (T : Tools) : HistoryPaging T where
  round_trip key v kind hsome hsize hkind := by
    rw [parse_sign key kind hsome hsize, if_pos hkind]
  other_kind key v kind h := parse_sign_other key h
  chats_refuse H v sessionID hkind := by
    have hne : v.kind ≠ "chats" := by
      rw [hkind]
      decide
    obtain ⟨e, he⟩ := parse_sign_other (T := T) H.cursorKey hne
    rw [chatsCursor, he]
  broadcasts_refuse H v view dbOK raw hkind := by
    have hne : v.kind ≠ "broadcasts" := by
      rw [hkind]
      decide
    obtain ⟨e, he⟩ := parse_sign_other (T := T) H.cursorKey hne
    simp only [broadcasts, he]
    cases pageLimit raw 20 100 with
    | none | some => exact ⟨_, rfl⟩
  paging H view tr s hproper hr := by
    have hinv := hr.invariant (fun s i h hi => h.step hi) (ReaderInv.init hproper)
    exact hinv.sound

/-! ## Three sessions -/

def fixtureTools : Tools where
  encoding := SpoolFile.fixtureEncoding
  mac _ _ := List.replicate 32 0
  parseUUID := canonicalUUID
  mac_length _ _ := rfl
  uuid_empty := by decide
  uuid_size := utf8ByteSize_canonicalUUID_le

def idA : String := "1b671a64-40d5-491e-99b0-da01ff1f33aa"
def idB : String := "1b671a64-40d5-491e-99b0-da01ff1f33bb"
def idC : String := "1b671a64-40d5-491e-99b0-da01ff1f33cc"

def fixtureAccess : Access := ⟨"fixture_channel", []⟩

def fixtureSession (t : Time) (seq : Nat) : SessionRow :=
  ⟨.soop, "fixture_channel", t, seq, none⟩

/-- An archive with one broadcast for each session. -/
def fixtureView (a b c : Time) : View where
  sessions := ⟨[(idA, fixtureSession a 1), (idB, fixtureSession b 2), (idC, fixtureSession c 3)],
    by simp [idA, idB, idC]⟩
  broadcasts := ⟨[(source (fixtureSession a 1), ⟨none, none, none, false⟩),
    (source (fixtureSession b 2), ⟨none, none, none, false⟩),
    (source (fixtureSession c 3), ⟨none, none, none, false⟩)], by
      simp [source, fixtureSession]⟩
  gaps := []
  foreignKey := by
    intro id row h
    simp only [Table.Has, List.mem_cons, Prod.mk.injEq, List.not_mem_nil, or_false] at h
    rcases h with ⟨-, rfl⟩ | ⟨-, rfl⟩ | ⟨-, rfl⟩
    · exact ⟨_, List.mem_cons_self⟩
    · exact ⟨_, List.mem_cons_of_mem _ List.mem_cons_self⟩
    · exact ⟨_, List.mem_cons_of_mem _ (List.mem_cons_of_mem _ List.mem_cons_self)⟩

/-- The session that is listed. -/
def fixtureListed (id : String) (t : Time) : Session :=
  ⟨id, t, none, none, none, false, false, false⟩

theorem proper_fixtureView : (fixtureView 1000 1000 2000).Proper fixtureTools := by
  intro id row h
  simp only [Table.Has, fixtureView, List.mem_cons, Prod.mk.injEq, List.not_mem_nil, or_false] at h
  rcases h with ⟨rfl, rfl⟩ | ⟨rfl, rfl⟩ | ⟨rfl, rfl⟩ <;>
    exact ⟨by decide, by decide, by decide, by decide⟩

/-- The first page of two. -/
def firstPage : State where
  view := fixtureView 1000 1000 2000
  cursor := cursorText fixtureTools fixtureAccess (some (1000, idB))
  listed := [fixtureListed idC 2000, fixtureListed idB 1000]
  done := false
  pages := 1

def secondPage : State where
  view := fixtureView 1000 1000 2000
  cursor := ""
  listed := [fixtureListed idC 2000, fixtureListed idB 1000, fixtureListed idA 1000]
  done := true
  pages := 2

theorem run_secondPage : ∃ tr, (machine fixtureTools fixtureAccess).Run
    (State.init (fixtureView 1000 1000 2000)) tr secondPage := by
  have hdated : ∀ a ∈ some (1000, idB), Dated fixtureTools a.2 a.1 := by
    intro a ha
    cases ha
    exact ⟨by decide, by decide, by decide, by decide⟩
  have hnone : ∀ a ∈ (none : Option (Time × String)), Dated fixtureTools a.2 a.1 := by simp
  have hlimit : pageLimit "2" 20 100 = some 2 := by decide
  have hbehind : behind Session.key none ((fixtureView 1000 1000 2000).joined "fixture_channel") =
      [fixtureListed idC 2000, fixtureListed idB 1000, fixtureListed idA 1000] := by
    decide
  have hrest : behind Session.key (some (keyOf 1000 idB))
      ((fixtureView 1000 1000 2000).joined "fixture_channel") = [fixtureListed idA 1000] := by
    decide
  have hfirstPage : pageOf fixtureTools fixtureAccess 2 (behind Session.key none
      ((fixtureView 1000 1000 2000).joined "fixture_channel")) =
      ⟨[fixtureListed idC 2000, fixtureListed idB 1000], some firstPage.cursor⟩ := by
    rw [hbehind]
    rfl
  have hsecondPage : pageOf fixtureTools fixtureAccess 2 (behind Session.key
      (some (keyOf 1000 idB)) ((fixtureView 1000 1000 2000).joined "fixture_channel")) =
      ⟨[fixtureListed idA 1000], none⟩ := by
    rw [hrest]
    rfl
  have hfirst : step fixtureTools fixtureAccess (State.init (fixtureView 1000 1000 2000))
      (.request "2" true) = firstPage :=
    (step_request (H := fixtureAccess) (s := State.init (fixtureView 1000 1000 2000)) hnone rfl rfl
      hlimit hfirstPage).trans rfl
  have hsecond : step fixtureTools fixtureAccess firstPage (.request "2" true) = secondPage :=
    (step_request (H := fixtureAccess) (s := firstPage) hdated rfl rfl hlimit hsecondPage).trans rfl
  have hrun : (machine fixtureTools fixtureAccess).Run (State.init (fixtureView 1000 1000 2000))
      [(.request "2" true, ())] (step fixtureTools fixtureAccess
        (State.init (fixtureView 1000 1000 2000)) (.request "2" true)) :=
    Machine.Run.single (Input.request "2" true) trivial
  rw [hfirst] at hrun
  have hstep : ∀ s i, ((machine fixtureTools fixtureAccess).step s i).1 =
      step fixtureTools fixtureAccess s i := fun _ _ => rfl
  rw [← hsecond, ← hstep]
  exact ⟨_, hrun.snoc (.request "2" true) trivial⟩

theorem history_paging_secondPage :
    secondPage.done = true ∧ secondPage.listed.map Session.sessionID = [idC, idB, idA] ∧
      PagingSound fixtureTools fixtureAccess (fixtureView 1000 1000 2000) secondPage := by
  obtain ⟨tr, hrun⟩ := run_secondPage
  exact ⟨rfl, rfl, (history_paging fixtureTools).paging fixtureAccess
    (fixtureView 1000 1000 2000) tr secondPage proper_fixtureView hrun⟩

/-! ## Where the conditions are needed -/

def cursorOf (id : String) : HistoryCursor := ⟨1, "broadcasts", id, 0, 0⟩

theorem formats_zero : (fixtureTools.encoding.time 0).isSome = true := by decide

theorem marshal_cursorOf (id : String) : ((cursorOf id).marshal fixtureTools).isSome = true := by
  have hrange : (cursorOf id).inRange = true := by simp [HistoryCursor.inRange, cursorOf]
  exact isSome_cursor_marshal hrange formats_zero

/-- A cursor with a long session ID is too long itself. -/
theorem parse_cursorOf (h : 1000 ≤ id.toList.length) :
    parseHistoryCursor fixtureTools [] (signHistoryCursor fixtureTools [] (cursorOf id))
      "broadcasts" = .error "history cursor too long" := by
  have hne : (cursorOf id).sessionID ≠ "" := by
    intro heq
    have hid : id = "" := heq
    rw [hid] at h
    contradiction
  have hle : id.toList.length ≤ ((cursorOf id).body fixtureTools).length :=
    length_sessionID_le (marshal_cursorOf id) hne rfl
  have hsize := size_sign (T := fixtureTools) [] (cursorOf id)
  rw [parseHistoryCursor, if_neg (sign_ne_empty [] (cursorOf id)), if_pos (by omega)]

def longID : String := String.ofList (List.replicate 1000 'x')

theorem length_longID : 1000 ≤ longID.toList.length := by
  have hlength : ∀ n, (String.ofList (List.replicate n 'x')).toList.length = n := by
    intro n
    rw [String.toList_ofList, List.length_replicate]
  exact Nat.le_of_eq (hlength 1000).symm

/-- Two of the sessions start at the zero time, and the page ends between them. -/
def zeroPage : State where
  view := fixtureView 0 0 2000
  cursor := signHistoryCursor fixtureTools fixtureAccess.cursorKey (cursorAt 0 idB)
  listed := [fixtureListed idC 2000, fixtureListed idB 0]
  done := false
  pages := 1

theorem uuid_b : fixtureTools.parseUUID idB = true := by decide

theorem run_zeroPage : ∃ tr, (machine fixtureTools fixtureAccess).Run
    (State.init (fixtureView 0 0 2000)) tr zeroPage := by
  have hbehind : behind Session.key none ((fixtureView 0 0 2000).joined "fixture_channel") =
      [fixtureListed idC 2000, fixtureListed idB 0, fixtureListed idA 0] := by
    decide
  have hnone : ∀ a ∈ (none : Option (Time × String)), Dated fixtureTools a.2 a.1 := by simp
  have hlimit : pageLimit "2" 20 100 = some 2 := by decide
  have hpage : pageOf fixtureTools fixtureAccess 2 (behind Session.key none
      ((fixtureView 0 0 2000).joined "fixture_channel")) =
      ⟨[fixtureListed idC 2000, fixtureListed idB 0], some zeroPage.cursor⟩ := by
    rw [hbehind]
    rfl
  have hstep : step fixtureTools fixtureAccess (State.init (fixtureView 0 0 2000))
      (.request "2" true) = zeroPage :=
    (step_request (H := fixtureAccess) (s := State.init (fixtureView 0 0 2000)) hnone rfl rfl
      hlimit hpage).trans rfl
  have hrun : (machine fixtureTools fixtureAccess).Run (State.init (fixtureView 0 0 2000))
      [(.request "2" true, ())] (step fixtureTools fixtureAccess
        (State.init (fixtureView 0 0 2000)) (.request "2" true)) :=
    Machine.Run.single (Input.request "2" true) trivial
  rw [hstep] at hrun
  exact ⟨_, hrun⟩

/-- A cursor that is too long is refused under its own kind, and so is the cursor
that the handler signs at the zero time, whatever the next request is. -/
theorem history_paging_limits :
    (((cursorOf longID).marshal fixtureTools).isSome = true ∧
      parseHistoryCursor fixtureTools [] (signHistoryCursor fixtureTools [] (cursorOf longID))
        "broadcasts" = .error "history cursor too long") ∧
    ∃ tr s, (machine fixtureTools fixtureAccess).Run (State.init (fixtureView 0 0 2000)) tr s ∧
      s.done = false ∧ s.listed.map Session.sessionID = [idC, idB] ∧
      ∀ dbOK raw, ∃ e,
        broadcasts fixtureTools (some fixtureAccess) s.view dbOK raw s.cursor = .error e := by
  constructor
  · exact ⟨marshal_cursorOf longID, parse_cursorOf length_longID⟩
  · obtain ⟨tr, hrun⟩ := run_zeroPage
    exact ⟨tr, zeroPage, hrun, rfl, rfl, broadcasts_zero uuid_b formats_zero⟩

end RogiCollector.Ports.History
