import RogiCollector.Ports.ArchiveTiers
import RogiCollector.Ports.HistoryStore

/-!
# Where a spooled chat ends up

`AppendArchiveChat` deduplicates by archive session and event, and selects the
session anew at every try, from the broadcasts that were on when the chat was
received.  A retry follows when the response of a commit was lost (`Drain`
keeps the file) and when `ReconcileUnassignedArchiveChats` has read the chat
from the queue of unassigned ones.  Meanwhile broadcasts are inserted, seen
again and closed.

A broadcast that covers a chat goes on covering it, so no retry can choose
another session.  But a second broadcast may come to cover it, and then the
retry of a chat that is archived already puts it into the queue.
-/

namespace RogiCollector.Ports.ChatPlacement

open Verified
open Journal (Time second)
open Archive
open History

variable {β : Type}

/-! ## The processes -/

/-- The database; the chats a call of `ReconcileUnassignedArchiveChats` has
read and not yet retried; the clock; and every chat ever handed to
`AppendArchiveChat`. -/
structure State where
  db : Db
  batch : List ChatRecord
  clock : Time
  spooled : List ChatRecord

def State.init : State := ⟨Db.empty, [], 0, []⟩

/-- A statement of the discovery process, a try of `Drain`, or a statement of
`ReconcileUnassignedArchiveChats`. -/
inductive Op where
  | insertSession (b : BroadcastRow)
  | lastSeen (platform : Platform) (channelID : String) (sessionSeq : Nat) (lastSeenAt : Time)
  | close (platform : Platform) (channelID : String) (sessionSeq : Nat) (endedAt : Time)
  | closeOrphaned (live : List (Platform × String))
  | append (r : ChatRecord) (uuid : String) (position : Nat) (fate : Fate)
  | select (spoolIDs : List String)
  | reconcile (k : Nat) (uuid : String) (position : Nat) (fate : Fate)

/-- An operation at an instant. -/
structure Input where
  now : Time
  op : Op

/-- One transaction of `AppendArchiveChat`. -/
def append (C : Config β) (s : State) (r : ChatRecord) (uuid : String) (position : Nat)
    (fate : Fate) : State :=
  match appendArchiveChat C.codec C.backend uuid position s.db r with
  | .error _ => { s with spooled := r :: s.spooled }
  | .ok (db, _) =>
    if fate = .failed then { s with spooled := r :: s.spooled }
    else { s with db, spooled := r :: s.spooled }

/-- The rows `ReconcileUnassignedArchiveChats` reads.  Which ones are due is
left open. -/
def unassignedRecords (C : Config β) (db : Db) (spoolIDs : List String) : List ChatRecord :=
  spoolIDs.filterMap fun id =>
    ((db.unassigned.find id).map Prod.fst).filter fun r =>
      r.platform = .soop ∧ r.channelID = C.channel

/-- One operation. -/
def step (C : Config β) (s : State) (i : Input) : State :=
  let s := { s with clock := i.now }
  match i.op with
  | .insertSession b =>
    { s with db.broadcasts := (insertSession s.db.broadcasts b).getD s.db.broadcasts }
  | .lastSeen platform channelID sessionSeq lastSeenAt =>
    { s with
      db.broadcasts :=
        updateSessionLastSeen s.db.broadcasts platform channelID sessionSeq lastSeenAt }
  | .close platform channelID sessionSeq endedAt =>
    { s with
      db.broadcasts :=
        (closeSession s.db.broadcasts platform channelID sessionSeq endedAt i.now).getD
          s.db.broadcasts }
  | .closeOrphaned live =>
    { s with
      db.broadcasts :=
        (closeOrphanedSessions s.db.broadcasts live i.now).getD s.db.broadcasts }
  | .append r uuid position fate => append C s r uuid position fate
  | .select spoolIDs => { s with batch := s.batch ++ unassignedRecords C s.db spoolIDs }
  | .reconcile k uuid position fate =>
    match s.batch[k]? with
    | none => s
    | some r => append C { s with batch := s.batch.eraseIdx k } r uuid position fate

/-- The clock does not run backwards, and neither does `last_seen_at`.  A chat
is spooled after it was received, and a spool ID or an event ID belongs to one
chat. -/
def admits (s : State) (i : Input) : Prop :=
  s.clock ≤ i.now ∧
    match i.op with
    | .lastSeen platform channelID sessionSeq lastSeenAt =>
      ∀ b ∈ s.db.broadcasts, isOpen platform channelID sessionSeq b = true →
        b.lastSeenAt ≤ lastSeenAt
    | .append r _ _ _ =>
      r.receivedAt ≤ i.now ∧
        ∀ r' ∈ s.spooled, r'.spoolID = r.spoolID ∨ r'.eventID = r.eventID → r' = r
    | _ => True

instance (s : State) : (i : Input) → Decidable (admits s i)
  | ⟨_, .lastSeen ..⟩ => inferInstanceAs (Decidable (_ ∧ ∀ b ∈ _, _))
  | ⟨_, .append ..⟩ => inferInstanceAs (Decidable (_ ∧ _ ∧ ∀ r' ∈ _, _))
  | ⟨_, .insertSession ..⟩ | ⟨_, .close ..⟩ | ⟨_, .closeOrphaned ..⟩ | ⟨_, .select ..⟩
  | ⟨_, .reconcile ..⟩ => inferInstanceAs (Decidable (_ ∧ True))

/-- Discovery, the spool and the reconciliation around one database. -/
def machine (C : Config β) : Machine State Input Unit where
  admits := admits
  step s i := (step C s i, ())

instance (C : Config β) (s : State) (i : Input) : Decidable ((machine C).admits s i) :=
  inferInstanceAs (Decidable (admits s i))

variable {C : Config β} {s : State}

/-! ## What a broadcast covers -/

/-- The broadcast is one of those `AppendArchiveChat` selects from. -/
def Covers (b : BroadcastRow) (r : ChatRecord) : Prop :=
  b.platform = r.platform ∧ b.channelID = r.channelID ∧
    b.startedObservedAt ≤ r.receivedAt + 30 * second ∧
    b.startedAt ≤ r.receivedAt + 30 * second ∧
    r.receivedAt ≤ b.lastSeenAt + 600 * second ∧
    ∀ ended, b.endedObservedAt = some ended → r.receivedAt ≤ ended

/-- What a statement of the discovery process can do to a row by the instant
`now`. -/
structure Advance (now : Time) (b b' : BroadcastRow) : Prop where
  platform : b'.platform = b.platform
  channelID : b'.channelID = b.channelID
  startedAt : b'.startedAt = b.startedAt
  sessionSeq : b'.sessionSeq = b.sessionSeq
  startedObservedAt : b'.startedObservedAt = b.startedObservedAt
  lastSeenAt : b.lastSeenAt ≤ b'.lastSeenAt
  ended : ∀ t, b'.endedObservedAt = some t → b.endedObservedAt = some t ∨ now ≤ t

theorem Advance.refl (now : Time) (b : BroadcastRow) : Advance now b b :=
  ⟨rfl, rfl, rfl, rfl, rfl, Nat.le_refl _, fun _ h => Or.inl h⟩

variable {now : Time} {b : BroadcastRow} {r : ChatRecord}

/-- A broadcast goes on covering the chats received so far. -/
theorem Covers.advance {b' : BroadcastRow} (h : Covers b r) (hb : Advance now b b')
    (hr : r.receivedAt ≤ now) : Covers b' r := by
  obtain ⟨hp, hc, hso, hs, hl, he⟩ := h
  refine ⟨hb.platform.trans hp, hb.channelID.trans hc, ?_, ?_, ?_, ?_⟩
  · rw [hb.startedObservedAt]
    exact hso
  · rw [hb.startedAt]
    exact hs
  · exact Nat.le_trans hl (Nat.add_le_add_right hb.lastSeenAt _)
  · intro t ht
    rcases hb.ended t ht with hold | hnow
    · exact he t hold
    · exact Nat.le_trans hr hnow

/-- The rows one table of broadcasts has become in another. -/
def Advances (now : Time) (rows rows' : List BroadcastRow) : Prop :=
  ∀ b ∈ rows, ∃ b' ∈ rows', Advance now b b'

theorem Advances.refl (now : Time) (rows : List BroadcastRow) : Advances now rows rows :=
  fun b hb => ⟨b, hb, .refl now b⟩

variable {rows : List BroadcastRow}

theorem Advances.map {f : BroadcastRow → BroadcastRow} (h : ∀ b ∈ rows, Advance now b (f b)) :
    Advances now rows (rows.map f) :=
  fun b hb => ⟨f b, List.mem_map_of_mem hb, h b hb⟩

theorem insertSession_advances (now : Time) (rows : List BroadcastRow) (b : BroadcastRow) :
    Advances now rows ((insertSession rows b).getD rows) := by
  unfold insertSession
  split
  · exact .refl now rows
  · intro a ha
    exact ⟨a, List.mem_append_left _ ha, .refl now a⟩

theorem endSessions_advances (now : Time) (rows : List BroadcastRow)
    (cond : BroadcastRow → Bool) (endedAt : BroadcastRow → Time) :
    Advances now rows ((endSessions rows cond endedAt now).getD rows) := by
  unfold endSessions
  split
  · exact .refl now rows
  · apply Advances.map
    intro b _
    split
    · refine ⟨rfl, rfl, rfl, rfl, rfl, Nat.le_refl _, ?_⟩
      intro t ht
      cases ht
      exact Or.inr (Nat.le_refl _)
    · exact .refl now b

theorem updateSessionLastSeen_advances (now : Time) {platform : Platform} {channelID : String}
    {sessionSeq : Nat} {lastSeenAt : Time}
    (h : ∀ b ∈ rows, isOpen platform channelID sessionSeq b = true → b.lastSeenAt ≤ lastSeenAt) :
    Advances now rows
      (updateSessionLastSeen rows platform channelID sessionSeq lastSeenAt) := by
  apply Advances.map
  intro b hb
  split
  · rename_i hopen
    exact ⟨rfl, rfl, rfl, rfl, rfl, h b hb hopen, fun _ ht => Or.inl ht⟩
  · exact .refl now b

/-! ## One try -/

/-- A try looks at the first two of the broadcasts that cover the chat. -/
theorem matchingBroadcasts_take (db : Db) (r : ChatRecord) :
    ∃ l : List BroadcastRow, (∀ b, b ∈ l ↔ b ∈ db.broadcasts ∧ Covers b r) ∧
      matchingBroadcasts db r = l.take 2 := by
  refine ⟨_, ?_, rfl⟩
  intro b
  simp only [List.mem_insertionSort, List.mem_filter, decide_eq_true_eq, Covers,
    Option.all_eq_true]

variable {db : Db}

/-- A try that finds one broadcast found all that cover the chat. -/
theorem matchingBroadcasts_single (h : matchingBroadcasts db r = [b]) :
    ∀ b', b' = b ↔ b' ∈ db.broadcasts ∧ Covers b' r := by
  obtain ⟨l, hmem, htake⟩ := matchingBroadcasts_take db r
  rw [h] at htake
  have hl : l = [b] := by
    cases l with
    | nil => simp at htake
    | cons x l =>
      cases l with
      | nil => simpa using htake.symm
      | cons y l => simp at htake
  intro b'
  rw [← hmem, hl, List.mem_singleton]

/-- A try that finds fewer than two broadcasts, and not one, found none. -/
theorem matchingBroadcasts_none (h : (matchingBroadcasts db r).length ≤ 1)
    (hne : ∀ b, matchingBroadcasts db r ≠ [b]) :
    ∀ b ∈ db.broadcasts, ¬ Covers b r := by
  obtain ⟨l, hmem, htake⟩ := matchingBroadcasts_take db r
  intro b hb hcov
  have hin : b ∈ l := (hmem b).mpr ⟨hb, hcov⟩
  cases l with
  | nil => cases hin
  | cons x l =>
    cases l with
    | nil => exact hne x htake
    | cons y l =>
      rw [htake] at h
      simp at h

/-- The broadcast an archive session belongs to. -/
structure SourceKey where
  platform : Platform
  channelID : String
  startedAt : Time
  sessionSeq : Nat

def sourceKey (r : ChatRecord) (b : BroadcastRow) : SourceKey :=
  ⟨r.platform, r.channelID, b.startedAt, b.sessionSeq⟩

/-- The archive session is that of the broadcast. -/
def Source (db : Db) (session : String) (k : SourceKey) : Prop :=
  ∃ row, db.sessions.Has session row ∧
    k = ⟨row.platform, row.channelID, row.sourceStartedAt, row.sourceSessionSeq⟩

/-- The chat is in the event index of the session. -/
def Indexed (db : Db) (session eventID : String) : Prop :=
  ∃ position, db.eventIDs.Has (session, eventID) position

/-- What a try did that found one broadcast. -/
structure Archives (db db' : Db) (r : ChatRecord) (b : BroadcastRow) (session : String) :
    Prop where
  only : matchingBroadcasts db r = [b]
  broadcasts : db'.broadcasts = db.broadcasts
  indexed : ∀ id e, Indexed db' id e ↔ Indexed db id e ∨ (id = session ∧ e = r.eventID)
  unassigned : ∀ id q, db'.unassigned.Has id q ↔ db.unassigned.Has id q ∧ id ≠ r.spoolID
  source : ∀ id k, Source db' id k ↔ Source db id k ∨ (id = session ∧ k = sourceKey r b)
  session : Source db session (sourceKey r b) ∨ ∀ id, ¬ Source db id (sourceKey r b)

/-- What a try did that found none or several. -/
structure Queues (db db' : Db) (r : ChatRecord) : Prop where
  several : ∀ b, matchingBroadcasts db r ≠ [b]
  rest : db' = { db with unassigned := db'.unassigned }
  unassigned : ∀ id q, db'.unassigned.Has id q →
    db.unassigned.Has id q ∨ (id = r.spoolID ∧ q.1 = r)

variable {session : String}

theorem sessionOf_some (h : sessionOf db r b = some session) :
    Source db session (sourceKey r b) := by
  rw [sessionOf, Option.map_eq_some_iff] at h
  obtain ⟨⟨id, row⟩, hrow, rfl⟩ := h
  have hsel := List.mem_of_mem_head? hrow
  simp only [Table.mem_select, decide_eq_true_eq] at hsel
  obtain ⟨hhas, hp, hc, hs, hq⟩ := hsel
  exact ⟨row, hhas, by rw [sourceKey, hp, hc, hs, hq]⟩

theorem sessionOf_none (h : sessionOf db r b = none) (id : String) :
    ¬ Source db id (sourceKey r b) := by
  intro ⟨row, hrow, hk⟩
  rw [sessionOf, Option.map_eq_none_iff, List.head?_eq_none_iff] at h
  have hin : (id, row) ∈ db.sessions.select fun _ row =>
      row.platform = r.platform ∧ row.channelID = r.channelID ∧
        row.sourceStartedAt = b.startedAt ∧ row.sourceSessionSeq = b.sessionSeq := by
    rw [sourceKey, SourceKey.mk.injEq] at hk
    simp only [Table.mem_select, decide_eq_true_eq]
    exact ⟨hrow, hk.1.symm, hk.2.1.symm, hk.2.2.1.symm, hk.2.2.2.symm⟩
  rw [h] at hin
  cases hin

/-- The archive session of a broadcast, found or made. -/
theorem ensureSession_ok {uuid : String} {sessions : Table String SessionRow}
    (h : ensureSession db uuid r b = .ok (sessions, session)) :
    (∀ id k, Source { db with sessions } id k ↔
        Source db id k ∨ (id = session ∧ k = sourceKey r b)) ∧
      (Source db session (sourceKey r b) ∨ ∀ id, ¬ Source db id (sourceKey r b)) := by
  unfold ensureSession at h
  split at h
  · rename_i found hfound
    cases h
    have hsource := sessionOf_some hfound
    refine ⟨?_, Or.inl hsource⟩
    intro id k
    constructor
    · exact Or.inl
    · rintro (hold | ⟨rfl, rfl⟩)
      · exact hold
      · exact hsource
  · rename_i hnone
    split at h
    · cases h
    · rename_i sessions' hins
      cases h
      refine ⟨?_, Or.inr (sessionOf_none hnone)⟩
      intro id k
      simp only [Source, (Table.insert_eq_some hins).2]
      constructor
      · rintro ⟨row, hold | ⟨rfl, rfl⟩, hk⟩
        · exact Or.inl ⟨row, hold, hk⟩
        · exact Or.inr ⟨rfl, hk⟩
      · rintro (⟨row, hold, hk⟩ | ⟨rfl, rfl⟩)
        · exact ⟨row, Or.inl hold, hk⟩
        · exact ⟨_, Or.inr ⟨rfl, rfl⟩, rfl⟩

/-- The recording time is no part of what a session belongs to. -/
theorem source_modify {sessions : Table String SessionRow} {f : Option Time → Option Time}
    {id : String} {k : SourceKey} :
    Source { db with
        sessions := sessions.modify session fun row =>
          { row with recordingStartedAt := f row.recordingStartedAt } } id k ↔
      Source { db with sessions } id k := by
  simp only [Source, Table.modify, Table.has_update]
  constructor
  · rintro ⟨row', ⟨row, hrow, rfl⟩, hk⟩
    refine ⟨row, hrow, ?_⟩
    split at hk <;> exact hk
  · rintro ⟨row, hrow, hk⟩
    refine ⟨_, ⟨row, hrow, rfl⟩, ?_⟩
    split <;> exact hk

theorem insert_none {eventID : String} {position : Nat}
    (h : db.eventIDs.insert (session, eventID) position = none) :
    Indexed db session eventID := by
  cases hfind : db.eventIDs.find (session, eventID) with
  | none =>
    obtain ⟨t, ht⟩ := Table.insert_isSome position hfind
    rw [ht] at h
    cases h
  | some p => exact ⟨p, Table.find_eq_some_iff.mp hfind⟩

variable {db' : Db}

theorem appendArchiveChat_placed {K : Codec β} {B : Journal.Backend} {uuid : String}
    {position : Nat} {assigned : Bool}
    (h : appendArchiveChat K B uuid position db r = .ok (db', assigned)) :
    (∃ b session, Archives db db' r b session) ∨ Queues db db' r := by
  unfold appendArchiveChat at h
  split at h
  · cases h
  split at h
  · cases h
  split at h
  · rename_i b honly
    split at h
    · cases h
    rename_i sessions session hsession
    obtain ⟨hsource, hmade⟩ := ensureSession_ok hsession
    split at h
    · rename_i hdup
      cases h
      have hold : Indexed db session r.eventID := insert_none hdup
      refine Or.inl ⟨b, session, honly, rfl, ?_, ?_, hsource, hmade⟩
      · intro id e
        constructor
        · exact Or.inl
        · rintro (h | ⟨rfl, rfl⟩)
          · exact h
          · exact hold
      · intro id q
        simp
    · rename_i eventIDs hids
      split at h
      · cases h
      cases h
      refine Or.inl ⟨b, session, honly, rfl, ?_, ?_, ?_, hmade⟩
      · intro id e
        simp only [Indexed, (Table.insert_eq_some hids).2, Prod.mk.injEq]
        constructor
        · rintro ⟨p, hold | ⟨⟨rfl, rfl⟩, -⟩⟩
          · exact Or.inl ⟨p, hold⟩
          · exact Or.inr ⟨rfl, rfl⟩
        · rintro (⟨p, hold⟩ | ⟨rfl, rfl⟩)
          · exact ⟨p, Or.inl hold⟩
          · exact ⟨position, Or.inr ⟨⟨rfl, rfl⟩, rfl⟩⟩
      · intro id q
        simp
      · intro id k
        exact (source_modify (f := fun at_ =>
          some (min (at_.getD r.receivedAt) r.receivedAt))).trans (hsource id k)
  · rename_i hmany
    dsimp only at h
    split at h
    · cases h
      exact Or.inr ⟨fun b hb => hmany b hb, rfl, fun id q hq => Or.inl hq⟩
    · rename_i unassigned hins
      cases h
      refine Or.inr ⟨fun b hb => hmany b hb, rfl, ?_⟩
      intro id q hq
      rcases ((Table.insert_eq_some hins).2 id q).mp hq with hold | ⟨rfl, rfl⟩
      · exact Or.inl hold
      · exact Or.inr ⟨rfl, rfl⟩

/-! ## Retries -/

/-- A try of an archived chat meets one broadcast only. -/
def unambiguous (db : Db) (r : ChatRecord) : Bool :=
  !db.eventIDs.any (fun key _ => key.2 = r.eventID) || (matchingBroadcasts db r).length ≤ 1

/-- No archived chat is retried under two broadcasts. -/
def retriesUnambiguously (s : State) (i : Input) : Bool :=
  match i.op with
  | .append r _ _ _ => unambiguous s.db r
  | .reconcile k _ _ _ => s.batch[k]?.all (unambiguous s.db)
  | _ => true

def unambiguousMachine (C : Config β) : Machine State Input Unit :=
  (machine C).restrict fun s i => retriesUnambiguously s i = true

instance (C : Config β) (s : State) (i : Input) :
    Decidable ((unambiguousMachine C).admits s i) :=
  inferInstanceAs (Decidable (admits s i ∧ retriesUnambiguously s i = true))

theorem unambiguous_iff :
    unambiguous db r = true ↔
      ∀ id, Indexed db id r.eventID → (matchingBroadcasts db r).length ≤ 1 := by
  simp only [unambiguous, Bool.or_eq_true, Bool.not_eq_true', Table.any_eq_false,
    decide_eq_true_eq, decide_eq_false_iff_not]
  constructor
  · rintro (hno | hle) id ⟨p, hp⟩
    · exact absurd rfl (hno _ p hp)
    · exact hle
  · intro h
    by_cases hle : (matchingBroadcasts db r).length ≤ 1
    · exact Or.inr hle
    · refine Or.inl ?_
      rintro ⟨id, e⟩ p hp rfl
      exact hle (h id ⟨p, hp⟩)

/-! ## One place -/

/-- An indexed chat was spooled, the session is that of a broadcast that covers it,
and the chat is not in the queue. -/
structure PlaceInv (s : State) : Prop where
  received : ∀ r ∈ s.spooled, r.receivedAt ≤ s.clock
  identity : ∀ r ∈ s.spooled, ∀ r' ∈ s.spooled,
    r'.spoolID = r.spoolID ∨ r'.eventID = r.eventID → r' = r
  source : ∀ id id' k, Source s.db id k → Source s.db id' k → id = id'
  indexed : ∀ id e, Indexed s.db id e → ∃ r ∈ s.spooled, r.eventID = e ∧
    ∃ b ∈ s.db.broadcasts, Covers b r ∧ Source s.db id (sourceKey r b)
  unassigned : ∀ id q, s.db.unassigned.Has id q → q.1 ∈ s.spooled
  batch : ∀ r ∈ s.batch, r ∈ s.spooled
  one : ∀ id id' e, Indexed s.db id e → Indexed s.db id' e → id = id'
  apart : ∀ r ∈ s.spooled, ∀ id q, Indexed s.db id r.eventID → ¬ s.db.unassigned.Has r.spoolID q

theorem PlaceInv.init : PlaceInv State.init where
  received _ h := by cases h
  identity _ h := by cases h
  source _ _ _ h := by
    obtain ⟨row, hrow, -⟩ := h
    exact absurd hrow (Table.has_empty _ _)
  indexed _ _ h := by
    obtain ⟨p, hp⟩ := h
    exact absurd hp (Table.has_empty _ _)
  unassigned _ _ h := absurd h (Table.has_empty _ _)
  batch _ h := by cases h
  one _ _ _ h := by
    obtain ⟨p, hp⟩ := h
    exact absurd hp (Table.has_empty _ _)
  apart _ h := by cases h

theorem PlaceInv.tick (h : PlaceInv s) (hnow : s.clock ≤ now) : PlaceInv { s with clock := now } :=
  { h with received := fun r hr => Nat.le_trans (h.received r hr) hnow }

theorem PlaceInv.spool (h : PlaceInv s) (hr : r.receivedAt ≤ s.clock)
    (hid : ∀ r' ∈ s.spooled, r'.spoolID = r.spoolID ∨ r'.eventID = r.eventID → r' = r) :
    PlaceInv { s with spooled := r :: s.spooled } where
  received r' hr' := by
    rcases List.mem_cons.mp hr' with rfl | hr'
    · exact hr
    · exact h.received r' hr'
  identity r1 h1 r2 h2 hsame := by
    rcases List.mem_cons.mp h1 with rfl | hold1 <;> rcases List.mem_cons.mp h2 with rfl | hold2
    · rfl
    · exact hid r2 hold2 hsame
    · exact (hid r1 hold1 (hsame.imp Eq.symm Eq.symm)).symm
    · exact h.identity r1 hold1 r2 hold2 hsame
  source := h.source
  indexed id e he := by
    obtain ⟨r', hr', hrest⟩ := h.indexed id e he
    exact ⟨r', List.mem_cons_of_mem _ hr', hrest⟩
  unassigned id q hq := List.mem_cons_of_mem _ (h.unassigned id q hq)
  batch r' hr' := List.mem_cons_of_mem _ (h.batch r' hr')
  one := h.one
  apart r' hr' id q hi := by
    rcases List.mem_cons.mp hr' with rfl | hold
    · obtain ⟨r0, hr0, he, -⟩ := h.indexed id _ hi
      have hsame : r0 = r' := hid r0 hr0 (Or.inr he)
      exact h.apart r' (hsame ▸ hr0) id q hi
    · exact h.apart r' hold id q hi

/-- An indexed chat is covered by a broadcast of its session. -/
theorem PlaceInv.covered (h : PlaceInv s) (hr : r ∈ s.spooled) {id : String}
    (hi : Indexed s.db id r.eventID) :
    ∃ b ∈ s.db.broadcasts, Covers b r ∧ Source s.db id (sourceKey r b) := by
  obtain ⟨r', hr', he, hb⟩ := h.indexed id r.eventID hi
  rw [h.identity r hr r' hr' (Or.inr he)] at hb
  exact hb

/-- The discovery process only advances its rows. -/
theorem PlaceInv.advance (h : PlaceInv s) (hrows : Advances s.clock s.db.broadcasts rows) :
    PlaceInv { s with db := { s.db with broadcasts := rows } } :=
  { h with
    indexed := by
      intro id e he
      obtain ⟨r, hr, heq, b, hb, hcov, hsrc⟩ := h.indexed id e he
      obtain ⟨b', hb', hadv⟩ := hrows b hb
      refine ⟨r, hr, heq, b', hb', hcov.advance hadv (h.received r hr), ?_⟩
      have hk : sourceKey r b' = sourceKey r b := by
        rw [sourceKey, sourceKey, hadv.startedAt, hadv.sessionSeq]
      rw [hk]
      exact hsrc }

/-- A try that finds one broadcast cannot leave the session of an earlier one. -/
theorem PlaceInv.archives (h : PlaceInv s) (hr : r ∈ s.spooled)
    (ha : Archives s.db db' r b session) :
    PlaceInv { s with db := db' } := by
  have hb := (matchingBroadcasts_single ha.only b).mp rfl
  -- Where `r` is indexed, it is under the session of `b`.
  have hsame : ∀ id, Indexed s.db id r.eventID → id = session := by
    intro id hi
    obtain ⟨b', hb', hcov, hsrc⟩ := h.covered hr hi
    rw [(matchingBroadcasts_single ha.only b').mpr ⟨hb', hcov⟩] at hsrc
    rcases ha.session with hold | hnone
    · exact h.source id session _ hsrc hold
    · exact absurd hsrc (hnone id)
  constructor
  case received => exact h.received
  case identity => exact h.identity
  case source =>
    intro id id' k hid hid'
    rcases (ha.source id k).mp hid with h1 | ⟨rfl, rfl⟩ <;>
      rcases (ha.source id' _).mp hid' with h2 | ⟨rfl, h2⟩
    · exact h.source id id' k h1 h2
    · rw [h2] at h1
      rcases ha.session with hold | hnone
      · exact h.source id id' _ h1 hold
      · exact absurd h1 (hnone id)
    · rcases ha.session with hold | hnone
      · exact h.source id id' _ hold h2
      · exact absurd h2 (hnone id')
    · rfl
  case indexed =>
    intro id e he
    rcases (ha.indexed id e).mp he with hold | ⟨rfl, rfl⟩
    · obtain ⟨r', hr', heq, b', hb', hcov, hsrc⟩ := h.indexed id e hold
      refine ⟨r', hr', heq, b', ?_, hcov, (ha.source id _).mpr (Or.inl hsrc)⟩
      rw [ha.broadcasts]
      exact hb'
    · refine ⟨r, hr, rfl, b, ?_, hb.2, (ha.source id _).mpr (Or.inr ⟨rfl, rfl⟩)⟩
      rw [ha.broadcasts]
      exact hb.1
  case unassigned => exact fun id q hq => h.unassigned id q ((ha.unassigned id q).mp hq).1
  case batch => exact h.batch
  case one =>
    intro id id' e hid hid'
    rcases (ha.indexed id e).mp hid with h1 | ⟨rfl, rfl⟩ <;>
      rcases (ha.indexed id' _).mp hid' with h2 | ⟨rfl, h2⟩
    · exact h.one id id' e h1 h2
    · rw [h2] at h1
      exact hsame id h1
    · exact (hsame id' h2).symm
    · rfl
  case apart =>
    intro r' hr' id q hi hq
    obtain ⟨hold, hne⟩ := (ha.unassigned _ q).mp hq
    rcases (ha.indexed id _).mp hi with hindexed | ⟨-, he⟩
    · exact h.apart r' hr' id q hindexed hold
    · exact hne (congrArg _ (h.identity r hr r' hr' (Or.inr he)))

/-- A try that finds none or several is not one of an archived chat. -/
theorem PlaceInv.queues (h : PlaceInv s) (hr : r ∈ s.spooled) (hone : unambiguous s.db r = true)
    (hq : Queues s.db db' r) : PlaceInv { s with db := db' } := by
  rw [hq.rest]
  refine { h with unassigned := ?_, apart := ?_ }
  · intro id q hnew
    rcases hq.unassigned id q hnew with hold | ⟨-, heq⟩
    · exact h.unassigned id q hold
    · rw [heq]
      exact hr
  · intro r' hr' id q hi hnew
    rcases hq.unassigned _ q hnew with hold | ⟨he, -⟩
    · exact h.apart r' hr' id q hi hold
    · -- `r'` is the chat of this try, which is indexed and so covered.
      rw [h.identity r hr r' hr' (Or.inl he)] at hi
      obtain ⟨b, hb, hcov, -⟩ := h.covered hr hi
      exact matchingBroadcasts_none (unambiguous_iff.mp hone id hi) hq.several b hb hcov

theorem PlaceInv.append (h : PlaceInv s) (hr : r.receivedAt ≤ s.clock)
    (hid : ∀ r' ∈ s.spooled, r'.spoolID = r.spoolID ∨ r'.eventID = r.eventID → r' = r)
    (hone : unambiguous s.db r = true) (uuid : String) (position : Nat) (fate : Fate) :
    PlaceInv (ChatPlacement.append C s r uuid position fate) := by
  have hs := h.spool hr hid
  unfold ChatPlacement.append
  split
  · exact hs
  · rename_i db assigned hok
    split
    · exact hs
    · rcases appendArchiveChat_placed hok with ⟨b, session, ha⟩ | hq
      · exact hs.archives List.mem_cons_self ha
      · exact hs.queues List.mem_cons_self hone hq

/-- A chat that reconciliation read was spooled before. -/
theorem mem_unassignedRecords {spoolIDs : List String} (h : r ∈ unassignedRecords C db spoolIDs) :
    ∃ id q, db.unassigned.Has id q ∧ q.1 = r := by
  obtain ⟨id, -, hr⟩ := List.mem_filterMap.mp h
  obtain ⟨hr, -⟩ := Option.filter_eq_some_iff.mp hr
  obtain ⟨q, hq, rfl⟩ := Option.map_eq_some_iff.mp hr
  exact ⟨id, q, Table.find_eq_some_iff.mp hq, rfl⟩

theorem PlaceInv.step (h : PlaceInv s) {i : Input} (hi : admits s i)
    (hone : retriesUnambiguously s i = true) : PlaceInv (ChatPlacement.step C s i) := by
  obtain ⟨now, op⟩ := i
  have ht := h.tick hi.1
  cases op with
  | insertSession b => exact ht.advance (insertSession_advances now _ b)
  | lastSeen platform channelID sessionSeq lastSeenAt =>
    exact ht.advance (updateSessionLastSeen_advances now hi.2)
  | close platform channelID sessionSeq endedAt =>
    exact ht.advance (endSessions_advances now _ _ _)
  | closeOrphaned live => exact ht.advance (endSessions_advances now _ _ _)
  | append r uuid position fate => exact ht.append hi.2.1 hi.2.2 hone uuid position fate
  | select spoolIDs =>
    refine { ht with batch := ?_ }
    intro r hr
    rcases List.mem_append.mp hr with hold | hnew
    · exact h.batch r hold
    · obtain ⟨id, q, hq, rfl⟩ := mem_unassignedRecords hnew
      exact h.unassigned id q hq
  | reconcile k uuid position fate =>
    simp only [ChatPlacement.step]
    cases hk : s.batch[k]? with
    | none => exact ht
    | some r =>
      have hr : r ∈ s.spooled := h.batch r (List.mem_of_getElem? hk)
      have hb : PlaceInv { s with clock := now, batch := s.batch.eraseIdx k } :=
        { ht with batch := fun r' hr' => h.batch r' (List.mem_of_mem_eraseIdx hr') }
      simp only [retriesUnambiguously, hk, Option.all_some] at hone
      exact hb.append (ht.received r hr) (h.identity r hr) hone uuid position fate

/-- The chat is in the event index of at most one session, and not in the
queue while it is there. -/
def OnePlace (db : Db) (r : ChatRecord) : Prop :=
  (∀ id id', Indexed db id r.eventID → Indexed db id' r.eventID → id = id') ∧
    ∀ id q, Indexed db id r.eventID → ¬ db.unassigned.Has r.spoolID q

/-- If no archived chat is retried while two broadcasts cover it, every chat is
in one place at most after every step. -/
theorem one_place (C : Config β) (tr : List (Input × Unit)) (s : State)
    (hr : (unambiguousMachine C).Run State.init tr s) : ∀ r ∈ s.spooled, OnePlace s.db r := by
  have hinv : PlaceInv s := hr.invariant (fun _ _ h hi => h.step hi.1 hi.2) PlaceInv.init
  intro r hr
  exact ⟨fun id id' => hinv.one id id' r.eventID, hinv.apart r hr⟩

/-! ## A chat at the turn of two broadcasts -/

/-- A chat of the tenth second is archived under the first broadcast, but the
response is lost.  The broadcast ends and the next one is observed. -/
def turnOver : List Input :=
  [ ⟨second, .insertSession ⟨.soop, "fixture_channel", second, 1, second, second, none⟩⟩
  , ⟨11 * second, .append (fixtureRecord "a" (10 * second)) sessionA 1 .lost⟩
  , ⟨15 * second, .close .soop "fixture_channel" 1 (15 * second)⟩
  , ⟨20 * second, .insertSession
      ⟨.soop, "fixture_channel", 20 * second, 2, 20 * second, 20 * second, none⟩⟩ ]

/-- The retry finds two broadcasts. -/
def queuedRun : State × List (Input × Unit) :=
  (machine fixtureConfig).exec State.init
    (turnOver ++
      [⟨21 * second, .append (fixtureRecord "a" (10 * second)) sessionB 2 .answered⟩])

theorem retry_queues_archived :
    (machine fixtureConfig).Run State.init queuedRun.2 queuedRun.1 ∧
      queuedRun.1.db.eventIDs.find (sessionA, "a") = some 1 ∧
      queuedRun.1.db.unassigned.find "9b1deb4d-3b7d-4bad-9bdd-2b0d7b3dcb6a" =
        some (fixtureRecord "a" (10 * second), .ambiguousSession) ∧
      fixtureRecord "a" (10 * second) ∈ queuedRun.1.spooled ∧
      ¬ OnePlace queuedRun.1.db (fixtureRecord "a" (10 * second)) := by
  have hindex : queuedRun.1.db.eventIDs.find (sessionA, "a") = some 1 := by
    decide
  have hqueue : queuedRun.1.db.unassigned.find "9b1deb4d-3b7d-4bad-9bdd-2b0d7b3dcb6a" =
      some (fixtureRecord "a" (10 * second), .ambiguousSession) := by decide
  refine ⟨Machine.run_exec _ _ (by decide), hindex, hqueue, by decide, ?_⟩
  intro h
  exact h.2 sessionA _ ⟨1, Table.find_eq_some_iff.mp hindex⟩
    (Table.find_eq_some_iff.mp hqueue)

/-- A chat that arrives before its broadcast is observed waits in the queue;
reconciliation archives it without learning so, and the spool tries again. -/
def promptRun : State × List (Input × Unit) :=
  (unambiguousMachine fixtureConfig).exec State.init
    [ ⟨second, .append (fixtureRecord "a" second) sessionA 1 .answered⟩
    , ⟨2 * second, .insertSession
        ⟨.soop, "fixture_channel", 2 * second, 1, 2 * second, 2 * second, none⟩⟩
    , ⟨3 * second, .select ["9b1deb4d-3b7d-4bad-9bdd-2b0d7b3dcb6a"]⟩
    , ⟨4 * second, .reconcile 0 sessionA 2 .lost⟩
    , ⟨5 * second, .append (fixtureRecord "a" second) sessionB 3 .answered⟩ ]

theorem one_place_promptRun :
    promptRun.1.db.eventIDs.keys = [(sessionA, "a")] ∧ promptRun.1.db.unassigned.keys = [] ∧
      OnePlace promptRun.1.db (fixtureRecord "a" second) :=
  ⟨by decide, by decide,
    one_place _ _ _ (Machine.run_exec _ _ (by decide)) _ (by decide)⟩

end RogiCollector.Ports.ChatPlacement
