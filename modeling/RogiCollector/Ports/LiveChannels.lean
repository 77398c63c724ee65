import RogiCollector.Ports.ArchiveStore

/-!
# The table of live channels

`live_channels` and the statements of `shared/store/postgres.go`,
`postgres_history.go` and `collection_opt_out.go` that write it.  Discovery
inserts and ends channels, the coordinator assigns them to workers, and an
opt-out ends one.  Each statement is atomic; `now` is what `NOW()` yields.

Of the columns, those a statement here reads or a caller gets back are kept.
The descriptive ones (names, titles, tags, thumbnails) are left out.
-/

namespace RogiCollector.Ports.Live

open Verified
open Journal (Time)
open Archive (Platform)

/-! ## Rows -/

/-- The `status` column. -/
inductive ChannelStatus where
  | pending
  | live
  | ended
  deriving Repr, DecidableEq

/-- The `handoff_status` column. -/
inductive HandoffStatus where
  | pending
  | acked
  deriving Repr, DecidableEq

/-- The unique key `(platform, channel_id)`. -/
structure ChannelKey where
  platform : Platform
  channelID : String
  deriving Repr, DecidableEq

/-- A `live_channels` row. -/
structure ChannelRow where
  id : Nat
  viewerCount : Nat
  status : ChannelStatus
  workerID : Option String
  lastSeenAt : Time
  endedAt : Option Time
  startedAt : Option Time
  currentSessionSeq : Nat
  handoffFrom : Option String
  handoffStatus : Option HandoffStatus
  handoffStartedAt : Option Time
  deriving Repr, DecidableEq

/-- A `workers` row, of which only the status matters here. -/
inductive WorkerStatus where
  | alive
  | draining
  | dead
  deriving Repr, DecidableEq

/-- The tables; `lastID` is where the sequence of `id` stands. -/
structure Db where
  channels : Table ChannelKey ChannelRow
  lastID : Nat
  workers : Table String WorkerStatus
  /-- Active rows of `collection_opt_outs`. -/
  optOuts : List ChannelKey
  /-- Subscribed rows of `collector_channels`. -/
  subscribed : List String

def Db.empty : Db := ⟨Table.empty, 0, Table.empty, [], []⟩

/-! ## Discovery -/

/-- `model.LiveChannel` as discovery fills it. -/
structure LiveChannel where
  key : ChannelKey
  viewerCount : Nat
  broadcastStartedAt : Option Time
  deriving Repr, DecidableEq

/-- A later channel of the same key replaces an earlier one in its place. -/
def dedupe (channels : List LiveChannel) : List LiveChannel :=
  channels.foldl
    (fun seen ch =>
      if seen.any fun c => c.key = ch.key then seen.map fun c => if c.key = ch.key then ch else c
      else seen ++ [ch]) []

/-- `UpsertResult`, without the metadata hash. -/
structure UpsertResult where
  key : ChannelKey
  sessionSeq : Nat
  status : ChannelStatus
  isInsert : Bool
  deriving Repr, DecidableEq

/-- What `ON CONFLICT DO UPDATE` makes of a row.  Only the statement with
history (`history`) touches the start time and the session number. -/
def ChannelRow.seen (row : ChannelRow) (history : Bool) (now : Time) (ch : LiveChannel) :
    ChannelRow :=
  { row with
    viewerCount := ch.viewerCount
    lastSeenAt := now
    startedAt := if history then ch.broadcastStartedAt else row.startedAt
    status := if row.status = .ended then .pending else row.status
    endedAt := if row.status = .ended then none else row.endedAt
    currentSessionSeq :=
      if history ∧ row.status = .ended then row.currentSessionSeq + 1
      else row.currentSessionSeq }

/-- A row as it is inserted. -/
def LiveChannel.newRow (ch : LiveChannel) (history : Bool) (id : Nat) (now : Time) :
    ChannelRow where
  id := id
  viewerCount := ch.viewerCount
  status := .pending
  workerID := none
  lastSeenAt := now
  endedAt := none
  startedAt := if history then ch.broadcastStartedAt else none
  currentSessionSeq := 0
  handoffFrom := none
  handoffStatus := none
  handoffStartedAt := none

/-- One row of the upsert.  The sequence advances whether or not it is used. -/
def upsertRow (history : Bool) (now : Time) (db : Db) (ch : LiveChannel) : Db × UpsertResult :=
  match db.channels.find ch.key with
  | some row =>
    let row := row.seen history now ch
    ({ db with
       channels := db.channels.upsert ch.key row
       lastID := db.lastID + 1 },
      ⟨ch.key, row.currentSessionSeq, row.status, false⟩)
  | none =>
    let row := ch.newRow history (db.lastID + 1) now
    ({ db with
       channels := db.channels.upsert ch.key row
       lastID := db.lastID + 1 },
      ⟨ch.key, row.currentSessionSeq, row.status, true⟩)

/-- The upsert, row by row. -/
def upsertRows (history : Bool) (now : Time) : Db → List LiveChannel → Db × List UpsertResult
  | db, [] => (db, [])
  | db, ch :: rest =>
    let (db, result) := upsertRow history now db ch
    let (db, results) := upsertRows history now db rest
    (db, result :: results)

def upsertLiveChannelsWithHistory (now : Time) (db : Db) (channels : List LiveChannel) :
    Db × List UpsertResult :=
  upsertRows true now db (dedupe channels)

/-- `status = 'ended', ended_at = NOW(), worker_id = NULL`. -/
def ChannelRow.end_ (row : ChannelRow) (now : Time) : ChannelRow :=
  { row with status := .ended, endedAt := some now, workerID := none }

/-- The rows `MarkEndedChannels` ends. -/
def endsWith (platform : Platform) (active : List String) (key : ChannelKey) (row : ChannelRow) :
    Bool :=
  key.platform = platform ∧ row.status ≠ .ended ∧ key.channelID ∉ active

def markEndedChannels (now : Time) (db : Db) (platform : Platform) (active : List String) :
    Db × List String :=
  ({ db with
     channels := db.channels.update fun key row =>
       if endsWith platform active key row then row.end_ now else row },
    (db.channels.select (endsWith platform active)).map fun row => row.1.channelID)

def markChannelEnded (now : Time) (db : Db) (id : Nat) : Db :=
  { db with
    channels := db.channels.update fun _ row => if row.id = id then row.end_ now else row }

/-- `EndCollectionOptedOutLiveChannel`: the worker that had the channel. -/
def endCollectionOptedOutLiveChannel (now : Time) (db : Db) (key : ChannelKey) :
    Db × Option String :=
  match db.channels.find key with
  | some row =>
    if row.status ≠ .ended then
      ({ db with
         channels := db.channels.modify key fun row =>
           { row with
             status := .ended
             endedAt := some (row.endedAt.getD now)
             workerID := none } }, row.workerID)
    else (db, none)
  | none => (db, none)

/-! ## Assignment -/

/-- The configured product channel; `none` collects every channel. -/
structure Config where
  collectionChannel : Option String
  deriving Repr, DecidableEq

/-- The condition of `ListPendingChannels`. -/
def isPending (C : Config) (db : Db) (key : ChannelKey) (row : ChannelRow) : Bool :=
  row.status = .pending ∧ row.workerID = none ∧ key ∉ db.optOuts ∧
    C.collectionChannel.all fun channel =>
      key = ⟨.soop, channel⟩ ∧ key.channelID ∈ db.subscribed

/-- Handoff columns are cleared. -/
def ChannelRow.clearHandoff (row : ChannelRow) : ChannelRow :=
  { row with handoffFrom := none, handoffStatus := none, handoffStartedAt := none }

/-- The rows `AssignChannel` matches. -/
def assignable (C : Config) (id : Nat) (key : ChannelKey) (row : ChannelRow) : Bool :=
  row.id = id ∧ C.collectionChannel.all fun channel => key = ⟨.soop, channel⟩ ∧ channel ≠ ""

/-- `AssignChannel`; `none` is an error.  The worker has to exist, and with a
configured channel a row has to be matched. -/
def assignChannel (C : Config) (db : Db) (id : Nat) (workerID : String) : Option Db :=
  let matched := db.channels.select (assignable C id)
  if matched ≠ [] ∧ db.workers.find workerID = none then none
  else if C.collectionChannel ≠ none ∧ matched = [] then none
  else
    some
      { db with
        channels := db.channels.update fun key row =>
          if assignable C id key row then
            { row.clearHandoff with workerID := some workerID, status := .live }
          else row }

/-- Back to `pending` without a worker. -/
def ChannelRow.unassign (row : ChannelRow) : ChannelRow :=
  { row.clearHandoff with workerID := none, status := .pending }

def unassignWorkerChannels (db : Db) (workerID : String) : Db :=
  { db with
    channels := db.channels.update fun _ row =>
      if row.workerID = some workerID ∧ row.status ≠ .ended then row.unassign else row }

def unassignChannel (db : Db) (key : ChannelKey) (workerID : String) : Db :=
  { db with
    channels := db.channels.update fun key' row =>
      if key' = key ∧ row.workerID = some workerID ∧ row.status ≠ .ended then row.unassign
      else row }

def unassignDeadWorkerChannels (db : Db) : Db :=
  { db with
    channels := db.channels.update fun _ row =>
      if (row.workerID.any fun worker => db.workers.find worker = some .dead) ∧
          row.status = .live then row.unassign
      else row }

/-- `ReassignChannel`; `none` is an error.  With a configured channel nothing
is handed over. -/
def reassignChannel (C : Config) (now : Time) (db : Db) (id : Nat)
    (newWorkerID oldWorkerID : String) : Option (Db × Bool) :=
  if C.collectionChannel ≠ none then some (db, false)
  else
    let matched := db.channels.select fun _ row => row.id = id ∧ row.status = .live
    if matched ≠ [] ∧ db.workers.find newWorkerID = none then none
    else
      some
        ({ db with
           channels := db.channels.update fun _ row =>
             if row.id = id ∧ row.status = .live then
               { row with
                 workerID := some newWorkerID
                 handoffFrom := some oldWorkerID
                 handoffStatus := some .pending
                 handoffStartedAt := some now }
             else row },
          matched ≠ [])

/-! ## Rows and the upsert -/

/-- The rows behind an upsert: one that was not listed is as before, and a
listed one is new or was seen. -/
theorem upsertRow_has {history : Bool} {now : Time} {db : Db} {ch : LiveChannel}
    {key : ChannelKey} {row : ChannelRow} :
    (upsertRow history now db ch).1.channels.Has key row ↔
      (key ≠ ch.key ∧ db.channels.Has key row) ∨
        key = ch.key ∧ ((∃ old, db.channels.Has key old ∧ row = old.seen history now ch) ∨
          (db.channels.find key = none ∧ row = ch.newRow history (db.lastID + 1) now)) := by
  unfold upsertRow
  split
  · rename_i old hfind
    rw [Table.find_eq_some_iff] at hfind
    rw [Table.has_upsert]
    constructor
    · rintro (⟨rfl, rfl⟩ | hother)
      · exact Or.inr ⟨rfl, Or.inl ⟨old, hfind, rfl⟩⟩
      · exact Or.inl hother
    · rintro (hother | ⟨rfl, ⟨old', hold', rfl⟩ | ⟨hnone, -⟩⟩)
      · exact Or.inr hother
      · rw [hold'.unique hfind]
        exact Or.inl ⟨rfl, rfl⟩
      · exact absurd hfind (Table.find_eq_none_iff.mp hnone old)
  · rename_i hnone
    rw [Table.has_upsert]
    constructor
    · rintro (⟨rfl, rfl⟩ | hother)
      · exact Or.inr ⟨rfl, Or.inr ⟨hnone, rfl⟩⟩
      · exact Or.inl hother
    · rintro (hother | ⟨rfl, ⟨old, hold, -⟩ | ⟨-, rfl⟩⟩)
      · exact Or.inr hother
      · exact absurd hold (Table.find_eq_none_iff.mp hnone old)
      · exact Or.inl ⟨rfl, rfl⟩

/-! ## Listed channels -/

theorem mem_dedupe {channels : List LiveChannel} {ch : LiveChannel} (h : ch ∈ dedupe channels) :
    ch ∈ channels := by
  have hfold : ∀ (l seen : List LiveChannel),
      ch ∈ l.foldl (fun seen ch => if seen.any fun c => c.key = ch.key then
        seen.map fun c => if c.key = ch.key then ch else c else seen ++ [ch]) seen →
      ch ∈ seen ∨ ch ∈ l := by
    intro l
    induction l with
    | nil =>
      intro seen hmem
      exact Or.inl hmem
    | cons c l ih =>
      intro seen hmem
      rw [List.foldl_cons] at hmem
      rcases ih _ hmem with hseen | hl
      · split at hseen
        · obtain ⟨c', hc', heq⟩ := List.mem_map.mp hseen
          by_cases hkey : c'.key = c.key
          · rw [if_pos hkey] at heq
            exact Or.inr (heq ▸ List.mem_cons_self)
          · rw [if_neg hkey] at heq
            exact Or.inl (heq ▸ hc')
        · rcases List.mem_append.mp hseen with hseen | hseen
          · exact Or.inl hseen
          · exact Or.inr (List.mem_singleton.mp hseen ▸ List.mem_cons_self)
      · exact Or.inr (List.mem_cons_of_mem _ hl)
  rcases hfold channels [] h with hnil | hmem
  · cases hnil
  · exact hmem

/-- A list of channels is upserted once for each key. -/
theorem dedupe_nodup (channels : List LiveChannel) :
    ((dedupe channels).map LiveChannel.key).Nodup := by
  have hfold : ∀ (l seen : List LiveChannel), (seen.map LiveChannel.key).Nodup →
      ((l.foldl (fun seen ch => if seen.any fun c => c.key = ch.key then
        seen.map fun c => if c.key = ch.key then ch else c else seen ++ [ch]) seen).map
          LiveChannel.key).Nodup := by
    intro l
    induction l with
    | nil =>
      intro seen hseen
      exact hseen
    | cons ch l ih =>
      intro seen hseen
      rw [List.foldl_cons]
      apply ih
      split
      · -- The replacement keeps the keys in place.
        have hkeys : (seen.map fun c => if c.key = ch.key then ch else c).map
            LiveChannel.key = seen.map LiveChannel.key := by
          rw [List.map_map]
          apply List.map_congr_left
          intro c _
          by_cases hkey : c.key = ch.key <;> simp [hkey]
        rw [hkeys]
        exact hseen
      · rename_i hfree
        rw [List.map_append, List.nodup_append]
        refine ⟨hseen, by simp, ?_⟩
        intro key hkey key' hkey' heq
        simp only [List.map_cons, List.map_nil, List.mem_singleton] at hkey'
        obtain ⟨c, hc, rfl⟩ := List.mem_map.mp hkey
        apply hfree
        rw [List.any_eq_true]
        exact ⟨c, hc, by simp [heq, hkey']⟩
  exact hfold channels [] List.nodup_nil

/-- What the upsert of a result's channel did to its row. -/
structure Upserted (db db' : Db) (r : UpsertResult) (row' : ChannelRow) : Prop where
  row : db'.channels.Has r.key row'
  seq : row'.currentSessionSeq = r.sessionSeq
  status : row'.status ≠ .ended
  inserted : r.isInsert = true → ∀ row, ¬ db.channels.Has r.key row
  kept : ∀ row, db.channels.Has r.key row → row.status ≠ .ended →
    row'.currentSessionSeq = row.currentSessionSeq

theorem upsertRow_upserted (history : Bool) (now : Time) (db : Db) (ch : LiveChannel) :
    (upsertRow history now db ch).2.key = ch.key ∧
      ∃ row', Upserted db (upsertRow history now db ch).1 (upsertRow history now db ch).2
        row' := by
  unfold upsertRow
  split
  · rename_i row hrow
    refine ⟨rfl, row.seen history now ch, ?_⟩
    refine ⟨Table.has_upsert.mpr (Or.inl ⟨rfl, rfl⟩), rfl, ?_, by simp, ?_⟩
    · by_cases hended : row.status = .ended <;> simp [ChannelRow.seen, hended]
    · intro row0 hrow0 hlive
      rw [hrow0.unique (Table.find_eq_some_iff.mp hrow)] at hlive ⊢
      simp [ChannelRow.seen, hlive]
  · rename_i hnone
    refine ⟨rfl, ch.newRow history (db.lastID + 1) now, ?_⟩
    refine ⟨Table.has_upsert.mpr (Or.inl ⟨rfl, rfl⟩), rfl, by simp [LiveChannel.newRow],
      fun _ => Table.find_eq_none_iff.mp hnone, ?_⟩
    intro row hrow
    exact absurd hrow (Table.find_eq_none_iff.mp hnone row)

/-- A row of the upsert leaves the rows of other keys alone. -/
theorem upsertRow_others {history : Bool} {now : Time} {db : Db} {ch : LiveChannel}
    {key : ChannelKey} (hkey : key ≠ ch.key) (row : ChannelRow) :
    (upsertRow history now db ch).1.channels.Has key row ↔ db.channels.Has key row := by
  rw [upsertRow_has]
  simp [hkey]

/-- An upsert of distinct keys: one result for each channel, and other rows
stay. -/
theorem upsertRows_upserted (history : Bool) (now : Time) (db : Db)
    (channels : List LiveChannel) (hkeys : (channels.map LiveChannel.key).Nodup) :
    (upsertRows history now db channels).2.map UpsertResult.key =
        channels.map LiveChannel.key ∧
      (∀ key, key ∉ channels.map LiveChannel.key → ∀ row,
        (upsertRows history now db channels).1.channels.Has key row ↔
          db.channels.Has key row) ∧
      ∀ r ∈ (upsertRows history now db channels).2,
        ∃ row', Upserted db (upsertRows history now db channels).1 r row' := by
  induction channels generalizing db with
  | nil =>
    refine ⟨rfl, fun _ _ _ => Iff.rfl, ?_⟩
    intro r hr
    cases hr
  | cons ch rest ih =>
    rw [List.map_cons, List.nodup_cons] at hkeys
    obtain ⟨hmap, hother, hres⟩ := ih (upsertRow history now db ch).1 hkeys.2
    obtain ⟨hkey, row', hrow'⟩ := upsertRow_upserted history now db ch
    refine ⟨?_, ?_, ?_⟩
    · simp only [upsertRows, List.map_cons, hmap, hkey]
    · intro key hne row
      rw [List.map_cons, List.mem_cons, not_or] at hne
      exact (hother key hne.2 row).trans (upsertRow_others hne.1 row)
    · intro r hr
      rcases List.mem_cons.mp hr with rfl | hr
      · have hnot : (upsertRow history now db ch).2.key ∉ rest.map LiveChannel.key := by
          rw [hkey]
          exact hkeys.1
        exact ⟨row', (hother _ hnot row').mpr hrow'.row, hrow'.seq, hrow'.status,
          hrow'.inserted, hrow'.kept⟩
      · have hne : r.key ≠ ch.key := by
          intro heq
          apply hkeys.1
          rw [← hmap, ← heq]
          exact List.mem_map_of_mem hr
        obtain ⟨row, hup⟩ := hres r hr
        refine ⟨row, hup.row, hup.seq, hup.status, ?_, ?_⟩
        · intro hins row0 hrow0
          exact hup.inserted hins row0 ((upsertRow_others hne row0).mpr hrow0)
        · intro row0 hrow0
          exact hup.kept row0 ((upsertRow_others hne row0).mpr hrow0)

end RogiCollector.Ports.Live
