import Mathlib.Algebra.Order.Field.Basic
import Mathlib.Algebra.Order.Field.Rat
import RogiCollector.Verified.Machine
import RogiCollector.Ports.LiveChannels

/-!
# Assigning channels to workers

`assignmentLoop` of the coordinator and the three functions it calls.  A cycle
takes the load map of the last health check, raises it to the numbers the database
has, and then hands out channels in three loops that all count in this map:
pending ones, those of draining workers, and handovers that are stuck.

Three sources say how much a worker has.  A heartbeat is old and counts sockets; the
database is exact, but read once a cycle; the map is what the cycle goes by.  From
the reading on, the map bounds the table: others only end or unassign channels, and
each write of the cycle is counted in the map.  `selectWorker` takes nobody whose
ratio of connections is one or more, so the table stays below the capacity.

Each database call is a step of its own, with everything that other processes do to
the table in between.  Ratios are rational numbers.
-/

namespace RogiCollector.Ports.Assigner

open Verified
open Journal (Time second)
open Archive (Platform)
open Live hiding Config

/-! ## Loads -/

/-- `model.WorkerLoad`. -/
structure WorkerLoad where
  connections : Int
  msgPerSec : ℚ
  maxConn : Int
  maxMsgPerSec : ℚ
  deriving DecidableEq

def WorkerLoad.load (w : WorkerLoad) : ℚ :=
  let connRatio : ℚ := if 0 < w.maxConn then w.connections / w.maxConn else 0
  let msgRatio : ℚ := if 0 < w.maxMsgPerSec then w.msgPerSec / w.maxMsgPerSec else 0
  if msgRatio < connRatio then connRatio else msgRatio

/-- `map[string]model.WorkerLoad`. -/
abbrev Loads := Table String WorkerLoad

/-- `selectWorker`; `entries` is the map in the order of the iteration. -/
def selectWorker (entries : List (String × WorkerLoad)) (threshold : ℚ) : String :=
  (entries.foldl
    (fun best entry =>
      if threshold ≤ entry.2.load then best
      else if entry.2.load < best.2 then (entry.1, entry.2.load) else best)
    ("", (1 : ℚ))).1

/-! ## The store -/

/-- The rows `CountAssignedByWorker` counts for a worker. -/
def isAssigned (C : Live.Config) (workerID : String) (key : ChannelKey) (row : ChannelRow) : Bool :=
  row.workerID = some workerID ∧ row.status = .live ∧
    C.collectionChannel.all fun channel => key = ⟨.soop, channel⟩

/-- `CountAssignedByWorker`: a worker without a row is not in the result. -/
def countAssignedByWorker (C : Live.Config) (db : Db) (workerID : String) : Nat :=
  (db.channels.select (isAssigned C workerID)).length

abbrev Row := ChannelKey × ChannelRow

/-- The condition of `ListDrainingWorkerChannels`. -/
def isDraining (db : Db) (_ : ChannelKey) (row : ChannelRow) : Bool :=
  (row.workerID.any fun worker => db.workers.find worker = some .draining) ∧
    row.status = .live ∧ row.handoffStatus = none

/-- The condition of `ListStuckHandoffs` with 30 seconds. -/
def isStuck (now : Time) (_ : ChannelKey) (row : ChannelRow) : Bool :=
  row.handoffStatus = some .pending ∧ row.status = .live ∧
    row.handoffStartedAt.any fun startedAt => startedAt + 30 * second < now

def ackHandoff (db : Db) (key : ChannelKey) : Db :=
  { db with
    channels := db.channels.update fun key' row =>
      if key' = key ∧ row.handoffStatus = some .pending then
        { row with handoffStatus := some .acked }
      else row }

def clearHandoff (db : Db) (id : Nat) : Db :=
  { db with
    channels := db.channels.update fun _ row =>
      if row.id = id ∧ row.handoffStatus = some .acked then row.clearHandoff else row }

/-- What other processes do to the tables. -/
inductive Statement
  | upsert (history : Bool) (now : Time) (channels : List LiveChannel)
  | markEndedChannels (now : Time) (platform : Platform) (active : List String)
  | markChannelEnded (now : Time) (id : Nat)
  | endOptedOut (now : Time) (key : ChannelKey)
  | unassignWorkerChannels (workerID : String)
  | unassignChannel (key : ChannelKey) (workerID : String)
  | unassignDeadWorkerChannels
  | ackHandoff (key : ChannelKey)
  | clearHandoff (id : Nat)
  | others (workers : Table String WorkerStatus) (optOuts : List ChannelKey)
      (subscribed : List String)

def Statement.run (db : Db) : Statement → Db
  | .upsert history now channels => (upsertRows history now db (dedupe channels)).1
  | .markEndedChannels now platform active => (Live.markEndedChannels now db platform active).1
  | .markChannelEnded now id => Live.markChannelEnded now db id
  | .endOptedOut now key => (endCollectionOptedOutLiveChannel now db key).1
  | .unassignWorkerChannels workerID => Live.unassignWorkerChannels db workerID
  | .unassignChannel key workerID => Live.unassignChannel db key workerID
  | .unassignDeadWorkerChannels => Live.unassignDeadWorkerChannels db
  | .ackHandoff key => Assigner.ackHandoff db key
  | .clearHandoff id => Assigner.clearHandoff db id
  | .others workers optOuts subscribed => { db with workers, optOuts, subscribed }

/-! ## The loop -/

structure Config where
  store : Live.Config
  batchSize : Nat
  loadThreshold : ℚ

/-- The three functions of a cycle, in their order. -/
inductive Loop
  | assignPending
  | reassignDrainingChannels
  | retryStuckHandoffs
  deriving DecidableEq

/-- What the query of a function answers; `ORDER BY viewer_count DESC` leaves ties
open, and the other two have no order. -/
def Loop.lists (C : Live.Config) (now : Time) (db : Db) (rows : List Row) : Loop → Bool
  | .assignPending =>
    rows.Perm (db.channels.select (isPending C db)) ∧
      rows.Pairwise fun a b => b.2.viewerCount ≤ a.2.viewerCount
  | .reassignDrainingChannels => rows.Perm (db.channels.select (isDraining db))
  | .retryStuckHandoffs => rows.Perm (db.channels.select (isStuck now))

/-- The write for one channel of the list; `none` is an error, and the flag says
whether a row was there to update. -/
def Loop.write (C : Live.Config) (now : Time) (db : Db) (workerID : String) (row : Row) :
    Loop → Option (Db × Bool)
  | .assignPending => (assignChannel C db row.2.id workerID).map fun db => (db, true)
  | .reassignDrainingChannels =>
    reassignChannel C now db row.2.id workerID (row.2.workerID.getD "")
  | .retryStuckHandoffs =>
    reassignChannel C now db row.2.id workerID (row.2.handoffFrom.getD "")

inductive Phase
  | counting
  | listing (loop : Loop)
  | assigning (loop : Loop) (rest : List Row) (assigned : Nat)
  deriving DecidableEq

/-- A cycle under way: the map it works on, and whether this is still the map of
the last health check. -/
structure Cycle where
  loads : Loads
  current : Bool
  phase : Phase

/-- `health` is `lastHealthResult`.  While a cycle works on its map, the cycle has it. -/
structure State where
  db : Db
  health : Option Loads
  cycle : Option Cycle

def State.init (db : Db) : State := ⟨db, none, none⟩

inductive Input
  | start
  | count (ok : Bool)
  | list (now : Time) (answer : Option (List Row))
  | round (order : List (String × WorkerLoad)) (now : Time) (ok : Bool)
  | healthCheck (loads : Loads)
  | statement (q : Statement)

inductive Reply
  | none
  | assigned (workerID : String)
  deriving DecidableEq

/-- The map is raised to the numbers of the database. -/
def raiseLoads (C : Live.Config) (db : Db) (loads : Loads) : Loads :=
  loads.update fun id load =>
    let dbCount := countAssignedByWorker C db id
    if 0 < dbCount ∧ load.connections < dbCount then { load with connections := dbCount } else load

/-- `load.Connections++`. -/
def addConnection (loads : Loads) (workerID : String) : Loads :=
  loads.modify workerID fun load => { load with connections := load.connections + 1 }

/-- The cycle is over. -/
def State.finish (s : State) (c : Cycle) : State :=
  { s with cycle := none, health := if c.current then some c.loads else s.health }

/-- A function returned without an error. -/
def State.leave (s : State) (c : Cycle) : Loop → State
  | .assignPending =>
    { s with cycle := some { c with phase := .listing .reassignDrainingChannels } }
  | .reassignDrainingChannels =>
    { s with cycle := some { c with phase := .listing .retryStuckHandoffs } }
  | .retryStuckHandoffs => s.finish c

/-- The list of a function; an error of `AssignPending` ends the cycle, that of
another one only the function. -/
def list (C : Config) (s : State) (c : Cycle) (loop : Loop) (answer : Option (List Row)) : State :=
  if loop = .assignPending ∧ c.loads.rows = [] then s.leave c loop
  else
    match answer with
    | none => if loop = .assignPending then s.finish c else s.leave c loop
    | some rows =>
      let rows := if loop = .assignPending then rows.take C.batchSize else rows
      { s with cycle := some { c with phase := .assigning loop rows 0 } }

/-- One round of a function's loop.  The `connect` command that follows a write
changes nothing here, whether or not it gets through. -/
def round (C : Config) (s : State) (c : Cycle) (loop : Loop) (rest : List Row) (assigned : Nat)
    (order : List (String × WorkerLoad)) (now : Time) (ok : Bool) : State × Reply :=
  match rest with
  | [] => (s.leave c loop, .none)
  | row :: rest =>
    if loop = .reassignDrainingChannels ∧ C.batchSize ≤ assigned then (s.leave c loop, .none)
    else
      let workerID := selectWorker order C.loadThreshold
      if workerID = "" then (s.leave c loop, .none)
      else
        match if ok then loop.write C.store now s.db workerID row else none with
        | some (db, true) =>
          ({ s with
              db := db
              cycle := some
                { c with
                  loads := addConnection c.loads workerID
                  phase := .assigning loop rest (assigned + 1) } }, .assigned workerID)
        | _ => ({ s with cycle := some { c with phase := .assigning loop rest assigned } }, .none)

def step (C : Config) (s : State) (i : Input) : State × Reply :=
  match i, s.cycle with
  | .start, none =>
    (match s.health with
      | some loads => { s with cycle := some ⟨loads, true, .counting⟩ }
      | none => s, .none)
  | .count ok, some ⟨loads, current, .counting⟩ =>
    ({ s with
        cycle := some
          ⟨if ok then raiseLoads C.store s.db loads else loads, current,
            .listing .assignPending⟩ }, .none)
  | .list _ answer, some ⟨loads, current, .listing loop⟩ =>
    (list C s ⟨loads, current, .listing loop⟩ loop answer, .none)
  | .round order now ok, some ⟨loads, current, .assigning loop rest assigned⟩ =>
    round C s ⟨loads, current, .assigning loop rest assigned⟩ loop rest assigned order now ok
  | .healthCheck loads, cycle =>
    ({ s with health := some loads, cycle := cycle.map fun c => { c with current := false } },
      .none)
  | .statement q, _ => ({ s with db := q.run s.db }, .none)
  | _, _ => (s, .none)

/-- The capacity that a worker reports never changes. -/
def admits (C : Config) (maxConn : String → Int) (s : State) (i : Input) : Bool :=
  match i, s.cycle with
  | .start, none => true
  | .count _, some ⟨_, _, .counting⟩ => true
  | .list now answer, some ⟨_, _, .listing loop⟩ =>
    answer.all fun rows => loop.lists C.store now s.db rows
  | .round order _ _, some ⟨loads, _, .assigning _ _ _⟩ => order.Perm loads.rows
  | .healthCheck loads, _ => loads.rows.all fun row => row.2.maxConn = maxConn row.1
  | .statement _, _ => true
  | _, _ => false

/-- The coordinator and everybody else at the tables. -/
def machine (C : Config) (maxConn : String → Int) : Machine State Input Reply where
  admits s i := admits C maxConn s i = true
  step := step C

instance (C : Config) (maxConn : String → Int) (s : State) (i : Input) :
    Decidable ((machine C maxConn).admits s i) :=
  inferInstanceAs (Decidable (_ = true))

/-! ## The choice of a worker -/

/-- Below a load of one there is room for a connection. -/
theorem WorkerLoad.connections_lt {w : WorkerLoad} (hpos : 0 < w.maxConn) (hload : w.load < 1) :
    w.connections < w.maxConn := by
  have hratio : (w.connections / w.maxConn : ℚ) ≤ w.load := by
    rw [WorkerLoad.load, if_pos hpos]
    by_cases hmsg : (if 0 < w.maxMsgPerSec then w.msgPerSec / w.maxMsgPerSec else 0) <
        (w.connections / w.maxConn : ℚ)
    · rw [if_pos hmsg]
    · rw [if_neg hmsg]
      exact not_lt.mp hmsg
  have hcast : (0 : ℚ) < w.maxConn := by exact_mod_cast hpos
  have hlt := (div_lt_one hcast).mp (lt_of_le_of_lt hratio hload)
  exact_mod_cast hlt

/-- `best` is the least loaded of the entries seen, if one is below the threshold
and below one. -/
structure Best (threshold : ℚ) (seen : List (String × WorkerLoad)) (best : String × ℚ) : Prop where
  found : best.1 ≠ "" → ∃ load, (best.1, load) ∈ seen ∧ load.load = best.2 ∧
    load.load < threshold ∧ load.load < 1
  least : ∀ entry ∈ seen, entry.2.load < threshold → best.2 ≤ entry.2.load
  le_one : best.2 ≤ 1

variable {threshold : ℚ}

theorem Best.next {seen : List (String × WorkerLoad)} {best : String × ℚ}
    (h : Best threshold seen best) (entry : String × WorkerLoad) :
    Best threshold (seen ++ [entry])
      (if threshold ≤ entry.2.load then best
        else if entry.2.load < best.2 then (entry.1, entry.2.load) else best) := by
  have hmem : ∀ e ∈ seen ++ [entry], e ∈ seen ∨ e = entry := by simp
  have hkeep : (entry.2.load < threshold → best.2 ≤ entry.2.load) →
      Best threshold (seen ++ [entry]) best := by
    intro hentry
    refine ⟨?_, ?_, h.le_one⟩
    · intro hne
      obtain ⟨load, hload, hrest⟩ := h.found hne
      exact ⟨load, List.mem_append_left _ hload, hrest⟩
    · intro e he hlt
      rcases hmem e he with hseen | rfl
      · exact h.least e hseen hlt
      · exact hentry hlt
  by_cases hover : threshold ≤ entry.2.load
  · rw [if_pos hover]
    exact hkeep fun hlt => absurd hlt (not_lt.mpr hover)
  · rw [if_neg hover]
    by_cases hless : entry.2.load < best.2
    · rw [if_pos hless]
      refine ⟨?_, ?_, le_of_lt (lt_of_lt_of_le hless h.le_one)⟩
      · intro _
        exact ⟨entry.2, by simp, rfl, not_le.mp hover, lt_of_lt_of_le hless h.le_one⟩
      · intro e he hlt
        rcases hmem e he with hseen | rfl
        · exact le_trans (le_of_lt hless) (h.least e hseen hlt)
        · exact le_refl _
    · rw [if_neg hless]
      exact hkeep fun _ => not_lt.mp hless

/-- The worker that `selectWorker` names. -/
structure LeastLoaded (threshold : ℚ) (entries : List (String × WorkerLoad)) (workerID : String)
    (load : WorkerLoad) : Prop where
  mem : (workerID, load) ∈ entries
  below : load.load < threshold
  room : load.load < 1
  least : ∀ entry ∈ entries, entry.2.load < threshold → load.load ≤ entry.2.load

theorem selectWorker_spec {entries : List (String × WorkerLoad)}
    (h : selectWorker entries threshold ≠ "") :
    ∃ load, LeastLoaded threshold entries (selectWorker entries threshold) load := by
  have hfold : ∀ (rest seen : List (String × WorkerLoad)) (best : String × ℚ),
      Best threshold seen best → Best threshold (seen ++ rest) (rest.foldl
        (fun best entry => if threshold ≤ entry.2.load then best
          else if entry.2.load < best.2 then (entry.1, entry.2.load) else best) best) := by
    intro rest
    induction rest with
    | nil =>
      intro seen best hbest
      simpa using hbest
    | cons entry rest ih =>
      intro seen best hbest
      have hrest := ih (seen ++ [entry]) _ (hbest.next entry)
      rwa [List.append_assoc, List.singleton_append] at hrest
  have hinit : Best threshold [] ("", (1 : ℚ)) :=
    ⟨fun hne => absurd rfl hne, fun _ he => absurd he List.not_mem_nil, le_refl _⟩
  have hbest := hfold entries [] _ hinit
  rw [List.nil_append] at hbest
  obtain ⟨load, hmem, heq, hbelow, hroom⟩ := hbest.found h
  exact ⟨load, hmem, hbelow, hroom, fun entry he hlt => heq ▸ hbest.least entry he hlt⟩

/-! ## Counts -/

/-- The primary key `id` and its sequence. -/
structure Keyed (db : Db) : Prop where
  le_last : ∀ key row, db.channels.Has key row → row.id ≤ db.lastID
  unique : ∀ key row key' row', db.channels.Has key row → db.channels.Has key' row' →
    row.id = row'.id → key = key'

/-- A row that has not got a worker. -/
structure Kept (old row : ChannelRow) : Prop where
  id : row.id = old.id
  worker : row.status = .live → old.status = .live ∧ row.workerID = old.workerID

theorem Kept.refl (row : ChannelRow) : Kept row row := ⟨rfl, fun h => ⟨h, rfl⟩⟩

variable {row : ChannelRow}

theorem Kept.of_not_live {old : ChannelRow} (hid : row.id = old.id)
    (hstatus : row.status ≠ .live) : Kept old row :=
  ⟨hid, fun hlive => absurd hlive hstatus⟩

variable {workerID : String}

theorem Kept.assigned {old : ChannelRow} (h : Kept old row) {C : Live.Config} {key : ChannelKey}
    (hrow : isAssigned C workerID key row = true) :
    isAssigned C workerID key old = true := by
  simp only [isAssigned, decide_eq_true_eq] at hrow ⊢
  obtain ⟨hlive, hworker⟩ := h.worker hrow.2.1
  exact ⟨hworker ▸ hrow.1, hlive, hrow.2.2⟩

/-- A change of the tables that raises no count. -/
structure Calm (db db' : Db) : Prop where
  keyed : Keyed db → Keyed db'
  count : ∀ C workerID, countAssignedByWorker C db' workerID ≤ countAssignedByWorker C db workerID

theorem Calm.refl (db : Db) : Calm db db := ⟨fun h => h, fun _ _ => Nat.le_refl _⟩

variable {db db' : Db}

theorem Calm.trans {db'' : Db} (h : Calm db db') (h' : Calm db' db'') : Calm db db'' :=
  ⟨fun hk => h'.keyed (h.keyed hk), fun C w => (h'.count C w).trans (h.count C w)⟩

variable {f : ChannelKey → ChannelRow → ChannelRow}

/-- Ids stay in an update. -/
theorem Keyed.update (h : Keyed db) (hf : ∀ key row, (f key row).id = row.id) :
    Keyed { db with channels := db.channels.update f } := by
  constructor
  · intro key row hrow
    obtain ⟨old, hold, rfl⟩ := Table.has_update.mp hrow
    rw [hf]
    exact h.le_last key old hold
  · intro key row key' row' hrow hrow' heq
    obtain ⟨old, hold, rfl⟩ := Table.has_update.mp hrow
    obtain ⟨old', hold', rfl⟩ := Table.has_update.mp hrow'
    rw [hf, hf] at heq
    exact h.unique key old key' old' hold hold' heq

theorem Calm.update (db : Db) (hf : ∀ key row, Kept row (f key row)) :
    Calm db { db with channels := db.channels.update f } := by
  constructor
  · intro h
    exact h.update fun key row => (hf key row).id
  · intro C workerID
    apply Table.length_select_le
    intro key row hrow hassigned
    obtain ⟨old, hold, rfl⟩ := Table.has_update.mp hrow
    exact ⟨old, hold, (hf key old).assigned hassigned⟩

theorem kept_seen (row : ChannelRow) (history : Bool) (now : Time) (ch : LiveChannel) :
    Kept row (row.seen history now ch) := by
  refine ⟨rfl, ?_⟩
  intro hlive
  by_cases hended : row.status = .ended
  · simp [ChannelRow.seen, hended] at hlive
  · simp only [ChannelRow.seen, if_neg hended] at hlive
    exact ⟨hlive, rfl⟩

theorem lastID_upsertRow (history : Bool) (now : Time) (db : Db) (ch : LiveChannel) :
    (upsertRow history now db ch).1.lastID = db.lastID + 1 := by
  unfold upsertRow
  split <;> rfl

variable {now : Time}

/-- A row after an upsert was there, or is new and pending. -/
theorem upsertRow_kept {history : Bool} {ch : LiveChannel} {key : ChannelKey}
    (h : (upsertRow history now db ch).1.channels.Has key row) :
    (∃ old, db.channels.Has key old ∧ Kept old row) ∨
      (key = ch.key ∧ row = ch.newRow history (db.lastID + 1) now) := by
  rcases upsertRow_has.mp h with ⟨-, hrow⟩ | ⟨hkey, ⟨old, hold, rfl⟩ | ⟨-, hrow⟩⟩
  · exact Or.inl ⟨row, hrow, Kept.refl row⟩
  · exact Or.inl ⟨old, hold, kept_seen old history now ch⟩
  · exact Or.inr ⟨hkey, hrow⟩

theorem calm_upsertRow (history : Bool) (now : Time) (db : Db) (ch : LiveChannel) :
    Calm db (upsertRow history now db ch).1 := by
  constructor
  · intro h
    constructor
    · intro key row hrow
      rw [lastID_upsertRow]
      rcases upsertRow_kept hrow with ⟨old, hold, hkept⟩ | ⟨-, rfl⟩
      · rw [hkept.id]
        exact Nat.le_succ_of_le (h.le_last key old hold)
      · exact Nat.le_refl _
    · intro key row key' row' hrow hrow' heq
      rcases upsertRow_kept hrow with ⟨old, hold, hkept⟩ | ⟨rfl, rfl⟩
      · have hle := h.le_last key old hold
        rcases upsertRow_kept hrow' with ⟨old', hold', hkept'⟩ | ⟨rfl, rfl⟩
        · rw [hkept.id, hkept'.id] at heq
          exact h.unique key old key' old' hold hold' heq
        · rw [hkept.id] at heq
          simp only [LiveChannel.newRow] at heq
          omega
      · rcases upsertRow_kept hrow' with ⟨old', hold', hkept'⟩ | ⟨rfl, rfl⟩
        · have hle := h.le_last key' old' hold'
          rw [hkept'.id] at heq
          simp only [LiveChannel.newRow] at heq
          omega
        · rfl
  · intro C workerID
    apply Table.length_select_le
    intro key row hrow hassigned
    rcases upsertRow_kept hrow with ⟨old, hold, hkept⟩ | ⟨-, rfl⟩
    · exact ⟨old, hold, hkept.assigned hassigned⟩
    · simp [isAssigned, LiveChannel.newRow] at hassigned

theorem calm_upsertRows (history : Bool) (now : Time) (db : Db) (channels : List LiveChannel) :
    Calm db (upsertRows history now db channels).1 := by
  induction channels generalizing db with
  | nil => exact Calm.refl db
  | cons ch rest ih => exact (calm_upsertRow history now db ch).trans (ih _)

/-- What others do raises no count. -/
theorem Statement.calm (db : Db) (q : Statement) : Calm db (q.run db) := by
  have hunassign : ∀ row : ChannelRow, Kept row row.unassign :=
    fun row => Kept.of_not_live rfl (by simp [ChannelRow.unassign])
  have hend : ∀ (row : ChannelRow) now, Kept row (row.end_ now) :=
    fun row now => Kept.of_not_live rfl (by simp [ChannelRow.end_])
  cases q with
  | upsert history now channels => exact calm_upsertRows history now db _
  | markEndedChannels now platform active | markChannelEnded now id =>
    apply Calm.update
    intro key row
    split
    · exact hend row now
    · exact Kept.refl row
  | endOptedOut now key =>
    simp only [Statement.run, endCollectionOptedOutLiveChannel]
    split
    · split
      · apply Calm.update
        intro key' row
        split
        · exact Kept.of_not_live rfl (by simp)
        · exact Kept.refl row
      · exact Calm.refl db
    · exact Calm.refl db
  | unassignWorkerChannels | unassignDeadWorkerChannels =>
    apply Calm.update
    intro key row
    split
    · exact hunassign row
    · exact Kept.refl row
  | unassignChannel key workerID =>
    apply Calm.update
    intro key' row
    split
    · exact hunassign row
    · exact Kept.refl row
  | ackHandoff key =>
    apply Calm.update
    intro key' row
    split
    · exact ⟨rfl, fun hlive => ⟨hlive, rfl⟩⟩
    · exact Kept.refl row
  | clearHandoff id =>
    apply Calm.update
    intro key row
    split
    · exact ⟨rfl, fun hlive => ⟨hlive, rfl⟩⟩
    · exact Kept.refl row
  | others workers optOuts subscribed =>
    exact ⟨fun h => ⟨h.le_last, h.unique⟩, fun _ _ => Nat.le_refl _⟩

/-! ## What a write does -/

/-- One worker has got at most one channel more. -/
structure Given (db db' : Db) (workerID : String) : Prop where
  keyed : Keyed db'
  others : ∀ C w, w ≠ workerID → countAssignedByWorker C db' w ≤ countAssignedByWorker C db w
  one : ∀ C, countAssignedByWorker C db' workerID ≤ countAssignedByWorker C db workerID + 1

variable {id : Nat}

theorem Given.update (h : Keyed db) (hid : ∀ key row, (f key row).id = row.id)
    (hf : ∀ key row, Kept row (f key row) ∨ (row.id = id ∧ (f key row).workerID = some workerID)) :
    Given db { db with channels := db.channels.update f } workerID := by
  refine ⟨h.update hid, ?_, ?_⟩
  · intro C w hne
    apply Table.length_select_le
    intro key row hrow hassigned
    obtain ⟨old, hold, rfl⟩ := Table.has_update.mp hrow
    rcases hf key old with hkept | ⟨-, hworker⟩
    · exact ⟨old, hold, hkept.assigned hassigned⟩
    · simp only [isAssigned, decide_eq_true_eq, hworker, Option.some.injEq] at hassigned
      exact absurd hassigned.1.symm hne
  · intro C
    by_cases hex : ∃ key row, db.channels.Has key row ∧ row.id = id
    · obtain ⟨key0, row0, hrow0, hid0⟩ := hex
      apply Table.length_select_le_succ key0
      intro key row hrow hassigned
      obtain ⟨old, hold, rfl⟩ := Table.has_update.mp hrow
      rcases hf key old with hkept | ⟨hmatch, -⟩
      · exact Or.inr ⟨old, hold, hkept.assigned hassigned⟩
      · exact Or.inl (h.unique key old key0 row0 hold hrow0 (hmatch.trans hid0.symm))
    · apply Nat.le_succ_of_le
      apply Table.length_select_le
      intro key row hrow hassigned
      obtain ⟨old, hold, rfl⟩ := Table.has_update.mp hrow
      rcases hf key old with hkept | ⟨hmatch, -⟩
      · exact ⟨old, hold, hkept.assigned hassigned⟩
      · exact absurd ⟨key, old, hold, hmatch⟩ hex

theorem assignChannel_given {C : Live.Config} (h : Keyed db)
    (hassign : assignChannel C db id workerID = some db') :
    Given db db' workerID := by
  simp only [assignChannel] at hassign
  split at hassign
  · cases hassign
  · split at hassign
    · cases hassign
    · cases hassign
      apply Given.update h
      · intro key row
        split <;> rfl
      · intro key row
        split
        · rename_i hmatch
          simp only [assignable, decide_eq_true_eq] at hmatch
          exact Or.inr ⟨hmatch.1, rfl⟩
        · exact Or.inl (Kept.refl row)

theorem reassignChannel_given {C : Live.Config} {newWorkerID oldWorkerID : String}
    (h : Keyed db)
    (hreassign : reassignChannel C now db id newWorkerID oldWorkerID = some (db', true)) :
    Given db db' newWorkerID := by
  simp only [reassignChannel] at hreassign
  split at hreassign
  · cases hreassign
  · split at hreassign
    · cases hreassign
    · obtain ⟨rfl, -⟩ := Prod.mk.inj (Option.some.inj hreassign)
      apply Given.update h
      · intro key row
        split <;> rfl
      · intro key row
        split
        · rename_i hmatch
          exact Or.inr ⟨hmatch.1, rfl⟩
        · exact Or.inl (Kept.refl row)

theorem Loop.write_given {C : Live.Config} {row : Row} {loop : Loop} (h : Keyed db)
    (hwrite : loop.write C now db workerID row = some (db', true)) : Given db db' workerID := by
  cases loop with
  | assignPending =>
    obtain ⟨db1, hassign, heq⟩ := Option.map_eq_some_iff.mp hwrite
    obtain ⟨rfl, -⟩ := Prod.mk.inj heq
    exact assignChannel_given h hassign
  | reassignDrainingChannels | retryStuckHandoffs => exact reassignChannel_given h hwrite

/-! ## What a step does -/

/-- All a step can do to the tables and the maps. -/
inductive Effect (C : Config) (s : State) : Input → State × Reply → Prop
  | calm {i : Input} (db : Db) (hcalm : Calm s.db db) : Effect C s i ({ s with db }, .none)
  | start {i : Input} (loads : Loads) (hhealth : s.health = some loads) :
      Effect C s i ({ s with cycle := some ⟨loads, true, .counting⟩ }, .none)
  | count (c : Cycle) (hcycle : s.cycle = some c) (ok : Bool) (phase : Phase) :
      Effect C s (.count ok)
        ({ s with
            cycle := some
              ⟨if ok then raiseLoads C.store s.db c.loads else c.loads, c.current, phase⟩ }, .none)
  | move {i : Input} (c : Cycle) (hcycle : s.cycle = some c) (hcounted : c.phase ≠ .counting)
      (phase : Phase) : Effect C s i ({ s with cycle := some { c with phase } }, .none)
  | finish {i : Input} (c : Cycle) (hcycle : s.cycle = some c) :
      Effect C s i (s.finish c, .none)
  | assign {i : Input} (c : Cycle) (hcycle : s.cycle = some c) (hcounted : c.phase ≠ .counting)
      (phase : Phase) (workerID : String) (load : WorkerLoad)
      (hleast : LeastLoaded C.loadThreshold c.loads.rows workerID load) (db : Db)
      (hgiven : Keyed s.db → Given s.db db workerID) :
      Effect C s i
        ({ s with
            db := db
            cycle := some { c with loads := addConnection c.loads workerID, phase } },
          .assigned workerID)
  | health (loads : Loads) :
      Effect C s (.healthCheck loads)
        ({ s with
            health := some loads
            cycle := s.cycle.map fun c => { c with current := false } }, .none)

section Effect

variable {C : Config} {maxConn : String → Int} {s : State} {c : Cycle} {i : Input}

theorem leave_effect (hcycle : s.cycle = some c) (hcounted : c.phase ≠ .counting) (loop : Loop) :
    Effect C s i (s.leave c loop, .none) := by
  cases loop with
  | assignPending | reassignDrainingChannels => exact .move c hcycle hcounted _
  | retryStuckHandoffs => exact .finish c hcycle

theorem list_effect (hcycle : s.cycle = some c) (hcounted : c.phase ≠ .counting) (loop : Loop)
    (answer : Option (List Row)) : Effect C s i (list C s c loop answer, .none) := by
  unfold list
  split
  · exact leave_effect hcycle hcounted loop
  · split
    · split
      · exact .finish c hcycle
      · exact leave_effect hcycle hcounted loop
    · exact .move c hcycle hcounted _

theorem LeastLoaded.perm {entries entries' : List (String × WorkerLoad)} {load : WorkerLoad}
    (h : LeastLoaded threshold entries workerID load) (hperm : entries.Perm entries') :
    LeastLoaded threshold entries' workerID load :=
  ⟨hperm.mem_iff.mp h.mem, h.below, h.room, fun entry he => h.least entry (hperm.mem_iff.mpr he)⟩

theorem round_effect (hcycle : s.cycle = some c) (hcounted : c.phase ≠ .counting) (loop : Loop)
    (rest : List Row) (assigned : Nat) {order : List (String × WorkerLoad)}
    (horder : order.Perm c.loads.rows) (now : Time) (ok : Bool) :
    Effect C s i (round C s c loop rest assigned order now ok) := by
  unfold round
  split
  · exact leave_effect hcycle hcounted loop
  · rename_i row rest
    split
    · exact leave_effect hcycle hcounted loop
    · dsimp only
      split
      · exact leave_effect hcycle hcounted loop
      · rename_i hsome
        obtain ⟨load, hleast⟩ := selectWorker_spec hsome
        split
        · rename_i db hwrite
          apply Effect.assign c hcycle hcounted _ _ load (hleast.perm horder) db
          intro hkeyed
          cases ok with
          | true => exact Loop.write_given hkeyed hwrite
          | false => cases hwrite
        · exact .move c hcycle hcounted _

theorem step_effect (h : admits C maxConn s i = true) : Effect C s i (step C s i) := by
  have hstay : Effect C s i (s, .none) := .calm s.db (Calm.refl s.db)
  unfold step
  split
  · split
    · rename_i loads hhealth
      exact .start loads hhealth
    · exact hstay
  · rename_i ok loads current hcycle
    exact .count _ hcycle ok _
  · rename_i now answer loads current loop hcycle
    exact list_effect hcycle (by simp) loop answer
  · rename_i order now ok loads current loop rest assigned hcycle
    simp only [admits, hcycle, decide_eq_true_eq] at h
    exact round_effect hcycle (by simp) loop rest assigned h now ok
  · exact .health _
  · exact .calm _ (Statement.calm s.db _)
  · exact hstay

end Effect

/-! ## The map bounds the table -/

/-- Capacities are the reported ones, and nobody has less than no connection. -/
def Fits (maxConn : String → Int) (loads : Loads) : Prop :=
  ∀ id load, loads.Has id load → load.maxConn = maxConn id ∧ 0 ≤ load.connections

/-- The map counts at least what the table has. -/
def Covers (C : Live.Config) (db : Db) (loads : Loads) : Prop :=
  ∀ id load, loads.Has id load → (countAssignedByWorker C db id : Int) ≤ load.connections

structure Inv (C : Config) (maxConn : String → Int) (s : State) : Prop where
  keyed : Keyed s.db
  health : ∀ loads, s.health = some loads → Fits maxConn loads
  fits : ∀ c, s.cycle = some c → Fits maxConn c.loads
  covers : ∀ c, s.cycle = some c → c.phase ≠ .counting → Covers C.store s.db c.loads

theorem Inv.init {C : Config} {maxConn : String → Int} (h : Keyed db) :
    Inv C maxConn (State.init db) where
  keyed := h
  health _ hnone := by cases hnone
  fits _ hnone := by cases hnone
  covers _ hnone := by cases hnone

/-- The count succeeds, and heartbeats count from zero. -/
def reliable (_ : State) : Input → Bool
  | .count ok => ok
  | .healthCheck loads => loads.rows.all fun row => 0 ≤ row.2.connections
  | _ => true

section Bound

variable {C : Config} {maxConn : String → Int} {s : State} {i : Input}

variable {loads : Loads}

theorem Covers.calm {C : Live.Config} (h : Covers C db loads) (hcalm : Calm db db') :
    Covers C db' loads := by
  intro id load hhas
  have hle := hcalm.count C id
  have hcovers := h id load hhas
  omega

theorem covers_raiseLoads {C : Live.Config} (h : Fits maxConn loads) :
    Covers C db (raiseLoads C db loads) := by
  intro id load hhas
  obtain ⟨old, hold, rfl⟩ := Table.has_update.mp hhas
  have hnonneg := (h id old hold).2
  dsimp only
  split
  · exact Int.le_refl _
  · omega

theorem fits_raiseLoads {C : Live.Config} (h : Fits maxConn loads) :
    Fits maxConn (raiseLoads C db loads) := by
  intro id load hhas
  obtain ⟨old, hold, rfl⟩ := Table.has_update.mp hhas
  have hfits := h id old hold
  dsimp only
  split
  · exact ⟨hfits.1, Int.natCast_nonneg _⟩
  · exact hfits

theorem fits_addConnection (h : Fits maxConn loads) (workerID : String) :
    Fits maxConn (addConnection loads workerID) := by
  intro id load hhas
  rcases Table.has_modify.mp hhas with ⟨rfl, old, hold, rfl⟩ | ⟨-, hold⟩
  · have hfits := h id old hold
    exact ⟨hfits.1, Int.le_add_one hfits.2⟩
  · exact h id load hold

theorem Covers.addConnection {C : Live.Config} (h : Covers C db loads)
    (hgiven : Given db db' workerID) :
    Covers C db' (addConnection loads workerID) := by
  intro id load hhas
  rcases Table.has_modify.mp hhas with ⟨rfl, old, hold, rfl⟩ | ⟨hne, hold⟩
  · have hone := hgiven.one C
    have hcovers := h id old hold
    dsimp only
    omega
  · have hle := hgiven.others C id hne
    have hcovers := h id load hold
    omega

/-- An assignment leaves the worker within its capacity. -/
theorem Inv.assigned_le (h : Inv C maxConn s) (hpos : ∀ w, 0 < maxConn w) {c : Cycle}
    (hcycle : s.cycle = some c) (hcounted : c.phase ≠ .counting) {load : WorkerLoad}
    (hleast : LeastLoaded C.loadThreshold c.loads.rows workerID load)
    (hgiven : Given s.db db workerID) :
    (countAssignedByWorker C.store db workerID : Int) ≤ maxConn workerID := by
  have hhas : c.loads.Has workerID load := hleast.mem
  have hmax := (h.fits c hcycle workerID load hhas).1
  have hroom : load.connections < load.maxConn :=
    WorkerLoad.connections_lt (hmax ▸ hpos workerID) hleast.room
  have hcovers := h.covers c hcycle hcounted workerID load hhas
  have hone := hgiven.one C.store
  omega

variable {out : State × Reply}

theorem Inv.effect (h : Inv C maxConn s) (hi : admits C maxConn s i = true)
    (hreliable : reliable s i = true) (he : Effect C s i out) :
    Inv C maxConn out.1 := by
  cases he with
  | calm db hcalm =>
    exact ⟨hcalm.keyed h.keyed, h.health, h.fits,
      fun c hcycle hcounted => (h.covers c hcycle hcounted).calm hcalm⟩
  | start loads hhealth =>
    refine ⟨h.keyed, h.health, ?_, ?_⟩
    · intro c hcycle
      cases hcycle
      exact h.health loads hhealth
    · intro c hcycle hcounted
      cases hcycle
      exact absurd rfl hcounted
  | count c hcycle ok phase =>
    have hok : ok = true := hreliable
    subst hok
    refine ⟨h.keyed, h.health, ?_, ?_⟩
    · intro c' hcycle'
      cases hcycle'
      exact fits_raiseLoads (h.fits c hcycle)
    · intro c' hcycle' _
      cases hcycle'
      exact covers_raiseLoads (h.fits c hcycle)
  | move c hcycle hcounted phase =>
    refine ⟨h.keyed, h.health, ?_, ?_⟩
    · intro c' hcycle'
      cases hcycle'
      exact h.fits c hcycle
    · intro c' hcycle' _
      cases hcycle'
      exact h.covers c hcycle hcounted
  | finish c hcycle =>
    refine ⟨h.keyed, ?_, fun c' hnone => absurd hnone (by simp [State.finish]),
      fun c' hnone => absurd hnone (by simp [State.finish])⟩
    intro loads hloads
    simp only [State.finish] at hloads
    split at hloads
    · cases hloads
      exact h.fits c hcycle
    · exact h.health loads hloads
  | assign c hcycle hcounted phase workerID load hleast db hgiven =>
    refine ⟨(hgiven h.keyed).keyed, h.health, ?_, ?_⟩
    · intro c' hcycle'
      cases hcycle'
      exact fits_addConnection (h.fits c hcycle) workerID
    · intro c' hcycle' _
      cases hcycle'
      exact (h.covers c hcycle hcounted).addConnection (hgiven h.keyed)
  | health loads =>
    simp only [admits, reliable, List.all_eq_true, decide_eq_true_eq] at hi hreliable
    refine ⟨h.keyed, ?_, ?_, ?_⟩
    · intro loads' hloads
      cases hloads
      exact fun id load hhas => ⟨hi (id, load) hhas, hreliable (id, load) hhas⟩
    · intro c' hcycle'
      obtain ⟨c, hcycle, rfl⟩ := Option.map_eq_some_iff.mp hcycle'
      exact h.fits c hcycle
    · intro c' hcycle' hcounted
      obtain ⟨c, hcycle, rfl⟩ := Option.map_eq_some_iff.mp hcycle'
      exact h.covers c hcycle hcounted

theorem Inv.step (h : Inv C maxConn s) (hi : admits C maxConn s i = true)
    (hreliable : reliable s i = true) : Inv C maxConn (step C s i).1 :=
  h.effect hi hreliable (step_effect hi)

/-- A count that rises is that of the worker that was given a channel. -/
theorem count_le_or_assigned (hkeyed : Keyed s.db) (he : Effect C s i out) (w : String) :
    countAssignedByWorker C.store out.1.db w ≤ countAssignedByWorker C.store s.db w ∨
      out.2 = .assigned w := by
  cases he with
  | calm db hcalm => exact Or.inl (hcalm.count C.store w)
  | start | count | move | finish | health => exact Or.inl (Nat.le_refl _)
  | assign c hcycle hcounted phase workerID load hleast db hgiven =>
    by_cases hw : w = workerID
    · exact Or.inr (hw ▸ rfl)
    · exact Or.inl ((hgiven hkeyed).others C.store w hw)

/-- The step that gives a channel to a worker. -/
theorem assigned_effect (he : Effect C s i out) {w : String} (hassigned : out.2 = .assigned w) :
    ∃ c load, s.cycle = some c ∧ c.phase ≠ .counting ∧
      LeastLoaded C.loadThreshold c.loads.rows w load ∧
      (Keyed s.db → Given s.db out.1.db w) := by
  cases he with
  | assign c hcycle hcounted phase workerID load hleast db hgiven =>
    cases hassigned
    exact ⟨c, load, hcycle, hcounted, hleast, hgiven⟩
  | calm | start | count | move | finish | health => cases hassigned

/-- One step raises no count above the capacity. -/
theorem Inv.count_step (h : Inv C maxConn s) (hpos : ∀ w, 0 < maxConn w)
    (hi : admits C maxConn s i = true) (w : String) :
    countAssignedByWorker C.store (Assigner.step C s i).1.db w ≤
        countAssignedByWorker C.store s.db w ∨
      (countAssignedByWorker C.store (Assigner.step C s i).1.db w : Int) ≤ maxConn w := by
  have heffect := step_effect hi
  rcases count_le_or_assigned h.keyed heffect w with hle | hassigned
  · exact Or.inl hle
  · obtain ⟨c, load, hcycle, hcounted, hleast, hgiven⟩ := assigned_effect heffect hassigned
    exact Or.inr (h.assigned_le hpos hcycle hcounted hleast (hgiven h.keyed))

theorem Effect.keyed (h : Keyed s.db) (he : Effect C s i out) : Keyed out.1.db := by
  cases he with
  | calm db hcalm => exact hcalm.keyed h
  | start | count | move | finish | health => exact h
  | assign c hcycle hcounted phase workerID load hleast db hgiven => exact (hgiven h).keyed

end Bound

/-! ## Capacity -/

/-- Where an assignment goes: to the least loaded worker of the map below the
threshold. -/
def ChoosesLeast (C : Config) (s : State) (i : Input) : Prop :=
  ∀ w, (step C s i).2 = .assigned w → ∃ c load, s.cycle = some c ∧ c.loads.Has w load ∧
    load.load < C.loadThreshold ∧
    ∀ w' load', c.loads.Has w' load' → load'.load < C.loadThreshold → load.load ≤ load'.load

/-- Along every run whose counts succeed and whose heartbeats count from zero, no
worker gets more than it can have; and in every run an assignment, by which alone a
count rises, goes to the least loaded worker. -/
theorem assignment_capacity (C : Config) (maxConn : String → Int) (hpos : ∀ w, 0 < maxConn w)
    (db : Db) (hkeyed : Keyed db) :
    (∀ tr s, ((machine C maxConn).restrict fun s i => reliable s i = true).Run
        (State.init db) tr s →
      (∀ w, (countAssignedByWorker C.store s.db w : Int) ≤
        max (countAssignedByWorker C.store db w : Int) (maxConn w)) ∧
      ∀ i, admits C maxConn s i = true → reliable s i = true → ∀ w,
        countAssignedByWorker C.store (step C s i).1.db w ≤
            countAssignedByWorker C.store s.db w ∨
          (countAssignedByWorker C.store (step C s i).1.db w : Int) ≤ maxConn w) ∧
    ∀ tr s, (machine C maxConn).Run (State.init db) tr s → ∀ i, admits C maxConn s i = true →
      ChoosesLeast C s i ∧
      ∀ w, countAssignedByWorker C.store (step C s i).1.db w ≤
          countAssignedByWorker C.store s.db w ∨
        (step C s i).2 = .assigned w := by
  constructor
  · intro tr s hr
    have hstep : ∀ s i, (Inv C maxConn s ∧ ∀ w, (countAssignedByWorker C.store s.db w : Int) ≤
          max (countAssignedByWorker C.store db w : Int) (maxConn w)) →
        admits C maxConn s i = true ∧ reliable s i = true →
        Inv C maxConn (step C s i).1 ∧
          ∀ w, (countAssignedByWorker C.store (step C s i).1.db w : Int) ≤
            max (countAssignedByWorker C.store db w : Int) (maxConn w) := by
      intro s i h hi
      refine ⟨h.1.step hi.1 hi.2, ?_⟩
      intro w
      have hbefore := h.2 w
      rcases h.1.count_step hpos hi.1 w with hle | hle
      · omega
      · exact le_max_of_le_right hle
    have hboth := hr.invariant hstep ⟨Inv.init hkeyed, fun w => le_max_left _ _⟩
    exact ⟨hboth.2, fun i hi _ w => hboth.1.count_step hpos hi w⟩
  · intro tr s hr i hi
    have hkeyed' : Keyed s.db :=
      hr.invariant (I := fun s => Keyed s.db) (fun _ _ h hi => (step_effect hi).keyed h) hkeyed
    refine ⟨?_, fun w => count_le_or_assigned hkeyed' (step_effect hi) w⟩
    intro w hassigned
    obtain ⟨c, load, hcycle, -, hleast, -⟩ := assigned_effect (step_effect hi) hassigned
    exact ⟨c, load, hcycle, hleast.mem, hleast.below,
      fun w' load' hhas hlt => hleast.least (w', load') hhas hlt⟩

/-! ## Runs -/

def fixtureKey (id : String) : ChannelKey := ⟨.soop, id⟩

/-- A pending channel without a worker. -/
def fixtureRow (id : Nat) : ChannelRow :=
  ⟨id, 0, .pending, none, 0, none, none, 0, none, none, none⟩

/-- Two channels of which the first is as given, the second pending, and one worker. -/
def fixtureDb (row : ChannelRow) : Db where
  channels := ⟨[(fixtureKey "a", row), (fixtureKey "b", fixtureRow 2)], by simp [fixtureKey]⟩
  lastID := 2
  workers := ⟨[("w", .alive)], by decide⟩
  optOuts := []
  subscribed := ["b"]

theorem keyed_fixtureDb (h : row.id = 1) : Keyed (fixtureDb row) := by
  constructor
  · intro key row' hrow
    simp only [Table.Has, fixtureDb, List.mem_cons, List.not_mem_nil, Prod.mk.injEq, or_false]
      at hrow
    rcases hrow with ⟨-, rfl⟩ | ⟨-, rfl⟩
    · simp [fixtureDb, h]
    · simp [fixtureDb, fixtureRow]
  · intro key row1 key' row2 hrow1 hrow2 heq
    simp only [Table.Has, fixtureDb, List.mem_cons, List.not_mem_nil, Prod.mk.injEq, or_false]
      at hrow1 hrow2
    rcases hrow1 with ⟨rfl, rfl⟩ | ⟨rfl, rfl⟩
    · rcases hrow2 with ⟨rfl, rfl⟩ | ⟨rfl, rfl⟩
      · rfl
      · simp [fixtureRow, h] at heq
    · rcases hrow2 with ⟨rfl, rfl⟩ | ⟨rfl, rfl⟩
      · simp [fixtureRow, h] at heq
      · rfl

/-- One connection at most, and no limit for messages. -/
def fixtureLoad (connections : Int) : WorkerLoad := ⟨connections, 0, 1, 0⟩

def fixtureLoads (connections : Int) : Loads := ⟨[("w", fixtureLoad connections)], by simp⟩

def fixtureConfig (channel : Option String) : Config := ⟨⟨channel⟩, 500, 19 / 20⟩

/-- The coordinator may have both channels and assigns the first; the second has to
wait. -/
def fullRun : State × List (Input × Reply) :=
  ((machine (fixtureConfig none) fun _ => 1).restrict fun s i => reliable s i = true).exec
    (State.init (fixtureDb (fixtureRow 1)))
    [ .healthCheck (fixtureLoads 0), .start, .count true
    , .list 0 (some [(fixtureKey "a", fixtureRow 1), (fixtureKey "b", fixtureRow 2)])
    , .round [("w", fixtureLoad 0)] 0 true, .round [("w", fixtureLoad 1)] 0 true ]

theorem assignment_capacity_full :
    countAssignedByWorker ⟨none⟩ fullRun.1.db "w" = 1 ∧
      (countAssignedByWorker ⟨none⟩ fullRun.1.db "w" : Int) ≤
        max (countAssignedByWorker ⟨none⟩ (fixtureDb (fixtureRow 1)) "w" : Int) 1 := by
  have hrun : ((machine (fixtureConfig none) fun _ => 1).restrict
      fun s i => reliable s i = true).Run (State.init (fixtureDb (fixtureRow 1))) fullRun.2
      fullRun.1 := Machine.run_exec _ _ (by decide +kernel)
  exact ⟨by decide +kernel,
    ((assignment_capacity (fixtureConfig none) (fun _ => 1) (fun _ => by decide)
    (fixtureDb (fixtureRow 1)) (keyed_fixtureDb rfl)).1 _ _ hrun).1 "w"⟩

/-- The worker has a channel of an earlier configuration, which is not counted. -/
def scopedRun : State × List (Input × Reply) :=
  (machine (fixtureConfig (some "b")) fun _ => 1).exec
    (State.init (fixtureDb { fixtureRow 1 with status := .live, workerID := some "w" }))
    [ .healthCheck (fixtureLoads 0), .start, .count true
    , .list 0 (some [(fixtureKey "b", fixtureRow 2)]), .round [("w", fixtureLoad 0)] 0 true ]

/-- A heartbeat says that the worker has less than no connection. -/
def negativeRun : State × List (Input × Reply) :=
  (machine (fixtureConfig none) fun _ => 1).exec (State.init (fixtureDb (fixtureRow 1)))
    [ .healthCheck (fixtureLoads (-1)), .start, .count true
    , .list 0 (some [(fixtureKey "a", fixtureRow 1), (fixtureKey "b", fixtureRow 2)])
    , .round [("w", fixtureLoad (-1))] 0 true, .round [("w", fixtureLoad 0)] 0 true ]

/-- All live channels of a worker with room for one: from one to two in one cycle
with a scope, from none to two after a negative heartbeat. -/
theorem capacity_exceeded :
    (∃ tr s, (machine (fixtureConfig (some "b")) fun _ => 1).Run
      (State.init (fixtureDb { fixtureRow 1 with status := .live, workerID := some "w" })) tr s ∧
      countAssignedByWorker ⟨none⟩
        (fixtureDb { fixtureRow 1 with status := .live, workerID := some "w" }) "w" = 1 ∧
      countAssignedByWorker ⟨none⟩ s.db "w" = 2) ∧
    ∃ tr s, (machine (fixtureConfig none) fun _ => 1).Run
      (State.init (fixtureDb (fixtureRow 1))) tr s ∧
      countAssignedByWorker ⟨none⟩ (fixtureDb (fixtureRow 1)) "w" = 0 ∧
      countAssignedByWorker ⟨none⟩ s.db "w" = 2 := by
  constructor
  · exact ⟨scopedRun.2, scopedRun.1, Machine.run_exec _ _ (by decide), by decide,
      by decide +kernel⟩
  · exact ⟨negativeRun.2, negativeRun.1, Machine.run_exec _ _ (by decide +kernel),
      by decide +kernel, by decide +kernel⟩

end RogiCollector.Ports.Assigner
