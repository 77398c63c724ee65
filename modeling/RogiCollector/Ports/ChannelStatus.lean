import RogiCollector.Verified.Machine
import RogiCollector.Ports.LiveChannels

/-!
# The status of a channel

Discovery, opt-out administration and the coordinator write the same rows from
different processes.  The coordinator first lists pending channels and then
assigns them one by one (`AssignPending`), so a listed channel may have ended
in between; `AssignChannel` does not look at the status.  As long as no listed
channel has ended when its turn comes, status, worker and end time agree.
-/

namespace RogiCollector.Ports.Live

open Verified
open Journal (Time)
open Archive (Platform)

/-! ## The processes -/

/-- The tables, and for each call of `AssignPending` the channels it has yet
to assign. -/
structure State where
  db : Db
  assigners : List (List Nat)

def State.init : State := ⟨Db.empty, []⟩

/-- A statement of one of the processes. -/
inductive Input where
  | worker (id : String) (status : WorkerStatus)
  | optOuts (keys : List ChannelKey)
  | subscriptions (channels : List String)
  | upsert (history : Bool) (now : Time) (channels : List LiveChannel)
  | markEnded (now : Time) (platform : Platform) (active : List String)
  | markChannelEnded (now : Time) (id : Nat)
  | optOutEnd (now : Time) (key : ChannelKey)
  | unassignWorker (workerID : String)
  | unassignChannel (key : ChannelKey) (workerID : String)
  | unassignDead
  | reassign (now : Time) (id : Nat) (newWorkerID oldWorkerID : String)
  | list (limit : Nat) (ordered : List (ChannelKey × ChannelRow))
  | assign (k : Nat) (workerID : String) (applied : Bool)
  | stop (k : Nat)

/-- The channel an assigner is about to assign. -/
def State.nextChannel (s : State) (k : Nat) : Option Nat := s.assigners[k]?.bind List.head?

/-- The database behind a statement; one that fails leaves it as it was. -/
def stepDb (C : Config) (s : State) : Input → Db
  | .worker id status => { s.db with workers := s.db.workers.upsert id status }
  | .optOuts keys => { s.db with optOuts := keys }
  | .subscriptions channels => { s.db with subscribed := channels }
  | .upsert history now channels => (upsertRows history now s.db (dedupe channels)).1
  | .markEnded now platform active => (markEndedChannels now s.db platform active).1
  | .markChannelEnded now id => markChannelEnded now s.db id
  | .optOutEnd now key => (endCollectionOptedOutLiveChannel now s.db key).1
  | .unassignWorker workerID => unassignWorkerChannels s.db workerID
  | .unassignChannel key workerID => unassignChannel s.db key workerID
  | .unassignDead => unassignDeadWorkerChannels s.db
  | .reassign now id newWorkerID oldWorkerID =>
    ((reassignChannel C now s.db id newWorkerID oldWorkerID).map Prod.fst).getD s.db
  | .assign k workerID applied =>
    match s.nextChannel k with
    | some id => if applied then (assignChannel C s.db id workerID).getD s.db else s.db
    | none => s.db
  | .list .. | .stop _ => s.db

/-- One statement. -/
def step (C : Config) (s : State) (i : Input) : State where
  db := stepDb C s i
  assigners :=
    match i with
    | .list limit ordered => s.assigners ++ [(ordered.take limit).map fun row => row.2.id]
    | .assign k _ _ => s.assigners.modify k List.tail
    | .stop k => s.assigners.modify k fun _ => []
    | _ => s.assigners

/-- `ListPendingChannels` returns its rows by viewers, equal ones in any order. -/
def admits (C : Config) (s : State) : Input → Prop
  | .list _ ordered =>
    ordered.Perm (s.db.channels.select (isPending C s.db)) ∧
      ordered.Pairwise fun a b => b.2.viewerCount ≤ a.2.viewerCount
  | _ => True

instance (C : Config) (s : State) : (i : Input) → Decidable (admits C s i)
  | .list .. => inferInstanceAs (Decidable (_ ∧ _))
  | .worker .. | .optOuts .. | .subscriptions .. | .upsert .. | .markEnded ..
  | .markChannelEnded .. | .optOutEnd .. | .unassignWorker .. | .unassignChannel ..
  | .unassignDead | .reassign .. | .assign .. | .stop .. => inferInstanceAs (Decidable True)

/-- Discovery, opt-outs and the coordinator around one table. -/
def machine (C : Config) : Machine State Input Unit where
  admits := admits C
  step s i := (step C s i, ())

instance (C : Config) (s : State) (i : Input) : Decidable ((machine C).admits s i) :=
  inferInstanceAs (Decidable (admits C s i))

variable {C : Config} {s s' : State}

/-! ## What a step does to a row -/

/-- Status, worker and end time agree. -/
structure Coherent (row : ChannelRow) : Prop where
  ended : row.endedAt.isSome ↔ row.status = .ended
  worker : row.workerID.isSome ↔ row.status = .live

/-- What a step can do to a row that stays in place.  `lists` says that the
step is an upsert that lists the channel. -/
inductive RowMove (lists : Prop) (row row' : ChannelRow) : Prop
  | same (hstatus : row'.status = row.status) (hworker : row'.workerID = row.workerID)
      (hended : row'.endedAt = row.endedAt)
  | revived (hlists : lists) (hold : row.status = .ended) (hstatus : row'.status = .pending)
      (hworker : row'.workerID = row.workerID) (hended : row'.endedAt = none)
  | ended (hstatus : row'.status = .ended) (hworker : row'.workerID = none)
      (hended : row'.endedAt.isSome)
  | unassigned (hold : row.status ≠ .ended) (hstatus : row'.status = .pending)
      (hworker : row'.workerID = none) (hended : row'.endedAt = row.endedAt)
  | assigned (hold : row.status ≠ .ended) (hstatus : row'.status = .live)
      (hworker : row'.workerID.isSome) (hended : row'.endedAt = row.endedAt)

theorem RowMove.refl (lists : Prop) (row : ChannelRow) : RowMove lists row row :=
  .same rfl rfl rfl

/-- A row that is inserted. -/
structure Fresh (row : ChannelRow) : Prop where
  status : row.status = .pending
  worker : row.workerID = none
  ended : row.endedAt = none

variable {row : ChannelRow}

theorem Fresh.coherent (h : Fresh row) : Coherent row := by
  constructor <;> simp [h.status, h.worker, h.ended]

variable {lists : Prop} {row' : ChannelRow}

theorem Coherent.move (h : Coherent row) (hm : RowMove lists row row') : Coherent row' := by
  obtain ⟨hended, hworker⟩ := h
  cases hm with
  | same h1 h2 h3 => exact ⟨by rw [h1, h3, hended], by rw [h1, h2, hworker]⟩
  | revived | ended | unassigned | assigned => constructor <;> simp_all

/-- Only an upsert that lists the channel takes it out of `ended`. -/
theorem RowMove.leaves_ended (hm : RowMove lists row row') (hold : row.status = .ended)
    (hnew : row'.status ≠ .ended) : lists := by
  cases hm with
  | same h1 _ _ => exact absurd (h1.trans hold) hnew
  | revived hlists _ _ _ _ => exact hlists
  | ended h1 _ _ => exact absurd h1 hnew
  | unassigned h _ _ _ | assigned h _ _ _ => exact absurd hold h

/-- What a statement does to the table: rows move or are inserted. -/
def Moves (lists : ChannelKey → Prop) (t t' : Table ChannelKey ChannelRow) : Prop :=
  ∀ key row', t'.Has key row' →
    (∃ row, t.Has key row ∧ RowMove (lists key) row row') ∨
      ((∀ row, ¬t.Has key row) ∧ Fresh row')

theorem Moves.refl (lists : ChannelKey → Prop) (t : Table ChannelKey ChannelRow) :
    Moves lists t t :=
  fun _ row' h => Or.inl ⟨row', h, .refl _ _⟩

/-- An `UPDATE` moves each row by itself. -/
theorem moves_update (lists : ChannelKey → Prop) (t : Table ChannelKey ChannelRow)
    (f : ChannelKey → ChannelRow → ChannelRow)
    (h : ∀ key row, t.Has key row → RowMove (lists key) row (f key row)) :
    Moves lists t (t.update f) := by
  intro key row' hrow'
  obtain ⟨row, hrow, rfl⟩ := Table.has_update.mp hrow'
  exact Or.inl ⟨row, hrow, h key row hrow⟩

/-! ### The upsert -/

/-- An upsert leaves a row alone or revives it. -/
inductive Seen (lists : Prop) (row row' : ChannelRow) : Prop
  | same (hstatus : row'.status = row.status) (hworker : row'.workerID = row.workerID)
      (hended : row'.endedAt = row.endedAt)
  | revived (hlists : lists) (hold : row.status = .ended) (hstatus : row'.status = .pending)
      (hworker : row'.workerID = row.workerID) (hended : row'.endedAt = none)

theorem Seen.trans {row1 row2 : ChannelRow} (h : Seen lists row row1)
    (h' : Seen lists row1 row2) : Seen lists row row2 := by
  cases h with
  | same h1 h2 h3 =>
    cases h' with
    | same h1' h2' h3' => exact .same (h1'.trans h1) (h2'.trans h2) (h3'.trans h3)
    | revived h0' h1' h2' h3' h4' => exact .revived h0' (h1 ▸ h1') h2' (h3'.trans h2) h4'
  | revived h0 h1 h2 h3 h4 =>
    cases h' with
    | same h1' h2' h3' => exact .revived h0 h1 (h1'.trans h2) (h2'.trans h3) (h3'.trans h4)
    | revived _ h1' _ _ _ =>
      rw [h2] at h1'
      cases h1'

theorem seen_seen (hlists : lists) (row : ChannelRow) (history : Bool) (now : Time)
    (ch : LiveChannel) : Seen lists row (row.seen history now ch) := by
  by_cases hended : row.status = .ended
  · exact .revived hlists hended (by simp [ChannelRow.seen, hended]) rfl
      (by simp [ChannelRow.seen, hended])
  · exact .same (by simp [ChannelRow.seen, hended]) rfl (by simp [ChannelRow.seen, hended])

/-- A fresh row stays so under a later row of the same upsert. -/
theorem Fresh.seen (h : Fresh row) (hs : Seen lists row row') : Fresh row' := by
  cases hs with
  | same h1 h2 h3 => exact ⟨h1.trans h.status, h2.trans h.worker, h3.trans h.ended⟩
  | revived _ h1 _ _ _ =>
    rw [h.status] at h1
    cases h1

theorem upsertRows_rows (history : Bool) (now : Time) (channels : List LiveChannel) (db : Db)
    {key : ChannelKey} (h : (upsertRows history now db channels).1.channels.Has key row') :
    (∃ row, db.channels.Has key row ∧ Seen (∃ ch ∈ channels, ch.key = key) row row') ∨
      ((∀ row, ¬db.channels.Has key row) ∧ Fresh row') := by
  induction channels generalizing db with
  | nil => exact Or.inl ⟨row', h, .same rfl rfl rfl⟩
  | cons ch rest ih =>
    have hmono : ∀ {row row'}, Seen (∃ ch ∈ rest, ch.key = key) row row' →
        Seen (∃ ch' ∈ ch :: rest, ch'.key = key) row row' := by
      intro row row' hs
      cases hs with
      | same h1 h2 h3 => exact .same h1 h2 h3
      | revived hl h1 h2 h3 h4 =>
        obtain ⟨ch', hch', hkey⟩ := hl
        exact .revived ⟨ch', List.mem_cons_of_mem _ hch', hkey⟩ h1 h2 h3 h4
    rcases ih (upsertRow history now db ch).1 h with ⟨mid, hmid, hseen⟩ | ⟨hnone, hfresh⟩
    · rcases upsertRow_has.mp hmid with ⟨-, hold⟩ | ⟨rfl, ⟨old, hold, rfl⟩ | ⟨hfree, rfl⟩⟩
      · exact Or.inl ⟨mid, hold, hmono hseen⟩
      · refine Or.inl ⟨old, hold, Seen.trans ?_ (hmono hseen)⟩
        exact seen_seen ⟨ch, List.mem_cons_self, rfl⟩ old history now ch
      · have hnew : Fresh (ch.newRow history (db.lastID + 1) now) := ⟨rfl, rfl, rfl⟩
        exact Or.inr ⟨Table.find_eq_none_iff.mp hfree, hnew.seen hseen⟩
    · refine Or.inr ⟨?_, hfresh⟩
      intro row hrow
      by_cases hkey : key = ch.key
      · exact hnone _ (upsertRow_has.mpr (Or.inr ⟨hkey, Or.inl ⟨row, hrow, rfl⟩⟩))
      · exact hnone _ (upsertRow_has.mpr (Or.inl ⟨hkey, hrow⟩))

/-! ### Every statement -/

/-- The step is an upsert that lists the channel. -/
def Lists (i : Input) (key : ChannelKey) : Prop :=
  match i with
  | .upsert _ _ channels => ∃ ch ∈ channels, ch.key = key
  | _ => False

/-- An assigner assigns no channel that has ended. -/
def assignsOpen (s : State) : Input → Bool
  | .assign k _ true =>
    (s.nextChannel k).all fun id =>
      !s.db.channels.any fun _ row => row.id = id ∧ row.status = .ended
  | _ => true

theorem move_end (lists : Prop) (row : ChannelRow) (now : Time) :
    RowMove lists row (row.end_ now) :=
  .ended rfl rfl rfl

/-- Every statement moves rows, if it assigns no channel that has ended. -/
theorem step_rows (C : Config) (s : State) (i : Input) (hq : assignsOpen s i = true) :
    Moves (Lists i) s.db.channels (step C s i).db.channels := by
  cases i with
  | worker | optOuts | subscriptions | list | stop => exact .refl _ _
  | upsert history now channels =>
    intro key row' hrow'
    rcases upsertRows_rows history now (dedupe channels) s.db hrow' with ⟨row, hrow, hs⟩ | hnew
    · refine Or.inl ⟨row, hrow, ?_⟩
      cases hs with
      | same h1 h2 h3 => exact .same h1 h2 h3
      | revived hl h1 h2 h3 h4 =>
        obtain ⟨ch, hch, hkey⟩ := hl
        exact .revived ⟨ch, mem_dedupe hch, hkey⟩ h1 h2 h3 h4
    · exact Or.inr hnew
  | markEnded | markChannelEnded =>
    refine moves_update _ _ _ ?_
    intro key row _
    split
    · exact move_end _ _ _
    · exact .refl _ _
  | optOutEnd now key =>
    simp only [step, stepDb, endCollectionOptedOutLiveChannel]
    split
    · split
      · refine moves_update _ _ _ ?_
        intro key' row _
        split
        · exact .ended rfl rfl rfl
        · exact .refl _ _
      · exact .refl _ _
    · exact .refl _ _
  | unassignWorker workerID =>
    refine moves_update _ _ _ ?_
    intro key row _
    split
    · rename_i hcond
      exact .unassigned hcond.2 rfl rfl rfl
    · exact .refl _ _
  | unassignChannel key workerID =>
    refine moves_update _ _ _ ?_
    intro key' row _
    split
    · rename_i hcond
      exact .unassigned hcond.2.2 rfl rfl rfl
    · exact .refl _ _
  | unassignDead =>
    refine moves_update _ _ _ ?_
    intro key row _
    split
    · rename_i hcond
      exact .unassigned (by simp [hcond.2]) rfl rfl rfl
    · exact .refl _ _
  | reassign now id newWorkerID oldWorkerID =>
    simp only [step, stepDb, reassignChannel]
    split
    · exact .refl _ _
    · split
      · exact .refl _ _
      · refine moves_update _ _ _ ?_
        intro key row _
        split
        · rename_i hcond
          exact .assigned (by simp [hcond.2]) hcond.2 rfl rfl
        · exact .refl _ _
  | assign k workerID applied =>
    simp only [step, stepDb]
    split
    · rename_i id hid
      cases applied with
      | false => exact .refl _ _
      | true =>
        rw [if_pos rfl]
        unfold assignChannel
        dsimp only
        split
        · exact .refl _ _
        · split
          · exact .refl _ _
          · refine moves_update _ _ _ ?_
            intro key row hrow
            split
            · rename_i hcond
              rw [assignable, decide_eq_true_eq] at hcond
              refine .assigned ?_ rfl rfl rfl
              intro hended
              simp only [assignsOpen, hid, Option.all_some, Bool.not_eq_true',
                Table.any_eq_false] at hq
              simpa [hcond.1, hended] using hq key row hrow
            · exact .refl _ _
    · exact .refl _ _

/-! ## Every run -/

/-- Every row is coherent, and of the steps so far only an upsert that listed
an ended channel took it out of `ended`. -/
structure StatusCoherent (C : Config) (M : Machine State Input Unit) (tr : List (Input × Unit))
    (s : State) : Prop where
  rows : ∀ key row, s.db.channels.Has key row → Coherent row
  leaves : ∀ before i after s1, tr = before ++ (i, ()) :: after → M.Run State.init before s1 →
    ∀ key row row', s1.db.channels.Has key row → row.status = .ended →
      (step C s1 i).db.channels.Has key row' → row'.status ≠ .ended → Lists i key

/-- The runs in which no channel ends between its listing and its assignment. -/
def openMachine (C : Config) : Machine State Input Unit :=
  (machine C).restrict fun s i => assignsOpen s i = true

instance (C : Config) (s : State) (i : Input) : Decidable ((openMachine C).admits s i) :=
  inferInstanceAs (Decidable (admits C s i ∧ assignsOpen s i = true))

theorem status_coherent (C : Config) (tr : List (Input × Unit)) (s : State)
    (hr : (openMachine C).Run State.init tr s) : StatusCoherent C (openMachine C) tr s := by
  refine ⟨?_, ?_⟩
  · refine hr.invariant (I := fun s => ∀ key row, s.db.channels.Has key row → Coherent row)
      ?_ (by simp [State.init, Db.empty])
    intro s i h hi key row' hrow'
    rcases step_rows C s i hi.2 key row' hrow' with ⟨row, hrow, hm⟩ | ⟨-, hfresh⟩
    · exact (h key row hrow).move hm
    · exact hfresh.coherent
  · rintro before i after s1 rfl hr1 key row row' hrow hended hrow' hnew
    obtain ⟨s2, hr2, hi, -, -⟩ := hr.event
    obtain rfl := hr1.unique hr2
    rcases step_rows C s1 i hi.2 key row' hrow' with ⟨old, hold, hm⟩ | ⟨hnone, -⟩
    · rw [← hrow.unique hold] at hm
      exact hm.leaves_ended hended hnew
    · exact absurd hrow (hnone row)

/-! ## A channel that ends while it is listed -/

def fixtureConfig : Config := ⟨some "fixture_channel"⟩

def fixtureKey : ChannelKey := ⟨.soop, "fixture_channel"⟩

def fixtureRow : ChannelRow := (⟨fixtureKey, 3, none⟩ : LiveChannel).newRow true 1 10

/-- The product channel is discovered and listed as pending. -/
def listed : List Input :=
  [ .worker "w" .alive, .subscriptions ["fixture_channel"], .upsert true 10 [⟨fixtureKey, 3, none⟩]
  , .list 5 [(fixtureKey, fixtureRow)] ]

/-- Then an opt-out ends it, and it is assigned. -/
def endedRun : State × List (Input × Unit) :=
  (machine fixtureConfig).exec State.init (listed ++ [.optOutEnd 20 fixtureKey, .assign 0 "w" true])

/-- The row leaves `ended` by the assignment and keeps its end time. -/
theorem assign_revives_ended :
    (machine fixtureConfig).Run State.init endedRun.2 endedRun.1 ∧
      endedRun.1.db.channels.find fixtureKey =
        some { fixtureRow with status := .live, workerID := some "w", endedAt := some 20 } ∧
      ¬StatusCoherent fixtureConfig (machine fixtureConfig) endedRun.2 endedRun.1 := by
  have hrow : endedRun.1.db.channels.find fixtureKey =
      some { fixtureRow with status := .live, workerID := some "w", endedAt := some 20 } := by
    decide
  refine ⟨Machine.run_exec _ _ (by decide), hrow, ?_⟩
  intro h
  have hcoherent := h.rows _ _ (Table.find_eq_some_iff.mp hrow)
  exact absurd (hcoherent.ended.mp rfl) (by decide)

/-- It is assigned first, ends, is seen again and is handed back. -/
def openRun : State × List (Input × Unit) :=
  (openMachine fixtureConfig).exec State.init
    (listed ++ [ .assign 0 "w" true, .optOutEnd 20 fixtureKey
               , .upsert true 30 [⟨fixtureKey, 4, none⟩], .unassignWorker "w"])

theorem status_coherent_openRun :
    openRun.1.db.channels.find fixtureKey =
        some { fixtureRow with viewerCount := 4, lastSeenAt := 30, currentSessionSeq := 1 } ∧
      StatusCoherent fixtureConfig (openMachine fixtureConfig) openRun.2 openRun.1 :=
  ⟨by decide, status_coherent _ _ _ (Machine.run_exec _ _ (by decide))⟩

end RogiCollector.Ports.Live
