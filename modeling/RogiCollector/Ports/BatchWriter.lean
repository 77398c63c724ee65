import RogiCollector.Ports.JournalSchema
import RogiCollector.Verified.Machine

/-!
# The batch writer

`BatchWriter` of `ch_batch_writer.go`: rows are accepted into a buffer, and a
flush takes the whole buffer, hands it to `flushFn` without holding `mu`, and puts
it back in front of the rows that arrived meanwhile when the call fails.  `flushMu`
lets one flush in at a time: one of a caller, one of the timer loop, or one of
`Close`, which empties the buffer before it returns or gives up after a minute.

Every lock, channel operation and call of `flushFn` is a step of its own, so a run
is any interleaving of the callers.  A step moves the queue of the rows that are
not delivered in one of three ways only (`Move`), and everything about loss, order
and repetition follows from that.

`Close` decides by the length of the buffer that it read before its own flush.  The
batch that another flush has in hand is not in the buffer; if it comes back, it is
neither delivered nor counted.
-/

namespace RogiCollector.Ports.BatchWriter

open Verified
open Journal (Time second)

/-! ## The writer -/

/-- A writer without `DroppedTotal` counts nothing. -/
structure Config where
  maxBatch : Int
  maxPending : Int
  droppedTotal : Bool

/-- Whose call of `flush` it is. -/
inductive Caller
  | flush
  | loop
  | close
  deriving DecidableEq

/-- Where a flush is that holds `flushMu`. -/
inductive Phase (α : Type)
  | locked
  | due
  | calling (rows : List α)
  | failed (rows : List α)
  | succeeded (rows : List α)
  | leaving (ok : Bool)
  deriving DecidableEq

inductive LoopPhase
  | selecting
  | flushing
  | stopped
  deriving DecidableEq

/-- Where the call of `Close` is that found the writer open. -/
inductive ClosePhase
  | uncalled
  | marked
  | waiting
  | draining (deadline : Time)
  | read (deadline : Time) (pending : Nat)
  | flushing (deadline : Time) (pending : Nat)
  | failed (deadline : Time) (pending : Nat)
  | sleeping (deadline until_ : Time)
  | returned
  deriving DecidableEq

/-- The fields of the writer, the goroutines that are inside one of its functions,
and what has happened so far: `accepted` and `delivered` grow only, `refused` is
the number of rows without room, `reported` what `Close` said it dropped. -/
structure State (α : Type) where
  now : Time
  buffer : List α
  inFlight : Nat
  closed : Bool
  retryDelay : Nat
  nextRetryAt : Time
  flushCh : Bool
  done : Bool
  droppedTotal : Nat
  flusher : Option (Caller × Phase α)
  /-- Calls of `Enqueue` between the unlock of `mu` and the send to `flushCh`. -/
  signals : Nat
  loop : LoopPhase
  close : ClosePhase
  accepted : List α
  delivered : List (List α)
  refused : Nat
  reported : Nat

/-- `newBatchWriter`. -/
def State.init (α : Type) : State α where
  now := 0
  buffer := []
  inFlight := 0
  closed := false
  retryDelay := 0
  nextRetryAt := 0
  flushCh := false
  done := false
  droppedTotal := 0
  flusher := none
  signals := 0
  loop := .selecting
  close := .uncalled
  accepted := []
  delivered := []
  refused := 0
  reported := 0

/-- The channel on which the `select` of the loop goes on. -/
inductive Ready
  | done
  | flushCh
  | ticker

inductive Input (α : Type)
  | tick (d : Nat)
  | enqueue (row : α)
  | signal
  | lock (caller : Caller)
  | checkRetry
  | take
  | flushFn (ok : Bool)
  | settle
  | unlock
  | select (ready : Ready)
  | close
  | closeDone
  | awaitStopped
  | readPending
  | decide
  | giveUp
  | wake

/-- What the caller sees of a step. -/
inductive Reply
  | none
  | accepted
  | refused
  | ignored
  | returned
  deriving DecidableEq

variable {α : Type} (C : Config)

/-- `Enqueue`, up to the unlock of `mu`. -/
def enqueue (s : State α) (row : α) : State α × Reply :=
  if s.closed then (s, .ignored)
  else if 0 < C.maxPending ∧ C.maxPending ≤ s.buffer.length + s.inFlight then
    ({ s with
        droppedTotal := if C.droppedTotal then s.droppedTotal + 1 else s.droppedTotal
        refused := s.refused + 1 }, .refused)
  else
    ({ s with
        buffer := s.buffer ++ [row]
        accepted := s.accepted ++ [row]
        signals := if C.maxBatch ≤ (s.buffer ++ [row]).length then s.signals + 1 else s.signals },
      .accepted)

/-- The delay after another failure. -/
def nextDelay (delay : Nat) : Nat :=
  if delay = 0 then second else min (delay * 2) (30 * second)

/-- The call that returned: the loop selects again, `Close` goes on or decides. -/
def State.resume (s : State α) (caller : Caller) (ok : Bool) : State α :=
  match caller, s.close with
  | .flush, _ => s
  | .loop, _ => { s with loop := .selecting }
  | .close, .flushing deadline pending =>
    { s with close := if ok then .draining deadline else .failed deadline pending }
  | .close, _ => s

/-- One step of the flush that holds `flushMu`. -/
def flush (s : State α) (caller : Caller) : Phase α → Input α → State α
  | .locked, .checkRetry =>
    if caller ≠ .close ∧ s.now < s.nextRetryAt then
      { s with flusher := some (caller, .leaving true) }
    else { s with flusher := some (caller, .due) }
  | .due, .take =>
    { s with
      buffer := []
      inFlight := s.buffer.length
      flusher := some (caller, if s.buffer = [] then .leaving true else .calling s.buffer) }
  | .calling rows, .flushFn true =>
    { s with
      delivered := s.delivered ++ [rows]
      flusher := some (caller, .succeeded rows) }
  | .calling rows, .flushFn false => { s with flusher := some (caller, .failed rows) }
  | .failed rows, .settle =>
    { s with
      buffer := rows ++ s.buffer
      inFlight := 0
      retryDelay := nextDelay s.retryDelay
      nextRetryAt := s.now + nextDelay s.retryDelay
      flusher := some (caller, .leaving false) }
  | .succeeded _, .settle =>
    { s with
      inFlight := 0
      retryDelay := 0
      nextRetryAt := 0
      flusher := some (caller, .leaving true) }
  | .leaving ok, .unlock => { s with flusher := none }.resume caller ok
  | _, _ => s

/-- One step of `Close` outside of its flush. -/
def closeStep (s : State α) : ClosePhase → Input α → State α × Reply
  | .marked, .closeDone => ({ s with done := true, close := .waiting }, .none)
  | .waiting, .awaitStopped => ({ s with close := .draining (s.now + 60 * second) }, .none)
  | .draining deadline, .readPending =>
    ({ s with close := .read deadline s.buffer.length }, .none)
  | .read deadline pending, .decide =>
    if pending = 0 then ({ s with close := .returned }, .returned)
    else ({ s with close := .flushing deadline pending }, .none)
  | .failed deadline pending, .giveUp =>
    if deadline < s.now then
      ({ s with
          droppedTotal := if C.droppedTotal then s.droppedTotal + pending else s.droppedTotal
          reported := s.reported + pending
          close := .returned }, .returned)
    else
      let delay := if s.retryDelay = 0 then second else s.retryDelay
      ({ s with close := .sleeping deadline (s.now + min delay (deadline - s.now)) }, .none)
  | .sleeping deadline _, .wake => ({ s with close := .draining deadline }, .none)
  | _, _ => (s, .none)

/-- One step of `loop`. -/
def select (s : State α) : Ready → State α
  | .done => { s with loop := .stopped }
  | .flushCh => { s with flushCh := false, loop := .flushing }
  | .ticker => { s with loop := .flushing }

def step (s : State α) (i : Input α) : State α × Reply :=
  match i with
  | .tick d => ({ s with now := s.now + d }, .none)
  | .enqueue row => enqueue C s row
  | .signal => ({ s with signals := s.signals - 1, flushCh := true }, .none)
  | .lock caller => ({ s with flusher := some (caller, .locked) }, .none)
  | .checkRetry | .take | .flushFn _ | .settle | .unlock =>
    match s.flusher with
    | some (caller, phase) => (flush s caller phase i, .none)
    | none => (s, .none)
  | .select ready => (select s ready, .none)
  | .close =>
    if s.closed then (s, .returned) else ({ s with closed := true, close := .marked }, .none)
  | .closeDone | .awaitStopped | .readPending | .decide | .giveUp | .wake =>
    closeStep C s s.close i

/-- Which phase a step of a flush belongs to. -/
def Phase.admits : Phase α → Input α → Bool
  | .locked, .checkRetry => true
  | .due, .take => true
  | .calling _, .flushFn _ => true
  | .failed _, .settle => true
  | .succeeded _, .settle => true
  | .leaving _, .unlock => true
  | _, _ => false

def admits (s : State α) (i : Input α) : Bool :=
  match i with
  | .tick _ | .enqueue _ | .close => true
  | .signal => 0 < s.signals
  | .lock caller =>
    s.flusher.isNone &&
      match caller, s.close with
      | .flush, _ => true
      | .loop, _ => s.loop = .flushing
      | .close, .flushing _ _ => true
      | .close, _ => false
  | .checkRetry | .take | .flushFn _ | .settle | .unlock =>
    s.flusher.any fun f => f.2.admits i
  | .select .done => s.loop = .selecting ∧ s.done
  | .select .flushCh => s.loop = .selecting ∧ s.flushCh
  | .select .ticker => s.loop = .selecting
  | .closeDone => s.close = .marked
  | .awaitStopped => s.close = .waiting ∧ s.loop = .stopped
  | .readPending => match s.close with | .draining _ => true | _ => false
  | .decide => match s.close with | .read _ _ => true | _ => false
  | .giveUp => match s.close with | .failed _ _ => true | _ => false
  | .wake => match s.close with | .sleeping _ until_ => until_ ≤ s.now | _ => false

/-- Any interleaving of `Enqueue`, `Flush`, the timer loop and `Close`. -/
def machine : Machine (State α) (Input α) Reply where
  admits s i := admits s i = true
  step := step C

instance (C : Config) (s : State α) (i : Input α) : Decidable ((machine C).admits s i) :=
  inferInstanceAs (Decidable (_ = true))

/-! ## What a step does to the rows -/

/-- The rows a flush has in hand that are not delivered. -/
def Phase.rows : Phase α → List α
  | .calling rows => rows
  | .failed rows => rows
  | _ => []

/-- The rows that `inFlight` stands for: a delivered batch is counted until `mu`
is locked again. -/
def Phase.taken : Phase α → List α
  | .succeeded rows => rows
  | phase => phase.rows

/-- The batch in flight. -/
def State.batch (s : State α) : List α :=
  match s.flusher with
  | some (_, phase) => phase.rows
  | none => []

def State.taken (s : State α) : List α :=
  match s.flusher with
  | some (_, phase) => phase.taken
  | none => []

/-- The accepted rows that `flushFn` has not taken over. -/
def State.undelivered (s : State α) : List α := s.batch ++ s.buffer

/-- All a step can do to the rows. -/
inductive Move (s s' : State α) : Prop
  | stay (haccepted : s'.accepted = s.accepted) (hdelivered : s'.delivered = s.delivered)
      (hundelivered : s'.undelivered = s.undelivered)
  | push (row : α) (hopen : s.closed = false) (haccepted : s'.accepted = s.accepted ++ [row])
      (hdelivered : s'.delivered = s.delivered)
      (hundelivered : s'.undelivered = s.undelivered ++ [row])
  | deliver (rows : List α) (haccepted : s'.accepted = s.accepted)
      (hdelivered : s'.delivered = s.delivered ++ [rows])
      (hundelivered : s.undelivered = rows ++ s'.undelivered)

variable {C} {s s' : State α} {i : Input α}

/-- A function that returns goes on in its caller. -/
theorem resume_eq (s : State α) (caller : Caller) (ok : Bool) :
    ∃ loop close, s.resume caller ok = { s with loop, close } := by
  unfold State.resume
  split <;> exact ⟨_, _, rfl⟩

/-- `Close` after a step of somebody's flush: its own may have returned. -/
def Resumed (c c' : ClosePhase) : Prop :=
  c' = c ∨ ∃ deadline pending, c = .flushing deadline pending ∧
    (c' = .draining deadline ∨ c' = .failed deadline pending)

theorem resumed_resume (s : State α) (caller : Caller) (ok : Bool) :
    Resumed s.close (s.resume caller ok).close := by
  unfold State.resume
  split
  · exact Or.inl rfl
  · exact Or.inl rfl
  · rename_i deadline pending hclose
    refine Or.inr ⟨deadline, pending, hclose, ?_⟩
    cases ok with
    | true => exact Or.inl rfl
    | false => exact Or.inr rfl
  · exact Or.inl rfl

section Flush

variable {caller : Caller} {phase : Phase α}

theorem batch_eq (hf : s.flusher = some (caller, phase)) : s.batch = phase.rows := by
  rw [State.batch, hf]

theorem taken_eq (hf : s.flusher = some (caller, phase)) : s.taken = phase.taken := by
  rw [State.taken, hf]

theorem undelivered_eq (hf : s.flusher = some (caller, phase)) :
    s.undelivered = phase.rows ++ s.buffer := by
  rw [State.undelivered, batch_eq hf]

/-- All a step of the flush can do. -/
structure Flushed (s s' : State α) : Prop where
  move : Move s s'
  flying : s'.inFlight = s'.taken.length
  room : s'.buffer.length + s'.inFlight ≤ s.buffer.length + s.inFlight
  closed : s'.closed = s.closed
  droppedTotal : s'.droppedTotal = s.droppedTotal
  refused : s'.refused = s.refused
  reported : s'.reported = s.reported
  close : Resumed s.close s'.close

theorem flush_flushed (hf : s.flusher = some (caller, phase)) (hi : phase.admits i = true)
    (hflying : s.inFlight = s.taken.length) : Flushed s (flush s caller phase i) := by
  have hrows := undelivered_eq hf
  rw [taken_eq hf] at hflying
  cases phase with
  | locked =>
    cases i with
    | checkRetry =>
      simp only [flush]
      split <;>
        exact ⟨.stay rfl rfl hrows.symm, hflying, Nat.le_refl _, rfl, rfl, rfl, rfl, Or.inl rfl⟩
    | _ => cases hi
  | due =>
    cases i with
    | take =>
      have hbuffer : s.undelivered = s.buffer := hrows
      by_cases hempty : s.buffer = []
      · simp only [flush, if_pos hempty]
        rw [hempty] at hbuffer ⊢
        exact ⟨.stay rfl rfl hbuffer.symm, rfl, Nat.zero_le _, rfl, rfl, rfl, rfl, Or.inl rfl⟩
      · simp only [flush, if_neg hempty]
        exact ⟨.stay rfl rfl ((List.append_nil _).trans hbuffer.symm), rfl, by simp,
          rfl, rfl, rfl, rfl, Or.inl rfl⟩
    | _ => cases hi
  | calling rows =>
    cases i with
    | flushFn ok =>
      cases ok with
      | true =>
        exact ⟨.deliver rows rfl rfl hrows, hflying, Nat.le_refl _, rfl, rfl, rfl, rfl, Or.inl rfl⟩
      | false =>
        exact ⟨.stay rfl rfl hrows.symm, hflying, Nat.le_refl _, rfl, rfl, rfl, rfl, Or.inl rfl⟩
    | _ => cases hi
  | failed rows =>
    cases i with
    | settle =>
      refine ⟨.stay rfl rfl hrows.symm, rfl, ?_, rfl, rfl, rfl, rfl, Or.inl rfl⟩
      rw [hflying]
      simp only [flush, Phase.taken, Phase.rows, List.length_append]
      omega
    | _ => cases hi
  | succeeded rows =>
    cases i with
    | settle =>
      exact ⟨.stay rfl rfl hrows.symm, rfl, Nat.le_add_right _ _, rfl, rfl, rfl, rfl, Or.inl rfl⟩
    | _ => cases hi
  | leaving ok =>
    cases i with
    | unlock =>
      have hresumed := resumed_resume { s with flusher := none } caller ok
      obtain ⟨loop, close, heq⟩ := resume_eq { s with flusher := none } caller ok
      rw [flush]
      rw [heq] at hresumed ⊢
      exact ⟨.stay rfl rfl hrows.symm, hflying, Nat.le_refl _, rfl, rfl, rfl, rfl, hresumed⟩
    | _ => cases hi

end Flush

theorem enqueue_move (s : State α) (row : α) : Move s (enqueue C s row).1 := by
  unfold enqueue
  by_cases hclosed : s.closed = true
  · rw [if_pos hclosed]
    exact .stay rfl rfl rfl
  · rw [if_neg hclosed]
    split
    · exact .stay rfl rfl rfl
    · exact .push row (Bool.eq_false_iff.mpr hclosed) rfl rfl (List.append_assoc _ _ _).symm

/-- The count that `Close` goes by until it reads the buffer again. -/
def ClosePhase.pending : ClosePhase → Option Nat
  | .read _ pending => some pending
  | .flushing _ pending => some pending
  | .failed _ pending => some pending
  | _ => none

/-- All a step of `Close` can do: nothing, go on, or return with its last count. -/
inductive Closes (C : Config) (s : State α) (i : Input α) : State α × Reply → Prop
  | skip : Closes C s i (s, .none)
  | goto {done : Bool} {close : ClosePhase} (hcalled : s.close ≠ .uncalled)
      (hne : close ≠ .returned)
      (hpending : ∀ pending ∈ close.pending,
        pending ∈ s.close.pending ∨ i = .readPending ∧ pending = s.buffer.length) :
      Closes C s i ({ s with done, close }, .none)
  | finish {droppedTotal : Nat} (pending : Nat) (hpending : pending ∈ s.close.pending)
      (htotal : C.droppedTotal = true → droppedTotal = s.droppedTotal + pending) :
      Closes C s i
        ({ s with droppedTotal, reported := s.reported + pending, close := .returned }, .returned)

theorem closeStep_closes (s : State α) (i : Input α) :
    Closes C s i (closeStep C s s.close i) := by
  unfold closeStep
  split
  · rename_i hclose
    exact .goto (by simp [hclose]) nofun nofun
  · rename_i hclose
    exact .goto (by simp [hclose]) nofun nofun
  · rename_i deadline hclose
    refine .goto (by simp [hclose]) nofun ?_
    rintro _ ⟨⟩
    exact Or.inr ⟨rfl, rfl⟩
  · rename_i deadline pending hclose
    split
    · rename_i hzero
      subst hzero
      exact .finish 0 (by rw [hclose]; rfl) fun _ => rfl
    · refine .goto (by simp [hclose]) nofun ?_
      rintro _ ⟨⟩
      exact Or.inl (by rw [hclose]; rfl)
  · rename_i deadline pending hclose
    split
    · exact .finish pending (by rw [hclose]; rfl) fun hcounts => if_pos hcounts
    · exact .goto (by simp [hclose]) nofun nofun
  · rename_i hclose
    exact .goto (by simp [hclose]) nofun nofun
  · exact .skip

/-- A step of the flush that holds `flushMu`. -/
theorem exists_flusher (h : (s.flusher.any fun f => f.2.admits i) = true) :
    ∃ caller phase, s.flusher = some (caller, phase) ∧ phase.admits i = true := by
  cases hf : s.flusher with
  | none =>
    rw [hf] at h
    cases h
  | some f =>
    rw [hf] at h
    exact ⟨f.1, f.2, rfl, h⟩

theorem flusher_none_of_lock {caller : Caller} (h : admits s (.lock caller) = true) :
    s.flusher = none := by
  simp only [admits, Bool.and_eq_true] at h
  exact Option.isNone_iff_eq_none.mp h.1

/-- What a step of the flush is, whichever of its inputs it takes. -/
theorem step_flush {caller : Caller} {phase : Phase α} (hf : s.flusher = some (caller, phase))
    (hi : phase.admits i = true) : step C s i = (flush s caller phase i, .none) := by
  cases i with
  | checkRetry | take | flushFn | settle | unlock => simp only [step, hf]
  | _ => cases phase <;> cases hi

/-- The inputs by what takes them: the flush, `Close` on its way, or neither. -/
inductive Taken (C : Config) (s : State α) : Input α → Prop
  | flush {i : Input α} {caller : Caller} {phase : Phase α}
      (hf : s.flusher = some (caller, phase)) (hi : phase.admits i = true)
      (heq : step C s i = (flush s caller phase i, .none)) : Taken C s i
  | close {i : Input α} {out : State α × Reply} (heq : step C s i = out)
      (hcloses : Closes C s i out) : Taken C s i
  | tick (d : Nat) : Taken C s (.tick d)
  | enqueue (row : α) : Taken C s (.enqueue row)
  | signal : Taken C s .signal
  | lock (caller : Caller) (hf : s.flusher = none) : Taken C s (.lock caller)
  | select (ready : Ready) : Taken C s (.select ready)
  | call : Taken C s .close

theorem taken_of_admits (h : admits s i = true) : Taken C s i := by
  have hflush : (s.flusher.any fun f => f.2.admits i) = true → Taken C s i := by
    intro hany
    obtain ⟨caller, phase, hf, hi⟩ := exists_flusher hany
    exact .flush hf hi (step_flush hf hi)
  cases i with
  | tick d => exact .tick d
  | enqueue row => exact .enqueue row
  | signal => exact .signal
  | lock caller => exact .lock caller (flusher_none_of_lock h)
  | checkRetry | take | flushFn | settle | unlock => exact hflush h
  | select ready => exact .select ready
  | close => exact .call
  | closeDone | awaitStopped | readPending | decide | giveUp | wake =>
    exact .close rfl (closeStep_closes s _)

theorem step_move (hflying : s.inFlight = s.taken.length) (h : admits s i = true) :
    Move s (step C s i).1 := by
  cases taken_of_admits (C := C) h with
  | flush hf hi heq =>
    rw [heq]
    exact (flush_flushed hf hi hflying).move
  | close heq hcloses =>
    rw [heq]
    cases hcloses with
    | skip | goto | finish => exact .stay rfl rfl rfl
  | tick | signal => exact .stay rfl rfl rfl
  | enqueue row => exact enqueue_move s row
  | lock caller hf =>
    refine .stay rfl rfl ?_
    rw [State.undelivered, State.undelivered, State.batch, State.batch, hf]
    rfl
  | select ready =>
    cases ready with
    | done | flushCh | ticker => exact .stay rfl rfl rfl
  | call =>
    simp only [step]
    split <;> exact .stay rfl rfl rfl

/-! ## The queue and the bound -/

structure Inv (C : Config) (s : State α) : Prop where
  queue : s.delivered.flatten ++ s.undelivered = s.accepted
  flying : s.inFlight = s.taken.length
  bounded : 0 < C.maxPending → (s.buffer.length + s.inFlight : Int) ≤ C.maxPending

theorem Inv.init : Inv C (State.init α) where
  queue := rfl
  flying := rfl
  bounded h := Int.le_of_lt h

theorem Move.queue (h : Move s s') (hq : s.delivered.flatten ++ s.undelivered = s.accepted) :
    s'.delivered.flatten ++ s'.undelivered = s'.accepted := by
  cases h with
  | stay haccepted hdelivered hundelivered => rw [haccepted, hdelivered, hundelivered, hq]
  | push row _ haccepted hdelivered hundelivered =>
    rw [haccepted, hdelivered, hundelivered, ← List.append_assoc, hq]
  | deliver rows haccepted hdelivered hundelivered =>
    rw [hundelivered, ← List.append_assoc] at hq
    rw [haccepted, hdelivered, List.flatten_append, List.flatten_singleton, hq]

/-- A step that leaves the buffer and the flush alone. -/
theorem Inv.frame (h : Inv C s) (hq : s'.delivered.flatten ++ s'.undelivered = s'.accepted)
    (hbuffer : s'.buffer = s.buffer) (hflight : s'.inFlight = s.inFlight)
    (htaken : s'.taken = s.taken) : Inv C s' where
  queue := hq
  flying := by rw [hflight, htaken, h.flying]
  bounded hpos := by
    rw [hbuffer, hflight]
    exact h.bounded hpos

theorem Inv.enqueue (h : Inv C s) (row : α) : Inv C (enqueue C s row).1 := by
  have hq := (enqueue_move (C := C) s row).queue h.queue
  unfold BatchWriter.enqueue at hq ⊢
  split
  · exact h
  · split
    · exact h.frame h.queue rfl rfl rfl
    · rename_i hopen hroom
      rw [if_neg hopen, if_neg hroom] at hq
      exact
        { queue := hq
          flying := h.flying
          bounded := fun hpos => by
            simp only [List.length_append, List.length_singleton]
            omega }

theorem Inv.step (h : Inv C s) (hi : admits s i = true) : Inv C (step C s i).1 := by
  have hq := (step_move (C := C) h.flying hi).queue h.queue
  cases taken_of_admits (C := C) hi with
  | flush hf hphase heq =>
    rw [heq] at hq ⊢
    have hflushed := flush_flushed hf hphase h.flying
    exact
      { queue := hq
        flying := hflushed.flying
        bounded := fun hpos => by
          have hle := h.bounded hpos
          have hroom := hflushed.room
          dsimp only
          omega }
  | close heq hcloses =>
    rw [heq]
    cases hcloses with
    | skip => exact h
    | goto | finish => exact h.frame h.queue rfl rfl rfl
  | tick | signal => exact h.frame hq rfl rfl rfl
  | enqueue row => exact h.enqueue row
  | lock caller hf =>
    refine h.frame hq rfl rfl ?_
    rw [State.taken, State.taken, hf]
    rfl
  | select ready =>
    cases ready with
    | done | flushCh | ticker => exact h.frame hq rfl rfl rfl
  | call =>
    simp only [BatchWriter.step] at hq ⊢
    split
    · exact h
    · exact h.frame h.queue rfl rfl rfl

theorem run_inv {tr : List (Input α × Reply)} (hr : (machine C).Run (State.init α) tr s) :
    Inv C s :=
  hr.invariant (fun _ _ h hi => h.step hi) Inv.init

/-- A row is refused only when there is no room left. -/
theorem Inv.full_of_refused (h : Inv C s) (hi : admits s i = true)
    (hrefused : (BatchWriter.step C s i).2 = .refused) :
    0 < C.maxPending ∧ (s.buffer.length + s.inFlight : Int) = C.maxPending := by
  cases taken_of_admits (C := C) hi with
  | flush hf hphase heq =>
    rw [heq] at hrefused
    cases hrefused
  | close heq hcloses =>
    rw [heq] at hrefused
    cases hcloses with
    | skip | goto | finish => cases hrefused
  | tick | signal | lock | select => cases hrefused
  | enqueue row =>
    simp only [BatchWriter.step, BatchWriter.enqueue] at hrefused
    split at hrefused
    · cases hrefused
    · split at hrefused
      · rename_i hfull
        have hle := h.bounded hfull.1
        exact ⟨hfull.1, by omega⟩
      · cases hrefused
  | call =>
    simp only [BatchWriter.step] at hrefused
    split at hrefused <;> cases hrefused

/-! ## `Close` -/

/-- `Close` reads the buffer while no batch is in flight, and is called again only
after it has returned. -/
def quiet (s : State α) (i : Input α) : Bool :=
  match i with
  | .readPending => s.inFlight = 0
  | .close => s.closed = false ∨ s.close = .returned
  | _ => true

structure CloseInv (C : Config) (s : State α) : Prop where
  uncalled : s.closed = false → s.close = .uncalled
  pending : ∀ pending ∈ s.close.pending, s.undelivered.length ≤ pending
  returned : s.close = .returned → s.undelivered.length ≤ s.reported
  total : C.droppedTotal = true → s.droppedTotal = s.refused + s.reported

theorem CloseInv.init : CloseInv C (State.init α) where
  uncalled _ := rfl
  pending _ h := by cases h
  returned h := by cases h
  total _ := rfl

/-- A closed writer takes no more rows. -/
theorem Move.length_le (h : Move s s') (hclosed : s.closed = true) :
    s'.undelivered.length ≤ s.undelivered.length := by
  cases h with
  | stay _ _ hundelivered => exact Nat.le_of_eq (congrArg List.length hundelivered)
  | push row hopen _ _ _ =>
    rw [hopen] at hclosed
    cases hclosed
  | deliver rows _ _ hundelivered =>
    rw [hundelivered, List.length_append]
    omega

theorem Resumed.pending {c c' : ClosePhase} (h : Resumed c c') {pending : Nat}
    (hpending : pending ∈ c'.pending) : pending ∈ c.pending := by
  rcases h with rfl | ⟨deadline, count, rfl, rfl | rfl⟩
  · exact hpending
  · cases hpending
  · exact hpending

theorem Resumed.returned {c c' : ClosePhase} (h : Resumed c c') (hreturned : c' = .returned) :
    c = .returned := by
  rcases h with rfl | ⟨deadline, count, rfl, rfl | rfl⟩
  · exact hreturned
  · cases hreturned
  · cases hreturned

theorem Resumed.uncalled {c c' : ClosePhase} (h : Resumed c c') (huncalled : c = .uncalled) :
    c' = .uncalled := by
  rcases h with rfl | ⟨deadline, count, rfl, -⟩
  · exact huncalled
  · cases huncalled

/-- A step that is not one of `Close` itself. -/
theorem CloseInv.frame (h : CloseInv C s) (hmove : Move s s') (hclosed : s'.closed = s.closed)
    (hclose : Resumed s.close s'.close) (hreported : s'.reported = s.reported)
    (htotal : C.droppedTotal = true → s'.droppedTotal = s'.refused + s'.reported) :
    CloseInv C s' := by
  have hlength : s.close ≠ .uncalled → s'.undelivered.length ≤ s.undelivered.length := by
    intro hcalled
    refine hmove.length_le ?_
    by_contra hopen
    exact hcalled (h.uncalled (Bool.eq_false_iff.mpr hopen))
  constructor
  · rw [hclosed]
    exact fun hopen => hclose.uncalled (h.uncalled hopen)
  · intro pending hpending
    refine (hlength ?_).trans (h.pending pending (hclose.pending hpending))
    intro huncalled
    rw [hclose.uncalled huncalled] at hpending
    cases hpending
  · rw [hreported]
    intro hreturned
    refine (hlength ?_).trans (h.returned (hclose.returned hreturned))
    rw [hclose.returned hreturned]
    decide
  · exact htotal

theorem CloseInv.flush (h : CloseInv C s) (hf : Flushed s s') : CloseInv C s' := by
  refine h.frame hf.move hf.closed hf.close hf.reported fun hcounts => ?_
  rw [hf.droppedTotal, hf.refused, hf.reported]
  exact h.total hcounts

theorem CloseInv.enqueue (h : CloseInv C s) (row : α) :
    CloseInv C (BatchWriter.enqueue C s row).1 := by
  have hmove := enqueue_move (C := C) s row
  unfold BatchWriter.enqueue at hmove ⊢
  split
  · exact h
  · rename_i hopen
    rw [if_neg hopen] at hmove
    split
    · rename_i hfull
      rw [if_pos hfull] at hmove
      refine h.frame hmove rfl (Or.inl rfl) rfl fun hcounts => ?_
      have htotal := h.total hcounts
      dsimp only
      rw [if_pos hcounts]
      omega
    · rename_i hroom
      rw [if_neg hroom] at hmove
      exact h.frame hmove rfl (Or.inl rfl) rfl h.total

theorem Inv.batch_eq_nil (h : Inv C s) (hzero : s.inFlight = 0) : s.batch = [] := by
  have htaken : s.taken = [] := List.length_eq_zero_iff.mp (h.flying.symm.trans hzero)
  cases hf : s.flusher with
  | none => rw [State.batch, hf]
  | some f =>
    obtain ⟨caller, phase⟩ := f
    rw [taken_eq hf] at htaken
    rw [batch_eq hf]
    cases phase with
    | calling | failed => exact htaken
    | _ => rfl

/-- The steps of `Close`.  With nothing in flight the buffer is all there is. -/
theorem CloseInv.closeStep (h : CloseInv C s) (hinv : Inv C s) (hq : quiet s i = true)
    {out : State α × Reply} (hcloses : Closes C s i out) : CloseInv C out.1 := by
  cases hcloses with
  | skip => exact h
  | goto hcalled hne hpending =>
    refine ⟨fun hopen => absurd (h.uncalled hopen) hcalled, ?_, fun hr => absurd hr hne, h.total⟩
    intro pending hmem
    rcases hpending pending hmem with hold | ⟨rfl, rfl⟩
    · exact h.pending pending hold
    · have hzero : s.inFlight = 0 := of_decide_eq_true hq
      exact Nat.le_of_eq (congrArg (fun l => (l ++ s.buffer).length) (hinv.batch_eq_nil hzero))
  | finish pending hpending htotal =>
    refine ⟨fun hopen => ?_, nofun, fun _ => ?_, fun hcounts => ?_⟩
    · rw [h.uncalled hopen] at hpending
      cases hpending
    · exact (h.pending pending hpending).trans (Nat.le_add_left _ _)
    · have hold := h.total hcounts
      have hnew := htotal hcounts
      dsimp only
      omega

theorem CloseInv.step (h : CloseInv C s) (hinv : Inv C s) (hi : admits s i = true)
    (hq : quiet s i = true) : CloseInv C (step C s i).1 := by
  have hmove := step_move (C := C) hinv.flying hi
  cases taken_of_admits (C := C) hi with
  | flush hf hphase heq =>
    rw [heq]
    exact h.flush (flush_flushed hf hphase hinv.flying)
  | close heq hcloses =>
    rw [heq]
    exact h.closeStep hinv hq hcloses
  | tick | signal | lock => exact h.frame hmove rfl (Or.inl rfl) rfl h.total
  | enqueue row => exact h.enqueue row
  | select ready =>
    cases ready with
    | done | flushCh | ticker => exact h.frame hmove rfl (Or.inl rfl) rfl h.total
  | call =>
    simp only [BatchWriter.step]
    split
    · exact h
    · exact
        { uncalled := fun hopen => by cases hopen
          pending := fun _ hp => by cases hp
          returned := fun hr => by cases hr
          total := h.total }

/-- What `Close` has said when it returns. -/
theorem close_of_returned (hi : admits s i = true) (hq : quiet s i = true)
    (hreturned : (step C s i).2 = .returned) : (step C s i).1.close = .returned := by
  cases taken_of_admits (C := C) hi with
  | flush hf hphase heq =>
    rw [heq] at hreturned
    cases hreturned
  | close heq hcloses =>
    rw [heq] at hreturned ⊢
    cases hcloses with
    | skip | goto => cases hreturned
    | finish => rfl
  | tick | signal | lock | select => cases hreturned
  | enqueue row =>
    simp only [BatchWriter.step, BatchWriter.enqueue] at hreturned
    split at hreturned
    · cases hreturned
    · split at hreturned <;> cases hreturned
  | call =>
    simp only [BatchWriter.step] at hreturned ⊢
    split at hreturned
    · rename_i hclosed
      rw [if_pos hclosed]
      rw [quiet, decide_eq_true_eq] at hq
      rcases hq with hopen | hclose
      · rw [hopen] at hclosed
        cases hclosed
      · exact hclose
    · cases hreturned

/-! ## Nothing is lost -/

/-- The rows at any moment. -/
structure Lossless (C : Config) (s : State α) : Prop where
  /-- No flush is between its steps. -/
  settled : s.flusher = none → s.delivered.flatten ++ s.buffer = s.accepted
  always : s.delivered.flatten ++ s.batch ++ s.buffer = s.accepted
  bounded : 0 < C.maxPending → (s.buffer.length + s.inFlight : Int) ≤ C.maxPending
  refused : ∀ i, admits s i = true → (step C s i).2 = .refused →
    0 < C.maxPending ∧ (s.buffer.length + s.inFlight : Int) = C.maxPending

/-- Every accepted row is delivered or in the count of dropped rows. -/
structure Accounted (C : Config) (s : State α) : Prop where
  rows : s.delivered.flatten ++ s.undelivered = s.accepted
  reported : s.undelivered.length ≤ s.reported
  total : C.droppedTotal = true → s.droppedTotal = s.refused + s.reported

theorem Inv.lossless (h : Inv C s) : Lossless C s where
  settled hnone := by
    have hqueue := h.queue
    rwa [State.undelivered, State.batch, hnone] at hqueue
  always := by
    have hqueue := h.queue
    rwa [State.undelivered, ← List.append_assoc] at hqueue
  bounded := h.bounded
  refused _ hi hrefused := h.full_of_refused hi hrefused

/-- Whatever the interleaving, no row is lost, repeated or moved.  If `Close` read
the buffer only while nothing was in flight, then it leaves nothing uncounted. -/
theorem batch_writer (C : Config) (α : Type) :
    (∀ tr s, (machine C).Run (State.init α) tr s → Lossless C s) ∧
    ∀ tr s, ((machine C).restrict fun s i => quiet s i = true).Run (State.init α) tr s →
      ∀ i, admits s i = true → quiet s i = true → (step C s i).2 = .returned →
        Accounted C (step C s i).1 := by
  constructor
  · intro tr s hr
    exact (run_inv hr).lossless
  · intro tr s hr i hi hq hreturned
    have hstep : ∀ (s : State α) i, Inv C s ∧ CloseInv C s → admits s i = true ∧ quiet s i = true →
        Inv C (step C s i).1 ∧ CloseInv C (step C s i).1 :=
      fun s i h hadmitted => ⟨h.1.step hadmitted.1, h.2.step h.1 hadmitted.1 hadmitted.2⟩
    have hboth : Inv C s ∧ CloseInv C s := hr.invariant hstep ⟨Inv.init, CloseInv.init⟩
    have hafter := hstep s i hboth ⟨hi, hq⟩
    exact
      { rows := hafter.1.queue
        reported := hafter.2.returned (close_of_returned hi hq hreturned)
        total := hafter.2.total }

/-! ## Two runs -/

def fixtureConfig : Config := ⟨100, 0, true⟩

/-- One flush takes the first row and fails, another delivers both, and `Close` has
nothing left to do. -/
def drainedRun : State Nat × List (Input Nat × Reply) :=
  ((machine fixtureConfig).restrict fun s i => quiet s i = true).exec (State.init Nat)
    [ .enqueue 1, .lock .flush, .checkRetry, .take, .enqueue 2, .flushFn false, .settle, .unlock
    , .close, .closeDone, .select .done, .awaitStopped, .readPending, .decide
    , .lock .close, .checkRetry, .take, .flushFn true, .settle, .unlock, .readPending ]

theorem batch_writer_drained :
    drainedRun.1.delivered = [[1, 2]] ∧ Lossless fixtureConfig drainedRun.1 ∧
      Accounted fixtureConfig (step fixtureConfig drainedRun.1 .decide).1 := by
  have hrun : ((machine fixtureConfig).restrict fun s i => quiet s i = true).Run
      (State.init Nat) drainedRun.2 drainedRun.1 := Machine.run_exec _ _ (by decide)
  have hlossless := (batch_writer fixtureConfig Nat).1 _ _ hrun.unrestrict
  have haccounted := (batch_writer fixtureConfig Nat).2 _ _ hrun .decide (by decide)
    (by decide) (by decide)
  exact ⟨by decide, hlossless, haccounted⟩

/-- A flush has the first row in hand when `Close` reads the buffer, and fails.  The
flush of `Close` has both rows and fails, too, a minute later. -/
def uncountedRun : State Nat × List (Input Nat × Reply) :=
  (machine fixtureConfig).exec (State.init Nat)
    [ .enqueue 1, .lock .flush, .checkRetry, .take, .enqueue 2
    , .close, .closeDone, .select .done, .awaitStopped, .readPending, .decide
    , .flushFn false, .settle, .unlock
    , .lock .close, .checkRetry, .take, .tick (61 * second), .flushFn false, .settle, .unlock ]

/-- `Close` returns, no flush runs, two rows are left, and one is counted. -/
theorem closed_uncounted :
    ∃ tr s, (machine fixtureConfig).Run (State.init Nat) tr s ∧ admits s .giveUp = true ∧
      (step fixtureConfig s .giveUp).2 = .returned ∧
      (step fixtureConfig s .giveUp).1.flusher = none ∧
      (step fixtureConfig s .giveUp).1.accepted = [1, 2] ∧
      (step fixtureConfig s .giveUp).1.delivered = [] ∧
      (step fixtureConfig s .giveUp).1.droppedTotal = 1 ∧
      (step fixtureConfig s .giveUp).1.reported = 1 := by
  refine ⟨uncountedRun.2, uncountedRun.1, Machine.run_exec _ _ (by decide), ?_⟩
  decide

end RogiCollector.Ports.BatchWriter
