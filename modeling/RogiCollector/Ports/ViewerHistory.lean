import Mathlib.Data.List.Chain
import RogiCollector.Verified.Machine
import RogiCollector.Ports.JournalSchema

/-!
# Viewer history of a channel

The viewer intervals of `discover/internal/history/emitter.go`, for one channel and
session: `ProcessDiscovered` opens an interval, extends it while the count stays the
same, and closes it when the count changes or the interval is older than five
minutes; `CommitEnded` and `FlushAll` close it, and `RecoverState` starts from the
database.  A closed interval is a row of ClickHouse.

The rows are to be a timeline: every poll belongs to one interval, an interval starts
with a poll, and one follows the other.  A recovered channel has a count but no
interval, and the first poll opens one only if it finds another count.  Until the
count changes nothing is recorded.  The same happens after `FlushAll`.
-/

namespace RogiCollector.Ports.ViewerHistory

open Verified
open Journal (Time second)

/-! ## Intervals -/

def maxIntervalAge : Nat := 300 * second

def boundedViewerCount (value : Int) : Nat :=
  if value ≤ 0 then 0 else if 4294967295 ≤ value then 4294967295 else value.toNat

def nonNegativeSessionSeq (value : Int) : Nat := if value ≤ 0 then 0 else value.toNat

/-- `viewerInterval`; `sampleCount` has sixteen bits. -/
structure ViewerInterval where
  validFrom : Time
  viewerCount : Nat
  minCount : Nat
  maxCount : Nat
  sampleCount : Nat
  deriving Repr, DecidableEq

def ViewerInterval.start (now : Time) (viewerCount : Int) : ViewerInterval where
  validFrom := now
  viewerCount := boundedViewerCount viewerCount
  minCount := boundedViewerCount viewerCount
  maxCount := boundedViewerCount viewerCount
  sampleCount := 1

def ViewerInterval.extend (i : ViewerInterval) (viewerCount : Int) : ViewerInterval :=
  { i with
    sampleCount := (i.sampleCount + 1) % 65536
    minCount := min (boundedViewerCount viewerCount) i.minCount
    maxCount := max (boundedViewerCount viewerCount) i.maxCount }

structure ViewerCountRow extends ViewerInterval where
  validTo : Time
  sessionSeq : Nat
  deriving Repr, DecidableEq

/-- Why an interval was closed. -/
inductive Cause
  | changed
  | aged
  | ended
  | flushed
  deriving Repr, DecidableEq

/-- The session was committed as ended, or flushed. -/
def Cause.final : Cause → Bool
  | .changed | .aged => false
  | .ended | .flushed => true

/-- A poll that saw the channel. -/
structure Poll where
  time : Time
  viewerCount : Int
  deriving Repr, DecidableEq

/-! ## Timelines -/

/-- The polls so far, the rows written for them with what closed them, and the
interval that is open. -/
structure Timeline where
  clock : Time
  polls : List Poll
  emitted : List (ViewerCountRow × Cause)
  current : Option ViewerInterval

namespace Timeline

def pass (t : Timeline) (now : Time) : Timeline := { t with clock := now }

def start (t : Timeline) (now : Time) (viewerCount : Int) : Timeline :=
  { t with
    clock := now
    polls := t.polls ++ [⟨now, viewerCount⟩]
    current := some (.start now viewerCount) }

def extend (t : Timeline) (i : ViewerInterval) (now : Time) (viewerCount : Int) : Timeline :=
  { t with
    clock := now
    polls := t.polls ++ [⟨now, viewerCount⟩]
    current := some (i.extend viewerCount) }

def close (t : Timeline) (seq : Int) (i : ViewerInterval) (now : Time) (cause : Cause) :
    Timeline :=
  { t with
    clock := now
    emitted := t.emitted ++ [(⟨i, now, nonNegativeSessionSeq seq⟩, cause)]
    current := none }

end Timeline

/-- The interval counts these polls, and starts with the first. -/
structure ViewerInterval.Counts (i : ViewerInterval) (polls : List Poll) : Prop where
  first : polls.head?.map Poll.time = some i.validFrom
  samples : i.sampleCount = polls.length
  after : ∀ p ∈ polls, i.validFrom ≤ p.time
  bounds : ∀ p ∈ polls, i.minCount ≤ boundedViewerCount p.viewerCount ∧
    boundedViewerCount p.viewerCount ≤ i.maxCount

/-- A row counts these polls, all of them before its end. -/
def ViewerCountRow.Counts (row : ViewerCountRow) (polls : List Poll) : Prop :=
  row.toViewerInterval.Counts polls ∧ ∀ p ∈ polls, p.time < row.validTo

/-- The polls fall into groups, one for each row and one for the open interval. -/
def Timeline.Counted (t : Timeline) : Prop :=
  ∃ groups last, t.polls = groups.flatten ++ last ∧
    List.Forall₂ (fun e group => ViewerCountRow.Counts e.1 group) t.emitted groups ∧
    match t.current with
    | some i => i.Counts last
    | none => last = []

/-- The intervals of a session without holes. -/
structure Timeline.Valid (seq : Int) (t : Timeline) : Prop where
  session : ∀ e ∈ t.emitted, e.1.sessionSeq = nonNegativeSessionSeq seq
  proper : ∀ e ∈ t.emitted, e.1.validFrom < e.1.validTo
  apart : t.emitted.Pairwise fun e e' => e.1.validTo ≤ e'.1.validFrom
  behind : ∀ i, t.current = some i → ∀ e ∈ t.emitted, e.1.validTo ≤ i.validFrom
  /-- A row begins where the one before ended, unless the session ended there. -/
  joined : t.emitted.IsChain fun e e' => e.2.final = false → e'.1.validFrom = e.1.validTo
  /-- And so does the open interval. -/
  continued : ∀ e, t.emitted.getLast? = some e → e.2.final = false →
    ∃ i, t.current = some i ∧ i.validFrom = e.1.validTo
  counted : t.Counted

/-- A timeline and its clock. -/
structure Timeline.Inv (seq : Int) (t : Timeline) : Prop extends t.Valid seq where
  polled : ∀ p ∈ t.polls, p.time ≤ t.clock
  written : ∀ e ∈ t.emitted, e.1.validTo ≤ t.clock
  opened : ∀ i, t.current = some i → i.validFrom ≤ t.clock

section Timeline

variable {seq : Int} {t : Timeline} {i : ViewerInterval} {now : Time} {viewerCount : Int}
  {cause : Cause}

theorem Timeline.Inv.init (seq : Int) : (⟨0, [], [], none⟩ : Timeline).Inv seq where
  session _ h := absurd h List.not_mem_nil
  proper _ h := absurd h List.not_mem_nil
  apart := List.Pairwise.nil
  behind _ h := by cases h
  joined := List.IsChain.nil
  continued _ h := by cases h
  counted := ⟨[], [], rfl, List.Forall₂.nil, rfl⟩
  polled _ h := absurd h List.not_mem_nil
  written _ h := absurd h List.not_mem_nil
  opened _ h := by cases h

theorem Timeline.Inv.pass (h : t.Inv seq) (hnow : t.clock < now) : (t.pass now).Inv seq where
  toValid := ⟨h.session, h.proper, h.apart, h.behind, h.joined, h.continued, h.counted⟩
  polled p hp := Nat.le_trans (h.polled p hp) (Nat.le_of_lt hnow)
  written e he := Nat.le_trans (h.written e he) (Nat.le_of_lt hnow)
  opened i hi := Nat.le_trans (h.opened i hi) (Nat.le_of_lt hnow)

theorem counts_start (now : Time) (viewerCount : Int) :
    (ViewerInterval.start now viewerCount).Counts [⟨now, viewerCount⟩] where
  first := rfl
  samples := rfl
  after p hp := by
    rw [List.mem_singleton.mp hp]
    exact Nat.le_refl _
  bounds p hp := by
    rw [List.mem_singleton.mp hp]
    exact ⟨Nat.le_refl _, Nat.le_refl _⟩

/-- Polls up to `now`, and one more at `now`. -/
theorem polled_snoc (hpolled : ∀ p ∈ t.polls, p.time ≤ t.clock) (hnow : t.clock ≤ now) :
    ∀ p ∈ t.polls ++ [⟨now, viewerCount⟩], p.time ≤ now := by
  intro p hp
  rcases List.mem_append.mp hp with hp | hp
  · exact Nat.le_trans (hpolled p hp) hnow
  · rw [List.mem_singleton.mp hp]

theorem Timeline.Counted.start (h : t.Counted) (hcurrent : t.current = none) :
    (t.start now viewerCount).Counted := by
  obtain ⟨groups, last, hpolls, hgroups, hrest⟩ := h
  rw [hcurrent] at hrest
  refine ⟨groups, [⟨now, viewerCount⟩], ?_, hgroups, counts_start now viewerCount⟩
  rw [Timeline.start, hpolls, hrest, List.append_nil]

/-- The row of an interval counts what the interval counted. -/
theorem Timeline.Counted.close (h : t.Counted) (hcurrent : t.current = some i)
    (hpolled : ∀ p ∈ t.polls, p.time < now) : (t.close seq i now cause).Counted := by
  obtain ⟨groups, last, hpolls, hgroups, hrest⟩ := h
  rw [hcurrent] at hrest
  refine ⟨groups ++ [last], [], ?_, ?_, rfl⟩
  · rw [Timeline.close, hpolls, List.flatten_append, List.flatten_singleton, List.append_nil]
  · refine List.rel_append hgroups (List.Forall₂.cons ⟨hrest, ?_⟩ List.Forall₂.nil)
    intro p hp
    exact hpolled p (hpolls ▸ List.mem_append_right _ hp)

/-- An interval starts when none is open. -/
theorem Timeline.Inv.start (h : t.Inv seq) (hcurrent : t.current = none) (hnow : t.clock ≤ now) :
    (t.start now viewerCount).Inv seq where
  session := h.session
  proper := h.proper
  apart := h.apart
  behind i hi e he := by
    cases hi
    exact Nat.le_trans (h.written e he) hnow
  joined := h.joined
  continued e he hfinal := by
    obtain ⟨i, hi, -⟩ := h.continued e he hfinal
    rw [hcurrent] at hi
    cases hi
  counted := h.counted.start hcurrent
  polled := polled_snoc h.polled hnow
  written e he := Nat.le_trans (h.written e he) hnow
  opened i hi := by
    cases hi
    exact Nat.le_refl _

theorem ViewerInterval.Counts.extend {polls : List Poll} (h : i.Counts polls)
    (hlater : i.validFrom ≤ now) (hroom : i.sampleCount < 65535) :
    (i.extend viewerCount).Counts (polls ++ [⟨now, viewerCount⟩]) where
  first := by
    have hne : polls ≠ [] := by
      rintro rfl
      cases h.first
    rw [List.head?_append_of_ne_nil _ hne]
    exact h.first
  samples := by
    simp only [ViewerInterval.extend, List.length_append, List.length_singleton, ← h.samples]
    omega
  after p hp := by
    rcases List.mem_append.mp hp with hp | hp
    · exact h.after p hp
    · rw [List.mem_singleton.mp hp]
      exact hlater
  bounds p hp := by
    simp only [ViewerInterval.extend]
    rcases List.mem_append.mp hp with hp | hp
    · have := h.bounds p hp
      omega
    · rw [List.mem_singleton.mp hp]
      exact ⟨Nat.min_le_left _ _, Nat.le_max_left _ _⟩

/-- The open interval gets one more poll. -/
theorem Timeline.Inv.extend (h : t.Inv seq) (hcurrent : t.current = some i) (hnow : t.clock ≤ now)
    (hroom : i.sampleCount < 65535) : (t.extend i now viewerCount).Inv seq where
  session := h.session
  proper := h.proper
  apart := h.apart
  behind i' hi' e he := by
    cases hi'
    exact h.behind i hcurrent e he
  joined := h.joined
  continued e he hfinal := by
    obtain ⟨i', hi', hfrom⟩ := h.continued e he hfinal
    rw [hcurrent] at hi'
    cases hi'
    exact ⟨_, rfl, hfrom⟩
  counted := by
    obtain ⟨groups, last, hpolls, hgroups, hrest⟩ := h.counted
    rw [hcurrent] at hrest
    have hlater := Nat.le_trans (h.opened i hcurrent) hnow
    have hcounts : (i.extend viewerCount).Counts (last ++ [⟨now, viewerCount⟩]) :=
      hrest.extend hlater hroom
    refine ⟨groups, last ++ [(⟨now, viewerCount⟩ : Poll)], ?_, hgroups, hcounts⟩
    rw [Timeline.extend, hpolls, List.append_assoc]
  polled := polled_snoc h.polled hnow
  written e he := Nat.le_trans (h.written e he) hnow
  opened i' hi' := by
    cases hi'
    exact Nat.le_trans (h.opened i hcurrent) hnow

/-- What a new row, from the open interval up to `now`, is to those before it; it is
later than every poll. -/
theorem Timeline.Inv.close_rows (h : t.Inv seq) (hcurrent : t.current = some i)
    (hnow : t.clock < now) :
    (∀ e ∈ (t.close seq i now cause).emitted, e.1.sessionSeq = nonNegativeSessionSeq seq ∧
      e.1.validFrom < e.1.validTo ∧ e.1.validTo ≤ now) ∧
    ((t.close seq i now cause).emitted.Pairwise fun e e' => e.1.validTo ≤ e'.1.validFrom) ∧
    ((t.close seq i now cause).emitted.IsChain fun e e' =>
      e.2.final = false → e'.1.validFrom = e.1.validTo) ∧ ∀ p ∈ t.polls, p.time < now := by
  refine ⟨?_, ?_, ?_, fun p hp => Nat.lt_of_le_of_lt (h.polled p hp) hnow⟩
  · intro e he
    rcases List.mem_append.mp he with he | he
    · have hwritten := Nat.le_trans (h.written e he) (Nat.le_of_lt hnow)
      exact ⟨h.session e he, h.proper e he, hwritten⟩
    · rw [List.mem_singleton.mp he]
      exact ⟨rfl, Nat.lt_of_le_of_lt (h.opened i hcurrent) hnow, Nat.le_refl _⟩
  · refine List.pairwise_append.mpr ⟨h.apart, List.pairwise_singleton _ _, ?_⟩
    intro e he e' he'
    rw [List.mem_singleton.mp he']
    exact h.behind i hcurrent e he
  · refine List.isChain_append.mpr ⟨h.joined, List.isChain_singleton _, ?_⟩
    intro e he e' he' hfinal
    obtain ⟨i', hi', hfrom⟩ := h.continued e he hfinal
    rw [hcurrent] at hi'
    cases hi'
    cases he'
    exact hfrom

/-- The session ends, or is flushed. -/
theorem Timeline.Inv.close (h : t.Inv seq) (hcurrent : t.current = some i) (hnow : t.clock < now)
    (hfinal : cause.final = true) : (t.close seq i now cause).Inv seq := by
  obtain ⟨hrows, hapart, hjoined, hpolled⟩ := h.close_rows hcurrent hnow
  refine
    { session := fun e he => (hrows e he).1
      proper := fun e he => (hrows e he).2.1
      apart := hapart
      behind := fun _ hi => by cases hi
      joined := hjoined
      continued := ?_
      counted := h.counted.close hcurrent hpolled
      polled := fun p hp => Nat.le_of_lt (hpolled p hp)
      written := fun e he => (hrows e he).2.2
      opened := fun _ hi => by cases hi }
  intro e he hnot
  rw [Timeline.close, List.getLast?_concat] at he
  cases he
  rw [hfinal] at hnot
  cases hnot

/-- The open interval is closed and the next one starts. -/
theorem Timeline.Inv.next (h : t.Inv seq) (hcurrent : t.current = some i) (hnow : t.clock < now) :
    ((t.close seq i now cause).start now viewerCount).Inv seq := by
  obtain ⟨hrows, hapart, hjoined, hpolled⟩ := h.close_rows hcurrent hnow
  refine
    { session := fun e he => (hrows e he).1
      proper := fun e he => (hrows e he).2.1
      apart := hapart
      behind := ?_
      joined := hjoined
      continued := ?_
      counted := (h.counted.close hcurrent hpolled).start rfl
      polled := polled_snoc (t := t) h.polled (Nat.le_of_lt hnow)
      written := fun e he => (hrows e he).2.2
      opened := ?_ }
  · intro i' hi' e he
    cases hi'
    exact (hrows e he).2.2
  · intro e he _
    rw [Timeline.start, Timeline.close, List.getLast?_concat] at he
    cases he
    exact ⟨_, rfl, rfl⟩
  · intro i' hi'
    cases hi'
    exact Nat.le_refl _

end Timeline

/-! ## The emitter -/

/-- `channelState` without the metadata hash and the missed polls. -/
structure ChannelState where
  sessionSeq : Int
  viewerCount : Int
  lastInterval : Option ViewerInterval
  deriving Repr, DecidableEq

/-- What `ProcessDiscovered` has of the channel: the result of the upsert, the count,
and whether the two inserts for a new channel succeed. -/
structure Seen where
  isInsert : Bool
  viewerCount : Int
  insertSession : Bool
  insertMetadata : Bool
  deriving Repr, DecidableEq

/-- What `RecoverState` finds: an error, or the channel with the count it is given
(`none` without an open session). -/
inductive Recovery
  | failed
  | found (viewerCount : Option Int)
  deriving Repr, DecidableEq

inductive Input
  | processDiscovered (now : Time) (seen : Option Seen)
  /-- `listed` if the channel is among the ended ones, `closed` if `CloseSession` succeeds. -/
  | commitEnded (now : Time) (listed closed : Bool)
  | recoverState (now : Time) (recovery : Recovery)
  | flushAll (now : Time)
  deriving Repr, DecidableEq

def Input.now : Input → Time
  | .processDiscovered now _ | .commitEnded now _ _ | .recoverState now _ | .flushAll now => now

/-- The entry of the channel in the emitter's map, the rows written, and the polls. -/
structure State where
  clock : Time
  polls : List Poll
  emitted : List (ViewerCountRow × Cause)
  channel : Option ChannelState

def State.init : State := ⟨0, [], [], none⟩

/-- `flushViewerInterval`: the rows after it. -/
def State.flushViewerInterval (s : State) (st : ChannelState) (now : Time) (cause : Cause) :
    List (ViewerCountRow × Cause) :=
  match st.lastInterval with
  | none => s.emitted
  | some i => s.emitted ++ [(⟨i, now, nonNegativeSessionSeq st.sessionSeq⟩, cause)]

/-- `ProcessDiscovered` for the channel, when it is in the list. -/
def State.observe (seq : Int) (s : State) (now : Time) (seen : Seen) : State :=
  match seen.isInsert, s.channel with
  | false, some st =>
    let next := { st with
      viewerCount := seen.viewerCount
      lastInterval := some (.start now seen.viewerCount) }
    if seen.viewerCount ≠ st.viewerCount then
      { s with emitted := s.flushViewerInterval st now .changed, channel := some next }
    else
      match st.lastInterval with
      | none => s
      | some i =>
        if maxIntervalAge < now - i.validFrom then
          { s with emitted := s.flushViewerInterval st now .aged, channel := some next }
        else
          { s with
            channel := some { st with lastInterval := some (i.extend seen.viewerCount) } }
  | _, _ =>
    if seen.insertSession ∧ seen.insertMetadata then
      { s with channel := some ⟨seq, seen.viewerCount, some (.start now seen.viewerCount)⟩ }
    else s

def step (seq : Int) (s : State) : Input → State
  | .processDiscovered now none => { s with clock := now }
  | .processDiscovered now (some seen) =>
    { s.observe seq now seen with
      clock := now
      polls := s.polls ++ [⟨now, seen.viewerCount⟩] }
  | .commitEnded now listed closed =>
    match s.channel with
    | some st =>
      if listed ∧ closed then
        { s with
          clock := now
          emitted := s.flushViewerInterval st now .ended
          channel := none }
      else { s with clock := now }
    | none => { s with clock := now }
  | .recoverState now .failed => { s with clock := now }
  | .recoverState now (.found found) =>
    { s with clock := now, channel := found.map fun viewerCount => ⟨seq, viewerCount, none⟩ }
  | .flushAll now =>
    match s.channel with
    | some st =>
      { s with
        clock := now
        emitted := s.flushViewerInterval st now .flushed
        channel := some { st with lastInterval := none } }
    | none => { s with clock := now }

/-- One channel and session; the clock increases. -/
def machine (seq : Int) : Machine State Input Unit where
  admits s i := s.clock < i.now
  step s i := (step seq s i, ())

instance (seq : Int) (s : State) (i : Input) : Decidable ((machine seq).admits s i) :=
  inferInstanceAs (Decidable (_ < _))

def State.current (s : State) : Option ViewerInterval := s.channel.bind ChannelState.lastInterval

def State.timeline (s : State) : Timeline := ⟨s.clock, s.polls, s.emitted, s.current⟩

/-- A poll that gets into an interval: of a new channel, it opens one; of a channel
without an interval, it has to find another count. -/
def recorded (s : State) (now : Time) (seen : Seen) : Bool :=
  match seen.isInsert, s.channel with
  | false, some st =>
    seen.viewerCount ≠ st.viewerCount ||
      st.lastInterval.any fun i => maxIntervalAge < now - i.validFrom || i.sampleCount < 65535
  | _, _ => seen.insertSession && seen.insertMetadata && s.current.isNone

/-- No poll is lost: those that see the channel are recorded, and a recovery finds no
open interval. -/
def lossless (s : State) : Input → Bool
  | .processDiscovered now (some seen) => recorded s now seen
  | .recoverState _ (.found _) => s.current.isNone
  | _ => true

/-! ## The emitter keeps a timeline -/

/-- What a step does to the timeline. -/
inductive TimelineStep (seq : Int) (t : Timeline) (now : Time) : Timeline → Prop
  | pass : TimelineStep seq t now (t.pass now)
  | start (viewerCount : Int) (hcurrent : t.current = none) :
      TimelineStep seq t now (t.start now viewerCount)
  | extend (i : ViewerInterval) (viewerCount : Int) (hcurrent : t.current = some i)
      (hroom : i.sampleCount < 65535) : TimelineStep seq t now (t.extend i now viewerCount)
  | close (i : ViewerInterval) (cause : Cause) (hcurrent : t.current = some i)
      (hfinal : cause.final = true) : TimelineStep seq t now (t.close seq i now cause)
  | next (i : ViewerInterval) (cause : Cause) (viewerCount : Int) (hcurrent : t.current = some i) :
      TimelineStep seq t now ((t.close seq i now cause).start now viewerCount)

theorem Timeline.Inv.step {seq : Int} {t t' : Timeline} {now : Time} (h : t.Inv seq)
    (hnow : t.clock < now) (hstep : TimelineStep seq t now t') : t'.Inv seq := by
  cases hstep with
  | pass => exact h.pass hnow
  | start viewerCount hcurrent => exact h.start hcurrent (Nat.le_of_lt hnow)
  | extend i viewerCount hcurrent hroom => exact h.extend hcurrent (Nat.le_of_lt hnow) hroom
  | close i cause hcurrent hfinal => exact h.close hcurrent hnow hfinal
  | next i cause viewerCount hcurrent => exact h.next hcurrent hnow

section Emitter

variable {seq : Int} {s : State} {now : Time}

/-- The entry of the channel is about the session. -/
def State.Tracks (seq : Int) (s : State) : Prop :=
  ∀ st, s.channel = some st → st.sessionSeq = seq

/-- A poll of a channel that is tracked. -/
theorem observe_tracked {st : ChannelState} (hchannel : s.channel = some st)
    (hseq : st.sessionSeq = seq) {seen : Seen} (hinsert : seen.isInsert = false)
    (hrecorded : recorded s now seen = true) :
    TimelineStep seq s.timeline now (step seq s (.processDiscovered now (some seen))).timeline ∧
      (step seq s (.processDiscovered now (some seen))).Tracks seq := by
  obtain ⟨clock, polls, emitted, channel⟩ := s
  obtain ⟨isInsert, viewerCount, insertSession, insertMetadata⟩ := seen
  obtain ⟨sessionSeq, count, lastInterval⟩ := st
  subst hchannel hinsert hseq
  simp only [step, State.observe]
  by_cases hcount : viewerCount ≠ count
  · rw [if_pos hcount]
    refine ⟨?_, fun st hst => by cases hst; rfl⟩
    cases lastInterval with
    | none => exact .start viewerCount rfl
    | some i => exact .next i .changed viewerCount rfl
  · rw [if_neg hcount]
    cases lastInterval with
    | none => simp [recorded, not_not.mp hcount] at hrecorded
    | some i =>
      simp only
      by_cases hage : maxIntervalAge < now - i.validFrom
      · rw [if_pos hage]
        exact ⟨.next i .aged viewerCount rfl, fun st hst => by cases hst; rfl⟩
      · rw [if_neg hage]
        have hroom : i.sampleCount < 65535 := by
          simpa [recorded, not_not.mp hcount, hage] using hrecorded
        exact ⟨.extend i viewerCount rfl hroom, fun st hst => by cases hst; rfl⟩

/-- A poll that opens the first interval. -/
theorem observe_new {seen : Seen} (hnew : seen.isInsert = true ∨ s.channel = none)
    (hrecorded : recorded s now seen = true) :
    TimelineStep seq s.timeline now (step seq s (.processDiscovered now (some seen))).timeline ∧
      (step seq s (.processDiscovered now (some seen))).Tracks seq := by
  have hobserve : s.observe seq now seen =
      if seen.insertSession ∧ seen.insertMetadata then
        { s with channel := some ⟨seq, seen.viewerCount, some (.start now seen.viewerCount)⟩ }
      else s := by
    rw [State.observe]
    split
    · rename_i st hinsert hchannel
      rw [hinsert, hchannel] at hnew
      simp at hnew
    · rfl
  have hopen : (seen.insertSession = true ∧ seen.insertMetadata = true) ∧ s.current = none := by
    rw [recorded] at hrecorded
    split at hrecorded
    · rename_i st hinsert hchannel
      rw [hinsert, hchannel] at hnew
      simp at hnew
    · simpa using hrecorded
  simp only [step, hobserve, if_pos hopen.1]
  exact ⟨.start seen.viewerCount hopen.2, fun st hst => by cases hst; rfl⟩

/-- Closing the interval of the channel, if it has one. -/
theorem flush_timeline {st : ChannelState} (hchannel : s.channel = some st)
    (hseq : st.sessionSeq = seq) {cause : Cause} (hfinal : cause.final = true)
    {channel : Option ChannelState}
    (hclosed : channel.bind ChannelState.lastInterval = none) :
    TimelineStep seq s.timeline now
      (State.timeline ⟨now, s.polls, s.flushViewerInterval st now cause, channel⟩) := by
  have hcurrent : s.timeline.current = st.lastInterval := by
    simp only [State.timeline, State.current, hchannel, Option.bind_some]
  simp only [State.timeline, State.current, hclosed, State.flushViewerInterval] at hcurrent ⊢
  cases hlast : st.lastInterval with
  | none =>
    rw [hlast] at hcurrent
    have hpass : TimelineStep seq s.timeline now (s.timeline.pass now) := .pass
    simpa only [Timeline.pass, State.timeline, State.current, hcurrent] using hpass
  | some i =>
    rw [hlast] at hcurrent
    subst hseq
    exact .close i cause hcurrent hfinal

theorem step_timeline (htracks : s.Tracks seq) {i : Input} (hlossless : lossless s i = true) :
    TimelineStep seq s.timeline i.now (step seq s i).timeline ∧ (step seq s i).Tracks seq := by
  have hpass : ∀ now, TimelineStep seq s.timeline now { s with clock := now }.timeline ∧
      { s with clock := now }.Tracks seq := fun _ => ⟨.pass, htracks⟩
  cases i with
  | processDiscovered now seen =>
    cases seen with
    | none => exact hpass now
    | some seen =>
      cases hchannel : s.channel with
      | none => exact observe_new (.inr hchannel) hlossless
      | some st =>
        cases hinsert : seen.isInsert with
        | true => exact observe_new (.inl hinsert) hlossless
        | false => exact observe_tracked hchannel (htracks st hchannel) hinsert hlossless
  | commitEnded now listed closed =>
    rw [step]
    split
    · rename_i st hchannel
      split
      · refine ⟨flush_timeline hchannel (htracks st hchannel) rfl rfl, ?_⟩
        intro st' hst'
        cases hst'
      · exact hpass now
    · exact hpass now
  | recoverState now recovery =>
    cases recovery with
    | failed => exact hpass now
    | found found =>
      have hcurrent : s.current = none := Option.isNone_iff_eq_none.mp hlossless
      refine ⟨?_, ?_⟩
      · have hfound : (step seq s (.recoverState now (.found found))).timeline =
            s.timeline.pass now := by
          simp only [step, State.timeline, Timeline.pass, hcurrent]
          cases found <;> rfl
        exact hfound ▸ .pass
      · intro st hst
        obtain ⟨viewerCount, -, rfl⟩ := Option.map_eq_some_iff.mp hst
        rfl
  | flushAll now =>
    rw [step]
    split
    · rename_i st hchannel
      refine ⟨flush_timeline hchannel (htracks st hchannel) rfl rfl, ?_⟩
      intro st' hst'
      cases hst'
      exact htracks st hchannel
    · exact hpass now

end Emitter

/-! ## Every run -/

theorem viewer_history (seq : Int) (tr : List (Input × Unit)) (s : State)
    (hr : ((machine seq).restrict fun s i => lossless s i = true).Run State.init tr s) :
    s.timeline.Valid seq := by
  have hstep : ∀ (s : State) i, s.timeline.Inv seq ∧ s.Tracks seq →
      s.clock < i.now ∧ lossless s i = true →
      (step seq s i).timeline.Inv seq ∧ (step seq s i).Tracks seq := by
    intro s i h hi
    obtain ⟨htimeline, htracks⟩ := step_timeline h.2 hi.2
    exact ⟨h.1.step hi.1 htimeline, htracks⟩
  have hinit : State.init.timeline.Inv seq ∧ State.init.Tracks seq := by
    refine ⟨Timeline.Inv.init seq, ?_⟩
    intro st hst
    cases hst
  exact (hr.invariant hstep hinit).1.toValid

/-- A poll of a channel that is listed already. -/
def seenAgain (viewerCount : Int) : Option Seen := some ⟨false, viewerCount, true, true⟩

/-- Polls with one change, a flush, a recovery that finds an older count, and the end. -/
def recoveredRun : State × List (Input × Unit) :=
  ((machine 1).restrict fun s i => lossless s i = true).exec State.init
    [ .processDiscovered 100 (some ⟨true, 5, true, true⟩), .processDiscovered 200 (seenAgain 5)
    , .processDiscovered 300 (seenAgain 8), .processDiscovered 400 none, .flushAll 500
    , .recoverState 600 (.found (some 8)), .processDiscovered 700 (seenAgain 9)
    , .processDiscovered 800 (seenAgain 9), .commitEnded 900 true true ]

theorem viewer_history_recovered :
    (recoveredRun.1.emitted.map fun e => (e.1.validFrom, e.1.validTo, e.1.sampleCount)) =
        [(100, 300, 2), (300, 500, 1), (700, 900, 2)] ∧
      recoveredRun.1.timeline.Valid 1 := by
  have hrun : ((machine 1).restrict fun s i => lossless s i = true).Run State.init
      recoveredRun.2 recoveredRun.1 := Machine.run_exec _ _ (by decide)
  exact ⟨by decide, viewer_history 1 _ _ hrun⟩

/-- All polls are counted somewhere. -/
theorem Timeline.Counted.length {t : Timeline} (h : t.Counted) :
    t.polls.length = (t.emitted.map fun e => e.1.sampleCount).sum +
      t.current.elim 0 ViewerInterval.sampleCount := by
  obtain ⟨groups, last, hpolls, hgroups, hrest⟩ := h
  have hrows : groups.flatten.length = (t.emitted.map fun e => e.1.sampleCount).sum := by
    clear hpolls
    generalize t.emitted = emitted at hgroups
    induction hgroups with
    | nil => rfl
    | cons hcounts _ ih =>
      rw [List.flatten_cons, List.length_append, List.map_cons, List.sum_cons, ih,
        hcounts.1.samples]
  have hlast : last.length = t.current.elim 0 ViewerInterval.sampleCount := by
    cases hcurrent : t.current with
    | none =>
      rw [hcurrent] at hrest
      rw [hrest]
      rfl
    | some i =>
      rw [hcurrent] at hrest
      exact hrest.samples.symm
  rw [hpolls, List.length_append, hrows, hlast]

/-- The leader changes, and the count is the same before and after. -/
def unrecordedRun : State × List (Input × Unit) :=
  (machine 1).exec State.init
    [ .processDiscovered 100 (some ⟨true, 5, true, true⟩), .flushAll 200
    , .recoverState 300 (.found (some 5)), .processDiscovered 400 (seenAgain 5)
    , .processDiscovered 500 (seenAgain 5) ]

/-- The two polls after the recovery are in no interval. -/
theorem recovered_unrecorded :
    (machine 1).Run State.init unrecordedRun.2 unrecordedRun.1 ∧
      unrecordedRun.1.current = none ∧ unrecordedRun.1.emitted.length = 1 ∧
      ¬unrecordedRun.1.timeline.Valid 1 := by
  refine ⟨Machine.run_exec _ _ (by decide), by decide, by decide, ?_⟩
  intro h
  have hlength := h.counted.length
  revert hlength
  decide

end RogiCollector.Ports.ViewerHistory
