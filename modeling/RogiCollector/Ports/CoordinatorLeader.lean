import RogiCollector.Verified.Processes
import RogiCollector.Ports.LeaderLease

/-!
# The leader of the coordinators

`LeaderElection` of `coordinator/internal/leader.go` with the callbacks of
`coordinator.go`: any number of instances, each with a ticker of one second that
acquires or renews a lease of five, and the loops that run while it leads.  A call of
Redis takes at most a second; its script runs at any time during the call, or later
when the caller has given up, or not at all.  Once they are cancelled, the loops run
for at most `stop` more.

The callbacks run on the goroutine that renews.  `onBecomeLeader` starts the loops
after two steps that may take ten seconds each, twice the lease and more: when they
are over, another instance may lead, and nobody asks Redis before the loops start.
The next renewal is refused, so the loops do not live to see their first assignment
cycle, five seconds later.
-/

namespace RogiCollector.Ports.CoordinatorLeader

open Verified
open LeaderLease

/-! ## An instance -/

def second : Int := 1000000000

/-- `ttl` of `NewLeaderElection`. -/
def ttl : Int := 5 * second

/-- The next tick of a ticker after the one of `tick` is received at `now`; those in
between were dropped. -/
def nextTickAfter (period tick now : Int) : Int := tick + ((now - tick) / period + 1) * period

/-- The calls of `cleanupZombieChannels` and `resumeDrainingHandoffs`. -/
inductive StartupCall
  | unassignDeadWorkerChannels
  | listWorkersByStatus
  | listPendingHandoffs
  | publishWorkerCommand
  deriving DecidableEq

/-- Which call may come after one, depending on the tables; `none` is the end. -/
def StartupCall.follows : StartupCall → Option StartupCall → Bool
  | .unassignDeadWorkerChannels, next => next = some .listWorkersByStatus
  | .listWorkersByStatus, next => next = none || next = some .listPendingHandoffs
  | .listPendingHandoffs, next | .publishWorkerCommand, next =>
    next = none || next = some .listPendingHandoffs || next = some .publishWorkerCommand

inductive Phase
  /-- In the `select` of `Run`. -/
  | waiting
  /-- In a call of Redis since `startedAt`; `answer` is there when the script has run. -/
  | acquiring (startedAt : Int) (answer : Option (Option LeaderLeaseResult))
  /-- In `onBecomeLeader`, in a call with the deadline of its context. -/
  | starting (call : StartupCall) (callStartedAt deadline : Int)
  | renewing (startedAt : Int) (answer : Option (Option LeaderLeaseResult))
  /-- In the `wg.Wait` of `onLoseLeadership`; `final` when `Run` returns after it. -/
  | losing (lostAt : Int) (final : Bool)
  | stopped

/-- The loops, and the next tick of `assignmentLoop`. -/
structure Loops where
  startedAt : Int
  nextCycle : Int

/-- `since` is when the last call started that was answered with a lease. -/
structure Instance where
  isLeader : Bool
  nextTick : Int
  since : Int
  loops : Option Loops
  phase : Phase

/-- An instance before its first tick. -/
def Instance.init (nextTick : Int) : Instance := ⟨false, nextTick, 0, none, .waiting⟩

/-- `tryAcquire` after its call. -/
def Instance.acquired (p : Instance) (now startedAt : Int) (answer : Option LeaderLeaseResult) :
    Instance :=
  match answer with
  | some ⟨true, _⟩ =>
    { p with
      isLeader := true
      since := startedAt
      phase := .starting .unassignDeadWorkerChannels now (now + 10 * second) }
  | _ => { p with phase := .waiting }

/-- `loseLeadership`, up to the wait for the loops. -/
def Instance.loseLeadership (p : Instance) (now : Int) (final : Bool) : Instance :=
  { p with isLeader := false, phase := .losing now final }

/-- `tryRenew` after its call. -/
def Instance.renewed (p : Instance) (now startedAt : Int) (answer : Option LeaderLeaseResult) :
    Instance :=
  match answer with
  | some ⟨true, _⟩ => { p with since := startedAt, phase := .waiting }
  | _ => p.loseLeadership now false

/-- A call of `onBecomeLeader` is over. -/
def Instance.started (p : Instance) (now : Int) (call : StartupCall) (deadline : Int) :
    Option StartupCall → Instance
  | some next =>
    { p with
      phase := .starting next now
        (if call = .unassignDeadWorkerChannels then now + 10 * second else deadline) }
  | none => { p with loops := some ⟨now, now + 5 * second⟩, phase := .waiting }

inductive Action
  /-- The tick of the election. -/
  | fire
  /-- Redis runs the script of the call. -/
  | script
  /-- The answer arrives. -/
  | reply
  /-- The call fails. -/
  | fail
  /-- A call of the start-up returns, and what comes next. -/
  | returns (next : Option StartupCall)
  /-- `assignmentLoop` starts a cycle. -/
  | cycle
  /-- All loops have returned. -/
  | loopsDone
  /-- The context of `Run` is cancelled. -/
  | cancel

/-- A cycle starts on a tick, also on one that is due when the loops are cancelled. -/
def Instance.cycle (p : Instance) (now : Int) : Instance :=
  { p with
    loops := p.loops.map fun l =>
      { l with nextCycle := nextTickAfter (5 * second) l.nextCycle now } }

/-- The election of one instance. -/
def elect (id : String) (k : Keys) (p : Instance) (a : Action) : Keys × Instance :=
  let now : Int := k.now
  match p.phase with
  | .waiting =>
    match a with
    | .fire =>
      (k, { p with
            nextTick := nextTickAfter second p.nextTick now
            phase := if p.isLeader then .renewing now none else .acquiring now none })
    | .cancel =>
      (k, if p.isLeader then p.loseLeadership now true else { p with phase := .stopped })
    | _ => (k, p)
  | .acquiring startedAt answer =>
    match a with
    | .script =>
      let out := tryAcquireLeaderLease k id ttl
      (out.1, { p with phase := .acquiring startedAt (some out.2) })
    | .reply => (k, p.acquired now startedAt answer.join)
    | .fail => (k, p.acquired now startedAt none)
    | _ => (k, p)
  | .starting call _ deadline =>
    match a with
    | .returns next => (k, p.started now call deadline next)
    | _ => (k, p)
  | .renewing startedAt answer =>
    match a with
    | .script =>
      let out := renewLeaderLease k id ttl
      (out.1, { p with phase := .renewing startedAt (some out.2) })
    | .reply => (k, p.renewed now startedAt answer.join)
    | .fail => (k, p.renewed now startedAt none)
    | _ => (k, p)
  | .losing _ final =>
    match a with
    | .loopsDone => (k, { p with loops := none, phase := if final then .stopped else .waiting })
    | _ => (k, p)
  | .stopped => (k, p)

def act (id : String) (k : Keys) (p : Instance) : Action → Keys × Instance
  | .cycle => (k, p.cycle k.now)
  | a => elect id k p a

/-- What the election can do. -/
def electing (k : Keys) (p : Instance) (a : Action) : Bool :=
  match p.phase with
  | .waiting =>
    match a with
    | .fire => p.nextTick ≤ k.now
    | .cancel => true
    | _ => false
  | .acquiring _ answer | .renewing _ answer =>
    match a with
    | .script => answer.isNone
    | .reply => answer.isSome
    | .fail => true
    | _ => false
  | .starting call _ _ =>
    match a with
    | .returns next => call.follows next
    | _ => false
  | .losing _ _ =>
    match a with
    | .loopsDone => true
    | _ => false
  | .stopped => false

def enabled (_ : String) (k : Keys) (p : Instance) : Action → Bool
  | .cycle => p.loops.any fun l => decide (l.nextCycle ≤ (k.now : Int))
  | a => electing k p a

/-- Time does not pass over a tick of a leader, nor over the longest time a call or
the cancelled loops can take. -/
def waits (stop : Nat) (_ : String) (k : Keys) (p : Instance) (d : Nat) : Bool :=
  match p.phase with
  | .waiting => !p.isLeader || k.now + d ≤ p.nextTick
  | .acquiring startedAt _ | .renewing startedAt _ => k.now + d ≤ startedAt + second
  | .starting call callStartedAt deadline =>
    match call with
    | .publishWorkerCommand => k.now + d ≤ callStartedAt + second
    | _ => k.now + d ≤ max callStartedAt deadline
  | .losing lostAt _ => k.now + d ≤ lostAt + stop
  | .stopped => true

/-- Instances around the keys; cancelled loops take at most `stop`. -/
def system (stop : Nat) : Processes String Keys Instance Action Late where
  enabled := enabled
  act := act
  stray := late fun _ => ttl
  waits := waits stop
  elapse := Keys.tick

/-! ## The loops run under the lease -/

/-- The start-up ended early enough: when the loops start at `startedAt`, a renewal
that fails and the end of the loops still fit into the lease. -/
def inTime (stop : Nat) (since startedAt : Int) : Bool :=
  startedAt + second + stop ≤ since + ttl

/-- When an instance with loops is back in the `select` at the latest. -/
def Instance.rest (p : Instance) (l : Loops) : Int := max l.startedAt (p.since + second)

/-- The loops of an instance, and its lease if they started in time. -/
structure Held (stop : Nat) (id : String) (k : Keys) (p : Instance) (l : Loops) : Prop where
  loops : p.loops = some l
  since : p.since ≤ k.now
  started : l.startedAt ≤ k.now
  cycle : l.startedAt + 5 * second ≤ l.nextCycle
  lease : inTime stop p.since l.startedAt = true → k.Leads id (p.since + ttl)

/-- A call of Redis that has not timed out. -/
structure Call (k : Keys) (p : Instance) (startedAt : Int) : Prop where
  started : startedAt ≤ k.now
  within : k.now ≤ startedAt + second
  nextTick : p.nextTick ≤ startedAt + second

/-- A lease that Redis has granted to the call. -/
def Answered (id : String) (k : Keys) (startedAt : Int)
    (answer : Option (Option LeaderLeaseResult)) : Prop :=
  ∀ token, answer.join = some ⟨true, token⟩ → k.Leads id (startedAt + ttl)

/-- An instance and the keys. -/
inductive Steady (stop : Nat) (id : String) (k : Keys) (p : Instance) : Prop
  | idle (hphase : p.phase = .waiting ∨ p.phase = .stopped) (hleader : p.isLeader = false)
      (hloops : p.loops = none)
  | acquiring (startedAt : Int) (answer : Option (Option LeaderLeaseResult))
      (hphase : p.phase = .acquiring startedAt answer) (hleader : p.isLeader = false)
      (hloops : p.loops = none) (hcall : Call k p startedAt)
      (hanswered : Answered id k startedAt answer)
  | starting (call : StartupCall) (callStartedAt deadline : Int)
      (hphase : p.phase = .starting call callStartedAt deadline) (hleader : p.isLeader = true)
      (hloops : p.loops = none) (hsince : p.since ≤ k.now)
      (htick : p.nextTick ≤ p.since + second)
      (hlease : k.now ≤ p.since + ttl → k.Leads id (p.since + ttl))
  | waiting (l : Loops) (hphase : p.phase = .waiting) (hleader : p.isLeader = true)
      (hheld : Held stop id k p l) (htick : p.nextTick ≤ p.since + second)
      (hnow : k.now ≤ p.rest l)
  | renewing (l : Loops) (startedAt : Int) (answer : Option (Option LeaderLeaseResult))
      (hphase : p.phase = .renewing startedAt answer) (hleader : p.isLeader = true)
      (hheld : Held stop id k p l) (hstart : startedAt ≤ p.rest l) (hsince : p.since ≤ startedAt)
      (hcall : Call k p startedAt) (hanswered : Answered id k startedAt answer)
  | losing (l : Loops) (lostAt : Int) (final : Bool) (hphase : p.phase = .losing lostAt final)
      (hleader : p.isLeader = false) (hheld : Held stop id k p l)
      (hlost : lostAt ≤ p.rest l + second) (hnow : k.now ≤ lostAt + stop)

section Steady

variable {stop : Nat} {id : String} {k k' : Keys} {p : Instance} {l : Loops}

theorem Held.frame (h : Held stop id k p l) (hnow : k'.now = k.now)
    (hkeeps : ∀ t, k.Leads id t → k'.Leads id t) : Held stop id k' p l where
  loops := h.loops
  since := hnow ▸ h.since
  started := hnow ▸ h.started
  cycle := h.cycle
  lease hin := hkeeps _ (h.lease hin)

variable {startedAt : Int}

theorem Call.frame (h : Call k p startedAt) (hnow : k'.now = k.now) : Call k' p startedAt :=
  ⟨hnow ▸ h.started, hnow ▸ h.within, h.nextTick⟩

theorem Answered.frame {answer : Option (Option LeaderLeaseResult)}
    (h : Answered id k startedAt answer) (hkeeps : ∀ t, k.Leads id t → k'.Leads id t) :
    Answered id k' startedAt answer :=
  fun token htoken => hkeeps _ (h token htoken)

/-- What others do to the keys. -/
theorem Steady.frame (h : Steady stop id k p) (hnow : k'.now = k.now)
    (hkeeps : ∀ t, k.Leads id t → k'.Leads id t) : Steady stop id k' p := by
  cases h with
  | idle hphase hleader hloops => exact .idle hphase hleader hloops
  | acquiring startedAt answer hphase hleader hloops hcall hanswered =>
    exact .acquiring startedAt answer hphase hleader hloops (hcall.frame hnow)
      (hanswered.frame hkeeps)
  | starting call callStartedAt deadline hphase hleader hloops hsince htick hlease =>
    exact .starting call callStartedAt deadline hphase hleader hloops (hnow ▸ hsince) htick
      fun hle => hkeeps _ (hlease (hnow ▸ hle))
  | waiting l hphase hleader hheld htick hrest =>
    exact .waiting l hphase hleader (hheld.frame hnow hkeeps) htick (hnow ▸ hrest)
  | renewing l startedAt answer hphase hleader hheld hstart hsince hcall hanswered =>
    exact .renewing l startedAt answer hphase hleader (hheld.frame hnow hkeeps) hstart hsince
      (hcall.frame hnow) (hanswered.frame hkeeps)
  | losing l lostAt final hphase hleader hheld hlost hend =>
    exact .losing l lostAt final hphase hleader (hheld.frame hnow hkeeps) hlost (hnow ▸ hend)

/-- An instance with loops, and until when it has them. -/
theorem Steady.held (h : Steady stop id k p) (hloops : p.loops = some l) :
    Held stop id k p l ∧ k.now ≤ p.rest l + second + stop := by
  have hsecond : 0 < second := by decide
  have hsame : ∀ l', Held stop id k p l' → l' = l := by
    intro l' hheld
    exact Option.some.inj (hheld.loops.symm.trans hloops)
  cases h with
  | idle _ _ hnone | acquiring _ _ _ _ hnone | starting _ _ _ _ _ hnone =>
    rw [hnone] at hloops
    cases hloops
  | waiting l' _ _ hheld _ hnow | losing l' lostAt _ _ _ hheld hlost hnow =>
    cases hsame l' hheld
    exact ⟨hheld, by omega⟩
  | renewing l' startedAt _ _ _ hheld hstart _ hcall _ =>
    cases hsame l' hheld
    have := hcall.within
    exact ⟨hheld, by omega⟩

/-- As long as the loops may run, the lease of loops that started in time lasts. -/
theorem rest_le (hstop : stop ≤ 3 * second) (hin : inTime stop p.since l.startedAt = true) :
    p.rest l + second + stop ≤ p.since + ttl := by
  have hle := of_decide_eq_true hin
  simp only [ttl, second, Instance.rest] at hle hstop ⊢
  omega

/-- The first cycle is five seconds after the start: there has been a renewal. -/
theorem inTime_of_cycle (hstop : stop ≤ 3 * second) (h : Steady stop id k p)
    (hloops : p.loops = some l) (hcycle : l.nextCycle ≤ k.now) :
    inTime stop p.since l.startedAt = true := by
  obtain ⟨hheld, hnow⟩ := h.held hloops
  have hfirst := hheld.cycle
  simp only [inTime, decide_eq_true_eq]
  simp only [ttl, second, Instance.rest] at *
  omega

variable {d : Nat}

theorem Held.tick (hstop : stop ≤ 3 * second) (h : Held stop id k p l)
    (hle : k.now + d ≤ p.rest l + second + stop) : Held stop id (k.tick d) p l where
  loops := h.loops
  since := Int.le_trans h.since (Int.ofNat_le.mpr (Nat.le_add_right _ _))
  started := Int.le_trans h.started (Int.ofNat_le.mpr (Nat.le_add_right _ _))
  cycle := h.cycle
  lease hin := (h.lease hin).tick (Int.le_trans hle (rest_le hstop hin))

theorem Call.tick (h : Call k p startedAt) (hle : k.now + d ≤ startedAt + second) :
    Call (k.tick d) p startedAt where
  started := Int.le_trans h.started (Int.ofNat_le.mpr (Nat.le_add_right _ _))
  within := hle
  nextTick := h.nextTick

theorem Answered.tick {answer : Option (Option LeaderLeaseResult)}
    (h : Answered id k startedAt answer) (hle : k.now + d ≤ startedAt + second) :
    Answered id (k.tick d) startedAt answer := by
  intro token htoken
  refine (h token htoken).tick ?_
  simp only [ttl, second] at hle ⊢
  omega

/-- Time that an instance lets pass. -/
theorem Steady.tick (hstop : stop ≤ 3 * second) (h : Steady stop id k p)
    (hwaits : waits stop id k p d = true) : Steady stop id (k.tick d) p := by
  have hlater : (k.now : Int) ≤ (k.tick d).now := Int.ofNat_le.mpr (Nat.le_add_right _ _)
  cases h with
  | idle hphase hleader hloops => exact .idle hphase hleader hloops
  | acquiring startedAt answer hphase hleader hloops hcall hanswered =>
    simp only [waits, hphase, decide_eq_true_eq] at hwaits
    exact .acquiring startedAt answer hphase hleader hloops (hcall.tick hwaits)
      (hanswered.tick hwaits)
  | starting call callStartedAt deadline hphase hleader hloops hsince htick hlease =>
    refine .starting call callStartedAt deadline hphase hleader hloops
      (Int.le_trans hsince hlater) htick ?_
    intro hle
    exact (hlease (Int.le_trans hlater hle)).tick hle
  | waiting l hphase hleader hheld htick hrest =>
    simp only [waits, hphase, hleader, Bool.not_true, Bool.false_or, decide_eq_true_eq] at hwaits
    have hle : k.now + d ≤ p.rest l := by
      simp only [Instance.rest]
      omega
    exact .waiting l hphase hleader (hheld.tick hstop (by omega)) htick hle
  | renewing l startedAt answer hphase hleader hheld hstart hsince hcall hanswered =>
    simp only [waits, hphase, decide_eq_true_eq] at hwaits
    exact .renewing l startedAt answer hphase hleader (hheld.tick hstop (by omega)) hstart hsince
      (hcall.tick hwaits) (hanswered.tick hwaits)
  | losing l lostAt final hphase hleader hheld hlost hend =>
    simp only [waits, hphase, decide_eq_true_eq] at hwaits
    exact .losing l lostAt final hphase hleader (hheld.tick hstop (by omega)) hlost hwaits

/-! ## Actions -/

theorem nextTickAfter_le {tick now : Int} : nextTickAfter second tick now ≤ now + second := by
  simp only [nextTickAfter, second]
  omega

theorem le_nextTickAfter {tick now : Int} (hdue : tick ≤ now) :
    tick ≤ nextTickAfter (5 * second) tick now := by
  simp only [nextTickAfter, second]
  omega

theorem Held.next (h : Held stop id k p l) (hdue : l.nextCycle ≤ k.now) :
    Held stop id k (p.cycle k.now)
      { l with nextCycle := nextTickAfter (5 * second) l.nextCycle k.now } where
  loops := by rw [Instance.cycle, h.loops, Option.map_some]
  since := h.since
  started := h.started
  cycle := Int.le_trans h.cycle (le_nextTickAfter hdue)
  lease := h.lease

/-- A cycle leaves the election alone. -/
theorem Steady.cycle (h : Steady stop id k p)
    (hdue : (p.loops.any fun l => decide (l.nextCycle ≤ (k.now : Int))) = true) :
    Steady stop id k (p.cycle k.now) := by
  obtain ⟨l, hloops, hdue⟩ := (Option.any_eq_true _ _).mp hdue
  have hdue := of_decide_eq_true hdue
  have hsame : ∀ l', Held stop id k p l' → l' = l := by
    intro l' hheld
    exact Option.some.inj (hheld.loops.symm.trans hloops)
  cases h with
  | idle _ _ hnone | acquiring _ _ _ _ hnone | starting _ _ _ _ _ hnone =>
    rw [hnone] at hloops
    cases hloops
  | waiting l' hphase hleader hheld htick hnow =>
    cases hsame l' hheld
    exact .waiting _ hphase hleader (hheld.next hdue) htick hnow
  | renewing l' startedAt answer hphase hleader hheld hstart hsince hcall hanswered =>
    cases hsame l' hheld
    exact .renewing _ startedAt answer hphase hleader (hheld.next hdue) hstart hsince
      { hcall with } hanswered
  | losing l' lostAt final hphase hleader hheld hlost hnow =>
    cases hsame l' hheld
    exact .losing _ lostAt final hphase hleader (hheld.next hdue) hlost hnow

/-- `tryAcquire` after its call. -/
theorem steady_acquired {answer : Option LeaderLeaseResult} (hleader : p.isLeader = false)
    (hloops : p.loops = none) (hcall : Call k p startedAt)
    (hanswered : ∀ token, answer = some ⟨true, token⟩ → k.Leads id (startedAt + ttl)) :
    Steady stop id k (p.acquired k.now startedAt answer) := by
  rcases answer with _ | ⟨_ | _, token⟩
  · exact .idle (.inl rfl) hleader hloops
  · exact .idle (.inl rfl) hleader hloops
  · exact .starting _ _ _ rfl rfl hloops hcall.started hcall.nextTick fun _ => hanswered token rfl

/-- `loseLeadership`. -/
theorem Held.lost (h : Held stop id k p l) (hlost : k.now ≤ p.rest l + second) (final : Bool) :
    Steady stop id k (p.loseLeadership k.now final) := by
  refine .losing l k.now final rfl rfl { h with } hlost ?_
  omega

/-- `tryRenew` after its call. -/
theorem steady_renewed {answer : Option LeaderLeaseResult} (hleader : p.isLeader = true)
    (hheld : Held stop id k p l) (hstart : startedAt ≤ p.rest l) (hcall : Call k p startedAt)
    (hanswered : ∀ token, answer = some ⟨true, token⟩ → k.Leads id (startedAt + ttl)) :
    Steady stop id k (p.renewed k.now startedAt answer) := by
  have hlost : k.now ≤ p.rest l + second := by
    have := hcall.within
    omega
  rcases answer with _ | ⟨_ | _, token⟩
  · exact hheld.lost hlost false
  · exact hheld.lost hlost false
  · refine .waiting l rfl hleader ⟨hheld.loops, hcall.started, hheld.started, hheld.cycle, ?_⟩
      hcall.nextTick (Int.le_trans hcall.within (Int.le_max_right _ _))
    exact fun _ => hanswered token rfl

/-- A call of the start-up is over. -/
theorem steady_started {call : StartupCall} {deadline : Int} (hleader : p.isLeader = true)
    (hloops : p.loops = none) (hsince : p.since ≤ k.now) (htick : p.nextTick ≤ p.since + second)
    (hlease : k.now ≤ p.since + ttl → k.Leads id (p.since + ttl)) (next : Option StartupCall) :
    Steady stop id k (p.started k.now call deadline next) := by
  cases next with
  | some next => exact .starting _ _ _ rfl hleader hloops hsince htick hlease
  | none =>
    refine .waiting ⟨k.now, k.now + 5 * second⟩ rfl hleader ?_ htick (Int.le_max_left _ _)
    refine ⟨rfl, hsince, Int.le_refl _, Int.le_refl _, ?_⟩
    intro hin
    have hle : (k.now : Int) + second + stop ≤ p.since + ttl := of_decide_eq_true hin
    have hsecond : 0 < second := by decide
    exact hlease (by omega)

/-- The election of one instance. -/
theorem Steady.elect (hgranted : k.Granted fun _ => ttl) (h : Steady stop id k p) {a : Action}
    (henabled : electing k p a = true) :
    Steady stop id (CoordinatorLeader.elect id k p a).1 (CoordinatorLeader.elect id k p a).2 := by
  have hsecond : 0 < second := by decide
  have hfired : Call k { p with nextTick := nextTickAfter second p.nextTick k.now } k.now :=
    ⟨Int.le_refl _, by omega, nextTickAfter_le⟩
  have hfailed : ∀ startedAt, Answered id k startedAt none := by
    intro startedAt token htoken
    cases htoken
  cases h with
  | idle hphase hleader hloops =>
    rcases hphase with hphase | hphase
    · simp only [electing, CoordinatorLeader.elect, hphase] at henabled ⊢
      cases a with
      | fire =>
        simp only [hleader]
        exact .acquiring k.now none rfl rfl hloops { hfired with } (hfailed _)
      | cancel =>
        simp only [hleader]
        exact .idle (.inr rfl) rfl hloops
      | _ => cases henabled
    · simp only [electing, hphase] at henabled
      cases henabled
  | acquiring startedAt answer hphase hleader hloops hcall hanswered =>
    simp only [electing, CoordinatorLeader.elect, hphase] at henabled ⊢
    cases a with
    | script =>
      have hnow := now_acquire k id ttl
      refine .acquiring startedAt _ rfl hleader hloops { hcall.frame hnow with } ?_
      intro token htoken
      exact (leads_of_acquire htoken).mono (Int.add_le_add_right hcall.started _)
    | reply => exact steady_acquired hleader hloops hcall hanswered
    | fail => exact steady_acquired hleader hloops hcall (hfailed startedAt)
    | _ => cases henabled
  | starting call callStartedAt deadline hphase hleader hloops hsince htick hlease =>
    simp only [electing, CoordinatorLeader.elect, hphase] at henabled ⊢
    cases a with
    | returns next => exact steady_started hleader hloops hsince htick hlease next
    | _ => cases henabled
  | waiting l hphase hleader hheld htick hrest =>
    simp only [electing, CoordinatorLeader.elect, hphase] at henabled ⊢
    cases a with
    | fire =>
      simp only [hleader]
      exact .renewing l k.now none rfl rfl { hheld with } hrest hheld.since { hfired with }
        (hfailed _)
    | cancel =>
      simp only [hleader]
      exact hheld.lost (by omega) true
    | _ => cases henabled
  | renewing l startedAt answer hphase hleader hheld hstart hsince hcall hanswered =>
    simp only [electing, CoordinatorLeader.elect, hphase] at henabled ⊢
    cases a with
    | script =>
      have hnow := now_renew k id ttl
      have hheld' := hheld.frame hnow fun _ h => h.renew hgranted id
      refine .renewing l startedAt _ rfl hleader { hheld' with } hstart hsince
        { hcall.frame hnow with } ?_
      intro token htoken
      exact (leads_of_renew hgranted htoken).mono (Int.add_le_add_right hcall.started _)
    | reply => exact steady_renewed hleader hheld hstart hcall hanswered
    | fail => exact steady_renewed hleader hheld hstart hcall (hfailed startedAt)
    | _ => cases henabled
  | losing l lostAt final hphase hleader hheld hlost hend =>
    simp only [electing, CoordinatorLeader.elect, hphase] at henabled ⊢
    cases a with
    | loopsDone =>
      refine .idle ?_ hleader rfl
      cases final with
      | true => exact .inr rfl
      | false => exact .inl rfl
    | _ => cases henabled

/-- What an action is to the keys: nothing, or a script. -/
theorem act_keys (id : String) (k : Keys) (p : Instance) (a : Action) :
    (act id k p a).1 = k ∨ ∃ l, (act id k p a).1 = late (fun _ => ttl) k l := by
  obtain ⟨isLeader, nextTick, since, loops, phase⟩ := p
  cases phase with
  | acquiring startedAt answer =>
    cases a with
    | script => exact .inr ⟨.acquire id, rfl⟩
    | _ => exact .inl rfl
  | renewing startedAt answer =>
    cases a with
    | script => exact .inr ⟨.renew id, rfl⟩
    | _ => exact .inl rfl
  | _ => cases a <;> exact .inl rfl

/-- An action harms no lease. -/
theorem act_keeps (id : String) (p : Instance) (a : Action) (hgranted : k.Granted fun _ => ttl) :
    (act id k p a).1.Granted (fun _ => ttl) ∧ (act id k p a).1.now = k.now ∧
      ∀ other t, k.Leads other t → (act id k p a).1.Leads other t := by
  rcases act_keys id k p a with hsame | ⟨l, hlate⟩
  · rw [hsame]
    exact ⟨hgranted, rfl, fun _ _ h => h⟩
  · rw [hlate]
    exact late_keeps hgranted l

end Steady

/-- What every step preserves. -/
theorem system_stable {stop : Nat} (hstop : stop ≤ 3 * second) :
    (system stop).Stable (fun _ _ _ _ => true) (fun k => k.Granted fun _ => ttl)
      (Steady stop) where
  act id k p a hgranted h henabled _ := by
    obtain ⟨hgranted', -, -⟩ := act_keeps id p a hgranted
    refine ⟨hgranted', ?_⟩
    cases a with
    | cycle => exact h.cycle henabled
    | _ => exact h.elect hgranted henabled
  frame id k p a id' p' _ hgranted _ h' _ _ := by
    obtain ⟨-, hnow, hkeeps⟩ := act_keeps id p a hgranted
    exact h'.frame hnow (hkeeps id')
  stray k l hgranted := by
    obtain ⟨hgranted', hnow, hkeeps⟩ := late_keeps hgranted l
    exact ⟨hgranted', fun id p h => h.frame hnow (hkeeps id)⟩
  elapse k d hgranted := hgranted.tick d
  waits id k p d _ h hwaits := h.tick hstop hwaits

/-! ## Prompt start-ups -/

/-- The last call of a start-up returns in time. -/
def prompt (stop : Nat) (_ : String) (k : Keys) (p : Instance) (a : Action) : Bool :=
  match p.phase, a with
  | .starting _ _ _, .returns none => inTime stop p.since k.now
  | _, _ => true

/-- The loops of an instance started in time. -/
def Prompt (stop : Nat) (_ : String) (p : Instance) : Prop :=
  ∀ l, p.loops = some l → inTime stop p.since l.startedAt = true

/-- A renewal moves the lease on, and the loops stay. -/
theorem Prompt.mono {stop : Nat} {id : String} {p p' : Instance} (h : Prompt stop id p)
    (hloops : p'.loops = p.loops) (hsince : p.since ≤ p'.since) : Prompt stop id p' := by
  intro l hl
  have hin := h l (hloops ▸ hl)
  simp only [inTime, decide_eq_true_eq] at hin ⊢
  omega

theorem prompt_of_none {stop : Nat} {id : String} {p : Instance} (hloops : p.loops = none) :
    Prompt stop id p := by
  intro l hl
  rw [hloops] at hl
  cases hl

theorem prompt_elect {stop : Nat} {id : String} {k : Keys} {p : Instance} {a : Action}
    (h : Steady stop id k p) (hp : Prompt stop id p) (hprompt : prompt stop id k p a = true) :
    Prompt stop id (elect id k p a).2 := by
  have hsame : ∀ p' : Instance, p'.loops = p.loops → p'.since = p.since → Prompt stop id p' :=
    fun _ hloops hsince => hp.mono hloops (Int.le_of_eq hsince.symm)
  cases h with
  | idle hphase hleader hloops =>
    rcases hphase with hphase | hphase
    · simp only [elect, hphase, hleader]
      cases a with
      | _ => exact prompt_of_none hloops
    · simp only [elect, hphase]
      exact hp
  | acquiring startedAt answer hphase hleader hloops hcall hanswered =>
    simp only [elect, hphase]
    cases a with
    | reply =>
      refine prompt_of_none ?_
      rcases answer.join with _ | ⟨_ | _, token⟩ <;> exact hloops
    | _ => exact prompt_of_none hloops
  | starting call callStartedAt deadline hphase hleader hloops hsince htick hlease =>
    simp only [elect, hphase]
    cases a with
    | returns next =>
      cases next with
      | some next => exact prompt_of_none hloops
      | none =>
        simp only [prompt, hphase] at hprompt
        rintro l ⟨⟩
        exact hprompt
    | _ => exact prompt_of_none hloops
  | waiting l hphase hleader hheld htick hrest =>
    simp only [elect, hphase, hleader]
    cases a with
    | _ => exact hsame _ rfl rfl
  | renewing l startedAt answer hphase hleader hheld hstart hsince hcall hanswered =>
    simp only [elect, hphase]
    cases a with
    | reply =>
      rcases answer.join with _ | ⟨_ | _, token⟩
      · exact hsame _ rfl rfl
      · exact hsame _ rfl rfl
      · exact hp.mono rfl hsince
    | _ => exact hsame _ rfl rfl
  | losing l lostAt final hphase hleader hheld hlost hend =>
    simp only [elect, hphase]
    cases a with
    | loopsDone => exact prompt_of_none rfl
    | _ => exact hp

theorem prompt_stable {stop : Nat} (hstop : stop ≤ 3 * second) :
    (system stop).Stable (prompt stop) (fun k => k.Granted fun _ => ttl)
      (fun id k p => Steady stop id k p ∧ Prompt stop id p) := by
  refine (system_stable hstop).and_local (fun _ _ _ _ _ => rfl) ?_
  intro id k p a h hp _ hprompt
  cases a with
  | cycle =>
    intro l hl
    obtain ⟨l', hl', rfl⟩ := Option.map_eq_some_iff.mp hl
    exact hp l' hl'
  | _ => exact prompt_elect h hp hprompt

/-! ## One coordinator -/

/-- Nobody has led yet. -/
def Fresh (instances : Table String Instance) : Prop :=
  ∀ id p, instances.Has id p → ∃ nextTick, p = Instance.init nextTick

/-- A cycle that an instance can start now: nobody else has the lease. -/
def CyclesUnderLease (s : Processes.State String Keys Instance) : Prop :=
  ∀ id p, s.procs.Has id p → enabled id s.shared p .cycle = true →
    ∀ other deadline, s.shared.leader = some (other, deadline) → other = id

/-- At most one instance has loops. -/
def OneCoordinator (s : Processes.State String Keys Instance) : Prop :=
  ∀ id p id' p', s.procs.Has id p → s.procs.Has id' p' → p.loops.isSome = true →
    p'.loops.isSome = true → id = id'

theorem holds_fresh {stop : Nat} {instances : Table String Instance} (hfresh : Fresh instances) :
    Processes.Holds (fun k => k.Granted fun _ => ttl)
      (fun id k p => Steady stop id k p ∧ Prompt stop id p)
      (⟨Keys.init, instances⟩ : Processes.State String Keys Instance) := by
  refine ⟨Keys.Granted.init _, ?_⟩
  intro id p hp
  obtain ⟨nextTick, rfl⟩ := hfresh id p hp
  exact ⟨.idle (.inl rfl) rfl rfl, prompt_of_none rfl⟩

theorem coordinator_prompt (stop : Nat) (hstop : stop ≤ 3 * second)
    (instances : Table String Instance) (hfresh : Fresh instances) :
    (∀ tr s, (system stop).machine.Run ⟨Keys.init, instances⟩ tr s → CyclesUnderLease s) ∧
      ∀ tr s, ((system stop).machine.restrict fun s i =>
        Processes.meets (prompt stop) s i = true).Run ⟨Keys.init, instances⟩ tr s →
          OneCoordinator s := by
  have hinit := @holds_fresh stop instances hfresh
  constructor
  · intro tr s hr id p hp hcycle other deadline hother
    obtain ⟨-, hsteady⟩ := (system_stable hstop).run_any hr
      ⟨hinit.1, fun id p hp => (hinit.2 id p hp).1⟩
    obtain ⟨l, hloops, hdue⟩ := (Option.any_eq_true _ _).mp hcycle
    have hin := inTime_of_cycle hstop (hsteady id p hp) hloops (of_decide_eq_true hdue)
    obtain ⟨deadline', hleader, -⟩ := ((hsteady id p hp).held hloops).1.lease hin
    rw [hleader] at hother
    cases hother
    rfl
  · intro tr s hr id p id' p' hp hp' hloops hloops'
    obtain ⟨-, hsteady⟩ := (prompt_stable hstop).run hr hinit
    obtain ⟨l, hl⟩ := Option.isSome_iff_exists.mp hloops
    obtain ⟨l', hl'⟩ := Option.isSome_iff_exists.mp hloops'
    obtain ⟨h, hprompt⟩ := hsteady id p hp
    obtain ⟨h', hprompt'⟩ := hsteady id' p' hp'
    have hleads := (h.held hl).1.lease (hprompt l hl)
    exact hleads.unique ((h'.held hl').1.lease (hprompt' l' hl'))

/-- Two instances that tick at `tick` and at `tick'` first. -/
def pair (tick tick' : Int) : Table String Instance :=
  ⟨[("a", Instance.init tick), ("b", Instance.init tick')], by simp⟩

theorem fresh_pair (tick tick' : Int) : Fresh (pair tick tick') := by
  intro id p hp
  simp only [pair, Table.Has, List.mem_cons, Prod.mk.injEq, List.not_mem_nil, or_false] at hp
  rcases hp with ⟨-, hp⟩ | ⟨-, hp⟩
  · exact ⟨tick, hp⟩
  · exact ⟨tick', hp⟩

/-- A pause of tenths of a second. -/
def pause (tenths : Nat) : Processes.Input String Action Late := .tick (tenths * 100000000)

/-- One election that ends with an answer. -/
def answered (id : String) : List (Processes.Input String Action Late) :=
  [.act id .fire, .act id .script, .act id .reply]

/-- The two steps of `onBecomeLeader` without draining workers. -/
def startup (id : String) : List (Processes.Input String Action Late) :=
  [.act id (.returns (some .listWorkersByStatus)), .act id (.returns none)]

/-- The first instance leads and renews, starts its first cycle, and a renewal fails;
when its lease is over the second one leads. -/
def changeRun : Processes.State String Keys Instance ×
    List (Processes.Input String Action Late × Unit) :=
  ((system 1000000000).machine.restrict fun s i =>
    Processes.meets (prompt 1000000000) s i = true).exec ⟨Keys.init, pair 0 (5 * second)⟩ <|
      answered "a" ++ [pause 5] ++ startup "a" ++ [pause 5] ++ answered "a" ++
      [pause 10] ++ answered "a" ++ [pause 10] ++ answered "a" ++ [pause 10] ++ answered "a" ++
      [pause 10] ++ answered "a" ++ answered "b" ++ [pause 5, .act "a" .cycle, pause 5] ++
      [.act "a" .fire, pause 10, .act "a" .fail, pause 5, .act "a" .loopsDone, pause 36] ++
      answered "b" ++ startup "b"

theorem coordinator_prompt_change :
    (changeRun.1.procs.find "b").map (·.loops.isSome) = some true ∧
      CyclesUnderLease changeRun.1 ∧ OneCoordinator changeRun.1 := by
  have hrun : ((system 1000000000).machine.restrict fun s i =>
      Processes.meets (prompt 1000000000) s i = true).Run ⟨Keys.init, pair 0 (5 * second)⟩
        changeRun.2 changeRun.1 := Machine.run_exec _ _ (by decide)
  have h := coordinator_prompt 1000000000 (by decide) _ (fresh_pair 0 (5 * second))
  exact ⟨by decide, h.1 _ _ hrun.unrestrict, h.2 _ _ hrun⟩

/-- `UnassignDeadWorkerChannels` of the first instance takes six seconds, and the
second one has the lease when it returns. -/
def overlapRun : Processes.State String Keys Instance ×
    List (Processes.Input String Action Late × Unit) :=
  (system 1000000000).machine.exec ⟨Keys.init, pair 0 (55 * 100000000)⟩ <|
    answered "a" ++ [pause 55] ++ answered "b" ++ startup "b" ++ [pause 5] ++ startup "a"

/-- Both instances have loops. -/
theorem two_coordinators :
    (system 1000000000).machine.Run ⟨Keys.init, pair 0 (55 * 100000000)⟩
        overlapRun.2 overlapRun.1 ∧
      (overlapRun.1.procs.find "a").map (·.loops.isSome) = some true ∧
      (overlapRun.1.procs.find "b").map (·.loops.isSome) = some true := by
  refine ⟨Machine.run_exec _ _ (by decide), ?_, ?_⟩
  · decide
  · decide

end RogiCollector.Ports.CoordinatorLeader
