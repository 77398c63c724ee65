import RogiCollector.Verified.Processes
import RogiCollector.Ports.LeaderLease

/-!
# The leader of the discovery service

`LeaderElection` of `discover/internal/leader.go`: any number of instances that
acquire the lease, renew it on a timer with jitter, keep leading for a while when a
renewal fails, and release the lease when they stop.  Times are nanoseconds, and all
clocks run alike.  A call of Redis takes up to `OperationTimeout`; its script runs at
any time during the call, or later when the caller has given up, or not at all.

An instance decides when a call returns, and then not again until the next one does:
the delay until the timer fires and a whole `OperationTimeout` lie in between.  The
lease has to last as long.  `ExpiryGuard` does not cover the two, and after an
acquire the deadline counts from the answer, not from the call.  The lease is also
released before the instance stops leading.
-/

namespace RogiCollector.Ports.DiscoverLeader

open Verified
open LeaderLease

/-! ## Configuration -/

def millisecond : Int := 1000000

def second : Int := 1000000000

/-- `LeaderElectionConfig`, with durations in nanoseconds. -/
structure Config where
  ttl : Int
  renewInterval : Int
  acquireInterval : Int
  renewJitter : Int
  acquireJitter : Int
  retryInterval : Int
  operationTimeout : Int
  expiryGuard : Int
  maxConsecutiveRenewErrors : Int

/-- `DefaultLeaderElectionConfig`. -/
def Config.default : Config where
  ttl := 15 * second
  renewInterval := 3 * second
  acquireInterval := 2 * second
  renewJitter := 750 * millisecond
  acquireJitter := 500 * millisecond
  retryInterval := 1 * second
  operationTimeout := 2 * second
  expiryGuard := 2 * second
  maxConsecutiveRenewErrors := 3

def minLeaderLoopDelay : Int := 100 * millisecond

/-- A value that is not positive becomes the default. -/
def orDefault (value default : Int) : Int := if value ≤ 0 then default else value

/-- A negative jitter becomes zero, and zero the default. -/
def jitterOrDefault (value default : Int) : Int :=
  let value := if value < 0 then 0 else value
  if value = 0 then default else value

def Config.normalized (cfg : Config) : Config :=
  let ttl := orDefault cfg.ttl Config.default.ttl
  let guard := orDefault cfg.expiryGuard Config.default.expiryGuard
  { ttl := ttl
    renewInterval := orDefault cfg.renewInterval Config.default.renewInterval
    acquireInterval := orDefault cfg.acquireInterval Config.default.acquireInterval
    renewJitter := jitterOrDefault cfg.renewJitter Config.default.renewJitter
    acquireJitter := jitterOrDefault cfg.acquireJitter Config.default.acquireJitter
    retryInterval := orDefault cfg.retryInterval Config.default.retryInterval
    operationTimeout := orDefault cfg.operationTimeout Config.default.operationTimeout
    expiryGuard := if ttl ≤ guard then (if ttl / 5 < second then second else ttl / 5) else guard
    maxConsecutiveRenewErrors :=
      orDefault cfg.maxConsecutiveRenewErrors Config.default.maxConsecutiveRenewErrors }

/-- The time to live that Redis gets: `ttl.Milliseconds()`. -/
def Config.lease (cfg : Config) : Int := cfg.ttl / millisecond * millisecond

/-! ## Delays -/

/-- `withJitter`; `draw` is what the random source yields before `Int63n` reduces it. -/
def withJitter (base jitter : Int) (draw : Nat) : Int :=
  let base := if base ≤ minLeaderLoopDelay then minLeaderLoopDelay else base
  if jitter ≤ 0 then base
  else
    let delay := base + ((draw : Int) % (jitter * 2 + 1) - jitter)
    if delay < minLeaderLoopDelay then minLeaderLoopDelay else delay

def Config.nextAcquireDelay (cfg : Config) (draw : Nat) : Int :=
  withJitter cfg.acquireInterval cfg.acquireJitter draw

def Config.nextRenewDelay (cfg : Config) (lastRTT : Int) (suspect : Bool) (draw : Nat) : Int :=
  let base :=
    if suspect ∨ cfg.renewInterval / 2 ≤ lastRTT then cfg.retryInterval else cfg.renewInterval
  withJitter base cfg.renewJitter draw

/-! ## An instance -/

inductive Phase
  /-- In the `select` of `Run`, with the timer. -/
  | waiting (timer : Int)
  /-- In a call of Redis since `startedAt`; `answer` is there when the script has run. -/
  | acquiring (startedAt : Int) (answer : Option (Option LeaderLeaseResult))
  | renewing (startedAt : Int) (answer : Option (Option LeaderLeaseResult))
  | releasing (startedAt : Int)
  | stopped

/-- The fields of `LeaderElection`.  `since` is when the last call started that was
answered with a lease. -/
structure Instance where
  isLeader : Bool
  leaseValidUntil : Int
  consecutiveRenewErrors : Int
  since : Int
  phase : Phase

/-- An instance before its first acquire. -/
def Instance.init (timer : Int) : Instance := ⟨false, 0, 0, 0, .waiting timer⟩

def Instance.shouldKeepLeadership (cfg : Config) (p : Instance) (remainingLease : Int) : Bool :=
  if remainingLease ≤ cfg.expiryGuard then false
  else if p.consecutiveRenewErrors ≤ cfg.maxConsecutiveRenewErrors then true
  else cfg.expiryGuard + cfg.retryInterval < remainingLease

/-- `loseLeadership`, and the timer after it. -/
def Instance.loseLeadership (p : Instance) (phase : Phase) : Instance :=
  { p with isLeader := false, consecutiveRenewErrors := 0, leaseValidUntil := 0, phase }

/-- `tryAcquire` after its call. -/
def Instance.acquired (cfg : Config) (p : Instance) (now startedAt : Int)
    (answer : Option LeaderLeaseResult) (draw : Nat) : Instance :=
  match answer with
  | some ⟨true, _⟩ =>
    { isLeader := true
      leaseValidUntil := now + cfg.ttl
      consecutiveRenewErrors := 0
      since := startedAt
      phase := .waiting (now + cfg.nextRenewDelay 0 false draw) }
  | _ => { p with phase := .waiting (now + cfg.nextAcquireDelay draw) }

/-- `tryRenew` after its call; `answer = none` is an error. -/
def Instance.renewed (cfg : Config) (p : Instance) (now startedAt : Int)
    (answer : Option LeaderLeaseResult) (draw : Nat) : Instance :=
  match answer with
  | some ⟨true, _⟩ =>
    { p with
      leaseValidUntil := startedAt + cfg.ttl
      consecutiveRenewErrors := 0
      since := startedAt
      phase := .waiting (now + cfg.nextRenewDelay (now - startedAt) false draw) }
  | some ⟨false, _⟩ => p.loseLeadership (.waiting (now + cfg.nextAcquireDelay draw))
  | none =>
    let p := { p with consecutiveRenewErrors := p.consecutiveRenewErrors + 1 }
    if p.shouldKeepLeadership cfg (p.leaseValidUntil - now) then
      { p with phase := .waiting (now + cfg.nextRenewDelay (now - startedAt) true draw) }
    else p.loseLeadership (.waiting (now + cfg.nextAcquireDelay draw))

inductive Action
  /-- The timer fires. -/
  | fire
  /-- Redis runs the script of the call. -/
  | script
  /-- The answer arrives. -/
  | reply (draw : Nat)
  /-- The call fails: the answer is lost, or `OperationTimeout` is over. -/
  | fail (draw : Nat)
  /-- The context is cancelled. -/
  | cancel

/-- An answer that has not come, or an error of the script, is `none` after `join`. -/
def act (configs : String → Config) (id : String) (k : Keys) (p : Instance) (a : Action) :
    Keys × Instance :=
  let cfg := configs id
  let now : Int := k.now
  match p.phase with
  | .waiting _ =>
    match a with
    | .fire =>
      (k, { p with phase := if p.isLeader then .renewing now none else .acquiring now none })
    | .cancel => (k, { p with phase := if p.isLeader then .releasing now else .stopped })
    | _ => (k, p)
  | .acquiring startedAt answer =>
    match a with
    | .script =>
      let out := tryAcquireLeaderLease k id cfg.lease
      (out.1, { p with phase := .acquiring startedAt (some out.2) })
    | .reply draw => (k, p.acquired cfg now startedAt answer.join draw)
    | .fail draw => (k, p.acquired cfg now startedAt none draw)
    | _ => (k, p)
  | .renewing startedAt answer =>
    match a with
    | .script =>
      let out := renewLeaderLease k id cfg.lease
      (out.1, { p with phase := .renewing startedAt (some out.2) })
    | .reply draw => (k, p.renewed cfg now startedAt answer.join draw)
    | .fail draw => (k, p.renewed cfg now startedAt none draw)
    | _ => (k, p)
  | .releasing _ =>
    match a with
    | .script => ((releaseLeaderLease k id).1, p)
    -- An error of the release is only logged.
    | .reply _ | .fail _ => (k, p.loseLeadership .stopped)
    | _ => (k, p)
  | .stopped => (k, p)

def enabled (_ : String) (k : Keys) (p : Instance) (a : Action) : Bool :=
  match p.phase with
  | .waiting timer =>
    match a with
    | .fire => timer ≤ k.now
    | .cancel => true
    | _ => false
  | .acquiring _ answer | .renewing _ answer =>
    match a with
    | .script => answer.isNone
    | .reply _ => answer.isSome
    | .fail _ => true
    | _ => false
  | .releasing _ =>
    match a with
    | .script | .reply _ | .fail _ => true
    | _ => false
  | .stopped => false

/-- Time does not pass over the timer of a leader, nor over the end of a call. -/
def waits (configs : String → Config) (id : String) (k : Keys) (p : Instance) (d : Nat) : Bool :=
  match p.phase with
  | .waiting timer => !p.isLeader || k.now + d ≤ timer
  | .acquiring startedAt _ => k.now + d ≤ startedAt + (configs id).operationTimeout
  | .renewing startedAt _ => k.now + d ≤ startedAt + (configs id).operationTimeout
  | .releasing startedAt => k.now + d ≤ startedAt + (configs id).operationTimeout
  | .stopped => true

/-- Instances around the keys, each with its configuration after `normalized`. -/
def system (raw : String → Config) : Processes String Keys Instance Action Late where
  enabled := enabled
  act := act fun id => (raw id).normalized
  stray := late fun id => (raw id).normalized.lease
  waits := waits fun id => (raw id).normalized
  elapse := Keys.tick

/-! ## Decisions in time -/

/-- When the timer has fired and the call after it has timed out, a lease that was
written at `since` is still there. -/
def Config.inTime (cfg : Config) (now since delay : Int) : Bool :=
  now + delay + cfg.operationTimeout ≤ since + cfg.lease

/-- A failed renewal: the instance gives up, or goes on in time. -/
def Instance.failsInTime (cfg : Config) (p : Instance) (now startedAt : Int) (draw : Nat) : Bool :=
  !{ p with consecutiveRenewErrors := p.consecutiveRenewErrors + 1 }.shouldKeepLeadership cfg
      (p.leaseValidUntil - now) ||
    cfg.inTime now p.since (cfg.nextRenewDelay (now - startedAt) true draw)

/-- An answer to a renewal. -/
def Instance.renewsInTime (cfg : Config) (p : Instance) (now startedAt : Int)
    (answer : Option LeaderLeaseResult) (draw : Nat) : Bool :=
  match answer with
  | some ⟨true, _⟩ => cfg.inTime now startedAt (cfg.nextRenewDelay (now - startedAt) false draw)
  | some ⟨false, _⟩ => true
  | none => p.failsInTime cfg now startedAt draw

/-- Whenever an instance sets its timer as a leader, it does so in time; and its
context is not cancelled while it leads. -/
def timely (configs : String → Config) (id : String) (k : Keys) (p : Instance) (a : Action) :
    Bool :=
  let cfg := configs id
  let now : Int := k.now
  match p.phase with
  | .waiting _ =>
    match a with
    | .cancel => !p.isLeader
    | _ => true
  | .acquiring startedAt answer =>
    match a with
    | .reply draw =>
      answer.join.all fun lease =>
        !lease.held || cfg.inTime now startedAt (cfg.nextRenewDelay 0 false draw)
    | _ => true
  | .renewing startedAt answer =>
    match a with
    | .reply draw => p.renewsInTime cfg now startedAt answer.join draw
    | .fail draw => p.renewsInTime cfg now startedAt none draw
    | _ => true
  | .releasing _ | .stopped => true

theorem operationTimeout_pos (cfg : Config) : 0 < cfg.normalized.operationTimeout := by
  simp only [Config.normalized, orDefault, Config.default, second]
  split <;> omega

theorem withJitter_pos (base jitter : Int) (draw : Nat) : 0 < withJitter base jitter draw := by
  have hmin : 0 < minLeaderLoopDelay := by decide
  have hbase : 0 < if base ≤ minLeaderLoopDelay then minLeaderLoopDelay else base := by
    split
    · exact hmin
    · omega
  unfold withJitter
  generalize (if base ≤ minLeaderLoopDelay then minLeaderLoopDelay else base) = base' at hbase
  dsimp only
  split
  · exact hbase
  · split
    · exact hmin
    · omega

/-! ## The leader has the lease -/

/-- An instance and the keys.  A leader has the lease of its last call that succeeded,
and this one lasts until the timer has fired and the call after it has timed out. -/
def Steady (cfg : Config) (id : String) (k : Keys) (p : Instance) : Prop :=
  match p.phase with
  | .waiting timer =>
    p.isLeader = true → k.now ≤ timer ∧ timer + cfg.operationTimeout ≤ p.since + cfg.lease ∧
      k.Leads id (p.since + cfg.lease)
  | .acquiring startedAt answer =>
    p.isLeader = false ∧ startedAt ≤ k.now ∧
      ∀ token, answer.join = some ⟨true, token⟩ → k.now ≤ startedAt + cfg.lease →
        k.Leads id (startedAt + cfg.lease)
  | .renewing startedAt answer =>
    p.isLeader = true ∧ startedAt ≤ k.now ∧ k.now ≤ startedAt + cfg.operationTimeout ∧
      startedAt + cfg.operationTimeout ≤ p.since + cfg.lease ∧
      k.Leads id (p.since + cfg.lease) ∧
      ∀ token, answer.join = some ⟨true, token⟩ → k.Leads id (startedAt + cfg.lease)
  | .releasing _ => False
  | .stopped => p.isLeader = false

section Steady

variable {cfg : Config} {id : String} {k k' : Keys} {p : Instance}

/-- What others do to the keys. -/
theorem Steady.frame (h : Steady cfg id k p) (hnow : k'.now = k.now)
    (hkeeps : ∀ t, k.Leads id t → k'.Leads id t) : Steady cfg id k' p := by
  obtain ⟨isLeader, leaseValidUntil, errors, since, phase⟩ := p
  cases phase with
  | waiting timer =>
    intro hleader
    obtain ⟨htimer, hlasts, hleads⟩ := h hleader
    exact ⟨hnow ▸ htimer, hlasts, hkeeps _ hleads⟩
  | acquiring startedAt answer =>
    exact ⟨h.1, hnow ▸ h.2.1, fun token hanswer hle =>
      hkeeps _ (h.2.2 token hanswer (hnow ▸ hle))⟩
  | renewing startedAt answer =>
    obtain ⟨hleader, hstarted, hcall, hlasts, hleads, hanswered⟩ := h
    exact ⟨hleader, hnow ▸ hstarted, hnow ▸ hcall, hlasts, hkeeps _ hleads,
      fun token hanswer => hkeeps _ (hanswered token hanswer)⟩
  | releasing | stopped => exact h

/-- The leader has the lease of its last call that succeeded. -/
theorem Steady.leads (h : Steady cfg id k p) (hpos : 0 < cfg.operationTimeout)
    (hleader : p.isLeader = true) :
    k.now ≤ p.since + cfg.lease ∧ k.Leads id (p.since + cfg.lease) := by
  unfold Steady at h
  split at h
  · obtain ⟨htimer, hlasts, hleads⟩ := h hleader
    exact ⟨by omega, hleads⟩
  · rw [hleader] at h
    exact absurd h.1 (by decide)
  · obtain ⟨-, -, hcall, hlasts, hleads, -⟩ := h
    exact ⟨by omega, hleads⟩
  · exact h.elim
  · rw [hleader] at h
    cases h

/-- The timer of a leader, set in time. -/
theorem Steady.waiting {since delay : Int} (hdelay : 0 < delay)
    (hin : cfg.inTime k.now since delay = true) (hleads : k.Leads id (since + cfg.lease))
    (hphase : p.phase = .waiting (k.now + delay)) (hsince : p.since = since) :
    Steady cfg id k p := by
  have hle := of_decide_eq_true hin
  unfold Steady
  rw [hphase]
  intro _
  exact ⟨by omega, hsince ▸ hle, hsince ▸ hleads⟩

theorem steady_of_not_leader {timer : Int} (hphase : p.phase = .waiting timer)
    (hleader : p.isLeader = false) : Steady cfg id k p := by
  unfold Steady
  rw [hphase]
  intro htrue
  rw [hleader] at htrue
  cases htrue

end Steady

section Stable

variable {configs : String → Config} {id : String} {k : Keys} {p : Instance}

/-- `tryRenew` after its call. -/
theorem steady_renewed {startedAt : Int} {answer : Option LeaderLeaseResult}
    (hsince : k.Leads id (p.since + (configs id).lease))
    (hanswered : ∀ token, answer = some ⟨true, token⟩ → k.Leads id (startedAt + (configs id).lease))
    {draw : Nat} (hin : p.renewsInTime (configs id) k.now startedAt answer draw = true) :
    Steady (configs id) id k (p.renewed (configs id) k.now startedAt answer draw) := by
  rcases answer with _ | ⟨_ | _, token⟩
  · simp only [Instance.renewed]
    by_cases hkeep : { p with
        consecutiveRenewErrors := p.consecutiveRenewErrors + 1 }.shouldKeepLeadership (configs id)
        (p.leaseValidUntil - k.now) = true
    · simp only [hkeep, if_true]
      simp only [Instance.renewsInTime, Instance.failsInTime, hkeep] at hin
      exact Steady.waiting (withJitter_pos _ _ _) hin hsince rfl rfl
    · simp only [hkeep]
      exact steady_of_not_leader rfl rfl
  · exact steady_of_not_leader rfl rfl
  · exact Steady.waiting (withJitter_pos _ _ _) hin (hanswered token rfl) rfl rfl

/-- The actions of one instance. -/
theorem steady_act (hgranted : k.Granted fun id => (configs id).lease)
    (hpos : 0 < (configs id).operationTimeout) (h : Steady (configs id) id k p)
    {a : Action} (henabled : enabled id k p a = true) (htimely : timely configs id k p a = true) :
    Steady (configs id) id (act configs id k p a).1 (act configs id k p a).2 := by
  obtain ⟨isLeader, leaseValidUntil, errors, since, phase⟩ := p
  cases phase with
  | waiting timer =>
    cases a with
    | fire =>
      have hfired : timer ≤ k.now := of_decide_eq_true henabled
      cases isLeader with
      | true =>
        obtain ⟨htimer, hlasts, hleads⟩ := h rfl
        have hnow : k.now = timer := Int.le_antisymm htimer hfired
        have hcall : (k.now : Int) ≤ k.now + (configs id).operationTimeout := by omega
        refine ⟨rfl, Int.le_refl _, hcall, hnow ▸ hlasts, hleads, ?_⟩
        intro token hnone
        cases hnone
      | false =>
        refine ⟨rfl, Int.le_refl _, ?_⟩
        intro token hnone
        cases hnone
    | cancel =>
      cases isLeader with
      | true => cases htimely
      | false => exact (rfl : false = false)
    | script | reply | fail => cases henabled
  | acquiring startedAt answer =>
    obtain ⟨hleader, hstarted, hanswered⟩ := h
    cases a with
    | fire | cancel => cases henabled
    | script =>
      refine ⟨hleader, ?_, ?_⟩
      · exact (now_acquire k id _).symm ▸ hstarted
      · intro token htoken _
        exact (leads_of_acquire htoken).mono (Int.add_le_add_right hstarted _)
    | reply draw =>
      simp only [timely] at htimely
      simp only [act]
      generalize answer.join = answer at htimely hanswered
      rcases answer with _ | ⟨_ | _, token⟩
      · exact steady_of_not_leader rfl hleader
      · exact steady_of_not_leader rfl hleader
      · have hle := of_decide_eq_true htimely
        have hdelay : 0 < (configs id).nextRenewDelay 0 false draw := withJitter_pos _ _ _
        have hleads := hanswered token rfl (by omega)
        exact Steady.waiting hdelay htimely hleads rfl rfl
    | fail draw => exact steady_of_not_leader rfl hleader
  | renewing startedAt answer =>
    obtain ⟨hleader, hstarted, hcall, hlasts, hleads, hanswered⟩ := h
    cases a with
    | fire | cancel => cases henabled
    | script =>
      have hnow := now_renew k id (configs id).lease
      refine ⟨hleader, hnow ▸ hstarted, hnow ▸ hcall, hlasts, hleads.renew hgranted id, ?_⟩
      · intro token htoken
        exact (leads_of_renew hgranted htoken).mono (Int.add_le_add_right hstarted _)
    | reply draw => exact steady_renewed hleads hanswered htimely
    | fail draw =>
      refine steady_renewed hleads ?_ htimely
      intro token hnone
      cases hnone
  | releasing startedAt => exact h.elim
  | stopped => cases henabled

/-- What an action of one instance is to the keys and to the lease of another. -/
theorem act_keeps (hgranted : k.Granted fun id => (configs id).lease) (p : Instance) (a : Action) :
    (act configs id k p a).1.Granted (fun id => (configs id).lease) ∧
      (act configs id k p a).1.now = k.now ∧
      ∀ other, other ≠ id → ∀ t, k.Leads other t → (act configs id k p a).1.Leads other t := by
  have hsame : k.Granted (fun id => (configs id).lease) ∧ k.now = k.now ∧
      ∀ other, other ≠ id → ∀ t, k.Leads other t → k.Leads other t :=
    ⟨hgranted, rfl, fun _ _ _ h => h⟩
  obtain ⟨isLeader, leaseValidUntil, errors, since, phase⟩ := p
  cases phase with
  | waiting | stopped => cases a <;> exact hsame
  | acquiring startedAt answer =>
    cases a with
    | script => exact ⟨hgranted.acquire id, now_acquire k id _, fun _ _ _ h => h.acquire id _⟩
    | _ => exact hsame
  | renewing startedAt answer =>
    cases a with
    | script => exact ⟨hgranted.renew id, now_renew k id _, fun _ _ _ h => h.renew hgranted id⟩
    | _ => exact hsame
  | releasing startedAt =>
    cases a with
    | script =>
      refine ⟨hgranted.release id, ?_, fun _ hne _ h => h.release hne⟩
      simp only [act, releaseLeaderLease]
      split <;> rfl
    | _ => exact hsame

/-- Time that an instance lets pass. -/
theorem steady_waits (h : Steady (configs id) id k p) (hpos : 0 < (configs id).operationTimeout)
    {d : Nat} (hwaits : waits configs id k p d = true) : Steady (configs id) id (k.tick d) p := by
  obtain ⟨isLeader, leaseValidUntil, errors, since, phase⟩ := p
  have hnow : (k.tick d).now = k.now + d := rfl
  cases phase with
  | waiting timer =>
    intro hleader
    obtain ⟨htimer, hlasts, hleads⟩ := h hleader
    have hisLeader : isLeader = true := hleader
    simp only [waits, hisLeader, Bool.not_true, Bool.false_or, decide_eq_true_eq] at hwaits
    exact ⟨by omega, hlasts, hleads.tick (by omega)⟩
  | acquiring startedAt answer =>
    obtain ⟨hleader, hstarted, hanswered⟩ := h
    refine ⟨hleader, by omega, ?_⟩
    intro token htoken hle
    rw [hnow] at hle
    exact (hanswered token htoken (by omega)).tick (by omega)
  | renewing startedAt answer =>
    obtain ⟨hleader, hstarted, -, hlasts, hleads, hanswered⟩ := h
    have hcall := of_decide_eq_true hwaits
    refine ⟨hleader, by omega, hcall, hlasts, hleads.tick (by omega), ?_⟩
    intro token htoken
    exact hleads.tick_of (hanswered token htoken) (by omega)
  | releasing startedAt => exact h.elim
  | stopped => exact h

end Stable

/-- What all steps in time preserve. -/
theorem system_stable (raw : String → Config) :
    (system raw).Stable (timely fun id => (raw id).normalized)
      (fun k => k.Granted fun id => (raw id).normalized.lease)
      (fun id k p => Steady (raw id).normalized id k p) where
  act id k p a hgranted h henabled htimely :=
    ⟨(act_keeps hgranted p a).1,
      steady_act hgranted (operationTimeout_pos _) h henabled htimely⟩
  frame id k p a id' p' hne hgranted h h' henabled htimely := by
    obtain ⟨-, hnow, hkeeps⟩ := act_keeps hgranted p a
    exact h'.frame hnow (hkeeps id' hne)
  stray k l hgranted := by
    obtain ⟨hgranted', hnow, hkeeps⟩ := late_keeps hgranted l
    exact ⟨hgranted', fun id p h => h.frame hnow (hkeeps id)⟩
  elapse k d hgranted := hgranted.tick d
  waits id k p d _ h hwaits := by
    have hwaits : waits (fun id => (raw id).normalized) id k p d = true := hwaits
    exact steady_waits h (operationTimeout_pos _) hwaits

/-! ## One leader -/

/-- Nobody has led yet. -/
def Fresh (instances : Table String Instance) : Prop :=
  ∀ id p, instances.Has id p → ∃ timer, p = Instance.init timer

/-- Every leader has the lease in Redis, that of its last call that succeeded is not
over, and there is at most one leader. -/
structure OneLeader (raw : String → Config) (s : Processes.State String Keys Instance) : Prop where
  lease : ∀ id p, s.procs.Has id p → p.isLeader = true →
    s.shared.now ≤ p.since + (raw id).normalized.lease ∧
      ∃ deadline, s.shared.leader = some (id, deadline) ∧
        p.since + (raw id).normalized.lease ≤ deadline
  one : ∀ id p id' p', s.procs.Has id p → s.procs.Has id' p' → p.isLeader = true →
    p'.isLeader = true → id = id'

theorem leadership_timely (raw : String → Config) (instances : Table String Instance)
    (hfresh : Fresh instances) (tr : List (Processes.Input String Action Late × Unit))
    (s : Processes.State String Keys Instance)
    (hr : ((system raw).machine.restrict fun s i =>
      Processes.meets (timely fun id => (raw id).normalized) s i = true).Run
        ⟨Keys.init, instances⟩ tr s) : OneLeader raw s := by
  have hinit : Processes.Holds (fun k => k.Granted fun id => (raw id).normalized.lease)
      (fun id k p => Steady (raw id).normalized id k p)
      (⟨Keys.init, instances⟩ : Processes.State String Keys Instance) := by
    refine ⟨Keys.Granted.init _, ?_⟩
    intro id p hp
    obtain ⟨timer, rfl⟩ := hfresh id p hp
    exact steady_of_not_leader rfl rfl
  obtain ⟨-, hsteady⟩ := (system_stable raw).run hr hinit
  have hleads := fun id p hp => (hsteady id p hp).leads (operationTimeout_pos (raw id))
  constructor
  · intro id p hp hleader
    obtain ⟨hnow, deadline, hlease, hle⟩ := hleads id p hp hleader
    exact ⟨hnow, deadline, hlease, hle⟩
  · intro id p id' p' hp hp' hleader hleader'
    exact (hleads id p hp hleader).2.unique (hleads id' p' hp' hleader').2

/-- Two instances; the first timer of the second fires at `timer`. -/
def pair (timer : Int) : Table String Instance :=
  ⟨[("a", Instance.init 0), ("b", Instance.init timer)], by simp⟩

theorem fresh_pair (timer : Int) : Fresh (pair timer) := by
  intro id p hp
  simp only [pair, Table.Has, List.mem_cons, Prod.mk.injEq, List.not_mem_nil, or_false] at hp
  rcases hp with ⟨-, hp⟩ | ⟨-, hp⟩
  · exact ⟨0, hp⟩
  · exact ⟨timer, hp⟩

/-- A pause of hundredths of a second. -/
def pause (hundredths : Nat) : Processes.Input String Action Late := .tick (hundredths * 10000000)

/-- The source of jitter that gives the longest delay before a renewal. -/
def longest : Nat := 1500000000

/-- The first instance acquires, one renewal fails and the next succeeds; the second
one is refused. -/
def renewedRun : Processes.State String Keys Instance ×
    List (Processes.Input String Action Late × Unit) :=
  ((system fun _ => Config.default).machine.restrict fun s i =>
    Processes.meets (timely fun _ => Config.default.normalized) s i = true).exec
      ⟨Keys.init, pair (400 * 10 * millisecond)⟩
      [ .act "a" .fire, .act "a" .script, .act "a" (.reply longest)
      , pause 375, .act "a" .fire, pause 100, .act "b" .fire, .act "b" .script
      , .act "b" (.reply 0), pause 100, .act "a" (.fail longest)
      , pause 175, .act "a" .fire, .act "a" .script, .act "a" (.reply longest) ]

theorem leadership_timely_renewed :
    (renewedRun.1.procs.find "a").map (·.isLeader) = some true ∧
      OneLeader (fun _ => Config.default) renewedRun.1 := by
  have hrun : ((system fun _ => Config.default).machine.restrict fun s i =>
      Processes.meets (timely fun _ => Config.default.normalized) s i = true).Run
        ⟨Keys.init, pair (400 * 10 * millisecond)⟩ renewedRun.2 renewedRun.1 :=
    Machine.run_exec _ _ (by decide)
  exact ⟨by decide, leadership_timely _ _ (fresh_pair _) _ _ hrun⟩

/-- Four renewals fail.  The third one leaves a little more than `ExpiryGuard`, and
the fourth is still under way when the lease is over. -/
def expiredRun : Processes.State String Keys Instance ×
    List (Processes.Input String Action Late × Unit) :=
  (system fun _ => Config.default).machine.exec ⟨Keys.init, pair (1501 * 10 * millisecond)⟩
    [ .act "a" .fire, .act "a" .script, .act "a" (.reply longest)
    , pause 375, .act "a" .fire, pause 200, .act "a" (.fail longest)
    , pause 175, .act "a" .fire, pause 200, .act "a" (.fail longest)
    , pause 175, .act "a" .fire, pause 170, .act "a" (.fail longest)
    , pause 175, .act "a" .fire, pause 31
    , .act "b" .fire, .act "b" .script, .act "b" (.reply 0) ]

/-- The first instance stops: it has released the lease and is told so later. -/
def releasedRun : Processes.State String Keys Instance ×
    List (Processes.Input String Action Late × Unit) :=
  (system fun _ => Config.default).machine.exec ⟨Keys.init, pair (100 * 10 * millisecond)⟩
    [ .act "a" .fire, .act "a" .script, .act "a" (.reply longest)
    , pause 100, .act "a" .cancel, .act "a" .script
    , .act "b" .fire, .act "b" .script, .act "b" (.reply 0) ]

/-- With the default configuration both instances lead. -/
theorem two_leaders :
    ((system fun _ => Config.default).machine.Run ⟨Keys.init, pair (1501 * 10 * millisecond)⟩
        expiredRun.2 expiredRun.1 ∧
      (expiredRun.1.procs.find "a").map (·.isLeader) = some true ∧
      (expiredRun.1.procs.find "b").map (·.isLeader) = some true) ∧
    ((system fun _ => Config.default).machine.Run ⟨Keys.init, pair (100 * 10 * millisecond)⟩
        releasedRun.2 releasedRun.1 ∧
      (releasedRun.1.procs.find "a").map (·.isLeader) = some true ∧
      (releasedRun.1.procs.find "b").map (·.isLeader) = some true) := by
  refine ⟨⟨Machine.run_exec _ _ (by decide), ?_, ?_⟩,
    ⟨Machine.run_exec _ _ (by decide), ?_, ?_⟩⟩
  · decide
  · decide
  · decide
  · decide

end RogiCollector.Ports.DiscoverLeader
