import Mathlib.Algebra.Order.Ring.Rat
import RogiCollector.Ports.CookieReader
import RogiCollector.Verified.Processes

/-!
# One login at a time

`refresh` is called by request threads and by the scheduler.  A call that finds an attempt
running waits for its end, one that comes less than a minute after the last attempt began
is answered from it, any other one starts an attempt.  What is read and written under the
condition is one step; logging in and writing the file are steps of their own, so that
other threads come in between.  A waiting thread may look again at any time.

The history at the end of `Manager` is not read by the code: when attempts began, how they
ended, and what each call reported.

An attempt fails with the text of its `CookieError`, and calls tell a failure from a
success by whether that text is empty.  The codes of the source are not, so the results
are about logins that raise no `CookieError` without text.

## Main definitions

* `system` — threads around a `CookieManager`.
* `SingleFlight` — what holds in every state.
-/

namespace RogiCollector.Ports.CookieRefresh

open Verified
open Verified.Json (PyString Text size)
open Cookies

/-! ## The manager -/

/-- What a call tells its caller: it returns, it raises a `CookieError`, or it raises
`refresh_in_progress` after 130 seconds. -/
inductive Report where
  | returned
  | raised (code : String)
  | timedOut
  deriving Repr, DecidableEq

/-- What an attempt found when it began. -/
structure Before where
  file : Option Text
  updatedAt : ℚ
  deriving Repr, DecidableEq

/-- How an attempt ended: its error, what it found and left, and whether it had replaced
the file when it failed. -/
structure Finish where
  error : Option String
  before : Before
  file : Option Text
  updatedAt : ℚ
  late : Bool
  deriving Repr, DecidableEq

/-- The end of a call: the attempt it ran, by its place among those that ended, and how many
had ended when it read the result. -/
structure Call where
  report : Report
  own : Option Nat
  seen : Nat
  deriving Repr, DecidableEq

/-- A `CookieManager` with its file and clock; no attempt was made while `lastAttempt` is 0. -/
structure Manager (ν : Type) where
  clock : ℚ
  refreshing : Bool
  lastAttempt : ℚ
  updatedAt : ℚ
  error : Option String
  file : Option Text
  -- History; `starts` and `calls` have the newest first.
  runner : Option ν
  starts : List ℚ
  finishes : List Finish
  calls : List Call
  deriving Repr, DecidableEq

variable {ν : Type}

/-- A manager without attempts. -/
def Manager.init (clock updatedAt : ℚ) (file : Option Text) : Manager ν :=
  ⟨clock, false, 0, updatedAt, none, file, none, [], [], []⟩

def daily : ℚ := 24 * 60 * 60

namespace Manager

variable (k : Manager ν)

/-- Time passes. -/
def wait (later : ℚ) : Manager ν := { k with clock := max k.clock later }

/-- `due`; `later` is the second reading of the clock. -/
def due (later : ℚ) : Bool :=
  !k.refreshing && k.updatedAt + daily ≤ k.clock &&
    (k.lastAttempt = 0 ∨
      (if k.error = some "login_not_confirmed" ∨ k.error = some "login_timeout" then daily
        else 300) ≤ (k.wait later).clock - k.lastAttempt)

/-- `if self.error: raise CookieError(self.error)`, else `return self.status()`. -/
def reportOf : Option String → Report
  | none => .returned
  | some code => if code = "" then .returned else .raised code

/-- A call ends. -/
def answer (report : Report) (own : Option Nat) : Manager ν :=
  { k with calls := ⟨report, own, k.finishes.length⟩ :: k.calls }

/-- An attempt begins; the clock is read once more. -/
def start (name : ν) (later : ℚ) : Manager ν :=
  { k with
    clock := max k.clock later
    refreshing := true
    lastAttempt := max k.clock later
    runner := some name
    starts := max k.clock later :: k.starts }

/-- The `finally` of an attempt. -/
def finish (b : Before) (error : Option String) (late : Bool) : Manager ν :=
  { k with
    error
    refreshing := false
    runner := none
    finishes := k.finishes ++ [⟨error, b, k.file, k.updatedAt, late⟩] }

end Manager

/-! ## Threads -/

/-- How far an attempt has come. -/
inductive Stage where
  | login
  | returned (raw : PyValue)
  | accepted (cookies : List StoredCookie)
  | writing (s : Snapshot)
  | replaced (s : Snapshot)
  | stored (s : Snapshot)
  | published
  | failed (code : String) (late : Bool)

/-- Where a thread is; `calling` is the scheduler that found a refresh due. -/
inductive Phase where
  | idle
  | calling
  | waiting
  | attempt (b : Before) (stage : Stage)
  | ended (n : Nat) (error : Option String)

inductive Action where
  | check (later : ℚ)
  | enter (later : ℚ)
  | wake
  | timeOut
  | loginReturns (raw : PyValue)
  | raises (failure : Failure)
  | proceed
  | finish
  | leave

section System

variable (U : Unicode) (uid : PyString → Option (List PyString)) (a : Account)

/-- The first block of `refresh`. -/
def enter (name : ν) (k : Manager ν) (later : ℚ) : Manager ν × Phase :=
  if k.refreshing then (k, .waiting)
  else if k.lastAttempt ≠ 0 ∧ k.clock - k.lastAttempt < 60 then
    (k.answer (Manager.reportOf k.error) none, .idle)
  else (k.start name later, .attempt ⟨k.file, k.updatedAt⟩ .login)

/-- A waiting thread looks again. -/
def wake (k : Manager ν) : Manager ν × Phase :=
  if k.refreshing then (k, .waiting) else (k.answer (Manager.reportOf k.error) none, .idle)

/-- Normalizing what `login` returned, and looking for the tickets. -/
def accept (raw : PyValue) (now : ℚ) : Stage :=
  match normalizeCookies U raw now with
  | .error failure => .failed (errorCode failure) false
  | .ok cookies =>
    if authenticatedCookies uid cookies a.id then .accepted cookies
    else .failed "login_not_confirmed" false

/-- The first check of `atomic_store`. -/
def checkSize (s : Snapshot) : Stage :=
  if maxBytes < size s.text then .failed "cookie_result_too_large" false else .writing s

/-- The snapshot of the cookies. -/
def compose (cookies : List StoredCookie) (now : ℚ) : Stage :=
  checkSize ⟨1, a.key, truncate now, cookies⟩

/-- The next step of an attempt, if nothing is raised. -/
def proceed (k : Manager ν) : Stage → Manager ν × Stage
  | .returned raw => (k, accept U uid a raw k.clock)
  | .accepted cookies => (k, compose a cookies k.clock)
  | .writing s => ({ k with file := some s.text }, .replaced s)
  | .replaced s => (k, .stored s)
  | .stored s => ({ k with updatedAt := s.updatedAt }, .published)
  | stage => (k, stage)

/-- What an exception does to an attempt. -/
def Stage.raise (failure : Failure) : Stage → Stage
  | .replaced _ => .failed (errorCode failure) true
  | _ => .failed (errorCode failure) false

/-- The local variable `error` behind the handlers, and whether the file was replaced. -/
def Stage.result : Stage → Option String × Bool
  | .failed code late => (some code, late)
  | _ => (none, false)

def act (name : ν) (k : Manager ν) (p : Phase) (action : Action) : Manager ν × Phase :=
  match p with
  | .idle =>
    match action with
    | .check later => (k.wait later, if k.due later then .calling else .idle)
    | .enter later => enter name k later
    | _ => (k, p)
  | .calling =>
    match action with
    | .enter later => enter name k later
    | _ => (k, p)
  | .waiting =>
    match action with
    | .wake => wake k
    | .timeOut => (k.answer .timedOut none, .idle)
    | _ => (k, p)
  | .attempt b stage =>
    match action with
    | .loginReturns raw => (k, .attempt b (.returned raw))
    | .raises failure => (k, .attempt b (stage.raise failure))
    | .proceed => ((proceed U uid a k stage).1, .attempt b (proceed U uid a k stage).2)
    | .finish =>
      (k.finish b stage.result.1 stage.result.2, .ended k.finishes.length stage.result.1)
    | _ => (k, p)
  | .ended n error =>
    match action with
    | .leave => (k.answer (Manager.reportOf error) (some n), .idle)
    | _ => (k, p)

/-- Which steps there are.  `login` may raise anything; what follows raises a `CookieError`
only where its checks do, and any other exception until the file is stored. -/
def Stage.takes : Stage → Action → Bool
  | .login, .loginReturns _ => true
  | .login, .raises _ => true
  | .returned _, .raises .exception => true
  | .accepted _, .raises .exception => true
  | .writing _, .raises .exception => true
  | .replaced _, .raises .exception => true
  | .returned _, .proceed => true
  | .accepted _, .proceed => true
  | .writing _, .proceed => true
  | .replaced _, .proceed => true
  | .stored _, .proceed => true
  | .published, .finish => true
  | .failed _ _, .finish => true
  | _, _ => false

/-- The scheduler calls only when it found a refresh due; a wait times out only while an
attempt is running. -/
def enabled (scheduler : ν → Bool) (name : ν) (k : Manager ν) (p : Phase) (action : Action) :
    Bool :=
  match p with
  | .idle =>
    match action with
    | .check _ => scheduler name
    | .enter _ => !scheduler name
    | _ => false
  | .calling =>
    match action with
    | .enter _ => true
    | _ => false
  | .waiting =>
    match action with
    | .wake => true
    | .timeOut => k.refreshing
    | _ => false
  | .attempt _ stage => stage.takes action
  | .ended _ _ =>
    match action with
    | .leave => true
    | _ => false

/-- Threads around a manager; the clock may show a later time at any moment. -/
def system (scheduler : ν → Bool) : Processes ν (Manager ν) Phase Action ℚ where
  enabled := enabled scheduler
  act := act U uid a
  stray := Manager.wait
  waits _ _ _ _ := true
  elapse k _ := k

end System

/-! ## What holds in every state -/

/-- The outcome of an attempt, as a call should report it. -/
def Finish.outcome (f : Finish) : Report :=
  match f.error with
  | none => .returned
  | some code => .raised code

/-- A failed attempt left the time as it was, and the file too unless it had replaced it. -/
def Finish.Clean (f : Finish) : Prop :=
  f.error ≠ none → f.updatedAt = f.before.updatedAt ∧ (f.late = false → f.file = f.before.file)

/-- The attempt a call reports: its own, or else the last that had ended. -/
def Call.basis (c : Call) : Nat := c.own.getD (c.seen - 1)

/-- The call reports the outcome of that attempt, unless it timed out. -/
def Call.Told (finishes : List Finish) (c : Call) : Prop :=
  c.report ≠ .timedOut →
    (c.own = none → 0 < c.seen) ∧ finishes[c.basis]?.map Finish.outcome = some c.report

def Phase.loggingIn : Phase → Bool
  | .attempt _ .login => true
  | _ => false

section Spec

variable (uid : PyString → Option (List PyString)) (a : Account)

structure SingleFlight (file : Option Text) (s : Processes.State ν (Manager ν) Phase) : Prop where
  one : ∀ name p name' p', s.procs.Has name p → s.procs.Has name' p' → p.loggingIn = true →
    p'.loggingIn = true → name = name'
  spaced : s.shared.starts.Pairwise fun later earlier => earlier + 60 ≤ later
  file : s.shared.file = file ∨ ∃ snapshot : Snapshot,
    authenticatedCookies uid snapshot.cookies a.id = true ∧ s.shared.file = some snapshot.text
  clean : ∀ f ∈ s.shared.finishes, f.Clean
  told : ∀ c ∈ s.shared.calls, c.Told s.shared.finishes

end Spec

/-! ## The invariant -/

section Invariant

variable (U : Unicode) (uid : PyString → Option (List PyString)) (a : Account)

/-- Some login gives this snapshot. -/
def Stored (s : Snapshot) : Prop := ∃ raw now later, snapshot U uid a raw now later = .ok s

/-- What is known of an attempt at a stage. -/
def Stage.Known (k : Manager ν) (b : Before) : Stage → Prop
  | .login => k.file = b.file ∧ k.updatedAt = b.updatedAt
  | .returned _ => k.file = b.file ∧ k.updatedAt = b.updatedAt
  | .accepted cookies => (k.file = b.file ∧ k.updatedAt = b.updatedAt) ∧
      ∃ raw now, normalizeCookies U raw now = .ok cookies ∧
        authenticatedCookies uid cookies a.id = true
  | .writing s => (k.file = b.file ∧ k.updatedAt = b.updatedAt) ∧ Stored U uid a s
  | .replaced _ => k.updatedAt = b.updatedAt
  | .stored _ => k.updatedAt = b.updatedAt
  | .published => True
  | .failed code late =>
    k.updatedAt = b.updatedAt ∧ (late = false → k.file = b.file) ∧ code ≠ ""

/-- What is known of a thread: it waits for an attempt, and an attempt is run by the thread
that began it. -/
def Known (name : ν) (k : Manager ν) : Phase → Prop
  | .waiting => k.starts ≠ []
  | .attempt b stage => k.runner = some name ∧ stage.Known U uid a k b
  | .ended n error => k.finishes[n]?.map Finish.error = some error
  | _ => True

/-- What is known of the manager. -/
structure Sound (file : Option Text) (k : Manager ν) : Prop where
  positive : 0 < k.clock
  last : k.lastAttempt = k.starts.headD 0
  past : ∀ t ∈ k.starts, 0 < t ∧ t ≤ k.clock
  spaced : k.starts.Pairwise fun later earlier => earlier + 60 ≤ later
  counted : k.starts.length = k.finishes.length + if k.refreshing then 1 else 0
  runner : k.refreshing = k.runner.isSome
  error : k.error = k.finishes.getLast?.bind Finish.error
  file : k.file = file ∨ ∃ s, Stored U uid a s ∧ k.file = some s.text
  coded : ∀ f ∈ k.finishes, f.error ≠ some ""
  clean : ∀ f ∈ k.finishes, f.Clean
  told : ∀ c ∈ k.calls, c.Told k.finishes

end Invariant

variable {U : Unicode} {uid : PyString → Option (List PyString)} {a : Account}
  {file : Option Text} {k k' : Manager ν} {name name' : ν}

/-- What a step leaves for the thread `name`: attempts that begin and end are added, and the
file and time stay while that thread runs an attempt. -/
structure Keeps (name : ν) (k k' : Manager ν) : Prop where
  starts : k.starts <:+ k'.starts
  finishes : k.finishes <+: k'.finishes
  runner : k.runner = some name →
    k'.runner = k.runner ∧ k'.file = k.file ∧ k'.updatedAt = k.updatedAt

variable {p : Phase}

theorem Known.frame (h : Known U uid a name k p) (hkeeps : Keeps name k k') :
    Known U uid a name k' p := by
  obtain ⟨hstarts, hfinishes, hrunner⟩ := hkeeps
  cases p with
  | idle | calling => trivial
  | waiting =>
    intro hnil
    rw [hnil, List.suffix_nil] at hstarts
    exact h hstarts
  | attempt b stage =>
    obtain ⟨hname, hstage⟩ := h
    obtain ⟨hrunner', hfile, hupdated⟩ := hrunner hname
    refine ⟨hrunner'.trans hname, ?_⟩
    cases stage <;> simp only [Stage.Known, hfile, hupdated] at hstage ⊢ <;> exact hstage
  | ended n error =>
    obtain ⟨l, hl⟩ := hfinishes
    obtain ⟨f, hf, hferror⟩ := Option.map_eq_some_iff.mp h
    have hlt : n < k.finishes.length := (List.getElem?_eq_some_iff.mp hf).1
    have hsame : k'.finishes[n]? = some f := by
      rw [← hl, List.getElem?_append_left hlt, hf]
    simp only [Known, hsame, Option.map_some, hferror]

/-! ### What the steps do to the manager -/

theorem Call.Told.append {finishes l : List Finish} {c : Call} (h : c.Told finishes) :
    c.Told (finishes ++ l) := by
  intro hreport
  obtain ⟨hseen, hbasis⟩ := h hreport
  obtain ⟨f, hf, hfoutcome⟩ := Option.map_eq_some_iff.mp hbasis
  have hlt : c.basis < finishes.length := (List.getElem?_eq_some_iff.mp hf).1
  refine ⟨hseen, ?_⟩
  rw [List.getElem?_append_left hlt, hf, Option.map_some, hfoutcome]

/-- The report of an attempt that has a code or no error is its outcome. -/
theorem reportOf_error {f : Finish} (h : f.error ≠ some "") :
    Manager.reportOf f.error = f.outcome := by
  unfold Manager.reportOf Finish.outcome
  cases herror : f.error with
  | none => rfl
  | some code =>
    rw [herror] at h
    exact if_neg fun hcode => h (congrArg some hcode)

namespace Sound

variable (h : Sound U uid a file k)

include h

theorem wait (later : ℚ) : Sound U uid a file (k.wait later) :=
  { h with
    positive := h.positive.trans_le (le_max_left _ _)
    past t ht := ⟨(h.past t ht).1, (h.past t ht).2.trans (le_max_left _ _)⟩ }

theorem answer {report : Report} {own : Option Nat}
    (htold : (⟨report, own, k.finishes.length⟩ : Call).Told k.finishes) :
    Sound U uid a file (k.answer report own) :=
  { h with
    told c hc := by
      rcases List.mem_cons.mp hc with rfl | hc
      · exact htold
      · exact h.told c hc }

theorem answer_timedOut : Sound U uid a file (k.answer .timedOut none) :=
  h.answer fun hreport => absurd rfl hreport

theorem starts_ne_nil (hrunning : k.refreshing = true) : k.starts ≠ [] := by
  intro hnil
  have hcounted := h.counted
  rw [hnil, hrunning, List.length_nil, if_pos rfl] at hcounted
  omega

/-- Without an attempt running, the error is that of the last one. -/
theorem answer_last (hidle : k.refreshing = false) (hstarted : k.starts ≠ []) :
    Sound U uid a file (k.answer (Manager.reportOf k.error) none) := by
  have hcounted := h.counted
  rw [hidle, if_neg (by decide), Nat.add_zero] at hcounted
  have hpos : 0 < k.finishes.length := by
    rw [← hcounted]
    exact List.length_pos_iff.mpr hstarted
  obtain ⟨f, hf⟩ : ∃ f, k.finishes[k.finishes.length - 1]? = some f :=
    ⟨_, List.getElem?_eq_getElem (by omega)⟩
  have herror := h.error
  rw [List.getLast?_eq_getElem?, hf, Option.bind_some] at herror
  have hcoded := h.coded f (List.mem_of_getElem? hf)
  refine h.answer fun _ => ⟨fun _ => hpos, ?_⟩
  have hbasis : Call.basis ⟨Manager.reportOf k.error, none, k.finishes.length⟩ =
      k.finishes.length - 1 := rfl
  rw [hbasis, hf, Option.map_some, herror, reportOf_error hcoded]

/-- A call that ran an attempt reports its outcome. -/
theorem answer_own {n : Nat} {error : Option String}
    (hown : k.finishes[n]?.map Finish.error = some error) :
    Sound U uid a file (k.answer (Manager.reportOf error) (some n)) := by
  obtain ⟨f, hf, rfl⟩ := Option.map_eq_some_iff.mp hown
  have hcoded := h.coded f (List.mem_of_getElem? hf)
  refine h.answer fun _ => ⟨fun hnone => absurd hnone (by simp), ?_⟩
  have hbasis : Call.basis ⟨Manager.reportOf f.error, some n, k.finishes.length⟩ = n := rfl
  rw [hbasis, hf, Option.map_some, reportOf_error hcoded]

theorem le_lastAttempt {t : ℚ} (ht : t ∈ k.starts) : t ≤ k.lastAttempt := by
  have hspaced := h.spaced
  rw [h.last]
  cases hstarts : k.starts with
  | nil =>
    rw [hstarts] at ht
    simp at ht
  | cons t' ts =>
    rw [hstarts] at ht hspaced
    rcases List.mem_cons.mp ht with rfl | ht
    · exact le_refl _
    · have hearlier := (List.pairwise_cons.mp hspaced).1 t ht
      simp only [List.headD_cons]
      linarith

/-- An attempt begins a minute after the last one. -/
theorem start (hidle : k.refreshing = false)
    (hold : ¬(k.lastAttempt ≠ 0 ∧ k.clock - k.lastAttempt < 60)) (later : ℚ) :
    Sound U uid a file (k.start name later) :=
  { h with
    positive := h.positive.trans_le (le_max_left _ _)
    last := rfl
    past t ht := by
      rcases List.mem_cons.mp ht with rfl | ht
      · exact ⟨h.positive.trans_le (le_max_left _ _), le_refl _⟩
      · exact ⟨(h.past t ht).1, (h.past t ht).2.trans (le_max_left _ _)⟩
    spaced := by
      refine List.pairwise_cons.mpr ⟨fun t ht => ?_, h.spaced⟩
      have hle := h.le_lastAttempt ht
      have hne : k.lastAttempt ≠ 0 := ((h.past t ht).1.trans_le hle).ne'
      have hminute : 60 ≤ k.clock - k.lastAttempt := not_lt.mp fun hlt => hold ⟨hne, hlt⟩
      have hmax := le_max_left k.clock later
      linarith
    counted := by
      have hcounted := h.counted
      rw [hidle] at hcounted
      simpa [Manager.start] using hcounted
    runner := rfl }

theorem finish {b : Before} {error : Option String} {late : Bool} (hrunning : k.refreshing = true)
    (hcoded : error ≠ some "") (hclean : Finish.Clean ⟨error, b, k.file, k.updatedAt, late⟩) :
    Sound U uid a file (k.finish b error late) :=
  { h with
    counted := by
      have hcounted := h.counted
      rw [hrunning] at hcounted
      simpa [Manager.finish] using hcounted
    runner := rfl
    error := by simp [Manager.finish]
    coded f hf := by
      rcases List.mem_append.mp hf with hf | hf
      · exact h.coded f hf
      · obtain rfl := List.mem_singleton.mp hf
        exact hcoded
    clean f hf := by
      rcases List.mem_append.mp hf with hf | hf
      · exact h.clean f hf
      · obtain rfl := List.mem_singleton.mp hf
        exact hclean
    told c hc := (h.told c hc).append }

theorem replace {s : Snapshot} (hs : Stored U uid a s) :
    Sound U uid a file { k with file := some s.text } :=
  { h with file := Or.inr ⟨s, hs, rfl⟩ }

theorem publish (t : ℚ) : Sound U uid a file { k with updatedAt := t } := { h with }

end Sound

/-! ### What the steps do to a thread -/

/-- No `CookieError` without text is raised. -/
def coded (action : Action) : Bool :=
  match action with
  | .raises failure => errorCode failure ≠ ""
  | _ => true

variable {b : Before}

theorem accept_known (raw : PyValue) (now : ℚ) (h : k.file = b.file ∧ k.updatedAt = b.updatedAt) :
    (accept U uid a raw now).Known U uid a k b := by
  unfold accept
  split
  · rename_i failure hfailure
    exact ⟨h.2, fun _ => h.1, errorCode_normalizeCookies hfailure⟩
  · rename_i cookies hcookies
    split
    · rename_i hauth
      exact ⟨h, raw, now, hcookies, hauth⟩
    · exact ⟨h.2, fun _ => h.1, by decide⟩

theorem compose_known {cookies : List StoredCookie} {raw : PyValue} {now : ℚ} (later : ℚ)
    (h : k.file = b.file ∧ k.updatedAt = b.updatedAt)
    (hcookies : normalizeCookies U raw now = .ok cookies)
    (hauth : authenticatedCookies uid cookies a.id = true) :
    (compose a cookies later).Known U uid a k b := by
  rw [compose, checkSize]
  by_cases hsize : maxBytes < size (⟨1, a.key, truncate later, cookies⟩ : Snapshot).text
  · rw [if_pos hsize]
    exact ⟨h.2, fun _ => h.1, by decide⟩
  · rw [if_neg hsize]
    refine ⟨h, raw, now, later, ?_⟩
    simp only [snapshot, hcookies, hauth, if_true, if_neg hsize]

variable {stage : Stage}

theorem proceed_sound (h : Sound U uid a file k) (hknown : stage.Known U uid a k b) :
    Sound U uid a file (proceed U uid a k stage).1 ∧
      (proceed U uid a k stage).2.Known U uid a (proceed U uid a k stage).1 b ∧
      (proceed U uid a k stage).1.runner = k.runner := by
  cases stage with
  | login | replaced | failed => exact ⟨h, hknown, rfl⟩
  | returned raw => exact ⟨h, accept_known raw k.clock hknown, rfl⟩
  | accepted cookies =>
    obtain ⟨hsame, raw, now, hcookies, hauth⟩ := hknown
    simp only [proceed]
    exact ⟨h, compose_known k.clock hsame hcookies hauth, trivial⟩
  | writing s => exact ⟨h.replace hknown.2, hknown.1.2, rfl⟩
  | stored s => exact ⟨h.publish s.updatedAt, trivial, rfl⟩
  | published => exact ⟨h, trivial, rfl⟩

theorem raise_known {failure : Failure} (hknown : stage.Known U uid a k b)
    (htakes : stage.takes (.raises failure) = true) (hcoded : errorCode failure ≠ "") :
    (stage.raise failure).Known U uid a k b := by
  cases stage with
  | login | returned => exact ⟨hknown.2, fun _ => hknown.1, hcoded⟩
  | accepted | writing => exact ⟨hknown.1.2, fun _ => hknown.1.1, hcoded⟩
  | replaced s => exact ⟨hknown, fun hlate => absurd hlate (by decide), hcoded⟩
  | stored | published | failed => simp [Stage.takes] at htakes

/-- How an attempt ends. -/
theorem result_known (hknown : stage.Known U uid a k b) (htakes : stage.takes .finish = true) :
    stage.result.1 ≠ some "" ∧
      Finish.Clean ⟨stage.result.1, b, k.file, k.updatedAt, stage.result.2⟩ := by
  cases stage with
  | published => exact ⟨by simp [Stage.result], fun hne => absurd rfl hne⟩
  | failed code late =>
    obtain ⟨hupdated, hfile, hcode⟩ := hknown
    exact ⟨fun heq => hcode (Option.some.inj heq), fun _ => ⟨hupdated, hfile⟩⟩
  | _ => simp [Stage.takes] at htakes

theorem enter_sound (h : Sound U uid a file k) (later : ℚ) :
    Sound U uid a file (enter name k later).1 ∧
      Known U uid a name (enter name k later).1 (enter name k later).2 := by
  unfold enter
  split
  · rename_i hrunning
    exact ⟨h, h.starts_ne_nil hrunning⟩
  · rename_i hidle
    rw [Bool.not_eq_true] at hidle
    split
    · rename_i hrecent
      have hstarted : k.starts ≠ [] := by
        intro hnil
        have hlast := h.last
        rw [hnil] at hlast
        exact hrecent.1 hlast
      exact ⟨h.answer_last hidle hstarted, trivial⟩
    · rename_i hold
      exact ⟨h.start hidle hold later, rfl, rfl, rfl⟩

theorem act_sound {scheduler : ν → Bool} {action : Action} (h : Sound U uid a file k)
    (hknown : Known U uid a name k p) (henabled : enabled scheduler name k p action = true)
    (hcoded : coded action = true) :
    Sound U uid a file (act U uid a name k p action).1 ∧
      Known U uid a name (act U uid a name k p action).1 (act U uid a name k p action).2 := by
  cases p with
  | idle =>
    cases action with
    | check later =>
      refine ⟨h.wait later, ?_⟩
      simp only [act]
      split <;> trivial
    | enter later => exact enter_sound h later
    | _ => contradiction
  | calling =>
    cases action with
    | enter later => exact enter_sound h later
    | _ => contradiction
  | waiting =>
    cases action with
    | wake =>
      simp only [act, wake]
      split
      · exact ⟨h, hknown⟩
      · rename_i hidle
        rw [Bool.not_eq_true] at hidle
        exact ⟨h.answer_last hidle hknown, trivial⟩
    | timeOut => exact ⟨h.answer_timedOut, trivial⟩
    | _ => contradiction
  | attempt b stage =>
    obtain ⟨hname, hstage⟩ := hknown
    have hrunning : k.refreshing = true := by
      rw [h.runner, hname]
      rfl
    cases action with
    | loginReturns raw =>
      cases stage with
      | login => exact ⟨h, hname, hstage⟩
      | _ => contradiction
    | raises failure =>
      have hcode : errorCode failure ≠ "" := of_decide_eq_true hcoded
      exact ⟨h, hname, raise_known hstage henabled hcode⟩
    | proceed =>
      obtain ⟨hsound, hknown', hrunner⟩ := proceed_sound h hstage
      exact ⟨hsound, hrunner.trans hname, hknown'⟩
    | finish =>
      obtain ⟨hcode, hclean⟩ := result_known hstage henabled
      simp only [act]
      refine ⟨h.finish hrunning hcode hclean, ?_⟩
      simp [Known, Manager.finish]
    | _ =>
      cases stage <;> contradiction
  | ended n error =>
    cases action with
    | leave => exact ⟨h.answer_own hknown, trivial⟩
    | _ => contradiction

/-! ### What the steps leave for the other threads -/

theorem Keeps.refl (name : ν) (k : Manager ν) : Keeps name k k :=
  ⟨List.suffix_rfl, List.prefix_rfl, fun _ => ⟨rfl, rfl, rfl⟩⟩

theorem Keeps.wait (name : ν) (k : Manager ν) (later : ℚ) : Keeps name k (k.wait later) :=
  ⟨List.suffix_rfl, List.prefix_rfl, fun _ => ⟨rfl, rfl, rfl⟩⟩

theorem Keeps.answer (name : ν) (k : Manager ν) (report : Report) (own : Option Nat) :
    Keeps name k (k.answer report own) :=
  ⟨List.suffix_rfl, List.prefix_rfl, fun _ => ⟨rfl, rfl, rfl⟩⟩

/-- While a thread runs an attempt, the others have none to lose. -/
theorem Keeps.of_runner (hname : k.runner = some name) (hne : name' ≠ name)
    (hstarts : k.starts <:+ k'.starts) (hfinishes : k.finishes <+: k'.finishes) :
    Keeps name' k k' := by
  refine ⟨hstarts, hfinishes, fun hname' => ?_⟩
  rw [hname, Option.some.injEq] at hname'
  exact absurd hname'.symm hne

theorem enter_keeps (h : Sound U uid a file k) (later : ℚ) :
    Keeps name' k (enter name k later).1 := by
  unfold enter
  split
  · exact Keeps.refl name' k
  · rename_i hidle
    split
    · exact Keeps.answer name' k _ none
    · refine ⟨List.suffix_cons _ _, List.prefix_rfl, fun hname' => ?_⟩
      rw [h.runner, hname'] at hidle
      exact absurd rfl hidle

theorem proceed_keeps (U : Unicode) (uid : PyString → Option (List PyString)) (a : Account)
    (k : Manager ν) (stage : Stage) :
    (proceed U uid a k stage).1.starts = k.starts ∧
      (proceed U uid a k stage).1.finishes = k.finishes := by
  cases stage <;> exact ⟨rfl, rfl⟩

theorem act_keeps (action : Action) (h : Sound U uid a file k) (hknown : Known U uid a name k p)
    (hne : name' ≠ name) :
    Keeps name' k (act U uid a name k p action).1 := by
  have hrefl := Keeps.refl name' k
  cases p with
  | idle =>
    cases action with
    | check later => exact Keeps.wait name' k later
    | enter later => exact enter_keeps h later
    | _ => exact hrefl
  | calling =>
    cases action with
    | enter later => exact enter_keeps h later
    | _ => exact hrefl
  | waiting =>
    cases action with
    | wake =>
      simp only [act, wake]
      split
      · exact hrefl
      · exact Keeps.answer name' k _ none
    | timeOut => exact Keeps.answer name' k _ none
    | _ => exact hrefl
  | attempt b stage =>
    have hname := hknown.1
    cases action with
    | proceed =>
      obtain ⟨hstarts, hfinishes⟩ := proceed_keeps U uid a k stage
      refine Keeps.of_runner hname hne ?_ ?_
      · exact hstarts ▸ List.suffix_rfl
      · exact hfinishes ▸ List.prefix_rfl
    | finish => exact Keeps.of_runner hname hne List.suffix_rfl (List.prefix_append _ _)
    | _ => exact hrefl
  | ended n error =>
    cases action with
    | leave => exact Keeps.answer name' k _ _
    | _ => exact hrefl

/-! ## Every run -/

theorem system_stable (U : Unicode) (uid : PyString → Option (List PyString)) (a : Account)
    (scheduler : ν → Bool) (file : Option Text) :
    (system U uid a scheduler).Stable (fun _ _ _ action => coded action)
      (fun k => Sound U uid a file k) (fun name k p => Known U uid a name k p) where
  act _ _ _ _ h hknown henabled hcoded := act_sound h hknown henabled hcoded
  frame _ _ _ action _ _ hne h hknown hknown' _ _ :=
    hknown'.frame (act_keeps action h hknown hne)
  stray k later h := ⟨h.wait later, fun name _ hknown => hknown.frame (Keeps.wait name k later)⟩
  elapse _ _ h := h
  waits _ _ _ _ _ hknown _ := hknown

theorem Sound.init {clock : ℚ} (hclock : 0 < clock) (updatedAt : ℚ) (file : Option Text) :
    Sound U uid a file (Manager.init clock updatedAt file : Manager ν) where
  positive := hclock
  last := rfl
  past _ ht := absurd ht List.not_mem_nil
  spaced := List.Pairwise.nil
  counted := rfl
  runner := rfl
  error := rfl
  file := Or.inl rfl
  coded _ hf := absurd hf List.not_mem_nil
  clean _ hf := absurd hf List.not_mem_nil
  told _ hc := absurd hc List.not_mem_nil

variable [DecidableEq ν]

/-- In every run of any threads from a manager without attempts, whatever logins return and
raise, except a `CookieError` without text: one login at a time, attempts a minute apart, only
snapshots with the tickets of the account in the file, failed attempts that change nothing, and
calls that report the last attempt that ended or their own. -/
theorem refresh_single_flight (U : Unicode) (uid : PyString → Option (List PyString)) (a : Account)
    (scheduler : ν → Bool) (clock updatedAt : ℚ) (file : Option Text) (threads : Table ν Phase)
    (hclock : 0 < clock) (hthreads : ∀ name p, threads.Has name p → p = .idle)
    (tr : List (Processes.Input ν Action ℚ × Unit)) (s : Processes.State ν (Manager ν) Phase)
    (hr : ((system U uid a scheduler).machine.restrict fun s i =>
      Processes.meets (fun _ _ _ action => coded action) s i = true).Run
        ⟨Manager.init clock updatedAt file, threads⟩ tr s) :
    SingleFlight uid a file s := by
  have hinit : Processes.Holds (fun k => Sound U uid a file k)
      (fun name k p => Known U uid a name k p)
      (⟨Manager.init clock updatedAt file, threads⟩ :
        Processes.State ν (Manager ν) Phase) := by
    refine ⟨Sound.init hclock updatedAt file, fun name p hp => ?_⟩
    rw [hthreads name p hp]
    trivial
  obtain ⟨hsound, hknown⟩ := (system_stable U uid a scheduler file).run hr hinit
  have hrunner : ∀ name p, s.procs.Has name p → p.loggingIn = true →
      s.shared.runner = some name := by
    intro name p hp hlogin
    have hp' := hknown name p hp
    cases p with
    | attempt b stage => exact hp'.1
    | _ => contradiction
  constructor
  · intro name p name' p' hp hp' hlogin hlogin'
    have hname := hrunner name p hp hlogin
    rw [hrunner name' p' hp' hlogin', Option.some.injEq] at hname
    exact hname.symm
  · exact hsound.spaced
  · rcases hsound.file with hfile | ⟨snap, ⟨raw, now, later, hstored⟩, hfile⟩
    · exact Or.inl hfile
    · exact Or.inr ⟨snap, (snapshot_eq_ok hstored).2.1, hfile⟩
  · exact hsound.clean
  · exact hsound.told

/-- Two request threads. -/
def pair : Table Bool Phase := ⟨[(false, .idle), (true, .idle)], by simp⟩

theorem pair_idle (name : Bool) (p : Phase) (h : pair.Has name p) : p = .idle := by
  simp only [pair, Table.Has, List.mem_cons, Prod.mk.injEq, List.not_mem_nil, or_false] at h
  rcases h with ⟨-, h⟩ | ⟨-, h⟩ <;> exact h

/-- A login of more than a minute.  One thread waits for it and is then too slow: the other
one has already begun the next attempt, which fails, and that is what the first one reports. -/
def slowRun : Processes.State Bool (Manager Bool) Phase ×
    List (Processes.Input Bool Action ℚ × Unit) :=
  ((system asciiUnicode fixtureUid fixtureAccount fun _ => false).machine.restrict fun s i =>
    Processes.meets (fun _ _ _ action => coded action) s i = true).exec
      ⟨Manager.init 1700000000 0 none, pair⟩
      [ .act false (.enter 0), .act true (.enter 0), .stray 1700000090
      , .act false (.loginReturns (storedValue (fixtureCookies 0))), .act false .proceed
      , .act false .proceed, .act false .proceed, .act false .proceed, .act false .proceed
      , .act false .finish, .act false .leave, .act false (.enter 0), .act true .wake
      , .act false (.raises (.cookieError "login_timeout")), .act false .finish
      , .act true .wake, .act false .leave ]

theorem slowRun_run :
    ((system asciiUnicode fixtureUid fixtureAccount fun _ => false).machine.restrict
      fun s i => Processes.meets (fun _ _ _ action => coded action) s i = true).Run
        ⟨Manager.init 1700000000 0 none, pair⟩ slowRun.2 slowRun.1 :=
  Machine.run_exec _ _ (by decide +kernel)

theorem refresh_single_flight_slow :
    slowRun.1.shared.calls =
        [⟨.raised "login_timeout", some 1, 2⟩, ⟨.raised "login_timeout", none, 2⟩,
          ⟨.returned, some 0, 1⟩] ∧
      slowRun.1.shared.updatedAt = 1700000090 ∧
      SingleFlight fixtureUid fixtureAccount none slowRun.1 := by
  refine ⟨?_, ?_, ?_⟩
  · decide +kernel
  · decide +kernel
  · exact refresh_single_flight _ _ _ _ _ _ _ _ (by norm_num) pair_idle _ _ slowRun_run

/-- A login that raises a `CookieError` without text. -/
def emptyRun : Processes.State Bool (Manager Bool) Phase ×
    List (Processes.Input Bool Action ℚ × Unit) :=
  (system asciiUnicode fixtureUid fixtureAccount fun _ => false).machine.exec
    ⟨Manager.init 1700000000 0 none, pair⟩
    [ .act false (.enter 0), .act false (.raises (.cookieError "")), .act false .finish
    , .act false .leave ]

theorem emptyRun_run :
    (system asciiUnicode fixtureUid fixtureAccount fun _ => false).machine.Run
      ⟨Manager.init 1700000000 0 none, pair⟩ emptyRun.2 emptyRun.1 :=
  Machine.run_exec _ _ (by decide)

/-- The attempt failed and the call returns. -/
theorem failure_returned :
    (system asciiUnicode fixtureUid fixtureAccount fun _ => false).machine.Run
        ⟨Manager.init 1700000000 0 none, pair⟩ emptyRun.2 emptyRun.1 ∧
      emptyRun.1.shared.finishes.map Finish.outcome = [.raised ""] ∧
      emptyRun.1.shared.calls = [⟨.returned, some 0, 1⟩] ∧
      ¬SingleFlight fixtureUid fixtureAccount none emptyRun.1 := by
  have hcalls : emptyRun.1.shared.calls = [⟨.returned, some 0, 1⟩] := by decide
  have hfinishes : emptyRun.1.shared.finishes.map Finish.outcome = [.raised ""] := by
    decide
  refine ⟨emptyRun_run, hfinishes, hcalls, fun h => ?_⟩
  have htold := h.told ⟨.returned, some 0, 1⟩ (by rw [hcalls]; exact List.mem_singleton.mpr rfl)
  have hbasis := (htold (by decide)).2
  rw [← List.getElem?_map, hfinishes] at hbasis
  simp [Call.basis] at hbasis

end RogiCollector.Ports.CookieRefresh
