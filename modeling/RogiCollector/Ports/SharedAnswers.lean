import RogiCollector.Verified.JsonScan
import RogiCollector.Verified.SingleFlight
import RogiCollector.Ports.JournalSchema

/-!
# Answers that clients share

Two handlers run a check for whoever asks first and hand the answer to others.
`ready` of `query/publicapi/server.go` is a flight that the others wait for; the
diagnostics of `discover/internal/broadcast_diagnostics.go` keep the answers of
`shared/soopauth/broadcast.go` by channel and turn others away while a lookup runs.

Each runs the check with the context of the request that happens to be first.
`ready` keeps every status for two seconds, and the diagnostics keep every lookup for
ten, also those that failed because a client went away.
-/

namespace RogiCollector.Ports.SharedAnswers

open Verified
open Verified.Json
open Journal (Time second)

/-! ## Readiness -/

/-- The check of `ready`: `CollectionState`, then `ReadProductChat`. -/
def readyCheck : SingleFlight.Check Bool Nat where
  conclude
    | [] => none
    | [true] => none
    | true :: true :: _ => some 200
    | _ => some 503
  keep _ := some (2 * second)

abbrev ReadyState : Type := SingleFlight.State Bool Nat

/-- `ready` between PostgreSQL and Redis that answer every call whose context is
not cancelled. -/
def readyMachine : Machine ReadyState (SingleFlight.Input Bool) Unit :=
  SingleFlight.machine readyCheck id

instance (s : ReadyState) (i : SingleFlight.Input Bool) : Decidable (readyMachine.admits s i) :=
  inferInstanceAs (Decidable (SingleFlight.admits id s i))

theorem readyCheck_good : SingleFlight.ConcludesGood readyCheck id (· = 200) := by
  intro answers a hok hconclude
  match answers with
  | [] => cases hconclude
  | false :: rest => exact absurd (hok false List.mem_cons_self) (by decide)
  | [true] => cases hconclude
  | true :: true :: rest =>
    cases hconclude
    rfl
  | true :: false :: rest => exact absurd (hok false (by simp)) (by decide)

/-! ## The player lookup -/

/-- `BroadcastInfo.State`. -/
inductive LookupState where
  | lookupFailed
  | cookieRequired
  | authRequired
  | offline
  | live
  deriving Repr, DecidableEq

structure BroadcastInfo where
  channelID : String
  state : LookupState
  title : String
  displayName : String
  broadcastID : String
  checkedAt : Time
  cached : Bool
  deriving Repr, DecidableEq

/-- `ValidChannelID`: `^[A-Za-z0-9_-]{1,50}$`. -/
def validChannelID (id : String) : Bool :=
  1 ≤ id.toList.length ∧ id.toList.length ≤ 50 ∧
    id.toList.all fun c => c.isAlpha ∨ c.isDigit ∨ c = '_' ∨ c = '-'

/-- What `client.Do` and reading the body give: an error, which may be that no
cookie is available, or a response whose body could be read or not. -/
inductive PlayerAnswer where
  | failed (cookieUnavailable : Bool)
  | response (status : Nat) (body : Option Bytes)
  deriving Repr, DecidableEq

/-- `CHANNEL` of the player's answer. -/
structure Channel where
  result : Text
  chatNo : String
  title : String
  name : String
  number : Text
  deriving Repr, DecidableEq

def zeroChannel : Channel := ⟨[], "", "", "", []⟩

/-- `json.RawMessage` keeps the text, also that of `null`. -/
def rawValue (_held raw : Text) : Option Text := some raw

def decodeChannel (held : Channel) (raw : Text) : Option Channel :=
  if raw = nullText then some held
  else do
    let ms ← readObject raw
    return {
      result := ← field rawValue "RESULT" held.result ms
      chatNo := ← field stringValue "CHATNO" held.chatNo ms
      title := ← field stringValue "TITLE" held.title ms
      name := ← field stringValue "BJNICK" held.name ms
      number := ← field rawValue "BNO" held.number ms }

/-- `json.Unmarshal(body, &payload)`. -/
def decodePayload (body : Bytes) : Option Channel := do
  let raw ← document (lossy body)
  if raw = nullText then return zeroChannel
  let ms ← readObject raw
  field decodeChannel "CHANNEL" zeroChannel ms

/-- `strings.Trim(text, "\"")`. -/
def trimQuotes (t : Text) : Text :=
  ((t.dropWhile (· = '"')).reverse.dropWhile (· = '"')).reverse

/-- Errors of `LiveResult`. -/
inductive LiveErr where
  | loginRequired
  | playerUnknown
  deriving Repr, DecidableEq

def liveResult (raw : Text) (chatNo : String) : Except LiveErr Bool :=
  if raw = [] then if chatNo ≠ "" then .ok true else .error .playerUnknown
  else
    match parseInt64 (trimQuotes raw) with
    | none => .error .playerUnknown
    | some code =>
      if code = 0 then if chatNo ≠ "" then .error .playerUnknown else .ok false
      else if code = 1 then if chatNo = "" then .error .playerUnknown else .ok true
      else if code = -6 then .error .loginRequired
      else .error .playerUnknown

/-- `boundedText`: without control characters, and cut to `limit` characters. -/
def boundedText (value : String) (limit : Nat) : String :=
  String.ofList ((value.toList.filter fun c => !(c.toNat < 32 ∨ c.toNat = 127)).take limit)

/-- The number of a broadcast, `^[0-9]{1,30}$`. -/
def broadcastNumber (raw : Text) : String :=
  if 1 ≤ (trimQuotes raw).length ∧ (trimQuotes raw).length ≤ 30 ∧
      (trimQuotes raw).all Char.isDigit then
    String.ofList (trimQuotes raw)
  else ""

/-- The channel of a response that can be used. -/
def PlayerAnswer.channel : PlayerAnswer → Option Channel
  | .response 200 (some body) => if 2 ^ 20 < body.length then none else decodePayload body
  | _ => none

/-- `CheckBroadcast` behind the check of the channel; `now` is when it starts. -/
def lookup (channel : String) (now : Time) (answer : PlayerAnswer) : BroadcastInfo :=
  let result : BroadcastInfo := ⟨channel, .lookupFailed, "", "", "", now, false⟩
  if answer = .failed true then { result with state := .cookieRequired }
  else
    match answer.channel with
    | none => result
    | some c =>
      match liveResult c.result c.chatNo with
      | .error .loginRequired => { result with state := .authRequired }
      | .error .playerUnknown => result
      | .ok false => { result with state := .offline }
      | .ok true =>
        { result with
          state := .live
          title := boundedText c.title 300
          displayName := boundedText c.name 80
          broadcastID := broadcastNumber c.number }

def checkBroadcast (channel : String) (now : Time) (answer : PlayerAnswer) :
    Option BroadcastInfo :=
  if !validChannelID channel then none else some (lookup channel now answer)

/-- The player API answered: its response is one `LiveResult` knows.  That no
cookie is available is not its fault. -/
def answersPlayer (answer : PlayerAnswer) : Bool :=
  answer = .failed true ∨
    answer.channel.any fun c => liveResult c.result c.chatNo ≠ .error .playerUnknown

variable {info : BroadcastInfo}

/-- A lookup that was answered has a state. -/
theorem checkBroadcast_state {channel : String} {now : Time} {answer : PlayerAnswer}
    (h : answersPlayer answer = true) (hinfo : checkBroadcast channel now answer = some info) :
    info.state ≠ .lookupFailed := by
  have hlookup : (lookup channel now answer).state ≠ .lookupFailed := by
    unfold lookup
    by_cases hcookie : answer = .failed true
    · rw [if_pos hcookie]
      exact LookupState.noConfusion
    rw [if_neg hcookie]
    simp only [answersPlayer, hcookie, false_or, decide_eq_true_eq] at h
    cases hchannel : answer.channel with
    | none =>
      rw [hchannel] at h
      cases h
    | some c =>
      rw [hchannel, Option.any_some, decide_eq_true_eq] at h
      dsimp only
      cases hlive : liveResult c.result c.chatNo with
      | error e =>
        cases e with
        | loginRequired => exact LookupState.noConfusion
        | playerUnknown => exact absurd hlive h
      | ok live => cases live <;> simp
  rw [checkBroadcast] at hinfo
  split at hinfo
  · cases hinfo
  · cases hinfo
    exact hlookup

/-! ## The diagnostics handler -/

namespace Diagnostics

/-- What the handler reads of a request. -/
structure HttpRequest where
  method : String
  authorization : String
  body : Text
  deriving Repr, DecidableEq

/-- The body is one object of at most 512 bytes with no member but `channelId`. -/
def parseInput (body : Text) : Option String :=
  if 512 < size body then none
  else do
    let raw ← document body
    if raw = nullText then return ""
    let ms ← readObject raw
    if ms.all fun m => foldName m.1 = foldName "channelId".toList then
      field stringValue "channelId" "" ms
    else none

inductive Reply where
  | status (code : Nat)
  | info (i : BroadcastInfo)
  deriving Repr, DecidableEq

/-- The checks before the handler looks at what it shares. -/
def validate (token : String) (r : HttpRequest) : Except Nat String :=
  if r.method ≠ "POST" then .error 405
  else if token.utf8ByteSize < 32 ∨ r.authorization ≠ "Bearer " ++ token then .error 401
  else
    match parseInput r.body with
    | none => .error 400
    | some channel => if validChannelID channel then .ok channel else .error 400

/-- Where a request is.  `sent` is a lookup whose response is written while the
handler is still busy. -/
inductive Phase where
  | parsed (channel : String) (now : Time)
  | admitted (channel : String)
  | looking (channel : String) (checkedAt : Time)
  | looked (result : Option BroadcastInfo)
  | sent (reply : Reply)
  | answered (reply : Reply)
  deriving Repr, DecidableEq

structure Request where
  phase : Phase
  cancelled : Bool
  deriving Repr, DecidableEq

/-- What the closure of `NewBroadcastDiagnostics` shares, and all requests. -/
structure State where
  clock : Time
  cache : Table String BroadcastInfo
  next : Time
  busy : Bool
  requests : List Request

def State.init : State := ⟨0, Table.empty, 0, false, []⟩

inductive Input where
  | tick (now : Time)
  | request (r : HttpRequest)
  | cancel (k : Nat)
  | lock (k : Nat)
  | call (k : Nat)
  | answer (k : Nat) (a : PlayerAnswer)
  | store (k : Nat)
  | release (k : Nat)

def State.move (s : State) (k : Nat) (f : Request → Request) : State :=
  { s with requests := s.requests.modify k f }

def Request.at (r : Request) (phase : Phase) : Request := { r with phase }

/-- The answer held for a channel if it is less than ten seconds old. -/
def State.fresh (s : State) (channel : String) (now : Time) : Option BroadcastInfo :=
  (s.cache.find channel).filter fun previous => now < previous.checkedAt + 10 * second

/-- The cache with one more answer; it is emptied when it holds 64. -/
def State.cached (s : State) (info : BroadcastInfo) : Table String BroadcastInfo :=
  (if 64 ≤ s.cache.rows.length then Table.empty else s.cache).upsert info.channelID info

def step (token : String) (s : State) (i : Input) : State :=
  match i with
  | .tick now => { s with clock := now }
  | .request r =>
    match validate token r with
    | .error code => { s with requests := s.requests ++ [⟨.answered (.status code), false⟩] }
    | .ok channel => { s with requests := s.requests ++ [⟨.parsed channel s.clock, false⟩] }
  | .cancel k => s.move k fun r => { r with cancelled := true }
  | .lock k =>
    match s.requests[k]?.map Request.phase with
    | some (.parsed channel now) =>
      match s.fresh channel now with
      | some previous => s.move k (·.at (.answered (.info { previous with cached := true })))
      | none =>
        if s.busy ∨ now < s.next then s.move k (·.at (.answered (.status 429)))
        else
          { s.move k (·.at (.admitted channel)) with
            busy := true, next := now + second }
    | _ => s
  | .call k =>
    match s.requests[k]?.map Request.phase with
    | some (.admitted channel) => s.move k (·.at (.looking channel s.clock))
    | _ => s
  | .answer k a =>
    match s.requests[k]?.map Request.phase with
    | some (.looking channel checkedAt) =>
      s.move k (·.at (.looked (checkBroadcast channel checkedAt a)))
    | _ => s
  | .store k =>
    match s.requests[k]?.map Request.phase with
    | some (.looked (some info)) =>
      { s.move k (·.at (.sent (.info info))) with cache := s.cached info }
    | some (.looked none) => s.move k (·.at (.sent (.status 400)))
    | _ => s
  | .release k =>
    match s.requests[k]?.map Request.phase with
    | some (.sent reply) => { s.move k (·.at (.answered reply)) with busy := false }
    | _ => s

def State.cancelled (s : State) (k : Nat) : Bool :=
  (s.requests[k]?.map Request.cancelled).getD false

/-- Time does not run back, and the player API answers unless the request is
cancelled. -/
def admits (s : State) : Input → Prop
  | .tick now => s.clock ≤ now
  | .answer k a => s.cancelled k = true ∨ answersPlayer a = true
  | _ => True

instance (s : State) : (i : Input) → Decidable (admits s i)
  | .tick now => inferInstanceAs (Decidable (s.clock ≤ now))
  | .answer .. => inferInstanceAs (Decidable (_ ∨ _))
  | .request _ | .cancel _ | .lock _ | .call _ | .store _ | .release _ =>
    inferInstanceAs (Decidable True)

def machine (token : String) : Machine State Input Unit where
  admits := admits
  step s i := (step token s i, ())

instance (token : String) (s : State) (i : Input) : Decidable ((machine token).admits s i) :=
  inferInstanceAs (Decidable (admits s i))

/-- What a request was answered. -/
def Request.reply (r : Request) : Option Reply :=
  match r.phase with
  | .sent reply | .answered reply => some reply
  | _ => none

def Phase.isLooking : Phase → Bool
  | .admitted _ | .looking .. => true
  | _ => false

/-- Taking the lock now means looking the channel up. -/
def State.starts (s : State) (k : Nat) : Bool :=
  match s.requests[k]?.map Request.phase with
  | some (.parsed channel now) => (s.fresh channel now).isNone && !s.busy && s.next ≤ now
  | _ => false

/-- No request is cancelled while it looks a channel up, and none that is
cancelled begins to. -/
def steady (s : State) : Input → Bool
  | .cancel k => !(s.requests[k]?.any fun r => r.phase.isLooking)
  | .lock k => !(s.starts k && s.cancelled k)
  | _ => true

/-! ### The invariant -/

def Found (info : BroadcastInfo) : Prop := info.state ≠ .lookupFailed

def RequestInv (r : Request) : Prop :=
  match r.phase with
  | .admitted _ | .looking .. => r.cancelled = false
  | .looked result => ∀ info, result = some info → Found info
  | .sent reply | .answered reply => ∀ info, reply = .info info → Found info
  | .parsed .. => True

structure Inv (s : State) : Prop where
  cache : ∀ channel info, s.cache.Has channel info → Found info
  requests : ∀ r ∈ s.requests, RequestInv r

variable {token : String} {s : State}

theorem Inv.move (h : Inv s) {k : Nat} {f : Request → Request}
    (hf : ∀ r, s.requests[k]? = some r → RequestInv (f r)) :
    ∀ r ∈ (s.move k f).requests, RequestInv r := by
  intro r hr
  rcases mem_modify hr with hold | ⟨r0, hr0, rfl⟩
  · exact h.requests r hold
  · exact hf r0 hr0

variable {r : Request}

theorem Inv.arrive (h : Inv s) (hr : RequestInv r) :
    Inv { s with requests := s.requests ++ [r] } :=
  ⟨h.cache, List.forall_mem_append.mpr ⟨h.requests, List.forall_mem_singleton.mpr hr⟩⟩

theorem Inv.fresh (h : Inv s) {channel : String} {now : Time}
    (hfresh : s.fresh channel now = some info) : Found info := by
  rw [State.fresh, Option.filter_eq_some_iff] at hfresh
  exact h.cache channel info (Table.find_eq_some_iff.mp hfresh.1)

theorem Inv.cached (h : Inv s) (hinfo : Found info) (channel : String) (info' : BroadcastInfo)
    (hhas : (s.cached info).Has channel info') : Found info' := by
  rw [State.cached, Table.has_upsert] at hhas
  rcases hhas with ⟨-, rfl⟩ | ⟨-, hold⟩
  · exact hinfo
  · split at hold
    · exact absurd hold (Table.has_empty _ _)
    · exact h.cache channel info' hold

theorem cancelled_eq {k : Nat} (h : s.requests[k]? = some r) : s.cancelled k = r.cancelled := by
  rw [State.cancelled, h]
  rfl

theorem Inv.step (h : Inv s) {i : Input} (hi : admits s i) (hsteady : steady s i = true) :
    Inv (step token s i) := by
  cases i with
  | tick now => exact ⟨h.cache, h.requests⟩
  | request r =>
    simp only [Diagnostics.step]
    split
    · exact h.arrive fun _ heq => nomatch heq
    · exact h.arrive trivial
  | cancel k =>
    refine ⟨h.cache, h.move ?_⟩
    intro r hr
    have hinv := h.requests r (List.mem_of_getElem? hr)
    obtain ⟨phase, cancelled⟩ := r
    cases phase with
    | admitted | looking => simp [steady, hr, Phase.isLooking] at hsteady
    | parsed channel now => trivial
    | looked | sent | answered => exact hinv
  | lock k =>
    simp only [Diagnostics.step]
    split
    · rename_i channel now hphase
      split
      · rename_i previous hfresh
        have hfound : Found previous := h.fresh hfresh
        refine ⟨h.cache, h.move ?_⟩
        intro r _ info hinfo
        cases hinfo
        exact hfound
      · rename_i hfresh
        split
        · exact ⟨h.cache, h.move fun _ _ _ heq => nomatch heq⟩
        · rename_i hfree
          push Not at hfree
          refine ⟨h.cache, h.move ?_⟩
          intro r hr
          have hstarts : s.starts k = true := by
            simp [State.starts, hphase, hfresh, hfree]
          have hk := cancelled_eq hr
          rw [steady, hstarts, hk, Bool.true_and, Bool.not_eq_true'] at hsteady
          exact hsteady
    · exact h
  | call k =>
    simp only [Diagnostics.step]
    split
    · rename_i channel hphase
      obtain ⟨r, hr, hr'⟩ := Option.map_eq_some_iff.mp hphase
      refine ⟨h.cache, h.move ?_⟩
      intro r1 hr1
      obtain rfl := Option.some.inj (hr.symm.trans hr1)
      have hinv := h.requests r (List.mem_of_getElem? hr)
      rw [RequestInv, hr'] at hinv
      exact hinv
    · exact h
  | answer k a =>
    simp only [Diagnostics.step]
    split
    · rename_i channel checkedAt hphase
      obtain ⟨r, hr, hr'⟩ := Option.map_eq_some_iff.mp hphase
      refine ⟨h.cache, h.move ?_⟩
      intro r1 hr1
      have hinv := h.requests r (List.mem_of_getElem? hr)
      rw [RequestInv, hr'] at hinv
      have hanswers : answersPlayer a = true := by
        rcases hi with hcancelled | hanswers
        · rw [cancelled_eq hr, hinv] at hcancelled
          cases hcancelled
        · exact hanswers
      exact fun info hinfo => checkBroadcast_state hanswers hinfo
    · exact h
  | store k =>
    simp only [Diagnostics.step]
    split
    · rename_i info hphase
      obtain ⟨r, hr, hr'⟩ := Option.map_eq_some_iff.mp hphase
      have hinv := h.requests r (List.mem_of_getElem? hr)
      rw [RequestInv, hr'] at hinv
      have hfound := hinv info rfl
      refine ⟨h.cached hfound, h.move ?_⟩
      intro r1 _ info' hinfo'
      cases hinfo'
      exact hfound
    · exact ⟨h.cache, h.move fun _ _ _ heq => nomatch heq⟩
    · exact h
  | release k =>
    simp only [Diagnostics.step]
    split
    · rename_i reply hphase
      obtain ⟨r, hr, hr'⟩ := Option.map_eq_some_iff.mp hphase
      have hinv := h.requests r (List.mem_of_getElem? hr)
      rw [RequestInv, hr'] at hinv
      exact ⟨h.cache, h.move fun _ _ => hinv⟩
    · exact h

/-- Along a steady run every lookup that is answered has a state. -/
theorem run_found {tr : List (Input × Unit)}
    (hr : ((machine token).restrict fun s i => steady s i = true).Run State.init tr s)
    (hmem : r ∈ s.requests) (hreply : r.reply = some (.info info)) : Found info := by
  have hinit : Inv State.init :=
    ⟨fun channel info hhas => absurd hhas (Table.has_empty channel info), by simp [State.init]⟩
  have hinv := hr.invariant (fun s i h hi => h.step hi.1 hi.2) hinit
  have hrequest := hinv.requests r hmem
  obtain ⟨phase, cancelled⟩ := r
  cases phase with
  | sent | answered => exact hrequest info (Option.some.inj hreply)
  | parsed | admitted | looking | looked => cases hreply

end Diagnostics

/-! ## Both -/

/-- Nobody whose request is not cancelled is told that the server is not ready. -/
def NeverUnready (s : ReadyState) : Prop :=
  ∀ r ∈ s.requests, r.cancelled = false → r.phase ≠ .answered 503

/-- Nobody whose request is not cancelled is told that a lookup failed. -/
def NeverFailed (s : Diagnostics.State) : Prop :=
  ∀ r ∈ s.requests, r.cancelled = false →
    ∀ info, r.reply = some (.info info) → info.state ≠ .lookupFailed

/-- While no cancelled request runs a check, nobody gets a failure. -/
theorem shared_answers (token : String) :
    (∀ tr s, (readyMachine.restrict fun s i => SingleFlight.steady s i = true).Run
      (SingleFlight.State.init Bool Nat) tr s → NeverUnready s) ∧
    ∀ tr s, ((Diagnostics.machine token).restrict fun s i =>
      Diagnostics.steady s i = true).Run Diagnostics.State.init tr s → NeverFailed s := by
  constructor
  · intro tr s hr r hmem _ hphase
    have hgood := SingleFlight.answered_good readyCheck_good hr hmem hphase
    exact absurd hgood (by decide)
  · intro tr s hr r hmem _ info hreply
    exact Diagnostics.run_found hr hmem hreply

/-! ## A client goes away -/

/-- The first client drops its connection during `CollectionState`; the second one
asks a second later. -/
def droppedReady : ReadyState × List (SingleFlight.Input Bool × Unit) :=
  readyMachine.exec (SingleFlight.State.init Bool Nat)
    [ .arrive, .enter 0, .cancel 0, .answer 0 false, .store 0
    , .tick second, .arrive, .enter 1 ]

def fixtureToken : String := "fixture-fixture-fixture-fixture-"

def fixtureLookup : Diagnostics.HttpRequest where
  method := "POST"
  authorization := "Bearer " ++ fixtureToken
  body := "\x7b\"channelId\":\"fixture-channel\"\x7d".toList

/-- The first client drops its connection during the lookup; the second one asks
for the same channel two seconds later. -/
def droppedLookup : Diagnostics.State × List (Diagnostics.Input × Unit) :=
  (Diagnostics.machine fixtureToken).exec Diagnostics.State.init
    [ .request fixtureLookup, .lock 0, .call 0, .cancel 0, .answer 0 (.failed false), .store 0
    , .release 0, .tick (2 * second), .request fixtureLookup, .lock 1 ]

def failedInfo : BroadcastInfo := ⟨"fixture-channel", .lookupFailed, "", "", "", 0, true⟩

/-- One client's cancellation is the other's failure. -/
theorem cancelled_answers_shared :
    (∃ tr s, readyMachine.Run (SingleFlight.State.init Bool Nat) tr s ∧
      ∃ r ∈ s.requests, r.cancelled = false ∧ r.phase = .answered 503) ∧
    ∃ tr s, (Diagnostics.machine fixtureToken).Run Diagnostics.State.init tr s ∧
      ∃ r ∈ s.requests, r.cancelled = false ∧
        ∃ info, r.reply = some (.info info) ∧ info.state = .lookupFailed := by
  constructor
  · refine ⟨droppedReady.2, droppedReady.1, Machine.run_exec _ _ (by decide), ?_⟩
    exact ⟨⟨.answered 503, false⟩, by decide, rfl, rfl⟩
  · refine ⟨droppedLookup.2, droppedLookup.1, Machine.run_exec _ _ (by decide), ?_⟩
    exact ⟨⟨.answered (.info failedInfo), false⟩, by decide, rfl, failedInfo, rfl, rfl⟩

/-- A client that only waits drops its connection; the next one is answered. -/
def quietReady : ReadyState × List (SingleFlight.Input Bool × Unit) :=
  (readyMachine.restrict fun s i => SingleFlight.steady s i = true).exec
    (SingleFlight.State.init Bool Nat)
    [ .arrive, .enter 0, .arrive, .enter 1, .cancel 1, .leave 1, .answer 0 true, .answer 0 true
    , .store 0, .tick second, .arrive, .enter 2 ]

/-- A client drops its connection when its lookup is over; the next one gets what
was found. -/
def quietLookup : Diagnostics.State × List (Diagnostics.Input × Unit) :=
  ((Diagnostics.machine fixtureToken).restrict fun s i => Diagnostics.steady s i = true).exec
    Diagnostics.State.init
    [ .request fixtureLookup, .lock 0, .call 0
    , .answer 0 (.response 200 (some (bytesOf "\x7b\"CHANNEL\":\x7b\"RESULT\":0\x7d\x7d")))
    , .cancel 0, .store 0, .release 0, .tick (2 * second), .request fixtureLookup, .lock 1 ]

def offlineInfo : BroadcastInfo := ⟨"fixture-channel", .offline, "", "", "", 0, true⟩

theorem shared_answers_quiet :
    ((⟨.answered 200, false⟩ : SingleFlight.Request Bool Nat) ∈ quietReady.1.requests ∧
      NeverUnready quietReady.1) ∧
    ((⟨.answered (.info offlineInfo), false⟩ : Diagnostics.Request) ∈ quietLookup.1.requests ∧
      NeverFailed quietLookup.1) := by
  refine ⟨⟨by decide, ?_⟩, by decide, ?_⟩
  · exact (shared_answers fixtureToken).1 quietReady.2 quietReady.1
      (Machine.run_exec _ _ (by decide))
  · exact (shared_answers fixtureToken).2 quietLookup.2 quietLookup.1
      (Machine.run_exec _ _ (by decide))

end RogiCollector.Ports.SharedAnswers
