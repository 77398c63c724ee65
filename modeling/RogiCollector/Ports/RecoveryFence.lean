import RogiCollector.Ports.OwnerLease
import RogiCollector.Ports.ConsumerProgress

/-!
# Recovery decisions are applied once and fence the past

A recovery is guarded twice: by its saved request (`collector_requests`),
which answers replays, and by the consumer's `recovery_revision`, which has
to equal the revision the request expects.  The saved request is removed by
`MaintainCollection` after 90 days; the revision is never taken back.  So a
replay that outlives its saved request still meets the revision and is
refused.  A *new* request under a key that old is another matter: nothing
recognises the key any more, and `AppliedOncePerKey` fails.  The handoff
notes of the collector rule such keys out.
-/

namespace RogiCollector.Ports.Journal

open Verified

variable {B : Backend} {t : Clocks} {uuid : String} {db db' : Db}

/-! ## Requests -/

/-- The arguments of a `ResolveRecovery` call. -/
structure RecoveryRequest where
  consumer : String
  channel : String
  key : String
  previous : String
  next : String
  resume : Nat
  expected : Nat
  body : String

def RecoveryRequest.op (q : RecoveryRequest) : Op :=
  .resolve q.consumer q.channel q.key q.previous q.next q.resume q.expected q.body

/-- The key its answer is saved under. -/
def RecoveryRequest.requestKey (q : RecoveryRequest) : RequestKey :=
  ⟨q.consumer, q.channel, .recovery, q.key⟩

/-- The call is this request and changes the consumer's row. -/
def Applied (B : Backend) (s : Sys) (call : Call) (q : RecoveryRequest) : Prop :=
  call.op = q.op ∧
    ((machine B).step s call).1.db.consumers.find (q.consumer, q.channel) ≠
      s.db.consumers.find (q.consumer, q.channel)

/-- The revision of a consumer, `0` before it has a row. -/
def revisionOf (db : Db) (consumer channel : String) : Nat :=
  ((db.consumers.find (consumer, channel)).map ConsumerRow.recoveryRevision).getD 0

variable {consumer channel : String}

theorem revisionOf_eq {p : ConsumerRow} (hp : db.consumers.find (consumer, channel) = some p) :
    revisionOf db consumer channel = p.recoveryRevision := by
  simp [revisionOf, hp]

/-- The revision a recovery compares with. -/
theorem recoveryProgress_revision (consumer channel previous : String) :
    (recoveryProgress db (consumer, channel) previous).recoveryRevision =
      revisionOf db consumer channel := by
  unfold recoveryProgress revisionOf
  cases db.consumers.find (consumer, channel) <;> rfl

variable {s : Sys} {call : Call}

/-- A call that changes the row passed every check of `ResolveRecovery`. -/
theorem Applied.recovery {q : RecoveryRequest} (h : Applied B s call q) :
    ∃ r, ((machine B).step s call).2 = .ok (.decision r) ∧
      RecoveryApplied B call.clocks s.db ((machine B).step s call).1.db q.consumer q.channel
        q.key q.previous q.next q.resume q.expected q.body r := by
  obtain ⟨hop, hne⟩ := h
  rcases step_db (B := B) s call with ⟨reply, hok, hout⟩ | ⟨e, -, hdb, -⟩
  · rw [hop] at hok
    obtain ⟨⟨db1, r⟩, hres, heq⟩ := map_ok hok
    injection heq with hdb hreply
    dsimp only at hdb hreply
    rw [hdb] at hres
    rcases resolveRecovery_ok hres with ⟨-, -, -, -, hsame⟩ | happ
    · rw [hsame] at hne
      exact absurd rfl hne
    · exact ⟨r, by rw [hout, ← hreply], happ⟩
  · rw [hdb] at hne
    exact absurd rfl hne

variable {key previous next : String} {resume expected : Nat} {request : String}
  {r : RecoveryDecision}

/-- The row after an applied recovery. -/
theorem RecoveryApplied.find
    (h : RecoveryApplied B t db db' consumer channel key previous next resume expected request r) :
    db'.consumers.find (consumer, channel) =
      some ⟨next, resume, none, resume, expected + 1⟩ := by
  obtain ⟨requests, -, rfl⟩ := h.written
  exact Table.find_upsert_self

/-- The request it saved. -/
theorem RecoveryApplied.saved
    (h : RecoveryApplied B t db db' consumer channel key previous next resume expected request r) :
    db.requests.find ⟨consumer, channel, .recovery, key⟩ = none ∧
      db'.requests.Has ⟨consumer, channel, .recovery, key⟩
        ⟨B.requestHash request, .recovery r, t.clk 1⟩ := by
  obtain ⟨requests, hins, rfl⟩ := h.written
  obtain ⟨hfree, hhas⟩ := Table.insert_eq_some hins
  exact ⟨hfree, (hhas _ _).mpr (Or.inr ⟨rfl, rfl⟩)⟩

/-- Passing every check, a recovery moves the revision by one. -/
theorem RecoveryApplied.revision_succ
    (h : RecoveryApplied B t db db' consumer channel key previous next resume expected request r) :
    expected = revisionOf db consumer channel ∧
      revisionOf db' consumer channel = revisionOf db consumer channel + 1 := by
  have hexp := h.revision
  rw [recoveryProgress_revision] at hexp
  refine ⟨hexp, ?_⟩
  rw [revisionOf_eq h.find, ← hexp]

/-! ## Revisions -/

variable {reply : Reply}

/-- A committed call keeps the revision unless it applies a recovery. -/
theorem ProgressStep.revision {op : Op}
    (h : ProgressStep B t db db' op reply consumer channel (db.consumers.find (consumer, channel))
      (db'.consumers.find (consumer, channel))) :
    revisionOf db' consumer channel = revisionOf db consumer channel ∨
      ∃ key previous next resume expected request r,
        op = .resolve consumer channel key previous next resume expected request ∧
          RecoveryApplied B t db db' consumer channel key previous next resume expected
            request r := by
  generalize hnew : db'.consumers.find (consumer, channel) = new at h
  generalize hold : db.consumers.find (consumer, channel) = old at h
  cases h with
  | same => exact Or.inl (by rw [revisionOf, revisionOf, hnew, hold])
  | read hop hreply hc hgen hrow hrev hlo hhi hpage =>
    refine Or.inl ?_
    rcases hrow with rfl | ⟨rfl, rfl⟩
    · rw [revisionOf_eq hnew, revisionOf_eq hold]
    · rw [revisionOf_eq hnew, revisionOf, hold]
      rfl
  | ack hop hc hgen hrev hpos hhi =>
    exact Or.inl (by rw [revisionOf_eq hnew, revisionOf_eq hold])
  | resolve hop hreply hold' happ => exact Or.inr ⟨_, _, _, _, _, _, _, hop, happ⟩

/-- A step moves the revision by one if it applies a recovery, else not. -/
theorem step_revision (h : JournalInv s.db) (call : Call) (consumer channel : String) :
    revisionOf ((machine B).step s call).1.db consumer channel =
        revisionOf s.db consumer channel ∨
      ∃ q, q.consumer = consumer ∧ q.channel = channel ∧ Applied B s call q ∧
        revisionOf ((machine B).step s call).1.db consumer channel =
          revisionOf s.db consumer channel + 1 := by
  rcases step_db (B := B) s call with ⟨reply, hok, -⟩ | ⟨e, -, hdb, -⟩
  · rcases (apply_progress h hok consumer channel).revision with heq |
      ⟨key, previous, next, resume, expected, request, r, hop, happ⟩
    · exact Or.inl heq
    · have hsucc := happ.revision_succ.2
      refine Or.inr ⟨⟨consumer, channel, key, previous, next, resume, expected, request⟩,
        rfl, rfl, ⟨hop, ?_⟩, hsucc⟩
      intro hsame
      simp only [revisionOf] at hsucc
      dsimp only at hsame
      rw [hsame] at hsucc
      omega
  · rw [hdb]
    exact Or.inl rfl

variable {s' : Sys} {tr : History}

theorem run_revision_le (h : JournalInv s.db) (hr : (machine B).Run s tr s')
    (consumer channel : String) :
    revisionOf s.db consumer channel ≤ revisionOf s'.db consumer channel := by
  induction hr with
  | nil => exact Nat.le_refl _
  | snoc hr call hadm ih =>
    rcases step_revision (run_journalInv hr h) call consumer channel with
      heq | ⟨q, -, -, -, heq⟩
    · rw [heq]
      exact ih
    · rw [heq]
      exact Nat.le_succ_of_le ih

/-! ## Saved requests -/

/-- The call runs the deletes of `MaintainCollection` on the channel. -/
def Purges (call : Call) (channel : String) : Prop :=
  call.op = .purge channel ∨ call.op = .maintain channel

variable {k : RequestKey} {row : RequestRow}

/-- A purge keeps a request of another channel or one younger than 90 days. -/
theorem purge_request (t : Clocks) (channel : String) (h : db.requests.Has k row) :
    (purgeCollection t db channel).requests.Has k row ∨
      (k.channelID = channel ∧ olderThan (t.clk 3) row.createdAt 90 = true) := by
  by_cases hold : k.channelID = channel ∧ olderThan (t.clk 3) row.createdAt 90 = true
  · exact Or.inr hold
  · refine Or.inl ?_
    simp only [purgeCollection, Table.has_delete, decide_eq_false_iff_not]
    exact ⟨h, hold⟩

/-- Saving a request keeps the others. -/
theorem insert_request {k' : RequestKey} {row' : RequestRow}
    {requests : Table RequestKey RequestRow} (h : db.requests.Has k row)
    (hins : db.requests.insert k' row' = some requests) : requests.Has k row :=
  ((Table.insert_eq_some hins).2 k row).mpr (Or.inl h)

/-- A committed call keeps a saved request unless it purges the channel 90
days later. -/
theorem apply_request {op : Op} (hop : apply B t uuid db op = .ok (db', reply))
    (h : db.requests.Has k row) :
    db'.requests.Has k row ∨
      ((op = .purge k.channelID ∨ op = .maintain k.channelID) ∧
        olderThan (t.clk 3) row.createdAt 90 = true) := by
  cases apply_commits hop with
  | append _ _ _ hnew =>
    obtain ⟨grow, donations, outbox, -, -, -, -, -, -, -, rfl⟩ := appendNew_ok hnew
    exact Or.inl h
  | subscribe _ hins | resolve hins _ => exact Or.inl (insert_request h hins)
  | purge channel =>
    rcases purge_request t channel h with hkept | ⟨rfl, hold⟩
    · exact Or.inl hkept
    · exact Or.inr ⟨Or.inl rfl, hold⟩
  | @maintain channel db2 hexp =>
    have h2 : db2.requests.Has k row := by
      obtain ⟨c, -, ⟨-, rfl⟩ | ⟨-, rfl⟩⟩ := expireDonations_ok hexp <;> exact h
    rcases purge_request t channel h2 with hkept | ⟨rfl, hold⟩
    · exact Or.inl hkept
    · exact Or.inr ⟨Or.inr rfl, hold⟩
  | _ => exact Or.inl h

/-- The history holds a purge of the channel more than 90 days after `at_`. -/
def PurgedSince (tr : History) (channel : String) (at_ : Time) : Prop :=
  ∃ call out, (call, out) ∈ tr ∧ Purges call channel ∧
    olderThan (call.clocks.clk 3) at_ 90 = true

/-- A saved request stays along a run, or was purged 90 days later. -/
theorem run_request_kept (hr : (machine B).Run s tr s') (h : s.db.requests.Has k row) :
    s'.db.requests.Has k row ∨ PurgedSince tr k.channelID row.createdAt := by
  induction hr with
  | nil => exact Or.inl h
  | @snoc tr1 s1 hr call hadm ih =>
    rcases ih with hkept | ⟨c, out, hmem, hrest⟩
    · rcases step_db (B := B) s1 call with ⟨reply, hok, -⟩ | ⟨e, -, hdb, -⟩
      · rcases apply_request hok hkept with hkept | ⟨hop, hold⟩
        · exact Or.inl hkept
        · exact Or.inr ⟨call, _, List.mem_append_right _ (List.mem_singleton_self _), hop,
            hold⟩
      · rw [hdb]
        exact Or.inl hkept
    · exact Or.inr ⟨c, out, List.mem_append_left _ hmem, hrest⟩

/-- A saved request that is never missing stays the same. -/
theorem run_request_same (hr : (machine B).Run s tr s') (h : s.db.requests.Has k row)
    (hthere : (machine B).Throughout (fun s => s.db.requests.find k ≠ none) s tr) :
    s'.db.requests.Has k row := by
  induction hr with
  | nil => exact h
  | @snoc tr1 s1 hr call hadm ih =>
    have hkept := ih hthere.of_append
    have hthere' := hthere.last (hr.snoc call hadm)
    rcases step_db (B := B) s1 call with ⟨reply, hok, -⟩ | ⟨e, -, hdb, -⟩
    · rcases apply_request hok hkept with hkept | ⟨hop, hold⟩
      · exact hkept
      · -- A purge only deletes: what is left under the key was there before.
        obtain ⟨row', hrow'⟩ := Option.ne_none_iff_exists'.mp hthere'
        have hrow' := Table.find_eq_some_iff.mp hrow'
        have hback : ∀ {db1 : Db}, db1.requests = s1.db.requests → ∀ {channel},
            (purgeCollection call.clocks db1 channel).requests.Has k row' →
              s1.db.requests.Has k row' := by
          intro db1 heq channel hhas
          rw [← heq]
          exact (Table.has_delete.mp hhas).1
        have hwas : s1.db.requests.Has k row' := by
          rcases hop with hop | hop <;> rw [hop] at hok
          · injection hok with hok
            injection hok with hdb _
            rw [← hdb] at hrow'
            exact hback rfl hrow'
          · obtain ⟨db1, hmain, heq⟩ := map_ok hok
            injection heq with hdb _
            obtain ⟨db2, hexp, rfl⟩ := maintainCollection_ok hmain
            rw [← hdb] at hrow'
            refine hback ?_ hrow'
            obtain ⟨c, -, ⟨-, rfl⟩ | ⟨-, rfl⟩⟩ := expireDonations_ok hexp <;> rfl
        rw [hwas.unique hkept] at hrow'
        exact hrow'
    · rw [hdb]
      exact hkept

/-! ## Replays -/

theorem step_replay {p : Prop} [Decidable p] {reply : Reply}
    (h : apply B call.clocks call.uuid s.db call.op =
      if p then .ok (s.db, reply) else .error .conflict) :
    ((machine B).step s call).1.db = s.db ∧ (p → ((machine B).step s call).2 = .ok reply) ∧
      (¬p → ((machine B).step s call).2 = .error .conflict) := by
  by_cases hp : p <;> simp [machine, h, hp]

/-- A recovery whose request is saved is a replay: the body decides between
the saved answer and a conflict, and nothing is written. -/
theorem replay_recovery {q : RecoveryRequest} {body : String} {at_ : Time} {c : ChannelRow}
    (hsha : Function.Injective B.sha256Hex) (hop : call.op = q.op)
    (hc : s.db.channels.Has q.channel c)
    (hrow : s.db.requests.Has q.requestKey ⟨B.requestHash body, .recovery r, at_⟩) :
    ((machine B).step s call).1.db = s.db ∧
      (q.body = body → ((machine B).step s call).2 = .ok (.decision r)) ∧
      (q.body ≠ body → ((machine B).step s call).2 = .error .conflict) := by
  have hfind := Table.find_eq_some_iff.mpr hrow
  have hchan := Table.find_eq_some_iff.mpr hc
  apply step_replay
  rw [hop]
  simp only [RecoveryRequest.op, apply, resolveRecovery, hchan, requestResult]
  rw [show s.db.requests.find ⟨q.consumer, q.channel, .recovery, q.key⟩ = _ from hfind]
  by_cases hbody : q.body = body
  · simp [hbody, Except.map]
  · have hhash : B.requestHash body ≠ B.requestHash q.body := by
      intro heq
      exact hbody (hsha heq).symm
    simp [hbody, hhash, Except.map]

/-- The same for a subscription change. -/
theorem replay_subscription {enabled saved : Bool} {at_ : Time} {c : ChannelRow}
    (hsha : Function.Injective B.sha256Hex)
    (hop : call.op = .subscribe consumer channel key enabled)
    (hkey : ¬(key = "" ∨ 200 < key.utf8ByteSize)) (hc : s.db.channels.Has channel c)
    (hrow : s.db.requests.Has ⟨consumer, channel, .subscription, key⟩
      ⟨B.requestHash (marshalBool saved), .subscription saved, at_⟩) :
    ((machine B).step s call).1.db = s.db ∧
      (enabled = saved → ((machine B).step s call).2 = .ok (.enabled saved)) ∧
      (enabled ≠ saved → ((machine B).step s call).2 = .error .conflict) := by
  have hfind := Table.find_eq_some_iff.mpr hrow
  have hchan := Table.find_eq_some_iff.mpr hc
  apply step_replay
  rw [hop]
  by_cases hbody : enabled = saved
  · simp [apply, setSubscription, hkey, hchan, requestResult, hfind, hbody, Except.map]
  · have hhash : B.requestHash (marshalBool saved) ≠ B.requestHash (marshalBool enabled) := by
      intro heq
      have htext := hsha heq
      revert hbody htext
      cases enabled <;> cases saved <;> simp [marshalBool]
    simp [apply, setSubscription, hkey, hchan, requestResult, hfind, hbody, hhash, Except.map]

/-- A read or an acknowledgement of the consumer that carries `revision`. -/
def Carries (call : Call) (consumer channel : String) (revision : Nat) : Prop :=
  (∃ generation after limit, call.op = .read consumer channel generation after revision limit) ∨
    ∃ generation offset, call.op = .ack consumer channel generation offset revision

/-- A cursor call only succeeds with the consumer's revision. -/
theorem carries_revision {revision : Nat} (hcall : Carries call consumer channel revision)
    (hok : apply B call.clocks call.uuid s.db call.op = .ok (db', reply)) :
    revision = revisionOf s.db consumer channel := by
  rcases hcall with ⟨generation, after, limit, hop⟩ | ⟨generation, offset, hop⟩
  · rw [hop] at hok
    obtain ⟨⟨db1, ds, st⟩, hread, -⟩ := map_ok hok
    obtain ⟨c, p, next, -, -, -, -, hp, -, hrev, -⟩ := readDonations_ok hread
    rcases withConsumer_has.mp hp with hp | ⟨hnone, -, rfl⟩
    · rw [revisionOf_eq (Table.find_eq_some_iff.mpr hp), hrev]
    · rw [revisionOf, hnone, ← hrev]
      rfl
  · rw [hop] at hok
    obtain ⟨db1, hack, -⟩ := map_ok hok
    obtain ⟨c, p, -, -, -, hp, -, hrev, -⟩ := ackDonations_ok hack
    rw [revisionOf_eq (Table.find_eq_some_iff.mpr hp), hrev]

/-! ## Once per key -/

/-- At most one recovery per consumer, channel and key changes the consumer's
row, whatever happens in between. -/
def AppliedOncePerKey (B : Backend) : Prop :=
  ∀ s call q tr s' call' q', Reachable B s → call.admits s → Applied B s call q →
    (machine B).Run ((machine B).step s call).1 tr s' → call'.admits s' →
    q'.requestKey = q.requestKey → ¬Applied B s' call' q'

/-- The first decision under a key, from a consumer without a row. -/
def firstDecision : RecoveryRequest :=
  ⟨"fixture_consumer", "fixture_channel", "key-1", "generation-a", "generation-a", 0, 0,
    "first"⟩

/-- Another decision under the same key, at the revision the first one left. -/
def secondDecision : RecoveryRequest := { firstDecision with expected := 1, body := "second" }

def firstDecisionCall : Call := .at (40 * day) "unused-2" firstDecision.op
def secondDecisionCall : Call := .at (131 * day) "unused-4" secondDecision.op

/-- Maintenance 91 days after the first decision. -/
def lateMaintenance : Call := .at (131 * day) "unused-3" (.maintain "fixture_channel")

/-- Once the saved request is gone, its key is taken for a new one. -/
theorem applied_twice_under_one_key : ¬AppliedOncePerKey fixtureBackend := by
  intro h
  refine h ((machine fixtureBackend).exec Sys.init (fixtureCalls (40 * day))).1
    firstDecisionCall firstDecision _ _ secondDecisionCall secondDecision
    (reachable_exec _ (by decide)) (by decide) ⟨rfl, by decide⟩
    (Machine.run_exec _ [lateMaintenance] (by decide)) (by decide) rfl ⟨rfl, by decide⟩

/-! ## What holds along every run -/

/-- The guarantees about recoveries from state `s` on. -/
structure RecoveryFences (B : Backend) (s : Sys) : Prop where
  /-- Of two recoveries of a consumer that change its row, the later one
  expected a later revision; under one key, a purge 90 days later lies between. -/
  once : ∀ {call call' : Call} {q q' : RecoveryRequest} {tr s'}, Applied B s call q →
    (machine B).Run ((machine B).step s call).1 tr s' → Applied B s' call' q' →
    q'.consumer = q.consumer → q'.channel = q.channel →
      q.expected < q'.expected ∧
        (q'.key = q.key → PurgedSince tr q.channel (call.clocks.clk 1))
  /-- While its saved request exists, every further request under the key is
  answered from it and writes nothing. -/
  replay : ∀ {call call' : Call} {q q' : RecoveryRequest} {tr s'}, Applied B s call q →
    (machine B).Run ((machine B).step s call).1 tr s' →
    (machine B).Throughout (fun s => s.db.requests.find q.requestKey ≠ none)
      ((machine B).step s call).1 tr →
    call'.op = q'.op → q'.requestKey = q.requestKey →
      ((machine B).step s' call').1.db = s'.db ∧
        (q'.body = q.body → ((machine B).step s' call').2 = ((machine B).step s call).2) ∧
        (q'.body ≠ q.body → ((machine B).step s' call').2 = .error .conflict)
  /-- The same for subscription changes. -/
  replay_subscription : ∀ {call call' : Call} {consumer channel key enabled enabled' reply}
      {tr s'},
    call.op = .subscribe consumer channel key enabled →
    s.db.requests.find ⟨consumer, channel, .subscription, key⟩ = none →
    ((machine B).step s call).2 = .ok reply →
    (machine B).Run ((machine B).step s call).1 tr s' →
    (machine B).Throughout
      (fun s => s.db.requests.find ⟨consumer, channel, .subscription, key⟩ ≠ none)
      ((machine B).step s call).1 tr →
    call'.op = .subscribe consumer channel key enabled' →
      ((machine B).step s' call').1.db = s'.db ∧
        (enabled' = enabled → ((machine B).step s' call').2 = .ok reply) ∧
        (enabled' ≠ enabled → ((machine B).step s' call').2 = .error .conflict)
  /-- A recovery that changes the row moves the revision by one, and nothing
  else moves it. -/
  revision : ∀ call consumer channel,
    ((∃ q, q.consumer = consumer ∧ q.channel = channel ∧ Applied B s call q) ∧
        revisionOf ((machine B).step s call).1.db consumer channel =
          revisionOf s.db consumer channel + 1) ∨
      ((¬∃ q, q.consumer = consumer ∧ q.channel = channel ∧ Applied B s call q) ∧
        revisionOf ((machine B).step s call).1.db consumer channel =
          revisionOf s.db consumer channel)
  /-- After the recovery to revision `expected + 1`, no cursor call with an
  earlier revision succeeds. -/
  fence : ∀ {call call' : Call} {q : RecoveryRequest} {revision tr s'}, Applied B s call q →
    (machine B).Run ((machine B).step s call).1 tr s' →
    Carries call' q.consumer q.channel revision → revision ≤ q.expected →
      ∃ e, ((machine B).step s' call').2 = .error e ∧ ((machine B).step s' call').1.db = s'.db

/-- **Recovery decisions.**  They hold from every reachable state on, when
SHA-256 keeps request bodies apart. -/
theorem recovery_fences (hsha : Function.Injective B.sha256Hex) {s : Sys}
    (hs : Reachable B s) : RecoveryFences B s := by
  have h := hs.journalInv
  have hafter : ∀ {call q tr s'}, Applied B s call q →
      (machine B).Run ((machine B).step s call).1 tr s' →
        q.expected < revisionOf s'.db q.consumer q.channel := by
    intro call q tr s' happ hr
    obtain ⟨r, -, hrec⟩ := happ.recovery
    have hsucc := hrec.revision_succ
    have hle := run_revision_le (step_journalInv s call h) hr q.consumer q.channel
    omega
  constructor
  case once =>
    intro call call' q q' tr s' happ hr happ' hcons hchan
    obtain ⟨r, -, hrec⟩ := happ.recovery
    obtain ⟨r', -, hrec'⟩ := happ'.recovery
    refine ⟨?_, fun hkey => ?_⟩
    · have hlt := hafter happ hr
      rw [hrec'.revision_succ.1, hcons, hchan]
      exact hlt
    · rcases run_request_kept hr hrec.saved.2 with hkept | hpurged
      · have hnone := hrec'.saved.1
        rw [hcons, hchan, hkey] at hnone
        exact absurd hkept (Table.find_eq_none_iff.mp hnone _)
      · exact hpurged
  case replay =>
    intro call call' q q' tr s' happ hr hthere hop hkey
    obtain ⟨r, hout, hrec⟩ := happ.recovery
    have hrow : s'.db.requests.Has q.requestKey _ :=
      run_request_same hr hrec.saved.2 hthere
    rw [← hkey] at hrow
    obtain ⟨c, hfind, -⟩ := hrec.generation
    obtain ⟨c1, hc1⟩ := step_channel (B := B) call (Table.find_eq_some_iff.mp hfind)
    obtain ⟨c', hc'⟩ := run_channel hr hc1
    have hchan : q'.channel = q.channel := congrArg RequestKey.channelID hkey
    rw [hout]
    exact replay_recovery hsha hop (hchan ▸ hc') hrow
  case replay_subscription =>
    intro call call' consumer channel key enabled enabled' reply tr s' hop hfree hout hr
      hthere hop'
    rcases step_db (B := B) s call with ⟨reply', hok, hout'⟩ | ⟨e, -, -, hout'⟩
    · rw [hout'] at hout
      injection hout with hout
      subst hout
      rw [hop] at hok
      obtain ⟨⟨db1, b⟩, hsub, heq⟩ := map_ok hok
      injection heq with hdb hreply
      dsimp only at hdb hreply
      rw [hdb] at hsub
      have hkey := setSubscription_key hsub
      rcases setSubscription_ok hsub with ⟨row, hrow, -⟩ |
        ⟨rfl, c, requests, hfind, hins, hdb'⟩
      · rw [hfree] at hrow
        cases hrow
      · have hsaved := ((Table.insert_eq_some hins).2 _ _).mpr (Or.inr ⟨rfl, rfl⟩)
        have hrow := run_request_same hr (by rw [hdb']; exact hsaved) hthere
        obtain ⟨c1, hc1⟩ := step_channel (B := B) call (Table.find_eq_some_iff.mp hfind)
        obtain ⟨c', hc'⟩ := run_channel hr hc1
        rw [← hreply]
        exact replay_subscription hsha hop' hkey hc' hrow
    · rw [hout'] at hout
      cases hout
  case revision =>
    intro call consumer channel
    by_cases happ : ∃ q, q.consumer = consumer ∧ q.channel = channel ∧ Applied B s call q
    · refine Or.inl ⟨happ, ?_⟩
      obtain ⟨q, rfl, rfl, happ⟩ := happ
      obtain ⟨r, -, hrec⟩ := happ.recovery
      exact hrec.revision_succ.2
    · refine Or.inr ⟨happ, ?_⟩
      rcases step_revision h call consumer channel with heq | ⟨q, hq1, hq2, hq3, -⟩
      · exact heq
      · exact absurd ⟨q, hq1, hq2, hq3⟩ happ
  case fence =>
    intro call call' q revision tr s' happ hr hcall hle
    have hlt := hafter happ hr
    rcases step_db (B := B) s' call' with ⟨reply, hok, -⟩ | ⟨e, -, hdb, hout⟩
    · have hrev := carries_revision hcall hok
      omega
    · exact ⟨e, hout, hdb⟩

/-- The fixture's first decision is applied, and fences. -/
theorem recovery_fences_firstDecision :
    Applied fixtureBackend
        ((machine fixtureBackend).exec Sys.init (fixtureCalls (40 * day))).1
        firstDecisionCall firstDecision ∧
      RecoveryFences fixtureBackend
        ((machine fixtureBackend).exec Sys.init (fixtureCalls (40 * day))).1 :=
  ⟨⟨rfl, by decide⟩,
    recovery_fences Function.injective_id (reachable_exec _ (by decide))⟩

end RogiCollector.Ports.Journal
