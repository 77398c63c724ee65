import RogiCollector.Ports.JournalMachine

/-!
# What a committed transaction did

One inversion per operation: from a successful result, the checks that were
passed and the database written.  Every invariant of the journal is carried
by these; no later proof unfolds an operation.
-/

namespace RogiCollector.Ports.Journal

open Verified

variable {B : Backend} {t : Clocks} {uuid : String} {db db' : Db}

/-! ## Channels and owners -/

variable {channel : String}

/-- The row `EnsureCollection` inserts. -/
def freshChannel (t : Clocks) (uuid : String) : ChannelRow :=
  { generation := uuid, nextOffset := 0, expiredThrough := 0, subscribed := true
    ownerToken := none, runtimeState := "waiting", stateAt := t.clk 0
    lastReceivedAt := none }

theorem ensureCollection_ok (h : ensureCollection B t uuid db channel = .ok db') :
    db' = db ∨ ∃ channels,
      db.channels.insert channel (freshChannel t uuid) = some channels ∧
        db' = { db with channels } := by
  unfold ensureCollection at h
  split at h
  · cases h
    exact Or.inl rfl
  split at h
  · cases h
  split at h
  · cases h
    exact Or.inl rfl
  · rename_i channels hins
    cases h
    exact Or.inr ⟨channels, hins, rfl⟩

/-- The row `AcquireCollection` inserts. -/
def freshGrant (t : Clocks) (channel worker generation : String) : GrantRow :=
  { channelID := channel, workerID := worker, generation, grantedAt := t.clk 1
    validUntil := t.clk 2 + leaseTime, closedAt := none }

variable {g : OwnerGrant}

theorem acquireCollection_ok {worker : String}
    (h : acquireCollection B t uuid db channel worker = .ok (db', g)) :
    ∃ c grants, db.channels.find channel = some c ∧
      ownerValid db (t.clk 0) c.ownerToken = .ok false ∧
      db.grants.insert uuid (freshGrant t channel worker c.generation) = some grants ∧
      db' = { db with
              grants
              channels := db.channels.modify channel fun c =>
                { c with
                  ownerToken := some uuid
                  runtimeState := "connecting"
                  stateAt := t.clk 3 } } ∧
      g = { token := uuid, channel, generation := c.generation
            grantedAt := t.clk 1, validUntil := t.clk 2 + leaseTime } := by
  unfold acquireCollection at h
  split at h
  · cases h
  split at h
  · cases h
  rename_i c hc
  split at h
  · cases h
  split at h
  · cases h
  split at h
  · cases h
  · cases h
  rename_i hvalid
  split at h
  · cases h
  rename_i grants hins
  cases h
  exact ⟨c, grants, hc, hvalid, hins, rfl, rfl⟩

theorem ownerValid_false {at_ : Time} {token : String}
    (h : ownerValid db at_ (some token) = .ok false) :
    ∃ row, db.grants.find token = some row ∧ row.valid at_ = false := by
  simp only [ownerValid] at h
  split at h
  · cases h
  · rename_i row hrow
    injection h with h
    exact ⟨row, hrow, h⟩

theorem renewCollection_ok {until_ : Time} (h : renewCollection t db g = .ok (db', until_)) :
    ∃ c row, db.channels.find g.channel = some c ∧ c.ownerToken = some g.token ∧
      c.generation = g.generation ∧ db.grants.find g.token = some row ∧
      row.valid (t.clk 0) = true ∧
      db' = { db with
              grants := db.grants.modify g.token fun row =>
                { row with validUntil := t.clk 1 + leaseTime } } ∧
      until_ = t.clk 1 + leaseTime := by
  unfold renewCollection at h
  split at h
  · cases h
  rename_i c hc
  split at h
  · cases h
  rename_i howner
  push Not at howner
  split at h
  · cases h
  split at h
  · cases h
  rename_i row hrow
  split at h
  · rename_i hvalid
    cases h
    exact ⟨c, row, hc, howner.1, howner.2, hrow, hvalid.1, rfl, rfl⟩
  · cases h

/-! ## Appending -/

@[simp] theorem withIdentity_eventID (db : Db) (d : Donation) (key : String) :
    (withIdentity db d key).eventID = d.eventID := by
  unfold withIdentity
  split
  · split <;> rfl
  · rfl

@[simp] theorem withIdentity_channelID (db : Db) (d : Donation) (key : String) :
    (withIdentity db d key).channelID = d.channelID := by
  unfold withIdentity
  split
  · split <;> rfl
  · rfl

@[simp] theorem withIdentity_generation (db : Db) (d : Donation) (key : String) :
    (withIdentity db d key).generation = d.generation := by
  unfold withIdentity
  split
  · split <;> rfl
  · rfl

@[simp] theorem withIdentity_offset (db : Db) (d : Donation) (key : String) :
    (withIdentity db d key).offset = d.offset := by
  unfold withIdentity
  split
  · split <;> rfl
  · rfl

/-- The observation `AppendDonation` journals for `d`. -/
def journaled (B : Backend) (db : Db) (c : ChannelRow) (d : Donation) : Donation :=
  withIdentity db { d with generation := c.generation, offset := c.nextOffset + 1 }
    (contentKey B d)

/-- The row `AppendDonation` inserts. -/
def journalRow (B : Backend) (t : Clocks) (db : Db) (c : ChannelRow) (d : Donation) :
    DonationRow :=
  { channelID := d.channelID, generation := c.generation
    channelOffset := c.nextOffset + 1, contentKey := contentKey B d
    connectionEpoch := (journaled B db c d).connectionEpoch
    observedAt := (journaled B db c d).observedAt
    payload := some (journaled B db c d), storedAt := t.clk 2 }

@[simp] theorem journaled_eventID (c : ChannelRow) (d : Donation) :
    (journaled B db c d).eventID = d.eventID := by simp [journaled]

@[simp] theorem journaled_channelID (c : ChannelRow) (d : Donation) :
    (journaled B db c d).channelID = d.channelID := by simp [journaled]

@[simp] theorem journaled_generation (c : ChannelRow) (d : Donation) :
    (journaled B db c d).generation = c.generation := by simp [journaled]

@[simp] theorem journaled_offset (c : ChannelRow) (d : Donation) :
    (journaled B db c d).offset = c.nextOffset + 1 := by simp [journaled]

theorem appendNew_ok {c : ChannelRow} {d d' : Donation} {acceptedAt : Time}
    (h : appendNew B t db c g d acceptedAt = .ok (db', d')) :
    ∃ row donations outbox, db.grants.find g.token = some row ∧
      row.accepts g acceptedAt (t.clk 1) = true ∧ c.nextOffset ≠ maxUint64 ∧
      db.donations.insert d.eventID (journalRow B t db c d) = some donations ∧
      (∀ e row, db.donations.Has e row → row.channelID = d.channelID →
        row.generation = c.generation → row.channelOffset ≠ c.nextOffset + 1) ∧
      db.outbox.insert d.eventID ⟨d.channelID, t.clk 3⟩ = some outbox ∧
      d' = journaled B db c d ∧
      db' = { db with
              donations
              outbox
              channels := db.channels.modify d.channelID fun ch =>
                { ch with
                  nextOffset := c.nextOffset + 1
                  lastReceivedAt := some (journaled B db c d).observedAt } } := by
  unfold appendNew at h
  split at h
  · cases h
  split at h
  · cases h
  rename_i row hrow
  split at h
  · cases h
  rename_i hacc
  split at h
  · cases h
  rename_i hmax
  split at h
  · cases h
  dsimp only at h
  split at h
  · cases h
  split at h
  · cases h
  split at h
  · cases h
  split at h
  · cases h
  rename_i hany
  split at h
  · cases h
  rename_i donations hdon
  split at h
  · cases h
  rename_i outbox hout
  injection h with h
  injection h with hdb hd
  have hj : withIdentity db { d with generation := c.generation, offset := c.nextOffset + 1 }
      (contentKey B d) = journaled B db c d := rfl
  simp only [hj, journaled_eventID, journaled_channelID, journaled_generation,
    journaled_offset] at hdb hd hany hdon hout
  exact ⟨row, donations, outbox, hrow, by simpa using hacc, hmax, hdon,
    by simpa using hany, hout, hd.symm, hdb.symm⟩

/-- A successful append either recognised a journaled observation and wrote
nothing, or journaled a new one at the next offset. -/
theorem appendDonation_ok {d d' : Donation} {acceptedAt : Time}
    (h : appendDonation B t db g d acceptedAt = .ok (db', d')) :
    t.now 0 ≤ acceptedAt + 30 * day ∧ d.channelID = g.channel ∧
    ∃ c, db.channels.find d.channelID = some c ∧ g.generation = c.generation ∧
      ((∃ row old, db.donations.find d.eventID = some row ∧ row.payload = some old ∧
          d' = old.unmarshalInto d ∧ db' = db) ∨
        (db.donations.find d.eventID = none ∧
          appendNew B t db c g d acceptedAt = .ok (db', d'))) := by
  unfold appendDonation at h
  split at h
  · cases h
  split at h
  · cases h
  rename_i hage
  split at h
  · cases h
  rename_i hch
  push Not at hch
  split at h
  · cases h
  rename_i c hc
  split at h
  · cases h
  rename_i hgen
  refine ⟨Nat.le_of_not_lt hage, hch.1, c, hc, not_not.mp hgen, ?_⟩
  split at h
  · rename_i row hrow
    split at h
    · cases h
    rename_i old hold
    split at h
    · cases h
      exact Or.inl ⟨row, old, hrow, hold, rfl, rfl⟩
    · cases h
  · rename_i hnone
    exact Or.inr ⟨hnone, h⟩

/-! ## Consumers -/

variable {generation : String}

theorem withConsumer_has {key : String × String} {baseline : Nat} {k : String × String}
    {p : ConsumerRow} :
    (withConsumer db key generation baseline).Has k p ↔
      db.consumers.Has k p ∨
        (db.consumers.find key = none ∧ k = key ∧
          p = ⟨generation, baseline, none, baseline, 0⟩) := by
  unfold withConsumer
  split
  · rename_i hnone
    have htaken : db.consumers.find key ≠ none := by
      intro hfree
      obtain ⟨t', ht'⟩ := Table.insert_isSome
        (⟨generation, baseline, none, baseline, 0⟩ : ConsumerRow) hfree
      rw [ht'] at hnone
      cases hnone
    simp [htaken]
  · rename_i consumers hins
    obtain ⟨hfree, hhas⟩ := Table.insert_eq_some hins
    rw [hhas]
    simp [hfree]

variable {consumer : String}

/-- The consumer a successful read worked for: its row before the page was
offered, created by the read itself for a brand new consumer. -/
theorem readDonations_ok {after revision : Nat} {limit : Int} {ds : List Donation}
    {st : CollectionState}
    (h : readDonations t db consumer channel generation after revision limit = .ok (db', ds, st)) :
    ∃ c p next, db.channels.find channel = some c ∧ generation = c.generation ∧
      c.expiredThrough ≤ after ∧ after ≤ c.nextOffset ∧
      (withConsumer db (consumer, channel) generation c.expiredThrough).Has
        (consumer, channel) p ∧
      p.generation = generation ∧ p.recoveryRevision = revision ∧
      p.baseline ≤ after ∧ after ≤ p.offeredOffset ∧
      scanDonations after
        (selectPayloads db channel generation after (pageLimit limit)) =
          .ok (ds, next) ∧
      db' = { db with
              consumers :=
                if p.offeredOffset < next then
                  (withConsumer db (consumer, channel) generation c.expiredThrough).modify
                    (consumer, channel) fun p => { p with offeredOffset := next }
                else withConsumer db (consumer, channel) generation c.expiredThrough } ∧
      st = scanCollection db (t.clk 0) channel c := by
  unfold readDonations at h
  split at h
  · cases h
  rename_i c hc
  split at h
  · cases h
  rename_i hgen
  split at h
  · cases h
  rename_i hexp
  split at h
  · cases h
  rename_i hcur
  dsimp only at h
  split at h
  · cases h
  rename_i p hp
  split at h
  · cases h
  rename_i hpg
  split at h
  · cases h
  rename_i hrev
  split at h
  · cases h
  rename_i hwin
  push Not at hwin
  split at h
  · cases h
  rename_i result next hscan
  cases h
  exact ⟨c, p, next, hc, not_not.mp hgen, Nat.le_of_not_lt hexp, Nat.le_of_not_lt hcur,
    Table.find_eq_some_iff.mp hp, not_not.mp hpg, not_not.mp hrev, hwin.1, hwin.2,
    hscan, rfl, rfl⟩

theorem ackDonations_ok {offset revision : Nat}
    (h : ackDonations db consumer channel generation offset revision = .ok db') :
    ∃ c p, db.channels.find channel = some c ∧ c.generation = generation ∧
      c.expiredThrough ≤ offset ∧
      db.consumers.Has (consumer, channel) p ∧ p.generation = generation ∧
      p.recoveryRevision = revision ∧ p.baseline < offset ∧ offset ≤ p.offeredOffset ∧
      p.position ≤ offset ∧
      db' = { db with
              consumers := db.consumers.modify (consumer, channel) fun p =>
                { p with ackOffset := some offset } } := by
  unfold ackDonations at h
  split at h
  · cases h
  rename_i c hc
  split at h
  · cases h
  rename_i hgen
  split at h
  · cases h
  rename_i hexp
  split at h
  · cases h
  rename_i p hp
  split at h
  · cases h
  rename_i hpg
  split at h
  · cases h
  rename_i hrev
  split at h
  · cases h
  rename_i hwin
  push Not at hwin
  cases h
  refine ⟨c, p, hc, not_not.mp hgen, Nat.le_of_not_lt hexp, Table.find_eq_some_iff.mp hp,
    not_not.mp hpg, not_not.mp hrev, hwin.1, hwin.2.1, ?_, rfl⟩
  have hack := hwin.2.2
  unfold ConsumerRow.position
  cases hp' : p.ackOffset with
  | none => exact Nat.le_of_lt hwin.1
  | some ack => simpa [hp'] using hack

/-! ## Requests -/

/-- What `requestResult` answers, by the saved row. -/
theorem requestResult_cases (B : Backend) (db : Db) (key : RequestKey) (body : String) :
    (db.requests.find key = none ∧ requestResult B db key body = .ok none) ∨
      (∃ row, db.requests.find key = some row ∧
        ((row.bodyHash = B.requestHash body ∧
            requestResult B db key body = .ok (some row.result)) ∨
          (row.bodyHash ≠ B.requestHash body ∧
            requestResult B db key body = .error .conflict))) := by
  unfold requestResult
  cases hf : db.requests.find key with
  | none => exact Or.inl ⟨rfl, rfl⟩
  | some row =>
    by_cases hh : row.bodyHash = B.requestHash body
    · exact Or.inr ⟨row, rfl, Or.inl ⟨hh, by simp [hh]⟩⟩
    · exact Or.inr ⟨row, rfl, Or.inr ⟨hh, by simp [hh]⟩⟩

theorem saveRequest_ok {at_ : Time} {key : RequestKey} {body : String}
    {result : SavedResult} (h : saveRequest B at_ db key body result = .ok db') :
    ∃ requests,
      db.requests.insert key ⟨B.requestHash body, result, at_⟩ = some requests ∧
        db' = { db with requests } := by
  unfold saveRequest at h
  split at h
  · cases h
  · rename_i requests hins
    cases h
    exact ⟨requests, hins, rfl⟩

variable {key : String}

/-- A successful subscription change answered from the saved request, or
applied and saved itself. -/
theorem setSubscription_ok {enabled b : Bool}
    (h : setSubscription B t db consumer channel key enabled = .ok (db', b)) :
    (∃ row, db.requests.find ⟨consumer, channel, .subscription, key⟩ = some row ∧
        row.bodyHash = B.requestHash (marshalBool enabled) ∧
        row.result = .subscription b ∧ db' = db) ∨
      (b = enabled ∧ ∃ c requests, db.channels.find channel = some c ∧
        db.requests.insert ⟨consumer, channel, .subscription, key⟩
          ⟨B.requestHash (marshalBool enabled), .subscription enabled, t.clk 2⟩ =
            some requests ∧
        db' = { db with
                channels := db.channels.modify channel fun c =>
                  { c with subscribed := enabled }
                grants := if enabled then db.grants else closeGrants db channel (t.clk 1)
                requests }) := by
  unfold setSubscription at h
  split at h
  · cases h
  split at h
  · cases h
  rename_i c hc
  rcases requestResult_cases B db ⟨consumer, channel, .subscription, key⟩
      (marshalBool enabled) with
    ⟨-, hres⟩ | ⟨row, hrow, ⟨hhash, hres⟩ | ⟨-, hres⟩⟩
  · rw [hres] at h
    dsimp only at h
    split at h
    · cases h
    split at h
    · cases h
    rename_i db1 hsave
    cases h
    obtain ⟨requests, hins, rfl⟩ := saveRequest_ok hsave
    exact Or.inr ⟨rfl, c, requests, hc, hins, rfl⟩
  · rw [hres] at h
    cases hsaved : row.result with
    | subscription old =>
      rw [hsaved] at h
      cases h
      exact Or.inl ⟨row, hrow, hhash, hsaved, rfl⟩
    | recovery r =>
      rw [hsaved] at h
      cases h
  · rw [hres] at h
    cases h

/-- Its key passed the length check. -/
theorem setSubscription_key {enabled b : Bool}
    (h : setSubscription B t db consumer channel key enabled = .ok (db', b)) :
    ¬(key = "" ∨ 200 < key.utf8ByteSize) := by
  unfold setSubscription at h
  split at h
  · cases h
  · rename_i hkey
    exact hkey

/-- The decision an applied recovery takes. -/
def decisionOf (db : Db) (consumer channel previous next : String)
    (resume expected : Nat) : RecoveryDecision :=
  { previousGeneration := previous, newGeneration := next
    previousOffset := (recoveryProgress db (consumer, channel) previous).position
    resumeFrom := resume, revision := expected + 1 }

/-- The checks an applied recovery passed and the rows it wrote. -/
structure RecoveryApplied (B : Backend) (t : Clocks) (db db' : Db)
    (consumer channel key previous next : String) (resume expected : Nat)
    (request : String) (r : RecoveryDecision) : Prop where
  generation : ∃ c, db.channels.find channel = some c ∧ next = c.generation ∧
    c.expiredThrough ≤ resume ∧ resume ≤ c.nextOffset
  progress : (recoveryProgress db (consumer, channel) previous).generation = previous
  not_max : expected ≠ maxUint64
  revision : expected = (recoveryProgress db (consumer, channel) previous).recoveryRevision
  forward : previous = next →
    (recoveryProgress db (consumer, channel) previous).position ≤ resume
  declared : lossDeclared B previous next
    (recoveryProgress db (consumer, channel) previous).position resume request = true
  reply : r = decisionOf db consumer channel previous next resume expected
  written : ∃ requests,
    db.requests.insert ⟨consumer, channel, .recovery, key⟩
      ⟨B.requestHash request, .recovery r, t.clk 1⟩ = some requests ∧
    db' = { db with
            consumers := db.consumers.upsert (consumer, channel)
              ⟨next, resume, none, resume, expected + 1⟩
            requests
            audit := db.audit ++
              [⟨consumer, channel, .decision request r, t.clk 2⟩] }

/-- A successful recovery answered from the saved request, or was applied. -/
theorem resolveRecovery_ok {previous next : String} {resume expected : Nat} {request : String}
    {r : RecoveryDecision}
    (h : resolveRecovery B t db consumer channel key previous next resume expected request =
      .ok (db', r)) :
    (∃ row, db.requests.find ⟨consumer, channel, .recovery, key⟩ = some row ∧
        row.bodyHash = B.requestHash request ∧ row.result = .recovery r ∧ db' = db) ∨
      RecoveryApplied B t db db' consumer channel key previous next resume expected
        request r := by
  unfold resolveRecovery at h
  split at h
  · cases h
  rename_i c hc
  rcases requestResult_cases B db ⟨consumer, channel, .recovery, key⟩ request with
    ⟨-, hres⟩ | ⟨row, hrow, ⟨hhash, hres⟩ | ⟨-, hres⟩⟩
  · rw [hres] at h
    dsimp only at h
    split at h
    · cases h
    rename_i hgen
    split at h
    · cases h
    rename_i hwin
    push Not at hwin
    split at h
    · cases h
    rename_i hpg
    split at h
    · cases h
    rename_i hmax
    split at h
    · cases h
    rename_i hrev
    split at h
    · cases h
    rename_i hfwd
    split at h
    · cases h
    rename_i hloss
    split at h
    · cases h
    rename_i db1 hsave
    split at h
    · cases h
    cases h
    obtain ⟨requests, hins, rfl⟩ := saveRequest_ok hsave
    exact Or.inr
      { generation := ⟨c, hc, not_not.mp hgen, hwin.1, hwin.2⟩
        progress := not_not.mp hpg
        not_max := hmax
        revision := not_not.mp hrev
        forward := fun heq => Nat.le_of_not_lt fun hlt => hfwd ⟨heq, hlt⟩
        declared := by simpa using hloss
        reply := rfl
        written := ⟨requests, hins, rfl⟩ }
  · rw [hres] at h
    cases hsaved : row.result with
    | subscription old =>
      rw [hsaved] at h
      cases h
    | recovery saved =>
      rw [hsaved] at h
      cases h
      exact Or.inl ⟨row, hrow, hhash, hsaved, rfl⟩
  · rw [hres] at h
    cases h

/-! ## Retention and rotation -/

/-- Where the retention loop of an `ExpireDonations` call stops. -/
def expiresThrough (B : Backend) (t : Clocks) (db : Db) (channel : String)
    (c : ChannelRow) (minAge maxAge maxPayloadBytes : Int) : Nat :=
  expireLoop db channel c.generation t.now minAge maxAge maxPayloadBytes 0
    c.expiredThrough (payloadBytes B db channel) (candidates B db channel c.generation)

/-- Retention up to `through`: payloads go, tombstones stay. -/
def expired (db : Db) (channel : String) (c : ChannelRow) (through : Nat) : Db :=
  { db with
    donations := db.donations.update fun _ row =>
      if row.channelID = channel ∧ row.generation = c.generation ∧
          row.channelOffset ≤ through then { row with payload := none }
      else row
    channels := db.channels.modify channel fun c => { c with expiredThrough := through } }

theorem expireDonations_ok {minAge maxAge maxPayloadBytes : Int}
    (h : expireDonations B t db channel minAge maxAge maxPayloadBytes = .ok db') :
    ∃ c, db.channels.find channel = some c ∧
      ((expiresThrough B t db channel c minAge maxAge maxPayloadBytes ≤
            c.expiredThrough ∧ db' = db) ∨
        (c.expiredThrough <
            expiresThrough B t db channel c minAge maxAge maxPayloadBytes ∧
          db' = expired db channel c
            (expiresThrough B t db channel c minAge maxAge maxPayloadBytes))) := by
  unfold expireDonations at h
  split at h
  · cases h
  split at h
  · cases h
  rename_i c hc
  dsimp only at h
  split at h
  · rename_i hlt
    cases h
    exact ⟨c, hc, Or.inr ⟨hlt, rfl⟩⟩
  · rename_i hle
    cases h
    exact ⟨c, hc, Or.inl ⟨Nat.le_of_not_lt hle, rfl⟩⟩

theorem maintainCollection_ok (h : maintainCollection B t db channel = .ok db') :
    ∃ db1, expireDonations B t db channel (7 * day) (30 * day) (2 ^ 30 - 2 ^ 20) =
        .ok db1 ∧ db' = purgeCollection t db1 channel := by
  unfold maintainCollection at h
  split at h
  · cases h
  · rename_i db1 hexp
    cases h
    exact ⟨db1, hexp, rfl⟩

/-- A donation row under a new generation. -/
def DonationRow.rotate (row : DonationRow) (uuid : String) : DonationRow :=
  { row with
    generation := uuid
    payload := row.payload.map fun d => { d with generation := uuid } }

/-- The database a rotation commits. -/
def rotated (t : Clocks) (uuid : String) (db : Db) (channel reason : String)
    (c : ChannelRow) : Db :=
  { db with
    grants := closeGrants db channel (t.clk 0)
    donations := db.donations.update fun _ row =>
      if row.channelID = channel ∧ row.generation = c.generation then row.rotate uuid
      else row
    channels := db.channels.modify channel fun c =>
      { c with
        generation := uuid
        ownerToken := none
        runtimeState := "recovery_required"
        stateAt := t.clk 1 }
    audit := db.audit ++
      [⟨"collector_restore", channel, .restore reason c.generation uuid, t.clk 2⟩] }

theorem rotateJournal_ok {expected reason n : String}
    (h : rotateJournal t uuid db channel expected reason = .ok (db', n)) :
    n = uuid ∧ ∃ c, db.channels.find channel = some c ∧ c.generation = expected ∧
      db' = rotated t uuid db channel reason c := by
  unfold rotateJournal at h
  split at h
  · cases h
  split at h
  · cases h
  rename_i c hc
  split at h
  · cases h
  rename_i hgen
  split at h
  · cases h
  cases h
  exact ⟨rfl, c, hc, not_not.mp hgen, rfl⟩

end RogiCollector.Ports.Journal
