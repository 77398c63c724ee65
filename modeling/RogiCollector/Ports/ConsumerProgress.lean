import RogiCollector.Ports.JournalInvariant

/-!
# A consumer's progress

`ProgressStep` says, for one consumer of one channel, everything a committed
call can do to its row: nothing, a page was offered, an offset acknowledged,
a recovery applied.  What is proved about histories further on (no offset is
skipped silently, revisions, the cut of a rotation) starts from it.

The main result is about whole histories.  The invariant behind it speaks of
the *offered* offset, not of the acknowledged one: an acknowledgement only
moves inside what was offered, so the history has to explain each offset at
the moment it is offered or skipped.
-/

namespace RogiCollector.Ports.Journal

open Verified

/-! ## One call, one consumer -/

/-- The row a first read creates. -/
def freshConsumer (c : ChannelRow) : ConsumerRow :=
  ⟨c.generation, c.expiredThrough, none, c.expiredThrough, 0⟩

/-- All a committed call can do to the row of `consumer` on `channel`. -/
inductive ProgressStep (B : Backend) (t : Clocks) (db db' : Db) (op : Op) (reply : Reply)
    (consumer channel : String) : Option ConsumerRow → Option ConsumerRow → Prop where
  | same (p : Option ConsumerRow) : ProgressStep B t db db' op reply consumer channel p p
  | read {old : Option ConsumerRow} {generation : String} {after revision next : Nat}
      {limit : Int} {ds : List Donation} {st : CollectionState} {c : ChannelRow}
      {p : ConsumerRow}
      (hop : op = .read consumer channel generation after revision limit)
      (hreply : reply = .page ds st)
      (hc : db.channels.Has channel c) (hgen : p.generation = c.generation)
      (hrow : old = some p ∨ (old = none ∧ p = freshConsumer c))
      (hrev : p.recoveryRevision = revision)
      (hlo : p.baseline ≤ after) (hhi : after ≤ p.offeredOffset)
      (hpage : ∀ o, after < o → o ≤ next → o ∈ ds.map Donation.offset) :
      ProgressStep B t db db' op reply consumer channel old
        (some { p with offeredOffset := max p.offeredOffset next })
  | ack {generation : String} {offset revision : Nat} {c : ChannelRow} {p : ConsumerRow}
      (hop : op = .ack consumer channel generation offset revision)
      (hc : db.channels.Has channel c) (hgen : p.generation = c.generation)
      (hrev : p.recoveryRevision = revision)
      (hpos : p.position ≤ offset) (hhi : offset ≤ p.offeredOffset) :
      ProgressStep B t db db' op reply consumer channel (some p)
        (some { p with ackOffset := some offset })
  | resolve {old : Option ConsumerRow} {key previous next : String} {resume expected : Nat}
      {request : String} {r : RecoveryDecision}
      (hop : op = .resolve consumer channel key previous next resume expected request)
      (hreply : reply = .decision r) (hold : old = db.consumers.find (consumer, channel))
      (happ : RecoveryApplied B t db db' consumer channel key previous next resume expected
        request r) :
      ProgressStep B t db db' op reply consumer channel old
        (some ⟨next, resume, none, resume, expected + 1⟩)

variable {B : Backend} {t : Clocks} {uuid : String} {db db' : Db}

variable {op : Op} {reply : Reply} {consumer channel : String}

/-- Calls that leave the consumers alone. -/
theorem ProgressStep.of_eq (h : db'.consumers = db.consumers) :
    ProgressStep B t db db' op reply consumer channel
      (db.consumers.find (consumer, channel)) (db'.consumers.find (consumer, channel)) := by
  rw [h]
  exact .same _

variable {consumer' channel' generation : String}

/-- Offering a page, seen from any consumer. -/
theorem progress_read {after revision : Nat} {limit : Int} {ds : List Donation}
    {st : CollectionState} (h : JournalInv db)
    (hread : readDonations t db consumer' channel' generation after revision limit =
      .ok (db', ds, st)) :
    ProgressStep B t db db' (.read consumer' channel' generation after revision limit)
      (.page ds st) consumer channel (db.consumers.find (consumer, channel))
      (db'.consumers.find (consumer, channel)) := by
  obtain ⟨c, p, next, hfind, rfl, hexp, hcur, hp, hpg, hrev, hlo, hhi, hscan, rfl, -⟩ :=
    readDonations_ok hread
  have hc := Table.find_eq_some_iff.mp hfind
  obtain ⟨-, hoff⟩ := h.read_page hc hread
  have hnext : next = after + min (pageLimit limit) (c.nextOffset - after) := by
    rw [h.scanDonations_ok hc hexp hcur] at hscan
    injection hscan with hscan
    injection hscan with _ hnext
    exact hnext.symm
  by_cases hk : (consumer, channel) = (consumer', channel')
  · obtain ⟨rfl, rfl⟩ := Prod.mk.inj hk
    have hrow : db.consumers.find (consumer, channel) = some p ∨
        (db.consumers.find (consumer, channel) = none ∧ p = freshConsumer c) := by
      rcases withConsumer_has.mp hp with hp | ⟨hnone, -, rfl⟩
      · exact Or.inl (Table.find_eq_some_iff.mpr hp)
      · exact Or.inr ⟨hnone, rfl⟩
    have hpage : ∀ o, after < o → o ≤ next → o ∈ ds.map Donation.offset := by
      intro o hlt hle
      rw [hoff, List.mem_range'_1]
      omega
    -- Whether or not the cursor moved, the row ends at the larger of the two.
    have hnew : (if p.offeredOffset < next then
          (withConsumer db (consumer, channel) c.generation c.expiredThrough).modify
            (consumer, channel) fun p => { p with offeredOffset := next }
        else withConsumer db (consumer, channel) c.generation c.expiredThrough).find
          (consumer, channel) =
        some { p with offeredOffset := max p.offeredOffset next } := by
      split
      · rename_i hlt
        rw [Table.find_modify_self hp, Nat.max_eq_right (Nat.le_of_lt hlt)]
      · rename_i hge
        rw [Table.find_eq_some_iff.mpr hp, Nat.max_eq_left (Nat.le_of_not_lt hge)]
    rw [hnew]
    exact .read rfl rfl hc hpg hrow hrev hlo hhi hpage
  · have hother : ∀ q, (withConsumer db (consumer', channel') c.generation
        c.expiredThrough).Has (consumer, channel) q ↔
          db.consumers.Has (consumer, channel) q := by
      intro q
      rw [withConsumer_has]
      simp [hk]
    have hsame : (if p.offeredOffset < next then
          (withConsumer db (consumer', channel') c.generation c.expiredThrough).modify
            (consumer', channel') fun p => { p with offeredOffset := next }
        else withConsumer db (consumer', channel') c.generation c.expiredThrough).find
          (consumer, channel) = db.consumers.find (consumer, channel) := by
      split
      · rw [Table.find_modify_of_ne hk]
        exact Table.find_congr hother
      · exact Table.find_congr hother
    rw [hsame]
    exact .same _

/-- Acknowledging, seen from any consumer. -/
theorem progress_ack {offset revision : Nat}
    (hack : ackDonations db consumer' channel' generation offset revision = .ok db') :
    ProgressStep B t db db' (.ack consumer' channel' generation offset revision) .done
      consumer channel (db.consumers.find (consumer, channel))
      (db'.consumers.find (consumer, channel)) := by
  obtain ⟨c, p, hfind, hgen, -, hp, hpg, hrev, -, hhi, hpos, rfl⟩ := ackDonations_ok hack
  have hc := Table.find_eq_some_iff.mp hfind
  by_cases hk : (consumer, channel) = (consumer', channel')
  · obtain ⟨rfl, rfl⟩ := Prod.mk.inj hk
    rw [Table.find_modify_self hp, Table.find_eq_some_iff.mpr hp]
    exact .ack rfl hc (hpg.trans hgen.symm) hrev hpos hhi
  · rw [Table.find_modify_of_ne hk]
    exact .same _

variable {resume : Nat}

/-- An applied recovery, seen from any consumer. -/
theorem progress_resolve {key previous next : String} {expected : Nat} {request : String}
    {r : RecoveryDecision}
    (happ : RecoveryApplied B t db db' consumer' channel' key previous next resume
      expected request r) :
    ProgressStep B t db db'
      (.resolve consumer' channel' key previous next resume expected request) (.decision r)
      consumer channel (db.consumers.find (consumer, channel))
      (db'.consumers.find (consumer, channel)) := by
  obtain ⟨requests, -, hdb⟩ := happ.written
  have hcons : db'.consumers = db.consumers.upsert (consumer', channel')
      ⟨next, resume, none, resume, expected + 1⟩ := by rw [hdb]
  rw [hcons]
  by_cases hk : (consumer, channel) = (consumer', channel')
  · obtain ⟨rfl, rfl⟩ := Prod.mk.inj hk
    rw [Table.find_upsert_self]
    exact .resolve rfl rfl rfl happ
  · rw [Table.find_upsert_of_ne hk]
    exact .same _

/-- What a committed call does to one consumer's row. -/
theorem apply_progress (h : JournalInv db) (hop : apply B t uuid db op = .ok (db', reply))
    (consumer channel : String) :
    ProgressStep B t db db' op reply consumer channel
      (db.consumers.find (consumer, channel)) (db'.consumers.find (consumer, channel)) := by
  cases apply_commits hop with
  | append _ _ _ hnew =>
    obtain ⟨row, donations, outbox, -, -, -, -, -, -, -, rfl⟩ := appendNew_ok hnew
    exact ProgressStep.of_eq rfl
  | read hread => exact progress_read h hread
  | ack hack => exact progress_ack hack
  | resolve _ happ => exact progress_resolve happ
  | maintain hexp =>
    obtain ⟨c, -, ⟨-, rfl⟩ | ⟨-, rfl⟩⟩ := expireDonations_ok hexp <;>
      exact ProgressStep.of_eq rfl
  | _ => exact ProgressStep.of_eq rfl

/-! ## The covering loop -/

theorem succUint64_le (n : Nat) : succUint64 n ≤ n + 1 := Nat.mod_le _ _

variable {o : Nat}

/-- Every offset the covering loop passes lies in one of the ranges.  A wrap
of `covered + 1` gives `0`, which only refuses more. -/
theorem coverRanges_covers {previous : String} {covered : Nat} {ranges : List LossRange}
    (h : coverRanges previous covered ranges = some resume) (hlo : covered < o)
    (hhi : o ≤ resume) : ∃ r ∈ ranges, r.covers o := by
  induction ranges generalizing covered with
  | nil =>
    simp only [coverRanges, Option.some.injEq] at h
    omega
  | cons r rs ih =>
    simp only [coverRanges] at h
    split at h
    · cases h
    split at h
    · cases h
    have hsucc := succUint64_le covered
    by_cases hend : o ≤ r.endOffset
    · exact ⟨r, by simp, by omega, hend⟩
    · have hlo' : (if covered < r.endOffset then r.endOffset else covered) < o := by
        split <;> omega
      obtain ⟨r', hr', hcov⟩ := ih h hlo'
      exact ⟨r', List.mem_cons_of_mem _ hr', hcov⟩

/-- A recovery inside one generation declares every offset it skips. -/
theorem lossDeclared_covers {request : String} {old : Nat}
    (h : lossDeclared B generation generation old resume request = true) (hlo : old < o)
    (hhi : o ≤ resume) :
    ∃ ranges, B.unrecoveredRanges request = some ranges ∧ ∃ r ∈ ranges, r.covers o := by
  unfold lossDeclared at h
  rw [if_pos ⟨rfl, by omega⟩] at h
  split at h
  · cases h
  · rename_i ranges hranges
    exact ⟨ranges, hranges, coverRanges_covers (of_decide_eq_true h) hlo hhi⟩

/-! ## Histories -/

/-- A history of calls with what they returned. -/
abbrev History := List (Call × Except StoreErr Reply)

/-- A successful `ReadDonations` of the history returned offset `o` to the
consumer. -/
def Returned (tr : History) (consumer channel : String) (o : Nat) : Prop :=
  ∃ call ds st generation after revision limit,
    (call, .ok (.page ds st)) ∈ tr ∧
      call.op = .read consumer channel generation after revision limit ∧
      o ∈ ds.map Donation.offset

/-- A successful `ResolveRecovery` of the history declared offset `o` lost for
the consumer. -/
def Declared (B : Backend) (tr : History) (consumer channel : String) (o : Nat) : Prop :=
  ∃ call r key previous next resume expected request ranges,
    (call, .ok (.decision r)) ∈ tr ∧
      call.op = .resolve consumer channel key previous next resume expected request ∧
      B.unrecoveredRanges request = some ranges ∧ ∃ range ∈ ranges, range.covers o

/-- The history accounts for offset `o`. -/
def Explained (B : Backend) (tr : History) (consumer channel : String) (o : Nat) : Prop :=
  Returned tr consumer channel o ∨ Declared B tr consumer channel o

variable {tr : History}

/-- A longer history explains at least as much. -/
theorem Explained.mono {tr' : History} (hsub : ∀ e ∈ tr, e ∈ tr')
    (h : Explained B tr consumer channel o) :
    Explained B tr' consumer channel o := by
  rcases h with ⟨call, ds, st, g, a, r, l, hmem, hrest⟩ |
    ⟨call, r, k, p, n, re, e, rq, rs, hmem, hrest⟩
  · exact Or.inl ⟨call, ds, st, g, a, r, l, hsub _ hmem, hrest⟩
  · exact Or.inr ⟨call, r, k, p, n, re, e, rq, rs, hsub _ hmem, hrest⟩

/-- The row is in the channel's generation and the history explains every
offset after `base` that was ever offered. -/
structure Accounted (B : Backend) (tr : History) (consumer channel : String) (base : Nat)
    (generation : String) (p : ConsumerRow) : Prop where
  generation : p.generation = generation
  explained : ∀ o, base < o → o ≤ p.offeredOffset → Explained B tr consumer channel o

variable {base : Nat} {p : ConsumerRow}

/-- One committed call extends the account and does not move the position
back. -/
theorem ProgressStep.accounted {new : Option ConsumerRow} {call : Call} (h : JournalInv db)
    (hcall : call.op = op) (hp : db.consumers.Has (consumer, channel) p)
    (hgen : ∃ c, db.channels.Has channel c ∧ c.generation = generation)
    (hacc : Accounted B tr consumer channel base generation p)
    (hstep : ProgressStep B t db db' op reply consumer channel (some p) new) :
    ∃ p', new = some p' ∧ p.position ≤ p'.position ∧
      Accounted B (tr ++ [(call, .ok reply)]) consumer channel base generation p' := by
  have hmono : ∀ {o}, Explained B tr consumer channel o →
      Explained B (tr ++ [(call, .ok reply)]) consumer channel o :=
    Explained.mono fun e he => List.mem_append_left _ he
  have hlast : (call, Except.ok reply) ∈ tr ++ [(call, .ok reply)] := by simp
  cases hstep with
  | same => exact ⟨p, rfl, Nat.le_refl _, hacc.generation, fun o hlo hhi =>
    hmono (hacc.explained o hlo hhi)⟩
  | read hop hreply hc hpg hrow hrev hlo hhi hpage =>
    rcases hrow with hrow | ⟨hnone, -⟩
    · cases hrow
      refine ⟨_, rfl, Nat.le_refl _, hacc.generation, ?_⟩
      intro o hbase ho
      dsimp only at ho
      by_cases hold : o ≤ p.offeredOffset
      · exact hmono (hacc.explained o hbase hold)
      · subst hreply
        exact Or.inl ⟨call, _, _, _, _, _, _, hlast, hcall.trans hop,
          hpage o (by omega) (by omega)⟩
    · cases hnone
  | ack hop hc hpg hrev hpos hhi =>
    exact ⟨_, rfl, hpos, hacc.generation, fun o hbase ho =>
      hmono (hacc.explained o hbase ho)⟩
  | @resolve _ key previous next resume expected request r hop hreply hold happ =>
    obtain ⟨c, hc, hcg⟩ := hgen
    have hprog : recoveryProgress db (consumer, channel) previous = p := by
      rw [recoveryProgress, ← hold]
      rfl
    obtain ⟨c', hfind, hnext, -, -⟩ := happ.generation
    rw [(Table.find_eq_some_iff.mp hfind).unique hc, hcg] at hnext
    -- Same generation on both sides: skipped offsets have to be declared.
    have hprev : previous = next := by
      rw [hnext, ← hacc.generation, ← hprog]
      exact happ.progress.symm
    have hfwd := happ.forward hprev
    have hloss := happ.declared
    rw [hprog] at hfwd hloss
    refine ⟨_, rfl, hfwd, hnext, ?_⟩
    intro o hbase ho
    by_cases hpast : o ≤ p.position
    · have hoff := (h.cursor hp hc).2.1
      exact hmono (hacc.explained o hbase (by omega))
    · rw [hprev] at hloss
      obtain ⟨ranges, hranges, hcov⟩ := lossDeclared_covers hloss (by omega) ho
      subst hreply
      exact Or.inr ⟨call, _, _, _, _, _, _, _, ranges, hlast, hcall.trans hop, hranges,
        hcov⟩

variable {s : Sys}

/-- The account is extended by every step, failing calls included. -/
theorem step_accounted (call : Call) (h : JournalInv s.db)
    (hp : s.db.consumers.Has (consumer, channel) p)
    (hgen : ∃ c, s.db.channels.Has channel c ∧ c.generation = generation)
    (hacc : Accounted B tr consumer channel base generation p) :
    ∃ p', ((machine B).step s call).1.db.consumers.Has (consumer, channel) p' ∧
      p.position ≤ p'.position ∧
      Accounted B (tr ++ [(call, ((machine B).step s call).2)]) consumer channel base
        generation p' := by
  rcases step_db (B := B) s call with ⟨reply, hok, hout⟩ | ⟨e, -, hdb, -⟩
  · have hstep := apply_progress h hok consumer channel
    rw [Table.find_eq_some_iff.mpr hp] at hstep
    obtain ⟨p', hp', hle, hacc'⟩ := hstep.accounted h (Eq.refl call.op) hp hgen hacc
    rw [hout]
    exact ⟨p', Table.find_eq_some_iff.mp hp', hle, hacc'⟩
  · rw [hdb]
    refine ⟨p, hp, Nat.le_refl _, hacc.generation, fun o hlo hhi => ?_⟩
    exact (hacc.explained o hlo hhi).mono fun e he => List.mem_append_left _ he

/-- And by every run that stays in the generation. -/
theorem run_accounted {s' : Sys} {tr0 : History} (h : JournalInv s.db)
    (hp : s.db.consumers.Has (consumer, channel) p)
    (hacc : Accounted B tr0 consumer channel base generation p) (hr : (machine B).Run s tr s')
    (hgen : (machine B).Throughout (fun s => ∃ c, s.db.channels.Has channel c ∧
      c.generation = generation) s tr) :
    ∃ p', s'.db.consumers.Has (consumer, channel) p' ∧ p.position ≤ p'.position ∧
      Accounted B (tr0 ++ tr) consumer channel base generation p' := by
  induction hr with
  | nil => exact ⟨p, hp, Nat.le_refl _, by simpa using hacc⟩
  | @snoc tr1 s1 hr call hadm ih =>
    obtain ⟨p1, hp1, hle1, hacc1⟩ := ih hgen.of_append
    obtain ⟨p2, hp2, hle2, hacc2⟩ :=
      step_accounted call (run_journalInv hr h) hp1 (hgen.of_append.last hr) hacc1
    refine ⟨p2, hp2, Nat.le_trans hle1 hle2, ?_⟩
    rw [← List.append_assoc]
    exact hacc2

/-- The call that brings a consumer's row into a generation, by creating it or
by a recovery from another generation, accounts for what it offers. -/
theorem created_accounted {call : Call} (h : JournalInv s.db)
    (hnew : ∀ p', s.db.consumers.Has (consumer, channel) p' → p'.generation ≠ p.generation)
    (hp : ((machine B).step s call).1.db.consumers.Has (consumer, channel) p) :
    Accounted B [(call, ((machine B).step s call).2)] consumer channel p.baseline
      p.generation p := by
  rcases step_db (B := B) s call with ⟨reply, hok, hout⟩ | ⟨e, -, hdb, -⟩
  · have hstep := apply_progress h hok consumer channel
    rw [Table.find_eq_some_iff.mpr hp] at hstep
    rw [hout]
    refine ⟨rfl, fun o hlo hhi => ?_⟩
    generalize hold : s.db.consumers.find (consumer, channel) = old at hstep
    cases hstep with
    | same => exact absurd rfl (hnew p (Table.find_eq_some_iff.mp hold))
    | @read _ _ _ _ _ _ _ _ c p0 hop hreply hc hpg hrow hrev hbase hoff hpage =>
      rcases hrow with rfl | ⟨-, rfl⟩
      · exact absurd rfl (hnew p0 (Table.find_eq_some_iff.mp hold))
      · -- A fresh row starts with nothing offered: what it has is this page.
        simp only [freshConsumer] at hlo hhi hbase hoff
        subst hreply
        exact Or.inl ⟨call, _, _, _, _, _, _, List.mem_singleton_self _, hop,
          hpage o (by omega) (by omega)⟩
    | @ack _ _ _ _ p0 hop hc hpg hrev hpos hoff =>
      exact absurd rfl (hnew p0 (Table.find_eq_some_iff.mp hold))
    | resolve hop hreply hold' happ =>
      simp only at hlo hhi
      omega
  · rw [hdb] at hp
    exact absurd rfl (hnew p hp)

/-- **No silent skip.**  `call` creates the consumer's row in the current
generation (or brings it there from another one) with baseline
`p0.baseline`.  Along any run that stays in this generation the position never
moves back, and every offset between that baseline and the position was
returned to the consumer by a read of the history or declared lost by a
recovery of it. -/
theorem no_silent_skip {s0 s : Sys} {call : Call} {consumer channel : String}
    {p0 : ConsumerRow} {tr : History} (hs : Reachable B s0)
    (hnew : ∀ p, s0.db.consumers.Has (consumer, channel) p → p.generation ≠ p0.generation)
    (hp0 : ((machine B).step s0 call).1.db.consumers.Has (consumer, channel) p0)
    (hr : (machine B).Run ((machine B).step s0 call).1 tr s)
    (hgen : (machine B).Throughout
      (fun s => ∃ c, s.db.channels.Has channel c ∧ c.generation = p0.generation)
      ((machine B).step s0 call).1 tr) :
    ∃ p, s.db.consumers.Has (consumer, channel) p ∧
      (∀ tr1 tr2 s1 p1, tr = tr1 ++ tr2 →
        (machine B).Run ((machine B).step s0 call).1 tr1 s1 →
          s1.db.consumers.Has (consumer, channel) p1 → p1.position ≤ p.position) ∧
      ∀ o, p0.baseline < o → o ≤ p.position →
        Explained B ((call, ((machine B).step s0 call).2) :: tr) consumer channel o := by
  have h0 := hs.journalInv
  have h1 : JournalInv ((machine B).step s0 call).1.db := step_journalInv s0 call h0
  have hacc0 := created_accounted h0 hnew hp0
  obtain ⟨p, hp, -, hacc⟩ := run_accounted h1 hp0 hacc0 hr hgen
  have hinv : JournalInv s.db := run_journalInv hr h1
  refine ⟨p, hp, ?_, ?_⟩
  · rintro tr1 tr2 s1 p1 rfl hr1 hp1
    obtain ⟨s1', hr1', hr2⟩ := hr.split
    obtain rfl := hr1'.unique hr1
    obtain ⟨q, hq, -, haccq⟩ := run_accounted h1 hp0 hacc0 hr1 hgen.of_append
    obtain rfl := hq.unique hp1
    obtain ⟨q', hq', hle, -⟩ :=
      run_accounted (run_journalInv hr1 h1) hp1 haccq hr2 (hgen.rest hr1)
    rw [hq'.unique hp] at hle
    exact hle
  · intro o hlo hhi
    obtain ⟨c, -, -, hoffered, -⟩ := hinv.consumer hp
    exact hacc.explained o hlo (Nat.le_trans hhi hoffered)

/-- The journal with one donation, before anyone reads. -/
def beforeRead : Sys :=
  ((machine fixtureBackend).exec Sys.init
    (fixtureCalls (40 * day) ++
      [ .at (40 * day) "unused-2"
          (.append (fixtureGrant (40 * day)) (fixtureDonation 1 "epoch-a" (40 * day))
            (40 * day)) ])).1

/-- The read that creates the consumer's row. -/
def firstRead : Call :=
  .at (40 * day) "unused-3"
    (.read "fixture_consumer" "fixture_channel" "generation-a" 0 0 100)

/-- The acknowledgement of the page. -/
def firstAck : Call :=
  .at (40 * day) "unused-4" (.ack "fixture_consumer" "fixture_channel" "generation-a" 1 0)

theorem no_silent_skip_firstAck :
    ∃ p, ((machine fixtureBackend).exec ((machine fixtureBackend).step beforeRead
          firstRead).1 [firstAck]).1.db.consumers.Has
        ("fixture_consumer", "fixture_channel") p ∧ p.position = 1 ∧
      Explained fixtureBackend
        ((firstRead, ((machine fixtureBackend).step beforeRead firstRead).2) ::
          ((machine fixtureBackend).exec ((machine fixtureBackend).step beforeRead
            firstRead).1 [firstAck]).2)
        "fixture_consumer" "fixture_channel" 1 := by
  have hp0 : ((machine fixtureBackend).step beforeRead firstRead).1.db.consumers.find
      ("fixture_consumer", "fixture_channel") =
        some ⟨"generation-a", 0, none, 1, 0⟩ := by decide
  have hpos : (((machine fixtureBackend).exec ((machine fixtureBackend).step beforeRead
      firstRead).1 [firstAck]).1.db.consumers.find
        ("fixture_consumer", "fixture_channel")).map ConsumerRow.position = some 1 := by decide
  have hgen : ∀ s : Sys, (s.db.channels.find "fixture_channel").map ChannelRow.generation =
      some "generation-a" → ∃ c, s.db.channels.Has "fixture_channel" c ∧
        c.generation = "generation-a" := by
    intro s hs
    obtain ⟨c, hc, hg⟩ := Option.map_eq_some_iff.mp hs
    exact ⟨c, Table.find_eq_some_iff.mp hc, hg⟩
  have hreach : Reachable fixtureBackend beforeRead := reachable_exec _ (by decide)
  have hnone : beforeRead.db.consumers.find ("fixture_consumer", "fixture_channel") = none := by
    decide
  obtain ⟨p, hp, -, hexp⟩ := no_silent_skip hreach
    (fun p hp => absurd hp (Table.find_eq_none_iff.mp hnone p))
    (Table.find_eq_some_iff.mp hp0) (Machine.run_exec _ [firstAck] (by decide))
    (Machine.Throughout.cons (hgen _ (by decide)) (Machine.Throughout.nil (hgen _ (by decide))))
  rw [Table.find_eq_some_iff.mpr hp, Option.map_some, Option.some.injEq] at hpos
  exact ⟨p, hp, hpos, hexp 1 (by decide) (by omega)⟩

end RogiCollector.Ports.Journal
