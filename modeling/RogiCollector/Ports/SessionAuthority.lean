import RogiCollector.Ports.OwnerLease
import RogiCollector.Ports.WorkerSession

/-!
# Whether spooled donations are authorised

The worker checks its local deadline, the journal checks the grant's row.
The deadline is safe: it was counted from before the call that set the lease,
so it never lies behind `valid_until`, and a record that is renamed before the
deadline was accepted inside the lease.

The closing time is not safe.  `closed_at` is stamped by `ReleaseCollection`
or `SetSubscription` while the sink keeps accepting until the connector is
disconnected, and nothing the worker reads before it accepts says so.  A
record accepted after `closed_at` becomes a file the journal refuses with
`ErrOwner` at every drain, and the drain stops at the first such file.
-/

namespace RogiCollector.Ports.WorkerSession

open Verified
open Journal (Time StoreErr Donation OwnerGrant GrantRow Clocks Backend Sys
  Call Op Reply Db second leaseTime OwnerStep Shortened step_ownerStep appendDonation)
open DonationSpool (SpoolRecord Config Delivery Ctl)

/-! ## A grant's row over time -/

/-- A grant row some calls after `now`: extended at most, closed at most once. -/
structure Kept (now : Time) (g g' : GrantRow) : Prop where
  channelID : g'.channelID = g.channelID
  generation : g'.generation = g.generation
  grantedAt : g'.grantedAt = g.grantedAt
  validUntil : g.validUntil ≤ g'.validUntil
  closedAt : g'.closedAt = g.closedAt ∨
    (g.closedAt = none ∧ ∃ x, now ≤ x ∧ g'.closedAt = some x)

theorem Kept.refl (now : Time) (g : GrantRow) : Kept now g g :=
  ⟨rfl, rfl, rfl, Nat.le_refl _, Or.inl rfl⟩

/-- An acceptance time of the past is not cut off later. -/
theorem Kept.all_closedAt {now x : Time} {g g' : GrantRow} (h : Kept now g g') (hx : x ≤ now)
    (hall : g.closedAt.all (fun closed => x ≤ closed) = true) :
    g'.closedAt.all (fun closed => x ≤ closed) = true := by
  rcases h.closedAt with heq | ⟨-, y, hy, heq⟩
  · rwa [heq]
  · rw [heq]
    simpa using Nat.le_trans hx hy

theorem kept_of_shortened {t : Clocks} {now : Time} {g g' : GrantRow} (hnow : now ≤ t.clk 0)
    (h : Shortened t g g') : Kept now g g' := by
  rcases h with rfl | ⟨x, hx, -, rfl⟩
  · exact Kept.refl now _
  · refine ⟨rfl, rfl, rfl, Nat.le_refl _, ?_⟩
    cases hc : g.closedAt with
    | none => exact Or.inr ⟨rfl, x, Nat.le_trans hnow hx, by simp [GrantRow.close, hc]⟩
    | some y => exact Or.inl (by simp [GrantRow.close, hc])

/-- No lease reaches further than its length. -/
def LeaseBound (s : Sys) : Prop :=
  ∀ token row, s.db.grants.Has token row → row.validUntil ≤ s.clock + leaseTime

/-- Time passes, and the journal may serve a call. -/
structure Advance (s s' : Sys) (now now' : Time) : Prop where
  time : now ≤ now'
  minted : ∀ token ∈ s.minted, token ∈ s'.minted
  kept : ∀ {token g'}, token ∈ s.minted → s'.db.grants.Has token g' →
    ∃ g, s.db.grants.Has token g ∧ Kept now g g'

theorem Advance.tick (s : Sys) {now now' : Time} (h : now ≤ now') : Advance s s now now' :=
  ⟨h, fun _ hm => hm, fun _ hg => ⟨_, hg, Kept.refl _ _⟩⟩

variable {B : Backend} {C : Config}

theorem Advance.call {s : Sys} {now : Time} {call : Call} (hb : LeaseBound s)
    (hclock : s.clock ≤ now) (hnow : now ≤ call.clocks.clk 0) (hfresh : call.uuid ∉ s.minted) :
    Advance s ((Journal.machine B).step s call).1 now call.clocks.commit where
  time := Nat.le_trans hnow (call.clocks.le_commit 0)
  minted := by
    intro token hm
    rw [Journal.step_minted]
    exact List.mem_cons_of_mem _ hm
  kept := by
    intro token g' hm hg'
    cases step_ownerStep (B := B) s call with
    | quiet hq =>
      obtain ⟨g, hg, hs⟩ := hq.grant hg'
      exact ⟨g, hg, kept_of_shortened hnow hs⟩
    | acquire f hc hvalid hgrants hchannels hf hfg =>
      rcases ((Table.insert_eq_some hgrants).2 _ _).mp hg' with hg | ⟨rfl, -⟩
      · exact ⟨g', hg, Kept.refl _ _⟩
      · exact absurd hm hfresh
    | renew hc ho hrow hvalid hgrants hchannels =>
      rw [hgrants] at hg'
      rcases Table.has_modify.mp hg' with ⟨rfl, g, hg, rfl⟩ | ⟨-, hg⟩
      · refine ⟨g, hg, rfl, rfl, rfl, ?_, Or.inl rfl⟩
        have hclk : call.clocks.clk 0 ≤ call.clocks.clk 1 := call.clocks.mono (by decide)
        have hbound := hb _ _ hg
        lia
      · exact ⟨g', hg, Kept.refl _ _⟩

theorem LeaseBound.call {s : Sys} {call : Call} (hb : LeaseBound s)
    (hclock : s.clock ≤ call.clocks.clk 0) :
    LeaseBound ((Journal.machine B).step s call).1 := by
  intro token row hrow
  have hcommit := call.clocks.le_commit
  rw [Journal.step_clock]
  have hold : ∀ {g}, s.db.grants.Has token g →
      g.validUntil ≤ call.clocks.commit + leaseTime := by
    intro g hg
    have hbound := hb _ _ hg
    have h0 := hcommit 0
    lia
  cases step_ownerStep (B := B) s call with
  | quiet hq =>
    obtain ⟨g, hg, hs⟩ := hq.grant hrow
    have hle := hold hg
    rcases hs with rfl | ⟨x, -, -, rfl⟩ <;> exact hle
  | acquire f hc hvalid hgrants hchannels hf hfg =>
    rcases ((Table.insert_eq_some hgrants).2 _ _).mp hrow with hg | ⟨-, rfl⟩
    · exact hold hg
    · exact Nat.add_le_add_right (hcommit 2) _
  | renew hc ho hrow' hvalid hgrants hchannels =>
    rw [hgrants] at hrow
    rcases Table.has_modify.mp hrow with ⟨-, g, -, rfl⟩ | ⟨-, hg⟩
    · exact Nat.add_le_add_right (hcommit 1) _
    · exact hold hg

/-! ## What the worker holds -/

/-- What is true of a token's row, if it still has one. -/
structure Held (s : Sys) (token : String) (P : GrantRow → Prop) : Prop where
  minted : token ∈ s.minted
  row : ∀ {row}, s.db.grants.Has token row → P row

theorem Held.advance {s s' : Sys} {now now' : Time} {token : String} {P P' : GrantRow → Prop}
    (h : Held s token P) (ha : Advance s s' now now')
    (hP : ∀ g g', Kept now g g' → P g → P' g') : Held s' token P' where
  minted := ha.minted _ h.minted
  row := by
    intro g' hg'
    obtain ⟨g, hg, hk⟩ := ha.kept h.minted hg'
    exact hP g g' hk (h.row hg)

/-- The local deadline lies inside the lease of a grant that has begun. -/
def Backed (s : Sys) (now : Time) (g : OwnerGrant) (deadline : Time) : Prop :=
  Held s g.token fun row => row.channelID = g.channel ∧ row.generation = g.generation ∧
    row.grantedAt ≤ now ∧ deadline ≤ row.validUntil

/-- The acceptance time lies between the grant's beginning and its closing. -/
def Accepted (s : Sys) (r : SpoolRecord) : Prop :=
  Held s r.grant.token fun row => row.channelID = r.grant.channel ∧
    row.generation = r.grant.generation ∧ row.grantedAt ≤ r.acceptedAt ∧
    row.closedAt.all (fun closed => r.acceptedAt ≤ closed) = true

/-- And inside the lease. -/
def Authorised (s : Sys) (r : SpoolRecord) : Prop :=
  Accepted s r ∧ Held s r.grant.token fun row => r.acceptedAt ≤ row.validUntil

section Advance

variable {s s' : Sys} {now now' : Time}

theorem Backed.advance {g : OwnerGrant} {deadline : Time} (h : Backed s now g deadline)
    (ha : Advance s s' now now') : Backed s' now' g deadline := by
  refine Held.advance h ha ?_
  rintro row row' hk ⟨hch, hgen, hgranted, hvalid⟩
  exact ⟨hk.channelID.trans hch, hk.generation.trans hgen,
    hk.grantedAt ▸ Nat.le_trans hgranted ha.time, Nat.le_trans hvalid hk.validUntil⟩

theorem Accepted.advance {r : SpoolRecord} (h : Accepted s r) (ha : Advance s s' now now')
    (hr : r.acceptedAt ≤ now) : Accepted s' r := by
  refine Held.advance h ha ?_
  rintro row row' hk ⟨hch, hgen, hgranted, hclosed⟩
  exact ⟨hk.channelID.trans hch, hk.generation.trans hgen, hk.grantedAt ▸ hgranted,
    hk.all_closedAt hr hclosed⟩

theorem Authorised.advance {r : SpoolRecord} (h : Authorised s r) (ha : Advance s s' now now')
    (hr : r.acceptedAt ≤ now) : Authorised s' r :=
  ⟨h.1.advance ha hr, h.2.advance ha fun _ _ hk hle => Nat.le_trans hle hk.validUntil⟩

end Advance

/-- What a session knows. -/
def PointInv (s : Sys) (now : Time) : Point → Prop
  | .acquiring _ started => started ≤ now
  | .live session =>
    Backed s now session.grant session.deadline ∧
      match session.renewal with
      | .started started => started ≤ now
      | .answered started _ => Backed s now session.grant (started + localLease)
      | _ => True
  | .ended => True

/-- What `Save` knows about the record it is writing. -/
def RecordInv (s : Sys) (now : Time) : Ctl → Prop
  | .create r deadline | .write r deadline =>
    r.acceptedAt ≤ now ∧ Accepted s r ∧ Backed s now r.grant deadline
  | .rename r => r.acceptedAt ≤ now ∧ Authorised s r
  | _ => True

/-- The clocks agree and leases are bounded, whatever the worker accepts. -/
structure Clocked (s : State) : Prop where
  clock : s.spool.journal.clock ≤ s.time
  bound : LeaseBound s.spool.journal

/-- Deadlines are backed by leases, and files by the rows that authorise them. -/
structure Authority (s : State) : Prop extends Clocked s where
  sessions : ∀ {k : Nat} {point}, s.sessions[k]? = some point →
    PointInv s.spool.journal s.time point
  waiting : ∀ offer ∈ s.waiting, Backed s.spool.journal s.time offer.grant offer.deadline
  record : RecordInv s.spool.journal s.time s.spool.ctl
  files : ∀ {name r}, s.spool.json.Has name r →
    r.acceptedAt ≤ s.time ∧ Authorised s.spool.journal r

section Advance

variable {s s' : Sys} {now now' : Time}

theorem PointInv.advance {point : Point} (h : PointInv s now point)
    (ha : Advance s s' now now') : PointInv s' now' point := by
  cases point with
  | acquiring channel started => exact Nat.le_trans h ha.time
  | ended => trivial
  | live session =>
    refine ⟨h.1.advance ha, ?_⟩
    have hrenewal := h.2
    cases hren : session.renewal with
    | idle | stopped => trivial
    | started at_ =>
      rw [hren] at hrenewal
      exact Nat.le_trans hrenewal ha.time
    | answered at_ until_ =>
      rw [hren] at hrenewal
      exact Backed.advance hrenewal ha

theorem RecordInv.advance {ctl : Ctl} (h : RecordInv s now ctl)
    (ha : Advance s s' now now') : RecordInv s' now' ctl := by
  cases ctl with
  | create | write =>
    exact ⟨Nat.le_trans h.1 ha.time, h.2.1.advance ha h.1, h.2.2.advance ha⟩
  | rename r => exact ⟨Nat.le_trans h.1 ha.time, h.2.advance ha h.1⟩
  | _ => trivial

end Advance

/-! ## Every step -/

variable {s s' : State} {clocks : Clocks} {uuid : String}

/-- A step of the whole system, as the grants see it. -/
def Advances (s s' : State) : Prop :=
  Clocked s' ∧ Advance s.spool.journal s'.spool.journal s.time s'.time

theorem Clocked.tick (h : Clocked s) (hj : s'.spool.journal = s.spool.journal)
    (ht : s.time ≤ s'.time) : Advances s s' := by
  refine ⟨⟨?_, ?_⟩, ?_⟩
  · rw [hj]
    exact Nat.le_trans h.clock ht
  · rw [hj]
    exact h.bound
  · rw [hj]
    exact Advance.tick _ ht

theorem Clocked.call (h : Clocked s) {call : Call} (hnow : s.time ≤ call.clocks.clk 0)
    (hfresh : call.uuid ∉ s.spool.journal.minted) {s' : State}
    (hj : s'.spool.journal = ((Journal.machine B).step s.spool.journal call).1)
    (ht : s'.time = call.clocks.commit) : Advances s s' := by
  refine ⟨⟨?_, ?_⟩, ?_⟩
  · rw [hj, ht, Journal.step_clock]
  · rw [hj]
    exact h.bound.call (Nat.le_trans h.clock hnow)
  · rw [hj, ht]
    exact Advance.call h.bound h.clock hnow hfresh

theorem fileStep_journal (spool : DonationSpool.State) (ok : Bool) (now : Time) :
    (DonationSpool.fileStep C spool ok now).1.journal = spool.journal := by
  unfold DonationSpool.fileStep
  repeat' split
  all_goals rfl

variable (B) in
/-- The drain's append leaves the files, and no record is being written. -/
theorem appendStep_spec (spool : DonationSpool.State) (clocks : Clocks) (uuid : String)
    (delivery : Delivery) :
    let spool' := (DonationSpool.appendStep B spool clocks uuid delivery).1
    spool'.json = spool.json ∧
      (spool'.ctl = spool.ctl ∨ ∀ sys now, RecordInv sys now spool'.ctl) ∧
      (spool'.journal = spool.journal ∨ ∃ r, spool'.journal =
        ((Journal.machine B).step spool.journal (DonationSpool.appendCall clocks uuid r)).1) := by
  unfold DonationSpool.appendStep
  split
  · dsimp only
    split
    · exact ⟨rfl, Or.inr fun _ _ => trivial, Or.inl rfl⟩
    · exact ⟨rfl, Or.inr fun _ _ => trivial, Or.inr ⟨_, rfl⟩⟩
    · split <;> exact ⟨rfl, Or.inr fun _ _ => trivial, Or.inr ⟨_, rfl⟩⟩
  · exact ⟨rfl, Or.inl rfl, Or.inl rfl⟩

/-- Every step. -/
theorem Clocked.step (h : Clocked s) (i : Input) (hi : admits s i) :
    Advances s (WorkerSession.step C B s i).1 := by
  have hsame : Advances s s := h.tick rfl (Nat.le_refl _)
  cases i with
  | connect | renew => exact h.tick rfl hi
  | acquire k worker clocks uuid delivered =>
    simp only [WorkerSession.step]
    split
    · exact h.call hi.1 hi.2 rfl rfl
    · exact hsame
  | renewCall k clocks uuid delivered =>
    simp only [WorkerSession.step]
    split
    · split
      · exact h.call hi.1 hi.2 rfl rfl
      · exact hsame
    · exact hsame
  | renewApply | disconnect | drain | crash => exact h.tick rfl (Nat.le_refl _)
  | release k clocks uuid =>
    simp only [WorkerSession.step]
    split
    · split
      · exact hsame
      · exact h.call hi.1 hi.2 rfl rfl
    · exact hsame
  | sink k d now =>
    simp only [WorkerSession.step]
    split
    · split <;> exact h.tick rfl hi
    · exact h.tick rfl hi
  | save j now ok =>
    simp only [WorkerSession.step, DonationSpool.step]
    split
    · split <;> exact h.tick rfl hi.2
    · exact hsame
  | io ok now => exact h.tick (fileStep_journal _ _ _) hi
  | append clocks uuid delivery =>
    obtain ⟨-, -, hj | ⟨r, hj⟩⟩ := appendStep_spec B s.spool clocks uuid delivery
    · exact h.tick hj (Nat.le_trans hi.1 (clocks.le_commit 0))
    · have hfresh : (DonationSpool.appendCall clocks uuid r).uuid ∉ s.spool.journal.minted := hi.2
      exact h.call hi.1 hfresh hj rfl
  | other call => exact h.call hi.1 hi.2 rfl rfl

/-- The acceptance of a record finds the row of its grant open, or closing at
that very instant. -/
def grantOpen (s : State) : Input → Bool
  | .save j now _ =>
    (s.waiting[j]?.bind fun offer => s.spool.journal.db.grants.find offer.grant.token).all
      fun row => row.closedAt.all fun closed => now 1 ≤ closed
  | _ => true

/-- What a step adds is in order; what it keeps stays in order. -/
theorem Authority.advance (h : Authority s) (ha : Advances s s')
    (hsessions : ∀ {k : Nat} {point}, s'.sessions[k]? = some point →
      s.sessions[k]? = some point ∨ PointInv s'.spool.journal s'.time point)
    (hwaiting : ∀ offer ∈ s'.waiting, offer ∈ s.waiting ∨
      Backed s'.spool.journal s'.time offer.grant offer.deadline)
    (hctl : s'.spool.ctl = s.spool.ctl ∨ RecordInv s'.spool.journal s'.time s'.spool.ctl)
    (hjson : ∀ {name r}, s'.spool.json.Has name r → s.spool.json.Has name r ∨
      (r.acceptedAt ≤ s'.time ∧ Authorised s'.spool.journal r)) :
    Authority s' where
  toClocked := ha.1
  sessions hk := (hsessions hk).elim (fun hold => (h.sessions hold).advance ha.2) id
  waiting offer ho := (hwaiting offer ho).elim (fun hold => (h.waiting _ hold).advance ha.2) id
  record := hctl.elim (fun heq => heq ▸ h.record.advance ha.2) id
  files hf := by
    rcases hjson hf with hold | hnew
    · obtain ⟨hle, hauth⟩ := h.files hold
      exact ⟨Nat.le_trans hle ha.2.time, hauth.advance ha.2 hle⟩
    · exact hnew

/-- Steps of the sessions. -/
theorem Authority.local (h : Authority s) (ha : Advances s s')
    (hsame : s'.waiting = s.waiting ∧ s'.spool.ctl = s.spool.ctl ∧ s'.spool.json = s.spool.json)
    (hsessions : ∀ {k : Nat} {point}, s'.sessions[k]? = some point →
      s.sessions[k]? = some point ∨ PointInv s'.spool.journal s'.time point) : Authority s' :=
  h.advance ha hsessions (fun _ ho => Or.inl (hsame.1 ▸ ho)) (Or.inl hsame.2.1)
    fun hf => Or.inl (hsame.2.2 ▸ hf)

/-- Steps of the spool; files are added by the rename only. -/
theorem Authority.goto (h : Authority s) (ha : Advances s s') (hsame : s'.sessions = s.sessions)
    (hwaiting : ∀ offer ∈ s'.waiting, offer ∈ s.waiting)
    (hctl : RecordInv s'.spool.journal s'.time s'.spool.ctl)
    (hjson : ∀ {name r}, s'.spool.json.Has name r → s.spool.json.Has name r) : Authority s' :=
  h.advance ha (fun hk => Or.inl (hsame ▸ hk)) (fun _ ho => Or.inl (hwaiting _ ho)) (Or.inr hctl)
    fun hf => Or.inl (hjson hf)

/-- A change of one live session. -/
theorem Authority.update (h : Authority s) {now : Time} (hnow : s.time ≤ now) (k : Nat)
    {f : Session → Session}
    (hf : ∀ session, PointInv s.spool.journal now (.live session) →
      PointInv s.spool.journal now (.live (f session))) :
    Authority { s with time := now, sessions := s.sessions.modify k (updateSession f) } := by
  refine h.local (h.tick rfl hnow) ⟨rfl, rfl, rfl⟩ ?_
  intro j point hj
  rw [List.getElem?_modify] at hj
  obtain ⟨point0, hpoint0, rfl⟩ := Option.map_eq_some_iff.mp hj
  have hinv := (h.sessions hpoint0).advance (Advance.tick _ hnow)
  split
  · cases point0 with
    | live session => exact Or.inr (hf session hinv)
    | acquiring | ended => exact Or.inr hinv
  · exact Or.inl hpoint0

variable {sessions : List Point}

/-- A session replaced after a call. -/
theorem getElem?_set_cases {k j : Nat} {new point : Point}
    (h : (sessions.set k new)[j]? = some point) :
    sessions[j]? = some point ∨ point = new := by
  rw [List.getElem?_set] at h
  split at h
  · split at h
    · exact Or.inr (Option.some.inj h).symm
    · cases h
  · exact Or.inl h

variable {sys : Sys}

/-- The grant `AcquireCollection` returns backs a deadline counted from before
the call. -/
theorem opened_inv {channel worker : String} {started : Time} {delivered : Bool}
    (hstarted : started ≤ clocks.clk 0) :
    PointInv ((Journal.machine B).step sys ⟨clocks, uuid, .acquire channel worker⟩).1
      clocks.commit (opened started delivered
        ((Journal.machine B).step sys ⟨clocks, uuid, .acquire channel worker⟩).2) := by
  rcases Journal.step_db (B := B) sys ⟨clocks, uuid, .acquire channel worker⟩ with
    ⟨reply, hok, hreply⟩ | ⟨e, -, -, hreply⟩
  · rw [hreply]
    obtain ⟨⟨db', g⟩, hacq, heq⟩ := Journal.map_ok hok
    injection heq with hdb hg
    subst hg
    obtain ⟨c, grants, -, -, hins, hdb', rfl⟩ := Journal.acquireCollection_ok hacq
    simp only [opened]
    split
    · obtain ⟨hfree, hhas⟩ := Table.insert_eq_some hins
      refine ⟨⟨by simp, ?_⟩, trivial⟩
      intro row hrow
      rw [← hdb, hdb'] at hrow
      rcases (hhas _ _).mp hrow with hold | ⟨-, rfl⟩
      · exact absurd hold (Table.find_eq_none_iff.mp hfree row)
      · have hclk : clocks.clk 0 ≤ clocks.clk 2 := clocks.mono (by decide)
        refine ⟨rfl, rfl, clocks.le_commit 1, ?_⟩
        exact Nat.add_le_add_right (Nat.le_trans hstarted hclk) _
    · trivial
  · rw [hreply]
    trivial

/-- The lease `RenewCollection` sets backs a deadline counted from before the
call. -/
theorem renewed_inv {now : Time} {session : Session} {started : Time} {delivered : Bool}
    (ha : Advance sys ((Journal.machine B).step sys ⟨clocks, uuid, .renew session.grant⟩).1 now
      clocks.commit)
    (h : PointInv sys now (.live session)) (hstarted : started ≤ clocks.clk 0) :
    PointInv ((Journal.machine B).step sys ⟨clocks, uuid, .renew session.grant⟩).1
      clocks.commit (.live (renewed started delivered session
        ((Journal.machine B).step sys ⟨clocks, uuid, .renew session.grant⟩).2)) := by
  have hbacked := h.1.advance ha
  rcases Journal.step_db (B := B) sys ⟨clocks, uuid, .renew session.grant⟩ with
    ⟨reply, hok, hreply⟩ | ⟨e, -, -, hreply⟩
  · rw [hreply]
    obtain ⟨⟨db', until_⟩, hren, heq⟩ := Journal.map_ok hok
    injection heq with hdb hg
    subst hg
    obtain ⟨c, row, -, -, -, -, -, hdb', rfl⟩ := Journal.renewCollection_ok hren
    simp only [renewed]
    split
    · refine ⟨hbacked, hbacked.minted, ?_⟩
      intro row' hrow'
      obtain ⟨hch, hgen, hgranted, -⟩ := hbacked.row hrow'
      rw [← hdb, hdb'] at hrow'
      rcases Table.has_modify.mp hrow' with ⟨-, g0, -, rfl⟩ | ⟨hne, -⟩
      · have hclk : clocks.clk 0 ≤ clocks.clk 1 := clocks.mono (by decide)
        refine ⟨hch, hgen, hgranted, ?_⟩
        exact Nat.add_le_add_right (Nat.le_trans hstarted hclk) _
      · exact absurd rfl hne
    · exact ⟨hbacked, trivial⟩
  · rw [hreply]
    exact ⟨hbacked, trivial⟩

theorem applyRenewal_inv {now : Time} {session : Session} (h : PointInv sys now (.live session)) :
    PointInv sys now (.live (applyRenewal session)) := by
  unfold applyRenewal
  split
  · rename_i at_ until_ hren
    have hrenewal := h.2
    rw [hren] at hrenewal
    exact ⟨hrenewal, trivial⟩
  · exact h

/-! ## The spool's steps -/

/-- Acceptance: the deadline backs the record, the condition keeps it inside
the closing time. -/
theorem Authority.save (h : Authority s) {j : Nat} {now : Nat → Time} {ok : Bool}
    {offer : Offer} (hoffer : s.waiting[j]? = some offer)
    (hnow : s.time ≤ now 1) (hopen : grantOpen s (.save j now ok) = true) :
    Authority
      { s with
        spool := (DonationSpool.step C B s.spool
          (.save offer.grant offer.donation offer.deadline now ok)).1
        time := now 1
        waiting := s.waiting.eraseIdx j } := by
  have ha : Advance s.spool.journal s.spool.journal s.time (now 1) := Advance.tick _ hnow
  simp only [DonationSpool.step]
  split
  · exact h.goto (h.tick rfl hnow) rfl (fun _ => List.mem_of_mem_eraseIdx) (h.record.advance ha) id
  · rename_i ctl hbegin
    refine h.goto (h.tick rfl hnow) rfl (fun _ => List.mem_of_mem_eraseIdx) ?_ id
    have hbacked := (h.waiting offer (List.mem_of_getElem? hoffer)).advance ha
    rw [DonationSpool.saveBegin_ok hbegin]
    refine ⟨Nat.le_refl _, ⟨hbacked.minted, ?_⟩, hbacked⟩
    intro row hrow
    obtain ⟨hch, hgen, hgranted, -⟩ := hbacked.row hrow
    refine ⟨hch, hgen, hgranted, ?_⟩
    simp only [grantOpen, hoffer, Option.bind_some, Table.find_eq_some_iff.mpr hrow] at hopen
    exact hopen

/-- File steps: the last look at the deadline puts the record inside the lease. -/
theorem Authority.io (h : Authority s) {ok : Bool} {now : Time} (hnow : s.time ≤ now) :
    Authority { s with spool := (DonationSpool.fileStep C s.spool ok now).1, time := now } := by
  have ha : Advance s.spool.journal s.spool.journal s.time now := Advance.tick _ hnow
  have hrecord := h.record.advance ha
  -- Moving on in the code with a record that is known to be in order.
  have hgoto : ∀ (pending : List String) (ctl : Ctl), RecordInv s.spool.journal now ctl →
      Authority { s with spool := { s.spool with pending, ctl }, time := now } :=
    fun pending ctl hctl => h.goto (h.tick rfl hnow) rfl (fun _ => id) hctl id
  have hfinish : ∀ caller err,
      Authority { s with spool := (DonationSpool.finish s.spool caller err).1, time := now } :=
    fun _ _ => hgoto _ .idle trivial
  have hfail : ∀ r err,
      Authority { s with spool := (DonationSpool.fail s.spool r err).1, time := now } :=
    fun _ _ => hgoto _ .idle trivial
  unfold DonationSpool.fileStep
  cases hctl : s.spool.ctl with
  | idle | append => exact hgoto _ _ hrecord
  | create r deadline =>
    rw [hctl] at hrecord
    dsimp only
    split
    · exact hgoto _ _ hrecord
    · exact hfail _ _
  | write r deadline =>
    rw [hctl] at hrecord
    dsimp only
    split
    · exact hfail _ _
    split
    · exact hfail _ _
    · rename_i hlt
      obtain ⟨hle, hacc, hbacked⟩ := hrecord
      refine hgoto _ (.rename r) ⟨hle, hacc, hbacked.minted, ?_⟩
      intro row hrow
      have hvalid := (hbacked.row hrow).2.2.2
      lia
  | rename r =>
    rw [hctl] at hrecord
    dsimp only
    split
    · refine h.advance (h.tick rfl hnow) Or.inl (fun _ ho => Or.inl ho) (Or.inr trivial) ?_
      intro name r' hr'
      rcases Table.has_upsert.mp hr' with ⟨-, rfl⟩ | ⟨-, hr'⟩
      · exact Or.inr hrecord
      · exact Or.inl hr'
    · exact hfail _ _
  | saveSync r =>
    dsimp only
    split
    · exact hgoto _ _ trivial
    · exact hfail _ _
  | list caller =>
    dsimp only
    split
    · exact hfinish _ _
    · exact hgoto _ _ trivial
  | next caller queue =>
    cases queue with
    | nil => exact hfinish _ _
    | cons name rest =>
      dsimp only
      split
      · exact hfinish _ _
      split
      · exact hfinish _ _
      split
      · exact hfinish _ _
      split
      · exact hfinish _ _
      · exact hgoto _ _ trivial
  | remove caller name rest =>
    dsimp only
    split
    · exact h.goto (h.tick rfl hnow) rfl (fun _ => id) trivial fun hr => (Table.has_delete.mp hr).1
    · exact hfinish _ _
  | removeSync caller rest =>
    dsimp only
    split
    · exact hgoto _ _ trivial
    · exact hfinish _ _

/-- Every step keeps the invariant if acceptances find the grant open. -/
theorem Authority.step (h : Authority s) (i : Input) (hi : admits s i)
    (hopen : grantOpen s i = true) : Authority (WorkerSession.step C B s i).1 := by
  cases i with
  | connect channel now =>
    refine h.local (h.tick rfl hi) ⟨rfl, rfl, rfl⟩ ?_
    intro k point hk
    simp only [WorkerSession.step] at hk ⊢
    rw [List.getElem?_append] at hk
    split at hk
    · exact Or.inl hk
    · rw [List.mem_singleton.mp (List.mem_of_getElem? hk)]
      exact Or.inr (Nat.le_refl _)
  | acquire k worker clocks uuid delivered =>
    simp only [WorkerSession.step]
    split
    · rename_i channel started hk
      refine h.local (h.call hi.1 hi.2 rfl rfl) ⟨rfl, rfl, rfl⟩ ?_
      intro j point hj
      rcases getElem?_set_cases hj with hold | rfl
      · exact Or.inl hold
      · exact Or.inr (opened_inv (Nat.le_trans (h.sessions hk) hi.1))
    · exact h
  | renew k now =>
    refine h.update hi k ?_
    intro session hsession
    split
    · exact ⟨hsession.1, Nat.le_refl _⟩
    · exact hsession
  | renewCall k clocks uuid delivered =>
    simp only [WorkerSession.step]
    split
    · rename_i session hk
      split
      · rename_i started hren
        have hsession := h.sessions hk
        have hstarted := hsession.2
        rw [hren] at hstarted
        refine h.local (h.call hi.1 hi.2 rfl rfl) ⟨rfl, rfl, rfl⟩ ?_
        intro j point hj
        rcases getElem?_set_cases hj with hold | rfl
        · exact Or.inl hold
        · exact Or.inr (renewed_inv (Advance.call h.bound h.clock hi.1 hi.2) hsession
            (Nat.le_trans hstarted hi.1))
      · exact h
    · exact h
  | renewApply k => exact h.update (Nat.le_refl _) k fun _ => applyRenewal_inv
  | release k clocks uuid =>
    simp only [WorkerSession.step]
    split
    · rename_i session hk
      split
      · exact h
      · refine h.local (h.call hi.1 hi.2 rfl rfl) ⟨rfl, rfl, rfl⟩ ?_
        intro j point hj
        rcases getElem?_set_cases hj with hold | rfl
        · exact Or.inl hold
        · exact Or.inr ((h.sessions hk).advance (h.call hi.1 hi.2 rfl rfl).2)
    · exact h
  | disconnect k => exact h.update (Nat.le_refl _) k fun _ hsession => hsession
  | sink k d now =>
    have hquiet : Authority { s with time := now } :=
      h.local (h.tick rfl hi) ⟨rfl, rfl, rfl⟩ Or.inl
    simp only [WorkerSession.step]
    split
    · rename_i session hk
      split
      · refine h.advance (h.tick rfl hi) Or.inl ?_ (Or.inl rfl) Or.inl
        intro offer ho
        rcases List.mem_append.mp ho with hold | hnew
        · exact Or.inl hold
        · rw [List.mem_singleton.mp hnew]
          exact Or.inr ((h.sessions hk).1.advance (Advance.tick _ hi))
      · exact hquiet
    · exact hquiet
  | save j now ok =>
    simp only [WorkerSession.step]
    split
    · rename_i offer hoffer
      exact h.save hoffer hi.2 hopen
    · exact h
  | drain =>
    exact h.goto (h.tick rfl (Nat.le_refl _)) rfl (fun _ => id) trivial id
  | io ok now => exact h.io hi
  | append clocks uuid delivery =>
    obtain ⟨hjson, hctl, -⟩ := appendStep_spec B s.spool clocks uuid delivery
    exact h.advance (h.toClocked.step _ hi) Or.inl (fun _ ho => Or.inl ho)
      (hctl.imp_right fun hctl => hctl _ _) fun hf => Or.inl (hjson ▸ hf)
  | crash =>
    exact h.advance (h.tick rfl (Nat.le_refl _)) nofun nofun (Or.inr trivial) Or.inl
  | other call => exact h.local (h.call hi.1 hi.2 rfl rfl) ⟨rfl, rfl, rfl⟩ Or.inl

theorem Authority.init : Authority State.init where
  clock := Nat.le_refl _
  bound _ _ h := absurd h (Table.has_empty _ _)
  sessions := nofun
  waiting := nofun
  record := trivial
  files h := absurd h (Table.has_empty _ _)

/-- Every run whose acceptances find the grant open. -/
theorem run_authority {tr : List (Input × Output)}
    (hr : ((machine C B).restrict fun s i => grantOpen s i = true).Run State.init tr s) :
    Authority s :=
  hr.invariant (fun _ i h hi => h.step i hi.1 hi.2) Authority.init

/-! ## What the journal answers -/

theorem validate_ne_owner (d : Donation) : d.validate ≠ .error .owner := by
  unfold Donation.validate
  split
  · nofun
  · split <;> nofun

theorem enabledTX_ne_owner (db : Db) (channel : String) :
    Journal.enabledTX db channel ≠ .error .owner := by
  unfold Journal.enabledTX
  split
  · nofun
  · split <;> nofun

variable {row : GrantRow}

/-- `AppendDonation` answers `ErrOwner` only from the check on the grant's row. -/
theorem appendDonation_owner {t : Clocks} {db : Db} {g : OwnerGrant} {d : Donation}
    {acceptedAt : Time} (hrow : db.grants.Has g.token row)
    (h : appendDonation B t db g d acceptedAt = .error .owner) :
    row.accepts g acceptedAt (t.clk 1) = false := by
  have hnew : ∀ c, Journal.appendNew B t db c g d acceptedAt = .error .owner →
      row.accepts g acceptedAt (t.clk 1) = false := by
    intro c hc
    unfold Journal.appendNew at hc
    split at hc
    · rename_i e he
      injection hc with hc
      exact absurd (hc ▸ he) (enabledTX_ne_owner db _)
    rw [Table.find_eq_some_iff.mpr hrow] at hc
    dsimp only at hc
    split at hc
    · rename_i hrefused
      simpa using hrefused
    repeat' split at hc
    all_goals cases hc
  unfold appendDonation at h
  split at h
  · rename_i e he
    injection h with h
    exact absurd (h ▸ he) (validate_ne_owner d)
  split at h
  · cases h
  split at h
  · cases h
  split at h
  · cases h
  split at h
  · cases h
  split at h
  · split at h
    · cases h
    · split at h <;> cases h
  · exact hnew _ h

variable {r : SpoolRecord}

/-- An authorised record passes the check from now on. -/
theorem Authorised.accepts {t : Time} (h : Authorised sys r)
    (hrow : sys.db.grants.Has r.grant.token row) (ht : r.acceptedAt ≤ t) :
    row.accepts r.grant r.acceptedAt t = true := by
  obtain ⟨hch, hgen, hgranted, hclosed⟩ := h.1.row hrow
  simp only [GrantRow.accepts, decide_eq_true_eq]
  exact ⟨hch, hgen, hgranted, h.2.row hrow, hclosed, Nat.le_trans ht (Nat.le_add_right _ _)⟩

/-! ## A closed grant -/

/-- The row, if it still exists, was closed before the acceptance time. -/
def Refused (s : Sys) (r : SpoolRecord) : Prop :=
  Held s r.grant.token fun row => ∃ closed, row.closedAt = some closed ∧ closed < r.acceptedAt

theorem Refused.advance {sys' : Sys} {now now' : Time} (h : Refused sys r)
    (ha : Advance sys sys' now now') : Refused sys' r := by
  refine Held.advance h ha ?_
  rintro row row' hk ⟨closed, hclosed, hlt⟩
  rcases hk.closedAt with heq | ⟨hnone, -⟩
  · exact ⟨closed, heq.trans hclosed, hlt⟩
  · rw [hnone] at hclosed
    cases hclosed

theorem Refused.accepts (h : Refused sys r) (hrow : sys.db.grants.Has r.grant.token row)
    (t : Time) :
    row.accepts r.grant r.acceptedAt t = false := by
  obtain ⟨closed, hclosed, hlt⟩ := h.row hrow
  rw [← Bool.not_eq_true]
  intro hacc
  simp only [GrantRow.accepts, decide_eq_true_eq, hclosed, Option.all_some] at hacc
  exact absurd hacc.2.2.2.2.1 (Nat.not_le_of_lt hlt)

/-- A record refused once is refused for good. -/
theorem run_refused {tr : List (Input × Output)} (hr : (machine C B).Run s tr s')
    (hc : Clocked s) (h : Refused s.spool.journal r) :
    Refused s'.spool.journal r := by
  have hboth : Clocked s' ∧ Refused s'.spool.journal r := by
    refine hr.invariant (I := fun s => Clocked s ∧ Refused s.spool.journal r) ?_ ⟨hc, h⟩
    rintro s i ⟨hc, h⟩ hi
    obtain ⟨hc', ha⟩ := hc.step (C := C) (B := B) i hi
    exact ⟨hc', h.advance ha⟩
  exact hboth.2

/-! ## The result -/

/-- Every spooled record passes the grant check, now and later, for as long as
the grant's row exists, and `AppendDonation` does not answer `ErrOwner` for it. -/
def SpoolAuthorised (B : Backend) (s : State) : Prop :=
  ∀ name r row, s.spool.json.Has name r → s.spool.journal.db.grants.Has r.grant.token row →
    (∀ t, s.time ≤ t → row.accepts r.grant r.acceptedAt t = true) ∧
      ∀ clocks : Clocks, s.time ≤ clocks.clk 0 →
        appendDonation B clocks s.spool.journal.db r.grant r.donation r.acceptedAt ≠
          .error .owner

/-- In a run whose acceptances all find the grant's row open, every spooled
record is authorised in every state reached.  The condition is exact: the
first acceptance that finds the row closed before its time takes a record
that the check refuses for as long as the row exists. -/
theorem spooled_authorised (C : Config) (B : Backend) (tr : List (Input × Output)) (s : State)
    (hr : ((machine C B).restrict fun s i => grantOpen s i = true).Run State.init tr s) :
    SpoolAuthorised B s ∧
      ∀ j now ok offer tr' s' row, admits s (.save j now ok) → s.waiting[j]? = some offer →
        grantOpen s (.save j now ok) = false →
        (machine C B).Run ((machine C B).step s (.save j now ok)).1 tr' s' →
        s'.spool.journal.db.grants.Has offer.grant.token row →
        ∀ t, row.accepts offer.grant (now 1) t = false := by
  have h := run_authority hr
  constructor
  · intro name r row hfile hrow
    obtain ⟨hle, hauth⟩ := h.files hfile
    refine ⟨fun t ht => hauth.accepts hrow (Nat.le_trans hle ht), ?_⟩
    intro clocks hclk howner
    have hrefused := appendDonation_owner hrow howner
    have hclk' : clocks.clk 0 ≤ clocks.clk 1 := clocks.mono (by decide)
    rw [hauth.accepts hrow (Nat.le_trans hle (Nat.le_trans hclk hclk'))] at hrefused
    cases hrefused
  · intro j now ok offer tr' s' row hi hoffer hclosed hr' hrow t
    obtain ⟨hc', ha⟩ := h.toClocked.step (C := C) (B := B) _ hi
    -- The condition fails only on a row that was closed before.
    have hrefused : Refused s.spool.journal ⟨offer.grant, offer.donation, now 1⟩ := by
      refine ⟨(h.waiting offer (List.mem_of_getElem? hoffer)).minted, ?_⟩
      intro row0 hrow0
      simp only [grantOpen, hoffer, Option.bind_some, Table.find_eq_some_iff.mpr hrow0,
        Option.all_some] at hclosed
      cases hc : row0.closedAt with
      | none =>
        rw [hc] at hclosed
        cases hclosed
      | some closed =>
        rw [hc] at hclosed
        exact ⟨closed, rfl, by simpa using hclosed⟩
    exact (run_refused hr' hc' (hrefused.advance ha)).accepts hrow t

/-! ### Two teardowns

The fixture's worker acquires its grant and a donation reaches the sink.  In
`saveFirst` the record is accepted and then the grant is released; in
`releaseFirst` the sink is still waiting for the spool when
`Manager.Disconnect` releases the grant.
-/

def sessionConfig : Config := ⟨2 ^ 30, fun _ => some 900, fun _ => true⟩

def sessionDonation : Donation :=
  Journal.fixtureDonation 1 "epoch" (Journal.hour + second)

/-- Register and assign the channel, connect, acquire, receive a donation. -/
def sessionStart : List Input :=
  ((Journal.fixtureCalls Journal.hour).take 2).map .other ++
  [ .connect "fixture_channel" Journal.hour
  , .acquire 0 "fixture_worker" (Clocks.still Journal.hour) "token-a" true
  , .sink 0 sessionDonation (Journal.hour + second) ]

/-- `Save` up to the rename. -/
def sessionSave (t : Time) : List Input :=
  .save 0 (fun _ => t) true :: List.replicate 3 (.io true t)

def saveFirst : List Input :=
  sessionStart ++ sessionSave (Journal.hour + second) ++
    [.release 0 (Clocks.still (Journal.hour + 2 * second)) "unused-2", .disconnect 0]

/-- `Manager.Disconnect` in the source's order; the drain of the `Save` and
the next one both meet the refused file. -/
def releaseFirst : List Input :=
  sessionStart ++
  [.release 0 (Clocks.still (Journal.hour + 2 * second)) "unused-2"] ++
  sessionSave (Journal.hour + 3 * second) ++ [.disconnect 0] ++
  List.replicate 3 (.io true (Journal.hour + 3 * second)) ++
  [ .append (Clocks.still (Journal.hour + 3 * second)) "unused-3" .answered, .drain ] ++
  List.replicate 2 (.io true (Journal.hour + 5 * second)) ++
  [ .append (Clocks.still (Journal.hour + 5 * second)) "unused-4" .answered ]

def releaseRun : State × List (Input × Output) :=
  (machine sessionConfig Journal.fixtureBackend).exec State.init releaseFirst

/-- The record accepted after the release. -/
def refusedRecord : SpoolRecord :=
  ⟨Journal.fixtureGrant Journal.hour, sessionDonation, Journal.hour + 3 * second⟩

theorem releaseFirst_blocks :
    (machine sessionConfig Journal.fixtureBackend).Run State.init releaseRun.2 releaseRun.1 ∧
      releaseRun.1.spool.json.find refusedRecord.file = some refusedRecord ∧
      (releaseRun.1.spool.journal.db.grants.find refusedRecord.grant.token).map
        (·.accepts refusedRecord.grant refusedRecord.acceptedAt releaseRun.1.time) =
          some false ∧
      .spool (.saveReturned sessionDonation (some (.store .owner))) ∈
        releaseRun.2.map Prod.snd ∧
      .spool (.drainReturned (some (.store .owner))) ∈ releaseRun.2.map Prod.snd :=
  ⟨Machine.run_exec _ _ (by decide), by decide, by decide, by decide, by decide⟩

theorem spooled_authorised_saveFirst :
    SpoolAuthorised Journal.fixtureBackend
        (((machine sessionConfig Journal.fixtureBackend).restrict fun s i =>
          grantOpen s i = true).exec State.init saveFirst).1 ∧
      (((machine sessionConfig Journal.fixtureBackend).restrict fun s i =>
        grantOpen s i = true).exec State.init saveFirst).1.spool.json.keys ≠ [] :=
  ⟨(spooled_authorised _ _ _ _ (Machine.run_exec _ _ (by decide))).1, by decide⟩

end RogiCollector.Ports.WorkerSession
