import Mathlib.Data.Set.Basic
import RogiCollector.Ports.JournalInvariant

/-!
# Single-owner leases

A channel's `owner_token` points at the one grant that may still be renewed.
`LeaseInv` orders the grants of a channel in time: the owner's grant starts
where every other grant of the channel has already ended, and the grants it
replaced are ordered among themselves.  Ends only move towards the past
(closing) except for the owner's, which is the last one, so renewing it
overtakes nobody.

Two facts carry the history.  A token is drawn once, so a grant that lost
the pointer cannot get it back; and closing stamps the present, so an
interval that ended stays where it ended.
-/

namespace RogiCollector.Ports.Journal

open Verified

/-! ## Acceptance intervals -/

/-- `LEAST(valid_until, closed_at)`: the last instant the grant accepts. -/
def GrantRow.endsAt (g : GrantRow) : Time :=
  match g.closedAt with
  | none => g.validUntil
  | some closed => min g.validUntil closed

/-- The acceptance times `AppendDonation` takes for the grant. -/
def GrantRow.interval (g : GrantRow) : Set Time :=
  { x | g.grantedAt ≤ x ∧ x ≤ g.endsAt }

variable {g : GrantRow} {x : Time}

theorem GrantRow.mem_interval : x ∈ g.interval ↔ g.grantedAt ≤ x ∧ x ≤ g.endsAt := Iff.rfl

theorem GrantRow.le_endsAt_iff :
    x ≤ g.endsAt ↔ x ≤ g.validUntil ∧ g.closedAt.all (fun closed => x ≤ closed) = true := by
  unfold GrantRow.endsAt
  cases g.closedAt <;> simp

/-- The check of `AppendDonation` passes only inside the interval. -/
theorem GrantRow.mem_interval_of_accepts {og : OwnerGrant} {t : Time}
    (h : g.accepts og x t = true) : x ∈ g.interval := by
  simp only [GrantRow.accepts, decide_eq_true_eq] at h
  exact ⟨h.2.2.1, le_endsAt_iff.mpr ⟨h.2.2.2.1, h.2.2.2.2.1⟩⟩

theorem GrantRow.valid_iff {t : Time} :
    g.valid t = true ↔ t < g.validUntil ∧ g.closedAt = none := by
  simp [GrantRow.valid]

/-- A valid grant has not ended. -/
theorem GrantRow.lt_endsAt_of_valid {t : Time} (h : g.valid t = true) : t < g.endsAt := by
  obtain ⟨hlt, hnone⟩ := valid_iff.mp h
  simpa [GrantRow.endsAt, hnone] using hlt

/-- Closing only shortens the interval. -/
theorem GrantRow.endsAt_close_le (g : GrantRow) (t : Time) :
    (g.close t).endsAt ≤ g.endsAt := by
  unfold GrantRow.endsAt GrantRow.close
  cases g.closedAt with
  | none => exact Nat.min_le_left _ _
  | some closed => exact Nat.le_refl _

/-- A closed grant has ended by the time it was closed, or before. -/
theorem GrantRow.endsAt_le_of_closed (h : g.closedAt = some x) : g.endsAt ≤ x := by
  simp only [GrantRow.endsAt, h]
  exact Nat.min_le_right _ _

/-! ## What a call does to owners and grants -/

/-- A grant row after a call that did not renew it. -/
def Shortened (t : Clocks) (g g' : GrantRow) : Prop :=
  g' = g ∨ ∃ x, t.clk 0 ≤ x ∧ x ≤ t.commit ∧ g' = g.close x

variable {t : Clocks} {g' : GrantRow}

theorem Shortened.channelID (h : Shortened t g g') : g'.channelID = g.channelID := by
  rcases h with rfl | ⟨x, -, -, rfl⟩ <;> rfl

theorem Shortened.grantedAt (h : Shortened t g g') : g'.grantedAt = g.grantedAt := by
  rcases h with rfl | ⟨x, -, -, rfl⟩ <;> rfl

theorem Shortened.endsAt_le (h : Shortened t g g') : g'.endsAt ≤ g.endsAt := by
  rcases h with rfl | ⟨x, -, -, rfl⟩
  · exact Nat.le_refl _
  · exact g.endsAt_close_le x

/-- A closing time found after the call was there before, or is the call's. -/
theorem Shortened.closedAt_le (h : Shortened t g g') (hx : g'.closedAt = some x) :
    g.closedAt = some x ∨ x ≤ t.commit := by
  rcases h with rfl | ⟨y, -, hy, rfl⟩
  · exact Or.inl hx
  · simp only [GrantRow.close, Option.some.injEq] at hx
    subst hx
    cases hcl : g.closedAt with
    | none => exact Or.inr hy
    | some z => exact Or.inl rfl

variable {tok : String}

/-- An untouched grant. -/
theorem Shortened.refl {grants : Table String GrantRow} (hg : grants.Has tok g) :
    ∃ g0, grants.Has tok g0 ∧ Shortened t g0 g :=
  ⟨g, hg, Or.inl rfl⟩

variable {db : Db} {channel : String}

/-- Closing a channel's grants shortens them. -/
theorem Shortened.closeGrants {i : Nat} (hg : (closeGrants db channel (t.clk i)).Has tok g) :
    ∃ g0, db.grants.Has tok g0 ∧ Shortened t g0 g := by
  obtain ⟨g0, hg0, rfl⟩ := Table.has_update.mp hg
  refine ⟨g0, hg0, ?_⟩
  split
  · exact Or.inr ⟨_, t.mono (Nat.zero_le i), t.le_commit i, rfl⟩
  · exact Or.inl rfl

/-- A call that neither acquires nor renews: a pointer stays, or is cleared on
a channel that is new or has only closed grants and got a new generation;
grants are at most shortened. -/
structure Quiet (t : Clocks) (uuid : String) (db db' : Db) : Prop where
  forth : ∀ {ch c}, db.channels.Has ch c → ∃ c', db'.channels.Has ch c'
  chan : ∀ {ch c'}, db'.channels.Has ch c' →
    (∃ c, db.channels.Has ch c ∧ c'.ownerToken = c.ownerToken ∧
        c'.generation = c.generation) ∨
      (c'.ownerToken = none ∧ c'.generation = uuid ∧
        ((∀ c, ¬db.channels.Has ch c) ∨
          ∀ {tok g'}, db'.grants.Has tok g' → g'.channelID = ch → g'.closedAt ≠ none))
  grant : ∀ {tok g'}, db'.grants.Has tok g' →
    ∃ g, db.grants.Has tok g ∧ Shortened t g g'

/-- All a call can do to owners and grants. -/
inductive OwnerStep (t : Clocks) (uuid : String) (db db' : Db) : Prop where
  | quiet (h : Quiet t uuid db db')
  | acquire {channel worker : String} {c : ChannelRow} (f : ChannelRow → ChannelRow)
      (hc : db.channels.Has channel c)
      (hvalid : ownerValid db (t.clk 0) c.ownerToken = .ok false)
      (hgrants :
        db.grants.insert uuid (freshGrant t channel worker c.generation) = some db'.grants)
      (hchannels : db'.channels = db.channels.modify channel f)
      (hf : (f c).ownerToken = some uuid) (hfg : (f c).generation = c.generation)
  | renew {channel token : String} {c : ChannelRow} {row : GrantRow}
      (hc : db.channels.Has channel c) (ho : c.ownerToken = some token)
      (hrow : db.grants.Has token row) (hvalid : row.valid (t.clk 0) = true)
      (hgrants : db'.grants = db.grants.modify token fun row =>
      { row with validUntil := t.clk 1 + leaseTime })
    (hchannels : db'.channels = db.channels)

variable {uuid : String} {db' : Db}

/-- No channel row is touched. -/
theorem Quiet.same_channels (hchan : db'.channels = db.channels)
    (hgrant : ∀ {tok g'}, db'.grants.Has tok g' → ∃ g, db.grants.Has tok g ∧ Shortened t g g') :
    Quiet t uuid db db' where
  forth hc := ⟨_, hchan ▸ hc⟩
  chan hc := Or.inl ⟨_, hchan ▸ hc, rfl, rfl⟩
  grant := hgrant

/-- Neither owners nor grants are touched. -/
theorem Quiet.of_eq (hchan : db'.channels = db.channels) (hgrants : db'.grants = db.grants) :
    Quiet t uuid db db' :=
  Quiet.same_channels hchan fun hg => Shortened.refl (hgrants ▸ hg)

/-- One channel row changes, its owner pointer does not. -/
theorem Quiet.modify {f : ChannelRow → ChannelRow} {grants : Table String GrantRow}
    {donations outbox consumers requests audit optOuts live}
    (hf : ∀ c, (f c).ownerToken = c.ownerToken ∧ (f c).generation = c.generation)
    (hgrant : ∀ {tok g'}, grants.Has tok g' → ∃ g, db.grants.Has tok g ∧ Shortened t g g') :
    Quiet t uuid db
      ⟨db.channels.modify channel f, grants, donations, outbox, consumers, requests,
        audit, optOuts, live⟩ where
  forth hc := Table.exists_has_modify channel f hc
  chan := by
    intro ch c' hc'
    rcases Table.has_modify.mp hc' with ⟨rfl, c, hc, rfl⟩ | ⟨-, hc⟩
    · exact Or.inl ⟨c, hc, hf c⟩
    · exact Or.inl ⟨c', hc, rfl, rfl⟩
  grant := hgrant

/-- A channel is registered. -/
theorem Quiet.ensure {channels : Table String ChannelRow}
    (hins : db.channels.insert channel (freshChannel t uuid) = some channels) :
    Quiet t uuid db { db with channels } := by
  obtain ⟨hfree, hhas⟩ := Table.insert_eq_some hins
  constructor
  case forth => exact fun hc => ⟨_, (hhas _ _).mpr (Or.inl hc)⟩
  case chan =>
    intro ch c' hc'
    rcases (hhas _ _).mp hc' with hc | ⟨rfl, rfl⟩
    · exact Or.inl ⟨c', hc, rfl, rfl⟩
    · exact Or.inr ⟨rfl, rfl, Or.inl (Table.find_eq_none_iff.mp hfree)⟩
  case grant => exact Shortened.refl

variable {c : ChannelRow}

/-- A rotation closes every grant of the channel and clears the pointer. -/
theorem Quiet.rotate {reason : String} (hc : db.channels.Has channel c) :
    Quiet t uuid db (rotated t uuid db channel reason c) where
  forth := Table.exists_has_modify _ _
  chan := by
    intro ch c' hc'
    rcases (Table.has_modify_of_has hc).mp hc' with ⟨rfl, rfl⟩ | ⟨-, hc0⟩
    · refine Or.inr ⟨rfl, rfl, Or.inr ?_⟩
      intro tok g hg hch
      obtain ⟨g0, -, rfl⟩ := Table.has_update.mp hg
      by_cases hk : g0.channelID = ch
      · simp [hk, GrantRow.close]
      · simp only [hk, if_false] at hch
    · exact Or.inl ⟨c', hc0, rfl, rfl⟩
  grant := Shortened.closeGrants

variable {B : Backend}

/-- Every committed call is one of the three. -/
theorem apply_ownerStep {op : Op} {reply : Reply}
    (hop : apply B t uuid db op = .ok (db', reply)) :
    OwnerStep t uuid db db' := by
  cases apply_commits hop with
  | ensure hins => exact .quiet (Quiet.ensure hins)
  | setState | expire =>
    refine .quiet (Quiet.modify ?_ Shortened.refl)
    exact fun _ => ⟨rfl, rfl⟩
  | heartbeat =>
    refine .quiet (Quiet.modify ?_ Shortened.refl)
    intro c
    split <;> exact ⟨rfl, rfl⟩
  | acquire _ hc hvalid hins =>
    exact .acquire
      (fun c =>
        { c with ownerToken := some uuid, runtimeState := "connecting", stateAt := t.clk 3 })
      (Table.find_eq_some_iff.mp hc) hvalid hins rfl rfl rfl
  | renew _ hc ho hrow hvalid =>
    exact .renew (Table.find_eq_some_iff.mp hc) ho (Table.find_eq_some_iff.mp hrow) hvalid
      rfl rfl
  | release g =>
    refine .quiet (Quiet.same_channels rfl ?_)
    intro tok g' hg'
    rcases Table.has_modify.mp hg' with ⟨rfl, g0, hg0, rfl⟩ | ⟨-, hg0⟩
    · exact ⟨g0, hg0, Or.inr ⟨_, Nat.le_refl _, t.le_commit 0, rfl⟩⟩
    · exact Shortened.refl hg0
  | append _ _ _ hnew =>
    obtain ⟨row, donations, outbox, -, -, -, -, -, -, -, rfl⟩ := appendNew_ok hnew
    refine .quiet (Quiet.modify ?_ Shortened.refl)
    exact fun _ => ⟨rfl, rfl⟩
  | subscribe =>
    refine .quiet (Quiet.modify ?_ ?_)
    · exact fun _ => ⟨rfl, rfl⟩
    intro tok g hg
    split at hg
    · exact Shortened.refl hg
    · exact Shortened.closeGrants hg
  | purge channel =>
    refine .quiet (Quiet.same_channels rfl ?_)
    intro tok g hg
    exact Shortened.refl (Table.has_delete.mp hg).1
  | maintain hexp =>
    obtain ⟨c, -, ⟨-, rfl⟩ | ⟨-, rfl⟩⟩ := expireDonations_ok hexp
    · refine .quiet (Quiet.same_channels rfl ?_)
      intro tok g hg
      exact Shortened.refl (Table.has_delete.mp hg).1
    · unfold purgeCollection expired
      dsimp only
      refine .quiet (Quiet.modify ?_ ?_)
      · exact fun _ => ⟨rfl, rfl⟩
      intro tok g hg
      exact Shortened.refl (Table.has_delete.mp hg).1
  | rotate _ _ hc => exact .quiet (Quiet.rotate (Table.find_eq_some_iff.mp hc))
  | _ => exact .quiet (Quiet.of_eq rfl rfl)

/-- The same for one step of the machine, failing calls included. -/
theorem step_ownerStep (s : Sys) (call : Call) :
    OwnerStep call.clocks call.uuid s.db ((machine B).step s call).1.db := by
  rcases step_db (B := B) s call with ⟨reply, hok, -⟩ | ⟨e, -, hdb, -⟩
  · exact apply_ownerStep hok
  · rw [hdb]
    exact .quiet (Quiet.of_eq rfl rfl)

variable {s : Sys}

/-- A channel row is never deleted. -/
theorem step_channel (call : Call) (hc : s.db.channels.Has channel c) :
    ∃ c', ((machine B).step s call).1.db.channels.Has channel c' := by
  cases step_ownerStep (B := B) s call with
  | quiet hq => exact hq.forth hc
  | @acquire ch worker c0 f hc0 hvalid hgrants hchannels hf hfg =>
    rw [hchannels]
    by_cases hk : channel = ch
    · exact ⟨f c0, (Table.has_modify_of_has hc0).mpr (Or.inl ⟨hk, rfl⟩)⟩
    · exact ⟨c, (Table.has_modify_of_has hc0).mpr (Or.inr ⟨hk, hc⟩)⟩
  | renew hc0 ho hrow hvalid hgrants hchannels => exact ⟨c, hchannels ▸ hc⟩

theorem run_channel {s' : Sys} {tr : List (Call × Except StoreErr Reply)}
    (hr : (machine B).Run s tr s') (hc : s.db.channels.Has channel c) :
    ∃ c', s'.db.channels.Has channel c' := by
  induction hr with
  | nil => exact ⟨c, hc⟩
  | snoc hr call hadm ih =>
    obtain ⟨c1, hc1⟩ := ih
    exact step_channel call hc1

/-! ## The invariant -/

/-- How the grants of the channels are ordered in time. -/
structure LeaseInv (s : Sys) : Prop where
  grant : ∀ {tok g}, s.db.grants.Has tok g → tok ∈ s.minted ∧
    (∃ c, s.db.channels.Has g.channelID c) ∧ ∀ x, g.closedAt = some x → x ≤ s.clock
  /-- A grant the channel does not point at has ended. -/
  replaced : ∀ {tok g c}, s.db.grants.Has tok g → s.db.channels.Has g.channelID c →
    c.ownerToken ≠ some tok → g.endsAt ≤ s.clock
  /-- The pointer stays inside its channel, and the owner's grant starts after every other one
  of the channel. -/
  owner : ∀ {ch c tok}, s.db.channels.Has ch c → c.ownerToken = some tok → tok ∈ s.minted ∧
    ∀ g, s.db.grants.Has tok g → g.channelID = ch ∧ ∀ tok' g', s.db.grants.Has tok' g' →
      tok' ≠ tok → g'.channelID = ch → g'.endsAt ≤ g.grantedAt
  /-- Any two grants of a channel come one after the other. -/
  ordered : ∀ {tok g tok' g'}, s.db.grants.Has tok g → s.db.grants.Has tok' g' →
    tok ≠ tok' → g.channelID = g'.channelID →
      g.endsAt ≤ g'.grantedAt ∨ g'.endsAt ≤ g.grantedAt

theorem LeaseInv.init : LeaseInv Sys.init where
  grant h := absurd h (Table.has_empty _ _)
  replaced h := absurd h (Table.has_empty _ _)
  owner h := absurd h (Table.has_empty _ _)
  ordered h := absurd h (Table.has_empty _ _)

/-- Quiet calls. -/
theorem LeaseInv.quiet (h : LeaseInv s) (hclk : s.clock ≤ t.clk 0) (hq : Quiet t uuid s.db db') :
    LeaseInv ⟨db', t.commit, uuid :: s.minted⟩ := by
  have hcommit := Nat.le_trans hclk (t.le_commit 0)
  have hclosed : ∀ {tok g x}, db'.grants.Has tok g → g.closedAt = some x → x ≤ t.commit := by
    intro tok g x hg hx
    obtain ⟨g0, hg0, hs⟩ := hq.grant hg
    rcases hs.closedAt_le hx with hx0 | hle
    · exact Nat.le_trans ((h.grant hg0).2.2 x hx0) hcommit
    · exact hle
  constructor
  case grant =>
    intro tok g hg
    obtain ⟨g0, hg0, hs⟩ := hq.grant hg
    obtain ⟨hminted, ⟨c, hc⟩, -⟩ := h.grant hg0
    rw [hs.channelID]
    exact ⟨List.mem_cons_of_mem _ hminted, hq.forth hc, fun x => hclosed hg⟩
  case replaced =>
    intro tok g c hg hc ho
    obtain ⟨g0, hg0, hs⟩ := hq.grant hg
    rcases hq.chan hc with ⟨c0, hc0, heq, -⟩ | ⟨-, -, hnew | hall⟩
    · rw [hs.channelID] at hc0
      have hend := h.replaced hg0 hc0 (heq ▸ ho)
      exact Nat.le_trans hs.endsAt_le (Nat.le_trans hend hcommit)
    · obtain ⟨-, ⟨c0, hc0⟩, -⟩ := h.grant hg0
      rw [hs.channelID] at hnew
      exact absurd hc0 (hnew c0)
    · obtain ⟨x, hx⟩ := Option.ne_none_iff_exists'.mp (hall hg rfl)
      exact Nat.le_trans (GrantRow.endsAt_le_of_closed hx) (hclosed hg hx)
  case owner =>
    intro ch c tok hc ho
    -- A pointer found after the call was there before.
    rcases hq.chan hc with ⟨c0, hc0, heq, -⟩ | ⟨hnone, -⟩
    · obtain ⟨hminted, hlast⟩ := h.owner hc0 (heq ▸ ho)
      refine ⟨List.mem_cons_of_mem _ hminted, fun g hg => ?_⟩
      obtain ⟨g0, hg0, hs⟩ := hq.grant hg
      obtain ⟨hch, hbefore⟩ := hlast g0 hg0
      rw [hs.channelID, hs.grantedAt]
      refine ⟨hch, fun tok' g' hg' hne hch' => ?_⟩
      obtain ⟨g0', hg0', hs'⟩ := hq.grant hg'
      exact Nat.le_trans hs'.endsAt_le (hbefore tok' g0' hg0' hne (hs'.channelID ▸ hch'))
    · rw [hnone] at ho
      cases ho
  case ordered =>
    intro tok g tok' g' hg hg' hne hch
    obtain ⟨g0, hg0, hs⟩ := hq.grant hg
    obtain ⟨g0', hg0', hs'⟩ := hq.grant hg'
    rw [hs.channelID, hs'.channelID] at hch
    rw [hs.grantedAt, hs'.grantedAt]
    rcases h.ordered hg0 hg0' hne hch with hle | hle
    · exact Or.inl (Nat.le_trans hs.endsAt_le hle)
    · exact Or.inr (Nat.le_trans hs'.endsAt_le hle)

/-- The owner's grant is extended. -/
theorem LeaseInv.renew {token : String} (h : LeaseInv s) (hclk : s.clock ≤ t.clk 0)
    (hc : s.db.channels.Has channel c) (ho : c.ownerToken = some token)
    (hgrants : db'.grants = s.db.grants.modify token fun row =>
      { row with validUntil := t.clk 1 + leaseTime })
    (hchannels : db'.channels = s.db.channels) :
    LeaseInv ⟨db', t.commit, uuid :: s.minted⟩ := by
  -- A row other than the owner's is untouched.
  have hgrant : ∀ {tok g'}, db'.grants.Has tok g' →
      ∃ g0, s.db.grants.Has tok g0 ∧ g'.channelID = g0.channelID ∧
        g'.grantedAt = g0.grantedAt ∧ g'.closedAt = g0.closedAt ∧
        (tok ≠ token → g' = g0) := by
    intro tok g' hg'
    rw [hgrants] at hg'
    rcases Table.has_modify.mp hg' with ⟨rfl, g0, hg0, rfl⟩ | ⟨hne, hg0⟩
    · exact ⟨g0, hg0, rfl, rfl, rfl, fun hne => absurd rfl hne⟩
    · exact ⟨g', hg0, rfl, rfl, rfl, fun _ => rfl⟩
  have hcommit := Nat.le_trans hclk (t.le_commit 0)
  obtain ⟨-, howned⟩ := h.owner hc ho
  constructor
  case grant =>
    intro tok g' hg'
    obtain ⟨g0, hg0, hch, -, hcl, -⟩ := hgrant hg'
    obtain ⟨hminted, hchannel, hclosed⟩ := h.grant hg0
    rw [hch, hcl, hchannels]
    exact ⟨List.mem_cons_of_mem _ hminted, hchannel,
      fun x hx => Nat.le_trans (hclosed x hx) hcommit⟩
  case replaced =>
    intro tok g' c' hg' hc' ho'
    rw [hchannels] at hc'
    obtain ⟨g0, hg0, hch, -, -, hsame⟩ := hgrant hg'
    rw [hch] at hc'
    have hne : tok ≠ token := by
      rintro rfl
      rw [(howned g0 hg0).1] at hc'
      exact ho' (hc'.unique hc ▸ ho)
    rw [hsame hne]
    exact Nat.le_trans (h.replaced hg0 hc' ho') hcommit
  case owner =>
    intro ch c' tok hc' ho'
    rw [hchannels] at hc'
    obtain ⟨hminted, hlast⟩ := h.owner hc' ho'
    refine ⟨List.mem_cons_of_mem _ hminted, fun g1 hg1 => ?_⟩
    obtain ⟨g0, hg0, hch, hat, -⟩ := hgrant hg1
    obtain ⟨hch0, hbefore⟩ := hlast g0 hg0
    rw [hch, hat]
    refine ⟨hch0, fun tok' g2 hg2 hne hch' => ?_⟩
    obtain ⟨g0', hg0', hch2, -, -, hsame⟩ := hgrant hg2
    rw [hch2] at hch'
    -- The renewed grant is nobody's predecessor: it is the owner of its channel.
    have hother : tok' ≠ token := by
      rintro rfl
      obtain rfl := (howned g0' hg0').1.symm.trans hch'
      rw [hc'.unique hc, ho] at ho'
      exact hne (Option.some.inj ho')
    rw [hsame hother]
    exact hbefore tok' g0' hg0' hne hch'
  case ordered =>
    intro tok g1 tok' g2 hg1 hg2 hne hch
    obtain ⟨g0, hg0, hch1, hat1, -, hsame1⟩ := hgrant hg1
    obtain ⟨g0', hg0', hch2, hat2, -, hsame2⟩ := hgrant hg2
    rw [hch1, hch2] at hch
    rw [hat1, hat2]
    by_cases h1 : tok = token
    · subst h1
      obtain ⟨hcg, hbefore⟩ := howned g0 hg0
      refine Or.inr ?_
      rw [hsame2 (Ne.symm hne)]
      exact hbefore tok' g0' hg0' (Ne.symm hne) (hch ▸ hcg)
    · by_cases h2 : tok' = token
      · subst h2
        obtain ⟨hcg, hbefore⟩ := howned g0' hg0'
        refine Or.inl ?_
        rw [hsame1 hne]
        exact hbefore tok g0 hg0 hne (hch.trans hcg)
      · rw [hsame1 h1, hsame2 h2]
        exact h.ordered hg0 hg0' hne hch

/-- A grant that is not valid has ended. -/
theorem LeaseInv.endsAt_le_of_invalid (h : LeaseInv s) {t : Time} (hclk : s.clock ≤ t)
    (hg : s.db.grants.Has tok g) (hvalid : g.valid t = false) : g.endsAt ≤ t := by
  cases hcl : g.closedAt with
  | none =>
    have hle : ¬t < g.validUntil := by
      intro hlt
      rw [GrantRow.valid_iff.mpr ⟨hlt, hcl⟩] at hvalid
      cases hvalid
    simp only [GrantRow.endsAt, hcl]
    exact Nat.le_of_not_lt hle
  | some x =>
    calc g.endsAt ≤ x := GrantRow.endsAt_le_of_closed hcl
      _ ≤ s.clock := (h.grant hg).2.2 x hcl
      _ ≤ t := hclk

/-- An acquisition finds every earlier grant of the channel ended. -/
theorem LeaseInv.all_ended (h : LeaseInv s) {t : Time} (hclk : s.clock ≤ t)
    (hc : s.db.channels.Has channel c) (hvalid : ownerValid s.db t c.ownerToken = .ok false)
    (hg : s.db.grants.Has tok g) (hch : g.channelID = channel) : g.endsAt ≤ t := by
  by_cases ho : c.ownerToken = some tok
  · rw [ho] at hvalid
    obtain ⟨row, hrow, hinv⟩ := ownerValid_false hvalid
    rw [(Table.find_eq_some_iff.mp hrow).unique hg] at hinv
    exact h.endsAt_le_of_invalid hclk hg hinv
  · subst hch
    exact Nat.le_trans (h.replaced hg hc ho) hclk

/-- A new grant starts where all the others of its channel have ended. -/
theorem LeaseInv.acquire {worker : String} {f : ChannelRow → ChannelRow} (h : LeaseInv s)
    (hclk : s.clock ≤ t.clk 0) (hfresh : uuid ∉ s.minted) (hc : s.db.channels.Has channel c)
    (hvalid : ownerValid s.db (t.clk 0) c.ownerToken = .ok false)
    (hgrants : s.db.grants.insert uuid (freshGrant t channel worker c.generation) = some db'.grants)
    (hchannels : db'.channels = s.db.channels.modify channel f)
    (hf : (f c).ownerToken = some uuid) :
    LeaseInv ⟨db', t.commit, uuid :: s.minted⟩ := by
  obtain ⟨-, hhas⟩ := Table.insert_eq_some hgrants
  have hmod : ∀ {ch c'}, db'.channels.Has ch c' →
      (ch = channel ∧ c' = f c) ∨ (ch ≠ channel ∧ s.db.channels.Has ch c') := by
    intro ch c' hc'
    rw [hchannels] at hc'
    exact (Table.has_modify_of_has hc).mp hc'
  have hforth : ∀ {ch}, (∃ c0, s.db.channels.Has ch c0) →
      ∃ c', db'.channels.Has ch c' := by
    rintro ch ⟨c0, hc0⟩
    rw [hchannels]
    exact Table.exists_has_modify _ _ hc0
  have hgrant : ∀ {tok g}, db'.grants.Has tok g →
      (s.db.grants.Has tok g ∧ tok ≠ uuid) ∨
        (tok = uuid ∧ g = freshGrant t channel worker c.generation) := by
    intro tok g hg
    rcases (hhas tok g).mp hg with hg | hg
    · refine Or.inl ⟨hg, ?_⟩
      rintro rfl
      exact hfresh (h.grant hg).1
    · exact Or.inr hg
  have hended : ∀ {tok g}, s.db.grants.Has tok g → g.channelID = channel →
      g.endsAt ≤ t.clk 0 := h.all_ended hclk hc hvalid
  have hstart : t.clk 0 ≤ t.clk 1 := t.mono (Nat.zero_le 1)
  have hcommit := Nat.le_trans hclk (t.le_commit 0)
  constructor
  case grant =>
    intro tok g hg
    rcases hgrant hg with ⟨hg, -⟩ | ⟨rfl, rfl⟩
    · obtain ⟨hminted, hchannel, hclosed⟩ := h.grant hg
      exact ⟨List.mem_cons_of_mem _ hminted, hforth hchannel,
        fun x hx => Nat.le_trans (hclosed x hx) hcommit⟩
    · exact ⟨List.mem_cons_self, hforth ⟨c, hc⟩, nofun⟩
  case replaced =>
    intro tok g c' hg hch ho
    rcases hgrant hg with ⟨hg, -⟩ | ⟨rfl, rfl⟩
    · rcases hmod hch with ⟨hk, rfl⟩ | ⟨-, hch⟩
      · exact Nat.le_trans (hended hg hk) (t.le_commit 0)
      · exact Nat.le_trans (h.replaced hg hch ho) hcommit
    · rcases hmod hch with ⟨-, rfl⟩ | ⟨hk, -⟩
      · exact absurd hf ho
      · exact absurd rfl hk
  case owner =>
    intro ch c' tok hch ho
    rcases hmod hch with ⟨rfl, rfl⟩ | ⟨hk, hch⟩
    · rw [hf] at ho
      cases ho
      refine ⟨List.mem_cons_self, fun g hg => ?_⟩
      rcases hgrant hg with ⟨-, hne⟩ | ⟨-, rfl⟩
      · exact absurd rfl hne
      refine ⟨rfl, fun tok' g' hg' hne hch' => ?_⟩
      rcases hgrant hg' with ⟨hg', -⟩ | ⟨rfl, -⟩
      · exact Nat.le_trans (hended hg' hch') hstart
      · exact absurd rfl hne
    · obtain ⟨hminted, hlast⟩ := h.owner hch ho
      refine ⟨List.mem_cons_of_mem _ hminted, fun g hg => ?_⟩
      rcases hgrant hg with ⟨hg0, -⟩ | ⟨heq, -⟩
      · obtain ⟨hch0, hbefore⟩ := hlast g hg0
        refine ⟨hch0, fun tok' g' hg' hne hch' => ?_⟩
        rcases hgrant hg' with ⟨hg', -⟩ | ⟨-, rfl⟩
        · exact hbefore tok' g' hg' hne hch'
        · exact absurd hch'.symm hk
      · exact absurd (heq ▸ hminted) hfresh
  case ordered =>
    intro tok g tok' g' hg hg' hne hch
    rcases hgrant hg with ⟨hg0, -⟩ | ⟨heq, rfl⟩ <;>
      rcases hgrant hg' with ⟨hg0', -⟩ | ⟨heq', rfl⟩
    · exact h.ordered hg0 hg0' hne hch
    · exact Or.inl (Nat.le_trans (hended hg0 hch) hstart)
    · exact Or.inr (Nat.le_trans (hended hg0' hch.symm) hstart)
    · exact absurd (heq.trans heq'.symm) hne

/-- Every admitted step keeps the order of the grants. -/
theorem LeaseInv.of_step (h : LeaseInv s) {call : Call} (hadm : call.admits s) :
    LeaseInv ((machine B).step s call).1 := by
  have hs : ((machine B).step s call).1 =
      ⟨((machine B).step s call).1.db, call.clocks.commit, call.uuid :: s.minted⟩ := by
    rw [← step_clock (B := B) s call, ← step_minted (B := B) s call]
  rw [hs]
  cases step_ownerStep (B := B) s call with
  | quiet hq => exact h.quiet hadm.1 hq
  | acquire f hc hvalid hgrants hchannels hf hfg =>
    exact h.acquire hadm.1 hadm.2 hc hvalid hgrants hchannels hf
  | renew hc ho hrow hvalid hgrants hchannels => exact h.renew hadm.1 hc ho hgrants hchannels

theorem Reachable.leaseInv (hs : Reachable B s) : LeaseInv s := by
  obtain ⟨tr, hr⟩ := hs
  exact hr.invariant (fun s call h hadm => h.of_step hadm) LeaseInv.init

/-! ## Tokens that lost the pointer -/

/-- The token was drawn, its grant belonged to `channel` if it is still there,
and `channel` does not point at it. -/
structure Retired (s : Sys) (channel tok : String) : Prop where
  minted : tok ∈ s.minted
  grant : ∀ {g}, s.db.grants.Has tok g → g.channelID = channel
  exists_channel : ∃ c, s.db.channels.Has channel c
  not_owner : ∀ {c}, s.db.channels.Has channel c → c.ownerToken ≠ some tok

theorem Retired.of_step (h : Retired s channel tok) {call : Call} (hadm : call.admits s) :
    Retired ((machine B).step s call).1 channel tok := by
  obtain ⟨c0, hc0⟩ := h.exists_channel
  have hne : tok ≠ call.uuid := by
    rintro rfl
    exact hadm.2 h.minted
  have hminted : tok ∈ ((machine B).step s call).1.minted := by
    rw [step_minted]
    exact List.mem_cons_of_mem _ h.minted
  have hexists := step_channel (B := B) call hc0
  cases step_ownerStep (B := B) s call with
  | quiet hq =>
    refine ⟨hminted, ?_, hexists, ?_⟩
    · intro g hg
      obtain ⟨g0, hg0, hs⟩ := hq.grant hg
      rw [hs.channelID]
      exact h.grant hg0
    · intro c hc ho
      rcases hq.chan hc with ⟨c1, hc1, heq, -⟩ | ⟨hnone, -⟩
      · exact h.not_owner hc1 (heq ▸ ho)
      · rw [hnone] at ho
        cases ho
  | @acquire ch worker c f hc hvalid hgrants hchannels hf hfg =>
    obtain ⟨-, hhas⟩ := Table.insert_eq_some hgrants
    refine ⟨hminted, ?_, hexists, ?_⟩
    · intro g hg
      rcases (hhas _ _).mp hg with hg | ⟨heq, -⟩
      · exact h.grant hg
      · exact absurd heq hne
    · intro c' hc' ho
      rw [hchannels] at hc'
      rcases (Table.has_modify_of_has hc).mp hc' with ⟨-, rfl⟩ | ⟨-, hc'⟩
      · rw [hf] at ho
        exact hne (Option.some.inj ho).symm
      · exact h.not_owner hc' ho
  | renew hc ho hrow hvalid hgrants hchannels =>
    refine ⟨hminted, ?_, hexists, ?_⟩
    · intro g hg
      rw [hgrants] at hg
      rcases Table.has_modify.mp hg with ⟨rfl, g0, hg0, rfl⟩ | ⟨-, hg0⟩
      · have hch := h.grant hg0
        exact hch
      · exact h.grant hg0
    · intro c' hc'
      rw [hchannels] at hc'
      exact h.not_owner hc'

/-- A retired grant is not valid at any present or later time. -/
theorem LeaseInv.not_valid (h : LeaseInv s) (hr : Retired s channel tok)
    (hg : s.db.grants.Has tok g) {now : Time} (hnow : s.clock ≤ now) : g.valid now = false := by
  obtain ⟨c, hc⟩ := hr.exists_channel
  have hend := h.replaced hg (hr.grant hg ▸ hc) (hr.not_owner hc)
  cases hv : g.valid now with
  | false => rfl
  | true =>
    have hlt := GrantRow.lt_endsAt_of_valid hv
    exact absurd (Nat.le_trans hend hnow) (Nat.not_le_of_lt hlt)

/-! ## Single ownership -/

/-- What the leases of one channel guarantee in state `s`. -/
structure SingleOwner (B : Backend) (s : Sys) (channel : String) : Prop where
  /-- At most one grant is valid, now and until the next call. -/
  one_valid : ∀ {tok g tok' g' now}, s.db.grants.Has tok g → s.db.grants.Has tok' g' →
    g.channelID = channel → g'.channelID = channel → s.clock ≤ now →
      g.valid now = true → g'.valid now = true → tok = tok'
  /-- A grant the channel does not point at is closed or expired. -/
  ended : ∀ {tok g c}, s.db.grants.Has tok g → g.channelID = channel →
    s.db.channels.Has channel c → c.ownerToken ≠ some tok →
      g.closedAt ≠ none ∨ g.validUntil ≤ s.clock
  /-- And no later call makes it valid again. -/
  never_again : ∀ {tok g c tr s'}, s.db.grants.Has tok g → g.channelID = channel →
    s.db.channels.Has channel c → c.ownerToken ≠ some tok → (machine B).Run s tr s' →
      ∀ {g' now}, s'.db.grants.Has tok g' → s'.clock ≤ now → g'.valid now = false
  /-- Two acceptance intervals share at most one instant. -/
  intervals : ∀ {tok g tok' g' x y}, s.db.grants.Has tok g → s.db.grants.Has tok' g' →
    tok ≠ tok' → g.channelID = channel → g'.channelID = channel →
      x ∈ g.interval → x ∈ g'.interval → y ∈ g.interval → y ∈ g'.interval → x = y
  /-- What lies strictly inside one interval is refused for every other token. -/
  exclusive : ∀ {tok g tok' g' x og now}, s.db.grants.Has tok g →
    s.db.grants.Has tok' g' → tok ≠ tok' → g.channelID = channel →
      g'.channelID = channel → g.grantedAt < x → x < g.endsAt →
        g'.accepts og x now = false

/-- **Single-owner leases.**  In every reachable state, for every channel. -/
theorem single_owner {B : Backend} {s : Sys} (hs : Reachable B s) (channel : String) :
    SingleOwner B s channel := by
  have h := hs.leaseInv
  -- A grant the channel does not point at is retired from here on.
  have hretired : ∀ {tok g c}, s.db.grants.Has tok g → g.channelID = channel →
      s.db.channels.Has channel c → c.ownerToken ≠ some tok → Retired s channel tok := by
    intro tok g c hg hch hc ho
    constructor
    case minted => exact (h.grant hg).1
    case grant => exact fun hg' => hg'.unique hg ▸ hch
    case exists_channel => exact ⟨c, hc⟩
    case not_owner => exact fun hc' => hc'.unique hc ▸ ho
  -- A valid grant is the one the channel points at.
  have howner : ∀ {tok g now c}, s.db.grants.Has tok g → g.channelID = channel →
      s.clock ≤ now → g.valid now = true → s.db.channels.Has channel c →
        c.ownerToken = some tok := by
    intro tok g now c hg hch hnow hv hc
    by_contra ho
    rw [h.not_valid (hretired hg hch hc ho) hg hnow] at hv
    cases hv
  constructor
  case one_valid =>
    intro tok g tok' g' now hg hg' hch hch' hnow hv hv'
    obtain ⟨-, ⟨c, hc⟩, -⟩ := h.grant hg
    rw [hch] at hc
    have ho := howner hg hch hnow hv hc
    rw [howner hg' hch' hnow hv' hc] at ho
    exact (Option.some.inj ho).symm
  case ended =>
    intro tok g c hg hch hc ho
    cases hcl : g.closedAt with
    | some x => exact Or.inl (by simp)
    | none =>
      have hend := h.replaced hg (hch ▸ hc) ho
      simp only [GrantRow.endsAt, hcl] at hend
      exact Or.inr hend
  case never_again =>
    intro tok g c tr s' hg hch hc ho hr g' now hg' hnow
    have hr' : Retired s' channel tok :=
      hr.invariant (I := fun s => Retired s channel tok)
        (fun _ _ h hadm => h.of_step hadm) (hretired hg hch hc ho)
    have h' : LeaseInv s' := hr.invariant (I := LeaseInv) (fun _ _ h hadm => h.of_step hadm) h
    exact h'.not_valid hr' hg' hnow
  case intervals =>
    intro tok g tok' g' x y hg hg' hne hch hch' hx hx' hy hy'
    rw [GrantRow.mem_interval] at hx hx' hy hy'
    rcases h.ordered hg hg' hne (hch.trans hch'.symm) with hle | hle <;> lia
  case exclusive =>
    intro tok g tok' g' x og now hg hg' hne hch hch' hlo hhi
    cases hacc : g'.accepts og x now with
    | false => rfl
    | true =>
      have hx := GrantRow.mem_interval.mp (GrantRow.mem_interval_of_accepts hacc)
      rcases h.ordered hg hg' hne (hch.trans hch'.symm) with hle | hle
      · lia
      · lia

/-- The fixture's worker gives up its grant and acquires again. -/
def acquireTwice : List Call :=
  fixtureCalls (40 * day) ++
    [ .at (40 * day + second) "unused-2" (.release (fixtureGrant (40 * day)))
    , .at (40 * day + 2 * second) "token-b" (.acquire "fixture_channel" "fixture_worker") ]

theorem single_owner_acquireTwice :
    ((machine fixtureBackend).exec Sys.init acquireTwice).1.db.grants.rows.map Prod.fst =
        ["token-a", "token-b"] ∧
      SingleOwner fixtureBackend ((machine fixtureBackend).exec Sys.init acquireTwice).1
        "fixture_channel" :=
  ⟨by decide, single_owner (reachable_exec acquireTwice (by decide)) "fixture_channel"⟩

end RogiCollector.Ports.Journal
