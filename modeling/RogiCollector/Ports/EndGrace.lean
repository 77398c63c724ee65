import RogiCollector.Ports.Discovery

/-!
# Ending a tracked channel

A channel the emitter tracks is ended only after it was missing from two
complete lists, with nothing in between that showed it live, and after a check
of its own.  The counter `missedPolls` carries this from cycle to cycle: a
complete list that lacks the channel increments it, a list that has it or a
check that answers "live" resets it.

A cycle that loses its lease or fails to write its list returns before the
emitter sees the list.  If that list had the channel, the counter goes on as if
it had not.
-/

namespace RogiCollector.Ports.Discovery

open Verified
open Journal (Time)
open Archive (Platform BroadcastRow Fate)
open Live

variable {C : Config} {s s' : State} {c : Cycle} {key : ChannelKey}

/-! ## Lists -/

/-- The filtered list of the cycle has the channel. -/
def Cycle.Lists (C : Config) (c : Cycle) (key : ChannelKey) : Prop :=
  key.platform = c.platform ∧ ∃ channels isPartial, c.channels C = some (channels, isPartial) ∧
    key.channelID ∈ channels.map DiscoveredChannel.channelID

/-- The filtered list of the cycle is complete and lacks the channel. -/
def Cycle.Misses (C : Config) (c : Cycle) (key : ChannelKey) : Prop :=
  key.platform = c.platform ∧ ∃ channels, c.channels C = some (channels, false) ∧
    key.channelID ∉ channels.map DiscoveredChannel.channelID

/-- A live check of the cycle found the channel live. -/
def FoundLive (c : Cycle) (o : Report) (key : ChannelKey) : Prop :=
  key.platform = c.platform ∧ key.channelID ∈ o.verifiedLive

/-- An event that did not show the channel live. -/
def Quiet (C : Config) (key : ChannelKey) : Input × Output → Prop
  | (.cycle c, some o) => ¬ c.Lists C key ∧ ¬ FoundLive c o key
  | _ => True

variable {channels : List DiscoveredChannel}

/-- The results of the upsert name listed channels only. -/
theorem result_listed {now : Time} {db : Db}
    (h : key ∈ (upsertLiveChannelsWithHistory now db (c.liveChannels channels)).2.map
      UpsertResult.key) :
    key.platform = c.platform ∧ key.channelID ∈ channels.map DiscoveredChannel.channelID := by
  rw [upsertLiveChannelsWithHistory, (upsertRows_upserted _ _ _ _ (dedupe_nodup _)).1] at h
  obtain ⟨ch, hch, rfl⟩ := List.mem_map.mp h
  obtain ⟨d, hd, rfl⟩ := List.mem_map.mp (mem_dedupe hch)
  exact ⟨rfl, List.mem_map_of_mem hd⟩

/-! ## The emitter's map -/

variable {sessions : List BroadcastRow}

theorem processResult_other {r : UpsertResult} {states : States} (hkey : key ≠ r.key)
    (st : ChannelState) :
    (processResult c channels r sessions states).2.Has key st ↔ states.Has key st := by
  unfold processResult
  split
  · exact Iff.rfl
  · split
    · rw [Table.has_upsert]
      simp [hkey]
    · dsimp only
      split
      · rw [Table.has_upsert]
        simp [hkey]
      · exact Iff.rfl

/-- A tracked channel stays tracked. -/
theorem processResult_keeps (c : Cycle) (channels : List DiscoveredChannel) (r : UpsertResult)
    (sessions : List BroadcastRow) {states : States} {st : ChannelState}
    (h : states.Has key st) :
    ∃ st', (processResult c channels r sessions states).2.Has key st' := by
  by_cases hkey : key = r.key
  · unfold processResult
    split
    · exact ⟨st, h⟩
    · split
      · exact ⟨_, Table.has_upsert.mpr (Or.inl ⟨hkey, rfl⟩)⟩
      · dsimp only
        split
        · exact ⟨_, Table.has_upsert.mpr (Or.inl ⟨hkey, rfl⟩)⟩
        · exact ⟨st, h⟩
  · exact ⟨st, (processResult_other hkey st).mpr h⟩

theorem processDiscovered_other {results : List UpsertResult} {states : States}
    (hkey : key ∉ results.map UpsertResult.key) (st : ChannelState) :
    (processDiscovered c channels results sessions states).2.Has key st ↔
      states.Has key st := by
  induction results generalizing sessions states with
  | nil => exact Iff.rfl
  | cons r rest ih =>
    rw [List.map_cons, List.mem_cons, not_or] at hkey
    exact (ih hkey.2).trans (processResult_other hkey.1 st)

theorem processDiscovered_keeps {results : List UpsertResult} {states : States}
    {st : ChannelState} (h : states.Has key st) :
    ∃ st', (processDiscovered c channels results sessions states).2.Has key st' := by
  induction results generalizing sessions states st with
  | nil => exact ⟨st, h⟩
  | cons r rest ih =>
    obtain ⟨st', h'⟩ := processResult_keeps c channels r sessions h
    exact ih h'

/-- `CommitEnded` only forgets. -/
theorem commitEnded_has {ids : List String} {states : States} {st : ChannelState}
    (h : (commitEnded c ids sessions states).2.Has key st) :
    states.Has key st := by
  induction ids generalizing sessions states with
  | nil => exact h
  | cons id rest ih =>
    rw [commitEnded] at h
    split at h
    · exact ih h
    · dsimp only at h
      have hrest := ih h
      split at hrest
      · exact (Table.has_delete.mp hrest).1
      · exact hrest

/-! ## Who ends -/

section Detect

variable {active : List String} {states : States} {st : ChannelState}

theorem mem_select_ids {p : ChannelKey → ChannelState → Bool} (h : states.Has key st)
    (hp : ∀ k st, p k st = true → k.platform = key.platform) :
    key.channelID ∈ (states.select p).map (fun row => row.1.channelID) ↔ p key st = true := by
  rw [List.mem_map]
  constructor
  · rintro ⟨⟨k, st'⟩, hk, hid⟩
    rw [Table.mem_select] at hk
    have hkey : k = key := by
      have hplat := hp k st' hk.2
      cases k
      cases key
      simp only at hplat hid
      rw [hplat, hid]
    have hst : st' = st := Table.Has.unique (hkey ▸ hk.1) h
    rw [← hkey, ← hst]
    exact hk.2
  · intro hk
    exact ⟨(key, st), Table.mem_select.mpr ⟨h, hk⟩, rfl⟩

theorem mem_detected_active (h : states.Has key st) :
    key.channelID ∈ (detectEndedChannels key.platform active false states).active ↔
      key.channelID ∈ active ∨ st.missedPolls = 0 := by
  rw [detectEndedChannels, List.mem_append, mem_select_ids h]
  · by_cases hin : key.channelID ∈ active
    · simp [hin]
    · simp only [hin, missed, not_false_eq_true, and_self, true_and, decide_true,
        Bool.false_eq_true, false_or, decide_eq_true_eq]
      omega
  · intro k _ hk
    simp only [missed, decide_eq_true_eq] at hk
    exact hk.1.1

theorem mem_detected_toEnd (h : states.Has key st) :
    key.channelID ∈ (detectEndedChannels key.platform active false states).toEnd ↔
      key.channelID ∉ active ∧ 0 < st.missedPolls := by
  rw [detectEndedChannels, mem_select_ids h]
  · have hpos : 0 < st.missedPolls ↔ ¬st.missedPolls + 1 < 2 := by omega
    simp [missed, hpos]
  · intro k _ hk
    simp only [missed, decide_eq_true_eq] at hk
    exact hk.1.1

/-- A tracked channel is in one of the two final lists. -/
theorem validated_partition (isLive : String → LiveCheck) (h : states.Has key st) :
    Xor
      (key.channelID ∈ (validateEndedCandidates isLive
        (detectEndedChannels key.platform active false states).active
        (detectEndedChannels key.platform active false states).toEnd).active)
      (key.channelID ∈ (validateEndedCandidates isLive
        (detectEndedChannels key.platform active false states).active
        (detectEndedChannels key.platform active false states).toEnd).confirmed) := by
  simp only [validateEndedCandidates, List.mem_append, List.mem_filter, mem_detected_active h,
    mem_detected_toEnd h, decide_eq_true_eq]
  by_cases hin : key.channelID ∈ active <;> by_cases hm : st.missedPolls = 0 <;>
    by_cases hl : isLive key.channelID = .notLive <;> simp [hin, hm, hl, Xor, Nat.pos_iff_ne_zero]

end Detect

/-! ## The counter -/

/-- What a cycle can have done when it leaves `st` for the channel with a
counter that is not zero. -/
inductive Polled (C : Config) (s : State) (c : Cycle) (o : Report) (key : ChannelKey)
    (st : ChannelState) : Prop
  | unseen (hold : s.states.Has key st) (ho : o.processed = false) (hlive : o.verifiedLive = [])
  | unlisted (hold : s.states.Has key st) (hlists : ¬ c.Lists C key) (hlive : ¬ FoundLive c o key)
  | missed (old : ChannelState) (hold : s.states.Has key old) (hmiss : c.Misses C key)
      (hlive : ¬ FoundLive c o key)

/-- What a complete cycle detects behind `ProcessDiscovered`. -/
def Cycle.detected (c : Cycle) (s : State) (active : List String) : Detected :=
  detectEndedChannels c.platform active false s.states

/-- What the live checks make of it. -/
def Cycle.validated (c : Cycle) (s : State) (active : List String) : Validated :=
  validateEndedCandidates c.isLive (c.detected s active).active (c.detected s active).toEnd

theorem endPhase_report (c : Cycle) (s : State) (active : List String) :
    (endPhase c s active).2.processed = true ∧
      (endPhase c s active).2.checked = (c.detected s active).toEnd ∧
      (endPhase c s active).2.verifiedLive = (c.validated s active).verifiedLive ∧
      ∀ lists, (endPhase c s active).2.passed = some lists →
        lists = ((c.validated s active).active, (c.validated s active).confirmed) := by
  simp only [endPhase]
  split
  · exact ⟨rfl, rfl, rfl, fun _ h => by cases h⟩
  · split <;>
    · refine ⟨rfl, rfl, rfl, ?_⟩
      intro lists h
      cases h
      rfl

/-- The emitter's map at the end of a complete cycle: some channels may be
forgotten. -/
theorem endPhase_states {active : List String} {st : ChannelState}
    (h : (endPhase c s active).1.states.Has key st) :
    (resetMissedPolls c.platform (c.validated s active).verifiedLive
      (c.detected s active).states).Has key st := by
  simp only [endPhase] at h
  split at h
  · exact h
  · split at h
    · exact h
    · exact h
    · exact commitEnded_has h

/-- A counter that is not zero behind a complete cycle. -/
theorem endPhase_polled {active : List String} {st : ChannelState}
    (h : (endPhase c s active).1.states.Has key st) (hpos : 0 < st.missedPolls) :
    ¬ FoundLive c (endPhase c s active).2 key ∧
      ((key.platform ≠ c.platform ∧ s.states.Has key st) ∨
        (key.platform = c.platform ∧ key.channelID ∉ active ∧
          ∃ old, s.states.Has key old)) := by
  obtain ⟨st1, h1, hst⟩ := Table.has_update.mp (endPhase_states h)
  obtain ⟨st0, h0, hst1⟩ := Table.has_update.mp h1
  have hlive : ¬ FoundLive c (endPhase c s active).2 key := by
    intro hfound
    rw [FoundLive, (endPhase_report c s active).2.2.1] at hfound
    rw [if_pos hfound] at hst
    rw [← hst] at hpos
    exact Nat.lt_irrefl 0 hpos
  refine ⟨hlive, ?_⟩
  rw [FoundLive, (endPhase_report c s active).2.2.1] at hlive
  rw [if_neg hlive] at hst
  rw [← hst] at hpos ⊢
  by_cases hplat : key.platform = c.platform
  · by_cases hin : key.channelID ∈ active
    · rw [if_pos ⟨hplat, hin⟩] at hst1
      rw [← hst1] at hpos
      exact absurd hpos (Nat.lt_irrefl 0)
    · exact Or.inr ⟨hplat, hin, st0, h0⟩
  · rw [if_neg (by simp [hplat]), if_neg (by simp [missed, hplat])] at hst1
    exact Or.inl ⟨hplat, hst1 ▸ h0⟩

/-- A channel that a list lacks is as `ProcessDiscovered` found it. -/
theorem processed_unlisted
    (h : ¬(key.platform = c.platform ∧ key.channelID ∈ channels.map DiscoveredChannel.channelID))
    (st : ChannelState) :
    (c.processed s channels).states.Has key st ↔ s.states.Has key st :=
  processDiscovered_other (fun hkey => h (result_listed hkey)) st

/-- What one cycle can do to a counter. -/
theorem cycle_polled {st : ChannelState}
    (h : (runDiscoveryCycle C s c).1.states.Has key st) (hpos : 0 < st.missedPolls) :
    Polled C s c (runDiscoveryCycle C s c).2 key st := by
  generalize hrun : runDiscoveryCycle C s c = out at h ⊢
  cases hrun ▸ runDiscoveryCycle_run C s c with
  | skipped | lost => exact .unseen h rfl rfl
  | partial_ channels hchannels _ _ =>
    obtain ⟨st0, h0, hst⟩ := Table.has_update.mp h
    have hin : ¬(key.platform = c.platform ∧
        key.channelID ∈ channels.map DiscoveredChannel.channelID) := by
      intro hin
      rw [if_pos hin] at hst
      rw [← hst] at hpos
      exact Nat.lt_irrefl 0 hpos
    rw [if_neg hin, if_neg (by simp)] at hst
    refine .unlisted ((processed_unlisted hin st).mp (hst ▸ h0)) ?_ (fun hl => by cases hl.2)
    rintro ⟨hplat, channels', isPartial, hch, hmem⟩
    rw [hchannels] at hch
    cases hch
    exact hin ⟨hplat, hmem⟩
  | complete channels hchannels _ _ =>
    obtain ⟨hlive, ⟨hplat, hold⟩ | ⟨hplat, hin, old, hold⟩⟩ := endPhase_polled h hpos
    · exact .unlisted ((processed_unlisted (fun hin => hplat hin.1) st).mp hold)
        (fun hl => hplat hl.1) hlive
    · exact .missed old ((processed_unlisted (fun hl => hin hl.2) old).mp hold)
        ⟨hplat, channels, hchannels, hin⟩ hlive

/-! ## What ends a row -/

variable {row : ChannelRow}

/-- The upsert of a cycle keeps a row, and does not end it. -/
theorem upserted_open (c : Cycle) (channels : List DiscoveredChannel)
    (hrow : s.live.channels.Has key row) (hopen : row.status ≠ .ended) :
    ∃ row', (c.upserted s channels).1.channels.Has key row' ∧ row'.status ≠ .ended := by
  obtain ⟨hkeys, hothers, hres⟩ := upsertRows_upserted true c.upsertAt s.live
    (dedupe (c.liveChannels channels)) (dedupe_nodup _)
  by_cases hlisted : key ∈ (dedupe (c.liveChannels channels)).map LiveChannel.key
  · rw [← hkeys] at hlisted
    obtain ⟨r, hr, rfl⟩ := List.mem_map.mp hlisted
    obtain ⟨row', hup⟩ := hres r hr
    exact ⟨row', hup.row, hup.status⟩
  · exact ⟨row, (hothers key hlisted row).mpr hrow, hopen⟩

/-- A complete cycle ends a row only by `MarkEndedChannels`. -/
theorem endPhase_ends {active : List String} {row' : ChannelRow}
    (hrow : s.live.channels.Has key row) (hopen : row.status ≠ .ended)
    (hrow' : (endPhase c s active).1.live.channels.Has key row') (hended : row'.status = .ended) :
    key.platform = c.platform ∧ key.channelID ∉ (c.validated s active).active := by
  have hmark : ∀ {live : Db}, live = (markEndedChannels c.markedAt s.live c.platform
      (c.validated s active).active).1 → live.channels.Has key row' →
      key.platform = c.platform ∧ key.channelID ∉ (c.validated s active).active := by
    rintro live rfl h
    obtain ⟨row0, h0, heq⟩ := Table.has_update.mp h
    rw [h0.unique hrow] at heq
    by_cases hends : endsWith c.platform (c.validated s active).active key row = true
    · simp only [endsWith, decide_eq_true_eq] at hends
      exact ⟨hends.1, hends.2.2⟩
    · rw [if_neg hends] at heq
      rw [heq] at hopen
      exact absurd hended hopen
  have hkeep : s.live.channels.Has key row' →
      key.platform = c.platform ∧ key.channelID ∉ (c.validated s active).active := by
    intro h
    rw [h.unique hrow] at hended
    exact absurd hended hopen
  simp only [endPhase] at hrow'
  split at hrow'
  · exact hkeep hrow'
  · split at hrow'
    · exact hkeep hrow'
    · exact hmark rfl hrow'
    · exact hmark rfl hrow'

/-- The two final lists of a complete cycle. -/
theorem endPhase_partition {active : List String} {st : ChannelState}
    (h : s.states.Has key st) (hplat : key.platform = c.platform) :
    Xor (key.channelID ∈ (c.validated s active).active)
      (key.channelID ∈ (c.validated s active).confirmed) := by
  rw [Cycle.validated, Cycle.detected, ← hplat]
  exact validated_partition c.isLive h

/-- Why a cycle can end the row of a tracked channel: the counter stood above
zero, the complete list lacked the channel, and the check said so. -/
theorem cycle_ends {st : ChannelState} {row' : ChannelRow} (hst : s.states.Has key st)
    (hrow : s.live.channels.Has key row) (hopen : row.status ≠ .ended)
    (hrow' : (runDiscoveryCycle C s c).1.live.channels.Has key row')
    (hended : row'.status = .ended) :
    0 < st.missedPolls ∧ c.Misses C key ∧
      key.channelID ∈ (runDiscoveryCycle C s c).2.checked ∧
      c.isLive key.channelID = .notLive := by
  generalize hrun : runDiscoveryCycle C s c = out at hrow' ⊢
  cases hrun ▸ runDiscoveryCycle_run C s c with
  | skipped hout =>
    rw [Table.Has.unique hrow' hrow] at hended
    exact absurd hended hopen
  | lost channels isPartial hchannels _ _ | partial_ channels hchannels _ _ =>
    obtain ⟨row1, hrow1, hopen1⟩ := upserted_open c channels hrow hopen
    rw [Table.Has.unique hrow' hrow1] at hended
    exact absurd hended hopen1
  | complete channels hchannels _ _ =>
    obtain ⟨row1, hrow1, hopen1⟩ := upserted_open c channels hrow hopen
    obtain ⟨hplat, hnot⟩ := endPhase_ends (s := c.processed s channels) hrow1 hopen1 hrow'
      hended
    obtain ⟨st', hst'⟩ : ∃ st', (c.processed s channels).states.Has key st' :=
      processDiscovered_keeps hst
    -- The final active list lacks the channel, so the other one has it.
    have hconf : key.channelID ∈ (c.validated (c.processed s channels)
        (channels.map DiscoveredChannel.channelID)).confirmed := by
      rcases endPhase_partition hst' hplat with ⟨hin, -⟩ | ⟨hin, -⟩
      · exact absurd hin hnot
      · exact hin
    simp only [Cycle.validated, validateEndedCandidates, List.mem_filter,
      decide_eq_true_eq] at hconf
    have hend := hconf.1
    rw [Cycle.detected, ← hplat, mem_detected_toEnd hst'] at hend
    have hsame : st' = st :=
      Table.Has.unique ((processed_unlisted (fun hl => hend.1 hl.2) st').mp hst') hst
    refine ⟨hsame ▸ hend.2, ⟨hplat, channels, hchannels, hend.1⟩, ?_, hconf.2⟩
    rw [(endPhase_report _ _ _).2.1]
    exact hconf.1

/-! ## Every run -/

/-- The emitter sees every list that has a channel under suspicion. -/
def listsReachEmitter (C : Config) (s : State) : Input → Bool
  | .cycle c =>
    (c.channels C).all fun (channels, _) =>
      (c.leaseUpsert ∧ c.upsert = .answered) ∨
        channels.all fun ch =>
          (s.states.find ⟨c.platform, ch.channelID⟩).all fun st => st.missedPolls = 0
  | _ => true

def attentiveMachine (C : Config) : Machine State Input Output :=
  (machine C).restrict fun s i => listsReachEmitter C s i = true

instance (C : Config) (s : State) (i : Input) : Decidable ((attentiveMachine C).admits s i) :=
  inferInstanceAs (Decidable (admits s i ∧ listsReachEmitter C s i = true))

/-- A complete list lacked the channel, and nothing has shown it live since. -/
def MissedBefore (C : Config) (tr : List (Input × Output)) (key : ChannelKey) : Prop :=
  ∃ before c o after, tr = before ++ (.cycle c, some o) :: after ∧ c.Misses C key ∧
    ¬ FoundLive c o key ∧ ∀ e ∈ after, Quiet C key e

variable {tr : List (Input × Output)}

theorem MissedBefore.quiet {e : Input × Output} (h : MissedBefore C tr key) (he : Quiet C key e) :
    MissedBefore C (tr ++ [e]) key := by
  obtain ⟨before, c, o, after, rfl, hmiss, hlive, hquiet⟩ := h
  refine ⟨before, c, o, after ++ [e], by simp, hmiss, hlive, ?_⟩
  intro e' he'
  rcases List.mem_append.mp he' with hold | hnew
  · exact hquiet e' hold
  · rw [List.mem_singleton.mp hnew]
    exact he

/-- The counters of a state tell the truth about the run. -/
def Counted (C : Config) (tr : List (Input × Output)) (s : State) : Prop :=
  ∀ key st, s.states.Has key st → 0 < st.missedPolls → MissedBefore C tr key

theorem unseen_unlisted {st : ChannelState} (hst : s.states.Has key st)
    (hpos : 0 < st.missedPolls) (hreach : listsReachEmitter C s (.cycle c) = true)
    (ho : (runDiscoveryCycle C s c).2.processed = false) : ¬ c.Lists C key := by
  rintro ⟨hplat, channels, isPartial, hchannels, hmem⟩
  have hstopped : ¬(c.leaseUpsert = true ∧ c.upsert = .answered) := by
    rintro ⟨hlease, hupsert⟩
    generalize hrun : runDiscoveryCycle C s c = out at ho
    cases hrun ▸ runDiscoveryCycle_run C s c with
    | skipped hout => simp [hchannels, hlease, hupsert] at hout
    | lost channels' isPartial' _ _ hlost =>
      rw [hupsert] at hlost
      cases hlost
    | partial_ channels' _ _ _ => cases ho
    | complete channels' _ _ _ =>
      rw [(endPhase_report _ _ _).1] at ho
      cases ho
  simp only [listsReachEmitter, hchannels, Option.all_some, hstopped, false_or,
    decide_eq_true_eq, List.all_eq_true] at hreach
  obtain ⟨ch, hch, hid⟩ := List.mem_map.mp hmem
  have hzero := hreach ch hch
  rw [hid, ← hplat, Table.find_eq_some_iff.mpr hst] at hzero
  simp only [Option.all_some, decide_eq_true_eq] at hzero
  omega

/-- Recovered counters start at zero. -/
theorem recoverSessions_has {r : Recovery} {ordered : List BroadcastRow} {states : States}
    {st : ChannelState} (h : (recoverSessions r ordered sessions states).2.Has key st) :
    states.Has key st ∨ st.missedPolls = 0 := by
  induction ordered generalizing sessions states with
  | nil => exact Or.inl h
  | cons b rest ih =>
    rw [recoverSessions] at h
    split at h
    · exact ih h
    · rcases ih h with hup | hzero
      · rcases Table.has_upsert.mp hup with ⟨-, rfl⟩ | ⟨-, hold⟩
        · exact Or.inr rfl
        · exact Or.inl hold
      · exact Or.inr hzero

theorem Counted.step (h : Counted C tr s) {i : Input} (hreach : listsReachEmitter C s i = true) :
    Counted C (tr ++ [(i, (step C s i).2)]) (step C s i).1 := by
  intro key st hst hpos
  cases i with
  | cycle c =>
    cases cycle_polled hst hpos with
    | unseen hold ho hlive =>
      refine (h key st hold hpos).quiet ⟨unseen_unlisted hold hpos hreach ho, ?_⟩
      intro hfound
      rw [FoundLive, hlive] at hfound
      cases hfound.2
    | unlisted hold hlists hlive => exact (h key st hold hpos).quiet ⟨hlists, hlive⟩
    | missed old hold hmiss hlive =>
      exact ⟨tr, c, _, [], rfl, hmiss, hlive, fun _ he => by cases he⟩
  | recover r =>
    simp only [Discovery.step, recoverState] at hst
    split at hst
    · rcases recoverSessions_has hst with hempty | hzero
      · exact absurd hempty (Table.has_empty _ _)
      · omega
    · exact (h key st hst hpos).quiet trivial
  | optOutEnd now key' => exact (h key st hst hpos).quiet trivial

theorem run_counted (hr : (attentiveMachine C).Run State.init tr s) : Counted C tr s := by
  induction hr with
  | nil =>
    intro key st hst
    exact absurd hst (Table.has_empty _ _)
  | snoc _ i hi ih => exact ih.step hi.2

/-- Why a cycle ended the row of a channel: this complete list lacked it, an
earlier one did, nothing in between showed it live, and this cycle's check
answered that it is not. -/
structure EndJustified (C : Config) (before : List (Input × Output)) (c : Cycle) (o : Report)
    (key : ChannelKey) : Prop where
  missing : c.Misses C key
  earlier : MissedBefore C before key
  checked : key.channelID ∈ o.checked
  notLive : c.isLive key.channelID = .notLive

/-- What holds of the cycle `c` that follows on `before`, in the state `s`, and
ends with `s'` and the report `o`. -/
structure CycleSound (C : Config) (before : List (Input × Output)) (s : State) (c : Cycle)
    (o : Report) (s' : State) : Prop where
  ends : ∀ key st row row', s.states.Has key st → s.live.channels.Has key row →
    row.status ≠ .ended → s'.live.channels.Has key row' → row'.status = .ended →
    EndJustified C before c o key
  lists : ∀ active toEnd, o.passed = some (active, toEnd) →
    ∀ key st, s.states.Has key st → key.platform = c.platform →
      Xor (key.channelID ∈ active) (key.channelID ∈ toEnd)

theorem cycle_lists {active toEnd : List String} {st : ChannelState}
    (hpassed : (runDiscoveryCycle C s c).2.passed = some (active, toEnd))
    (hst : s.states.Has key st) (hplat : key.platform = c.platform) :
    Xor (key.channelID ∈ active) (key.channelID ∈ toEnd) := by
  generalize hrun : runDiscoveryCycle C s c = out at hpassed
  cases hrun ▸ runDiscoveryCycle_run C s c with
  | skipped | lost | partial_ => cases hpassed
  | complete channels hchannels _ _ =>
    obtain ⟨st', hst'⟩ : ∃ st', (c.processed s channels).states.Has key st' :=
      processDiscovered_keeps hst
    cases (endPhase_report _ _ _).2.2.2 _ hpassed
    exact endPhase_partition hst' hplat

/-- If every list that has a tracked channel with a counter above zero reaches
the emitter, no tracked channel is ended too early, and of every complete cycle
each tracked channel of the platform is in one of the two final lists. -/
theorem no_premature_end (C : Config) (tr : List (Input × Output)) (s : State)
    (hr : (attentiveMachine C).Run State.init tr s) :
    ∀ before c o after s1, tr = before ++ (.cycle c, some o) :: after →
      (attentiveMachine C).Run State.init before s1 →
      CycleSound C before s1 c o (step C s1 (.cycle c)).1 := by
  rintro before c o after s1 rfl hr1
  obtain ⟨s2, hr2, -, ho, -⟩ := hr.event
  obtain rfl := hr1.unique hr2
  replace ho : (runDiscoveryCycle C s1 c).2 = o := Option.some.inj ho.symm
  refine ⟨?_, ?_⟩
  · intro key st row row' hst hrow hopen hrow' hended
    obtain ⟨hpos, hmiss, hchecked, hnot⟩ := cycle_ends hst hrow hopen hrow' hended
    exact ⟨hmiss, run_counted hr1 key st hst hpos, ho ▸ hchecked, hnot⟩
  · intro active toEnd hpassed key st hst hplat
    exact cycle_lists (ho ▸ hpassed) hst hplat

/-! ## A list that does not reach the emitter -/

theorem Cycle.Lists.not_misses (h : c.Lists C key) : ¬ c.Misses C key := by
  obtain ⟨-, channels, isPartial, hchannels, hmem⟩ := h
  rintro ⟨-, channels', hchannels', hmiss⟩
  rw [hchannels] at hchannels'
  cases hchannels'
  exact hmiss hmem

/-- Right after a list that has the channel, no earlier one counts. -/
theorem not_missedBefore_listed (tr : List (Input × Output)) {o : Report}
    (h : c.Lists C key) : ¬ MissedBefore C (tr ++ [(.cycle c, some o)]) key := by
  rintro ⟨before, c', o', after, htr, hmiss, -, hquiet⟩
  rcases List.eq_nil_or_concat after with rfl | ⟨rest, e, rfl⟩
  · obtain ⟨-, he⟩ := List.append_inj' htr rfl
    cases he
    exact h.not_misses hmiss
  · rw [List.concat_eq_append, ← List.cons_append, ← List.append_assoc] at htr
    obtain ⟨-, he⟩ := List.append_inj' htr rfl
    have hlast := hquiet e (by simp)
    cases he
    exact hlast.1 h

def fixtureConfig : Config := ⟨none⟩

def fixtureKey : ChannelKey := ⟨.soop, "fixture_channel"⟩

def fixtureChannel : DiscoveredChannel := ⟨"fixture_channel", 3, none⟩

/-- A cycle in which every call succeeds, at an instant and with a list. -/
def fixtureCycle (now : Time) (channels : List DiscoveredChannel) : Cycle where
  platform := .soop
  leader := true
  fetch := some (channels, false)
  optedOut := []
  leaseUpsert := true
  upsert := .answered
  upsertAt := now
  now := now
  calls _ := ⟨.answered, true, .answered⟩
  isLive _ := .notLive
  leaseMark := true
  markEnded := .answered
  markedAt := now
  closedAt := now
  close _ := .answered

def fixtureRecovery (ordered : List BroadcastRow) : Recovery where
  now := 0
  orphans := .answered
  ordered := ordered
  list := true
  close _ := .answered

/-- The channel is tracked and then missing; the next list has it, but the
lease is not confirmed in time. -/
def suspected : List Input :=
  [ .recover (fixtureRecovery []), .cycle (fixtureCycle 10 [fixtureChannel])
  , .cycle (fixtureCycle 20 [])
  , .cycle { fixtureCycle 30 [fixtureChannel] with leaseUpsert := false } ]

def suspectedRun : State × List (Input × Output) :=
  (machine fixtureConfig).exec State.init suspected

def fixtureRow : ChannelRow :=
  (⟨fixtureKey, 3, none⟩ : LiveChannel).newRow true 1 10

/-- The channel was listed a moment ago, and one more list without it ends it. -/
theorem ends_after_listing :
    (machine fixtureConfig).Run State.init suspectedRun.2 suspectedRun.1 ∧
      suspectedRun.1.states.find fixtureKey = some ⟨0, 1⟩ ∧
      suspectedRun.1.live.channels.find fixtureKey = some fixtureRow ∧
      (step fixtureConfig suspectedRun.1 (.cycle (fixtureCycle 40 []))).1.live.channels.find
        fixtureKey = some (fixtureRow.end_ 40) ∧
      ∀ o, ¬ CycleSound fixtureConfig suspectedRun.2 suspectedRun.1 (fixtureCycle 40 []) o
        (step fixtureConfig suspectedRun.1 (.cycle (fixtureCycle 40 []))).1 := by
  have hst : suspectedRun.1.states.find fixtureKey = some ⟨0, 1⟩ := by decide
  have hrow : suspectedRun.1.live.channels.find fixtureKey = some fixtureRow := by decide
  have hend : (step fixtureConfig suspectedRun.1 (.cycle (fixtureCycle 40 []))).1.live.channels.find
      fixtureKey = some (fixtureRow.end_ 40) := by decide
  refine ⟨Machine.run_exec _ _ (by decide), hst, hrow, hend, ?_⟩
  intro o h
  have hearlier := (h.ends fixtureKey _ _ _ (Table.find_eq_some_iff.mp hst)
    (Table.find_eq_some_iff.mp hrow) (by decide) (Table.find_eq_some_iff.mp hend) rfl).earlier
  have hlists : ({ fixtureCycle 30 [fixtureChannel] with leaseUpsert := false } : Cycle).Lists
      fixtureConfig fixtureKey := ⟨rfl, [fixtureChannel], false, rfl, by decide⟩
  exact not_missedBefore_listed (suspectedRun.2.take 3) hlists hearlier

/-- The same with a lease that holds: the channel is ended by the second list
in a row that lacks it. -/
def attentiveRun : State × List (Input × Output) :=
  (attentiveMachine fixtureConfig).exec State.init
    [ .recover (fixtureRecovery []), .cycle (fixtureCycle 10 [fixtureChannel])
    , .cycle (fixtureCycle 20 []), .cycle (fixtureCycle 30 [fixtureChannel])
    , .cycle (fixtureCycle 40 []), .cycle (fixtureCycle 50 []) ]

theorem no_premature_end_attentiveRun :
    attentiveRun.1.live.channels.find fixtureKey =
        some { fixtureRow.end_ 50 with lastSeenAt := 30 } ∧
      ∀ before c o after s1, attentiveRun.2 = before ++ (.cycle c, some o) :: after →
        (attentiveMachine fixtureConfig).Run State.init before s1 →
        CycleSound fixtureConfig before s1 c o (step fixtureConfig s1 (.cycle c)).1 :=
  ⟨by decide, no_premature_end _ _ _ (Machine.run_exec _ _ (by decide))⟩

end RogiCollector.Ports.Discovery
