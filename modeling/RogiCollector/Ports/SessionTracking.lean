import RogiCollector.Ports.EndGrace

/-!
# Tracked sessions

The emitter's memory, `live_channels` and `broadcast_sessions` say the same of
a channel: it has at most one open session, a tracked channel has one with the
tracked number, and that is the number of its live row.

The calls that keep the three in step are made one by one, and a failure is
only logged.  A session whose first metadata row could not be written stays
open without being tracked, and the next cycle opens another one.  A row that
was ended behind the emitter's back gets a new number when it is listed again,
and the emitter keeps the old one.
-/

namespace RogiCollector.Ports.Discovery

open Verified
open Journal (Time)
open Archive (Platform BroadcastRow Fate)
open History
open Live

variable {C : Config} {s s' : State} {c : Cycle} {key : ChannelKey}

/-! ## Open rows -/

def channelKey (b : BroadcastRow) : ChannelKey := ⟨b.platform, b.channelID⟩

/-- The open rows of a channel. -/
def openRows (rows : List BroadcastRow) (key : ChannelKey) : List BroadcastRow :=
  rows.filter fun b => channelKey b = key ∧ b.endedObservedAt = none

variable {rows : List BroadcastRow} {b : BroadcastRow}

theorem mem_openRows :
    b ∈ openRows rows key ↔
      b ∈ rows ∧ channelKey b = key ∧ b.endedObservedAt = none := by
  rw [openRows, List.mem_filter, decide_eq_true_eq]

/-- Rewriting rows without touching what makes them open. -/
theorem openRows_map {f : BroadcastRow → BroadcastRow}
    (hkey : ∀ b, channelKey (f b) = channelKey b)
    (hended : ∀ b, (f b).endedObservedAt = b.endedObservedAt) :
    openRows (rows.map f) key = (openRows rows key).map f := by
  rw [openRows, openRows, List.filter_map]
  congr 2
  funext b
  simp only [Function.comp_apply, hkey, hended]

variable {rows' : List BroadcastRow} {now : Time}

/-- Closed rows are open no more, the others stay. -/
theorem openRows_endSessions {cond : BroadcastRow → Bool} {endedAt : BroadcastRow → Time}
    (h : endSessions rows cond endedAt now = some rows') :
    openRows rows' key = (openRows rows key).filter fun b => !cond b := by
  unfold endSessions at h
  split at h
  · cases h
  rename_i hcheck
  rw [Option.some.injEq] at h
  rw [← h, openRows, openRows]
  clear h hcheck
  induction rows with
  | nil => rfl
  | cons b rows ih =>
    rw [List.map_cons, List.filter_cons, List.filter_cons, ih]
    by_cases hcond : cond b = true <;>
      by_cases hopen : channelKey b = key ∧ b.endedObservedAt = none <;> simp [hcond, hopen]

theorem openRows_insertSession (h : insertSession rows b = some rows')
    (hb : b.endedObservedAt = none) :
    openRows rows' key = openRows rows key ++ if channelKey b = key then [b] else [] := by
  unfold insertSession at h
  split at h
  · cases h
  cases h
  have hsame : ({ b with endedObservedAt := none } : BroadcastRow) = b := by
    rw [← hb]
  rw [hsame, openRows, openRows, List.filter_append, List.filter_cons, List.filter_nil]
  by_cases hkey : channelKey b = key
  · simp [hkey, hb]
  · simp [hkey]

variable {endedAt : Time}

/-- A number of another channel closes nothing here. -/
theorem openRows_closeSession_other {platform : Platform} {channelID : String}
    {sessionSeq : Nat}
    (h : closeSession rows platform channelID sessionSeq endedAt now = some rows')
    (hkey : key ≠ ⟨platform, channelID⟩) : openRows rows' key = openRows rows key := by
  rw [openRows_endSessions h, List.filter_eq_self]
  intro b hb
  have hk := (mem_openRows.mp hb).2.1
  simp only [isOpen, Bool.not_eq_true', decide_eq_false_iff_not]
  intro hopen
  apply hkey
  rw [← hk, channelKey, hopen.1, hopen.2.1]

/-- The open row of the channel with that number is closed. -/
theorem openRows_closeSession (hrows : openRows rows key = [b])
    (h : closeSession rows key.platform key.channelID b.sessionSeq endedAt now = some rows') :
    openRows rows' key = [] := by
  have hb : b ∈ openRows rows key := by rw [hrows]; exact List.mem_singleton_self b
  obtain ⟨-, hk, hended⟩ := mem_openRows.mp hb
  rw [openRows_endSessions h, hrows, List.filter_singleton]
  rw [← hk]
  simp [isOpen, channelKey, hended]

/-! ## The agreement -/

/-- The three stores agree.  The third part is about every open row, tracked or
not. -/
structure TrackInv (live : Db) (sessions : List BroadcastRow) (states : States) : Prop where
  one : ∀ key, (openRows sessions key).length ≤ 1
  tracked : ∀ key st, states.Has key st →
    ∃ b ∈ openRows sessions key, b.sessionSeq = st.sessionSeq
  row : ∀ key, ∀ b ∈ openRows sessions key, ∃ row, live.channels.Has key row ∧
    (row.status ≠ .ended → row.currentSessionSeq = b.sessionSeq)

section Parts

variable {live : Db} {sessions : List BroadcastRow} {states : States}

theorem TrackInv.single (h : TrackInv live sessions states) {st : ChannelState}
    (hst : states.Has key st) :
    ∃ b, openRows sessions key = [b] ∧ b.sessionSeq = st.sessionSeq := by
  obtain ⟨b, hb, hseq⟩ := h.tracked key st hst
  have hone := h.one key
  cases hrows : openRows sessions key with
  | nil =>
    rw [hrows] at hb
    cases hb
  | cons b' rest =>
    rw [hrows] at hb hone
    have hrest : rest = [] := by
      rw [← List.length_eq_zero_iff]
      rw [List.length_cons] at hone
      omega
    rw [hrest] at hb ⊢
    rw [List.mem_singleton.mp hb] at hseq
    exact ⟨b', rfl, hseq⟩

/-- The counters do not matter. -/
theorem TrackInv.of_states (h : TrackInv live sessions states) {states' : States}
    (hs : ∀ key st', states'.Has key st' →
      ∃ st, states.Has key st ∧ st'.sessionSeq = st.sessionSeq) :
    TrackInv live sessions states' :=
  { h with
    tracked := by
      intro key st' hst'
      obtain ⟨st, hst, hseq⟩ := hs key st' hst'
      obtain ⟨b, hb, hb'⟩ := h.tracked key st hst
      exact ⟨b, hb, hb'.trans hseq.symm⟩ }

/-- Rows may end, and keep their number otherwise. -/
theorem TrackInv.of_live (h : TrackInv live sessions states) {live' : Db}
    (hl : ∀ key row, live.channels.Has key row → ∃ row', live'.channels.Has key row' ∧
      (row'.status ≠ .ended → row.status ≠ .ended ∧
        row'.currentSessionSeq = row.currentSessionSeq)) :
    TrackInv live' sessions states :=
  { h with
    row := by
      intro key b hb
      obtain ⟨row, hrow, hseq⟩ := h.row key b hb
      obtain ⟨row', hrow', himp⟩ := hl key row hrow
      refine ⟨row', hrow', ?_⟩
      intro hopen
      obtain ⟨hopen0, hsame⟩ := himp hopen
      exact hsame.trans (hseq hopen0) }

/-- A session is opened for a channel that had none. -/
theorem TrackInv.insert (h : TrackInv live sessions states) {sessions' : List BroadcastRow}
    (hins : insertSession sessions b = some sessions') (hb : b.endedObservedAt = none)
    (hempty : openRows sessions (channelKey b) = [])
    (hrow : ∃ row, live.channels.Has (channelKey b) row ∧ row.currentSessionSeq = b.sessionSeq) :
    TrackInv live sessions' states ∧ openRows sessions' (channelKey b) = [b] := by
  have hopen : ∀ key, openRows sessions' key =
      openRows sessions key ++ if channelKey b = key then [b] else [] := by
    intro key
    exact openRows_insertSession hins hb
  have hnew : openRows sessions' (channelKey b) = [b] := by
    rw [hopen, hempty, if_pos rfl, List.nil_append]
  have hother : ∀ key, channelKey b ≠ key → openRows sessions' key = openRows sessions key := by
    intro key hkey
    rw [hopen, if_neg hkey, List.append_nil]
  refine ⟨⟨?_, ?_, ?_⟩, hnew⟩
  · intro key
    by_cases hkey : channelKey b = key
    · rw [← hkey, hnew]
      exact Nat.le_refl 1
    · rw [hother key hkey]
      exact h.one key
  · intro key st hst
    obtain ⟨b', hb', hseq⟩ := h.tracked key st hst
    refine ⟨b', ?_, hseq⟩
    rw [hopen]
    exact List.mem_append_left _ hb'
  · intro key b' hb'
    by_cases hkey : channelKey b = key
    · rw [← hkey, hnew, List.mem_singleton] at hb'
      obtain ⟨row, hrow, hseq⟩ := hrow
      exact ⟨row, hkey ▸ hrow, fun _ => hb' ▸ hseq⟩
    · rw [hother key hkey] at hb'
      exact h.row key b' hb'

/-- A channel with an open session may be tracked under its number. -/
theorem TrackInv.track (h : TrackInv live sessions states) (hb : b ∈ openRows sessions key)
    (missedPolls : Nat) :
    TrackInv live sessions (states.upsert key ⟨b.sessionSeq, missedPolls⟩) :=
  { h with
    tracked := by
      intro key' st hst
      rcases Table.has_upsert.mp hst with ⟨rfl, rfl⟩ | ⟨-, hold⟩
      · exact ⟨b, hb, rfl⟩
      · exact h.tracked key' st hold }

theorem openRows_updateLastSeen (platform : Platform) (channelID : String) (sessionSeq : Nat)
    (now : Time) :
    openRows (updateSessionLastSeen sessions platform channelID sessionSeq now) key =
      (openRows sessions key).map fun b =>
        if isOpen platform channelID sessionSeq b then { b with lastSeenAt := now } else b := by
  apply openRows_map
  · intro b
    split <;> rfl
  · intro b
    split <;> rfl

theorem TrackInv.lastSeen (h : TrackInv live sessions states) (platform : Platform)
    (channelID : String) (sessionSeq : Nat) (now : Time) :
    TrackInv live (updateSessionLastSeen sessions platform channelID sessionSeq now) states := by
  have hseq : ∀ b : BroadcastRow, (if isOpen platform channelID sessionSeq b then
      { b with lastSeenAt := now } else b).sessionSeq = b.sessionSeq := by
    intro b
    split <;> rfl
  refine ⟨?_, ?_, ?_⟩
  · intro key
    rw [openRows_updateLastSeen, List.length_map]
    exact h.one key
  · intro key st hst
    obtain ⟨b, hb, hb'⟩ := h.tracked key st hst
    rw [openRows_updateLastSeen]
    exact ⟨_, List.mem_map_of_mem hb, (hseq b).trans hb'⟩
  · intro key b' hb'
    rw [openRows_updateLastSeen] at hb'
    obtain ⟨b, hb, rfl⟩ := List.mem_map.mp hb'
    obtain ⟨row, hrow, hr⟩ := h.row key b hb
    exact ⟨row, hrow, fun hopen => (hr hopen).trans (hseq b).symm⟩

/-- A session is closed and forgotten. -/
theorem TrackInv.close (h : TrackInv live sessions states) {sessions' : List BroadcastRow}
    {st : ChannelState} (hst : states.Has key st)
    (hclose : closeSession sessions key.platform key.channelID st.sessionSeq endedAt now =
      some sessions') :
    TrackInv live sessions' (states.delete fun key' _ => key' = key) := by
  obtain ⟨b, hrows, hseq⟩ := h.single hst
  rw [← hseq] at hclose
  have hnone : openRows sessions' key = [] := openRows_closeSession hrows hclose
  have hother : ∀ key', key' ≠ key → openRows sessions' key' = openRows sessions key' := by
    intro key' hkey'
    exact openRows_closeSession_other hclose hkey'
  refine ⟨?_, ?_, ?_⟩
  · intro key'
    by_cases hkey' : key' = key
    · rw [hkey', hnone]
      exact Nat.zero_le 1
    · rw [hother key' hkey']
      exact h.one key'
  · intro key' st' hst'
    obtain ⟨hold, hkey'⟩ := Table.has_delete.mp hst'
    rw [decide_eq_false_iff_not] at hkey'
    rw [hother key' hkey']
    exact h.tracked key' st' hold
  · intro key' b' hb'
    by_cases hkey' : key' = key
    · rw [hkey', hnone] at hb'
      cases hb'
    · rw [hother key' hkey'] at hb'
      exact h.row key' b' hb'

/-! ## The parts of a cycle -/

/-- A call left the store as it was, or had its effect. -/
theorem call_cases {α : Type} (fate : Fate) (old : α) (new : Option α) :
    call fate old new = (old, false) ∨ ∃ value, new = some value ∧
      ((fate = .lost ∧ call fate old new = (value, false)) ∨
        call fate old new = (value, true)) := by
  cases new with
  | none => exact Or.inl rfl
  | some value =>
    cases fate with
    | failed => exact Or.inl rfl
    | lost => exact Or.inr ⟨value, rfl, Or.inl ⟨rfl, rfl⟩⟩
    | answered => exact Or.inr ⟨value, rfl, Or.inr rfl⟩

/-- A result of the upsert that the emitter can take up: its row is open under
its number, and an open session of the channel is tracked. -/
structure Ready (live : Db) (sessions : List BroadcastRow) (states : States) (c : Cycle)
    (r : UpsertResult) : Prop where
  platform : r.key.platform = c.platform
  row : ∃ row, live.channels.Has r.key row ∧ row.currentSessionSeq = r.sessionSeq
  settled : openRows sessions r.key = [] ∨ (r.isInsert = false ∧ ∃ st, states.Has r.key st)

theorem TrackInv.processResult (h : TrackInv live sessions states)
    (channels : List DiscoveredChannel) {r : UpsertResult}
    (hr : Ready live sessions states c r) :
    TrackInv live (Discovery.processResult c channels r sessions states).1
      (Discovery.processResult c channels r sessions states).2 := by
  unfold Discovery.processResult
  split
  · exact h
  rename_i ch hch
  split
  · rename_i st hins hst
    have hold : states.Has r.key st := Table.find_eq_some_iff.mp hst
    obtain ⟨b, hb, hseq⟩ := h.tracked r.key st hold
    have htrack := h.track hb 0
    rw [hseq] at htrack
    rcases call_cases (c.calls r.key.channelID).updateLastSeen sessions
      (some (updateSessionLastSeen sessions c.platform r.key.channelID st.sessionSeq c.now))
      with heq | ⟨value, hvalue, ⟨-, heq⟩ | heq⟩
    · rw [heq]
      exact htrack
    · cases hvalue
      rw [heq]
      exact htrack.lastSeen _ _ _ _
    · cases hvalue
      rw [heq]
      exact htrack.lastSeen _ _ _ _
  · rename_i hnew
    have hempty : openRows sessions r.key = [] := by
      rcases hr.settled with hempty | ⟨hins, st, hst⟩
      · exact hempty
      · exact absurd (Table.find_eq_some_iff.mpr hst) (hnew st hins)
    have hkey : channelKey (newSession c.platform c.now r ch) = r.key := by
      rw [← hr.platform]
      rfl
    dsimp only
    rcases call_cases (c.calls r.key.channelID).insertSession sessions
      (insertSession sessions (newSession c.platform c.now r ch))
      with heq | ⟨value, hvalue, hcall⟩
    · rw [heq, if_neg (by simp)]
      exact h
    · obtain ⟨hinv, hrows⟩ := h.insert hvalue rfl (hkey ▸ hempty) (hkey ▸ hr.row)
      rw [hkey] at hrows
      rcases hcall with ⟨-, heq⟩ | heq
      · rw [heq, if_neg (by simp)]
        exact hinv
      · rw [heq]
        split
        · exact hinv.track (b := newSession c.platform c.now r ch) (by simp [hrows]) 0
        · exact hinv

/-- One result concerns the open rows of its channel only. -/
theorem processResult_openRows (channels : List DiscoveredChannel) {r : UpsertResult}
    (hplat : r.key.platform = c.platform) (hkey : key ≠ r.key) :
    openRows (Discovery.processResult c channels r sessions states).1 key =
      openRows sessions key := by
  have hseen : ∀ sessionSeq, openRows (updateSessionLastSeen sessions c.platform
      r.key.channelID sessionSeq c.now) key = openRows sessions key := by
    intro sessionSeq
    rw [openRows_updateLastSeen]
    conv_rhs => rw [← List.map_id (openRows sessions key)]
    apply List.map_congr_left
    intro b hb
    have hk := (mem_openRows.mp hb).2.1
    rw [if_neg]
    · rfl
    · simp only [isOpen, decide_eq_true_eq]
      intro hopen
      apply hkey
      rw [← hk, channelKey, hopen.1, hopen.2.1, ← hplat]
  unfold Discovery.processResult
  split
  · rfl
  rename_i ch hch
  split
  · rename_i st hins hst
    rcases call_cases (c.calls r.key.channelID).updateLastSeen sessions
      (some (updateSessionLastSeen sessions c.platform r.key.channelID st.sessionSeq c.now))
      with heq | ⟨value, hvalue, ⟨-, heq⟩ | heq⟩
    · rw [heq]
    · cases hvalue
      rw [heq]
      exact hseen _
    · cases hvalue
      rw [heq]
      exact hseen _
  · have hne : channelKey (newSession c.platform c.now r ch) ≠ key := by
      intro heq
      apply hkey
      rw [← heq, channelKey, newSession, ← hplat]
    have hins : ∀ value, insertSession sessions (newSession c.platform c.now r ch) =
        some value → openRows value key = openRows sessions key := by
      intro value hvalue
      rw [openRows_insertSession hvalue rfl, if_neg hne, List.append_nil]
    dsimp only
    rcases call_cases (c.calls r.key.channelID).insertSession sessions
      (insertSession sessions (newSession c.platform c.now r ch))
      with heq | ⟨value, hvalue, ⟨-, heq⟩ | heq⟩
    · rw [heq, if_neg (by simp)]
    · rw [heq, if_neg (by simp)]
      exact hins value hvalue
    · rw [heq]
      split <;> exact hins value hvalue

/-- The results of one upsert, each of another channel. -/
theorem TrackInv.processDiscovered (h : TrackInv live sessions states)
    (channels : List DiscoveredChannel) {results : List UpsertResult}
    (hkeys : (results.map UpsertResult.key).Nodup)
    (hready : ∀ r ∈ results, Ready live sessions states c r) :
    TrackInv live (Discovery.processDiscovered c channels results sessions states).1
      (Discovery.processDiscovered c channels results sessions states).2 := by
  induction results generalizing sessions states with
  | nil => exact h
  | cons r rest ih =>
    rw [List.map_cons, List.nodup_cons] at hkeys
    have hr := hready r List.mem_cons_self
    apply ih (h.processResult channels hr) hkeys.2
    intro r' hr'
    have hne : r'.key ≠ r.key := by
      intro heq
      exact hkeys.1 (heq ▸ List.mem_map_of_mem hr')
    obtain ⟨hplat, hrow, hset⟩ := hready r' (List.mem_cons_of_mem _ hr')
    refine ⟨hplat, hrow, ?_⟩
    rw [processResult_openRows channels hr.platform hne]
    simp only [processResult_other hne]
    exact hset

/-- `CommitEnded`, when no call fails after it took effect. -/
theorem TrackInv.commitEnded (h : TrackInv live sessions states) {ids : List String}
    (hclose : ∀ id ∈ ids, c.close id ≠ .lost) :
    TrackInv live (Discovery.commitEnded c ids sessions states).1
      (Discovery.commitEnded c ids sessions states).2 := by
  induction ids generalizing sessions states with
  | nil => exact h
  | cons id rest ih =>
    have hrest : ∀ id ∈ rest, c.close id ≠ .lost := fun id hid =>
      hclose id (List.mem_cons_of_mem _ hid)
    rw [Discovery.commitEnded]
    split
    · exact ih h hrest
    · rename_i st hst
      dsimp only
      rcases call_cases (c.close id) sessions
        (closeSession sessions c.platform id st.sessionSeq c.closedAt c.closedAt)
        with heq | ⟨value, hvalue, ⟨hlost, -⟩ | heq⟩
      · rw [heq, if_neg (by simp)]
        exact ih h hrest
      · exact absurd hlost (hclose id List.mem_cons_self)
      · have htracked : states.Has ⟨c.platform, id⟩ st := Table.find_eq_some_iff.mp hst
        rw [heq, if_pos rfl]
        exact ih (h.close htracked hvalue) hrest

/-- Polling changes counters only. -/
theorem TrackInv.detect (h : TrackInv live sessions states) (platform : Platform)
    (active : List String) (isPartial : Bool) :
    TrackInv live sessions (detectEndedChannels platform active isPartial states).states := by
  apply h.of_states
  intro key st' hst'
  obtain ⟨st, hst, rfl⟩ := Table.has_update.mp hst'
  refine ⟨st, hst, ?_⟩
  split
  · rfl
  · split <;> rfl

theorem TrackInv.reset (h : TrackInv live sessions states) (platform : Platform)
    (ids : List String) : TrackInv live sessions (resetMissedPolls platform ids states) := by
  apply h.of_states
  intro key st' hst'
  obtain ⟨st, hst, rfl⟩ := Table.has_update.mp hst'
  refine ⟨st, hst, ?_⟩
  split <;> rfl

theorem TrackInv.markEnded (h : TrackInv live sessions states) (now : Time)
    (platform : Platform) (active : List String) :
    TrackInv (markEndedChannels now live platform active).1 sessions states := by
  apply h.of_live
  intro key row hrow
  refine ⟨_, Table.has_update.mpr ⟨row, hrow, rfl⟩, ?_⟩
  split
  · intro hopen
    exact absurd rfl hopen
  · intro hopen
    exact ⟨hopen, rfl⟩

theorem TrackInv.optOutEnd (h : TrackInv live sessions states) (now : Time)
    (key : ChannelKey) :
    TrackInv (endCollectionOptedOutLiveChannel now live key).1 sessions states := by
  unfold endCollectionOptedOutLiveChannel
  split
  · split
    · apply h.of_live
      intro key' row hrow
      refine ⟨_, Table.has_update.mpr ⟨row, hrow, rfl⟩, ?_⟩
      split
      · intro hopen
        exact absurd rfl hopen
      · intro hopen
        exact ⟨hopen, rfl⟩
    · exact h
  · exact h

end Parts

/-! ## A cycle -/

/-- A listed channel with an open session is tracked, and its row has not
ended. -/
def settled (s : State) (key : ChannelKey) : Bool :=
  (openRows s.sessions key).isEmpty ∨
    (s.states.find key).isSome ∧
      (s.live.channels.find key).any fun row => row.status ≠ .ended

/-- A cycle that writes its list finds every listed channel settled, and no
`CloseSession` for a tracked channel fails after it took effect. -/
def staysSettled (C : Config) (s : State) : Input → Bool
  | .cycle c =>
    ((c.channels C).all fun (channels, _) =>
      (!c.leaseUpsert ∨ c.upsert = .failed) ∨
        channels.all fun ch => settled s ⟨c.platform, ch.channelID⟩) ∧
      s.states.keys.all fun key => c.close key.channelID ≠ .lost
  | _ => true

theorem settled_iff :
    settled s key = true ↔ openRows s.sessions key = [] ∨
      (∃ st, s.states.Has key st) ∧
        ∃ row, s.live.channels.Has key row ∧ row.status ≠ .ended := by
  simp only [settled, decide_eq_true_eq, List.isEmpty_iff, Option.isSome_iff_exists,
    Option.any_eq_true, Table.find_eq_some_iff]

/-- The listed channels behind the upsert. -/
theorem TrackInv.upserted (h : TrackInv s.live s.sessions s.states)
    {channels : List DiscoveredChannel}
    (hset : ∀ ch ∈ channels, settled s ⟨c.platform, ch.channelID⟩ = true) :
    TrackInv (c.upserted s channels).1 s.sessions s.states ∧
      ((c.upserted s channels).2.map UpsertResult.key).Nodup ∧
      ∀ r ∈ (c.upserted s channels).2,
        Ready (c.upserted s channels).1 s.sessions s.states c r := by
  obtain ⟨hkeys, hothers, hres⟩ := upsertRows_upserted true c.upsertAt s.live
    (dedupe (c.liveChannels channels)) (dedupe_nodup _)
  have hlisted : ∀ r ∈ (c.upserted s channels).2,
      r.key.platform = c.platform ∧ settled s r.key = true := by
    intro r hr
    obtain ⟨hplat, hid⟩ := result_listed (List.mem_map_of_mem hr)
    obtain ⟨ch, hch, heq⟩ := List.mem_map.mp hid
    have hs := hset ch hch
    rw [heq, ← hplat] at hs
    exact ⟨hplat, hs⟩
  refine ⟨{ h with row := ?_ }, ?_, ?_⟩
  · intro key b hb
    by_cases hin : key ∈ (dedupe (c.liveChannels channels)).map LiveChannel.key
    · rw [← hkeys] at hin
      obtain ⟨r, hr, rfl⟩ := List.mem_map.mp hin
      obtain ⟨row', hup⟩ := hres r hr
      rcases settled_iff.mp (hlisted r hr).2 with hempty | ⟨-, row, hrow, hopen⟩
      · rw [hempty] at hb
        cases hb
      · obtain ⟨row0, hrow0, hseq⟩ := h.row r.key b hb
        rw [hrow0.unique hrow] at hseq
        exact ⟨row', hup.row, fun _ => (hup.kept row hrow hopen).trans (hseq hopen)⟩
    · obtain ⟨row, hrow, hseq⟩ := h.row key b hb
      exact ⟨row, (hothers key hin row).mpr hrow, hseq⟩
  · rw [Cycle.upserted, upsertLiveChannelsWithHistory, hkeys]
    exact dedupe_nodup _
  · intro r hr
    obtain ⟨row', hup⟩ := hres r hr
    obtain ⟨hplat, hs⟩ := hlisted r hr
    refine ⟨hplat, ⟨row', hup.row, hup.seq⟩, ?_⟩
    rcases settled_iff.mp hs with hempty | ⟨htracked, row, hrow, -⟩
    · exact Or.inl hempty
    · refine Or.inr ⟨?_, htracked⟩
      rw [← Bool.not_eq_true]
      intro hins
      exact hup.inserted hins row hrow

/-- The channels a complete cycle ends were tracked before it. -/
theorem confirmed_tracked {channels : List DiscoveredChannel} {id : String}
    (h : id ∈ (c.validated (c.processed s channels)
      (channels.map DiscoveredChannel.channelID)).confirmed) :
    ∃ st, s.states.Has ⟨c.platform, id⟩ st := by
  simp only [Cycle.validated, validateEndedCandidates, List.mem_filter] at h
  obtain ⟨⟨key, st⟩, hsel, rfl⟩ := List.mem_map.mp h.1
  simp only [Table.mem_select, missed, decide_eq_true_eq] at hsel
  obtain ⟨hst, ⟨hplat, hmiss⟩, -⟩ := hsel
  refine ⟨st, ?_⟩
  rw [← hplat]
  exact (processed_unlisted (fun hl => hmiss hl.2) st).mp hst

theorem TrackInv.endPhase (h : TrackInv s.live s.sessions s.states) {active : List String}
    (hclose : ∀ id ∈ (c.validated s active).confirmed, c.close id ≠ .lost) :
    TrackInv (endPhase c s active).1.live (endPhase c s active).1.sessions
      (endPhase c s active).1.states := by
  have hpolled : TrackInv s.live s.sessions
      (resetMissedPolls c.platform (c.validated s active).verifiedLive
        (c.detected s active).states) :=
    (h.detect c.platform active false).reset c.platform _
  simp only [Discovery.endPhase]
  split
  · exact hpolled
  · split
    · exact hpolled
    · exact hpolled.markEnded _ _ _
    · exact (hpolled.markEnded _ _ _).commitEnded hclose

theorem TrackInv.cycle (h : TrackInv s.live s.sessions s.states)
    (hkeep : staysSettled C s (.cycle c) = true) :
    TrackInv (runDiscoveryCycle C s c).1.live (runDiscoveryCycle C s c).1.sessions
      (runDiscoveryCycle C s c).1.states := by
  simp only [staysSettled, decide_eq_true_eq, List.all_eq_true] at hkeep
  obtain ⟨hlists, hclose⟩ := hkeep
  -- A list that is written has settled channels only.
  have hset : ∀ channels isPartial, c.channels C = some (channels, isPartial) →
      c.leaseUpsert = true → c.upsert ≠ .failed →
      ∀ ch ∈ channels, settled s ⟨c.platform, ch.channelID⟩ = true := by
    intro channels isPartial hchannels hlease hupsert
    simp only [hchannels, Option.all_some, hlease, hupsert, decide_eq_true_eq] at hlists
    simpa using hlists
  have hprocessed : ∀ channels, (∀ ch ∈ channels,
      settled s ⟨c.platform, ch.channelID⟩ = true) →
      TrackInv (c.processed s channels).live (c.processed s channels).sessions
        (c.processed s channels).states := by
    intro channels hch
    obtain ⟨hinv, hkeys, hready⟩ := h.upserted hch
    exact hinv.processDiscovered channels hkeys hready
  generalize hrun : runDiscoveryCycle C s c = out
  cases hrun ▸ runDiscoveryCycle_run C s c with
  | skipped hout => exact h
  | lost channels isPartial hchannels hlease hupsert =>
    exact (h.upserted (hset channels isPartial hchannels hlease (by simp [hupsert]))).1
  | partial_ channels hchannels hlease hupsert =>
    exact (hprocessed channels
      (hset channels true hchannels hlease (by simp [hupsert]))).detect _ _ _
  | complete channels hchannels hlease hupsert =>
    refine (hprocessed channels
      (hset channels false hchannels hlease (by simp [hupsert]))).endPhase ?_
    intro id hid
    obtain ⟨st, hst⟩ := confirmed_tracked hid
    exact hclose ⟨c.platform, id⟩ (Table.mem_keys.mpr ⟨st, hst⟩)

/-! ## Recovery -/

theorem TrackInv.sublist {live : Db} {sessions sessions' : List BroadcastRow} {states : States}
    (h : TrackInv live sessions states)
    (hsub : ∀ key, (openRows sessions' key).Sublist (openRows sessions key)) :
    TrackInv live sessions' Table.empty where
  one key := Nat.le_trans (hsub key).length_le (h.one key)
  tracked _ _ hst := absurd hst (Table.has_empty _ _)
  row key b hb := h.row key b ((hsub key).subset hb)

theorem TrackInv.closeOrphans {states : States} (h : TrackInv s.live s.sessions states)
    (r : Recovery) : TrackInv s.live (r.closeOrphans s).1 Table.empty := by
  unfold Recovery.closeOrphans
  rcases call_cases r.orphans s.sessions
    (closeOrphanedSessions s.sessions (liveKeys s.live) r.now)
    with heq | ⟨value, hvalue, ⟨-, heq⟩ | heq⟩
  · rw [heq]
    exact h.sublist fun key => List.Sublist.refl _
  · rw [heq]
    apply h.sublist
    intro key
    rw [openRows_endSessions hvalue]
    exact List.filter_sublist
  · rw [heq]
    apply h.sublist
    intro key
    rw [openRows_endSessions hvalue]
    exact List.filter_sublist

/-- With one open session for each channel, recovery tracks them all and
closes none. -/
theorem recoverSessions_distinct (r : Recovery) {ordered : List BroadcastRow}
    (sessions : List BroadcastRow) {states : States}
    (hkeys : (ordered.map channelKey).Nodup)
    (hfree : ∀ b ∈ ordered, ∀ st, ¬ states.Has (channelKey b) st) :
    (recoverSessions r ordered sessions states).1 = sessions ∧
      ∀ key st, (recoverSessions r ordered sessions states).2.Has key st →
        states.Has key st ∨ ∃ b ∈ ordered, channelKey b = key ∧ b.sessionSeq = st.sessionSeq := by
  induction ordered generalizing states with
  | nil => exact ⟨rfl, fun key st h => Or.inl h⟩
  | cons b rest ih =>
    rw [List.map_cons, List.nodup_cons] at hkeys
    have hnone : states.find ⟨b.platform, b.channelID⟩ = none :=
      Table.find_eq_none_iff.mpr (hfree b List.mem_cons_self)
    rw [recoverSessions, hnone]
    have hrest : ∀ b' ∈ rest, ∀ st,
        ¬ (states.upsert ⟨b.platform, b.channelID⟩ ⟨b.sessionSeq, 0⟩).Has (channelKey b')
          st := by
      intro b' hb' st hst
      rcases Table.has_upsert.mp hst with ⟨heq, -⟩ | ⟨-, hold⟩
      · exact hkeys.1 (List.mem_map.mpr ⟨b', hb', heq⟩)
      · exact hfree b' (List.mem_cons_of_mem _ hb') st hold
    obtain ⟨hsame, htracked⟩ := ih hkeys.2 hrest
    refine ⟨hsame, ?_⟩
    intro key st hst
    rcases htracked key st hst with hup | ⟨b', hb', heq⟩
    · rcases Table.has_upsert.mp hup with ⟨hkey, rfl⟩ | ⟨-, hold⟩
      · exact Or.inr ⟨b, List.mem_cons_self, hkey.symm, rfl⟩
      · exact Or.inl hold
    · exact Or.inr ⟨b', List.mem_cons_of_mem _ hb', heq⟩

/-- One open session for each channel: the listed rows have distinct keys. -/
theorem listsOpen_nodup {ordered : List BroadcastRow} (h : ListsOpen rows ordered)
    (hone : ∀ key, (openRows rows key).length ≤ 1) : (ordered.map channelKey).Nodup := by
  rw [List.nodup_iff_count_le_one]
  intro key
  have hcount : (ordered.map channelKey).count key = (openRows rows key).length := by
    rw [List.count_eq_countP, List.countP_map, h.1.countP_eq, List.countP_filter,
      List.countP_eq_length_filter, openRows]
    congr 2
    funext b
    simp [beq_eq_decide]
  rw [hcount]
  exact hone key

theorem TrackInv.recover {states : States} (h : TrackInv s.live s.sessions states)
    {r : Recovery} (hlist : ListsOpen (r.closeOrphans s).1 r.ordered) :
    TrackInv (recoverState s r).live (recoverState s r).sessions
      (if (recoverState s r).ready then (recoverState s r).states else Table.empty) := by
  have hclosed := h.closeOrphans r
  unfold recoverState
  dsimp only
  split
  · obtain ⟨hsame, htracked⟩ := recoverSessions_distinct r (r.closeOrphans s).1
      (listsOpen_nodup hlist hclosed.one) (fun b _ st => Table.has_empty _ st)
    rw [if_pos rfl, hsame]
    refine { hclosed with tracked := ?_ }
    intro key st hst
    rcases htracked key st hst with hempty | ⟨b, hb, hkey, hseq⟩
    · exact absurd hempty (Table.has_empty _ _)
    · have hopen := hlist.1.subset hb
      rw [List.mem_filter, decide_eq_true_eq] at hopen
      exact ⟨b, mem_openRows.mpr ⟨hopen.1, hkey, hopen.2⟩, hseq⟩
  · exact hclosed

/-! ## Every run -/

/-- What session tracking promises: at most one open session for each channel,
one with the tracked number for a tracked channel, and the number of the live
row unless that has ended. -/
structure Tracking (s : State) : Prop where
  one : ∀ key, (openRows s.sessions key).length ≤ 1
  tracked : ∀ key st, s.states.Has key st →
    ∃ b, openRows s.sessions key = [b] ∧ b.sessionSeq = st.sessionSeq
  seq : ∀ key st row, s.states.Has key st → s.live.channels.Has key row →
    row.status ≠ .ended → st.sessionSeq = row.currentSessionSeq

theorem TrackInv.tracking (h : TrackInv s.live s.sessions s.states) : Tracking s where
  one := h.one
  tracked _ _ hst := h.single hst
  seq key st row hst hrow hopen := by
    obtain ⟨b, hb, hseq⟩ := h.tracked key st hst
    obtain ⟨row', hrow', hsame⟩ := h.row key b hb
    rw [hrow'.unique hrow] at hsame
    rw [← hseq]
    exact (hsame hopen).symm

def settledMachine (C : Config) : Machine State Input Output :=
  (machine C).restrict fun s i => staysSettled C s i = true

instance (C : Config) (s : State) (i : Input) : Decidable ((settledMachine C).admits s i) :=
  inferInstanceAs (Decidable (admits s i ∧ staysSettled C s i = true))

/-- The invariant of a run.  Between a failed recovery and the next one the
emitter's memory does not count. -/
def RunInv (s : State) : Prop :=
  TrackInv s.live s.sessions (if s.ready then s.states else Table.empty)

theorem RunInv.init : RunInv State.init where
  one _ := Nat.zero_le 1
  tracked _ _ hst := absurd hst (Table.has_empty _ _)
  row _ _ hb := by cases hb

theorem cycle_ready (C : Config) (s : State) (c : Cycle) :
    (runDiscoveryCycle C s c).1.ready = s.ready := by
  generalize hrun : runDiscoveryCycle C s c = out
  cases hrun ▸ runDiscoveryCycle_run C s c with
  | skipped | lost | partial_ => rfl
  | complete channels _ _ _ =>
    simp only [endPhase]
    split
    · rfl
    · split <;> rfl

theorem RunInv.step (h : RunInv s) {i : Input} (hi : (settledMachine C).admits s i) :
    RunInv (Discovery.step C s i).1 := by
  cases i with
  | cycle c =>
    have hready : s.ready = true := hi.1
    have hkept : (runDiscoveryCycle C s c).1.ready = s.ready := cycle_ready C s c
    unfold RunInv at h ⊢
    rw [hready, if_pos rfl] at h
    simp only [Discovery.step, hkept, hready, if_pos]
    exact h.cycle hi.2
  | recover r => exact TrackInv.recover h hi.1
  | optOutEnd now key => exact TrackInv.optOutEnd h now key

/-- If no cycle writes a list that has a channel with an open session which is
not tracked or whose row has ended, and no `CloseSession` of a tracked channel
fails after it took effect, the three stores agree after every cycle and every
successful recovery. -/
theorem sessions_tracked (C : Config) (tr : List (Input × Output)) (s : State)
    (hr : (settledMachine C).Run State.init tr s) (hready : s.ready = true) : Tracking s := by
  have hinv : RunInv s :=
    hr.invariant (I := RunInv) (fun _ _ h hi => h.step hi) RunInv.init
  rw [RunInv, hready, if_pos rfl] at hinv
  exact hinv.tracking

/-! ## A session without metadata -/

/-- The first metadata row of a new session cannot be written; in the next
cycle everything succeeds. -/
def secondRun : State × List (Input × Output) :=
  (machine fixtureConfig).exec State.init
    [ .recover (fixtureRecovery [])
    , .cycle { fixtureCycle 10 [fixtureChannel] with
        calls := fun _ => ⟨.answered, false, .answered⟩ }
    , .cycle (fixtureCycle 20 [fixtureChannel]) ]

theorem second_session :
    (machine fixtureConfig).Run State.init secondRun.2 secondRun.1 ∧
      secondRun.1.ready = true ∧
      openRows secondRun.1.sessions fixtureKey =
        [ ⟨.soop, "fixture_channel", 10, 0, 10, 10, none⟩
        , ⟨.soop, "fixture_channel", 20, 0, 20, 20, none⟩ ] ∧
      ¬ Tracking secondRun.1 := by
  have hrows : openRows secondRun.1.sessions fixtureKey =
      [ ⟨.soop, "fixture_channel", 10, 0, 10, 10, none⟩
      , ⟨.soop, "fixture_channel", 20, 0, 20, 20, none⟩ ] := by decide
  refine ⟨Machine.run_exec _ _ (by decide), by decide, hrows, ?_⟩
  intro h
  have hone := h.one fixtureKey
  rw [hrows] at hone
  exact absurd hone (by decide)

/-- A channel is tracked, ended and seen again, and a new leader takes over. -/
def settledRun : State × List (Input × Output) :=
  (settledMachine fixtureConfig).exec State.init
    [ .recover (fixtureRecovery []), .cycle (fixtureCycle 10 [fixtureChannel])
    , .cycle (fixtureCycle 20 []), .cycle (fixtureCycle 30 [])
    , .cycle (fixtureCycle 40 [fixtureChannel])
    , .recover (fixtureRecovery [⟨.soop, "fixture_channel", 40, 1, 40, 40, none⟩]) ]

theorem sessions_tracked_settledRun :
    settledRun.1.states.find fixtureKey = some ⟨1, 0⟩ ∧ Tracking settledRun.1 :=
  ⟨by decide, sessions_tracked _ _ _ (Machine.run_exec _ _ (by decide)) (by decide)⟩

end RogiCollector.Ports.Discovery
