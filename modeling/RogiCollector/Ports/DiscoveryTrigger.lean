import Mathlib.Logic.Function.Iterate
import RogiCollector.Verified.Machine

/-!
# Triggers of the discovery loops

`onBecomeLeader` of `discover/internal/discover.go` starts a loop for each platform
the allowlist has channels for, with a channel of capacity one that triggers it, and
`TriggerDiscoveryForPlatform` puts a signal into the channel of one platform.

The channels are in the order of the loops, and the trigger takes the one at the
index of the platform among all discoveries.  The two agree as long as no platform
before it was skipped.
-/

namespace RogiCollector.Ports.DiscoveryTrigger

open Verified

/-! ## Loops and triggers -/

/-- The allowlist, a set of channels for each platform; `none` is no allowlist. -/
abbrev Allowlist := Option (String → List String)

/-- The platform is not skipped. -/
def Allowlist.lists (allowlist : Allowlist) (platform : String) : Bool :=
  allowlist.all fun channels => !(channels platform).isEmpty

/-- A loop, with the number of signals in its channel. -/
structure Loop where
  platform : String
  pending : Nat
  deriving Repr, DecidableEq

/-- The loops that `onBecomeLeader` starts, in the order of `triggerChs`. -/
def onBecomeLeader (discoveries : List String) (allowlist : Allowlist) : List Loop :=
  (discoveries.filter allowlist.lists).map fun platform => ⟨platform, 0⟩

/-- A send that gives up when the channel is full. -/
def Loop.send (l : Loop) : Loop :=
  if l.pending < 1 then { l with pending := l.pending + 1 } else l

def triggerDiscovery (loops : List Loop) : List Loop := loops.map Loop.send

def triggerDiscoveryForPlatform (discoveries : List String) (loops : List Loop)
    (platform : String) : List Loop :=
  if platform = "" then triggerDiscovery loops
  else
    match discoveries.findIdx? fun p => p = platform with
    | none => loops
    | some i => if loops.length ≤ i then loops else loops.modify i Loop.send

inductive Input
  | trigger (platform : String)
  /-- A loop takes the signal out of its channel. -/
  | consume (k : Nat)
  deriving Repr, DecidableEq

/-- The loops of a leader. -/
def machine (discoveries : List String) : Machine (List Loop) Input Unit where
  admits _ _ := True
  step loops
    | .trigger platform => (triggerDiscoveryForPlatform discoveries loops platform, ())
    | .consume k => (loops.modify k fun l => { l with pending := l.pending - 1 }, ())

/-! ## The loops in every state -/

/-- The platforms of the loops, each with at most one signal. -/
structure Loops (platforms : List String) (loops : List Loop) : Prop where
  platforms : loops.map Loop.platform = platforms
  pending : ∀ l ∈ loops, l.pending ≤ 1

variable {platforms : List String}

theorem Loops.modify {loops : List Loop} (h : Loops platforms loops) (k : Nat) {f : Loop → Loop}
    (hplatform : ∀ l, (f l).platform = l.platform)
    (hpending : ∀ l, l.pending ≤ 1 → (f l).pending ≤ 1) : Loops platforms (loops.modify k f) where
  platforms := by
    rw [← h.platforms]
    apply List.ext_getElem?
    intro j
    rw [List.getElem?_map, List.getElem?_map, List.getElem?_modify, Option.map_eq_map,
      Option.map_map]
    congr 1
    funext l
    by_cases hj : k = j
    · simp only [Function.comp, hj, if_true, hplatform]
    · simp only [Function.comp, hj, if_false]
  pending l hl := by
    rcases mem_modify hl with hold | ⟨l', hl', rfl⟩
    · exact h.pending l hold
    · exact hpending l' (h.pending l' (List.mem_of_getElem? hl'))

theorem send_platform (l : Loop) : l.send.platform = l.platform := by
  unfold Loop.send
  split <;> rfl

theorem send_pending (l : Loop) (h : l.pending ≤ 1) : l.send.pending = 1 := by
  unfold Loop.send
  split
  · simp only
    omega
  · omega

theorem Loops.send_all {loops : List Loop} (h : Loops platforms loops) :
    Loops platforms (triggerDiscovery loops) where
  platforms := by
    rw [triggerDiscovery, List.map_map, ← h.platforms]
    exact List.map_congr_left fun l _ => send_platform l
  pending l hl := by
    obtain ⟨l', hl', rfl⟩ := List.mem_map.mp hl
    exact Nat.le_of_eq (send_pending l' (h.pending l' hl'))

theorem Loops.trigger {loops : List Loop} (h : Loops platforms loops)
    (discoveries : List String) (platform : String) :
    Loops platforms (triggerDiscoveryForPlatform discoveries loops platform) := by
  unfold triggerDiscoveryForPlatform
  split
  · exact h.send_all
  · split
    · exact h
    · split
      · exact h
      · exact h.modify _ send_platform fun l hl => Nat.le_of_eq (send_pending l hl)

theorem loops_init (discoveries : List String) (allowlist : Allowlist) :
    Loops (discoveries.filter allowlist.lists) (onBecomeLeader discoveries allowlist) where
  platforms := by simp [onBecomeLeader, Function.comp_def]
  pending l hl := by
    obtain ⟨platform, -, rfl⟩ := List.mem_map.mp hl
    exact Nat.zero_le _

theorem run_loops {discoveries : List String} {allowlist : Allowlist}
    {tr : List (Input × Unit)} {loops : List Loop}
    (hr : (machine discoveries).Run (onBecomeLeader discoveries allowlist) tr loops) :
    Loops (discoveries.filter allowlist.lists) loops := by
  refine hr.invariant ?_ (loops_init discoveries allowlist)
  intro loops i h _
  cases i with
  | trigger platform => exact h.trigger discoveries platform
  | consume k =>
    refine h.modify k (fun _ => rfl) ?_
    intro l hl
    exact Nat.le_trans (Nat.sub_le _ _) hl

/-! ## Triggers and their loops -/

/-- A signal for the loops of the platform, and for no other. -/
def signalled (loops : List Loop) (platform : String) : List Loop :=
  loops.map fun l => if l.platform = platform then { l with pending := 1 } else l

/-- However often a trigger is repeated, the loop of its platform has one signal, and
the other loops are left alone. -/
def Reaches (discoveries : List String) (allowlist : Allowlist) (platform : String) : Prop :=
  ∀ tr loops, (machine discoveries).Run (onBecomeLeader discoveries allowlist) tr loops →
    ∀ n, (fun loops => triggerDiscoveryForPlatform discoveries loops platform)^[n + 1] loops =
      signalled loops platform

/-- The platform and its loop have the same index: if it has a loop, no platform before
it was skipped; if it has none, there are no more loops than platforms before it. -/
def aligned (discoveries : List String) (allowlist : Allowlist) (platform : String) : Bool :=
  match discoveries.findIdx? fun p => p = platform with
  | none => true
  | some i =>
    if allowlist.lists platform then (discoveries.take i).all allowlist.lists
    else (discoveries.filter allowlist.lists).length ≤ i

section Aligned

variable {discoveries pre post : List String} {allowlist : Allowlist} {platform : String}
  {loops : List Loop}

/-- The first place of the platform among the discoveries. -/
theorem findIdx_split {i : Nat} (h : (discoveries.findIdx? fun p => p = platform) = some i) :
    ∃ pre post, discoveries = pre ++ platform :: post ∧ pre.length = i := by
  obtain ⟨hlt, heq, -⟩ := List.findIdx?_eq_some_iff_getElem.mp h
  refine ⟨discoveries.take i, discoveries.drop (i + 1), ?_, ?_⟩
  · rw [← of_decide_eq_true heq, ← List.drop_eq_getElem_cons hlt, List.take_append_drop]
  · exact List.length_take_of_le (Nat.le_of_lt hlt)

theorem signalled_of_absent (h : ∀ l ∈ loops, l.platform ≠ platform) :
    signalled loops platform = loops := by
  conv_rhs => rw [← List.map_id loops]
  refine List.map_congr_left fun l hl => ?_
  rw [if_neg (h l hl), id]

/-- A send to the loop of the platform. -/
theorem modify_eq_signalled {k : Nat} (hpending : ∀ l ∈ loops, l.pending ≤ 1)
    (hown : ∀ j l, loops[j]? = some l → (l.platform = platform ↔ j = k)) :
    loops.modify k Loop.send = signalled loops platform := by
  apply List.ext_getElem?
  intro j
  rw [signalled, List.getElem?_map, List.getElem?_modify, Option.map_eq_map]
  cases hj : loops[j]? with
  | none => rfl
  | some l =>
    rw [Option.map_some, Option.map_some]
    by_cases hkj : k = j
    · rw [if_pos hkj, if_pos ((hown j l hj).mpr hkj.symm)]
      have hsend := send_pending l (hpending l (List.mem_of_getElem? hj))
      have hplatform := send_platform l
      cases hl : l.send with
      | mk platform' pending' =>
        rw [hl] at hsend hplatform
        simp only at hsend hplatform
        rw [hsend, hplatform]
    · rw [if_neg hkj, if_neg fun h => hkj ((hown j l hj).mp h).symm]

/-- Where the loop of a platform is. -/
theorem own_loop (hnodup : (pre ++ platform :: post).Nodup)
    (hlists : allowlist.lists platform = true)
    (h : Loops ((pre ++ platform :: post).filter allowlist.lists) loops) :
    (pre.filter allowlist.lists).length < loops.length ∧
      ∀ j l, loops[j]? = some l →
        (l.platform = platform ↔ j = (pre.filter allowlist.lists).length) := by
  have hplatforms := h.platforms
  rw [List.filter_append, List.filter_cons_of_pos hlists] at hplatforms
  have hnodup' : (loops.map Loop.platform).Nodup := h.platforms ▸ hnodup.filter _
  have hk : (loops.map Loop.platform)[(pre.filter allowlist.lists).length]? = some platform := by
    rw [hplatforms, List.getElem?_append_right (Nat.le_refl _), Nat.sub_self]
    rfl
  have hlt : (pre.filter allowlist.lists).length < (loops.map Loop.platform).length :=
    (List.getElem?_eq_some_iff.mp hk).1
  refine ⟨List.length_map Loop.platform ▸ hlt, ?_⟩
  intro j l hj
  have hj' : (loops.map Loop.platform)[j]? = some l.platform := by
    rw [List.getElem?_map, hj, Option.map_some]
  constructor
  · rintro rfl
    exact ((List.getElem?_inj hlt hnodup').mp (hk.trans hj'.symm)).symm
  · rintro rfl
    exact Option.some.inj (hj'.symm.trans hk)

theorem absent_of_skipped (h : Loops (discoveries.filter allowlist.lists) loops)
    (hskipped : allowlist.lists platform = false) : ∀ l ∈ loops, l.platform ≠ platform := by
  rintro l hl rfl
  have hmem : l.platform ∈ discoveries.filter allowlist.lists :=
    h.platforms ▸ List.mem_map_of_mem hl
  rw [(List.mem_filter.mp hmem).2] at hskipped
  cases hskipped

theorem absent_of_unknown (h : Loops (discoveries.filter allowlist.lists) loops)
    (hnone : (discoveries.findIdx? fun p => p = platform) = none) :
    ∀ l ∈ loops, l.platform ≠ platform := by
  rintro l hl rfl
  have hmem : l.platform ∈ discoveries.filter allowlist.lists :=
    h.platforms ▸ List.mem_map_of_mem hl
  have hne := List.findIdx?_eq_none_iff.mp hnone l.platform (List.mem_filter.mp hmem).1
  exact of_decide_eq_false hne rfl

/-- The trigger of a platform at its place among the discoveries. -/
theorem trigger_eq (hplatform : platform ≠ "")
    (hindex : (discoveries.findIdx? fun p => p = platform) = some pre.length) :
    triggerDiscoveryForPlatform discoveries loops platform =
      if loops.length ≤ pre.length then loops else loops.modify pre.length Loop.send := by
  rw [triggerDiscoveryForPlatform, if_neg hplatform, hindex]

/-- A platform with a loop. -/
theorem trigger_started (hplatform : platform ≠ "") (hnodup : (pre ++ platform :: post).Nodup)
    (hindex : ((pre ++ platform :: post).findIdx? fun p => p = platform) = some pre.length)
    (hlists : allowlist.lists platform = true)
    (h : Loops ((pre ++ platform :: post).filter allowlist.lists) loops)
    (hall : pre.all allowlist.lists = true) :
    triggerDiscoveryForPlatform (pre ++ platform :: post) loops platform =
      signalled loops platform := by
  obtain ⟨hlt, hown⟩ := own_loop hnodup hlists h
  have hpre : pre.filter allowlist.lists = pre :=
    List.filter_eq_self.mpr (List.all_eq_true.mp hall)
  rw [hpre] at hlt hown
  rw [trigger_eq hplatform hindex, if_neg (Nat.not_le.mpr hlt)]
  exact modify_eq_signalled h.pending hown

/-- A platform without one. -/
theorem trigger_skipped (hplatform : platform ≠ "")
    (hindex : (discoveries.findIdx? fun p => p = platform) = some pre.length)
    (hskipped : allowlist.lists platform = false)
    (h : Loops (discoveries.filter allowlist.lists) loops)
    (hfew : (discoveries.filter allowlist.lists).length ≤ pre.length) :
    triggerDiscoveryForPlatform discoveries loops platform = signalled loops platform := by
  have hlength : loops.length = (discoveries.filter allowlist.lists).length := by
    rw [← h.platforms, List.length_map]
  rw [trigger_eq hplatform hindex, if_pos (hlength ▸ hfew), signalled_of_absent]
  exact absent_of_skipped h hskipped

theorem trigger_aligned (hplatform : platform ≠ "") (hnodup : discoveries.Nodup)
    (h : Loops (discoveries.filter allowlist.lists) loops)
    (haligned : aligned discoveries allowlist platform = true) :
    triggerDiscoveryForPlatform discoveries loops platform = signalled loops platform := by
  rw [aligned] at haligned
  split at haligned
  · rename_i hnone
    rw [triggerDiscoveryForPlatform, if_neg hplatform, hnone, signalled_of_absent]
    exact absent_of_unknown h hnone
  · rename_i i hindex
    obtain ⟨pre, post, rfl, rfl⟩ := findIdx_split hindex
    split at haligned
    · rename_i hlists
      rw [List.take_left] at haligned
      exact trigger_started hplatform hnodup hindex hlists h haligned
    · rename_i hskipped
      exact trigger_skipped hplatform hindex (Bool.not_eq_true _ ▸ hskipped) h
        (of_decide_eq_true haligned)

/-- A platform with a loop, whose first trigger reaches it. -/
theorem all_of_trigger (hplatform : platform ≠ "") (hnodup : (pre ++ platform :: post).Nodup)
    (hindex : ((pre ++ platform :: post).findIdx? fun p => p = platform) = some pre.length)
    (hlists : allowlist.lists platform = true)
    (hloops : Loops ((pre ++ platform :: post).filter allowlist.lists) loops)
    (hidle : ∀ l ∈ loops, l.pending = 0)
    (h : triggerDiscoveryForPlatform (pre ++ platform :: post) loops platform =
      signalled loops platform) : pre.all allowlist.lists = true := by
  obtain ⟨hlt, hown⟩ := own_loop hnodup hlists hloops
  by_contra hall
  -- The loop is at the number of loops before it, which is less than its place.
  have hless : (pre.filter allowlist.lists).length < pre.length := by
    rw [List.length_filter_lt_length_iff_exists]
    simpa using hall
  obtain ⟨l, hl⟩ : ∃ l, loops[(pre.filter allowlist.lists).length]? = some l :=
    ⟨_, List.getElem?_eq_getElem hlt⟩
  have hkept : (triggerDiscoveryForPlatform (pre ++ platform :: post) loops platform)[
      (pre.filter allowlist.lists).length]? = some l := by
    rw [trigger_eq hplatform hindex]
    split
    · exact hl
    · rw [List.getElem?_modify, hl, Option.map_eq_map, Option.map_some,
        if_neg (Nat.ne_of_gt hless)]
  rw [h, signalled, List.getElem?_map, hl, Option.map_some,
    if_pos ((hown _ l hl).mpr rfl)] at hkept
  have hpending := congrArg Loop.pending (Option.some.inj hkept)
  rw [hidle l (List.mem_of_getElem? hl)] at hpending
  cases hpending

/-- A platform without a loop, whose first trigger reaches none. -/
theorem few_of_trigger (hplatform : platform ≠ "")
    (hindex : (discoveries.findIdx? fun p => p = platform) = some pre.length)
    (hskipped : allowlist.lists platform = false)
    (hloops : Loops (discoveries.filter allowlist.lists) loops)
    (hidle : ∀ l ∈ loops, l.pending = 0)
    (h : triggerDiscoveryForPlatform discoveries loops platform = signalled loops platform) :
    (discoveries.filter allowlist.lists).length ≤ pre.length := by
  have hlength : loops.length = (discoveries.filter allowlist.lists).length := by
    rw [← hloops.platforms, List.length_map]
  rw [← hlength]
  by_contra hmany
  obtain ⟨l, hl⟩ : ∃ l, loops[pre.length]? = some l :=
    ⟨_, List.getElem?_eq_getElem (Nat.not_le.mp hmany)⟩
  rw [trigger_eq hplatform hindex, if_neg hmany,
    signalled_of_absent (absent_of_skipped hloops hskipped)] at h
  have hsent : (loops.modify pre.length Loop.send)[pre.length]? = some l.send := by
    rw [List.getElem?_modify, hl, Option.map_eq_map, Option.map_some, if_pos rfl]
  rw [h, hl] at hsent
  have hidle := hidle l (List.mem_of_getElem? hl)
  have hpending := congrArg Loop.pending (Option.some.inj hsent)
  rw [send_pending l (by omega), hidle] at hpending
  cases hpending

theorem aligned_of_trigger (hplatform : platform ≠ "") (hnodup : discoveries.Nodup)
    (h : triggerDiscoveryForPlatform discoveries (onBecomeLeader discoveries allowlist) platform =
      signalled (onBecomeLeader discoveries allowlist) platform) :
    aligned discoveries allowlist platform = true := by
  have hloops := loops_init discoveries allowlist
  have hidle : ∀ l ∈ onBecomeLeader discoveries allowlist, l.pending = 0 := by
    intro l hl
    obtain ⟨p, -, rfl⟩ := List.mem_map.mp hl
    rfl
  rw [aligned]
  split
  · rfl
  · rename_i i hindex
    obtain ⟨pre, post, rfl, rfl⟩ := findIdx_split hindex
    split
    · rename_i hlists
      rw [List.take_left]
      exact all_of_trigger hplatform hnodup hindex hlists hloops hidle h
    · rename_i hskipped
      rw [Bool.not_eq_true] at hskipped
      exact decide_eq_true (few_of_trigger hplatform hindex hskipped hloops hidle h)

theorem Loops.signalled (h : Loops platforms loops) :
    Loops platforms (signalled loops platform) where
  platforms := by
    rw [DiscoveryTrigger.signalled, List.map_map, ← h.platforms]
    refine List.map_congr_left fun l _ => ?_
    simp only [Function.comp]
    split <;> rfl
  pending l hl := by
    obtain ⟨l', hl', rfl⟩ := List.mem_map.mp hl
    split
    · exact Nat.le_refl _
    · exact h.pending l' hl'

theorem signalled_signalled : signalled (signalled loops platform) platform =
    signalled loops platform := by
  rw [signalled, signalled, List.map_map]
  refine List.map_congr_left fun l _ => ?_
  by_cases h : l.platform = platform
  · simp only [Function.comp, h, if_true]
  · simp only [Function.comp, h, if_false]

end Aligned

/-- The triggers of a platform reach its loop and no other if and only if the platform
is aligned with its loop. -/
theorem trigger_own (discoveries : List String) (hdistinct : discoveries.Nodup)
    (allowlist : Allowlist) (platform : String) (hplatform : platform ≠ "") :
    Reaches discoveries allowlist platform ↔ aligned discoveries allowlist platform = true := by
  constructor
  · intro h
    exact aligned_of_trigger hplatform hdistinct (h [] _ Machine.Run.nil 0)
  · intro haligned tr loops hr n
    have hloops := run_loops hr
    induction n with
    | zero => exact trigger_aligned hplatform hdistinct hloops haligned
    | succ n ih =>
      rw [Function.iterate_succ_apply', ih]
      rw [trigger_aligned hplatform hdistinct hloops.signalled haligned, signalled_signalled]

/-- Of two platforms one has channels in the allowlist. -/
def soopOnly : Allowlist := some fun platform => if platform = "soop" then ["synthetic-a"] else []

theorem trigger_own_first : Reaches ["soop", "chzzk"] soopOnly "soop" :=
  (trigger_own ["soop", "chzzk"] (by decide) soopOnly "soop" (by decide)).mpr (by decide)

/-- The platform behind the one that was skipped gets no signal, and the one that was
skipped gives its signal to the other's loop. -/
theorem trigger_other :
    triggerDiscoveryForPlatform ["chzzk", "soop"] (onBecomeLeader ["chzzk", "soop"] soopOnly)
        "soop" = [⟨"soop", 0⟩] ∧
      triggerDiscoveryForPlatform ["chzzk", "soop"] (onBecomeLeader ["chzzk", "soop"] soopOnly)
        "chzzk" = [⟨"soop", 1⟩] ∧
      ¬Reaches ["chzzk", "soop"] soopOnly "soop" := by
  refine ⟨by decide, by decide, ?_⟩
  intro h
  have hfirst := h [] _ Machine.Run.nil 0
  revert hfirst
  decide

end RogiCollector.Ports.DiscoveryTrigger
