import RogiCollector.Verified.Machine

/-!
# Leader leases and their fencing tokens

The scripts of `shared/store/redis.go` that elect a leader of the discovery
service.  Three keys are involved: who leads, the token of the lease, and the
counter tokens are drawn from.  The first two expire; a script runs at one
instant, so keys it gives the same time to live expire together.

A token that was overtaken is never valid again, because every lease draws its
token from a counter that only grows.  What has to be shown is that the token
in `…:fence` is always the one its holder was given: the three scripts read
and write the two expiring keys separately.

A token passes through a number of Lua, which is exact up to `2 ^ 53`, and then
fits the `int64` of the answer; the runs are those that draw no more tokens.
-/

namespace RogiCollector.Ports.LeaderLease

open Verified

/-! ## The scripts -/

/-- The keys `leaderKey`, `leaderKey:fence` and `leaderKey:fence:counter`; the
first two with the last millisecond at which they can be read. -/
structure Keys where
  now : Nat
  leader : Option (String × Nat)
  fence : Option (Nat × Nat)
  counter : Nat
  deriving Repr, DecidableEq

def Keys.init : Keys := ⟨0, none, none, 0⟩

structure LeaderLeaseResult where
  held : Bool
  token : Nat
  deriving Repr, DecidableEq

/-- `PEXPIRE`: a time to live that is not positive deletes the key. -/
def pexpire {α : Type} (now : Nat) (ttl : Int) (key : Option (α × Nat)) : Option (α × Nat) :=
  if ttl ≤ 0 then none else key.map fun k => (k.1, now + ttl.toNat)

/-- `acquireLeaderScript`.  `PSETEX` refuses a time to live that is not
positive; the script stops there and what `INCR` did stays. -/
def tryAcquireLeaderLease (k : Keys) (instanceID : String) (ttl : Int) :
    Keys × Option LeaderLeaseResult :=
  match k.leader with
  | none =>
    let token := k.counter + 1
    if ttl ≤ 0 then ({ k with counter := token }, none)
    else
      ({ k with
         counter := token
         leader := some (instanceID, k.now + ttl.toNat)
         fence := some (token, k.now + ttl.toNat) }, some ⟨true, token⟩)
  | some _ =>
    match k.fence with
    | some (token, _) => (k, some ⟨false, token⟩)
    | none => (k, some ⟨false, 0⟩)

/-- `renewLeaderScript`. -/
def renewLeaderLease (k : Keys) (instanceID : String) (ttl : Int) :
    Keys × Option LeaderLeaseResult :=
  if k.leader.map Prod.fst = some instanceID then
    match k.fence with
    | none =>
      -- The branch that mints a token.
      let token := k.counter + 1
      if ttl ≤ 0 then ({ k with counter := token }, none)
      else
        ({ k with
           counter := token
           fence := some (token, k.now + ttl.toNat)
           leader := pexpire k.now ttl k.leader }, some ⟨true, token⟩)
    | some (token, deadline) =>
      ({ k with
         fence := pexpire k.now ttl (some (token, deadline))
         leader := pexpire k.now ttl k.leader }, some ⟨true, token⟩)
  else (k, some ⟨false, 0⟩)

/-- `releaseLeaderScript`. -/
def releaseLeaderLease (k : Keys) (instanceID : String) : Keys × Bool :=
  if k.leader.map Prod.fst = some instanceID then ({ k with leader := none, fence := none }, true)
  else (k, false)

def validateLeaderLease (k : Keys) (token : Nat) : Bool :=
  match k.fence with
  | none => false
  | some (value, _) => value = token

/-- Keys whose time has passed are gone. -/
def expire {α : Type} (now : Nat) (key : Option (α × Nat)) : Option (α × Nat) :=
  key.filter fun k => now ≤ k.2

/-- Time passes. -/
def Keys.tick (k : Keys) (elapsed : Nat) : Keys :=
  { k with
    now := k.now + elapsed
    leader := expire (k.now + elapsed) k.leader
    fence := expire (k.now + elapsed) k.fence }

/-! ## Any number of instances -/

/-- A step: a script of one instance, a read, or time passing. -/
inductive Input where
  | acquire (instanceID : String) (ttl : Int)
  | renew (instanceID : String) (ttl : Int)
  | release (instanceID : String)
  | validate (token : Nat)
  | tick (elapsed : Nat)
  deriving Repr, DecidableEq

/-- What the instance learns; `lease none` is an error of the script. -/
inductive Output where
  | lease (result : Option LeaderLeaseResult)
  | released (ok : Bool)
  | valid (ok : Bool)
  | quiet
  deriving Repr, DecidableEq

def step (k : Keys) : Input → Keys × Output
  | .acquire id ttl =>
    ((tryAcquireLeaderLease k id ttl).1, .lease (tryAcquireLeaderLease k id ttl).2)
  | .renew id ttl => ((renewLeaderLease k id ttl).1, .lease (renewLeaderLease k id ttl).2)
  | .release id => ((releaseLeaderLease k id).1, .released (releaseLeaderLease k id).2)
  | .validate token => (k, .valid (validateLeaderLease k token))
  | .tick elapsed => (k.tick elapsed, .quiet)

/-- `2 ^ 53`, the last token that Lua returns as `INCR` drew it. -/
def maxToken : Nat := 9007199254740992

/-- Instances around the three keys. -/
def machine : Machine Keys Input Output where
  admits k i := (step k i).1.counter ≤ maxToken
  step := step

instance (k : Keys) (i : Input) : Decidable (machine.admits k i) :=
  inferInstanceAs (Decidable ((step k i).1.counter ≤ maxToken))

variable {k k' : Keys} {tr : List (Input × Output)}

/-! ## Leases in the history -/

/-- A successful acquire: by whom, and its token. -/
def acquired : Input × Output → Option (String × Nat)
  | (.acquire id _, .lease (some ⟨true, token⟩)) => some (id, token)
  | _ => none

/-- Every lease, oldest first. -/
def leases (tr : List (Input × Output)) : List (String × Nat) := tr.filterMap acquired

/-- The token of an instance's latest lease. -/
def latest (tr : List (Input × Output)) (id : String) : Option Nat :=
  ((leases tr).filter fun lease => lease.1 = id).getLast?.map Prod.snd

@[simp] theorem leases_snoc (tr : List (Input × Output)) (e : Input × Output) :
    leases (tr ++ [e]) = leases tr ++ (acquired e).toList := by
  simp only [leases, List.filterMap_append, List.filterMap_cons, List.filterMap_nil]
  cases acquired e <;> rfl

variable {e : Input × Output} {token : Nat}

theorem latest_snoc_acquired {id : String} (he : acquired e = some (id, token)) :
    latest (tr ++ [e]) id = some token := by
  simp [latest, he]

theorem latest_snoc_other (he : acquired e = none) (id : String) :
    latest (tr ++ [e]) id = latest tr id := by
  simp [latest, he]

/-! ## The invariant -/

/-- How the two expiring keys go together, with the history. -/
inductive Together (tr : List (Input × Output)) (k : Keys) : Prop
  | free (hleader : k.leader = none) (hfence : k.fence = none)
  | held (id : String) (deadline : Nat) (hleader : k.leader = some (id, deadline))
      (hfence : k.fence = some (k.counter, deadline)) (hlatest : latest tr id = some k.counter)

/-- What holds of the keys and the leases granted so far. -/
structure FenceInv (tr : List (Input × Output)) (k : Keys) : Prop where
  together : Together tr k
  increasing : (leases tr).Pairwise fun a b => a.2 < b.2
  counted : ∀ lease ∈ leases tr, lease.2 ≤ k.counter

theorem FenceInv.init : FenceInv [] Keys.init :=
  ⟨.free rfl rfl, List.Pairwise.nil, by simp [leases]⟩

/-- A step that grants no lease and draws at most one token. -/
theorem FenceInv.other (h : FenceInv tr k) (he : acquired e = none)
    (hcounter : k.counter ≤ k'.counter) (ht : Together (tr ++ [e]) k') :
    FenceInv (tr ++ [e]) k' := by
  refine ⟨ht, ?_, ?_⟩
  · simpa [he] using h.increasing
  · intro lease hlease
    simp only [leases_snoc, he, Option.toList_none, List.append_nil] at hlease
    exact Nat.le_trans (h.counted lease hlease) hcounter

theorem Together.snoc (h : Together tr k) (he : acquired e = none) : Together (tr ++ [e]) k := by
  cases h with
  | free hleader hfence => exact .free hleader hfence
  | held holder deadline hleader hfence hlatest =>
    exact .held holder deadline hleader hfence ((latest_snoc_other he _).trans hlatest)

/-- A step that leaves the keys alone. -/
theorem FenceInv.same (h : FenceInv tr k) (he : acquired e = none) : FenceInv (tr ++ [e]) k :=
  h.other he (Nat.le_refl _) (h.together.snoc he)

/-- Keys with one deadline expire together. -/
theorem Together.tick (h : Together tr k) (he : acquired e = none) (elapsed : Nat) :
    Together (tr ++ [e]) (k.tick elapsed) := by
  cases h with
  | free hleader hfence =>
    exact .free (by simp [Keys.tick, expire, hleader]) (by simp [Keys.tick, expire, hfence])
  | held id deadline hleader hfence hlatest =>
    by_cases halive : deadline < k.now + elapsed
    · exact .free (by simp [Keys.tick, expire, hleader, halive])
        (by simp [Keys.tick, expire, hfence, halive])
    · rw [Nat.not_lt] at halive
      exact .held id deadline (by simp [Keys.tick, expire, hleader, halive])
        (by simp [Keys.tick, expire, hfence, halive]) (by rw [latest_snoc_other he]; exact hlatest)

theorem FenceInv.acquire (h : FenceInv tr k) (id : String) (ttl : Int) :
    FenceInv (tr ++ [(.acquire id ttl, .lease (tryAcquireLeaderLease k id ttl).2)])
      (tryAcquireLeaderLease k id ttl).1 := by
  cases h.together with
  | free hleader hfence =>
    by_cases httl : ttl ≤ 0
    · simp only [tryAcquireLeaderLease, hleader, httl, if_true]
      exact h.other rfl (Nat.le_succ _) (.free rfl hfence)
    · simp only [tryAcquireLeaderLease, hleader, httl, if_false]
      refine ⟨.held id _ rfl rfl (latest_snoc_acquired rfl), ?_, ?_⟩
      · rw [leases_snoc]
        refine List.pairwise_append.mpr ⟨h.increasing, by simp [acquired], ?_⟩
        intro lease hlease new hnew
        obtain rfl : new = (id, k.counter + 1) := by simpa [acquired] using hnew
        exact Nat.lt_succ_of_le (h.counted lease hlease)
      · intro lease hlease
        rw [leases_snoc] at hlease
        rcases List.mem_append.mp hlease with hlease | hlease
        · exact Nat.le_succ_of_le (h.counted lease hlease)
        · obtain rfl : lease = (id, k.counter + 1) := by simpa [acquired] using hlease
          exact Nat.le_refl _
  | held holder deadline hleader hfence hlatest =>
    simp only [tryAcquireLeaderLease, hleader, hfence]
    exact h.same rfl

theorem FenceInv.renew (h : FenceInv tr k) (id : String) (ttl : Int) :
    FenceInv (tr ++ [(.renew id ttl, .lease (renewLeaderLease k id ttl).2)])
      (renewLeaderLease k id ttl).1 := by
  cases h.together with
  | free hleader hfence =>
    simp only [renewLeaderLease, hleader, Option.map_none, reduceCtorEq, if_false]
    exact h.same rfl
  | held holder deadline hleader hfence hlatest =>
    by_cases hid : holder = id
    · by_cases httl : ttl ≤ 0
      · simp only [renewLeaderLease, hleader, hfence, hid, Option.map_some, if_true]
        exact h.other rfl (Nat.le_refl _) (.free (by simp [pexpire, httl])
          (by simp [pexpire, httl]))
      · simp only [renewLeaderLease, hleader, hfence, hid, Option.map_some, if_true]
        refine h.other rfl (Nat.le_refl _) (.held id (k.now + ttl.toNat) ?_ ?_ ?_)
        · simp [pexpire, httl]
        · simp [pexpire, httl]
        · rw [latest_snoc_other rfl, ← hid]
          exact hlatest
    · simp only [renewLeaderLease, hleader, Option.map_some, Option.some.injEq, hid, if_false]
      exact h.same rfl

theorem FenceInv.release (h : FenceInv tr k) (id : String) :
    FenceInv (tr ++ [(.release id, .released (releaseLeaderLease k id).2)])
      (releaseLeaderLease k id).1 := by
  by_cases hid : k.leader.map Prod.fst = some id
  · simp only [releaseLeaderLease, hid, if_true]
    exact h.other rfl (Nat.le_refl _) (.free rfl rfl)
  · simp only [releaseLeaderLease, hid, if_false]
    exact h.same rfl

theorem FenceInv.step (h : FenceInv tr k) (i : Input) :
    FenceInv (tr ++ [(i, (LeaderLease.step k i).2)]) (LeaderLease.step k i).1 := by
  cases i with
  | acquire id ttl => exact h.acquire id ttl
  | renew id ttl => exact h.renew id ttl
  | release id => exact h.release id
  | validate token => exact h.same rfl
  | tick elapsed => exact h.other rfl (Nat.le_refl _) (h.together.tick rfl elapsed)

theorem run_fenceInv (hr : machine.Run Keys.init tr k) : FenceInv tr k := by
  induction hr with
  | nil => exact FenceInv.init
  | snoc _ i _ ih => exact ih.step i

theorem run_counter (hr : machine.Run Keys.init tr k) : k.counter ≤ maxToken :=
  hr.invariant (I := fun k => k.counter ≤ maxToken) (fun _ _ _ hi => hi) (Nat.zero_le _)

/-! ## Tokens that were overtaken -/

/-- A token that was drawn and is not the current one. -/
structure Retired (k : Keys) (token : Nat) : Prop where
  drawn : token ≤ k.counter
  stale : ∀ deadline, k.fence ≠ some (token, deadline)

theorem Retired.invalid (h : Retired k token) : validateLeaderLease k token = false := by
  unfold validateLeaderLease
  split
  · rfl
  · rename_i value deadline hfence
    rw [decide_eq_false_iff_not]
    rintro rfl
    exact h.stale deadline hfence

/-- The fence key keeps its token, vanishes, or gets a token nobody had. -/
theorem step_fence (k : Keys) (i : Input) :
    k.counter ≤ (step k i).1.counter ∧ ∀ token deadline,
      (step k i).1.fence = some (token, deadline) →
        k.counter < token ∨ ∃ deadline', k.fence = some (token, deadline') := by
  cases i with
  | acquire id ttl =>
    simp only [step, tryAcquireLeaderLease]
    split
    · split
      · exact ⟨Nat.le_succ _, fun token deadline h => Or.inr ⟨deadline, h⟩⟩
      · refine ⟨Nat.le_succ _, ?_⟩
        intro token deadline h
        cases h
        exact Or.inl (Nat.lt_succ_self _)
    · split <;> exact ⟨Nat.le_refl _, fun token deadline h => Or.inr ⟨deadline, h⟩⟩
  | renew id ttl =>
    simp only [step, renewLeaderLease]
    split
    · split
      · split
        · exact ⟨Nat.le_succ _, fun token deadline h => Or.inr ⟨deadline, h⟩⟩
        · refine ⟨Nat.le_succ _, ?_⟩
          intro token deadline h
          cases h
          exact Or.inl (Nat.lt_succ_self _)
      · rename_i token deadline hfence
        refine ⟨Nat.le_refl _, ?_⟩
        intro token' deadline' h
        simp only [pexpire] at h
        split at h
        · cases h
        · cases h
          exact Or.inr ⟨deadline, hfence⟩
    · exact ⟨Nat.le_refl _, fun token deadline h => Or.inr ⟨deadline, h⟩⟩
  | release id =>
    simp only [step, releaseLeaderLease]
    split
    · exact ⟨Nat.le_refl _, nofun⟩
    · exact ⟨Nat.le_refl _, fun token deadline h => Or.inr ⟨deadline, h⟩⟩
  | validate token => exact ⟨Nat.le_refl _, fun token deadline h => Or.inr ⟨deadline, h⟩⟩
  | tick elapsed =>
    refine ⟨Nat.le_refl _, ?_⟩
    intro token deadline h
    exact Or.inr ⟨deadline, (Option.filter_eq_some_iff.mp h).1⟩

theorem Retired.step (h : Retired k token) (i : Input) :
    Retired (LeaderLease.step k i).1 token := by
  obtain ⟨hcounter, hfence⟩ := step_fence k i
  refine ⟨Nat.le_trans h.drawn hcounter, ?_⟩
  intro deadline hd
  rcases hfence token deadline hd with hlt | ⟨deadline', hd'⟩
  · have hdrawn := h.drawn
    omega
  · exact h.stale deadline' hd'

theorem Retired.run (h : Retired k token) (hr : machine.Run k tr k') : Retired k' token :=
  hr.invariant (I := fun k' => Retired k' token) (fun _ i h _ => h.step i) h

/-- The event ends every earlier lease: another acquire, a release, or the
leader key is gone after it. -/
def Ends (k : Keys) : Input × Output → Prop
  | (.acquire _ _, .lease (some ⟨true, _⟩)) => True
  | (.release _, .released true) => True
  | _ => k.leader = none

/-- After it there is a new lease, or none. -/
theorem ends_cases {i : Input} (hend : Ends (step k i).1 (i, (step k i).2)) :
    (∃ lease, acquired (i, (step k i).2) = some lease) ∨ (step k i).1.leader = none := by
  generalize ho : (step k i).2 = o at hend ⊢
  unfold Ends at hend
  split at hend
  · rename_i id ttl token heq
    cases heq
    exact Or.inl ⟨(id, token), rfl⟩
  · rename_i id heq
    cases heq
    refine Or.inr ?_
    simp only [step, releaseLeaderLease] at ho ⊢
    by_cases hid : k.leader.map Prod.fst = some id
    · simp [hid]
    · simp [hid] at ho
  · exact Or.inr hend

/-- Such an event retires every token drawn before. -/
theorem FenceInv.retires (h : FenceInv tr k) {i : Input}
    (hend : Ends (LeaderLease.step k i).1 (i, (LeaderLease.step k i).2)) {lease : String × Nat}
    (hlease : lease ∈ leases tr) : Retired (LeaderLease.step k i).1 lease.2 := by
  have hnext := h.step i
  refine ⟨Nat.le_trans (h.counted lease hlease) (step_fence k i).1, ?_⟩
  intro deadline hd
  cases hnext.together with
  | free _ hfence => exact absurd (hfence.symm.trans hd) (by simp)
  | held id deadline' hleader hfence _ =>
    rcases ends_cases hend with ⟨new, hnew⟩ | hnone
    · have hlt : lease.2 < new.2 := by
        have hincr := hnext.increasing
        rw [leases_snoc, hnew] at hincr
        exact (List.pairwise_append.mp hincr).2.2 lease hlease new (by simp)
      have hle := hnext.counted new (by simp [hnew])
      rw [hfence] at hd
      simp only [Option.some.injEq, Prod.mk.injEq] at hd
      omega
    · exact absurd (hnone.symm.trans hleader) (by simp)

/-! ## The holder of the lease -/

/-- The instance has the lease at least until `t`. -/
def Keys.Leads (k : Keys) (id : String) (t : Int) : Prop :=
  ∃ deadline : Nat, k.leader = some (id, deadline) ∧ t ≤ deadline

/-- A lease of an instance whose leases last `ttl id`: it has not expired, and was
written with its time to live. -/
def Keys.Granted (ttl : String → Int) (k : Keys) : Prop :=
  ∀ id deadline, k.leader = some (id, deadline) →
    k.now ≤ deadline ∧ 0 < ttl id ∧ (deadline : Int) ≤ k.now + ttl id

section Holder

variable {ttl : String → Int} {id id' : String} {t t' : Int}

theorem Keys.Leads.mono (h : k.Leads id t) (hle : t' ≤ t) : k.Leads id t' := by
  obtain ⟨deadline, hleader, ht⟩ := h
  exact ⟨deadline, hleader, Int.le_trans hle ht⟩

/-- There is one lease. -/
theorem Keys.Leads.unique (h : k.Leads id t) (h' : k.Leads id' t') : id = id' := by
  obtain ⟨deadline, hleader, -⟩ := h
  obtain ⟨deadline', hleader', -⟩ := h'
  rw [hleader] at hleader'
  exact congrArg Prod.fst (Option.some.inj hleader')

theorem Keys.Granted.init (ttl : String → Int) : Keys.init.Granted ttl :=
  fun _ _ hnone => by cases hnone

/-- Nobody acquires a lease that somebody has. -/
theorem Keys.Leads.acquire (h : k.Leads id t) (other : String) (ttl : Int) :
    (tryAcquireLeaderLease k other ttl).1.Leads id t := by
  obtain ⟨deadline, hleader, ht⟩ := h
  refine ⟨deadline, ?_, ht⟩
  simp only [tryAcquireLeaderLease, hleader]
  split <;> exact hleader

/-- An acquire that is answered with a lease has written it. -/
theorem leads_of_acquire {ttl : Int}
    (h : (tryAcquireLeaderLease k id ttl).2 = some ⟨true, token⟩) :
    (tryAcquireLeaderLease k id ttl).1.Leads id (k.now + ttl) := by
  unfold tryAcquireLeaderLease at h ⊢
  split
  · rename_i hnone
    simp only [hnone] at h
    by_cases httl : ttl ≤ 0
    · simp [httl] at h
    · simp only [httl, if_false]
      exact ⟨k.now + ttl.toNat, rfl, by omega⟩
  · rename_i hsome
    simp only [hsome] at h
    split at h <;> simp at h

theorem Keys.Granted.acquire (h : k.Granted ttl) (id : String) :
    (tryAcquireLeaderLease k id (ttl id)).1.Granted ttl := by
  unfold tryAcquireLeaderLease
  split
  · rename_i hnone
    split
    · intro id' deadline hleader
      exact h id' deadline hleader
    · intro id' deadline hleader
      cases hleader
      dsimp only
      omega
  · split <;> exact h

theorem renew_leader {deadline : Nat} (hleader : k.leader = some (id, deadline)) {ttl : Int}
    (hpos : ¬ttl ≤ 0) : (renewLeaderLease k id ttl).1.leader = some (id, k.now + ttl.toNat) := by
  simp only [renewLeaderLease, hleader, Option.map_some, if_true]
  split <;> simp [pexpire, hpos]

theorem now_renew (k : Keys) (id : String) (ttl : Int) :
    (renewLeaderLease k id ttl).1.now = k.now := by
  unfold renewLeaderLease
  split
  · split
    · dsimp only
      split <;> rfl
    · rfl
  · rfl

/-- A renewal by another instance leaves a lease alone, and by its holder extends it. -/
theorem Keys.Leads.renew (h : k.Leads id t) (hgranted : k.Granted ttl) (other : String) :
    (renewLeaderLease k other (ttl other)).1.Leads id t := by
  obtain ⟨deadline, hleader, ht⟩ := h
  have hdeadline := hgranted id deadline hleader
  by_cases hother : id = other
  · subst hother
    exact ⟨_, renew_leader hleader (by omega), by omega⟩
  · refine ⟨deadline, ?_, ht⟩
    simp [renewLeaderLease, hleader, hother]

/-- A renewal that is answered with a lease has extended it. -/
theorem leads_of_renew (hgranted : k.Granted ttl)
    (h : (renewLeaderLease k id (ttl id)).2 = some ⟨true, token⟩) :
    (renewLeaderLease k id (ttl id)).1.Leads id (k.now + ttl id) := by
  cases hleader : k.leader with
  | none => simp [renewLeaderLease, hleader] at h
  | some lease =>
    obtain ⟨holder, deadline⟩ := lease
    have hdeadline := hgranted holder deadline hleader
    by_cases hid : holder = id
    · subst hid
      exact ⟨_, renew_leader hleader (by omega), by omega⟩
    · simp [renewLeaderLease, hleader, hid] at h

theorem Keys.Granted.renew (h : k.Granted ttl) (id : String) :
    (renewLeaderLease k id (ttl id)).1.Granted ttl := by
  cases hleader : k.leader with
  | none =>
    simp only [renewLeaderLease, hleader, Option.map_none, reduceCtorEq, if_false]
    exact h
  | some lease =>
    obtain ⟨holder, deadline⟩ := lease
    have hdeadline := h holder deadline hleader
    by_cases hid : holder = id
    · subst hid
      intro id' deadline' hleader'
      rw [renew_leader hleader (by omega)] at hleader'
      cases hleader'
      rw [now_renew]
      omega
    · simp only [renewLeaderLease, hleader, Option.map_some, Option.some.injEq, hid, if_false]
      exact h

theorem now_acquire (k : Keys) (id : String) (ttl : Int) :
    (tryAcquireLeaderLease k id ttl).1.now = k.now := by
  unfold tryAcquireLeaderLease
  split
  · dsimp only
    split <;> rfl
  · split <;> rfl

theorem Keys.Leads.release (h : k.Leads id t) {other : String} (hne : id ≠ other) :
    (releaseLeaderLease k other).1.Leads id t := by
  obtain ⟨deadline, hleader, ht⟩ := h
  have hother : ¬k.leader.map Prod.fst = some other := by simp [hleader, hne]
  rw [releaseLeaderLease, if_neg hother]
  exact ⟨deadline, hleader, ht⟩

theorem Keys.Granted.release (h : k.Granted ttl) (id : String) :
    (releaseLeaderLease k id).1.Granted ttl := by
  unfold releaseLeaderLease
  split
  · intro id' deadline hnone
    cases hnone
  · exact h

/-- A lease lasts until its deadline. -/
theorem Keys.Leads.tick_of (h : k.Leads id t) (h' : k.Leads id t') {elapsed : Nat}
    (hle : (k.now + elapsed : Int) ≤ t) : (k.tick elapsed).Leads id t' := by
  obtain ⟨deadline, hleader, ht⟩ := h
  obtain ⟨deadline', hleader', ht'⟩ := h'
  rw [hleader] at hleader'
  cases hleader'
  refine ⟨deadline, ?_, ht'⟩
  have halive : k.now + elapsed ≤ deadline := by omega
  simp [Keys.tick, expire, hleader, halive]

theorem Keys.Leads.tick (h : k.Leads id t) {elapsed : Nat} (hle : (k.now + elapsed : Int) ≤ t) :
    (k.tick elapsed).Leads id t :=
  h.tick_of h hle

theorem Keys.Granted.tick (h : k.Granted ttl) (elapsed : Nat) : (k.tick elapsed).Granted ttl := by
  intro id deadline hleader
  obtain ⟨hbefore, halive⟩ := Option.filter_eq_some_iff.mp hleader
  obtain ⟨-, hpos, hle⟩ := h id deadline hbefore
  have halive' := of_decide_eq_true halive
  simp only [Keys.tick] at halive' ⊢
  omega

/-- A script that runs when its caller no longer waits for it. -/
inductive Late
  | acquire (id : String)
  | renew (id : String)

def late (ttl : String → Int) (k : Keys) : Late → Keys
  | .acquire id => (tryAcquireLeaderLease k id (ttl id)).1
  | .renew id => (renewLeaderLease k id (ttl id)).1

/-- A script that runs late harms no lease. -/
theorem late_keeps (hgranted : k.Granted ttl) (l : Late) :
    (late ttl k l).Granted ttl ∧ (late ttl k l).now = k.now ∧
      ∀ id t, k.Leads id t → (late ttl k l).Leads id t := by
  cases l with
  | acquire other =>
    exact ⟨hgranted.acquire other, now_acquire k other _, fun id t h => h.acquire other _⟩
  | renew other =>
    exact ⟨hgranted.renew other, now_renew k other _, fun id t h => h.renew hgranted other⟩

end Holder

/-! ## Every run -/

/-- The two keys exist together, so a renewal finds the token of its lease;
tokens increase and are exact in Lua; and once a lease is over, its token is
never valid again. -/
structure Fenced (tr : List (Input × Output)) (k : Keys) : Prop where
  together : k.leader.isSome = k.fence.isSome
  increasing : (leases tr).Pairwise fun a b => a.2 < b.2
  exact : ∀ lease ∈ leases tr, lease.2 ≤ maxToken
  renewed : ∀ before after id ttl token,
    tr = before ++ (.renew id ttl, .lease (some ⟨true, token⟩)) :: after →
      latest before id = some token
  invalid : ∀ before after e k1, tr = before ++ e :: after →
    machine.Run Keys.init (before ++ [e]) k1 → Ends k1 e →
      ∀ lease ∈ leases before, validateLeaderLease k lease.2 = false

theorem leader_fenced (tr : List (Input × Output)) (k : Keys)
    (hr : machine.Run Keys.init tr k) : Fenced tr k := by
  have h := run_fenceInv hr
  refine ⟨?_, h.increasing, ?_, ?_, ?_⟩
  · cases h.together with
    | free hleader hfence | held id deadline hleader hfence _ => rw [hleader, hfence]; rfl
  · exact fun lease hlease => Nat.le_trans (h.counted lease hlease) (run_counter hr)
  · rintro before after id ttl token rfl
    obtain ⟨k1, hr1, -, hout, -⟩ := hr.event
    simp only [machine, step, Output.lease.injEq] at hout
    cases (run_fenceInv hr1).together with
    | free hleader hfence => simp [renewLeaderLease, hleader] at hout
    | held holder deadline hleader hfence hlatest =>
      by_cases hid : holder = id
      · simp only [renewLeaderLease, hleader, hfence, hid, Option.map_some, if_true,
          Option.some.injEq, LeaderLeaseResult.mk.injEq, true_and] at hout
        rw [hout, ← hid]
        exact hlatest
      · simp [renewLeaderLease, hleader, hid] at hout
  · rintro before after ⟨i, o⟩ k1 rfl hr1 hend lease hlease
    obtain ⟨k0, hr0, hi, rfl, hrest⟩ := hr.event
    have hk1 : k1 = (step k0 i).1 := hr1.unique (hr0.snoc i hi)
    subst hk1
    exact (((run_fenceInv hr0).retires hend hlease).run hrest).invalid

/-! ## A run -/

/-- The lease of `a` expires and `b` takes over; `a` then validates its token,
tries to renew, and waits for `b` to release. -/
def takeover : Keys × List (Input × Output) :=
  machine.exec Keys.init
    [ .acquire "a" 15, .renew "a" 15, .tick 16, .acquire "b" 15, .validate 1, .renew "a" 15
    , .acquire "a" 15, .release "b", .acquire "a" 15, .validate 2 ]

theorem run_takeover : machine.Run Keys.init takeover.2 takeover.1 :=
  Machine.run_exec _ _ (by decide)

theorem leader_fenced_takeover :
    takeover.2.map Prod.snd =
      [.lease (some ⟨true, 1⟩), .lease (some ⟨true, 1⟩), .quiet, .lease (some ⟨true, 2⟩),
        .valid false, .lease (some ⟨false, 0⟩), .lease (some ⟨false, 2⟩), .released true,
        .lease (some ⟨true, 3⟩), .valid false] ∧
      Fenced takeover.2 takeover.1 :=
  ⟨by decide, leader_fenced _ _ run_takeover⟩

end RogiCollector.Ports.LeaderLease
