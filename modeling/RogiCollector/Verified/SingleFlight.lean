import Mathlib.Data.List.Basic
import RogiCollector.Verified.Machine

/-!
# Answers shared by concurrent requests

A server keeps the answer of an expensive check for a while.  A request that
finds no fresh answer runs the check itself, with its own context; the requests
that come meanwhile wait until that flight is over and then look again.  The
check asks one backend after the other.

A client may cancel at any moment, and a backend may fail the call of a cancelled
request.  Whether other clients notice depends on who runs the check.
-/

namespace RogiCollector.Verified.SingleFlight

/-- What a check concludes from the answers of its calls so far, `none` to go on
asking, and how long a conclusion is kept, if at all. -/
structure Check (γ α : Type) where
  conclude : List γ → Option α
  keep : α → Option Nat

/-- Where a request is. -/
inductive Phase (γ α : Type) where
  | entering
  | waiting (flight : Nat)
  | checking (answers : List γ)
  | concluded (a : α)
  | answered (a : α)
  | gone
  deriving DecidableEq

structure Request (γ α : Type) where
  phase : Phase γ α
  cancelled : Bool
  deriving DecidableEq

/-- The answer held with the end of its time, the flight under way, the number of
flights so far, and all requests. -/
structure State (γ α : Type) where
  clock : Nat
  held : Option (α × Nat)
  flight : Option Nat
  flights : Nat
  requests : List (Request γ α)
  deriving DecidableEq

def State.init (γ α : Type) : State γ α := ⟨0, none, none, 0, []⟩

inductive Input (γ : Type) where
  | tick (now : Nat)
  | arrive
  | cancel (k : Nat)
  | enter (k : Nat)
  | wake (k : Nat)
  | leave (k : Nat)
  | answer (k : Nat) (g : γ)
  | store (k : Nat)

variable {γ α : Type}

/-- The answer that is still fresh. -/
def State.fresh (s : State γ α) : Option α :=
  match s.held with
  | some (a, until_) => if s.clock < until_ then some a else none
  | none => none

/-- Request `k` goes on from its phase. -/
def State.move (s : State γ α) (k : Nat) (f : Request γ α → Request γ α) : State γ α :=
  { s with requests := s.requests.modify k f }

def Request.at (r : Request γ α) (phase : Phase γ α) : Request γ α := { r with phase }

/-- A request behind one more answer. -/
def Check.after (C : Check γ α) (answers : List γ) : Phase γ α :=
  match C.conclude answers with
  | none => .checking answers
  | some a => .concluded a

/-- What is held behind a conclusion. -/
def Check.hold (C : Check γ α) (s : State γ α) (a : α) : Option (α × Nat) :=
  match C.keep a with
  | some span => some (a, s.clock + span)
  | none => s.held

/-- One step of the server or of its clients. -/
def step (C : Check γ α) (s : State γ α) (i : Input γ) : State γ α :=
  match i with
  | .tick now => { s with clock := now }
  | .arrive => { s with requests := s.requests ++ [⟨.entering, false⟩] }
  | .cancel k => s.move k fun r => { r with cancelled := true }
  | .enter k =>
    match s.requests[k]?.map Request.phase with
    | some .entering =>
      match s.fresh, s.flight with
      | some a, _ => s.move k (·.at (.answered a))
      | none, some flight => s.move k (·.at (.waiting flight))
      | none, none =>
        { s.move k (·.at (.checking [])) with
          flight := some s.flights, flights := s.flights + 1 }
    | _ => s
  | .wake k =>
    match s.requests[k]?.map Request.phase with
    | some (.waiting flight) =>
      -- The channel of a flight is closed when the flight is over.
      if s.flight = some flight then s else s.move k (·.at .entering)
    | _ => s
  | .leave k =>
    match s.requests[k]? with
    | some ⟨.waiting _, true⟩ => s.move k (·.at .gone)
    | _ => s
  | .answer k g =>
    match s.requests[k]?.map Request.phase with
    | some (.checking answers) => s.move k (·.at (C.after (answers ++ [g])))
    | _ => s
  | .store k =>
    match s.requests[k]?.map Request.phase with
    | some (.concluded a) =>
      { s.move k (·.at (.answered a)) with held := C.hold s a, flight := none }
    | _ => s

def State.cancelled (s : State γ α) (k : Nat) : Bool :=
  (s.requests[k]?.map Request.cancelled).getD false

/-- Time does not run back, and a call succeeds unless its request is cancelled. -/
def admits (ok : γ → Bool) (s : State γ α) : Input γ → Prop
  | .tick now => s.clock ≤ now
  | .answer k g => s.cancelled k = true ∨ ok g = true
  | _ => True

instance (ok : γ → Bool) (s : State γ α) : (i : Input γ) → Decidable (admits ok s i)
  | .tick now => inferInstanceAs (Decidable (s.clock ≤ now))
  | .answer .. => inferInstanceAs (Decidable (_ ∨ _))
  | .arrive | .cancel _ | .enter _ | .wake _ | .leave _ | .store _ =>
    inferInstanceAs (Decidable True)

def machine (C : Check γ α) (ok : γ → Bool) : Machine (State γ α) (Input γ) Unit where
  admits := admits ok
  step s i := (step C s i, ())

instance (C : Check γ α) (ok : γ → Bool) (s : State γ α) (i : Input γ) :
    Decidable ((machine C ok).admits s i) :=
  inferInstanceAs (Decidable (admits ok s i))

/-! ## Who runs the check -/

def Phase.isChecking : Phase γ α → Bool
  | .checking _ => true
  | _ => false

/-- Entering now means running the check. -/
def State.starts (s : State γ α) : Bool := s.fresh.isNone && s.flight.isNone

/-- No request is cancelled while it runs the check, and none that is cancelled
begins to. -/
def steady (s : State γ α) : Input γ → Bool
  | .cancel k => !(s.requests[k]?.any fun r => r.phase.isChecking)
  | .enter k => !(s.starts && s.cancelled k)
  | _ => true

/-! ## The invariant -/

section Inv

variable (C : Check γ α) (ok : γ → Bool) (Good : α → Prop)

/-- A check whose calls all succeeded concludes well. -/
def ConcludesGood : Prop :=
  ∀ answers a, (∀ g ∈ answers, ok g = true) → C.conclude answers = some a → Good a

/-- What is known of a request. -/
def RequestInv (r : Request γ α) : Prop :=
  match r.phase with
  | .checking answers => r.cancelled = false ∧ ∀ g ∈ answers, ok g = true
  | .concluded a | .answered a => Good a
  | .entering | .waiting _ | .gone => True

structure Inv (s : State γ α) : Prop where
  held : ∀ a t, s.held = some (a, t) → Good a
  requests : ∀ r ∈ s.requests, RequestInv ok Good r

end Inv

variable {C : Check γ α} {ok : γ → Bool} {Good : α → Prop} {s : State γ α}

theorem Inv.fresh (h : Inv ok Good s) {a : α} (ha : s.fresh = some a) : Good a := by
  unfold State.fresh at ha
  split at ha
  · rename_i a' t hheld
    split at ha
    · cases ha
      exact h.held a t hheld
    · cases ha
  · cases ha

/-- A request moves to where its invariant holds. -/
theorem Inv.move (h : Inv ok Good s) {k : Nat} {f : Request γ α → Request γ α}
    (hf : ∀ r, s.requests[k]? = some r → RequestInv ok Good (f r)) :
    ∀ r ∈ (s.move k f).requests, RequestInv ok Good r := by
  intro r hr
  rcases mem_modify hr with hold | ⟨r0, hr0, rfl⟩
  · exact h.requests r hold
  · exact hf r0 hr0

theorem cancelled_eq {k : Nat} {r : Request γ α} (h : s.requests[k]? = some r) :
    s.cancelled k = r.cancelled := by
  rw [State.cancelled, h]
  rfl

/-- Behind one more answer of a check. -/
theorem requestInv_after (hC : ConcludesGood C ok Good) {answers : List γ} {cancelled : Bool}
    (hactive : cancelled = false) (hok : ∀ g ∈ answers, ok g = true) :
    RequestInv ok Good ⟨C.after answers, cancelled⟩ := by
  unfold Check.after
  cases hconclude : C.conclude answers with
  | none => exact ⟨hactive, hok⟩
  | some a => exact hC answers a hok hconclude

/-- A step keeps the invariant while no cancelled request runs the check. -/
theorem Inv.step (hC : ConcludesGood C ok Good) (h : Inv ok Good s) {i : Input γ}
    (hi : admits ok s i) (hsteady : steady s i = true) : Inv ok Good (step C s i) := by
  cases i with
  | tick now => exact ⟨h.held, h.requests⟩
  | arrive =>
    exact ⟨h.held, List.forall_mem_append.mpr ⟨h.requests, List.forall_mem_singleton.mpr trivial⟩⟩
  | cancel k =>
    refine ⟨h.held, h.move ?_⟩
    intro r hr
    have hinv := h.requests r (List.mem_of_getElem? hr)
    obtain ⟨phase, cancelled⟩ := r
    cases phase with
    | checking answers => simp [steady, hr, Phase.isChecking] at hsteady
    | _ => exact hinv
  | enter k =>
    simp only [SingleFlight.step]
    split
    · split
      · rename_i a _ hfresh
        exact ⟨h.held, h.move fun _ _ => h.fresh hfresh⟩
      · exact ⟨h.held, h.move fun _ _ => trivial⟩
      · rename_i hfresh hflight
        refine ⟨h.held, h.move fun r hr => ⟨?_, by simp⟩⟩
        change r.cancelled = false
        simpa [steady, State.starts, hfresh, hflight, cancelled_eq hr] using hsteady
    · exact h
  | wake k =>
    simp only [SingleFlight.step]
    split
    · split
      · exact h
      · exact ⟨h.held, h.move fun _ _ => trivial⟩
    · exact h
  | leave k =>
    simp only [SingleFlight.step]
    split
    · exact ⟨h.held, h.move fun _ _ => trivial⟩
    · exact h
  | answer k g =>
    simp only [SingleFlight.step]
    split
    · rename_i answers hphase
      obtain ⟨r, hr, hr'⟩ := Option.map_eq_some_iff.mp hphase
      refine ⟨h.held, h.move ?_⟩
      intro r1 hr1
      obtain rfl := Option.some.inj (hr.symm.trans hr1)
      have hinv := h.requests r (List.mem_of_getElem? hr)
      rw [RequestInv, hr'] at hinv
      obtain ⟨hactive, hall⟩ := hinv
      refine requestInv_after hC hactive (List.forall_mem_append.mpr ⟨hall, ?_⟩)
      refine List.forall_mem_singleton.mpr (hi.resolve_left ?_)
      rw [cancelled_eq hr, hactive]
      exact Bool.false_ne_true
    · exact h
  | store k =>
    simp only [SingleFlight.step]
    split
    · rename_i a hphase
      obtain ⟨r, hr, hr'⟩ := Option.map_eq_some_iff.mp hphase
      have hinv := h.requests r (List.mem_of_getElem? hr)
      rw [RequestInv, hr'] at hinv
      refine ⟨?_, h.move fun _ _ => hinv⟩
      intro a' t hheld
      dsimp only [Check.hold] at hheld
      split at hheld
      · cases hheld
        exact hinv
      · exact h.held a' t hheld
    · exact h

/-- While no cancelled request runs the check, every answer is good. -/
theorem answered_good (hC : ConcludesGood C ok Good) {tr : List (Input γ × Unit)}
    (hr : ((machine C ok).restrict fun s i => steady s i = true).Run (State.init γ α) tr s)
    {r : Request γ α} (hmem : r ∈ s.requests) {a : α} (ha : r.phase = .answered a) : Good a := by
  have hinit : Inv ok Good (State.init γ α) := ⟨by simp [State.init], by simp [State.init]⟩
  have hinv := (hr.invariant (fun _ _ h hi => h.step hC hi.1 hi.2) hinit).requests r hmem
  rw [RequestInv, ha] at hinv
  exact hinv

end RogiCollector.Verified.SingleFlight
