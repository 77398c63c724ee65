import RogiCollector.Verified.Machine
import RogiCollector.Verified.Table

/-!
# Processes around a shared resource

Any number of processes, each with a state of its own under its name, around one
shared resource, and a clock they all see.  A step is an action of one process,
which may change the resource, a change of the resource by nobody in particular (a
message that arrives late), or the passing of time, which every process has to
allow: one whose timer is due does not let it pass.

An invariant of such a system is one about the resource and one about each process
together with the resource.  `Stable` says what has to be shown of it, action by
action, and `Stable.run` that it then holds in every run.
-/

namespace RogiCollector.Verified

/-- Processes named by `ν`, with states `σ` and actions `α`, around a resource `κ`
that also changes by `β`. -/
structure Processes (ν κ σ α β : Type) where
  enabled : ν → κ → σ → α → Bool
  act : ν → κ → σ → α → κ × σ
  stray : κ → β → κ
  waits : ν → κ → σ → Nat → Bool
  elapse : κ → Nat → κ

namespace Processes

variable {ν κ σ α β : Type} [DecidableEq ν]

structure State (ν κ σ : Type) where
  shared : κ
  procs : Table ν σ

inductive Input (ν α β : Type)
  | tick (d : Nat)
  | act (name : ν) (a : α)
  | stray (b : β)

variable (P : Processes ν κ σ α β)

def step (s : State ν κ σ) : Input ν α β → State ν κ σ
  | .tick d => { s with shared := P.elapse s.shared d }
  | .act name a =>
    match s.procs.find name with
    | some p =>
      { shared := (P.act name s.shared p a).1
        procs := s.procs.modify name fun _ => (P.act name s.shared p a).2 }
    | none => s
  | .stray b => { s with shared := P.stray s.shared b }

def admits (s : State ν κ σ) : Input ν α β → Bool
  | .tick d => s.procs.rows.all fun row => P.waits row.1 s.shared row.2 d
  | .act name a => (s.procs.find name).any fun p => P.enabled name s.shared p a
  | .stray _ => true

def machine : Machine (State ν κ σ) (Input ν α β) Unit where
  admits s i := P.admits s i = true
  step s i := (P.step s i, ())

instance (s : State ν κ σ) (i : Input ν α β) : Decidable (P.machine.admits s i) :=
  inferInstanceAs (Decidable (_ = true))

/-- Every action of a step meets a condition. -/
def meets (ok : ν → κ → σ → α → Bool) (s : State ν κ σ) : Input ν α β → Bool
  | .act name a => (s.procs.find name).all fun p => ok name s.shared p a
  | _ => true

/-- What every step preserves: `J` of the resource, and `I` of each process with it.
Actions may be assumed to meet `ok`. -/
structure Stable (ok : ν → κ → σ → α → Bool) (J : κ → Prop) (I : ν → κ → σ → Prop) : Prop where
  act : ∀ name k p a, J k → I name k p → P.enabled name k p a = true → ok name k p a = true →
    J (P.act name k p a).1 ∧ I name (P.act name k p a).1 (P.act name k p a).2
  frame : ∀ name k p a name' p', name' ≠ name → J k → I name k p → I name' k p' →
    P.enabled name k p a = true → ok name k p a = true → I name' (P.act name k p a).1 p'
  stray : ∀ k b, J k → J (P.stray k b) ∧ ∀ name p, I name k p → I name (P.stray k b) p
  elapse : ∀ k d, J k → J (P.elapse k d)
  waits : ∀ name k p d, J k → I name k p → P.waits name k p d = true → I name (P.elapse k d) p

/-- The invariant of the whole system. -/
def Holds (J : κ → Prop) (I : ν → κ → σ → Prop) (s : State ν κ σ) : Prop :=
  J s.shared ∧ ∀ name p, s.procs.Has name p → I name s.shared p

variable {P} {ok : ν → κ → σ → α → Bool} {J : κ → Prop} {I : ν → κ → σ → Prop}
  {s s' : State ν κ σ} {i : Input ν α β}

theorem Stable.step (hstable : P.Stable ok J I) (h : Holds J I s) (hi : P.admits s i = true)
    (hok : meets ok s i = true) : Holds J I (P.step s i) := by
  cases i with
  | tick d =>
    refine ⟨hstable.elapse _ d h.1, ?_⟩
    intro name p hp
    exact hstable.waits name _ p d h.1 (h.2 name p hp) (List.all_eq_true.mp hi (name, p) hp)
  | act name a =>
    cases hfind : s.procs.find name with
    | none =>
      simp only [Processes.step, hfind]
      exact h
    | some p =>
      simp only [admits, meets, hfind, Option.any_some, Option.all_some] at hi hok
      have hI := h.2 name p (Table.find_eq_some_iff.mp hfind)
      simp only [Processes.step, hfind]
      obtain ⟨hJ', hI'⟩ := hstable.act name _ p a h.1 hI hi hok
      refine ⟨hJ', ?_⟩
      intro name' p' hp'
      rcases Table.has_modify.mp hp' with ⟨rfl, -, -, rfl⟩ | ⟨hne, hhas⟩
      · exact hI'
      · exact hstable.frame name _ p a name' p' hne h.1 hI (h.2 name' p' hhas) hi hok
  | stray b =>
    obtain ⟨hJ', hI'⟩ := hstable.stray _ b h.1
    exact ⟨hJ', fun name p hp => hI' name p (h.2 name p hp)⟩

theorem Stable.run (hstable : P.Stable ok J I) {tr : List (Input ν α β × Unit)}
    (hr : (P.machine.restrict fun s i => meets ok s i = true).Run s tr s') (h : Holds J I s) :
    Holds J I s' := by
  have hstep : ∀ (s : State ν κ σ) i, Holds J I s → P.admits s i = true ∧ meets ok s i = true →
      Holds J I (P.step s i) :=
    fun _ _ h hi => hstable.step h hi.1 hi.2
  exact hr.invariant hstep h

/-- A run without a condition. -/
theorem Stable.run_any (hstable : P.Stable (fun _ _ _ _ => true) J I)
    {tr : List (Input ν α β × Unit)} (hr : P.machine.Run s tr s') (h : Holds J I s) :
    Holds J I s' := by
  have hmeets : ∀ (s : State ν κ σ) (i : Input ν α β),
      meets (fun _ _ _ _ => true) s i = true := by
    intro s i
    cases i with
    | tick | stray => rfl
    | act name a =>
      rw [meets, Option.all_eq_true]
      intros
      rfl
  have hstep : ∀ (s : State ν κ σ) i, Holds J I s → P.admits s i = true →
      Holds J I (P.step s i) :=
    fun s i h hi => hstable.step h hi (hmeets s i)
  exact hr.invariant hstep h

omit [DecidableEq ν] in
/-- A second invariant, of the states of the processes alone. -/
theorem Stable.and_local {ok' : ν → κ → σ → α → Bool} (hstable : P.Stable ok J I)
    (hok : ∀ name k p a, ok' name k p a = true → ok name k p a = true) {Q : ν → σ → Prop}
    (hQ : ∀ name k p a, I name k p → Q name p → P.enabled name k p a = true →
      ok' name k p a = true → Q name (P.act name k p a).2) :
    P.Stable ok' J fun name k p => I name k p ∧ Q name p where
  act name k p a hJ h henabled hcond :=
    have ⟨hJ', hI'⟩ := hstable.act name k p a hJ h.1 henabled (hok _ _ _ _ hcond)
    ⟨hJ', hI', hQ name k p a h.1 h.2 henabled hcond⟩
  frame name k p a name' p' hne hJ h h' henabled hcond :=
    ⟨hstable.frame name k p a name' p' hne hJ h.1 h'.1 henabled (hok _ _ _ _ hcond), h'.2⟩
  stray k b hJ :=
    have ⟨hJ', hI'⟩ := hstable.stray k b hJ
    ⟨hJ', fun name p h => ⟨hI' name p h.1, h.2⟩⟩
  elapse := hstable.elapse
  waits name k p d hJ h hwaits := ⟨hstable.waits name k p d hJ h.1 hwaits, h.2⟩

end Processes

end RogiCollector.Verified
