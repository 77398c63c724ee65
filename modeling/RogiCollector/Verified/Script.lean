import Mathlib.Data.List.Basic

/-!
# Straight-line scripts that are interrupted

A script is a list of operations on a state.  At most one of them raises an exception; then
the script ends there, and the operation may have had a part of its effect.
-/

namespace RogiCollector.Verified

/-- Operations `α` on states `σ`; `π` says how much of an operation was done. -/
structure Script (σ α π : Type) where
  apply : σ → α → σ
  interrupt : σ → α → π → σ

namespace Script

variable {σ α π : Type} (S : Script σ α π)

/-- The state behind the operations, and the one that raised an exception; the fault is its
place and how much of it was done. -/
def run (s : σ) : List α → Option (Nat × π) → σ × Option α
  | [], _ => (s, none)
  | op :: ops, none => run (S.apply s op) ops none
  | op :: _, some (0, p) => (S.interrupt s op p, some op)
  | op :: ops, some (n + 1, p) => run (S.apply s op) ops (some (n, p))

/-- The operation a fault hits. -/
def hit (ops : List α) (fault : Option (Nat × π)) : Option α := fault.bind fun f => ops[f.1]?

variable {S} {s : σ} {ops ops' : List α}

theorem run_raised (fault : Option (Nat × π)) : (S.run s ops fault).2 = hit ops fault := by
  induction ops generalizing s fault with
  | nil => cases fault <;> simp [run, hit]
  | cons op ops ih =>
    cases fault with
    | none => simpa [run, hit] using ih none
    | some f =>
      obtain ⟨n, p⟩ := f
      cases n with
      | zero => simp [run, hit]
      | succ n => simpa [run, hit] using ih (some (n, p))

/-- Nothing is raised: all operations are done. -/
theorem run_whole {fault : Option (Nat × π)} (h : hit ops fault = none) :
    S.run s ops fault = (ops.foldl S.apply s, none) := by
  induction ops generalizing s fault with
  | nil => cases fault <;> rfl
  | cons op ops ih =>
    cases fault with
    | none => exact ih rfl
    | some f =>
      obtain ⟨n, p⟩ := f
      cases n with
      | zero => simp [hit] at h
      | succ n => exact ih (by simpa [hit] using h)

/-- The exception is raised in the first part. -/
theorem run_left {n : Nat} {p : π} (h : n < ops.length) :
    S.run s (ops ++ ops') (some (n, p)) = S.run s ops (some (n, p)) := by
  induction ops generalizing s n with
  | nil => simp at h
  | cons op ops ih =>
    cases n with
    | zero => rfl
    | succ n => exact ih (by simpa using h)

/-- The exception is not raised in the first part. -/
theorem run_right {n : Nat} {p : π} :
    S.run s (ops ++ ops') (some (ops.length + n, p)) =
      S.run (ops.foldl S.apply s) ops' (some (n, p)) := by
  induction ops generalizing s with
  | nil => simp
  | cons op ops ih =>
    have hlength : (op :: ops).length + n = ops.length + n + 1 := by
      rw [List.length_cons]
      omega
    rw [hlength]
    exact ih

/-- What every operation preserves, whole and in part. -/
theorem run_invariant {I : σ → Prop} (h : I s)
    (hops : ∀ op ∈ ops, ∀ s, I s → I (S.apply s op) ∧ ∀ p, I (S.interrupt s op p))
    (fault : Option (Nat × π)) : I (S.run s ops fault).1 := by
  induction ops generalizing s fault with
  | nil => cases fault <;> exact h
  | cons op ops ih =>
    have hop := hops op List.mem_cons_self s h
    have hrest : ∀ op' ∈ ops, ∀ s, I s → I (S.apply s op') ∧ ∀ p, I (S.interrupt s op' p) :=
      fun op' hop' => hops op' (List.mem_cons_of_mem _ hop')
    cases fault with
    | none => exact ih hop.1 hrest none
    | some f =>
      obtain ⟨n, p⟩ := f
      cases n with
      | zero => exact hop.2 p
      | succ n => exact ih hop.1 hrest (some (n, p))

end Script

end RogiCollector.Verified
