import Mathlib.Data.List.Basic

/-!
# Machines, runs and their histories

A `Machine` takes one input at a time.  What the input decides is a function
(`step`); what the environment may supply in a state is a predicate
(`admits`): a clock that does not run backwards, an identifier that was never
handed out before.  Everything nondeterministic about the modelled programs
(the schedule, failures, clock readings, lost responses) is part of the
input, so a statement about every run is a statement about every
interleaving.

`Run s tr s'` records the inputs *with* the outputs they produced, oldest
first.  It grows at the far end, so an induction over a run carries the
history up to the present state.
-/

namespace RogiCollector.Verified

/-- A member of a list behind a change at one place. -/
theorem mem_modify {α : Type} {l : List α} {k : Nat} {f : α → α} {a : α}
    (h : a ∈ l.modify k f) : a ∈ l ∨ ∃ b, l[k]? = some b ∧ a = f b := by
  obtain ⟨j, hj⟩ := List.getElem?_of_mem h
  rw [List.getElem?_modify] at hj
  obtain ⟨b, hb, rfl⟩ := Option.map_eq_some_iff.mp hj
  split
  · rename_i hkj
    exact Or.inr ⟨b, hkj ▸ hb, rfl⟩
  · exact Or.inl (List.mem_of_getElem? hb)

/-- A system driven by inputs; the outputs are what its callers see. -/
structure Machine (σ ι ο : Type) where
  admits : σ → ι → Prop
  step : σ → ι → σ × ο

namespace Machine

variable {σ ι ο : Type} {M : Machine σ ι ο}

/-- The run of `M` from `s` with history `tr`. -/
inductive Run (M : Machine σ ι ο) (s : σ) : List (ι × ο) → σ → Prop
  | nil : Run M s [] s
  | snoc {tr : List (ι × ο)} {s' : σ} (hr : Run M s tr s') (i : ι)
      (hi : M.admits s' i) :
      Run M s (tr ++ [(i, (M.step s' i).2)]) (M.step s' i).1

/-- What every admitted step preserves holds after every run. -/
theorem Run.invariant {I : σ → Prop}
    (hstep : ∀ s i, I s → M.admits s i → I (M.step s i).1)
    {s s' : σ} {tr : List (ι × ο)} (hr : M.Run s tr s') (h : I s) : I s' := by
  induction hr with
  | nil => exact h
  | snoc _ i hi ih => exact hstep _ i ih hi

variable {s2 : σ} {tr1 tr2 : List (ι × ο)}

/-- Runs compose. -/
theorem Run.trans {s s1 : σ} (h1 : M.Run s tr1 s1) (h2 : M.Run s1 tr2 s2) :
    M.Run s (tr1 ++ tr2) s2 := by
  induction h2 with
  | nil => simpa using h1
  | snoc _ i hi ih =>
    rw [← List.append_assoc]
    exact ih.snoc i hi

/-- One admitted step is a run. -/
theorem Run.single {s : σ} (i : ι) (hi : M.admits s i) :
    M.Run s [(i, (M.step s i).2)] (M.step s i).1 :=
  Run.nil.snoc i hi

/-- A run decomposes wherever its history does. -/
theorem Run.split {s : σ} (h : M.Run s (tr1 ++ tr2) s2) :
    ∃ s1, M.Run s tr1 s1 ∧ M.Run s1 tr2 s2 := by
  generalize htr : tr1 ++ tr2 = tr at h
  induction h generalizing tr2 with
  | nil =>
    obtain ⟨rfl, rfl⟩ := List.append_eq_nil_iff.mp htr
    exact ⟨s, Run.nil, Run.nil⟩
  | @snoc tr s' hr i hi ih =>
    rcases List.eq_nil_or_concat tr2 with rfl | ⟨tr2', e, rfl⟩
    · rw [List.append_nil] at htr
      subst htr
      exact ⟨_, hr.snoc i hi, Run.nil⟩
    · rw [List.concat_eq_append, ← List.append_assoc] at htr
      obtain ⟨htr', he⟩ := List.append_inj' htr rfl
      obtain ⟨s1, h1, h2⟩ := ih htr'
      refine ⟨s1, h1, ?_⟩
      have hsnoc := h2.snoc i hi
      rw [← he] at hsnoc
      rwa [List.concat_eq_append]

/-- Every event of a run was one admitted step of it: the history before it,
the state it was taken in, and the rest of the run. -/
theorem Run.event {s : σ} {i : ι} {o : ο} (h : M.Run s (tr1 ++ (i, o) :: tr2) s2) :
    ∃ s1, M.Run s tr1 s1 ∧ M.admits s1 i ∧ o = (M.step s1 i).2 ∧
      M.Run (M.step s1 i).1 tr2 s2 := by
  rw [show tr1 ++ (i, o) :: tr2 = (tr1 ++ [(i, o)]) ++ tr2 by simp] at h
  obtain ⟨s', h', h2⟩ := h.split
  generalize htr : tr1 ++ [(i, o)] = tr at h'
  cases h' with
  | nil => simp at htr
  | snoc hr j hj =>
    obtain ⟨rfl, he⟩ := List.append_inj' htr rfl
    obtain ⟨rfl, rfl⟩ := he
    exact ⟨_, hr, hj, rfl, h2⟩

/-- The history determines the state. -/
theorem Run.unique {s s1 : σ} {tr : List (ι × ο)} (h1 : M.Run s tr s1) (h2 : M.Run s tr s2) :
    s1 = s2 := by
  induction h1 generalizing s2 with
  | nil =>
    generalize htr : ([] : List (ι × ο)) = tr at h2
    cases h2 with
    | nil => rfl
    | snoc => simp at htr
  | @snoc tr s' hr i hi ih =>
    generalize htr : tr ++ [(i, (M.step s' i).2)] = tr2 at h2
    cases h2 with
    | nil => simp at htr
    | snoc hr2 j hj =>
      obtain ⟨rfl, he⟩ := List.append_inj' htr rfl
      have heq := ih hr2
      subst heq
      simp only [List.cons.injEq, Prod.mk.injEq, and_true] at he
      rw [he.1]

/-! ## Runs whose steps all meet a condition -/

/-- The machine that takes only the inputs `Q` allows. -/
def restrict (M : Machine σ ι ο) (Q : σ → ι → Prop) : Machine σ ι ο where
  admits s i := M.admits s i ∧ Q s i
  step := M.step

instance instDecidableRestrict {Q : σ → ι → Prop} (s : σ) (i : ι)
    [Decidable (M.admits s i)] [Decidable (Q s i)] : Decidable ((M.restrict Q).admits s i) :=
  inferInstanceAs (Decidable (_ ∧ _))

/-- Such a run is a run. -/
theorem Run.unrestrict {Q : σ → ι → Prop} {s s' : σ} {tr : List (ι × ο)}
    (hr : (M.restrict Q).Run s tr s') : M.Run s tr s' := by
  induction hr with
  | nil => exact Run.nil
  | snoc _ i hi ih => exact ih.snoc i hi.1

/-! ## What holds all along a run -/

/-- `P` holds in every state the run passes, the first and the last included. -/
def Throughout (M : Machine σ ι ο) (P : σ → Prop) (s : σ) (tr : List (ι × ο)) : Prop :=
  ∀ tr1 tr2 s1, tr = tr1 ++ tr2 → M.Run s tr1 s1 → P s1

section Throughout

variable {P : σ → Prop} {s s' : σ} {tr tr' : List (ι × ο)}

theorem Throughout.last (h : M.Throughout P s tr) (hr : M.Run s tr s') : P s' :=
  h tr [] s' (List.append_nil tr).symm hr

theorem Throughout.of_append (h : M.Throughout P s (tr ++ tr')) : M.Throughout P s tr := by
  intro tr1 tr2 s1 htr hr
  exact h tr1 (tr2 ++ tr') s1 (by rw [htr, List.append_assoc]) hr

theorem Throughout.nil (h : P s) : M.Throughout P s [] := by
  intro tr1 tr2 s1 htr hr
  obtain ⟨rfl, -⟩ := List.append_eq_nil_iff.mp htr.symm
  rwa [hr.unique Run.nil]

theorem Throughout.cons {i : ι} (h : P s) (hrest : M.Throughout P (M.step s i).1 tr) :
    M.Throughout P s ((i, (M.step s i).2) :: tr) := by
  intro tr1 tr2 s1 htr hr
  cases tr1 with
  | nil => rwa [hr.unique Run.nil]
  | cons e tr1 =>
    obtain ⟨rfl, rfl⟩ := List.cons.inj htr
    have hev : M.Run s ([] ++ (i, (M.step s i).2) :: tr1) s1 := hr
    obtain ⟨s', hr', -, -, hr1⟩ := hev.event
    obtain rfl := hr'.unique Run.nil
    exact hrest tr1 tr2 s1 rfl hr1

theorem Throughout.rest (h : M.Throughout P s (tr ++ tr')) (hr : M.Run s tr s') :
    M.Throughout P s' tr' := by
  intro tr1 tr2 s1 htr hr1
  exact h (tr ++ tr1) tr2 s1 (by rw [htr, List.append_assoc]) (hr.trans hr1)

end Throughout

/-! ## What held somewhere along a run -/

/-- `P` holds in some state the run passes, the first and the last included. -/
def Sometime (M : Machine σ ι ο) (P : σ → Prop) (s : σ) (tr : List (ι × ο)) : Prop :=
  ∃ tr1 tr2 s1, tr = tr1 ++ tr2 ∧ M.Run s tr1 s1 ∧ P s1

section Sometime

variable {P : σ → Prop} {s s' : σ} {tr : List (ι × ο)}

theorem Sometime.append (h : M.Sometime P s tr) (tr' : List (ι × ο)) :
    M.Sometime P s (tr ++ tr') := by
  obtain ⟨tr1, tr2, s1, rfl, hr, hP⟩ := h
  exact ⟨tr1, tr2 ++ tr', s1, List.append_assoc _ _ _, hr, hP⟩

theorem Sometime.last (hr : M.Run s tr s') (h : P s') : M.Sometime P s tr :=
  ⟨tr, [], s', (List.append_nil tr).symm, hr, h⟩

theorem sometime_nil : M.Sometime P s [] ↔ P s := by
  constructor
  · rintro ⟨tr1, tr2, s1, htr, hr, h⟩
    obtain ⟨rfl, -⟩ := List.append_eq_nil_iff.mp htr.symm
    rwa [← hr.unique Run.nil]
  · exact Sometime.last Run.nil

/-- One more step adds the state it leads to. -/
theorem sometime_snoc (hr : M.Run s tr s') (i : ι) (hi : M.admits s' i) :
    M.Sometime P s (tr ++ [(i, (M.step s' i).2)]) ↔
      M.Sometime P s tr ∨ P (M.step s' i).1 := by
  constructor
  · rintro ⟨tr1, tr2, s1, htr, hr1, h⟩
    rcases List.eq_nil_or_concat tr2 with rfl | ⟨tr2', e, rfl⟩
    · rw [List.append_nil] at htr
      subst htr
      exact Or.inr (hr1.unique (hr.snoc i hi) ▸ h)
    · rw [List.concat_eq_append, ← List.append_assoc] at htr
      exact Or.inl ⟨tr1, tr2', s1, (List.append_inj' htr rfl).1, hr1, h⟩
  · rintro (h | h)
    · exact h.append _
    · exact Sometime.last (hr.snoc i hi) h

end Sometime

/-! ## Evaluating a concrete run -/

/-- The state and history after a list of inputs. -/
def exec (M : Machine σ ι ο) (s : σ) : List ι → σ × List (ι × ο)
  | [] => (s, [])
  | i :: is =>
    let rest := M.exec (M.step s i).1 is
    (rest.1, (i, (M.step s i).2) :: rest.2)

/-- Two machines on related inputs stay in related states. -/
theorem exec_relates {σ' ι' ο' : Type} {M' : Machine σ' ι' ο'} {R : σ → σ' → Prop}
    {Q : ι → ι' → Prop}
    (hstep : ∀ s s' i i', R s s' → Q i i' → R (M.step s i).1 (M'.step s' i').1)
    {is : List ι} {is' : List ι'} (hinputs : List.Forall₂ Q is is') {s : σ} {s' : σ'}
    (h : R s s') : R (M.exec s is).1 (M'.exec s' is').1 := by
  induction hinputs generalizing s s' with
  | nil => exact h
  | cons hi _ ih => exact ih (hstep _ _ _ _ h hi)

/-- Every input of the list is admitted where it is taken. -/
def Admitted (M : Machine σ ι ο) (s : σ) : List ι → Prop
  | [] => True
  | i :: is => M.admits s i ∧ M.Admitted (M.step s i).1 is

instance instDecidableAdmitted [∀ s i, Decidable (M.admits s i)] :
    ∀ (s : σ) (is : List ι), Decidable (M.Admitted s is)
  | _, [] => inferInstanceAs (Decidable True)
  | s, i :: is =>
    have := instDecidableAdmitted (M.step s i).1 is
    inferInstanceAs (Decidable (M.admits s i ∧ M.Admitted (M.step s i).1 is))

/-- Inputs that every state admits. -/
theorem Admitted.of_forall {is : List ι} (h : ∀ s, ∀ i ∈ is, M.admits s i) (s : σ) :
    M.Admitted s is := by
  induction is generalizing s with
  | nil => trivial
  | cons i is ih =>
    exact ⟨h s i List.mem_cons_self, ih (fun s j hj => h s j (List.mem_cons_of_mem i hj)) _⟩

/-- An admitted list of inputs is a run. -/
theorem run_exec (s : σ) (is : List ι) (h : M.Admitted s is) :
    M.Run s (M.exec s is).2 (M.exec s is).1 := by
  induction is generalizing s with
  | nil => exact Run.nil
  | cons i is ih => exact (Run.single i h.1).trans (ih _ h.2)

end Machine

end RogiCollector.Verified
