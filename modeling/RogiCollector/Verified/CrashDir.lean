import Mathlib.Algebra.Order.BigOperators.Group.List
import Mathlib.Algebra.Order.Ring.Nat
import RogiCollector.Verified.Table

/-!
# A directory of files that are written, renamed and removed

The usual way to put a record on disk: write a draft, sync it, rename it, sync the
directory; and when the record is done with, remove the file and sync the directory
again.  A rename is atomic and lasts.  What is not synced may be lost: the content
of a file may become anything that is no larger (`tear`), a draft may be gone
(`vanish`), and a removed file may be back (`reappear`).

Sums over a directory are taken with any weight, so that one lemma for each
operation serves the number of files and their total size.
-/

namespace RogiCollector.Verified

/-! ## Sums over a table -/

namespace Table

variable {κ ρ : Type}

/-- `SELECT sum(w) …`. -/
def weigh (t : Table κ ρ) (w : ρ → Nat) : Nat := (t.rows.map fun row => w row.2).sum

@[simp] theorem weigh_empty (w : ρ → Nat) : (empty : Table κ ρ).weigh w = 0 := rfl

theorem weigh_eq_zero {t : Table κ ρ} {w : ρ → Nat} (h : ∀ k r, ¬t.Has k r) : t.weigh w = 0 := by
  have hrows : t.rows = [] := List.eq_nil_iff_forall_not_mem.mpr fun row => h row.1 row.2
  rw [weigh, hrows]
  rfl

theorem weigh_update_le {t : Table κ ρ} {f : κ → ρ → ρ} {w : ρ → Nat}
    (h : ∀ k r, t.Has k r → w (f k r) ≤ w r) : (t.update f).weigh w ≤ t.weigh w := by
  rw [weigh, weigh, update, List.map_map]
  exact List.sum_le_sum fun row hrow => h row.1 row.2 hrow

theorem weigh_delete_le (t : Table κ ρ) (p : κ → ρ → Bool) (w : ρ → Nat) :
    (t.delete p).weigh w ≤ t.weigh w :=
  (List.filter_sublist.map fun row : κ × ρ => w row.2).sum_le_sum fun _ _ => Nat.zero_le _

section Keyed

variable [DecidableEq κ] {t : Table κ ρ} {k : κ} {r : ρ} {w : ρ → Nat}

theorem weigh_upsert (h : t.find k = none) : (t.upsert k r).weigh w = t.weigh w + w r := by
  have hk : k ∉ t.rows.map Prod.fst := by
    intro hmem
    obtain ⟨row, hrow, rfl⟩ := List.mem_map.mp hmem
    exact find_eq_none_iff.mp h row.2 hrow
  rw [upsert, insert, dif_neg hk, weigh, weigh]
  simp only [List.map_append, List.sum_append, List.map_cons, List.map_nil, List.sum_singleton]

theorem weigh_delete_add (h : t.Has k r) :
    (t.delete fun k' _ => k' = k).weigh w + w r = t.weigh w := by
  have hadd : ∀ rows : List (κ × ρ), (rows.map Prod.fst).Nodup → (k, r) ∈ rows →
      ((rows.filter fun row => !decide (row.1 = k)).map fun row => w row.2).sum + w r =
        (rows.map fun row => w row.2).sum := by
    intro rows
    induction rows with
    | nil => exact fun _ hmem => absurd hmem List.not_mem_nil
    | cons row rows ih =>
      intro hnodup hmem
      obtain ⟨hrow, hrows⟩ := List.nodup_cons.mp hnodup
      rcases List.mem_cons.mp hmem with rfl | hmem
      · have hrest : rows.filter (fun row => !decide (row.1 = k)) = rows := by
          refine List.filter_eq_self.mpr fun row' hrow' => ?_
          have hne : row'.1 ≠ k := fun heq => hrow (List.mem_map.mpr ⟨row', hrow', heq⟩)
          simp [hne]
        simp [hrest, Nat.add_comm]
      · have hne : row.1 ≠ k := fun heq => hrow (List.mem_map.mpr ⟨_, hmem, heq.symm⟩)
        have hsum := ih hrows hmem
        rw [List.filter_cons_of_pos (by simpa using hne), List.map_cons, List.map_cons,
          List.sum_cons, List.sum_cons]
        omega
  exact hadd t.rows t.nodup h

theorem weigh_modify (h : t.Has k r) (f : ρ → ρ) :
    (t.modify k f).weigh w + w r = t.weigh w + w (f r) := by
  have hdelete : (t.modify k f).delete (fun k' _ => k' = k) = t.delete fun k' _ => k' = k := by
    simp only [delete, modify, update, mk.injEq, List.filter_map]
    refine (List.map_congr_left (g := id) ?_).trans (List.map_id _)
    intro row hrow
    have hne : row.1 ≠ k := by simpa using (List.mem_filter.mp hrow).2
    simp [hne]
  have hbefore := weigh_delete_add (w := w) h
  have hafter := weigh_delete_add (w := w) (find_eq_some_iff.mp (find_modify_self (f := f) h))
  rw [hdelete] at hafter
  omega

end Keyed

end Table

/-! ## Directories -/

structure File (β : Type) where
  body : β
  synced : Bool
  deriving Repr, DecidableEq

/-- The files with their final names, the drafts under the names they will have,
and the files whose removal is not synced. -/
structure CrashDir (κ β : Type) where
  files : Table κ (File β)
  drafts : Table κ (File β)
  removed : Table κ (File β)

namespace CrashDir

variable {κ β : Type}

/-- A directory of files. -/
def ofFiles (files : Table κ (File β)) : CrashDir κ β := ⟨files, Table.empty, Table.empty⟩

/-- `fsync` of the directory. -/
def syncDir (d : CrashDir κ β) : CrashDir κ β := { d with removed := Table.empty }

section Operations

variable [DecidableEq κ] (d : CrashDir κ β) (k : κ) (b : β)

/-- A new draft. -/
def create : CrashDir κ β := { d with drafts := d.drafts.upsert k ⟨b, false⟩ }

/-- Writing to a draft. -/
def write : CrashDir κ β := { d with drafts := d.drafts.modify k fun _ => ⟨b, false⟩ }

/-- `fsync` of a draft. -/
def sync : CrashDir κ β :=
  { d with drafts := d.drafts.modify k fun f => { f with synced := true } }

/-- The draft gets its name, and replaces a file that has it. -/
def rename : CrashDir κ β :=
  match d.drafts.find k with
  | none => d
  | some f =>
    { d with
      files := d.files.upsert k f
      drafts := d.drafts.delete fun k' _ => k' = k }

/-- The draft is not in the directory any more. -/
def vanish : CrashDir κ β := { d with drafts := d.drafts.delete fun k' _ => k' = k }

def remove : CrashDir κ β :=
  match d.files.find k with
  | none => d
  | some f =>
    { d with
      files := d.files.delete fun k' _ => k' = k
      removed := d.removed.upsert k f }

/-- The content of a file or draft that was not synced becomes `b`. -/
def tear : CrashDir κ β :=
  { d with
    files := d.files.modify k fun f => if f.synced then f else ⟨b, false⟩
    drafts := d.drafts.modify k fun f => if f.synced then f else ⟨b, false⟩ }

/-- A removed file is back. -/
def reappear : CrashDir κ β :=
  match d.removed.find k with
  | none => d
  | some f =>
    { d with
      files := d.files.upsert k f
      removed := d.removed.delete fun k' _ => k' = k }

end Operations

/-! ## Names -/

/-- No name is taken twice. -/
structure Apart (d : CrashDir κ β) : Prop where
  drafts : ∀ k f f', d.files.Has k f → ¬d.drafts.Has k f'
  removed : ∀ k f f', d.files.Has k f → ¬d.removed.Has k f'
  both : ∀ k f f', d.drafts.Has k f → ¬d.removed.Has k f'

variable {d d' : CrashDir κ β} {k k' : κ} {b : β} {f : File β}

/-- Other contents, or fewer of them. -/
theorem Apart.narrow (h : d.Apart)
    (hfiles : ∀ k f, d'.files.Has k f → ∃ f0, d.files.Has k f0)
    (hdrafts : ∀ k f, d'.drafts.Has k f → ∃ f0, d.drafts.Has k f0)
    (hremoved : ∀ k f, d'.removed.Has k f → ∃ f0, d.removed.Has k f0) : d'.Apart where
  drafts k f f' hf hf' := by
    obtain ⟨f0, hf0⟩ := hfiles k f hf
    obtain ⟨f1, hf1⟩ := hdrafts k f' hf'
    exact h.drafts k f0 f1 hf0 hf1
  removed k f f' hf hf' := by
    obtain ⟨f0, hf0⟩ := hfiles k f hf
    obtain ⟨f1, hf1⟩ := hremoved k f' hf'
    exact h.removed k f0 f1 hf0 hf1
  both k f f' hf hf' := by
    obtain ⟨f0, hf0⟩ := hdrafts k f hf
    obtain ⟨f1, hf1⟩ := hremoved k f' hf'
    exact h.both k f0 f1 hf0 hf1

theorem Apart.ofFiles (files : Table κ (File β)) : (ofFiles files).Apart where
  drafts k _ f _ := Table.has_empty k f
  removed k _ f _ := Table.has_empty k f
  both k _ f _ := Table.has_empty k f

theorem Apart.syncDir (h : d.Apart) : d.syncDir.Apart :=
  h.narrow (fun _ f hf => ⟨f, hf⟩) (fun _ f hf => ⟨f, hf⟩)
    fun k f hf => absurd hf (Table.has_empty k f)

variable [DecidableEq κ]

theorem Apart.free (h : d.Apart) (hf : d.drafts.Has k f) : d.files.find k = none :=
  Table.find_eq_none_iff.mpr fun f' hf' => h.drafts k f' f hf' hf

theorem Apart.create (h : d.Apart) (hfiles : d.files.find k = none)
    (hremoved : d.removed.find k = none) : (d.create k b).Apart where
  drafts k' f f' hf hf' := by
    rcases Table.has_upsert.mp hf' with ⟨rfl, -⟩ | ⟨-, hf'⟩
    · exact Table.find_eq_none_iff.mp hfiles f hf
    · exact h.drafts k' f f' hf hf'
  removed := h.removed
  both k' f f' hf hf' := by
    rcases Table.has_upsert.mp hf with ⟨rfl, -⟩ | ⟨-, hf⟩
    · exact Table.find_eq_none_iff.mp hremoved f' hf'
    · exact h.both k' f f' hf hf'

theorem has_of_has_modify {t : Table κ (File β)} {g : File β → File β}
    (h : (t.modify k g).Has k' f) : ∃ f0, t.Has k' f0 := by
  rcases Table.has_modify.mp h with ⟨rfl, f0, hf0, -⟩ | ⟨-, hf⟩
  · exact ⟨f0, hf0⟩
  · exact ⟨f, hf⟩

theorem Apart.write (h : d.Apart) : (d.write k b).Apart :=
  h.narrow (fun _ f hf => ⟨f, hf⟩) (fun _ _ => has_of_has_modify) fun _ f hf => ⟨f, hf⟩

theorem Apart.sync (h : d.Apart) : (d.sync k).Apart :=
  h.narrow (fun _ f hf => ⟨f, hf⟩) (fun _ _ => has_of_has_modify) fun _ f hf => ⟨f, hf⟩

theorem Apart.vanish (h : d.Apart) : (d.vanish k).Apart :=
  h.narrow (fun _ f hf => ⟨f, hf⟩) (fun _ f hf => ⟨f, (Table.has_delete.mp hf).1⟩)
    fun _ f hf => ⟨f, hf⟩

theorem Apart.tear (h : d.Apart) : (d.tear k b).Apart :=
  h.narrow (fun _ _ => has_of_has_modify) (fun _ _ => has_of_has_modify) fun _ f hf => ⟨f, hf⟩

theorem rename_of_has (hf : d.drafts.Has k f) :
    d.rename k = { d with
      files := d.files.upsert k f
      drafts := d.drafts.delete fun k' _ => k' = k } := by
  rw [rename, Table.find_eq_some_iff.mpr hf]

theorem remove_of_has (hf : d.files.Has k f) :
    d.remove k = { d with
      files := d.files.delete fun k' _ => k' = k
      removed := d.removed.upsert k f } := by
  rw [remove, Table.find_eq_some_iff.mpr hf]

theorem reappear_of_has (hf : d.removed.Has k f) :
    d.reappear k = { d with
      files := d.files.upsert k f
      removed := d.removed.delete fun k' _ => k' = k } := by
  rw [reappear, Table.find_eq_some_iff.mpr hf]

theorem Apart.rename (h : d.Apart) (k : κ) : (d.rename k).Apart := by
  cases hfind : d.drafts.find k with
  | none =>
    rw [CrashDir.rename, hfind]
    exact h
  | some f =>
    have hf := Table.find_eq_some_iff.mp hfind
    rw [rename_of_has hf]
    constructor
    · intro k' f1 f2 hf1 hf2
      obtain ⟨hf2, hne⟩ := Table.has_delete.mp hf2
      rcases Table.has_upsert.mp hf1 with ⟨rfl, -⟩ | ⟨-, hf1⟩
      · simp at hne
      · exact h.drafts k' f1 f2 hf1 hf2
    · intro k' f1 f2 hf1 hf2
      rcases Table.has_upsert.mp hf1 with ⟨rfl, -⟩ | ⟨-, hf1⟩
      · exact h.both k' f f2 hf hf2
      · exact h.removed k' f1 f2 hf1 hf2
    · exact fun k' f1 f2 hf1 => h.both k' f1 f2 (Table.has_delete.mp hf1).1

theorem Apart.remove (h : d.Apart) (k : κ) : (d.remove k).Apart := by
  cases hfind : d.files.find k with
  | none =>
    rw [CrashDir.remove, hfind]
    exact h
  | some f =>
    have hf := Table.find_eq_some_iff.mp hfind
    rw [remove_of_has hf]
    constructor
    · exact fun k' f1 f2 hf1 => h.drafts k' f1 f2 (Table.has_delete.mp hf1).1
    · intro k' f1 f2 hf1 hf2
      obtain ⟨hf1, hne⟩ := Table.has_delete.mp hf1
      rcases Table.has_upsert.mp hf2 with ⟨rfl, -⟩ | ⟨-, hf2⟩
      · simp at hne
      · exact h.removed k' f1 f2 hf1 hf2
    · intro k' f1 f2 hf1 hf2
      rcases Table.has_upsert.mp hf2 with ⟨rfl, -⟩ | ⟨-, hf2⟩
      · exact h.drafts k' f f1 hf hf1
      · exact h.both k' f1 f2 hf1 hf2

theorem Apart.reappear (h : d.Apart) (k : κ) : (d.reappear k).Apart := by
  cases hfind : d.removed.find k with
  | none =>
    rw [CrashDir.reappear, hfind]
    exact h
  | some f =>
    have hf := Table.find_eq_some_iff.mp hfind
    rw [reappear_of_has hf]
    constructor
    · intro k' f1 f2 hf1 hf2
      rcases Table.has_upsert.mp hf1 with ⟨rfl, -⟩ | ⟨-, hf1⟩
      · exact h.both k' f2 f hf2 hf
      · exact h.drafts k' f1 f2 hf1 hf2
    · intro k' f1 f2 hf1 hf2
      obtain ⟨hf2, hne⟩ := Table.has_delete.mp hf2
      rcases Table.has_upsert.mp hf1 with ⟨rfl, -⟩ | ⟨-, hf1⟩
      · simp at hne
      · exact h.removed k' f1 f2 hf1 hf2
    · exact fun k' f1 f2 hf1 hf2 => h.both k' f1 f2 hf1 (Table.has_delete.mp hf2).1

/-! ## Files stay -/

theorem has_rename (hf : d.drafts.Has k f) : (d.rename k).files.Has k f := by
  rw [rename_of_has hf]
  exact Table.has_upsert.mpr (Or.inl ⟨rfl, rfl⟩)

theorem has_rename_of_has (h : d.Apart) (hf : d.files.Has k' f) : (d.rename k).files.Has k' f := by
  cases hfind : d.drafts.find k with
  | none =>
    rw [CrashDir.rename, hfind]
    exact hf
  | some f0 =>
    have hf0 := Table.find_eq_some_iff.mp hfind
    have hne : k' ≠ k := by
      rintro rfl
      exact h.drafts k' f f0 hf hf0
    rw [rename_of_has hf0]
    exact Table.has_upsert.mpr (Or.inr ⟨hne, hf⟩)

theorem has_remove_of_ne (hf : d.files.Has k' f) (hne : k' ≠ k) : (d.remove k).files.Has k' f := by
  rw [CrashDir.remove]
  split
  · exact hf
  · exact Table.has_delete.mpr ⟨hf, by simpa using hne⟩

theorem has_reappear_of_has (h : d.Apart) (hf : d.files.Has k' f) :
    (d.reappear k).files.Has k' f := by
  cases hfind : d.removed.find k with
  | none =>
    rw [CrashDir.reappear, hfind]
    exact hf
  | some f0 =>
    have hf0 := Table.find_eq_some_iff.mp hfind
    have hne : k' ≠ k := by
      rintro rfl
      exact h.removed k' f f0 hf hf0
    rw [reappear_of_has hf0]
    exact Table.has_upsert.mpr (Or.inr ⟨hne, hf⟩)

/-- Synced content stays, and any file keeps its name. -/
theorem has_tear_of_has (hf : d.files.Has k' f) :
    ∃ f', (d.tear k b).files.Has k' f' ∧ (f.synced = true → f' = f) := by
  by_cases hk : k' = k
  · subst hk
    refine ⟨_, Table.has_modify.mpr (Or.inl ⟨rfl, f, hf, rfl⟩), ?_⟩
    intro hsynced
    rw [if_pos hsynced]
  · exact ⟨f, Table.has_modify.mpr (Or.inr ⟨hk, hf⟩), fun _ => rfl⟩

/-! ## Sums -/

omit [DecidableEq κ]

/-- The files and the drafts together. -/
def load (d : CrashDir κ β) (w : β → Nat) : Nat :=
  d.files.weigh (fun f => w f.body) + d.drafts.weigh fun f => w f.body

variable [DecidableEq κ] {w : β → Nat}

theorem load_create (hfree : d.drafts.find k = none) : (d.create k b).load w = d.load w + w b := by
  have hsum := Table.weigh_upsert (r := ⟨b, false⟩) (w := fun f : File β => w f.body) hfree
  simp only [load, create, hsum]
  omega

theorem load_write (hf : d.drafts.Has k f) :
    (d.write k b).load w + w f.body = d.load w + w b := by
  have hsum := Table.weigh_modify (w := fun f : File β => w f.body) hf fun _ => ⟨b, false⟩
  simp only [load, write] at hsum ⊢
  omega

theorem load_sync (hf : d.drafts.Has k f) : (d.sync k).load w = d.load w := by
  have hsum := Table.weigh_modify (w := fun f : File β => w f.body) hf
    fun f => { f with synced := true }
  simp only [load, sync] at hsum ⊢
  omega

theorem load_vanish_le : (d.vanish k).load w ≤ d.load w := by
  have hdrafts := Table.weigh_delete_le d.drafts (fun k' _ => k' = k) fun f => w f.body
  simp only [load, vanish]
  omega

theorem weigh_rename (h : d.Apart) (hf : d.drafts.Has k f) :
    (d.rename k).files.weigh (fun f => w f.body) =
      d.files.weigh (fun f => w f.body) + w f.body := by
  rw [rename_of_has hf]
  exact Table.weigh_upsert (h.free hf)

theorem load_rename (h : d.Apart) (hf : d.drafts.Has k f) : (d.rename k).load w = d.load w := by
  have hfiles := weigh_rename (w := w) h hf
  have hdrafts := Table.weigh_delete_add (w := fun f : File β => w f.body) hf
  rw [load, hfiles, rename_of_has hf, load]
  dsimp only
  omega

theorem weigh_remove (hf : d.files.Has k f) :
    (d.remove k).files.weigh (fun f => w f.body) + w f.body =
      d.files.weigh fun f => w f.body := by
  rw [remove_of_has hf]
  exact Table.weigh_delete_add hf

theorem load_remove_le (hf : d.files.Has k f) : (d.remove k).load w ≤ d.load w := by
  have hfiles := weigh_remove (w := w) hf
  rw [remove_of_has hf] at hfiles ⊢
  rw [load, load]
  dsimp only at hfiles ⊢
  omega

theorem weigh_modify_le {t : Table κ (File β)} {g : File β → File β}
    (h : ∀ f, t.Has k f → w (g f).body ≤ w f.body) :
    (t.modify k g).weigh (fun f => w f.body) ≤ t.weigh fun f => w f.body := by
  refine Table.weigh_update_le fun k' f hf => ?_
  split
  · rename_i hk
    exact h f (hk ▸ hf)
  · exact le_rfl

/-- Content that is lost does not make files larger. -/
theorem load_tear_le
    (h : ∀ f, d.files.Has k f ∨ d.drafts.Has k f → f.synced = false → w b ≤ w f.body) :
    (d.tear k b).load w ≤ d.load w := by
  have hle : ∀ f, d.files.Has k f ∨ d.drafts.Has k f →
      w (if f.synced then f else ⟨b, false⟩).body ≤ w f.body := by
    intro f hf
    split
    · exact le_rfl
    · rename_i hsynced
      exact h f hf (by simpa using hsynced)
  have hfiles := weigh_modify_le (w := w) fun f hf => hle f (Or.inl hf)
  have hdrafts := weigh_modify_le (w := w) fun f hf => hle f (Or.inr hf)
  simp only [load, tear]
  omega

end CrashDir

end RogiCollector.Verified
