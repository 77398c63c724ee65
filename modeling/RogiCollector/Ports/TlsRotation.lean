import RogiCollector.Verified.Script
import RogiCollector.Verified.Table

/-!
# Renewing the server certificate

`renew` of `rotate-server-tls.py` makes a new generation directory next to the old ones,
points `current` at it by replacing a symbolic link, and removes the old directories.  An
exception behind the creation of the directory ends in a handler that removes the new
directory again, whether or not it was published.

So an exception is harmless until the link was replaced, and fatal behind that: the handler
removes the directory that `current` points to, unless it cannot remove its files, which is
not reported either.

## Main definitions

* `ops` — the operations of `renew`, in their order.
* `renew` — with an exception at any of them.
* `Safe` — `current` points to the complete directory it should point to.
-/

namespace RogiCollector.Ports.TlsRotation

open Verified

/-! ## The directory -/

inductive File where
  | key
  | csr
  | cert
  | extensions
  | ca
  | other (name : String)
  deriving Repr, DecidableEq

/-- What the destination holds: its generation directories with their files, the targets of
`current` and `.current-next`, and whether `current` was replaced. -/
structure Destination where
  generations : Table String (List File)
  current : Option String
  next : Option String
  switched : Bool

/-- A generation with key, certificate and issuer. -/
def complete (files : List File) : Bool := .key ∈ files && .cert ∈ files && .ca ∈ files

/-- The directory exists and is complete. -/
def Destination.usable (d : Destination) (g : String) : Bool :=
  (d.generations.find g).any complete

/-- `(current/'server.pem').exists()`. -/
def Destination.hasCert (d : Destination) : Bool :=
  (d.current.bind d.generations.find).any fun files => .cert ∈ files

/-! ## The operations -/

inductive Op where
  | mkdir
  | openLock
  | flock
  | lookCurrent
  | checkEnd
  | verifyCurrent
  | mkdtemp
  | request
  | writeExtensions
  | sign
  | verify
  | copyCa
  | unlinkCsr
  | unlinkExtensions
  | listGeneration
  | chmod (f : File)
  | chown (f : File)
  | chownGeneration
  | unlinkNext
  | symlinkNext
  | replace
  | list
  | remove (old : String)
  deriving Repr, DecidableEq

/-- A call of `renew`: its options, what `openssl` says of the current certificate, and the
name that `mkdtemp` finds. -/
structure Request where
  force : Bool
  owner : Bool
  valid : Bool
  trusted : Bool
  name : String

namespace Destination

variable (d : Destination) (name : String)

/-- Files appear in the new directory. -/
def add (files : List File) : Destination :=
  { d with generations := d.generations.modify name (· ++ files) }

def unlink (f : File) : Destination :=
  { d with generations := d.generations.modify name fun files => files.filter (· ≠ f) }

/-- The effect of an operation; modes and owners are not looked at. -/
def apply : Op → Destination
  | .mkdtemp => { d with generations := d.generations.upsert name [] }
  | .request => d.add name [.key, .csr]
  | .writeExtensions => d.add name [.extensions]
  | .sign => d.add name [.cert]
  | .copyCa => d.add name [.ca]
  | .unlinkCsr => d.unlink name .csr
  | .unlinkExtensions => d.unlink name .extensions
  | .unlinkNext => { d with next := none }
  | .symlinkNext => { d with next := some name }
  | .replace => { d with current := d.next, next := none, switched := true }
  | .remove old => { d with generations := d.generations.delete fun g _ => g = old }
  | _ => d

/-- The effect of an operation that raises an exception when it has dealt with some files:
a command may have written them, and removing a directory may have got so far. -/
def interrupt (op : Op) (dealt : File → Bool) : Destination :=
  match op with
  | .request => d.add name ([.key, .csr].filter dealt)
  | .writeExtensions => d.add name ([.extensions].filter dealt)
  | .sign => d.add name ([.cert].filter dealt)
  | .copyCa => d.add name ([.ca].filter dealt)
  | .remove old =>
    { d with generations := d.generations.modify old fun files => files.filter (!dealt ·) }
  | _ => d

/-- `shutil.rmtree(generation, ignore_errors=True)`; some files may resist. -/
def cleanup (resists : File → Bool) : Destination :=
  { d with
    generations := (d.generations.modify name fun files => files.filter resists).delete
      fun g files => g = name ∧ files = [] }

end Destination

def script (name : String) : Script Destination Op (File → Bool) where
  apply d op := d.apply name op
  interrupt d op dealt := d.interrupt name op dealt

/-- The checks of the current certificate are made. -/
def checked (d : Destination) (r : Request) : Bool := !r.force && d.hasCert

/-- The current certificate is good for another month: `renew` returns `False`. -/
def stays (d : Destination) (r : Request) : Bool := checked d r && r.valid && r.trusted

def checks (d : Destination) (r : Request) : List Op :=
  [.mkdir, .openLock, .flock] ++ (if r.force then [] else [.lookCurrent]) ++
    if checked d r then [.checkEnd, .verifyCurrent] else []

/-- Making the new directory, up to the link that will become `current`. -/
def build (r : Request) : List Op :=
  [.request, .writeExtensions, .sign, .verify, .copyCa, .unlinkCsr, .unlinkExtensions,
    .listGeneration] ++
    [File.key, .cert, .ca].flatMap (fun f => .chmod f :: if r.owner then [.chown f] else []) ++
    (if r.owner then [.chownGeneration] else []) ++ [.unlinkNext, .symlinkNext]

/-- Removing the old directories. -/
def prune (d : Destination) : List Op := .list :: d.generations.keys.map .remove

/-- The operations of `renew`. -/
def ops (d : Destination) (r : Request) : List Op :=
  checks d r ++ if stays d r then [] else (.mkdtemp :: build r) ++ .replace :: prune d

/-- The operation is inside the `try`. -/
def Op.guarded : Op → Bool
  | .mkdir | .openLock | .flock | .lookCurrent | .checkEnd | .verifyCurrent | .mkdtemp => false
  | _ => true

/-- The operation comes behind the switch. -/
def Op.prunes : Op → Bool
  | .list | .remove _ => true
  | _ => false

inductive Result where
  | unchanged
  | renewed
  | raised
  deriving Repr, DecidableEq

/-- `renew`, with an exception at one of its operations or without. -/
def renew (d : Destination) (r : Request) (fault : Option (Nat × (File → Bool)))
    (resists : File → Bool) : Result × Destination :=
  match (script r.name).run d (ops d r) fault with
  | (d', none) => (if stays d r then .unchanged else .renewed, d')
  | (d', some op) => (.raised, if op.guarded then d'.cleanup r.name resists else d')

/-! ## What should hold -/

/-- `current` points to a complete directory, the old one before the switch and the new one
behind it; without an exception there is no other. -/
def Safe (old new : String) (outcome : Result × Destination) : Prop :=
  outcome.2.current = some (if outcome.2.switched then new else old) ∧
    outcome.2.usable (if outcome.2.switched then new else old) = true ∧
    (outcome.1 ≠ .raised → outcome.2.generations.keys.length = 1)

/-- The exception, if there is one, does not come behind the switch, unless the handler cannot
remove the files; and a certificate that stays is the only one. -/
def harmless (d : Destination) (r : Request) (fault : Option (Nat × (File → Bool)))
    (resists : File → Bool) : Bool :=
  match Script.hit (ops d r) fault with
  | some op => !op.prunes || (resists .key && resists .cert && resists .ca)
  | none => !stays d r || d.generations.keys.length = 1

/-! ## Before the switch -/

variable {d s : Destination} {r : Request} {name old : String}

theorem find_delete {t : Table String (List File)} {p : String → List File → Bool} {g : String}
    (h : ∀ files, t.Has g files → p g files = false) : (t.delete p).find g = t.find g := by
  apply Table.find_congr
  intro files
  rw [Table.has_delete]
  exact ⟨fun hhas => hhas.1, fun hhas => ⟨hhas, h files hhas⟩⟩

/-- Nothing but the new directory has changed. -/
structure Untouched (d : Destination) (name : String) (s : Destination) : Prop where
  current : s.current = d.current
  switched : s.switched = d.switched
  others : ∀ g, g ≠ name → s.generations.find g = d.generations.find g

theorem Untouched.refl (d : Destination) (name : String) : Untouched d name d :=
  ⟨rfl, rfl, fun _ _ => rfl⟩

/-- The operations that concern only the new directory and the link that is not yet used. -/
def Op.unpublished : Op → Bool
  | .replace | .list | .remove _ => false
  | _ => true

theorem Untouched.add (h : Untouched d name s) (files : List File) :
    Untouched d name (s.add name files) :=
  { h with others := fun g hg => (Table.find_modify_of_ne hg).trans (h.others g hg) }

theorem Untouched.unlink (h : Untouched d name s) (f : File) :
    Untouched d name (s.unlink name f) :=
  { h with others := fun g hg => (Table.find_modify_of_ne hg).trans (h.others g hg) }

variable {op : Op}

theorem Untouched.apply (h : Untouched d name s) (hop : op.unpublished = true) :
    Untouched d name (s.apply name op) := by
  cases op with
  | mkdtemp =>
    exact { h with others := fun g hg => (Table.find_upsert_of_ne hg).trans (h.others g hg) }
  | request | writeExtensions | sign | copyCa => exact h.add _
  | unlinkCsr | unlinkExtensions => exact h.unlink _
  | unlinkNext | symlinkNext => exact { h with }
  | replace | remove => contradiction
  | _ => exact h

theorem Untouched.interrupt (h : Untouched d name s) (hop : op.prunes = false)
    (dealt : File → Bool) : Untouched d name (s.interrupt name op dealt) := by
  cases op with
  | request | writeExtensions | sign | copyCa => exact h.add _
  | remove g => contradiction
  | _ => exact h

theorem Untouched.cleanup (h : Untouched d name s) (resists : File → Bool) :
    Untouched d name (s.cleanup name resists) where
  current := h.current
  switched := h.switched
  others g hg := by
    simp only [Destination.cleanup]
    rw [find_delete fun files _ => by simp [hg], Table.find_modify_of_ne hg]
    exact h.others g hg

/-- Up to the switch no operation is public. -/
theorem unpublished_of_mem (h : op ∈ checks d r ++ .mkdtemp :: build r) :
    op.unpublished = true := by
  have hbuild : ∀ owner, ∀ op ∈ build ⟨false, owner, false, false, ""⟩, op.unpublished = true := by
    decide
  have hchecks : ∀ f c : Bool, ∀ op ∈ [Op.mkdir, .openLock, .flock] ++
      (if f then [] else [Op.lookCurrent]) ++
      (if c then [Op.checkEnd, .verifyCurrent] else []), op.unpublished = true := by decide
  rcases List.mem_append.mp h with h | h
  · exact hchecks r.force (checked d r) op h
  · rcases List.mem_cons.mp h with rfl | h
    · rfl
    · exact hbuild r.owner op h

theorem prunes_of_unpublished (h : op.unpublished = true) : op.prunes = false := by
  cases op <;> first | rfl | contradiction

variable {l : List Op}

theorem Untouched.run (h : Untouched d name s) (hl : ∀ op ∈ l, op.unpublished = true)
    (fault : Option (Nat × (File → Bool))) :
    Untouched d name ((script name).run s l fault).1 := by
  refine Script.run_invariant h (fun op hop s hs => ?_) fault
  exact ⟨hs.apply (hl op hop), fun dealt => hs.interrupt (prunes_of_unpublished (hl op hop)) dealt⟩

theorem Untouched.foldl (h : Untouched d name s) (hl : ∀ op ∈ l, op.unpublished = true) :
    Untouched d name (l.foldl (script name).apply s) := by
  have hrun := h.run hl none
  rw [Script.run_whole rfl] at hrun
  exact hrun

/-! ## The new directory -/

/-- What an operation does to the files of the new directory. -/
def Op.effect : Op → List File → List File
  | .request, files => files ++ [.key, .csr]
  | .writeExtensions, files => files ++ [.extensions]
  | .sign, files => files ++ [.cert]
  | .copyCa, files => files ++ [.ca]
  | .unlinkCsr, files => files.filter (· ≠ .csr)
  | .unlinkExtensions, files => files.filter (· ≠ .extensions)
  | _, files => files

theorem find_apply {files : List File} (h : s.generations.find name = some files)
    (hop : op.unpublished = true) (hne : op ≠ .mkdtemp) :
    (s.apply name op).generations.find name = some (op.effect files) := by
  have hhas := Table.find_eq_some_iff.mp h
  cases op with
  | mkdtemp | replace | remove => contradiction
  | request => exact Table.find_modify_self hhas
  | writeExtensions => exact Table.find_modify_self hhas
  | sign => exact Table.find_modify_self hhas
  | copyCa => exact Table.find_modify_self hhas
  | unlinkCsr => exact Table.find_modify_self hhas
  | unlinkExtensions => exact Table.find_modify_self hhas
  | _ => exact h

theorem find_foldl {files : List File} (h : s.generations.find name = some files)
    (hl : ∀ op ∈ l, op.unpublished = true ∧ op ≠ .mkdtemp) :
    (l.foldl (script name).apply s).generations.find name =
      some (l.foldl (fun files op => op.effect files) files) := by
  induction l generalizing s files with
  | nil => exact h
  | cons op l ih =>
    obtain ⟨hop, hne⟩ := hl op List.mem_cons_self
    exact ih (find_apply h hop hne) fun op' hop' => hl op' (List.mem_cons_of_mem _ hop')

/-- The files of a directory that was built. -/
def fresh : List File := [.key, .cert, .ca]

theorem find_build (h : s.generations.find r.name = some []) :
    ((build r).foldl (script r.name).apply s).generations.find r.name = some fresh := by
  have hbuild : ∀ owner, (∀ op ∈ build ⟨false, owner, false, false, ""⟩,
      op.unpublished = true ∧ op ≠ .mkdtemp) ∧
      (build ⟨false, owner, false, false, ""⟩).foldl (fun files op => op.effect files) [] =
        fresh := by decide
  obtain ⟨hops, hfiles⟩ := hbuild r.owner
  exact (find_foldl h hops).trans (congrArg some hfiles)

theorem next_build (s : Destination) (r : Request) :
    ((build r).foldl (script r.name).apply s).next = some r.name := by
  rw [build, List.foldl_append]
  rfl

/-- The state in which the link is replaced: the old directory is in use and the new one is
complete. -/
structure Ready (d : Destination) (name : String) (s : Destination) : Prop
    extends Untouched d name s where
  files : s.generations.find name = some fresh
  next : s.next = some name

/-- The operations up to the switch. -/
def prepare (d : Destination) (r : Request) : List Op := checks d r ++ .mkdtemp :: build r

theorem ready_prepare (d : Destination) (r : Request) :
    Ready d r.name ((prepare d r).foldl (script r.name).apply d) where
  toUntouched := (Untouched.refl d r.name).foldl fun _ => unpublished_of_mem
  files := by
    rw [prepare, List.foldl_append, List.foldl_cons]
    exact find_build Table.find_upsert_self
  next := by
    rw [prepare, List.foldl_append, List.foldl_cons]
    exact next_build _ r

/-! ## Behind the switch -/

/-- The new directory is in use and complete. -/
structure Published (name : String) (s : Destination) : Prop where
  current : s.current = some name
  switched : s.switched = true
  files : s.generations.find name = some fresh

theorem Ready.replace (h : Ready d name s) : Published name (s.apply name .replace) :=
  ⟨h.next, rfl, h.files⟩

theorem Published.prune (h : Published r.name s) (hname : r.name ∉ d.generations.keys)
    (hop : op ∈ prune d) :
    Published r.name (s.apply r.name op) ∧
      ∀ dealt, Published r.name (s.interrupt r.name op dealt) := by
  rcases List.mem_cons.mp hop with rfl | hop
  · exact ⟨h, fun _ => h⟩
  · obtain ⟨g, hg, rfl⟩ := List.mem_map.mp hop
    have hne : r.name ≠ g := fun he => hname (he ▸ hg)
    refine ⟨{ h with files := ?_ }, fun dealt => { h with files := ?_ }⟩
    · exact (find_delete fun _ _ => by simp [hne]).trans h.files
    · exact (Table.find_modify_of_ne hne).trans h.files

theorem prune_prunes (h : op ∈ prune d) : op.prunes = true ∧ op.guarded = true := by
  rcases List.mem_cons.mp h with rfl | h
  · exact ⟨rfl, rfl⟩
  · obtain ⟨g, -, rfl⟩ := List.mem_map.mp h
    exact ⟨rfl, rfl⟩

theorem find_remove (s : Destination) (name old g : String) :
    ((script name).apply s (.remove old)).generations.find g =
      if g = old then none else s.generations.find g := by
  by_cases hold : g = old
  · rw [if_pos hold, Table.find_eq_none_iff]
    intro files hhas
    exact absurd (Table.has_delete.mp hhas).2 (by simp [hold])
  · rw [if_neg hold]
    exact find_delete fun _ _ => by simp [hold]

theorem find_removes (l : List String) (s : Destination) (name g : String) :
    ((l.map Op.remove).foldl (script name).apply s).generations.find g =
      if g ∈ l then none else s.generations.find g := by
  induction l generalizing s with
  | nil => simp
  | cons old l ih =>
    rw [List.map_cons, List.foldl_cons, ih, find_remove]
    by_cases hl : g ∈ l
    · simp [hl]
    · by_cases hold : g = old <;> simp [hl, hold]

/-- With the old directories removed, the new one is the only one. -/
theorem keys_prune (hothers : ∀ g, g ≠ name → s.generations.find g = d.generations.find g)
    (hfiles : s.generations.find name = some fresh) (hname : name ∉ d.generations.keys) :
    ((prune d).foldl (script name).apply s).generations.keys.length = 1 := by
  have hkeys : ∀ g, g ∈ ((prune d).foldl (script name).apply s).generations.keys ↔
      g ∈ [name] := by
    intro g
    have hfind := find_removes d.generations.keys s name g
    have hmem : g ∈ ((prune d).foldl (script name).apply s).generations.keys ↔
        (((prune d).foldl (script name).apply s).generations.find g).isSome := by
      rw [Table.mem_keys, Option.isSome_iff_exists]
      exact exists_congr fun _ => Table.find_eq_some_iff.symm
    rw [hmem, List.mem_singleton]
    change (((d.generations.keys.map Op.remove).foldl (script name).apply s).generations.find
      g).isSome ↔ g = name
    rw [hfind]
    by_cases hg : g = name
    · subst hg
      simp [hname, hfiles]
    · rw [hothers g hg]
      cases hd : d.generations.find g with
      | none => simp [hg]
      | some files =>
        have hmem : g ∈ d.generations.keys :=
          Table.mem_keys.mpr ⟨files, Table.find_eq_some_iff.mp hd⟩
        simp [hg, hmem]
  have hperm := (List.perm_ext_iff_of_nodup (Table.nodup_keys _) (List.nodup_singleton name)).mpr
    hkeys
  simpa using hperm.length_eq

/-- What the handler leaves of the new directory. -/
theorem usable_cleanup (h : s.generations.find name = some fresh) (resists : File → Bool) :
    (s.cleanup name resists).usable name =
      (resists .key && resists .cert && resists .ca) := by
  have hmodify : (s.generations.modify name fun files => files.filter resists).find name =
      some (fresh.filter resists) := Table.find_modify_self (Table.find_eq_some_iff.mp h)
  simp only [Destination.usable, Destination.cleanup]
  by_cases hempty : fresh.filter resists = []
  · have hnone : ((s.generations.modify name fun files => files.filter resists).delete
        fun g files => g = name ∧ files = []).find name = none := by
      rw [Table.find_eq_none_iff]
      intro files hhas
      obtain ⟨hhas, hp⟩ := Table.has_delete.mp hhas
      rw [← Table.find_eq_some_iff, hmodify, Option.some.injEq] at hhas
      simp [← hhas, hempty] at hp
    rw [hnone]
    have hkey := List.filter_eq_nil_iff.mp hempty .key (by decide)
    simp [hkey]
  · have hkept : ((s.generations.modify name fun files => files.filter resists).delete
        fun g files => g = name ∧ files = []).find name = some (fresh.filter resists) := by
      rw [find_delete, hmodify]
      intro files hhas
      rw [← Table.find_eq_some_iff, hmodify, Option.some.injEq] at hhas
      simp [← hhas, hempty]
    rw [hkept]
    simp [complete, fresh, List.mem_filter]

/-! ## The call -/

theorem ops_of_stays (h : stays d r = true) : ops d r = checks d r := by
  simp [ops, h]

theorem ops_of_not_stays (h : stays d r = false) :
    ops d r = prepare d r ++ .replace :: prune d := by
  simp [ops, prepare, h, List.append_assoc]

/-- An old directory in use that nothing has touched is complete. -/
theorem safe_of_untouched (hcurrent : d.current = some old) (husable : d.usable old = true)
    (hname : r.name ∉ d.generations.keys) (hswitched : d.switched = false)
    (h : Untouched d r.name s) : Safe old r.name (.raised, s) := by
  have hne : old ≠ r.name := by
    intro he
    have hnone : d.generations.find old = none := by
      rw [Table.find_eq_none_iff]
      intro files hhas
      exact hname (he ▸ Table.mem_keys.mpr ⟨files, hhas⟩)
    simp [Destination.usable, hnone] at husable
  have hs : s.switched = false := h.switched.trans hswitched
  refine ⟨?_, ?_, fun hraised => absurd rfl hraised⟩
  · simp [hs, h.current, hcurrent]
  · simpa [hs, Destination.usable, h.others old hne] using husable

/-- The checks change nothing. -/
theorem run_checks (fault : Option (Nat × (File → Bool))) :
    ((script r.name).run d (checks d r) fault).1 = d := by
  refine Script.run_invariant (I := (· = d)) rfl (fun op hop s hs => ?_) fault
  have hidle : op ∈ [Op.mkdir, .openLock, .flock, .lookCurrent, .checkEnd, .verifyCurrent] := by
    simp only [checks] at hop
    grind
  subst hs
  simp only [List.mem_cons, List.not_mem_nil, or_false] at hidle
  rcases hidle with rfl | rfl | rfl | rfl | rfl | rfl <;> exact ⟨rfl, fun _ => rfl⟩

theorem run_eq (ops : List Op) (name : String) (s : Destination)
    (fault : Option (Nat × (File → Bool))) :
    (script name).run s ops fault =
      (((script name).run s ops fault).1, Script.hit ops fault) := by
  rw [← Script.run_raised (S := script name) (s := s)]

/-- A renewal that is not needed. -/
theorem safe_stays (hcurrent : d.current = some old) (husable : d.usable old = true)
    (hswitched : d.switched = false) (hstays : stays d r = true)
    (fault : Option (Nat × (File → Bool))) (resists : File → Bool) :
    Safe old r.name (renew d r fault resists) ↔ harmless d r fault resists = true := by
  have hrun := run_eq (checks d r) r.name d fault
  rw [run_checks] at hrun
  simp only [renew, harmless, ops_of_stays hstays, hrun, hstays]
  cases hhit : Script.hit (checks d r) fault with
  | none => simp [Safe, hcurrent, husable, hswitched]
  | some op =>
    have hmem : op ∈ checks d r := by
      obtain ⟨f, -, hf⟩ := Option.bind_eq_some_iff.mp hhit
      exact List.mem_of_getElem? hf
    have hop : op.guarded = false ∧ op.prunes = false := by
      simp only [checks] at hmem
      grind [Op.guarded, Op.prunes]
    simp [Safe, hcurrent, husable, hswitched, hop]

/-- An exception up to the switch. -/
theorem safe_before (hcurrent : d.current = some old) (husable : d.usable old = true)
    (hname : r.name ∉ d.generations.keys) (hswitched : d.switched = false)
    (h : Untouched d r.name s) (op : Op) (resists : File → Bool) :
    Safe old r.name (.raised, if op.guarded then s.cleanup r.name resists else s) := by
  cases op.guarded with
  | true => exact safe_of_untouched hcurrent husable hname hswitched (h.cleanup resists)
  | false => exact safe_of_untouched hcurrent husable hname hswitched h

/-- An exception behind the switch. -/
theorem safe_behind (h : Published name s) (resists : File → Bool) :
    Safe old name (.raised, s.cleanup name resists) ↔
      (resists .key && resists .cert && resists .ca) = true := by
  have hswitched : (s.cleanup name resists).switched = true := h.switched
  have hcurrent : (s.cleanup name resists).current = some name := h.current
  simp only [Safe, hswitched, hcurrent, if_true, usable_cleanup h.files]
  simp

/-- Where an exception of a renewal is raised: up to the switch or behind it. -/
theorem run_renewal (hname : r.name ∉ d.generations.keys) {fault : Option (Nat × (File → Bool))}
    (hhit : Script.hit (prepare d r ++ .replace :: prune d) fault = some op) :
    let s := ((script r.name).run d (prepare d r ++ .replace :: prune d) fault).1
    op.prunes = false ∧ Untouched d r.name s ∨
      op.prunes = true ∧ op.guarded = true ∧ Published r.name s := by
  obtain ⟨⟨n, dealt⟩, rfl, hop⟩ := Option.bind_eq_some_iff.mp hhit
  have hready := ready_prepare d r
  by_cases hn : n < (prepare d r).length
  · have hmem : op ∈ prepare d r := by
      rw [List.getElem?_append_left hn] at hop
      exact List.mem_of_getElem? hop
    rw [Script.run_left hn]
    exact .inl ⟨prunes_of_unpublished (unpublished_of_mem hmem),
      (Untouched.refl d r.name).run (fun _ => unpublished_of_mem) _⟩
  · obtain ⟨k, rfl⟩ := Nat.exists_eq_add_of_le (Nat.le_of_not_lt hn)
    rw [Script.run_right]
    rw [List.getElem?_append_right (Nat.le_add_right _ _), Nat.add_sub_cancel_left] at hop
    cases k with
    | zero =>
      obtain rfl : Op.replace = op := by simpa using hop
      exact .inl ⟨rfl, hready.toUntouched⟩
    | succ k =>
      have hmem : op ∈ prune d := List.mem_of_getElem? (by simpa using hop)
      obtain ⟨hprunes, hguarded⟩ := prune_prunes hmem
      have hpublished : Published r.name ((script r.name).run
          ((script r.name).apply ((prepare d r).foldl (script r.name).apply d) .replace)
          (prune d) (some (k, dealt))).1 :=
        Script.run_invariant hready.replace (fun _ hop _ hs => hs.prune hname hop) _
      exact .inr ⟨hprunes, hguarded, hpublished⟩

/-- A renewal that is made. -/
theorem safe_renews (hcurrent : d.current = some old) (husable : d.usable old = true)
    (hname : r.name ∉ d.generations.keys) (hswitched : d.switched = false)
    (hstays : stays d r = false) (fault : Option (Nat × (File → Bool)))
    (resists : File → Bool) :
    Safe old r.name (renew d r fault resists) ↔ harmless d r fault resists = true := by
  simp only [renew, harmless, ops_of_not_stays hstays, hstays]
  cases hhit : Script.hit (prepare d r ++ .replace :: prune d) fault with
  | none =>
    have hready := ready_prepare d r
    have hpublished : Published r.name ((prune d).foldl (script r.name).apply
        ((script r.name).apply ((prepare d r).foldl (script r.name).apply d) .replace)) := by
      have hrun := Script.run_invariant (S := script r.name) hready.replace
        (fun _ hop _ hs => Published.prune (d := d) hs hname hop) none
      rwa [Script.run_whole rfl] at hrun
    have hkeys := keys_prune (s := (script r.name).apply
      ((prepare d r).foldl (script r.name).apply d) .replace)
      hready.others hready.files hname
    rw [Script.run_whole hhit, List.foldl_append, List.foldl_cons]
    simp [Safe, hpublished.switched, hpublished.current, Destination.usable, hpublished.files,
      hkeys, complete, fresh]
  | some op =>
    rw [run_eq, hhit]
    rcases run_renewal hname hhit with ⟨hprunes, h⟩ | ⟨hprunes, hguarded, h⟩
    · simpa [hprunes] using safe_before hcurrent husable hname hswitched h op resists
    · simpa [hprunes, hguarded] using safe_behind h resists

/-- When `renew` leaves the service with a complete certificate, and with one directory if it
returns: an exception must not come behind the switch, and a certificate that stays must have
been the only one. -/
theorem rotation_safe (d : Destination) (r : Request) (fault : Option (Nat × (File → Bool)))
    (resists : File → Bool) (old : String) (hcurrent : d.current = some old)
    (husable : d.usable old = true) (hname : r.name ∉ d.generations.keys)
    (hswitched : d.switched = false) :
    Safe old r.name (renew d r fault resists) ↔ harmless d r fault resists = true := by
  cases hstays : stays d r with
  | true => exact safe_stays hcurrent husable hswitched hstays fault resists
  | false => exact safe_renews hcurrent husable hname hswitched hstays fault resists

/-- A destination with one complete generation. -/
def oneGeneration : Destination where
  generations := Table.empty.upsert "generation-1" [.key, .cert, .ca]
  current := some "generation-1"
  next := none
  switched := false

/-- A renewal that is forced. -/
def forced : Request where
  force := true
  owner := true
  valid := true
  trusted := true
  name := "generation-2"

/-- `openssl` fails when it has written the new certificate. -/
theorem rotation_safe_forced :
    let outcome := renew oneGeneration forced (some (6, fun f => f = .cert)) fun _ => false
    Script.hit (ops oneGeneration forced) (some (6, fun f : File => f = .cert)) = some .sign ∧
      outcome.1 = .raised ∧ Safe "generation-1" "generation-2" outcome :=
  ⟨by decide, by decide, (rotation_safe oneGeneration forced (some (6, fun f => f = .cert))
    (fun _ => false) "generation-1" rfl (by decide) (by decide) rfl).mpr (by decide)⟩

/-- The old directory cannot be removed: the handler removes the new one, which is in use. -/
theorem prune_dangles :
    let outcome := renew oneGeneration forced (some (23, fun _ => false)) fun _ => false
    Script.hit (ops oneGeneration forced) (some (23, fun _ : File => false)) =
        some (.remove "generation-1") ∧
      outcome.1 = .raised ∧ outcome.2.current = some "generation-2" ∧
      outcome.2.generations.find "generation-2" = none ∧
      ¬Safe "generation-1" "generation-2" outcome := by
  refine ⟨by decide, by decide, by decide, by decide, ?_⟩
  intro hsafe
  exact absurd hsafe.2.1 (by decide)

end RogiCollector.Ports.TlsRotation
