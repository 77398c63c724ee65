import Mathlib.Data.Prod.Lex
import RogiCollector.Verified.Retained
import RogiCollector.Ports.ChatReaders

/-!
# No chat is lost silently

A reader that finds its generation unchanged reads the same stream as before:
a generation is set together with an entry, and a stream that replaces a
deleted one gets a generation of its own.  Within one stream entries are
dropped at the front only, so a reader behind the earliest retained entry can
tell that something may be missing, and a reader that is not has lost nothing.
-/

namespace RogiCollector.Ports.ChatStream

open Verified

variable {C : Config} {r r' : Redis} {s : State} {log : List Added}

/-! ## Entries and their streams -/

def Added.key (x : Added) : Nat := x.entry.id.key

/-- Entries are ordered by stream, then by identifier. -/
def Added.position (x : Added) : Nat ×ₗ Nat := toLex (x.number, x.key)

variable {x : Added}

theorem position_lt_iff {y : Added} :
    x.position < y.position ↔ x.number < y.number ∨ x.number = y.number ∧ x.key < y.key :=
  Prod.Lex.toLex_lt_toLex

/-- A chat entry: a chat with its user and a timestamp that can be read. -/
def isChat (C : Config) (e : Entry) : Bool :=
  isUserChat e.fields ∧ (C.parseTime (value e.fields "timestamp")).isSome

/-- The stream a generation names. -/
def InStreamOf (log : List Added) (g : String) (n : Nat) : Prop :=
  ∃ z ∈ log, z.generation = g ∧ z.number = n

/-- A generation names one stream. -/
def Named (log : List Added) : Prop :=
  ∀ x ∈ log, ∀ y ∈ log, x.generation = y.generation → x.number = y.number

variable {n : Nat}

theorem InStreamOf.unique {g : String} {m : Nat} (hlog : Named log) (hn : InStreamOf log g n)
    (hm : InStreamOf log g m) : n = m := by
  obtain ⟨x, hx, hgx, rfl⟩ := hn
  obtain ⟨y, hy, hgy, rfl⟩ := hm
  exact hlog x hx y hy (hgx.trans hgy.symm)

theorem InStreamOf.append {g : String} (h : InStreamOf log g n) (z : Added) :
    InStreamOf (log ++ [z]) g n := by
  obtain ⟨x, hx, hfields⟩ := h
  exact ⟨x, List.mem_append_left _ hx, hfields⟩

/-- The entries of one stream. -/
def streamLog (log : List Added) (n : Nat) : List Entry :=
  (log.filter fun x => x.number = n).map (·.entry)

theorem mem_streamLog {e : Entry} :
    e ∈ streamLog log n ↔ ∃ x ∈ log, x.number = n ∧ x.entry = e := by
  simp [streamLog, and_assoc]

/-- How the keys agree with what was added. -/
structure RedisInv (r : Redis) : Prop where
  increasing : r.added.Pairwise fun x y => x.position < y.position
  entry : ∀ x ∈ r.added, 0 < x.key ∧ x.number ≤ r.streams ∧ x.generation ∈ r.minted
  named : Named r.added
  stream : ∀ st, r.stream = some st → st.number = r.streams ∧
    st.entries <:+ streamLog r.added st.number ∧
    ∀ x ∈ r.added, x.number = st.number → x.key ≤ st.last
  filled : ∀ g, r.generation = some g → g ≠ ""
  together : ∀ g st, r.generation = some g → r.stream = some st →
    InStreamOf r.added g st.number

theorem RedisInv.init : RedisInv Redis.init where
  increasing := List.Pairwise.nil
  entry := nofun
  named := nofun
  stream := nofun
  filled := nofun
  together := nofun

/-- What a step can do to the entries. -/
inductive Grows (r r' : Redis) : Prop
  | shrink (hadded : r'.added = r.added)
      (hkept : ∀ st', r'.stream = some st' → ∃ st, r.stream = some st ∧
        st.number = st'.number ∧ ∀ e ∈ st'.entries, e ∈ st.entries)
  | add (z : Added) (hadded : r'.added = r.added ++ [z])
      (hlast : ∀ x ∈ r.added, x.position < z.position)
      (hkept : ∀ st', r'.stream = some st' → st'.number = z.number ∧ ∀ e ∈ st'.entries,
        e = z.entry ∨ ∃ st, r.stream = some st ∧ st.number = st'.number ∧ e ∈ st.entries)

theorem RedisInv.trim (h : RedisInv r) (minID : Nat) : RedisInv (trimProductChat r minID) := by
  have hold : ∀ {st'}, (trimProductChat r minID).stream = some st' → ∃ st, r.stream = some st ∧
      st' = { st with entries := st.entries.dropWhile fun e => e.id.key < minID } := by
    intro st' hst'
    obtain ⟨st, hst, rfl⟩ := Option.map_eq_some_iff.mp hst'
    exact ⟨st, hst, rfl⟩
  refine { h with stream := ?_, together := ?_ }
  · intro st' hst'
    obtain ⟨st, hst, rfl⟩ := hold hst'
    obtain ⟨hnumber, hretained, hlast⟩ := h.stream st hst
    exact ⟨hnumber, (List.dropWhile_suffix _).trans hretained, hlast⟩
  · intro g st' hg hst'
    obtain ⟨st, hst, rfl⟩ := hold hst'
    exact h.together g st hg hst

theorem grows_trim (r : Redis) (minID : Nat) : Grows r (trimProductChat r minID) := by
  refine .shrink rfl ?_
  intro st' hst'
  obtain ⟨st, hst, rfl⟩ := Option.map_eq_some_iff.mp hst'
  exact ⟨st, hst, rfl, fun e he => (List.dropWhile_suffix _).subset he⟩

theorem RedisInv.deleteStream (h : RedisInv r) : RedisInv (deleteStream r) :=
  { h with stream := nofun, together := nofun }

theorem RedisInv.expireGeneration (h : RedisInv r) : RedisInv (expireGeneration r) :=
  { h with filled := nofun, together := nofun }

/-- The entry that `publishProductChat` adds. -/
def published (r : Redis) (uuid : String) (entry : Entry) : Added :=
  ⟨r.current.number,
    match r.stream, r.generation with
    | some _, some g => g
    | _, _ => uuid,
    entry⟩

/-- The stream it leaves. -/
theorem publish_stream (r : Redis) (uuid : String) (minID : Nat) (entry : Entry) :
    ∃ entries, (publishProductChat r uuid minID entry).stream =
        some ⟨r.current.number, entries, entry.id.key⟩ ∧
      entries <:+ r.current.entries ++ [entry] :=
  ⟨_, rfl, (List.dropWhile_suffix _).trans (List.drop_suffix _ _)⟩

/-- The current stream, whether it is there or about to be created. -/
theorem RedisInv.current_spec (h : RedisInv r) :
    r.current.entries <:+ streamLog r.added r.current.number ∧
      (∀ x ∈ r.added, x.number ≤ r.current.number) ∧
      ∀ x ∈ r.added, x.number = r.current.number → x.key ≤ r.current.last := by
  unfold Redis.current
  cases hst : r.stream with
  | none =>
    have hlt : ∀ x ∈ r.added, x.number < r.streams + 1 :=
      fun x hx => Nat.lt_succ_of_le (h.entry x hx).2.1
    refine ⟨List.nil_suffix, fun x hx => (hlt x hx).le, ?_⟩
    intro x hx heq
    exact absurd heq (Nat.ne_of_lt (hlt x hx))
  | some st =>
    obtain ⟨hnumber, hretained, hlast⟩ := h.stream st hst
    refine ⟨hretained, ?_, hlast⟩
    intro x hx
    rw [Option.getD_some, hnumber]
    exact (h.entry x hx).2.1

variable {uuid : String} {entry : Entry}

theorem RedisInv.published_last (h : RedisInv r) (hid : r.current.last < entry.id.key) :
    ∀ x ∈ r.added, x.position < (published r uuid entry).position := by
  obtain ⟨-, hnumber, hlast⟩ := h.current_spec
  intro x hx
  rw [position_lt_iff]
  rcases Nat.lt_or_eq_of_le (hnumber x hx) with hlt | heq
  · exact Or.inl hlt
  · exact Or.inr ⟨heq, Nat.lt_of_le_of_lt (hlast x hx heq) hid⟩

/-- The new entry's generation is its own, or names the stream it went to. -/
theorem RedisInv.published_generation (h : RedisInv r) (hfresh : uuid ∉ r.minted)
    (hx : x ∈ r.added) (hg : x.generation = (published r uuid entry).generation) :
    x.number = (published r uuid entry).number := by
  have huuid : ∀ {g}, g = uuid → x.generation ≠ g := by
    rintro g rfl heq
    exact hfresh (heq ▸ (h.entry x hx).2.2)
  simp only [published, Redis.current] at hg ⊢
  cases hst : r.stream with
  | none =>
    rw [hst] at hg
    exact absurd hg (huuid rfl)
  | some st =>
    rw [hst] at hg
    cases hgen : r.generation with
    | none =>
      rw [hgen] at hg
      exact absurd hg (huuid rfl)
    | some g =>
      rw [hgen] at hg
      obtain ⟨z, hz, hzg, hzn⟩ := h.together g st hgen hst
      rw [Option.getD_some, ← hzn]
      exact h.named x hx z hz (hg.trans hzg.symm)

theorem RedisInv.publish (h : RedisInv r) {minID : Nat} (hfresh : uuid ∉ r.minted)
    (hne : uuid ≠ "") (hid : r.current.last < entry.id.key) :
    RedisInv (publishProductChat r uuid minID entry) := by
  obtain ⟨hkept, hnumber, hlast⟩ := h.current_spec
  obtain ⟨entries, hstream, hentries⟩ := publish_stream r uuid minID entry
  have hadded : (publishProductChat r uuid minID entry).added =
      r.added ++ [published r uuid entry] := rfl
  have hmem : ∀ {x}, x ∈ (publishProductChat r uuid minID entry).added →
      x ∈ r.added ∨ x = published r uuid entry := by
    intro x hx
    rcases List.mem_append.mp hx with hx | hx
    · exact Or.inl hx
    · exact Or.inr (List.mem_singleton.mp hx)
  have hst : ∀ {st}, (publishProductChat r uuid minID entry).stream = some st →
      st = ⟨r.current.number, entries, entry.id.key⟩ := by
    intro st hst
    rw [hstream] at hst
    exact (Option.some.inj hst).symm
  have hgen : (published r uuid entry).generation ≠ "" ∧
      (published r uuid entry).generation ∈ uuid :: r.minted := by
    unfold published
    split
    · rename_i st g hs hg
      obtain ⟨z, hz, rfl, -⟩ := h.together g st hg hs
      exact ⟨h.filled _ hg, List.mem_cons_of_mem _ (h.entry z hz).2.2⟩
    · exact ⟨hne, List.mem_cons_self⟩
  constructor
  case increasing =>
    rw [hadded]
    refine List.pairwise_append.mpr ⟨h.increasing, List.pairwise_singleton _ _, ?_⟩
    intro x hx y hy
    rw [List.mem_singleton.mp hy]
    exact h.published_last hid x hx
  case entry =>
    intro x hx
    rcases hmem hx with hx | rfl
    · obtain ⟨hpos, -, hminted⟩ := h.entry x hx
      exact ⟨hpos, hnumber x hx, List.mem_cons_of_mem _ hminted⟩
    · exact ⟨Nat.lt_of_le_of_lt (Nat.zero_le _) hid, Nat.le_refl _, hgen.2⟩
  case named =>
    intro x hx y hy hxy
    rcases hmem hx with hx | rfl <;> rcases hmem hy with hy | rfl
    · exact h.named x hx y hy hxy
    · exact h.published_generation hfresh hx hxy
    · exact (h.published_generation hfresh hy hxy.symm).symm
    · rfl
  case stream =>
    intro st hs
    rw [hst hs, hadded]
    refine ⟨rfl, hentries.trans ?_, ?_⟩
    · obtain ⟨dropped, hdropped⟩ := hkept
      refine ⟨dropped, ?_⟩
      rw [← List.append_assoc, hdropped, streamLog, streamLog, List.filter_append,
        List.map_append, List.filter_cons_of_pos (by simp [published])]
      rfl
    · intro x hx hxn
      rcases hmem hx with hx | rfl
      · exact Nat.le_of_lt (Nat.lt_of_le_of_lt (hlast x hx hxn) hid)
      · exact Nat.le_refl _
  case filled =>
    intro g hg
    rw [← Option.some.inj hg]
    exact hgen.1
  case together =>
    intro g st hg hs
    rw [hst hs, hadded]
    exact ⟨_, List.mem_append_right _ (List.mem_singleton.mpr rfl), Option.some.inj hg, rfl⟩

theorem RedisInv.grows_publish (h : RedisInv r) {minID : Nat}
    (hid : r.current.last < entry.id.key) :
    Grows r (publishProductChat r uuid minID entry) := by
  refine .add (published r uuid entry) rfl (h.published_last hid) ?_
  intro st' hst'
  obtain ⟨entries, hstream, hentries⟩ := publish_stream r uuid minID entry
  rw [hstream] at hst'
  cases hst'
  refine ⟨rfl, ?_⟩
  intro e he
  rcases List.mem_append.mp (hentries.subset he) with he | he
  · refine Or.inr ?_
    unfold Redis.current at he ⊢
    cases hst : r.stream with
    | none =>
      rw [hst] at he
      cases he
    | some st =>
      rw [hst] at he
      exact ⟨st, rfl, rfl, he⟩
  · exact Or.inl (List.mem_singleton.mp he)

/-! ## What a reader was told -/

/-- The cursor of a chat that was delivered. -/
def Item.cursor : Item → Option ChatCursor
  | .event e => some e.cursor
  | .ws (.chat m) => some m.cursor
  | _ => none

/-- The chat comes with a warning. -/
def Item.gapBefore : Item → Bool
  | .event e => e.gapBefore
  | _ => false

/-- A `chat.gap`. -/
def Item.isGap : Item → Bool
  | .ws (.gap _) => true
  | _ => false

def anchorStep (p : Option ChatCursor) (item : Item) : Option ChatCursor :=
  match item.cursor with
  | some c => some c
  | none => if item.isGap then none else p

/-- The position since which no gap was reported: the last chat, or the
cursor the reader started from unless that is `0-0`. -/
def anchor (start : ChatCursor) (items : List Item) : Option ChatCursor :=
  items.foldl anchorStep (if start.id = zeroID then none else some start)

@[simp] theorem anchor_snoc (start : ChatCursor) (items : List Item) (item : Item) :
    anchor start (items ++ [item]) = anchorStep (anchor start items) item := by
  rw [anchor, List.foldl_append]
  rfl

/-- The item is the chat of the entry. -/
def Delivers (C : Config) (x : Added) (item : Item) : Prop :=
  isUserChat x.entry.fields = true ∧
    ∃ t, C.parseTime (value x.entry.fields "timestamp") = some t ∧
      ((∃ g gap, item = .event (chatEvent C g gap x.entry.message t)) ∨
        ∃ g, item = .ws (.chat (chatMessage g x.entry.message t)))

/-- From `p` to the chat at `c` in the stream of their generation, no chat entry
that was ever added lies between. -/
structure Unbroken (C : Config) (log : List Added) (p c : ChatCursor) : Prop where
  generation : c.generation = p.generation
  later : textKey p.id < textKey c.id
  entry : ∃ y ∈ log, y.entry.id.text = c.id ∧ InStreamOf log c.generation y.number
  none_between : ∀ x ∈ log, InStreamOf log c.generation x.number →
    isChat C x.entry = true → ¬(textKey p.id < x.key ∧ x.key < textKey c.id)

/-- Chats come in stream order and each at most once; a chat that comes without
a report since the position before it is the next one. -/
structure NoSilentLoss (C : Config) (log : List Added) (start : ChatCursor)
    (items : List Item) : Prop where
  ordered : ∃ xs, xs.Sublist log ∧
    List.Forall₂ (Delivers C) xs (items.filter fun item => item.cursor.isSome)
  unbroken : ∀ k item c p, items[k]? = some item → item.cursor = some c →
    item.gapBefore = false → anchor start (items.take k) = some p → Unbroken C log p c

variable {z : Added}

theorem Unbroken.append {p c : ChatCursor} (h : Unbroken C log p c)
    (hnamed : Named (log ++ [z])) (hlast : ∀ x ∈ log, x.position < z.position) :
    Unbroken C (log ++ [z]) p c := by
  obtain ⟨y, hy, hid, hstream⟩ := h.entry
  refine ⟨h.generation, h.later, ⟨y, List.mem_append_left _ hy, hid, hstream.append z⟩, ?_⟩
  intro x hx hxs hchat
  have hnumber := hxs.unique hnamed (hstream.append z)
  rcases List.mem_append.mp hx with hx | hx
  · exact h.none_between x hx (hnumber ▸ hstream) hchat
  · obtain rfl := List.mem_singleton.mp hx
    rintro ⟨-, hlt⟩
    rw [← hid, textKey_text] at hlt
    have hpos := position_lt_iff.mp (hlast y hy)
    have hyk : y.entry.id.key = y.key := rfl
    omega

theorem NoSilentLoss.append {start : ChatCursor} {items : List Item}
    (h : NoSilentLoss C log start items) (hnamed : Named (log ++ [z]))
    (hlast : ∀ x ∈ log, x.position < z.position) : NoSilentLoss C (log ++ [z]) start items where
  ordered := by
    obtain ⟨xs, hsub, hall⟩ := h.ordered
    exact ⟨xs, hsub.trans (List.sublist_append_left _ _), hall⟩
  unbroken k item c p hk hc hgap hp := (h.unbroken k item c p hk hc hgap hp).append hnamed hlast

/-- What was sent before a send failed. -/
theorem NoSilentLoss.left {start : ChatCursor} {items more : List Item}
    (h : NoSilentLoss C log start (items ++ more)) : NoSilentLoss C log start items where
  ordered := by
    obtain ⟨xs, hsub, hall⟩ := h.ordered
    rw [List.filter_append] at hall
    exact ⟨_, (List.take_sublist _ _).trans hsub, List.forall₂_take_append _ _ _ hall⟩
  unbroken := by
    intro k item c p hk hc hgap hp
    have hlt := (List.getElem?_eq_some_iff.mp hk).1
    refine h.unbroken k item c p ?_ hc hgap ?_
    · rw [List.getElem?_append_left hlt]
      exact hk
    · rw [List.take_append_of_le_length hlt.le]
      exact hp

/-- An item that is no chat. -/
theorem NoSilentLoss.other {start : ChatCursor} {items : List Item}
    (h : NoSilentLoss C log start items) (item : Item) (hitem : item.cursor = none) :
    NoSilentLoss C log start (items ++ [item]) where
  ordered := by
    obtain ⟨xs, hsub, hall⟩ := h.ordered
    refine ⟨xs, hsub, ?_⟩
    rw [List.filter_append, List.filter_cons_of_neg (by simp [hitem]), List.filter_nil,
      List.append_nil]
    exact hall
  unbroken := by
    intro k item' c p hk hc hgap hp
    rcases Nat.lt_or_ge k items.length with hlt | hge
    · rw [List.getElem?_append_left hlt] at hk
      rw [List.take_append_of_le_length hlt.le] at hp
      exact h.unbroken k item' c p hk hc hgap hp
    · rw [List.getElem?_append_right hge] at hk
      obtain rfl := List.mem_singleton.mp (List.mem_of_getElem? hk)
      rw [hitem] at hc
      cases hc

/-! ## A reader at work -/

/-- Between the identifiers `i` and `a` of the generation's stream there is no
chat entry. -/
structure Clean (C : Config) (log : List Added) (g : String) (i a : Nat) : Prop where
  le : i ≤ a
  none_between : ∀ x ∈ log, InStreamOf log g x.number → isChat C x.entry = true →
    ¬(i < x.key ∧ x.key ≤ a)
  moved : i < a → ∃ y ∈ log, y.key = a ∧ InStreamOf log g y.number

theorem Clean.refl (C : Config) (log : List Added) (g : String) (a : Nat) :
    Clean C log g a a :=
  ⟨Nat.le_refl a, fun x _ _ _ h => by omega, fun h => absurd h (Nat.lt_irrefl a)⟩

theorem Clean.append {g : String} {i a : Nat} (h : Clean C log g i a)
    (hnamed : Named (log ++ [z])) (hlast : ∀ x ∈ log, x.position < z.position) :
    Clean C (log ++ [z]) g i a where
  le := h.le
  none_between := by
    intro x hx hxs hchat hin
    obtain ⟨y, hy, hya, hstream⟩ := h.moved (by omega)
    have hnumber := hxs.unique hnamed (hstream.append z)
    rcases List.mem_append.mp hx with hx | hx
    · exact h.none_between x hx (hnumber ▸ hstream) hchat hin
    · obtain rfl := List.mem_singleton.mp hx
      have hpos := position_lt_iff.mp (hlast y hy)
      omega
  moved hlt := by
    obtain ⟨y, hy, hya, hstream⟩ := h.moved hlt
    exact ⟨y, List.mem_append_left _ hy, hya, hstream.append z⟩

/-- Nothing that was delivered is still ahead. -/
def Behind (r : Redis) (after : String) (xs : List Added) : Prop :=
  ∀ y ∈ xs, ∀ st, r.stream = some st → ∀ e ∈ st.entries, textKey after < e.id.key →
    y.position < toLex (st.number, e.id.key)

/-- A reader between two iterations; `flag` says that a warning is due. -/
structure SessionInv (C : Config) (r : Redis) (start : ChatCursor) (items : List Item)
    (generation after : String) (flag : Bool) : Prop where
  valid : validStreamID after = true
  ordered : ∃ xs, xs.Sublist r.added ∧
    List.Forall₂ (Delivers C) xs (items.filter fun item => item.cursor.isSome) ∧
    Behind r after xs
  unbroken : ∀ k item c p, items[k]? = some item → item.cursor = some c →
    item.gapBefore = false → anchor start (items.take k) = some p → Unbroken C r.added p c
  clean : ∀ p, anchor start items = some p → flag = false → generation = p.generation ∧
    generation ≠ "" ∧ after ≠ zeroID ∧ Clean C r.added generation (textKey p.id) (textKey after)

theorem SessionInv.noSilentLoss {start : ChatCursor} {items : List Item}
    {generation after : String} {flag : Bool}
    (h : SessionInv C r start items generation after flag) :
    NoSilentLoss C r.added start items where
  ordered := by
    obtain ⟨xs, hsub, hall, -⟩ := h.ordered
    exact ⟨xs, hsub, hall⟩
  unbroken := h.unbroken

/-- Readers do not notice what happens to the keys until they read. -/
theorem SessionInv.grows {start : ChatCursor} {items : List Item} {generation after : String}
    {flag : Bool} (h : SessionInv C r start items generation after flag) (hg : Grows r r')
    (hnamed : Named r'.added) : SessionInv C r' start items generation after flag := by
  obtain ⟨xs, hsub, hall, hbehind⟩ := h.ordered
  cases hg with
  | shrink hadded hkept =>
    refine ⟨h.valid, ⟨xs, hadded ▸ hsub, hall, ?_⟩, hadded ▸ h.unbroken, hadded ▸ h.clean⟩
    intro y hy st' hst' e he hlt
    obtain ⟨st, hst, hnumber, hentries⟩ := hkept st' hst'
    rw [← hnumber]
    exact hbehind y hy st hst e (hentries e he) hlt
  | add z hadded hlast hkept =>
    rw [hadded] at hnamed
    refine ⟨h.valid, ⟨xs, ?_, hall, ?_⟩, ?_, ?_⟩
    · rw [hadded]
      exact hsub.trans (List.sublist_append_left _ _)
    · intro y hy st' hst' e he hlt
      obtain ⟨hnumber, hentries⟩ := hkept st' hst'
      rcases hentries e he with rfl | ⟨st, hst, hst'n, he⟩
      · rw [hnumber]
        exact hlast y (hsub.subset hy)
      · rw [← hst'n]
        exact hbehind y hy st hst e he hlt
    · intro k item c p hk hc hgap hp
      rw [hadded]
      exact (h.unbroken k item c p hk hc hgap hp).append hnamed hlast
    · intro p hp hflag
      obtain ⟨hgen, hne, hzero, hclean⟩ := h.clean p hp hflag
      rw [hadded]
      exact ⟨hgen, hne, hzero, hclean.append hnamed hlast⟩

/-! ## Reading one entry -/

theorem RedisInv.exists_added (h : RedisInv r) {st : Stream} (hst : r.stream = some st)
    {e : Entry} (he : e ∈ st.entries) : ∃ x ∈ r.added, x.number = st.number ∧ x.entry = e :=
  mem_streamLog.mp ((h.stream st hst).2.1.subset he)

/-- Stream and identifier determine the entry. -/
theorem RedisInv.eq_of_key (h : RedisInv r) {y : Added} (hx : x ∈ r.added) (hy : y ∈ r.added)
    (hnumber : x.number = y.number) (hkey : x.key = y.key) : x = y := by
  have hnodup : (r.added.map Added.position).Nodup :=
    List.pairwise_map.mpr (h.increasing.imp fun hlt => ne_of_lt hlt)
  refine List.inj_on_of_nodup_map hnodup hx hy ?_
  rw [Added.position, Added.position, hnumber, hkey]

theorem zero_lt_textKey_ne {id : String} (h : 0 < textKey id) : id ≠ zeroID := by
  rintro rfl
  exact absurd h (by decide)

section Reading

variable {st : Stream} {g after : String} {start : ChatCursor} {items : List Item} {flag : Bool}
  {m : Entry}

/-- The entry is the next one, as far as the reader has to care. -/
def IsNext (r : Redis) (st : Stream) (start : ChatCursor) (items : List Item) (flag : Bool)
    (after : String) (m : Entry) : Prop :=
  flag = false → ∀ p, anchor start items = some p → ∀ x ∈ r.added, x.number = st.number →
    textKey after < x.key → m.id.key ≤ x.key

theorem Behind.mono {xs : List Added} (h : Behind r after xs) (hlt : textKey after < m.id.key) :
    Behind r m.id.text xs := by
  intro y hy st hst e he hme
  rw [textKey_text] at hme
  exact h y hy st hst e he (Nat.lt_trans hlt hme)

/-- An entry that is no chat is passed over. -/
theorem SessionInv.skip (hr : RedisInv r) (hst : r.stream = some st)
    (hg : InStreamOf r.added g st.number) (h : SessionInv C r start items g after flag)
    (hm : m ∈ st.entries) (hlt : textKey after < m.id.key)
    (hnext : IsNext r st start items flag after m) (hnot : isChat C m = false) {flag' : Bool}
    (hflag : flag' = false → flag = false) : SessionInv C r start items g m.id.text flag' := by
  obtain ⟨y, hy, hyn, rfl⟩ := hr.exists_added hst hm
  obtain ⟨xs, hsub, hall, hbehind⟩ := h.ordered
  refine ⟨validStreamID_text _, ⟨xs, hsub, hall, hbehind.mono hlt⟩, h.unbroken, ?_⟩
  intro p hp hf
  obtain ⟨hgen, hne, -, hclean⟩ := h.clean p hp (hflag hf)
  have hnext := hnext (hflag hf) p hp
  have hzero : 0 < textKey y.entry.id.text := by
    rw [textKey_text]
    exact (hr.entry y hy).1
  refine ⟨hgen, hne, zero_lt_textKey_ne hzero, ?_⟩
  rw [textKey_text]
  refine ⟨Nat.le_trans hclean.le hlt.le, ?_, fun _ => ⟨y, hy, rfl, hyn ▸ hg⟩⟩
  intro x hx hxs hchat hin
  rcases Nat.lt_or_ge (textKey after) x.key with hafter | hafter
  · -- Then it is this entry, which is no chat.
    have hxn := hxs.unique hr.named hg
    have hge := hnext x hx hxn hafter
    have hkey : x.key = y.key := Nat.le_antisymm hin.2 hge
    rw [hr.eq_of_key hx hy (hxn.trans hyn.symm) hkey, hnot] at hchat
    cases hchat
  · exact hclean.none_between x hx hxs hchat ⟨hin.1, hafter⟩

/-- A chat is delivered. -/
theorem SessionInv.deliver (hr : RedisInv r) (hst : r.stream = some st)
    (hg : InStreamOf r.added g st.number) (hne : g ≠ "")
    (h : SessionInv C r start items g after flag) (hm : m ∈ st.entries)
    (hlt : textKey after < m.id.key) (hnext : IsNext r st start items flag after m)
    (item : Item) (hcursor : item.cursor = some ⟨g, m.id.text⟩) (hgap : item.gapBefore = flag)
    (hitem : ∀ x : Added, x.entry = m → Delivers C x item) :
    SessionInv C r start (items ++ [item]) g m.id.text false := by
  obtain ⟨y, hy, hyn, rfl⟩ := hr.exists_added hst hm
  obtain ⟨xs, hsub, hall, hbehind⟩ := h.ordered
  have hyp : toLex (st.number, y.entry.id.key) = y.position := by
    rw [Added.position, hyn]
    rfl
  refine ⟨validStreamID_text _, ⟨xs ++ [y], ?_, ?_, ?_⟩, ?_, ?_⟩
  · refine sublist_of_key_lt_of_subset hr.increasing (List.pairwise_append.mpr
      ⟨hr.increasing.sublist hsub, List.pairwise_singleton _ _, ?_⟩) ?_
    · intro x hx x' hx'
      rw [List.mem_singleton.mp hx', ← hyp]
      exact hbehind x hx st hst y.entry hm hlt
    · intro x hx
      rcases List.mem_append.mp hx with hx | hx
      · exact hsub.subset hx
      · exact List.mem_singleton.mp hx ▸ hy
  · rw [List.filter_append, List.filter_cons_of_pos (by simp [hcursor]), List.filter_nil]
    exact List.rel_append hall (.cons (hitem y rfl) .nil)
  · intro x hx st' hst' e he hlt'
    obtain rfl := Option.some.inj (hst.symm.trans hst')
    rcases List.mem_append.mp hx with hx | hx
    · exact hbehind.mono hlt x hx st hst e he hlt'
    · rw [List.mem_singleton.mp hx, ← hyp, Prod.Lex.toLex_lt_toLex]
      rw [textKey_text] at hlt'
      exact Or.inr ⟨rfl, hlt'⟩
  · intro k item' c p hk hc hgap' hp
    rcases Nat.lt_or_ge k items.length with hk' | hk'
    · rw [List.getElem?_append_left hk'] at hk
      rw [List.take_append_of_le_length hk'.le] at hp
      exact h.unbroken k item' c p hk hc hgap' hp
    · rw [List.getElem?_append_right hk'] at hk
      have hlen := (List.getElem?_eq_some_iff.mp hk).1
      rw [List.length_singleton] at hlen
      obtain rfl := List.mem_singleton.mp (List.mem_of_getElem? hk)
      rw [hcursor] at hc
      cases hc
      rw [List.take_append_of_le_length (by omega), List.take_of_length_le (by omega)] at hp
      have hflag : flag = false := hgap.symm.trans hgap'
      obtain ⟨hgen, -, -, hclean⟩ := h.clean p hp hflag
      refine ⟨hgen, ?_, ⟨y, hy, rfl, hyn ▸ hg⟩, ?_⟩
      · rw [textKey_text]
        exact Nat.lt_of_le_of_lt hclean.le hlt
      · intro x hx hxs hchat hin
        rw [textKey_text] at hin
        rcases Nat.lt_or_ge (textKey after) x.key with hafter | hafter
        · have hge := hnext hflag p hp x hx (hxs.unique hr.named hg) hafter
          omega
        · exact hclean.none_between x hx hxs hchat ⟨hin.1, hafter⟩
  · intro p hp _
    rw [anchor_snoc, anchorStep, hcursor] at hp
    cases hp
    have hzero : 0 < textKey y.entry.id.text := by
      rw [textKey_text]
      exact (hr.entry y hy).1
    exact ⟨rfl, hne, zero_lt_textKey_ne hzero, Clean.refl ..⟩

/-! ## Reading a batch -/

theorem RedisInv.streamLog_increasing (h : RedisInv r) (n : Nat) :
    (streamLog r.added n).Pairwise fun a b => a.id.key < b.id.key := by
  refine List.pairwise_map.mpr ((h.increasing.filter _).imp_of_mem ?_)
  intro x y hx hy hlt
  rw [List.mem_filter, decide_eq_true_eq] at hx hy
  rcases position_lt_iff.mp hlt with hlt | ⟨-, hlt⟩
  · omega
  · exact hlt

theorem RedisInv.entries_increasing (h : RedisInv r) (hst : r.stream = some st) :
    st.entries.Pairwise fun a b => a.id.key < b.id.key :=
  (h.streamLog_increasing st.number).sublist (h.stream st hst).2.1.sublist

/-- From a retained entry on, every entry of the stream is retained. -/
theorem RedisInv.retained_behind (h : RedisInv r) (hst : r.stream = some st)
    (hm : m ∈ st.entries) (hx : x ∈ r.added) (hxn : x.number = st.number)
    (hle : m.id.key ≤ x.key) : x.entry ∈ st.entries :=
  mem_of_suffix (h.streamLog_increasing st.number) (h.stream st hst).2.1 hm
    (mem_streamLog.mpr ⟨x, hx, hxn, rfl⟩) hle

/-- What lies behind the cursor is retained, as far as the reader has to care. -/
def Contiguous (r : Redis) (st : Stream) (start : ChatCursor) (items : List Item) (flag : Bool)
    (after : String) : Prop :=
  flag = false → ∀ p, anchor start items = some p → ∀ x ∈ r.added, x.number = st.number →
    textKey after < x.key → x.entry ∈ st.entries

theorem RedisInv.contiguous (h : RedisInv r) (hst : r.stream = some st) (hm : m ∈ st.entries)
    (hle : m.id.key ≤ textKey after) : Contiguous r st start items flag after :=
  fun _ _ _ _ hx hxn hlt => h.retained_behind hst hm hx hxn
    (Nat.le_of_lt (Nat.lt_of_le_of_lt hle hlt))

variable {rest : List Entry}

theorem RedisInv.first_message (hr : RedisInv r) (hst : r.stream = some st)
    (hfilter : st.entries.filter (fun e => textKey after < e.id.key) = m :: rest)
    (hcontig : Contiguous r st start items flag after) :
    m ∈ st.entries ∧ textKey after < m.id.key ∧ IsNext r st start items flag after m ∧
      st.entries.filter (fun e => textKey m.id.text < e.id.key) = rest := by
  obtain ⟨hm, hlt, hleast, hrest⟩ := filter_lt_eq_cons (hr.entries_increasing hst) hfilter
  rw [textKey_text]
  refine ⟨hm, hlt, ?_, hrest⟩
  intro hf p hp x hx hxn hafter
  exact hleast x.entry (hcontig hf p hp x hx hxn hafter) hafter

/-- The message loop of `WatchChat`. -/
theorem SessionInv.watchMessages (hr : RedisInv r) (hst : r.stream = some st)
    (hg : InStreamOf r.added g st.number) (hne : g ≠ "") {w : WatchState}
    (hwg : w.generation = g) {ms : List Entry}
    (h : SessionInv C r start items w.generation w.after w.gap)
    (hfilter : st.entries.filter (fun e => textKey w.after < e.id.key) = ms ++ rest)
    (hcontig : Contiguous r st start items w.gap w.after) :
    SessionInv C r start
      (items ++ (ChatStream.watchMessages C w (ms.map Entry.message)).1.map .event)
      (ChatStream.watchMessages C w (ms.map Entry.message)).2.generation
      (ChatStream.watchMessages C w (ms.map Entry.message)).2.after
      (ChatStream.watchMessages C w (ms.map Entry.message)).2.gap := by
  induction ms generalizing w items with
  | nil =>
    rw [List.map_nil, ChatStream.watchMessages, List.map_nil, List.append_nil]
    exact h
  | cons m ms ih =>
    subst hwg
    obtain ⟨hm, hlt, hnext, hrest⟩ := hr.first_message hst hfilter hcontig
    have hcontig' : ∀ {items flag}, Contiguous r st start items flag m.id.text :=
      hr.contiguous hst hm (Nat.le_of_eq (textKey_text _).symm)
    rw [List.map_cons, ChatStream.watchMessages]
    by_cases hchat : isUserChat m.fields = true
    · cases ht : C.parseTime (value m.fields "timestamp") with
      | none =>
        have hnot : isChat C m = false := by simp [isChat, ht]
        have hskip : SessionInv C r start items w.generation m.id.text true :=
          h.skip hr hst hg hm hlt hnext hnot nofun
        simp only [Entry.message, hchat, ht]
        exact ih rfl hskip hrest hcontig'
      | some t =>
        have hdeliver := h.deliver hr hst hg hne hm hlt hnext
          (.event (chatEvent C w.generation w.gap m.message t)) rfl rfl
          (by
            rintro x rfl
            exact ⟨hchat, t, ht, Or.inl ⟨_, _, rfl⟩⟩)
        have hrec := ih (w := { w with after := m.id.text, gap := false }) rfl hdeliver hrest
          hcontig'
        rw [List.append_assoc] at hrec
        simp only [Entry.message, hchat, ht]
        exact hrec
    · have hnot : isChat C m = false := by simp [isChat, hchat]
      have hskip := h.skip hr hst hg hm hlt hnext hnot id
      simp only [Entry.message, hchat]
      exact ih rfl hskip hrest hcontig'

/-- The message loop of the public endpoints. -/
theorem SessionInv.chatMessages (hr : RedisInv r) (hst : r.stream = some st)
    (hg : InStreamOf r.added g st.number) (hne : g ≠ "") {ms : List Entry}
    (h : SessionInv C r start items g after false)
    (hfilter : st.entries.filter (fun e => textKey after < e.id.key) = ms ++ rest)
    (hcontig : Contiguous r st start items false after) :
    SessionInv C r start
      (items ++ (chatMessagesLoop C g after (ms.map Entry.message)).1.map fun m => .ws (.chat m)) g
      (chatMessagesLoop C g after (ms.map Entry.message)).2.1 false := by
  induction ms generalizing after items with
  | nil =>
    rw [List.map_nil, chatMessagesLoop, List.map_nil, List.append_nil]
    exact h
  | cons m ms ih =>
    obtain ⟨hm, hlt, hnext, hrest⟩ := hr.first_message hst hfilter hcontig
    have hcontig' : ∀ {items flag}, Contiguous r st start items flag m.id.text :=
      hr.contiguous hst hm (Nat.le_of_eq (textKey_text _).symm)
    rw [List.map_cons, chatMessagesLoop]
    by_cases hchat : isUserChat m.fields = true
    · cases ht : C.parseTime (value m.fields "timestamp") with
      | none =>
        have hnot : isChat C m = false := by simp [isChat, ht]
        have hskip := h.skip hr hst hg hm hlt hnext hnot id
        simp only [Entry.message, hchat, ht]
        exact ih hskip hrest hcontig'
      | some t =>
        have hdeliver := h.deliver hr hst hg hne hm hlt hnext
          (.ws (.chat (chatMessage g m.message t))) rfl rfl
          (by
            rintro x rfl
            exact ⟨hchat, t, ht, Or.inr ⟨_, rfl⟩⟩)
        have hrec := ih hdeliver hrest hcontig'
        rw [List.append_assoc] at hrec
        simp only [Entry.message, hchat, ht]
        exact hrec
    · have hnot : isChat C m = false := by simp [isChat, hchat]
      have hskip := h.skip hr hst hg hm hlt hnext hnot id
      simp only [Entry.message, hchat]
      exact ih hskip hrest hcontig'

end Reading

/-! ## One iteration -/

section Iteration

variable {start : ChatCursor} {items : List Item} {generation after : String} {flag : Bool}

/-- A warning may be added, and a generation adopted where there was none. -/
theorem SessionInv.adopt (h : SessionInv C r start items generation after flag)
    {generation' : String} {flag' : Bool} (hgen : generation ≠ "" → generation' = generation)
    (hflag : flag' = false → flag = false) :
    SessionInv C r start items generation' after flag' := by
  refine ⟨h.valid, h.ordered, h.unbroken, ?_⟩
  intro p hp hf
  obtain ⟨hg, hne, hzero, hclean⟩ := h.clean p hp (hflag hf)
  rw [hgen hne]
  exact ⟨hg, hne, hzero, hclean⟩

/-- A report allows the reader to go on anywhere, as long as nothing delivered
is ahead. -/
theorem SessionInv.report (h : SessionInv C r start items generation after flag)
    (reason : String) {generation' after' : String} (hvalid : validStreamID after' = true)
    (hahead : ∀ st, r.stream = some st → ∀ e ∈ st.entries, textKey after' < e.id.key →
      textKey after < e.id.key) (flag' : Bool) :
    SessionInv C r start (items ++ [.ws (.gap reason)]) generation' after' flag' := by
  obtain ⟨xs, hsub, hall, hbehind⟩ := h.ordered
  have hother := h.noSilentLoss.other (.ws (.gap reason)) rfl
  refine ⟨hvalid, ⟨xs, hsub, ?_, ?_⟩, hother.unbroken, ?_⟩
  · rw [List.filter_append, List.filter_cons_of_neg (by simp [Item.cursor]), List.filter_nil,
      List.append_nil]
    exact hall
  · intro y hy st hst e he hlt
    exact hbehind y hy st hst e he (hahead st hst e he hlt)
  · intro p hp _
    rw [anchor_snoc] at hp
    cases hp

theorem text_ne_empty (id : StreamID) : id.text ≠ "" := by
  intro h
  have hvalid := validStreamID_text id
  rw [h] at hvalid
  exact absurd hvalid (by decide)

theorem entries_eq {st : Stream} (hst : r.stream = some st) : r.entries = st.entries := by
  rw [Redis.entries, hst]
  rfl

variable {batch : ChatBatch} {es : List Entry}

/-- The latest entry, or `0-0`: nothing is ahead of it. -/
theorem RedisInv.orZero_latest (hr : RedisInv r) (hbatch : batch = r.batch es) :
    validStreamID (orZero batch.latest) = true ∧
      ∀ st, r.stream = some st → ∀ e ∈ st.entries, e.id.key ≤ textKey (orZero batch.latest) := by
  subst hbatch
  simp only [Redis.batch]
  cases hlast : r.entries.getLast? with
  | none =>
    refine ⟨by decide, ?_⟩
    intro st hst e he
    rw [entries_eq hst, List.getLast?_eq_none_iff] at hlast
    rw [hlast] at he
    cases he
  | some last =>
    rw [Option.map_some, Option.getD_some, orZero, if_neg (text_ne_empty _), textKey_text]
    refine ⟨validStreamID_text _, ?_⟩
    intro st hst e he
    have hincr := hr.entries_increasing hst
    rw [entries_eq hst] at hlast
    obtain ⟨front, hfront⟩ := List.getLast?_eq_some_iff.mp hlast
    rw [hfront] at he hincr
    rcases List.mem_append.mp he with he | he
    · exact ((List.pairwise_append.mp hincr).2.2 e he last (by simp)).le
    · rw [List.mem_singleton.mp he]

/-- A cursor that is not before the earliest entry has a retained entry before it. -/
theorem exists_retained_le {st : Stream} (hst : r.stream = some st) (hvalid : validStreamID after)
    (hbatch : batch = r.batch es) (hne : st.entries ≠ [])
    (hnot : ¬(batch.earliest ≠ "" ∧ streamIDBefore after batch.earliest = true)) :
    ∃ m ∈ st.entries, m.id.key ≤ textKey after := by
  obtain ⟨m, rest, hentries⟩ := List.exists_cons_of_ne_nil hne
  refine ⟨m, hentries ▸ List.mem_cons_self, ?_⟩
  have hearliest : batch.earliest = m.id.text := by
    simp only [hbatch, Redis.batch, entries_eq hst, hentries]
    rfl
  rw [hearliest, streamIDBefore_iff hvalid (validStreamID_text _), textKey_text] at hnot
  exact Nat.le_of_not_lt fun hlt => hnot ⟨text_ne_empty _, hlt⟩

/-- A read that returns messages: the stream they are of and its generation. -/
theorem RedisInv.read_messages (hr : RedisInv r) (hbatch : batch = r.batch (r.range after))
    (hrange : r.range after ≠ []) (hgen : ¬(batch.generation = "" ∧ batch.messages ≠ [])) :
    ∃ st, r.stream = some st ∧ st.entries ≠ [] ∧ batch.generation ≠ "" ∧
      InStreamOf r.added batch.generation st.number ∧
      st.entries.filter (fun e => textKey after < e.id.key) =
        r.range after ++ (st.entries.filter fun e => textKey after < e.id.key).drop 100 := by
  have hgne : batch.generation ≠ "" := by
    intro h
    refine hgen ⟨h, ?_⟩
    simpa [hbatch, Redis.batch] using hrange
  cases hst : r.stream with
  | none => exact absurd (by simp [Redis.range, Redis.entries, hst]) hrange
  | some st =>
    refine ⟨st, rfl, ?_, hgne, ?_, ?_⟩
    · intro hnil
      exact hrange (by simp [Redis.range, entries_eq hst, hnil])
    · cases hg : r.generation with
      | none => exact absurd (by simp [hbatch, Redis.batch, hg]) hgne
      | some g =>
        have heq : batch.generation = g := by simp [hbatch, Redis.batch, hg]
        rw [heq]
        exact hr.together g st hg hst
    · rw [Redis.range, entries_eq hst, List.take_append_drop]

variable {ok : Bool}

theorem readProductChat_some (h : readProductChat r after ok = some batch) :
    batch = r.batch (r.range after) := by
  unfold readProductChat at h
  split at h
  · exact (Option.some.inj h).symm
  · cases h

variable {w : WatchState}

/-- An iteration of `WatchChat` that goes on. -/
theorem SessionInv.watch (hr : RedisInv r) {w' : WatchState} {events : List ChatEvent}
    (h : SessionInv C r start items w.generation w.after w.gap)
    (hit : watchIteration C w (readProductChat r w.after ok) = (events, .ok w')) :
    SessionInv C r start (items ++ events.map .event) w'.generation w'.after w'.gap := by
  cases hread : readProductChat r w.after ok with
  | none =>
    rw [hread] at hit
    cases hit
  | some batch =>
    have hbatch := readProductChat_some hread
    have hmessages : batch.messages = (r.range w.after).map Entry.message := by
      rw [hbatch]
      rfl
    rw [hread, watchIteration] at hit
    split at hit
    · cases hit
    rename_i hmsg
    split at hit
    · cases hit
    rename_i hsame
    push Not at hsame
    -- Whichever way, the generation is now the one that was read.
    have hgen : (if w.generation = "" then { w with generation := batch.generation } else w) =
        { w with generation := batch.generation } := by
      split
      · rfl
      · rename_i hne
        rw [← hsame hne]
    rw [hgen] at hit
    dsimp only at hit
    have hfinish : ∀ flag', (flag' = false → w.gap = false ∧
        ¬(w.after ≠ zeroID ∧ batch.earliest ≠ "" ∧
          streamIDBefore w.after batch.earliest = true)) →
        (if batch.latest ≠ "" ∧ streamIDBefore batch.latest w.after = true then
          (([] : List ChatEvent),
            Except.error (Status.invalidArgument "chat cursor beyond stream"))
        else
          let sent := ChatStream.watchMessages C ⟨w.after, batch.generation, flag'⟩ batch.messages
          (sent.1, .ok sent.2)) = (events, Except.ok w') →
        SessionInv C r start (items ++ events.map .event) w'.generation w'.after w'.gap := by
      intro flag' hflag hit
      split at hit
      · cases hit
      cases hit
      have hadopt : SessionInv C r start items batch.generation w.after flag' :=
        h.adopt (fun hne => (hsame hne).symm) fun hf => (hflag hf).1
      rw [hmessages]
      by_cases hrange : r.range w.after = []
      · rw [hrange, List.map_nil, ChatStream.watchMessages, List.map_nil, List.append_nil]
        exact hadopt
      · obtain ⟨st, hst, hne, hgne, hg, hfilter⟩ := hr.read_messages hbatch hrange hmsg
        refine SessionInv.watchMessages hr hst hg hgne rfl hadopt hfilter ?_
        intro hf p hp
        obtain ⟨-, -, hzero, -⟩ := hadopt.clean p hp hf
        obtain ⟨m, hm, hle⟩ := exists_retained_le hst hadopt.valid hbatch hne
          fun hbefore => (hflag hf).2 ⟨hzero, hbefore⟩
        exact hr.contiguous hst hm hle hf p hp
    split at hit
    · exact hfinish true nofun hit
    · rename_i hnot
      exact hfinish w.gap (fun hf => ⟨hf, hnot⟩) hit

variable {read : Option ChatBatch}

theorem watchIteration_error {events : List ChatEvent} {status : Status}
    (hit : watchIteration C w read = (events, .error status)) : events = [] := by
  cases read with
  | none => exact (Prod.mk.inj hit).1.symm
  | some batch =>
    rw [watchIteration] at hit
    split at hit
    · exact (Prod.mk.inj hit).1.symm
    split at hit
    · exact (Prod.mk.inj hit).1.symm
    dsimp only at hit
    generalize (if w.generation = "" then { w with generation := batch.generation } else w) =
      w1 at hit
    generalize (if w1.after ≠ zeroID ∧ batch.earliest ≠ "" ∧
      streamIDBefore w1.after batch.earliest = true then { w1 with gap := true } else w1) =
      w2 at hit
    split at hit
    · exact (Prod.mk.inj hit).1.symm
    · cases hit

variable {messages : List WsMessage}

/-- An iteration of the stream loop that goes on. -/
theorem SessionInv.loop (hr : RedisInv r) {w w' : LoopState}
    (h : SessionInv C r start items w.generation w.after false)
    (hit : streamIteration C w (readProductChat r w.after ok) = (messages, some w')) :
    SessionInv C r start (items ++ messages.map .ws) w'.generation w'.after false := by
  cases hread : readProductChat r w.after ok with
  | none =>
    rw [hread] at hit
    cases hit
  | some batch =>
    have hbatch := readProductChat_some hread
    have hmessages : batch.messages = (r.range w.after).map Entry.message := by
      rw [hbatch]
      rfl
    obtain ⟨hvalid, hahead⟩ := hr.orZero_latest hbatch
    have hbehind : ∀ st, r.stream = some st → ∀ e ∈ st.entries,
        textKey (orZero batch.latest) < e.id.key → textKey w.after < e.id.key :=
      fun st hst e he hlt => absurd hlt (Nat.not_lt.mpr (hahead st hst e he))
    rw [hread, streamIteration] at hit
    split at hit
    · cases hit
    rename_i hmsg
    split at hit
    · cases hit
      exact h.report "stream_reset" hvalid hbehind false
    rename_i hsame
    push Not at hsame
    split at hit
    · cases hit
      exact h.report "cursor_expired" hvalid hbehind false
    rename_i hnot
    cases hit
    have hgen : (if w.generation = "" then batch.generation else w.generation) =
        batch.generation := by
      split
      · rfl
      · rename_i hne
        exact (hsame hne).symm
    rw [hgen]
    have hadopt : SessionInv C r start items batch.generation w.after false :=
      h.adopt (fun hne => hsame hne) id
    -- An unreadable timestamp is reported before the batch.
    have hreport : ∀ reason,
        SessionInv C r start (items ++ [.ws (.gap reason)]) batch.generation w.after false :=
      fun reason => h.report reason h.valid (fun _ _ _ _ hlt => hlt) false
    have hread : ∀ {items}, SessionInv C r start items batch.generation w.after false →
        SessionInv C r start
          (items ++ (ChatStream.chatMessages C batch w.after).1.map fun m => .ws (.chat m))
          batch.generation (ChatStream.chatMessages C batch w.after).2.1 false := by
      intro items hinv
      rw [ChatStream.chatMessages, hmessages]
      by_cases hrange : r.range w.after = []
      · rw [hrange, List.map_nil, chatMessagesLoop, List.map_nil, List.append_nil]
        exact hinv
      · obtain ⟨st, hst, hne, hgne, hg, hfilter⟩ := hr.read_messages hbatch hrange hmsg
        refine SessionInv.chatMessages hr hst hg hgne hinv hfilter ?_
        intro hf p hp
        obtain ⟨-, -, hzero, -⟩ := hinv.clean p hp hf
        obtain ⟨m, hm, hle⟩ := exists_retained_le hst hinv.valid hbatch hne
          fun hbefore => hnot ⟨hzero, hbefore⟩
        exact hr.contiguous hst hm hle hf p hp
    cases hinvalid : (ChatStream.chatMessages C batch w.after).2.2 with
    | false =>
      have hinv := hread hadopt
      rw [ChatStream.chatMessages] at hinvalid hinv
      simpa [hinvalid, Function.comp_def] using hinv
    | true =>
      have hinv := hread (hreport "invalid_event")
      rw [ChatStream.chatMessages] at hinvalid hinv
      simpa [hinvalid, Function.comp_def] using hinv

theorem streamIteration_error {w : LoopState}
    (hit : streamIteration C w read = (messages, none)) :
    ∃ code, messages = [.error code] := by
  cases read with
  | none =>
    cases hit
    exact ⟨_, rfl⟩
  | some batch =>
    rw [streamIteration] at hit
    split at hit
    · cases hit
      exact ⟨_, rfl⟩
    split at hit
    · cases hit
    split at hit <;> cases hit

/-- A reader that was sent no chat yet. -/
theorem SessionInv.fresh (hvalid : validStreamID after = true)
    (hitems : ∀ item ∈ items, item.cursor = none)
    (hclean : ∀ p, anchor start items = some p → generation = p.generation ∧ generation ≠ "" ∧
      after ≠ zeroID ∧ textKey p.id = textKey after) :
    SessionInv C r start items generation after flag := by
  refine ⟨hvalid, ⟨[], List.nil_sublist _, ?_, nofun⟩, ?_, ?_⟩
  · rw [List.filter_eq_nil_iff.mpr]
    · exact .nil
    · intro item hitem
      simp [hitems item hitem]
  · intro k item c p hk hc _ _
    rw [hitems item (List.mem_of_getElem? hk)] at hc
    cases hc
  · intro p hp _
    obtain ⟨hg, hne, hzero, heq⟩ := hclean p hp
    rw [heq]
    exact ⟨hg, hne, hzero, Clean.refl ..⟩

variable {cursor : Option ChatCursor}

/-- `WatchChat` starts at its cursor. -/
theorem SessionInv.ofWatch (hw : watchChat cursor = .ok w) :
    SessionInv C r ⟨w.generation, w.after⟩ [] w.generation w.after w.gap := by
  cases cursor with
  | none =>
    cases hw
    exact SessionInv.fresh (by decide) nofun nofun
  | some c =>
    rw [watchChat] at hw
    split at hw
    · cases hw
    rename_i hvalid
    cases hw
    simp only [ChatCursor.valid, ne_eq, Bool.not_eq_true', decide_eq_false_iff_not,
      not_not] at hvalid
    refine SessionInv.fresh hvalid.2 nofun ?_
    intro p hp
    have hp : (if c.id = zeroID then none else some c) = some p := hp
    split at hp
    · cases hp
    rename_i hzero
    cases hp
    exact ⟨rfl, hvalid.1, hzero, rfl⟩

/-- The loop starts at the cursor it was given, at the latest entry, or after
a report. -/
theorem SessionInv.ofStart (hr : RedisInv r) (hcursor : ∀ c, cursor = some c → c.valid = true)
    {w : LoopState}
    (hit : streamStart cursor (readProductChat r ((cursor.map (·.id)).getD zeroID) ok) =
      (messages, some w)) :
    SessionInv C r
      (streamFrom cursor (readProductChat r ((cursor.map (·.id)).getD zeroID) ok))
      (messages.map .ws) w.generation w.after false := by
  cases hread : readProductChat r ((cursor.map (·.id)).getD zeroID) ok with
  | none =>
    rw [hread] at hit
    cases hit
  | some batch =>
    have hbatch := readProductChat_some hread
    obtain ⟨hvalid, -⟩ := hr.orZero_latest hbatch
    rw [hread, streamStart] at hit
    split at hit
    · cases hit
    rename_i hmsg
    cases cursor with
    | none =>
      cases hit
      refine SessionInv.fresh hvalid (by simp [Item.cursor]) ?_
      intro p hp
      -- A latest entry lies behind `0-0`, so it was read and has a generation.
      have hp : (if (streamFrom none (some batch)).id = zeroID then none
        else some (streamFrom none (some batch))) = some p := hp
      split at hp
      · cases hp
      rename_i hzero
      cases hp
      refine ⟨rfl, ?_, hzero, rfl⟩
      intro hgen
      refine hmsg ⟨hgen, ?_⟩
      have hlatest : batch.latest ≠ "" := by
        intro hnil
        exact hzero (by simp [streamFrom, orZero, hnil])
      simp only [hbatch, Redis.batch] at hlatest ⊢
      cases hst : r.stream with
      | none => exact absurd (by simp [Redis.entries, hst]) hlatest
      | some st =>
        have hne : st.entries ≠ [] := by
          intro hnil
          exact hlatest (by simp [entries_eq hst, hnil])
        obtain ⟨m, rest, hentries⟩ := List.exists_cons_of_ne_nil hne
        obtain ⟨x, hx, -, hxm⟩ := hr.exists_added hst (hentries ▸ List.mem_cons_self)
        have hpos : textKey zeroID < m.id.key := by
          rw [← hxm]
          exact (hr.entry x hx).1
        simp [Redis.range, entries_eq hst, hentries, hpos]
    | some c =>
      dsimp only [streamFrom] at hit ⊢
      have hc := hcursor c rfl
      rw [ChatCursor.valid, decide_eq_true_eq] at hc
      split at hit
      · cases hit
        refine SessionInv.fresh hvalid (by simp [Item.cursor]) ?_
        intro p hp
        cases hp
      · rename_i hnot
        push Not at hnot
        cases hit
        refine SessionInv.fresh hc.2 (by simp [Item.cursor]) ?_
        intro p hp
        have hp : (if c.id = zeroID then none else some c) = some p := hp
        split at hp
        · cases hp
        rename_i hzero
        cases hp
        exact ⟨hnot.1.symm, hnot.1 ▸ hc.1, hzero, rfl⟩

theorem streamStart_error (hit : streamStart cursor read = (messages, none)) :
    ∃ code, messages = [.error code] := by
  cases read with
  | none =>
    cases hit
    exact ⟨_, rfl⟩
  | some batch =>
    rw [streamStart] at hit
    split at hit
    · cases hit
      exact ⟨_, rfl⟩
    · cases cursor with
      | none => cases hit
      | some c =>
        dsimp only at hit
        split at hit <;> cases hit

end Iteration

/-! ## Every run -/

/-- What holds of a reader, wherever it is. -/
def SessionOK (C : Config) (r : Redis) (session : Session) : Prop :=
  match session.point with
  | .watch w => SessionInv C r session.start session.items w.generation w.after w.gap
  | .loop w => SessionInv C r session.start session.items w.generation w.after false
  | .ended => NoSilentLoss C r.added session.start session.items

variable {session : Session}

theorem SessionOK.noSilentLoss (h : SessionOK C r session) :
    NoSilentLoss C r.added session.start session.items := by
  unfold SessionOK at h
  split at h
  · exact h.noSilentLoss
  · exact h.noSilentLoss
  · exact h

theorem SessionOK.grows (h : SessionOK C r session) (hg : Grows r r') (hnamed : Named r'.added) :
    SessionOK C r' session := by
  unfold SessionOK at h ⊢
  split
  · rename_i w hpoint
    rw [hpoint] at h
    exact h.grows hg hnamed
  · rename_i w hpoint
    rw [hpoint] at h
    exact h.grows hg hnamed
  · rename_i hpoint
    rw [hpoint] at h
    cases hg with
    | shrink hadded _ =>
      rw [hadded]
      exact h
    | add z hadded hlast _ =>
      rw [hadded] at hnamed ⊢
      exact h.append hnamed hlast

/-- A send that fails ends the reader with what was sent before. -/
theorem SessionOK.receive (session : Session) (items : List Item) (point : Point)
    (h : SessionOK C r ⟨session.start, point, session.items ++ items⟩) (sent : Nat) :
    SessionOK C r (session.receive items sent point) := by
  unfold Session.receive
  by_cases hlen : items.length ≤ sent
  · rw [if_pos hlen, List.take_of_length_le hlen]
    exact h
  · rw [if_neg hlen]
    have hloss := h.noSilentLoss
    rw [← List.take_append_drop sent items, ← List.append_assoc] at hloss
    exact hloss.left

theorem SessionOK.iterate (hr : RedisInv r) (h : SessionOK C r session) (ok : Bool) (sent : Nat) :
    SessionOK C r (session.iterate C r ok sent) := by
  unfold Session.iterate
  split
  · rename_i w hpoint
    unfold SessionOK at h
    rw [hpoint] at h
    split
    · rename_i events w' hit
      exact SessionOK.receive session _ (.watch w') (h.watch hr hit) sent
    · rename_i events status hit
      obtain rfl := watchIteration_error hit
      exact SessionOK.receive session [_] .ended (h.noSilentLoss.other _ rfl) sent
  · rename_i w hpoint
    unfold SessionOK at h
    rw [hpoint] at h
    split
    · rename_i messages w' hit
      exact SessionOK.receive session _ (.loop w') (h.loop hr hit) sent
    · rename_i messages hit
      obtain ⟨code, rfl⟩ := streamIteration_error hit
      exact SessionOK.receive session [_] .ended (h.noSilentLoss.other _ rfl) sent
  · exact h

/-- Redis and every reader. -/
structure ChatInv (C : Config) (s : State) : Prop where
  redis : RedisInv s.redis
  sessions : ∀ session ∈ s.sessions, SessionOK C s.redis session

/-- Redis changes. -/
theorem ChatInv.grows (h : ChatInv C s) (hr : RedisInv r') (hg : Grows s.redis r') :
    ChatInv C { s with redis := r' } :=
  ⟨hr, fun session hs => (h.sessions session hs).grows hg hr.named⟩

/-- A reader joins. -/
theorem ChatInv.join (h : ChatInv C s) (hs : SessionOK C s.redis session) :
    ChatInv C { s with sessions := s.sessions ++ [session] } :=
  ⟨h.redis, List.forall_mem_append.mpr ⟨h.sessions, List.forall_mem_singleton.mpr hs⟩⟩

theorem ChatInv.step (h : ChatInv C s) {i : Input} (hi : admits s i) :
    ChatInv C (step C s i) := by
  cases i with
  | publish uuid minID entry =>
    obtain ⟨hfresh, hne, hid⟩ := hi
    exact h.grows (h.redis.publish hfresh hne hid) (h.redis.grows_publish hid)
  | trim minID => exact h.grows (h.redis.trim minID) (grows_trim _ _)
  | deleteStream => exact h.grows h.redis.deleteStream (.shrink rfl nofun)
  | expireGeneration =>
    exact h.grows h.redis.expireGeneration
      (.shrink rfl fun st hst => ⟨st, hst, rfl, fun _ he => he⟩)
  | watch cursor =>
    simp only [ChatStream.step]
    cases hw : watchChat cursor with
    | error status => exact h
    | ok w => exact h.join (SessionInv.ofWatch hw)
  | stream cursor ok sent =>
    simp only [ChatStream.step]
    split
    · exact h
    rename_i hcursor
    have hvalid : ∀ c, cursor = some c → c.valid = true := by
      rintro c rfl
      simpa using hcursor
    split
    · rename_i messages w hit
      exact h.join (SessionOK.receive ⟨_, .ended, []⟩ _ (.loop w)
        (SessionInv.ofStart h.redis hvalid hit) sent)
    · rename_i messages hit
      obtain ⟨code, rfl⟩ := streamStart_error hit
      refine h.join (SessionOK.receive ⟨_, .ended, []⟩ [_] .ended ?_ sent)
      have hnone : NoSilentLoss C s.redis.added
          (streamFrom cursor
            (readProductChat s.redis ((cursor.map (·.id)).getD zeroID) ok)) [] :=
        ⟨⟨[], List.nil_sublist _, .nil⟩, nofun⟩
      exact hnone.other _ rfl
  | iterate k ok sent =>
    refine ⟨h.redis, ?_⟩
    intro session hmem
    rcases mem_modify hmem with hold | ⟨session', hold, rfl⟩
    · exact h.sessions session hold
    · exact (h.sessions session' (List.mem_of_getElem? hold)).iterate h.redis ok sent
  | leave k =>
    refine ⟨h.redis, ?_⟩
    intro session hmem
    rcases mem_modify hmem with hold | ⟨session', hold, rfl⟩
    · exact h.sessions session hold
    · exact (h.sessions session' (List.mem_of_getElem? hold)).noSilentLoss

theorem run_chatInv {tr : List (Input × Unit)} (hr : (machine C).Run State.init tr s) :
    ChatInv C s :=
  hr.invariant (fun _ _ h hi => h.step hi) ⟨RedisInv.init, nofun⟩

end RogiCollector.Ports.ChatStream
