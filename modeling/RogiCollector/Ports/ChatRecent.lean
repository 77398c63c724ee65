import RogiCollector.Verified.OrderBy
import RogiCollector.Ports.ChatDelivery

/-!
# Pages of recent chats

An answer of `recent` to a cursor lists the chats that come first behind the
cursor, and its `nextCursor` leaves exactly the others.  What was listed cannot
change afterwards: entries of a stream are only added behind those it had.
-/

namespace RogiCollector.Ports.ChatStream

open Verified

variable {C : Config} {r : Redis} {s s' : State} {log more : List Added} {n a b : Nat}

/-! ## The chats behind a cursor -/

/-- Of one stream, the chats behind an identifier. -/
def chatsBehind (C : Config) (log : List Added) (n a : Nat) : List Added :=
  log.filter fun x => x.number = n ∧ isChat C x.entry ∧ a < x.key

/-- Of every entry ever added, the chats behind a cursor in the stream its
generation names. -/
def chatsAfter (C : Config) (log : List Added) (c : ChatCursor) : List Added :=
  log.filter fun x =>
    (log.any fun z => z.generation = c.generation ∧ z.number = x.number) ∧
      isChat C x.entry ∧ textKey c.id < x.key

variable {c : ChatCursor}

theorem chatsAfter_eq (hnamed : Named log) (hg : InStreamOf log c.generation n) :
    chatsAfter C log c = chatsBehind C log n (textKey c.id) := by
  refine List.filter_congr ?_
  intro x _
  have hiff : (log.any fun z => z.generation = c.generation ∧ z.number = x.number) = true ↔
      x.number = n := by
    constructor
    · intro hany
      obtain ⟨z, hz, hzx⟩ := List.any_eq_true.mp hany
      exact InStreamOf.unique hnamed ⟨z, hz, decide_eq_true_eq.mp hzx⟩ hg
    · rintro rfl
      obtain ⟨z, hz, hzg, hzn⟩ := hg
      exact List.any_eq_true.mpr ⟨z, hz, decide_eq_true_eq.mpr ⟨hzg, hzn⟩⟩
  simp only [hiff]

theorem mem_chatsBehind {x : Added} :
    x ∈ chatsBehind C log n a ↔ x ∈ log ∧ x.number = n ∧ isChat C x.entry = true ∧ a < x.key := by
  simp [chatsBehind]

theorem chatsBehind_append :
    chatsBehind C (log ++ more) n a = chatsBehind C log n a ++ chatsBehind C more n a :=
  List.filter_append ..

theorem chatsBehind_narrow (hle : a ≤ b) :
    chatsBehind C log n b = (chatsBehind C log n a).filter fun x => b < x.key := by
  rw [chatsBehind, chatsBehind, List.filter_filter]
  refine List.filter_congr ?_
  intro x _
  by_cases hlt : b < x.key
  · simp [hlt, Nat.lt_of_le_of_lt hle hlt]
  · simp [hlt]

theorem RedisInv.chatsBehind_increasing (h : RedisInv r) (C : Config) (n a : Nat) :
    (chatsBehind C r.added n a).Pairwise fun x y => x.key < y.key := by
  refine (h.increasing.filter _).imp_of_mem ?_
  intro x y hx hy hlt
  have hxn := (mem_chatsBehind.mp hx).2.1
  have hyn := (mem_chatsBehind.mp hy).2.1
  rcases position_lt_iff.mp hlt with hlt | ⟨-, hlt⟩
  · omega
  · exact hlt

/-- If everything behind the identifier is retained, the chats behind it are
those among the retained entries. -/
theorem RedisInv.chatsBehind_entries (h : RedisInv r) {st : Stream} (hst : r.stream = some st)
    (hkept : ∀ x ∈ r.added, x.number = st.number → a < x.key → x.entry ∈ st.entries) :
    (chatsBehind C r.added st.number a).map (·.entry) =
      (st.entries.filter fun e => a < e.id.key).filter (isChat C) := by
  have hincr := h.chatsBehind_increasing C st.number a
  refine eq_of_key_lt_of_mem_iff (List.pairwise_map.mpr hincr)
    (((h.entries_increasing hst).filter _).filter _) ?_
  intro e
  rw [List.mem_map, List.mem_filter, List.mem_filter, decide_eq_true_eq]
  constructor
  · rintro ⟨x, hx, rfl⟩
    obtain ⟨hx, hn, hchat, hlt⟩ := mem_chatsBehind.mp hx
    exact ⟨⟨hkept x hx hn hlt, hlt⟩, hchat⟩
  · rintro ⟨⟨he, hlt⟩, hchat⟩
    obtain ⟨x, hx, hn, rfl⟩ := h.exists_added hst he
    exact ⟨x, mem_chatsBehind.mpr ⟨hx, hn, hchat, hlt⟩, rfl⟩

/-! ## One answer -/

/-- The messages of the loop are the chats, in order. -/
theorem chatMessagesLoop_events (C : Config) (g after : String) (ms : List Entry) :
    List.Forall₂ (fun e m => m.cursor = ⟨g, e.id.text⟩ ∧
        ∀ x : Added, x.entry = e → Delivers C x (.ws (.chat m)))
      (ms.filter (isChat C)) (chatMessagesLoop C g after (ms.map Entry.message)).1 := by
  induction ms generalizing after with
  | nil => exact .nil
  | cons m ms ih =>
    rw [List.map_cons, chatMessagesLoop]
    by_cases hchat : isUserChat m.fields = true
    · cases ht : C.parseTime (value m.fields "timestamp") with
      | none =>
        rw [List.filter_cons_of_neg (by simp [isChat, ht])]
        simp only [Entry.message, hchat, ht]
        exact ih _
      | some t =>
        rw [List.filter_cons_of_pos (by simp [isChat, hchat, ht])]
        simp only [Entry.message, hchat, ht]
        refine .cons ⟨rfl, ?_⟩ (ih _)
        rintro x rfl
        exact ⟨hchat, t, ht, Or.inr ⟨g, rfl⟩⟩
    · rw [List.filter_cons_of_neg (by simp [isChat, hchat])]
      simp only [Entry.message, hchat]
      exact ih _

/-- The loop ends behind the last entry. -/
theorem chatMessagesLoop_next (C : Config) (g after : String) (ms : List Entry) :
    (chatMessagesLoop C g after (ms.map Entry.message)).2.1 =
      (ms.getLast?.map (·.id.text)).getD after := by
  induction ms generalizing after with
  | nil => rfl
  | cons m ms ih =>
    have hlast : ((m :: ms).getLast?.map (·.id.text)).getD after =
        (ms.getLast?.map (·.id.text)).getD m.id.text := by
      cases ms with
      | nil => rfl
      | cons m' ms => rw [List.getLast?_cons_cons, List.getLast?_cons]; rfl
    rw [hlast, ← ih, List.map_cons, chatMessagesLoop]
    by_cases hchat : isUserChat m.fields = true
    · cases ht : C.parseTime (value m.fields "timestamp") with
      | none | some => simp only [Entry.message, hchat, ht]; rfl
    · simp only [Entry.message, hchat]
      rfl

/-- `recent` asked with a cursor. -/
def recentAfter (C : Config) (r : Redis) (c : ChatCursor) (limit : Int) (ok : Bool) : Response :=
  recent C (some c) limit (readLatestProductChat r ok) (readProductChat r · ok)

/-- The cursor of an answer: behind its last message, or behind what was read. -/
def nextCursor (r : Redis) (c : ChatCursor) (events : List ChatMessage) (nextRaw : String) :
    Option ChatCursor :=
  match events.getLast? with
  | some event => some event.cursor
  | none =>
    if nextRaw ≠ c.id ∧ (r.batch (r.range c.id)).generation ≠ "" then
      some ⟨(r.batch (r.range c.id)).generation, nextRaw⟩
    else none

variable {events : List ChatMessage}

/-- What an answer with messages says about the read. -/
theorem recentAfter_messages {limit : Int} {ok : Bool} {next : Option ChatCursor}
    (h : recentAfter C r c limit ok = .messages events next) :
    c.valid = true ∧ 1 ≤ limit ∧ (r.batch (r.range c.id)).generation = c.generation ∧
      ¬((r.batch (r.range c.id)).generation = "" ∧ (r.batch (r.range c.id)).messages ≠ []) ∧
      ¬((r.batch (r.range c.id)).earliest ≠ "" ∧
        streamIDBefore c.id (r.batch (r.range c.id)).earliest = true) ∧
      events = (chatMessages C (r.batch (r.range c.id)) c.id).1.take limit.toNat ∧
      next = nextCursor r c events (chatMessages C (r.batch (r.range c.id)) c.id).2.1 := by
  unfold recentAfter recent at h
  simp only [Option.any_some, Option.map_some, Option.getD_some, reduceCtorEq, if_false] at h
  split at h
  · cases h
  rename_i hvalid
  split at h
  · cases h
  split at h
  · cases h
  rename_i batch hread
  obtain rfl := readProductChat_some hread
  split at h
  · cases h
  rename_i hmsg
  split at h
  · cases h
  rename_i hgen
  split at h
  · cases h
  rename_i hearliest
  split at h
  · cases h
  cases h
  rw [decide_eq_true_eq, ne_eq, not_not] at hgen
  exact ⟨by simpa using hvalid, by omega, hgen.symm, hmsg, by simpa using hearliest, rfl, rfl⟩

/-- Behind `c'` lie the chats behind `c` without the first `k`. -/
structure Continues (C : Config) (log : List Added) (c : ChatCursor) (k : Nat)
    (c' : ChatCursor) : Prop where
  generation : c'.generation = c.generation
  chats : chatsAfter C log c' = (chatsAfter C log c).drop k
  le : textKey c.id ≤ textKey c'.id
  entry : ∃ y ∈ log, y.key = textKey c'.id ∧ InStreamOf log c.generation y.number

/-- A page: its messages are the first chats behind the cursor, and behind its
next cursor lie the others. -/
structure RecentPage (C : Config) (log : List Added) (c : ChatCursor)
    (events : List ChatMessage) (next : Option ChatCursor) : Prop where
  first : List.Forall₂ (fun x m => Delivers C x (.ws (.chat m)))
    ((chatsAfter C log c).take events.length) events
  rest : ∀ c', next = some c' → Continues C log c events.length c'

theorem RedisInv.continues (hr : RedisInv r) {k : Nat} {y : Added}
    (hg : InStreamOf r.added c.generation n) (hy : y ∈ r.added) (hyn : y.number = n)
    (hle : textKey c.id ≤ y.key)
    (hdrop : (chatsBehind C r.added n (textKey c.id)).filter (fun x => y.key < x.key) =
      (chatsBehind C r.added n (textKey c.id)).drop k) :
    Continues C r.added c k ⟨c.generation, y.entry.id.text⟩ := by
  have hkey : textKey y.entry.id.text = y.key := textKey_text _
  refine ⟨rfl, ?_, by rwa [hkey], y, hy, hkey.symm, hyn ▸ hg⟩
  have hg' : InStreamOf r.added (⟨c.generation, y.entry.id.text⟩ : ChatCursor).generation n := hg
  rw [chatsAfter_eq hr.named hg, chatsAfter_eq hr.named hg', hkey, chatsBehind_narrow hle]
  exact hdrop

theorem forall₂_getLast? {α β : Type} {R : α → β → Prop} {l1 : List α} {l2 : List β}
    (h : List.Forall₂ R l1 l2) {b : β} (hb : l2.getLast? = some b) :
    ∃ a, l1.getLast? = some a ∧ R a b := by
  have hrev := List.forall₂_reverse_iff.mpr h
  rw [← List.head?_reverse] at hb
  obtain ⟨rest, hrest⟩ := List.head?_eq_some_iff.mp hb
  rw [hrest] at hrev
  cases hl : l1.reverse with
  | nil =>
    rw [hl] at hrev
    cases hrev
  | cons a rest' =>
    rw [hl] at hrev
    cases hrev with
    | cons hab _ => exact ⟨a, by rw [← List.head?_reverse, hl]; rfl, hab⟩

theorem recent_spec (hr : RedisInv r) {limit : Int} {ok : Bool} {next : Option ChatCursor}
    (h : recentAfter C r c limit ok = .messages events next) :
    RecentPage C r.added c events next := by
  obtain ⟨hvalid, hlimit, hgen, hmsg, hearliest, hevents, hnext⟩ := recentAfter_messages h
  rw [ChatCursor.valid, decide_eq_true_eq] at hvalid
  have hloop := chatMessagesLoop_events C c.generation c.id (r.range c.id)
  have hraw := chatMessagesLoop_next C c.generation c.id (r.range c.id)
  have hbatch : chatMessages C (r.batch (r.range c.id)) c.id =
      chatMessagesLoop C c.generation c.id ((r.range c.id).map Entry.message) := by
    rw [chatMessages, hgen]
    rfl
  rw [hbatch] at hevents hnext
  rw [hraw] at hnext
  by_cases hrange : r.range c.id = []
  · rw [hrange] at hevents hnext
    obtain rfl : events = [] := by
      rw [hevents]
      exact List.take_nil
    obtain rfl : next = none := by
      rw [hnext]
      exact if_neg fun hne => hne.1 rfl
    refine ⟨.nil, ?_⟩
    intro c' hc'
    cases hc'
  obtain ⟨st, hst, hne, hgne, hg, hfilter⟩ := hr.read_messages rfl hrange hmsg
  rw [hgen] at hg
  obtain ⟨m, hm, hle⟩ := exists_retained_le hst hvalid.2 rfl hne hearliest
  have hentries := hr.chatsBehind_entries (C := C) hst fun x hx hn hlt =>
    hr.retained_behind hst hm hx hn (Nat.le_of_lt (Nat.lt_of_le_of_lt hle hlt))
  have hincr := (hr.entries_increasing hst).filter fun e => textKey c.id < e.id.key
  rw [hfilter] at hincr
  rw [hfilter, List.filter_append] at hentries
  have hfirst := List.forall₂_take limit.toNat hloop
  rw [← hevents] at hfirst
  -- As many chats are taken as there are messages.
  have htake : ((chatsBehind C r.added st.number (textKey c.id)).map (·.entry)).take
      events.length = ((r.range c.id).filter (isChat C)).take limit.toNat := by
    have hlen := hfirst.length_eq
    rw [hentries, ← hlen, List.length_take, List.take_append_of_le_length (Nat.min_le_right _ _)]
    exact List.take_eq_take_min.symm
  rw [← htake, ← List.map_take, List.forall₂_map_left_iff] at hfirst
  refine ⟨?_, ?_⟩
  · rw [chatsAfter_eq hr.named hg]
    exact hfirst.imp fun x m hxm => hxm.2 x rfl
  intro c' hc'
  rw [hc', nextCursor] at hnext
  cases hlast : events.getLast? with
  | some event =>
    rw [hlast] at hnext
    obtain ⟨x, hx, hcursor, -⟩ := forall₂_getLast? hfirst hlast
    rw [Option.some.inj hnext, hcursor]
    obtain ⟨hmem, hxn, -, hlt⟩ :=
      mem_chatsBehind.mp (List.mem_of_mem_take (List.mem_of_getLast? hx))
    exact hr.continues hg hmem hxn hlt.le
      (filter_lt_getLast_take (hr.chatsBehind_increasing ..) hx)
  | none =>
    -- Nothing that was read is a chat, so every chat lies behind it.
    obtain rfl := List.getLast?_eq_none_iff.mp hlast
    rw [List.getLast?_nil] at hnext
    dsimp only at hnext
    split at hnext
    · obtain ⟨last, hread⟩ := Option.isSome_iff_exists.mp (List.getLast?_isSome.mpr hrange)
      have hlastMem := List.mem_of_getLast? hread
      have hnone : (r.range c.id).filter (isChat C) = [] := by
        have hlen := congrArg List.length htake
        rw [List.length_nil, List.take_zero, List.length_nil, List.length_take] at hlen
        exact List.eq_nil_of_length_eq_zero (by omega)
      rw [hnone, List.nil_append] at hentries
      have hlastFilter : last ∈ st.entries.filter fun e => textKey c.id < e.id.key := by
        rw [hfilter]
        exact List.mem_append_left _ hlastMem
      rw [List.mem_filter, decide_eq_true_eq] at hlastFilter
      obtain ⟨y, hy, hyn, rfl⟩ := hr.exists_added hst hlastFilter.1
      rw [Option.some.inj hnext, hread, hgen]
      refine hr.continues hg hy hyn hlastFilter.2.le ?_
      rw [List.length_nil, List.drop_zero, List.filter_eq_self]
      intro x hx
      have hxe : x.entry ∈ (chatsBehind C r.added st.number (textKey c.id)).map (·.entry) :=
        List.mem_map_of_mem hx
      rw [hentries] at hxe
      exact decide_eq_true ((List.pairwise_append.mp hincr).2.2 y.entry hlastMem x.entry
        (List.mem_of_mem_filter hxe))
    · cases hnext

/-! ## Two answers -/

/-- Entries that come later are behind every entry of their stream. -/
theorem chatsBehind_more (hincr : (log ++ more).Pairwise fun x y => x.position < y.position)
    {y : Added} (hy : y ∈ log) (hle : a ≤ y.key) :
    chatsBehind C more y.number a = chatsBehind C more y.number y.key := by
  refine List.filter_congr ?_
  intro x hx
  by_cases hn : x.number = y.number
  · have hlt : y.key < x.key := by
      rcases position_lt_iff.mp ((List.pairwise_append.mp hincr).2.2 y hy x hx) with h | h
      · omega
      · exact h.2
    simp [hn, hlt, Nat.lt_of_le_of_lt hle hlt]
  · simp [hn]

/-- A page and one at its next cursor list the chats behind the first cursor,
whatever was added in between. -/
theorem RecentPage.resume {c' : ChatCursor} {events' : List ChatMessage}
    {next' : Option ChatCursor} (h : RecentPage C log c events (some c'))
    (h' : RecentPage C (log ++ more) c' events' next') (hnamed : Named (log ++ more))
    (hincr : (log ++ more).Pairwise fun x y => x.position < y.position) :
    List.Forall₂ (fun x m => Delivers C x (.ws (.chat m)))
      ((chatsAfter C (log ++ more) c).take (events.length + events'.length))
      (events ++ events') := by
  obtain ⟨hgen, hchats, hle, y, hy, hykey, hg⟩ := h.rest c' rfl
  have hold : Named log := fun x hx z hz =>
    hnamed x (List.mem_append_left _ hx) z (List.mem_append_left _ hz)
  have hgrow : InStreamOf (log ++ more) c.generation y.number := by
    obtain ⟨z, hz, hfields⟩ := hg
    exact ⟨z, List.mem_append_left _ hz, hfields⟩
  have hlen : events.length ≤ (chatsAfter C log c).length := by
    have hlen := h.first.length_eq
    rw [List.length_take] at hlen
    omega
  have hsplit : chatsAfter C (log ++ more) c =
      chatsAfter C log c ++ chatsBehind C more y.number (textKey c.id) := by
    rw [chatsAfter_eq hnamed hgrow, chatsAfter_eq hold hg, chatsBehind_append]
  have hmore : chatsBehind C more y.number (textKey c.id) =
      chatsBehind C more y.number (textKey c'.id) := by
    rw [← hykey] at hle ⊢
    exact chatsBehind_more hincr hy hle
  have hrest : chatsAfter C (log ++ more) c' =
      (chatsAfter C (log ++ more) c).drop events.length := by
    rw [hsplit, List.drop_append_of_le_length hlen, ← hchats, chatsAfter_eq hold (hgen ▸ hg),
      chatsAfter_eq hnamed (hgen ▸ hgrow), chatsBehind_append, hmore]
  rw [List.take_add, ← hrest, hsplit, List.take_append_of_le_length hlen]
  exact List.rel_append h.first h'.first

/-! ## Every run -/

theorem step_added (C : Config) (s : State) (i : Input) :
    s.redis.added <+: (step C s i).redis.added := by
  cases i with
  | publish uuid minID entry => exact List.prefix_append _ _
  | trim | deleteStream | expireGeneration | iterate | leave => exact List.prefix_rfl
  | watch cursor =>
    simp only [step]
    split <;> exact List.prefix_rfl
  | stream cursor ok sent =>
    simp only [step]
    split
    · exact List.prefix_rfl
    · split <;> exact List.prefix_rfl

theorem run_added {tr : List (Input × Unit)} (hr : (machine C).Run s tr s') :
    s.redis.added <+: s'.redis.added :=
  hr.invariant (I := fun s' => s.redis.added <+: s'.redis.added)
    (fun s' i h _ => h.trans (step_added C s' i)) List.prefix_rfl

/-- The two loops report what they miss, and `recent` misses nothing. -/
theorem no_silent_loss (C : Config) (tr : List (Input × Unit)) (s : State)
    (hr : (machine C).Run State.init tr s) :
    (∀ session ∈ s.sessions, NoSilentLoss C s.redis.added session.start session.items) ∧
      ∀ c limit ok events next, recentAfter C s.redis c limit ok = .messages events next →
        List.Forall₂ (fun x m => Delivers C x (.ws (.chat m)))
            ((chatsAfter C s.redis.added c).take events.length) events ∧
          ∀ c', next = some c' → ∀ tr' s', (machine C).Run s tr' s' →
            ∀ limit' ok' events' next',
              recentAfter C s'.redis c' limit' ok' = .messages events' next' →
                List.Forall₂ (fun x m => Delivers C x (.ws (.chat m)))
                  ((chatsAfter C s'.redis.added c).take (events.length + events'.length))
                  (events ++ events') := by
  have h := run_chatInv hr
  refine ⟨fun session hs => (h.sessions session hs).noSilentLoss, ?_⟩
  intro c limit ok events next hpage
  have hpage := recent_spec h.redis hpage
  refine ⟨hpage.first, ?_⟩
  rintro c' rfl tr' s' hr' limit' ok' events' next' hpage'
  have h' := run_chatInv (hr.trans hr')
  have hpage' := recent_spec h'.redis hpage'
  have hincr := h'.redis.increasing
  have hnamed := h'.redis.named
  obtain ⟨more, hmore⟩ := run_added hr'
  rw [← hmore] at hpage' hincr hnamed ⊢
  exact hpage.resume hpage' hnamed hincr

/-! ## A run -/

def fixtureConfig : Config := ⟨"fixture_channel", fun text => if text = "" then none else some 1⟩

def fixtureEntry (ms : Fin (2 ^ 64)) (id : String) : Entry :=
  ⟨⟨ms, 0⟩, [("type", "chat"), ("id", id), ("userId", "u"), ("timestamp", "t"), ("message", id)]⟩

/-- The ID that Redis gives to the first entry. -/
def fixtureID : StreamID := (fixtureEntry 1 "a").id

/-- Two readers start behind the first of two chats and read the second.  Then a
third is trimmed before they read again, and they find the fourth; then the
stream is deleted and the fifth chat starts another one. -/
def resetRun : State × List (Input × Unit) :=
  (machine fixtureConfig).exec State.init
    [ .publish "g1" 0 (fixtureEntry 1 "a"), .publish "unused" 0 (fixtureEntry 2 "b")
    , .watch (some ⟨"g1", "1-0"⟩), .stream (some ⟨"g1", "1-0"⟩) true 5
    , .iterate 0 true 5, .iterate 1 true 5
    , .trim (3 * 2 ^ 64)
    , .publish "unused-2" (3 * 2 ^ 64) (fixtureEntry 3 "c")
    , .publish "unused-3" (4 * 2 ^ 64) (fixtureEntry 4 "d")
    , .iterate 0 true 5, .iterate 1 true 5
    , .deleteStream, .publish "g2" 0 (fixtureEntry 1 "e")
    , .iterate 0 true 5, .iterate 1 true 5
    , .publish "unused-4" 0 (fixtureEntry 2 "f") ]

theorem run_resetRun : (machine fixtureConfig).Run State.init resetRun.2 resetRun.1 :=
  Machine.run_exec _ _ (by decide)

theorem no_silent_loss_resetRun :
    resetRun.1.sessions.map (fun session => session.items.map fun item =>
        (item.cursor, item.gapBefore)) =
      [[(some ⟨"g1", "2-0"⟩, false), (some ⟨"g1", "4-0"⟩, true), (none, false)],
        [(none, false), (some ⟨"g1", "2-0"⟩, false), (none, false), (none, false)]] ∧
      recentAfter fixtureConfig resetRun.1.redis ⟨"g2", "1-0"⟩ 50 true =
        .messages [⟨"f", ⟨"g2", "2-0"⟩, 1, "", "f"⟩] (some ⟨"g2", "2-0"⟩) ∧
      (∀ session ∈ resetRun.1.sessions,
        NoSilentLoss fixtureConfig resetRun.1.redis.added session.start session.items) ∧
      List.Forall₂ (fun x m => Delivers fixtureConfig x (.ws (.chat m)))
        ((chatsAfter fixtureConfig resetRun.1.redis.added ⟨"g2", "1-0"⟩).take 1)
        [⟨"f", ⟨"g2", "2-0"⟩, 1, "", "f"⟩] := by
  obtain ⟨hsessions, hrecent⟩ := no_silent_loss _ _ _ run_resetRun
  have hpage : recentAfter fixtureConfig resetRun.1.redis ⟨"g2", "1-0"⟩ 50 true =
      .messages [⟨"f", ⟨"g2", "2-0"⟩, 1, "", "f"⟩] (some ⟨"g2", "2-0"⟩) := by
    decide
  exact ⟨by decide, hpage, hsessions, (hrecent _ _ _ _ _ hpage).1⟩

end RogiCollector.Ports.ChatStream
