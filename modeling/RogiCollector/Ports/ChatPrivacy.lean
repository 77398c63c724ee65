import RogiCollector.Ports.ChatPipeline
import RogiCollector.Ports.ChatRecent
import RogiCollector.Ports.ArchiveTiers

/-!
# What two runs with different user IDs have in common

The user ID of a chat is no public datum: the archive has a keyed hash in its
place, and the public readers show the nickname. Two runs that differ in user IDs
of chats with a nickname therefore look the same to both. A chat with an empty
nickname is shown under its user ID.

Each part has a `hidden` version of its state, without what may differ, and a lemma
that its operations do not look there.
-/

namespace RogiCollector.Ports.Soop

open Verified
open Journal (Time)

/-! ## Packets and messages -/

/-- The message with neither its user ID nor its packet; it still shows whether
there was a user ID. -/
def ChatMessage.hidden (m : ChatMessage) : ChatMessage :=
  { m with userID := if m.userID = [] then [] else bytesOf "?", raw := [] }

/-- The connection without them. -/
def Session.hidden (s : Session) : Session := { s with emitted := s.emitted.map ChatMessage.hidden }

/-- The fields with the user ID and the nickname of a chat. -/
def userFields : Command → Option (Nat × Nat)
  | .chatMessage => some (1, 5)
  | .ogqEmoticon => some (5, 6)
  | _ => none

/-- Packets that differ in the user ID of a chat, which is not empty without its
suffix, and in nothing else but the frame. -/
structure Renamed (p q : SoopPacket) (user nickname : Nat) : Prop where
  kind : userFields (commandOf p.cmd) = some (user, nickname)
  cmd : q.cmd = p.cmd
  ret : q.ret = p.ret
  length : q.fields.length = p.fields.length
  fields : ∀ i, i ≠ user → fieldAt q.fields i = fieldAt p.fields i
  left : stripUserIDSuffix (fieldAt p.fields user) ≠ []
  right : stripUserIDSuffix (fieldAt q.fields user) ≠ []

section Hidden

variable {s t : Session} {A : Answers} {p q : SoopPacket} {user nickname : Nat}
  {answers : Nat → Answers}

theorem shownName_renamed {nickname : Bytes} (h : nickname ≠ []) (userID userID' : Bytes) :
    shownName nickname userID = shownName nickname userID' := by
  rw [shownName, shownName, if_pos h, if_pos h]

/-- A renamed chat with a nickname is the same message but for the user ID. -/
theorem convertChatPacket_renamed (h : Renamed p q 1 5) (hname : fieldAt p.fields 5 ≠ [])
    (c : SoopConnector) (now : Time) :
    (convertChatPacket c q now).hidden = (convertChatPacket c p now).hidden := by
  rw [convertChatPacket, convertChatPacket, ChatMessage.hidden, ChatMessage.hidden]
  simp only [h.fields 5 (by decide), h.fields 0 (by decide), if_neg h.left, if_neg h.right,
    shownName_renamed hname (stripUserIDSuffix (fieldAt q.fields 1))
      (stripUserIDSuffix (fieldAt p.fields 1))]

theorem convertOGQPacket_renamed (h : Renamed p q 5 6) (hname : fieldAt p.fields 6 ≠ [])
    (c : SoopConnector) (now : Time) :
    (convertOGQPacket c q now).map ChatMessage.hidden =
      (convertOGQPacket c p now).map ChatMessage.hidden := by
  rw [convertOGQPacket, convertOGQPacket]
  simp only [h.fields 1 (by decide), h.fields 2 (by decide), h.fields 3 (by decide),
    h.fields 6 (by decide), h.fields 17 (by decide)]
  split
  · rfl
  · simp only [Option.map_some, ChatMessage.hidden, if_neg h.left, if_neg h.right,
      shownName_renamed hname (stripUserIDSuffix (fieldAt q.fields 5))
        (stripUserIDSuffix (fieldAt p.fields 5))]

theorem emit_hidden (s : Session) (A : Answers) (m : ChatMessage) :
    (s.emit A m).hidden = s.hidden.emit A m.hidden := by
  rw [Session.emit, Session.emit]
  split
  · simp only [Session.hidden, List.map_append, List.map_cons, List.map_nil]
  · rfl

theorem hidden_comp_hidden : ChatMessage.hidden ∘ ChatMessage.hidden = ChatMessage.hidden := by
  funext m
  rw [Function.comp_apply, ChatMessage.hidden, ChatMessage.hidden]
  split <;> simp [*]

/-- What a packet does does not depend on what is hidden. -/
theorem hidden_dispatch (s : Session) (A : Answers) (p : SoopPacket) :
    (s.hidden.dispatch A p).hidden = (s.dispatch A p).hidden := by
  have hhidden : s.hidden.hidden = s.hidden := by
    simp only [Session.hidden, List.map_map, hidden_comp_hidden]
  have hemit (m : ChatMessage) : (s.hidden.count.emit A m).hidden = (s.count.emit A m).hidden := by
    rw [emit_hidden, emit_hidden]
    exact congrArg (fun s : Session => s.count.emit A m.hidden) hhidden
  cases hcmd : commandOf p.cmd with
  | chatMessage | subscription =>
    simp only [Session.dispatch, hcmd]
    exact hemit _
  | otherDonation =>
    simp only [Session.dispatch, hcmd, emit_hidden, hhidden]
    rfl
  | ogqEmoticon | notice =>
    simp only [Session.dispatch, hcmd, show s.hidden.connector = s.connector from rfl]
    split
    · exact hhidden
    · exact hemit _
  | login | join | sendBalloon | unknown =>
    simp only [Session.dispatch, hcmd, Session.balloon, apply_ite Session.hidden]
    simp only [Session.report, Session.closeConn, Session.count, Session.hidden, List.map_map,
      hidden_comp_hidden]

theorem userFields_cases (h : userFields (commandOf p.cmd) = some (user, nickname)) :
    (commandOf p.cmd = .chatMessage ∧ user = 1 ∧ nickname = 5) ∨
      (commandOf p.cmd = .ogqEmoticon ∧ user = 5 ∧ nickname = 6) := by
  cases hcmd : commandOf p.cmd with
  | chatMessage =>
    rw [hcmd] at h
    obtain ⟨rfl, rfl⟩ := Prod.mk.inj (Option.some.inj h)
    exact Or.inl ⟨rfl, rfl, rfl⟩
  | ogqEmoticon =>
    rw [hcmd] at h
    obtain ⟨rfl, rfl⟩ := Prod.mk.inj (Option.some.inj h)
    exact Or.inr ⟨rfl, rfl, rfl⟩
  | login | join | sendBalloon | otherDonation | subscription | notice | unknown =>
    rw [hcmd] at h
    contradiction

/-- Renaming a chat with a nickname changes only what is hidden. -/
theorem dispatch_renamed (h : Renamed p q user nickname) (hname : fieldAt p.fields nickname ≠ []) :
    (s.dispatch A q).hidden = (s.dispatch A p).hidden := by
  rcases userFields_cases h.kind with ⟨hcmd, rfl, rfl⟩ | ⟨hcmd, rfl, rfl⟩
  · simp only [Session.dispatch, h.cmd, hcmd, emit_hidden, convertChatPacket_renamed h hname]
  · have hmessage := convertOGQPacket_renamed h hname s.connector A.now
    simp only [Session.dispatch, h.cmd, hcmd]
    generalize convertOGQPacket s.connector q A.now = m at hmessage ⊢
    generalize convertOGQPacket s.connector p A.now = m' at hmessage ⊢
    cases m with
    | none => rw [Option.map_eq_none_iff.mp hmessage.symm]
    | some m =>
      obtain ⟨m', rfl, hm⟩ := Option.map_eq_some_iff.mp hmessage.symm
      simp only [emit_hidden, hm]

/-- The same packet, or a renamed chat that has a nickname. -/
def Alike (p q : SoopPacket) : Prop :=
  p = q ∨ ∃ user nickname, Renamed p q user nickname ∧ fieldAt p.fields nickname ≠ []

theorem Alike.cmd (h : Alike p q) : q.cmd = p.cmd := by
  rcases h with rfl | ⟨_, _, hrenamed, -⟩
  · rfl
  · exact hrenamed.cmd

theorem dispatch_hidden (hs : s.hidden = t.hidden) (h : Alike p q) :
    (s.dispatch A p).hidden = (t.dispatch A q).hidden := by
  rw [← hidden_dispatch, hs, hidden_dispatch]
  rcases h with rfl | ⟨user, nickname, hrenamed, hname⟩
  · rfl
  · exact (dispatch_renamed hrenamed hname).symm

/-- Sessions that look the same still do after packets that look the same. -/
theorem handlePacket_hidden (hs : s.hidden = t.hidden) (h : Alike p q) :
    (handlePacket answers s p).hidden = (handlePacket answers t q).hidden := by
  have hjoined : s.hidden.joined = t.hidden.joined := congrArg Session.joined hs
  have hhandled : s.hidden.handled = t.hidden.handled := congrArg Session.handled hs
  have hwaits : (!s.joined ∧ !handshake p) = (!t.joined ∧ !handshake q) := by
    rw [handshake, handshake, h.cmd]
    exact congrArg (fun joined => !joined ∧ _) hjoined
  rw [handlePacket_eq, handlePacket_eq, ← show s.handled = t.handled from hhandled]
  by_cases hwait : !s.joined ∧ !handshake p
  · rw [if_pos hwait, if_pos (hwaits ▸ hwait)]
    exact congrArg (fun x : Session => { x with handled := s.handled + 1 }) hs
  · rw [if_neg hwait, if_neg (hwaits ▸ hwait)]
    refine dispatch_hidden ?_ h
    have hreceived : received q = received p := by rw [received, received, h.cmd]
    rw [Session.entered.eq_def t, hreceived]
    exact congrArg (fun x : Session => x.entered _ p) hs

end Hidden

end RogiCollector.Ports.Soop

/-! ## The stream -/

namespace RogiCollector.Ports.ChatStream

open Verified

/-- Fields without the user ID; they still show whether there was one. -/
def hideUser (values : List (String × String)) : List (String × String) :=
  values.map fun f => if f.1 = "userId" ∧ f.2 ≠ "" then (f.1, "?") else f

def Entry.hidden (e : Entry) : Entry := { e with fields := hideUser e.fields }

def StreamMessage.hidden (m : StreamMessage) : StreamMessage :=
  { m with values := hideUser m.values }

def ChatBatch.hidden (b : ChatBatch) : ChatBatch :=
  { b with messages := b.messages.map StreamMessage.hidden }

def Stream.hidden (st : Stream) : Stream := { st with entries := st.entries.map Entry.hidden }

/-- Redis without the user IDs, as far as scripts read it. -/
def Redis.hidden (r : Redis) : Redis := { r with stream := r.stream.map Stream.hidden, added := [] }

section Hidden

variable {values : List (String × String)} {r : Redis}

theorem find_hideUser (k : String) :
    ((hideUser values).reverse.find? fun f => f.1 = k) =
      (values.reverse.find? fun f => f.1 = k).map fun f =>
        if f.1 = "userId" ∧ f.2 ≠ "" then (f.1, "?") else f := by
  rw [hideUser, ← List.map_reverse, List.find?_map]
  congr 2
  funext f
  simp only [Function.comp]
  split <;> rfl

theorem value_hideUser {k : String} (hk : k ≠ "userId") :
    value (hideUser values) k = value values k := by
  rw [value, value, find_hideUser]
  cases hfind : values.reverse.find? fun f => f.1 = k with
  | none => rfl
  | some f =>
    have hkey : f.1 = k := by simpa using List.find?_some hfind
    rw [Option.map_some, if_neg (by rw [hkey]; exact fun h => hk h.1)]

theorem value_hideUser_user :
    value (hideUser values) "userId" = "" ↔ value values "userId" = "" := by
  rw [value, value, find_hideUser]
  cases hfind : values.reverse.find? fun f => f.1 = "userId" with
  | none => rfl
  | some f =>
    have hkey : f.1 = "userId" := by simpa using List.find?_some hfind
    by_cases hempty : f.2 = ""
    · rw [Option.map_some, if_neg (by simp [hempty])]
    · rw [Option.map_some, if_pos ⟨hkey, hempty⟩]
      simp [hempty]

theorem isUserChat_hideUser : isUserChat (hideUser values) = isUserChat values := by
  rw [isUserChat, isUserChat, value_hideUser (by decide), decide_eq_decide, ne_eq, ne_eq,
    value_hideUser_user]

/-- Public messages do not have the user ID. -/
theorem chatMessagesLoop_hidden (C : Config) (generation after : String)
    (msgs : List StreamMessage) :
    chatMessagesLoop C generation after (msgs.map StreamMessage.hidden) =
      chatMessagesLoop C generation after msgs := by
  induction msgs generalizing after with
  | nil => rfl
  | cons msg msgs ih =>
    have hvalue : ∀ k, k ≠ "userId" → value msg.hidden.values k = value msg.values k :=
      fun k hk => value_hideUser hk
    have hchat : isUserChat msg.hidden.values = isUserChat msg.values := isUserChat_hideUser
    have hid : msg.hidden.streamID = msg.streamID := rfl
    have hmessage : ∀ t, chatMessage generation msg.hidden t = chatMessage generation msg t := by
      intro t
      rw [chatMessage, chatMessage, hvalue "id" (by decide), hvalue "nickname" (by decide),
        hvalue "message" (by decide), hid]
    rw [List.map_cons, chatMessagesLoop, chatMessagesLoop, hid, ih, hchat,
      hvalue "timestamp" (by decide)]
    simp only [hmessage]

theorem chatMessages_hidden (C : Config) (b : ChatBatch) (after : String) :
    chatMessages C b.hidden after = chatMessages C b after :=
  chatMessagesLoop_hidden C b.generation after b.messages

theorem hidden_messages_ne (b : ChatBatch) : b.hidden.messages ≠ [] ↔ b.messages ≠ [] := by
  rw [ChatBatch.hidden, ne_eq, List.map_eq_nil_iff]

/-- `recent` answers the same without the user IDs. -/
theorem recent_hidden (C : Config) (cursor : Option ChatCursor) (limit : Int)
    (latest : Option ChatBatch) (read : String → Option ChatBatch) :
    recent C cursor limit (latest.map ChatBatch.hidden)
        (fun after => (read after).map ChatBatch.hidden) =
      recent C cursor limit latest read := by
  have hbatch : (if cursor = none then latest.map ChatBatch.hidden
      else (read ((cursor.map (·.id)).getD zeroID)).map ChatBatch.hidden) =
        (if cursor = none then latest
          else read ((cursor.map (·.id)).getD zeroID)).map ChatBatch.hidden := by
    split <;> rfl
  rw [recent, recent]
  simp only [hbatch]
  cases (if cursor = none then latest else read ((cursor.map (·.id)).getD zeroID)) with
  | none => rfl
  | some b =>
    simp only [Option.map_some, hidden_messages_ne, chatMessages_hidden]
    rfl

theorem streamStart_hidden (cursor : Option ChatCursor) (initial : Option ChatBatch) :
    streamStart cursor (initial.map ChatBatch.hidden) = streamStart cursor initial := by
  cases initial with
  | none => rfl
  | some b =>
    simp only [Option.map_some, streamStart, hidden_messages_ne]
    rfl

theorem streamFrom_hidden (cursor : Option ChatCursor) (initial : Option ChatBatch) :
    streamFrom cursor (initial.map ChatBatch.hidden) = streamFrom cursor initial := by
  cases cursor with
  | none => cases initial <;> rfl
  | some c => rfl

theorem streamIteration_hidden (C : Config) (st : LoopState) (batch : Option ChatBatch) :
    streamIteration C st (batch.map ChatBatch.hidden) = streamIteration C st batch := by
  cases batch with
  | none => rfl
  | some b =>
    simp only [Option.map_some, streamIteration, hidden_messages_ne, chatMessages_hidden]
    rfl

/-! ### The scripts -/

theorem hidden_entries (r : Redis) : r.hidden.entries = r.entries.map Entry.hidden := by
  rw [Redis.entries, Redis.entries, Redis.hidden]
  cases r.stream <;> rfl

theorem hidden_batch (r : Redis) (entries : List Entry) :
    r.hidden.batch (entries.map Entry.hidden) = (r.batch entries).hidden := by
  have hhead : (r.entries.map Entry.hidden).head?.map (·.id.text) =
      r.entries.head?.map (·.id.text) := by
    rw [List.head?_map, Option.map_map]
    rfl
  have hlast : (r.entries.map Entry.hidden).getLast?.map (·.id.text) =
      r.entries.getLast?.map (·.id.text) := by
    rw [List.getLast?_map, Option.map_map]
    rfl
  simp only [Redis.batch, ChatBatch.hidden, hidden_entries, hhead, hlast, List.map_map]
  rfl

theorem hidden_range (r : Redis) (after : String) :
    r.hidden.range after = (r.range after).map Entry.hidden := by
  rw [Redis.range, Redis.range, hidden_entries, List.filter_map, List.map_take]
  rfl

theorem readProductChat_hidden (after : String) (ok : Bool) :
    readProductChat r.hidden after ok = (readProductChat r after ok).map ChatBatch.hidden := by
  rw [readProductChat, readProductChat, hidden_range, hidden_batch]
  split <;> rfl

theorem readLatestProductChat_hidden (ok : Bool) :
    readLatestProductChat r.hidden ok = (readLatestProductChat r ok).map ChatBatch.hidden := by
  rw [readLatestProductChat, readLatestProductChat, hidden_entries, List.length_map,
    ← List.map_drop, hidden_batch]
  split <;> rfl

theorem map_dropWhile_hidden (entries : List Entry) (minID : Nat) :
    (entries.map Entry.hidden).dropWhile (fun e => e.id.key < minID) =
      (entries.dropWhile fun e => e.id.key < minID).map Entry.hidden := by
  rw [List.dropWhile_map]
  rfl

theorem hidden_current (r : Redis) : r.hidden.current = r.current.hidden := by
  rw [Redis.current, Redis.current, Redis.hidden]
  cases r.stream <;> rfl

theorem publishProductChat_hidden (r : Redis) (uuid : String) (minID : Nat) (e : Entry) :
    (publishProductChat r uuid minID e).hidden =
      { publishProductChat r.hidden uuid minID e.hidden with added := [] } := by
  have hentries : r.hidden.current.entries ++ [e.hidden] =
      (r.current.entries ++ [e]).map Entry.hidden := by
    rw [hidden_current, List.map_append]
    rfl
  have hnumber : r.hidden.current.number = r.current.number := by
    rw [hidden_current]
    rfl
  have hkey : e.hidden.id = e.id := rfl
  rw [publishProductChat, publishProductChat]
  simp only [hentries, hnumber, hkey, List.length_map, ← List.map_drop, map_dropWhile_hidden]
  -- the entries are equal as they stand; only the generation is left to compare
  generalize List.dropWhile _ _ = entries
  generalize r.current.number = number
  simp only [Redis.hidden, Option.map_some, Stream.hidden]
  cases r.stream <;> cases r.generation <;> rfl

theorem trimProductChat_hidden (r : Redis) (minID : Nat) :
    (trimProductChat r minID).hidden = trimProductChat r.hidden minID := by
  rw [trimProductChat, trimProductChat, Redis.hidden, Redis.hidden]
  simp only [Option.map_map, Redis.mk.injEq, and_true]
  congr 1
  funext st
  simp only [Function.comp_apply, Stream.hidden, map_dropWhile_hidden]

/-! ### The readers -/

/-- A reader of the public stream. -/
def Session.isPublic (x : Session) : Prop := ∀ st, x.point ≠ .watch st

theorem Session.iterate_hidden (C : Config) (r : Redis) (ok : Bool) (sent : Nat) {x : Session}
    (hx : x.isPublic) : x.iterate C r.hidden ok sent = x.iterate C r ok sent := by
  rw [Session.iterate, Session.iterate]
  cases hpoint : x.point with
  | watch st => exact absurd hpoint (hx st)
  | loop st => simp only [readProductChat_hidden, streamIteration_hidden]
  | ended => rfl

theorem Session.isPublic_receive (x : Session) (items : List Item) (sent : Nat) (point : Point)
    (h : ∀ st, point ≠ .watch st) : (x.receive items sent point).isPublic := by
  intro st
  rw [Session.receive]
  dsimp only
  split
  · exact h st
  · exact fun hended => Point.noConfusion hended

theorem Session.isPublic_iterate (C : Config) (r : Redis) (ok : Bool) (sent : Nat) {x : Session}
    (hx : x.isPublic) : (x.iterate C r ok sent).isPublic := by
  rw [Session.iterate]
  cases hpoint : x.point with
  | watch st => exact absurd hpoint (hx st)
  | loop st =>
    cases hstep : streamIteration C st (readProductChat r st.after ok) with
    | mk messages next =>
      cases next with
      | none =>
        simp only [hstep]
        exact isPublic_receive x _ sent .ended (by simp)
      | some st =>
        simp only [hstep]
        exact isPublic_receive x _ sent (.loop st) (by simp)
  | ended =>
    intro st
    rw [hpoint]
    exact fun hended => Point.noConfusion hended

end Hidden

/-- Redis looks the same, and the public readers have received the same. -/
structure LooksLike (s t : State) : Prop where
  redis : s.redis.hidden = t.redis.hidden
  sessions : s.sessions = t.sessions
  isPublic : ∀ x ∈ s.sessions, x.isPublic

namespace LooksLike

variable {s t : State} (C : Config)

theorem publish (h : LooksLike s t) (uuid : String) (minID : Nat) {e e' : Entry}
    (he : e.hidden = e'.hidden) :
    LooksLike (step C s (.publish uuid minID e)) (step C t (.publish uuid minID e')) := by
  refine ⟨?_, h.sessions, h.isPublic⟩
  simp only [step, publishProductChat_hidden, h.redis, he]

theorem trim (h : LooksLike s t) (minID : Nat) :
    LooksLike (step C s (.trim minID)) (step C t (.trim minID)) := by
  refine ⟨?_, h.sessions, h.isPublic⟩
  simp only [step, trimProductChat_hidden, h.redis]

theorem deleteStream (h : LooksLike s t) :
    LooksLike (step C s .deleteStream) (step C t .deleteStream) := by
  refine ⟨?_, h.sessions, h.isPublic⟩
  exact congrArg (fun r : Redis => { r with stream := none }) h.redis

theorem expireGeneration (h : LooksLike s t) :
    LooksLike (step C s .expireGeneration) (step C t .expireGeneration) := by
  refine ⟨?_, h.sessions, h.isPublic⟩
  exact congrArg (fun r : Redis => { r with generation := none }) h.redis

theorem read_eq (h : LooksLike s t) (after : String) (ok : Bool) :
    (readProductChat s.redis after ok).map ChatBatch.hidden =
      (readProductChat t.redis after ok).map ChatBatch.hidden := by
  rw [← readProductChat_hidden, ← readProductChat_hidden, h.redis]

/-- One reader joins. -/
theorem join (h : LooksLike s t) {session : Session} (hs : session.isPublic) :
    LooksLike { s with sessions := s.sessions ++ [session] }
      { t with sessions := t.sessions ++ [session] } := by
  refine ⟨h.redis, by rw [h.sessions], ?_⟩
  exact List.forall_mem_append.mpr ⟨h.isPublic, List.forall_mem_singleton.mpr hs⟩

theorem stream (h : LooksLike s t) (cursor : Option ChatCursor) (ok : Bool) (sent : Nat) :
    LooksLike (step C s (.stream cursor ok sent)) (step C t (.stream cursor ok sent)) := by
  have hread := h.read_eq ((cursor.map (·.id)).getD zeroID) ok
  simp only [step]
  generalize readProductChat s.redis ((cursor.map (·.id)).getD zeroID) ok = a at hread ⊢
  generalize readProductChat t.redis ((cursor.map (·.id)).getD zeroID) ok = b at hread ⊢
  have hstart : streamStart cursor a = streamStart cursor b := by
    rw [← streamStart_hidden, hread, streamStart_hidden]
  have hfrom : streamFrom cursor a = streamFrom cursor b := by
    rw [← streamFrom_hidden, hread, streamFrom_hidden]
  by_cases hvalid : (cursor.any fun c => !c.valid) = true
  · rw [if_pos hvalid, if_pos hvalid]
    exact h
  · rw [if_neg hvalid, if_neg hvalid, hstart, hfrom]
    cases streamStart cursor b with
    | mk messages next =>
      cases next with
      | none =>
        exact h.join (Session.isPublic_receive _ _ sent .ended (by simp))
      | some st =>
        exact h.join (Session.isPublic_receive _ _ sent (.loop st) (by simp))

/-- One reader changes. -/
theorem modify (h : LooksLike s t) (k : Nat) {f g : Session → Session}
    (hfg : ∀ x, x.isPublic → f x = g x) (hpublic : ∀ x, x.isPublic → (f x).isPublic) :
    LooksLike { s with sessions := s.sessions.modify k f }
      { t with sessions := t.sessions.modify k g } := by
  refine ⟨h.redis, ?_, ?_⟩
  · apply List.ext_getElem?
    intro i
    rw [List.getElem?_modify, List.getElem?_modify, ← h.sessions]
    cases hx : s.sessions[i]? with
    | none => split <;> rfl
    | some x =>
      split
      · exact congrArg some (hfg x (h.isPublic x (List.mem_of_getElem? hx)))
      · rfl
  · intro x hx
    rcases mem_modify hx with hx | ⟨y, hy, rfl⟩
    · exact h.isPublic x hx
    · exact hpublic y (h.isPublic y (List.mem_of_getElem? hy))

theorem iterate (h : LooksLike s t) (k : Nat) (ok : Bool) (sent : Nat) :
    LooksLike (step C s (.iterate k ok sent)) (step C t (.iterate k ok sent)) := by
  refine h.modify k ?_ ?_
  · intro x hx
    rw [← Session.iterate_hidden C s.redis ok sent hx, h.redis,
      Session.iterate_hidden C t.redis ok sent hx]
  · exact fun x hx => Session.isPublic_iterate C s.redis ok sent hx

theorem leave (h : LooksLike s t) (k : Nat) :
    LooksLike (step C s (.leave k)) (step C t (.leave k)) := by
  refine h.modify k (fun x _ => rfl) ?_
  intro x _ st
  simp

end LooksLike

end RogiCollector.Ports.ChatStream

/-! ## The archive -/

namespace RogiCollector.Ports.Archive

open Verified
open Journal (Backend)

/-- A pseudonym like any other. -/
def anonymous : String := String.ofList (List.replicate 64 '0')

theorem hex32_anonymous : hex32 anonymous = true := by decide +kernel

def ChatRow.hidden (row : ChatRow) : ChatRow := { row with publicUserID := anonymous }

def ChatRecord.hidden (r : ChatRecord) : ChatRecord := { r with publicUserID := anonymous }

/-- The archive with one pseudonym for everybody. -/
def Db.hidden (db : Db) : Db :=
  { db with
    hot := db.hot.update fun _ row => row.hidden
    unassigned := db.unassigned.update fun _ u => (u.1.hidden, u.2)
    log := db.log.map ChatRow.hidden }

section Hidden

variable {β : Type} {K : Codec β} {B : Backend} {uuid : String} {position : Nat} {db : Db}
  {r : ChatRecord}

theorem validate_hidden (h : hex32 r.publicUserID = true) : r.hidden.validate K = r.validate K := by
  have hr : hex32 r.hidden.publicUserID = true := hex32_anonymous
  simp only [ChatRecord.validate, h, hr]
  rfl

theorem hidden_delete (db : Db) (spoolID : String) :
    db.hidden.unassigned.delete (fun id _ => id = spoolID) =
      (db.unassigned.delete fun id _ => id = spoolID).update fun _ u => (u.1.hidden, u.2) :=
  Table.delete_update db.unassigned (f := fun _ u => (u.1.hidden, u.2))
    (p := fun id _ => id = spoolID) fun _ _ => rfl

/-- The branch of `appendArchiveChat` without a session. -/
def queued (db : Db) (r : ChatRecord) (reason : Unassigned) : Except ArchiveErr (Db × Bool) :=
  match db.unassigned.insert r.spoolID (r, reason) with
  | none => .ok (db, false)
  | some unassigned => .ok ({ db with unassigned }, false)

theorem queued_hidden (reason : Unassigned) :
    queued db.hidden r.hidden reason =
      (queued db r reason).map fun out => (out.1.hidden, out.2) := by
  have hinsert : db.hidden.unassigned.insert r.hidden.spoolID (r.hidden, reason) =
      (db.unassigned.insert r.spoolID (r, reason)).map fun t =>
        t.update fun _ u => (u.1.hidden, u.2) :=
    Table.insert_update db.unassigned (fun _ u => (u.1.hidden, u.2)) r.spoolID (r, reason)
  rw [queued, queued, hinsert]
  cases db.unassigned.insert r.spoolID (r, reason) <;> rfl

/-- `AppendArchiveChat` does not look at the pseudonyms. -/
theorem appendArchiveChat_hidden (h : hex32 r.publicUserID = true) :
    appendArchiveChat K B uuid position db.hidden r.hidden =
      (appendArchiveChat K B uuid position db r).map fun out => (out.1.hidden, out.2) := by
  have hmatch : matchingBroadcasts db.hidden r.hidden = matchingBroadcasts db r := rfl
  have hsession : ∀ b, ensureSession db.hidden uuid r.hidden b = ensureSession db uuid r b :=
    fun b => rfl
  have hhot : ∀ session, db.hidden.hot.insert position (r.hidden.row session position) =
      (db.hot.insert position (r.row session position)).map fun t =>
        t.update fun _ row => row.hidden :=
    fun session => Table.insert_update db.hot (fun _ row => row.hidden) position
      (r.row session position)
  have hchannel : r.hidden.channelID = r.channelID := rfl
  have hevent : r.hidden.eventID = r.eventID := rfl
  have heventIDs : db.hidden.eventIDs = db.eventIDs := rfl
  have hspool : r.hidden.spoolID = r.spoolID := rfl
  rw [appendArchiveChat, appendArchiveChat, validate_hidden h]
  cases r.validate K with
  | error e => rfl
  | ok _ =>
    dsimp only
    rw [hmatch, hchannel]
    by_cases hallows : (!B.allowsCollection r.channelID) = true
    · rw [if_pos hallows, if_pos hallows]
      rfl
    · rw [if_neg hallows, if_neg hallows]
      cases matchingBroadcasts db r with
      | nil => exact queued_hidden _
      | cons b bs =>
        cases bs with
        | cons b' bs => exact queued_hidden _
        | nil =>
          dsimp only
          rw [hsession]
          cases ensureSession db uuid r b with
          | error e => rfl
          | ok out =>
            obtain ⟨sessions, session⟩ := out
            dsimp only
            rw [heventIDs, hevent]
            cases db.eventIDs.insert (session, r.eventID) position with
            | none =>
              simp only [hspool, hidden_delete]
              rfl
            | some eventIDs =>
              dsimp only
              rw [hhot]
              cases db.hot.insert position (r.row session position) with
              | none => rfl
              | some hot =>
                simp only [Option.map_some, hspool, hidden_delete]
                simp only [Except.map, Db.hidden, List.map_append]
                rfl

end Hidden

end RogiCollector.Ports.Archive

/-! ## The spool -/

namespace RogiCollector.Ports.ChatSpool

open Verified
open Verified.Json
open Journal (Time Backend)
open Archive (Codec ArchiveErr hex32 anonymous)
open SpoolFile (Encoding textAccepts)
open Soop (ChatMessage)

/-- The record with one pseudonym for everybody. -/
def RawChat.hidden (r : RawChat) : RawChat := { r with publicUserID := anonymous }

section Hidden

variable {β : Type} {K : Codec β} {E : Encoding} {r r' : RawChat}

theorem size_string_of_hex32 {s : String} (h : hex32 s = true) : size (E.string s) = 66 := by
  rw [hex32, decide_eq_true_eq] at h
  have hplain : ∀ c ∈ s.toList, Plain c := by
    intro c hc
    have hdigit := List.all_eq_true.mp h.2 c hc
    exact plain_of_hexDigit (by simpa using hdigit)
  rw [Encoding.string, Encoding.bytes, bytesOf, runes_utf8, size_quote_plain _ hplain, h.1]

/-- Pseudonyms of one length leave the size of a record. -/
theorem size_members_hidden (h : hex32 r.publicUserID = true) (receivedAt : Text) :
    size (object (r.members E receivedAt)) = size (object (r.hidden.members E receivedAt)) := by
  have hsize := size_string_of_hex32 (E := E) h
  have hsize' := size_string_of_hex32 (E := E) Archive.hex32_anonymous
  simp only [object, RawChat.members, RawChat.hidden, List.map_cons, List.map_nil, joined,
    memberText, List.flatMap_cons, List.flatMap_nil, size_append, size_cons, size_nil, hsize,
    hsize']

theorem size_sealed_eq {record record' : Text} (hsha : ∀ t, hex32 (E.sha256Hex t) = true)
    (h : size record = size record') : size (sealed E record) = size (sealed E record') := by
  simp only [sealed, marshalEnvelope, object, List.map_cons, List.map_nil, joined,
    memberText, List.flatMap_cons, List.flatMap_nil, size_append, size_cons, size_nil,
    size_string_of_hex32 (hsha record), size_string_of_hex32 (hsha record'), h]

/-- Whether a record is saved does not depend on its pseudonym. -/
theorem saveRecord_hidden (hsha : ∀ t, hex32 (E.sha256Hex t) = true)
    (h : hex32 r.publicUserID = true) :
    (saveRecord K E r).toOption.isSome = (saveRecord K E r.hidden).toOption.isSome := by
  have hvalid : r.hidden.validate K = r.validate K := by
    have hr : hex32 r.hidden.publicUserID = true := Archive.hex32_anonymous
    simp only [RawChat.validate, h, hr]
    rfl
  have htime : r.hidden.receivedAt = r.receivedAt := rfl
  rw [saveRecord, saveRecord, hvalid]
  cases r.validate K with
  | error e => rfl
  | ok _ =>
    simp only [RawChat.marshal, htime]
    cases E.time r.receivedAt with
    | none => rfl
    | some receivedAt =>
      have hsize := size_sealed_eq hsha (size_members_hidden (E := E) h receivedAt)
      simp only [Option.map_some, hsize]
      by_cases hbig : 2 ^ 20 < size (sealed E (object (r.hidden.members E receivedAt)))
      · simp only [if_pos hbig, Except.toOption]
      · simp only [if_neg hbig, Except.toOption, Option.isSome_some]

theorem record_text_hidden (r : RawChat) : r.hidden.text.record = r.text.record.hidden := by
  simp only [RawChat.hidden, RawChat.text, RawChat.record, Archive.ChatRecord.hidden]

/-- Neither does where it goes. -/
theorem appendArchiveChat_hidden {B : Backend} {uuid : String} {position : Nat}
    {db : Archive.Db} {r : Archive.ChatRecord} (h : hex32 r.publicUserID = true) :
    appendArchiveChat K B uuid position db.hidden r.hidden =
      (appendArchiveChat K B uuid position db r).map fun out => (out.1.hidden, out.2) := by
  have harchived : archived db.hidden uuid r.hidden = archived db uuid r := rfl
  have haccepts : (textAccepts r.hidden.channelID ∧ textAccepts r.hidden.eventID ∧
      (archived db.hidden uuid r.hidden ∨
        textAccepts r.hidden.displayName ∧ textAccepts r.hidden.message)) =
      (textAccepts r.channelID ∧ textAccepts r.eventID ∧
        (archived db uuid r ∨ textAccepts r.displayName ∧ textAccepts r.message)) := rfl
  rw [appendArchiveChat, appendArchiveChat, Archive.appendArchiveChat_hidden h]
  cases Archive.appendArchiveChat K B uuid position db r with
  | error e => rfl
  | ok out =>
    simp only [Except.map, haccepts]
    split <;> rfl

end Hidden

end RogiCollector.Ports.ChatSpool

/-! ## Two runs -/

namespace RogiCollector.Ports.ChatPipeline

open Verified
open Archive (hex32)
open SpoolFile (Encoding)
open ChatSpool (RawChat chatRecord publicUserID)
open Soop (SoopPacket SoopConnector ChatMessage)
open ChatStream (hideUser)

section Messages

variable {β : Type} {C : Config β} {m m' : ChatMessage}

theorem redisText_eq_empty (b : Bytes) : redisText b = "" ↔ b = [] := by
  rw [redisText, ← String.toList_inj, String.toList_ofList]
  simp

/-- What a message shows. -/
theorem hidden_inj (h : m.hidden = m'.hidden) :
    m.id = m'.id ∧ m.type = m'.type ∧ m.platform = m'.platform ∧ m.channelID = m'.channelID ∧
      m.nickname = m'.nickname ∧ m.message = m'.message ∧ m.timestamp = m'.timestamp := by
  cases m
  cases m'
  simp only [ChatMessage.hidden, ChatMessage.mk.injEq] at h
  exact ⟨h.1, h.2.1, h.2.2.1, h.2.2.2.1, h.2.2.2.2.2.2.1, h.2.2.2.2.2.2.2.1,
    h.2.2.2.2.2.2.2.2.1⟩

/-- The entry of a message without its user ID. -/
theorem streamFields_hidden (E : Encoding) (m : ChatMessage) (timestamp : String) :
    hideUser (streamFields E m timestamp) = hideUser (streamFields E m.hidden timestamp) := by
  have hquestion : redisText (bytesOf "?") = "?" := by decide +kernel
  by_cases huser : m.userID = []
  · simp only [streamFields, ChatMessage.hidden, huser, if_true]
  · have hne : ¬redisText m.userID = "" := fun h => huser ((redisText_eq_empty _).mp h)
    simp only [streamFields, ChatMessage.hidden, if_neg huser, hideUser, List.map_append,
      List.map_cons, List.map_nil, hquestion]
    simp [hne]

theorem entryOf_hidden (f : Forward) (h : m.hidden = m'.hidden) :
    (entryOf C f m).hidden = (entryOf C f m').hidden := by
  obtain ⟨-, -, -, -, -, -, htime⟩ := hidden_inj h
  rw [ChatStream.Entry.hidden, ChatStream.Entry.hidden, entryOf, entryOf]
  dsimp only
  rw [htime, streamFields_hidden, h, ← streamFields_hidden]

theorem chatRecord_hidden (f : Forward) (h : m.hidden = m'.hidden) :
    (chatRecord C.hmacHex f.spoolID m f.receivedAt).hidden =
      (chatRecord C.hmacHex f.spoolID m' f.receivedAt).hidden := by
  obtain ⟨hid, -, hplatform, hchannel, hname, hmessage, -⟩ := hidden_inj h
  simp only [chatRecord, RawChat.hidden, hid, hplatform, hchannel, hname, hmessage]

theorem savedRecord_eq (f : Forward) (m : ChatMessage) :
    savedRecord C f m =
      if m.type = .chat ∧ f.written ∧ (ChatSpool.saveRecord C.codec C.encoding
          (chatRecord C.hmacHex f.spoolID m f.receivedAt)).toOption.isSome then
        some (chatRecord C.hmacHex f.spoolID m f.receivedAt)
      else none := by
  rw [savedRecord, ChatSpool.save]
  by_cases hchat : m.type = .chat
  · rw [if_neg (not_not_intro hchat)]
    cases ChatSpool.saveRecord C.codec C.encoding
        (chatRecord C.hmacHex f.spoolID m f.receivedAt) with
    | error e => simp [Except.map, Except.toOption]
    | ok body => cases f.written <;> simp [Except.map, Except.toOption, hchat]
  · rw [if_pos hchat]
    exact (if_neg fun h => hchat h.1).symm

/-- Messages that look the same give records that are the same but for the
pseudonym. -/
theorem savedRecord_hidden (f : Forward) (h : m.hidden = m'.hidden) :
    (savedRecord C f m).map RawChat.hidden = (savedRecord C f m').map RawChat.hidden := by
  have hrecord := chatRecord_hidden (C := C) f h
  have hhex : ∀ m, hex32 (chatRecord C.hmacHex f.spoolID m f.receivedAt).publicUserID = true :=
    fun m => C.hmacHex_hex _
  have hsome := fun m => ChatSpool.saveRecord_hidden (K := C.codec) C.sha256_hex (hhex m)
  obtain ⟨-, htype, -⟩ := hidden_inj h
  rw [savedRecord_eq, savedRecord_eq, htype, hsome m, hsome m', hrecord]
  split
  · rw [Option.map_some, Option.map_some, hrecord]
  · rfl

end Messages

/-- States that differ in user IDs and pseudonyms only. -/
structure LooksLike {β : Type} (C : Config β) (s t : State) : Prop where
  session : s.session.hidden = t.session.hidden
  forwarded : s.forwarded = t.forwarded
  saved : s.saved.map (fun x => x.2.hidden) = t.saved.map fun x => x.2.hidden
  chat : ChatStream.LooksLike s.chat t.chat
  db : s.db.hidden = t.db.hidden
  answered : s.answered = t.answered
  left : ∀ x ∈ s.saved, x.2.publicUserID = publicUserID C.hmacHex x.1
  right : ∀ x ∈ t.saved, x.2.publicUserID = publicUserID C.hmacHex x.1

/-- The same input, or a chat of another user with the same nickname. -/
def AlikeInput (i j : Input) : Prop :=
  i = j ∨ ∃ p q, i = .packet p ∧ j = .packet q ∧ Soop.Alike p q

section Runs

variable {β : Type} {C : Config β} {s t : State}

theorem LooksLike.init (c : SoopConnector) : LooksLike C (State.init c) (State.init c) where
  session := rfl
  forwarded := rfl
  saved := rfl
  chat := ⟨rfl, rfl, fun _ hx => absurd hx List.not_mem_nil⟩
  db := rfl
  answered := rfl
  left _ hx := absurd hx List.not_mem_nil
  right _ hx := absurd hx List.not_mem_nil

theorem savedRecord_keyed {f : Forward} {m : ChatMessage} {r : RawChat}
    (h : savedRecord C f m = some r) : r.publicUserID = publicUserID C.hmacHex m := by
  rw [savedRecord_eq] at h
  split at h
  · obtain rfl := Option.some.inj h
    rfl
  · contradiction

theorem keyed_forward {saved : List (ChatMessage × RawChat)} {f : Forward} {m : ChatMessage}
    (h : ∀ x ∈ saved, x.2.publicUserID = publicUserID C.hmacHex x.1) :
    ∀ x ∈ saved ++ ((savedRecord C f m).map fun r => (m, r)).toList,
      x.2.publicUserID = publicUserID C.hmacHex x.1 := by
  intro x hx
  rcases List.mem_append.mp hx with hx | hx
  · exact h x hx
  · obtain ⟨r, hr, rfl⟩ := Option.map_eq_some_iff.mp (Option.mem_toList.mp hx)
    exact savedRecord_keyed hr

theorem LooksLike.forward (h : LooksLike C s t) (f : Forward) {m m' : ChatMessage}
    (hm : m.hidden = m'.hidden) :
    LooksLike C (forward C s f m) (forward C t f m') := by
  have hrecord := savedRecord_hidden (C := C) f hm
  have hsaved : ∀ o : Option RawChat, ∀ m : ChatMessage,
      ((o.map fun r => (m, r)).toList.map fun x => x.2.hidden) =
        (o.map RawChat.hidden).toList := by
    intro o m
    cases o <;> rfl
  refine {
    session := h.session
    forwarded := congrArg (· + 1) h.forwarded
    saved := ?_
    chat := ?_
    db := h.db
    answered := h.answered
    left := keyed_forward h.left
    right := keyed_forward h.right }
  · simp only [ChatPipeline.forward, List.map_append, h.saved, hsaved, hrecord]
  · simp only [ChatPipeline.forward]
    split
    · exact h.chat.publish C.reader f.uuid f.minID (entryOf_hidden f hm)
    · exact h.chat

/-- The archive does not look at the pseudonym. -/
theorem archive_hidden {db : Archive.Db} {uuid : String} {position : Nat} {r : RawChat}
    (h : hex32 r.publicUserID = true) :
    (archive C db uuid position r).hidden = archive C db.hidden uuid position r.hidden := by
  have hhex : hex32 r.text.record.publicUserID = true := h
  rw [archive, archive, ChatSpool.record_text_hidden, ChatSpool.appendArchiveChat_hidden hhex]
  cases ChatSpool.appendArchiveChat C.codec C.backend uuid position db r.text.record with
  | error | ok => rfl

theorem LooksLike.archive (h : LooksLike C s t) (k : Nat) (uuid : String) (position : Nat) :
    LooksLike C (step C s (.archive k uuid position)) (step C t (.archive k uuid position)) := by
  have hget := congrArg (fun l => l[k]?) h.saved
  simp only [List.getElem?_map] at hget
  have hhex : ∀ x : ChatMessage × RawChat,
      x.2.publicUserID = publicUserID C.hmacHex x.1 → hex32 x.2.publicUserID = true := by
    intro x hx
    rw [hx]
    exact C.hmacHex_hex _
  simp only [ChatPipeline.step]
  cases hx : s.saved[k]? with
  | none =>
    rw [hx] at hget
    rw [Option.map_eq_none_iff.mp hget.symm]
    exact h
  | some x =>
    rw [hx] at hget
    obtain ⟨y, hy, hxy⟩ := Option.map_eq_some_iff.mp hget.symm
    have hleft := hhex x (h.left x (List.mem_of_getElem? hx))
    have hright := hhex y (h.right y (List.mem_of_getElem? hy))
    rw [hy]
    refine { h with db := ?_ }
    rw [archive_hidden hleft, archive_hidden hright, h.db, hxy]

theorem LooksLike.packet (h : LooksLike C s t) {p q : SoopPacket} (hpacket : Soop.Alike p q) :
    LooksLike C (step C s (.packet p)) (step C t (.packet q)) :=
  { h with session := Soop.handlePacket_hidden h.session hpacket }

theorem LooksLike.recent (h : LooksLike C s t) (cursor : Option ChatStream.ChatCursor)
    (limit : Int) (ok : Bool) :
    LooksLike C (step C s (.recent cursor limit ok)) (step C t (.recent cursor limit ok)) := by
  have hlatest :
      (ChatStream.readLatestProductChat s.chat.redis ok).map ChatStream.ChatBatch.hidden =
        (ChatStream.readLatestProductChat t.chat.redis ok).map ChatStream.ChatBatch.hidden := by
    rw [← ChatStream.readLatestProductChat_hidden, ← ChatStream.readLatestProductChat_hidden,
      h.chat.redis]
  have hread := fun after => h.chat.read_eq after ok
  refine { h with answered := ?_ }
  simp only [ChatPipeline.step, h.answered]
  rw [← ChatStream.recent_hidden, hlatest, funext hread, ChatStream.recent_hidden]

theorem LooksLike.step (h : LooksLike C s t) {i j : Input} (hinput : AlikeInput i j) :
    LooksLike C (step C s i) (step C t j) := by
  rcases hinput with rfl | ⟨p, q, rfl, rfl, hpacket⟩
  · cases i with
    | packet p => exact h.packet (Or.inl rfl)
    | forward f =>
      have hget := congrArg (fun x : Soop.Session => x.emitted[s.forwarded]?) h.session
      simp only [Soop.Session.hidden, List.getElem?_map] at hget
      simp only [ChatPipeline.step, ← h.forwarded]
      cases hm : s.session.emitted[s.forwarded]? with
      | none =>
        rw [hm] at hget
        rw [Option.map_eq_none_iff.mp hget.symm]
        exact h
      | some m =>
        rw [hm] at hget
        obtain ⟨m', hm', heq⟩ := Option.map_eq_some_iff.mp hget.symm
        rw [hm']
        exact h.forward f heq.symm
    | archive k uuid position => exact h.archive k uuid position
    | broadcasts rows =>
      exact { h with db := congrArg (fun db : Archive.Db => { db with broadcasts := rows }) h.db }
    | trim minID => exact { h with chat := h.chat.trim C.reader minID }
    | deleteStream => exact { h with chat := h.chat.deleteStream C.reader }
    | expireGeneration => exact { h with chat := h.chat.expireGeneration C.reader }
    | stream cursor ok sent => exact { h with chat := h.chat.stream C.reader cursor ok sent }
    | iterate k ok sent => exact { h with chat := h.chat.iterate C.reader k ok sent }
    | leave k => exact { h with chat := h.chat.leave C.reader k }
    | recent cursor limit ok => exact h.recent cursor limit ok
  · exact h.packet hpacket

/-- Two runs that differ in user IDs of chats with a nickname answer `recent` and
the stream alike, and write the same records but for the pseudonym, which is the
keyed hash of the user ID. -/
theorem runs_look_alike (C : Config β) (c : SoopConnector) (is js : List Input)
    (h : List.Forall₂ AlikeInput is js) :
    let s := ((machine C).exec (State.init c) is).1
    let t := ((machine C).exec (State.init c) js).1
    s.answered = t.answered ∧ s.chat.sessions = t.chat.sessions ∧
      (s.saved.map fun x => x.2.hidden) = (t.saved.map fun x => x.2.hidden) ∧
      (∀ x ∈ s.saved ++ t.saved, x.2.publicUserID = publicUserID C.hmacHex x.1) ∧
      s.db.hidden = t.db.hidden := by
  have hlooks : LooksLike C ((machine C).exec (State.init c) is).1
      ((machine C).exec (State.init c) js).1 :=
    Machine.exec_relates (fun s t i j hst hij => hst.step hij) h (LooksLike.init c)
  refine ⟨hlooks.answered, hlooks.chat.sessions, hlooks.saved, ?_, hlooks.db⟩
  intro x hx
  rcases List.mem_append.mp hx with hx | hx
  · exact hlooks.left x hx
  · exact hlooks.right x hx

end Runs

/-! ## Two viewers -/

theorem hex32_padded (n : Nat) : hex32 (String.ofList (padded 64 n)) = true := by
  rw [hex32, decide_eq_true_eq, String.toList_ofList]
  exact ⟨length_padded 64 n, List.all_eq_true.mpr (forall_mem_padded (by decide))⟩

/-- The pseudonym shows how long the hashed text is. -/
def fixtureSystem : Config (List Archive.ChatRow) where
  answers := Soop.fixtureAnswers
  reader := ChatStream.fixtureConfig
  codec := Archive.fixtureCodec
  encoding := SpoolFile.fixtureEncoding
  backend := Journal.fixtureBackend
  hmacHex b := String.ofList (padded 64 b.length)
  formatTime _ := "2026-01-01T00:00:00Z"
  hmacHex_hex _ := hex32_padded _
  sha256_hex _ := hex32_padded _

/-- A user joins, writes one chat, which is forwarded, and `recent` is asked. -/
def oneChat (user nickname : String) : List Input :=
  [.packet ⟨1, 0, [], []⟩, .packet ⟨2, 0, [], []⟩,
    .packet ⟨5, 0, [bytesOf "hello", bytesOf user, [], [], [], bytesOf nickname], []⟩,
    .forward
      ⟨"9b1deb4d-3b7d-4bad-9bdd-2b0d7b3dcb6d", 6, true, true, "g1", 0, ChatStream.fixtureID⟩,
    .recent none 50 true]

def afterChat (user nickname : String) : State :=
  ((machine fixtureSystem).exec (State.init Soop.fixtureConnector) (oneChat user nickname)).1

/-- The same chat of two viewers without a nickname: `recent` shows the user IDs. -/
theorem unnamed_user_shown :
    (afterChat "alice" "").answered ≠ (afterChat "robert" "").answered ∧
      (afterChat "alice" "").answered.length = 1 := by
  decide +kernel

theorem oneChat_alike : List.Forall₂ AlikeInput (oneChat "alice" "viewer")
    (oneChat "robert" "viewer") := by
  refine .cons (Or.inl rfl) (.cons (Or.inl rfl) (.cons (Or.inr ⟨_, _, rfl, rfl, Or.inr ?_⟩)
    (.cons (Or.inl rfl) (.cons (Or.inl rfl) .nil))))
  refine ⟨1, 5, ?_, by decide +kernel⟩
  refine {
    kind := by decide
    cmd := rfl
    ret := rfl
    length := rfl
    fields := ?_
    left := by decide +kernel
    right := by decide +kernel }
  intro i hi
  match i with
  | 0 => rfl
  | 1 => exact absurd rfl hi
  | n + 2 => rfl

/-- With a nickname the two viewers look the same. -/
theorem runs_look_alike_named :
    (afterChat "alice" "viewer").session.emitted.map (fun m => m.userID) ≠
        (afterChat "robert" "viewer").session.emitted.map (fun m => m.userID) ∧
      (afterChat "alice" "viewer").answered.length = 1 ∧
      (afterChat "alice" "viewer").answered = (afterChat "robert" "viewer").answered ∧
      (afterChat "alice" "viewer").saved.map (fun x => x.2.hidden) =
        (afterChat "robert" "viewer").saved.map (fun x => x.2.hidden) := by
  have hall := runs_look_alike fixtureSystem Soop.fixtureConnector _ _ oneChat_alike
  exact ⟨by decide +kernel, by decide +kernel, hall.1, hall.2.2.1⟩

end RogiCollector.Ports.ChatPipeline
