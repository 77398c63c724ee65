import RogiCollector.Verified.StreamID
import RogiCollector.Ports.JournalSchema

/-!
# The product chat stream

The Redis side of the live chat: the script of
`worker/internal/pipeline/product_chat.go` that appends an entry, and
`shared/store/collector_chat.go` with the scripts that read and trim.  Two
keys belong together, the stream and its generation.  Each script runs
atomically; between two of them either key may expire, and cleanup may delete
the stream.

A stream that was trimmed to nothing still exists, with its last identifier,
and the next entry goes behind it.  A deleted stream is replaced by a new one,
whose identifiers have nothing to do with those of the old one: `number`
tells the streams under the key apart, and `added` remembers every entry.
Neither is read by a script.
-/

namespace RogiCollector.Ports.ChatStream

open Verified
open Journal (Time)

/-! ## Identifiers as text -/

def validStreamID (id : String) : Bool :=
  (splitDash id).length = 2 ∧
    (splitDash id).all fun p => p ≠ [] ∧ p.all Char.isDigit ∧ (parseUint p).2

def streamIDBefore (a b : String) : Bool :=
  match splitDash a, splitDash b with
  | [a0, a1], [b0, b1] =>
    if (parseUint a0).1 ≠ (parseUint b0).1 then (parseUint a0).1 < (parseUint b0).1
    else if (parseUint a1).1 ≠ (parseUint b1).1 then (parseUint a1).1 < (parseUint b1).1
    else false
  | _, _ => false

theorem validStreamID_text (id : StreamID) : validStreamID id.text = true := by
  have hpart : ∀ {n : Nat}, n < 2 ^ 64 → (toString n).toList ≠ [] ∧
      (toString n).toList.all Char.isDigit ∧ (parseUint (toString n).toList).2 = true := by
    intro n hn
    have hparse := parseUint_toString hn
    refine ⟨?_, ?_, by rw [hparse]⟩
    · rw [toList_toString]
      exact Nat.toDigits_ne_nil
    · rw [toList_toString]
      exact List.all_eq_true.mpr fun c hc =>
        Nat.isDigit_of_mem_toDigits (by decide) (by decide) hc
  rw [validStreamID, splitDash_text]
  simp only [List.length_cons, List.length_nil, List.all_cons, List.all_nil, Bool.and_true,
    decide_eq_true_eq, Bool.and_eq_true]
  exact ⟨trivial, hpart id.ms.isLt, hpart id.seq.isLt⟩

theorem exists_split_of_valid {id : String} (h : validStreamID id = true) :
    ∃ a b, splitDash id = [a, b] := by
  rw [validStreamID, decide_eq_true_eq] at h
  obtain ⟨a, b, hsplit⟩ := List.length_eq_two.mp h.1
  exact ⟨a, b, hsplit⟩

/-- Valid texts are compared by their keys. -/
theorem streamIDBefore_iff {a b : String} (ha : validStreamID a = true)
    (hb : validStreamID b = true) : streamIDBefore a b = true ↔ textKey a < textKey b := by
  obtain ⟨a0, a1, hsa⟩ := exists_split_of_valid ha
  obtain ⟨b0, b1, hsb⟩ := exists_split_of_valid hb
  rw [streamIDBefore, textKey, textKey, hsa, hsb]
  dsimp only
  rw [← lex_iff_key_lt (parseUint_lt a1) (parseUint_lt b1)]
  split
  · simp
  · split <;> simp

/-! ## The keys -/

/-- A stream entry with its fields. -/
structure Entry where
  id : StreamID
  fields : List (String × String)
  deriving Repr, DecidableEq

/-- The stream under the key: which one, its entries and the last identifier. -/
structure Stream where
  number : Nat
  entries : List Entry
  last : Nat
  deriving Repr, DecidableEq

/-- An entry with the stream it went to and the generation it was added under. -/
structure Added where
  number : Nat
  generation : String
  entry : Entry
  deriving Repr, DecidableEq

/-- The two keys, how many streams there were, every entry ever added, and the
UUIDs drawn. -/
structure Redis where
  stream : Option Stream
  generation : Option String
  streams : Nat
  added : List Added
  minted : List String

def Redis.init : Redis := ⟨none, none, 0, [], []⟩

/-- What `XADD` finds: the stream, or a new one. -/
def Redis.current (r : Redis) : Stream := r.stream.getD ⟨r.streams + 1, [], 0⟩

def maxLen : Nat := 10000

/-- The script of `publishProductChat`; `id` is what `XADD` gives the entry. -/
def publishProductChat (r : Redis) (uuid : String) (minID : Nat) (entry : Entry) : Redis :=
  -- A new generation when either key is missing.
  let generation :=
    match r.stream, r.generation with
    | some _, some g => g
    | _, _ => uuid
  let st := r.current
  -- `XADD … MAXLEN 10000`, then `XTRIM … MINID`.
  let entries := st.entries ++ [entry]
  let entries := entries.drop (entries.length - maxLen)
  let entries := entries.dropWhile fun e => e.id.key < minID
  { r with
    stream := some ⟨st.number, entries, entry.id.key⟩
    generation := some generation
    streams := st.number
    added := r.added ++ [⟨st.number, generation, entry⟩]
    minted := uuid :: r.minted }

def trimProductChat (r : Redis) (minID : Nat) : Redis :=
  { r with
    stream := r.stream.map fun st =>
      { st with entries := st.entries.dropWhile fun e => e.id.key < minID } }

/-- The stream key expires, or `DeleteChatStreams` unlinks it. -/
def deleteStream (r : Redis) : Redis := { r with stream := none }

/-- The generation key expires. -/
def expireGeneration (r : Redis) : Redis := { r with generation := none }

/-! ## Reading -/

structure StreamMessage where
  streamID : String
  values : List (String × String)
  deriving Repr, DecidableEq

/-- `msg.Values[k].(string)`; of a repeated field the last one counts. -/
def value (values : List (String × String)) (k : String) : String :=
  ((values.reverse.find? fun f => f.1 = k).map Prod.snd).getD ""

def Entry.message (e : Entry) : StreamMessage := ⟨e.id.text, e.fields⟩

structure ChatBatch where
  generation : String
  earliest : String
  latest : String
  messages : List StreamMessage
  deriving Repr, DecidableEq

/-- The retained entries. -/
def Redis.entries (r : Redis) : List Entry := (r.stream.map (·.entries)).getD []

/-- `XRANGE key (after + COUNT 100`. -/
def Redis.range (r : Redis) (after : String) : List Entry :=
  (r.entries.filter fun e => textKey after < e.id.key).take 100

/-- Generation and retained range, read in the same script as the messages. -/
def Redis.batch (r : Redis) (entries : List Entry) : ChatBatch where
  generation := r.generation.getD ""
  earliest := (r.entries.head?.map (·.id.text)).getD ""
  latest := (r.entries.getLast?.map (·.id.text)).getD ""
  messages := entries.map Entry.message

/-- `ReadProductChat`; it fails for a cursor that is no identifier, and when
Redis does not answer. -/
def readProductChat (r : Redis) (after : String) (ok : Bool) : Option ChatBatch :=
  if validStreamID after ∧ ok then some (r.batch (r.range after)) else none

def readLatestProductChat (r : Redis) (ok : Bool) : Option ChatBatch :=
  if ok then some (r.batch (r.entries.drop (r.entries.length - 100))) else none

end RogiCollector.Ports.ChatStream
