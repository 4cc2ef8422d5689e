import Mathlib.Data.List.Forall2
import Mathlib.Data.List.Pairwise
import Mathlib.Data.Prod.Lex
import Mathlib.Data.String.Basic
import Sox.MemoryInv
import Sox.SqliteInv

/-!
# The in-memory and the SQLite store on one trace

A trace of calls runs on each store by itself; every call carries the readings of the clock that
either store makes in it. `Related` is what a state of the one has in common with a state of the
other: the messages one by one up to timestamps, the patterns of every agent up to order, and the
counters. A call keeps it and answers alike on both sides (`Related.call`), so whole traces from the
empty stores answer alike (`stores_interchangeable`).

The two sort at different points, the one after the cut by `max_messages`, the other before. While
timestamps increase with the ids both orders are by channel and id, and the cuts agree when nothing
is cut or everything pending is on one channel.
-/

namespace Sox

/-! ### Traces -/

inductive Call where
  | send (args : SendArgs)
  | subscribe (agentId : AgentId) (pattern : Pattern)
  | unsubscribe (agentId : AgentId) (patterns : List Pattern)
  | recv (agentId : AgentId) (channels : Option (List Channel)) (maxMessages : Int)
  | replay (channel : Channel) (since : Int) (untilSeq : Option Int) (limit : Int)
  | heartbeat (agentId : AgentId) (status : String) (ttl : Option Int)

inductive Answer where
  | sent (receipt : SendReceipt)
  | matched (channels : List Channel)
  | unsubscribed (removed : List Pattern) (pendingCleared : Nat)
  | received (messages : List Message)
  | replayed (messages : List Message) (hasMore : Bool)
  | beat (receipt : HeartbeatReceipt)

/-- One call on a store; `now` and `sendNow` are what its clock shows. -/
def BackingStore.call {σ : Type} (B : BackingStore σ) (now sendNow : ℚ) : Call → σ → Answer × σ
  | .send args, s => (B.send now args s).map .sent id
  | .subscribe a p, s => (B.subscribe a p s).map .matched id
  | .unsubscribe a ps, s => (B.unsubscribe a ps s).map (fun r => .unsubscribed r.1 r.2) id
  | .recv a channels max, s => (B.recv a channels max s).map .received id
  | .replay c since untilSeq limit, s =>
    let r := B.replay c since untilSeq limit s
    (.replayed r.1 r.2, s)
  | .heartbeat a status ttl, s => (B.heartbeat now sendNow a status ttl s).map .beat id

/-- What SQLite's `INTEGER` holds. -/
def sqliteInteger (n : Int) : Bool := decide (-2 ^ 63 ≤ n) && decide (n < 2 ^ 63)

/-- The integers a call binds to the parameters of a query; only `replay` takes any from its
caller. -/
def Call.bound : Call → List Int
  | .replay _ since untilSeq _ => since :: untilSeq.toList
  | _ => []

def overflowText : String := "Python int too large to convert to SQLite INTEGER"

/-- Binding a parameter that no `INTEGER` holds raises `OverflowError` before the query runs. -/
def sqliteCall (now sendNow : ℚ) (c : Call) (t : SqliteStore) : Except String Answer × SqliteStore :=
  if c.bound.all sqliteInteger then (sqliteStore.call now sendNow c t).map .ok id
  else (.error overflowText, t)

/-- A call of the trace, with the clock of the run on each store. The memory store reads its clock
once; the presence message of SQLite's `heartbeat` has a reading of its own. -/
structure TraceStep where
  call : Call
  memoryNow : ℚ
  sqliteNow : ℚ
  sqliteSendNow : ℚ

def memoryAnswers : List TraceStep → MemoryStore → List Answer
  | [], _ => []
  | st :: steps, s =>
    let r := memoryStore.call st.memoryNow st.memoryNow st.call s
    r.1 :: memoryAnswers steps r.2

def sqliteAnswers : List TraceStep → SqliteStore → List (Except String Answer)
  | [], _ => []
  | st :: steps, t =>
    let r := sqliteCall st.sqliteNow st.sqliteSendNow st.call t
    r.1 :: sqliteAnswers steps r.2

def TraceStep.memoryReadings (st : TraceStep) : List ℚ :=
  match st.call with
  | .send _ => [st.memoryNow]
  | .heartbeat .. => [st.memoryNow]
  | _ => []

def TraceStep.sqliteReadings (st : TraceStep) : List ℚ :=
  match st.call with
  | .send _ => [st.sqliteNow]
  | .heartbeat .. => [st.sqliteNow, st.sqliteSendNow]
  | _ => []

/-- The clock of each run increases from reading to reading. -/
structure Ticking (steps : List TraceStep) : Prop where
  memory : (steps.flatMap (·.memoryReadings)).Pairwise (· < ·)
  sqlite : (steps.flatMap (·.sqliteReadings)).Pairwise (· < ·)

/-- A `recv` asks for at least what is pending, or for one message or more of a single channel. -/
def Call.fits (s : MemoryStore) : Call → Prop
  | .recv a channels max =>
    (s.pending a channels).length ≤ max ∨
      1 ≤ max ∧ ∃ c, ∀ m ∈ s.pending a channels, m.channel = c
  | _ => True

def RecvsFit : List TraceStep → MemoryStore → Prop
  | [], _ => True
  | st :: steps, s =>
    st.call.fits s ∧ RecvsFit steps (memoryStore.call st.memoryNow st.memoryNow st.call s).2

/-! ### Alike up to timestamps -/

/-- A presence message carries a timestamp in its body. -/
inductive BodyAlike : JsonDict → JsonDict → Prop
  | same (body : JsonDict) : BodyAlike body body
  | presence (a : AgentId) (status : String) (t t' : ℚ) :
      BodyAlike (presenceBody a status t) (presenceBody a status t')

structure SendArgs.Alike (args args' : SendArgs) : Prop where
  channel : args.channel = args'.channel
  sender : args.sender = args'.sender
  body : BodyAlike args.body args'.body
  correlationId : args.correlationId = args'.correlationId
  replyTo : args.replyTo = args'.replyTo

structure StoredMessage.Alike (m n : StoredMessage) : Prop where
  id : m.id = n.id
  channel : m.channel = n.channel
  sender : m.sender = n.sender
  body : BodyAlike m.body n.body
  correlationId : m.correlationId = n.correlationId
  seq : m.seq = n.seq
  replyTo : m.replyTo = n.replyTo
  deliveredTo : m.deliveredTo = n.deliveredTo

structure Message.Alike (m n : Message) : Prop where
  messageId : m.messageId = n.messageId
  channel : m.channel = n.channel
  sender : m.sender = n.sender
  body : BodyAlike m.body n.body
  correlationId : m.correlationId = n.correlationId
  seq : m.seq = n.seq
  ts : m.ts = n.ts
  replyTo : m.replyTo = n.replyTo
  deliveredTo : m.deliveredTo = n.deliveredTo
  originServer : m.originServer = n.originServer
  metaField : m.metaField = n.metaField

/-- Patterns and channels come in any order; the receipts' timestamps and the depth of the queue,
which the stores count differently, are left out. -/
def Answer.Alike : Answer → Answer → Prop
  | .sent r, .sent r' => r.messageId = r'.messageId ∧ r.seq = r'.seq
  | .matched cs, .matched cs' => cs.Perm cs'
  | .unsubscribed ps n, .unsubscribed ps' n' => ps.Perm ps' ∧ n = n'
  | .received ms, .received ms' => List.Forall₂ Message.Alike ms ms'
  | .replayed ms more, .replayed ms' more' => List.Forall₂ Message.Alike ms ms' ∧ more = more'
  | .beat r, .beat r' => r.agentId = r'.agentId ∧ r.status = r'.status
  | _, _ => False

/-- SQLite answers, and like the memory store. -/
def AnswersAlike (x : Answer) (y : Except String Answer) : Prop := ∃ r, y = .ok r ∧ x.Alike r

/-! ### Sorting two lists alike -/

/-- Lists related position by position stay so when each is sorted by an order of its own and the
two orders agree on the pairs. -/
theorem forall₂_insertionSort {α β : Type*} {R : α → β → Prop} {r : α → α → Prop} {s : β → β → Prop}
    [DecidableRel r] [DecidableRel s] {l : List α} {l' : List β} (h : List.Forall₂ R l l')
    (hrs : ∀ p ∈ l.zip l', ∀ q ∈ l.zip l', R p.1 p.2 → R q.1 q.2 → (r p.1 q.1 ↔ s p.2 q.2)) :
    List.Forall₂ R (l.insertionSort r) (l'.insertionSort s) := by
  have hlen : l.length = l'.length := h.length_eq
  have hfst : ((l.zip l').insertionSort fun p q => r p.1 q.1).map Prod.fst = l.insertionSort r := by
    rw [List.map_insertionSort _ r Prod.fst _ fun _ _ _ _ => Iff.rfl, List.map_fst_zip hlen.le]
  have hsnd : ((l.zip l').insertionSort fun p q => r p.1 q.1).map Prod.snd = l'.insertionSort s := by
    have hagree : ∀ p ∈ l.zip l', ∀ q ∈ l.zip l', r p.1 q.1 ↔ s p.2 q.2 := fun p hp q hq =>
      hrs p hp q hq (List.forall₂_zip h hp) (List.forall₂_zip h hq)
    rw [List.map_insertionSort _ s Prod.snd _ hagree, List.map_snd_zip hlen.ge]
  rw [← hfst, ← hsnd, List.forall₂_map_left_iff, List.forall₂_map_right_iff, List.forall₂_same]
  intro p hp
  exact List.forall₂_zip h (List.mem_insertionSort _ |>.1 hp)

namespace StoredMessage

/-- The key both stores sort by. -/
def key (m : StoredMessage) : Channel ×ₗ ℚ ×ₗ ℕ := toLex (m.channel, toLex (m.sentAt, m.id))

theorem before_iff {m n : StoredMessage} : m.Before n ↔ m.key ≤ n.key := by
  simp [Before, key, Prod.Lex.toLex_le_toLex]

instance : Std.Total Before := ⟨fun m n => by
  rw [before_iff, before_iff]
  exact le_total m.key n.key⟩

instance : IsTrans StoredMessage Before := ⟨fun m n k hmn hnk => by
  rw [before_iff] at hmn hnk ⊢
  exact hmn.trans hnk⟩

end StoredMessage

section
variable {l l' : List StoredMessage} {m n : StoredMessage} {want : Channel → Bool} {a : AgentId} {c : Channel}

/-- Selecting an inbox before or after sorting is the same. -/
theorem inbox_sortMessages (hnd : (l.map (·.id)).Nodup) :
    inbox want a (sortMessages l) = sortMessages (inbox want a l) := by
  have hperm : (inbox want a (sortMessages l)).Perm (sortMessages (inbox want a l)) :=
    (inbox_perm (sortMessages_perm l)).trans (sortMessages_perm _).symm
  have hsorted : (inbox want a (sortMessages l)).Pairwise StoredMessage.Before :=
    (List.pairwise_insertionSort _ l).sublist inbox_sublist
  refine hperm.eq_of_pairwise ?_ hsorted (List.pairwise_insertionSort _ _)
  intro m n hm hn hmn hnm
  have hkey : m.key = n.key :=
    le_antisymm (StoredMessage.before_iff.1 hmn) (StoredMessage.before_iff.1 hnm)
  have hid : m.id = n.id := congrArg (fun k => (ofLex (ofLex k).2).2) hkey
  have hml : m ∈ l := mem_sortMessages.1 (inbox_sublist.subset hm)
  have hnl : n ∈ l := inbox_sublist.subset (mem_sortMessages.1 hn)
  exact List.inj_on_of_nodup_map hnd hml hnl hid

/-- Ids and timestamps increase together in storage order. -/
def Clocked (l : List StoredMessage) : Prop := l.Pairwise fun m n => m.id < n.id ∧ m.sentAt < n.sentAt

theorem Clocked.order (h : Clocked l) (hm : m ∈ l) (hn : n ∈ l) :
    m = n ∨ (m.id < n.id ∧ m.sentAt < n.sentAt) ∨ (n.id < m.id ∧ n.sentAt < m.sentAt) := by
  refine List.Pairwise.forall_of_forall_of_flip (R := fun m n : StoredMessage =>
    m = n ∨ (m.id < n.id ∧ m.sentAt < n.sentAt) ∨ (n.id < m.id ∧ n.sentAt < m.sentAt)) ?_ ?_ ?_ hm hn
  · exact fun _ _ => .inl rfl
  · exact h.imp fun hmn => .inr (.inl hmn)
  · exact h.imp fun hmn => .inr (.inr hmn)

theorem Clocked.before_iff (h : Clocked l) (hm : m ∈ l) (hn : n ∈ l) :
    m.Before n ↔ m.channel < n.channel ∨ m.channel = n.channel ∧ m.id ≤ n.id := by
  have hlate : (m.sentAt < n.sentAt ∨ m.sentAt = n.sentAt ∧ m.id ≤ n.id) ↔ m.id ≤ n.id := by
    rcases h.order hm hn with rfl | ⟨hid, hat⟩ | ⟨hid, hat⟩
    · simp
    · exact iff_of_true (.inl hat) hid.le
    · refine iff_of_false ?_ hid.not_ge
      rintro (hlt | ⟨heq, -⟩)
      · exact hat.not_gt hlt
      · exact hat.ne' heq
  rw [StoredMessage.Before, hlate]

theorem Clocked.sortMessages_eq (h : Clocked l) (hc : ∀ m ∈ l, m.channel = c) : sortMessages l = l := by
  refine List.Pairwise.insertionSort_eq (h.imp_of_mem fun {m n} hm hn hmn => ?_)
  exact .inr ⟨by rw [hc m hm, hc n hn], .inl hmn.2⟩

theorem Clocked.of (hid : (l.map (·.id)).Pairwise (· < ·)) (hat : (l.map (·.sentAt)).Pairwise (· < ·)) :
    Clocked l := (List.pairwise_map.1 hid).and (List.pairwise_map.1 hat)

theorem Clocked.sublist (h : Clocked l) (hs : l'.Sublist l) : Clocked l' := List.Pairwise.sublist hs h

end

/-! ### Lists alike -/

namespace StoredMessage.Alike

variable {m n : StoredMessage} {a : AgentId}

theorem toWire (h : m.Alike n) : m.toWire.Alike n.toWire :=
  ⟨h.id, h.channel, h.sender, h.body, h.correlationId, h.seq, rfl, h.replyTo, rfl, rfl, rfl⟩

theorem deliver (h : m.Alike n) : (m.deliver a).Alike (n.deliver a) := by
  rw [StoredMessage.deliver, StoredMessage.deliver, h.deliveredTo]
  split
  · exact h
  · exact { h with deliveredTo := rfl }

theorem awaits (h : m.Alike n) (want : Channel → Bool) : m.awaits want a = n.awaits want a := by
  rw [StoredMessage.awaits, StoredMessage.awaits, h.deliveredTo, h.channel]

end StoredMessage.Alike

/-- The stored messages of the two stores, one by one. -/
abbrev ListsAlike : List StoredMessage → List StoredMessage → Prop := List.Forall₂ StoredMessage.Alike

namespace ListsAlike

variable {l l' : List StoredMessage} {a : AgentId} {sel sel' : StoredMessage → Bool}

theorem filter (h : ListsAlike l l') (hsel : ∀ m n, m.Alike n → sel m = sel' n) :
    ListsAlike (l.filter sel) (l'.filter sel') :=
  List.rel_filter (fun m n hmn => Bool.eq_iff_iff.1 (hsel m n hmn)) h

theorem map_eq {β : Type*} {f : StoredMessage → β} (h : ListsAlike l l')
    (hf : ∀ m n, m.Alike n → f m = f n) : l.map f = l'.map f := by
  induction h with
  | nil => rfl
  | cons hmn _ ih => rw [List.map_cons, List.map_cons, hf _ _ hmn, ih]

theorem ids (h : ListsAlike l l') : l.map (·.id) = l'.map (·.id) := h.map_eq fun _ _ hmn => hmn.id

theorem channels (h : ListsAlike l l') : l.map (·.channel) = l'.map (·.channel) :=
  h.map_eq fun _ _ hmn => hmn.channel

theorem toWire (h : ListsAlike l l') :
    List.Forall₂ Message.Alike (l.map (·.toWire)) (l'.map (·.toWire)) := by
  rw [List.forall₂_map_left_iff, List.forall₂_map_right_iff]
  exact h.imp fun _ _ hmn => hmn.toWire

theorem markWhere (h : ListsAlike l l') (hsel : ∀ m n, m.Alike n → sel m = sel' n) :
    ListsAlike (markWhere a sel l) (markWhere a sel' l') := by
  rw [ListsAlike, Sox.markWhere, Sox.markWhere, List.forall₂_map_left_iff, List.forall₂_map_right_iff]
  refine h.imp fun m n hmn => ?_
  rw [hsel m n hmn]
  split
  exacts [hmn.deliver, hmn]

theorem inbox (h : ListsAlike l l') (want : Channel → Bool) (a : AgentId) :
    ListsAlike (inbox want a l) (inbox want a l') :=
  h.filter fun _ _ hmn => hmn.awaits want

theorem onChannel_length (h : ListsAlike l l') (c : Channel) :
    (onChannel c l).length = (onChannel c l').length :=
  (h.filter fun _ _ hmn => by rw [hmn.channel]).length_eq

theorem sortMessages (h : ListsAlike l l') (hl : Clocked l) (hl' : Clocked l') :
    ListsAlike (sortMessages l) (sortMessages l') := by
  refine forall₂_insertionSort h fun p hp q hq hp' hq' => ?_
  rw [hl.before_iff (List.of_mem_zip hp).1 (List.of_mem_zip hq).1,
    hl'.before_iff (List.of_mem_zip hp).2 (List.of_mem_zip hq).2,
    hp'.channel, hq'.channel, hp'.id, hq'.id]

theorem replayRange (h : ListsAlike l l') (c : Channel) (since : Int) (untilSeq : Option Int) :
    ListsAlike (replayRange c since untilSeq l) (replayRange c since untilSeq l') := by
  refine forall₂_insertionSort (h.filter fun m n hmn => ?_) fun p _ q _ hp hq => ?_
  · rw [hmn.channel, hmn.seq]
  · rw [hp.seq, hq.seq, hp.id, hq.id]

theorem sliceTo (h : ListsAlike l l') (limit : Int) : ListsAlike (sliceTo limit l) (sliceTo limit l') := by
  rw [Sox.sliceTo, Sox.sliceTo, h.length_eq]
  split
  · exact List.forall₂_take _ h
  · exact List.forall₂_take _ h

end ListsAlike

/-! ### Related stores -/

theorem wants_perm {ps ps' : List Pattern} (h : ps.Perm ps') (channels : Option (List Channel)) :
    wants channels ps = wants channels ps' := by
  funext ch
  cases channels with
  | some cs => rfl
  | none => exact h.any_eq

structure Related (s : MemoryStore) (t : SqliteStore) : Prop where
  messages : ListsAlike s.messages t.db.messages
  patterns : ∀ a, (s.patternsFor a).Perm (t.db.patternsFor a)
  counter : s.nextId = t.db.autoincrement + 1
  memory : s.Inv
  sqlite : t.db.Inv
  gapless : Gapless t.db.messages

namespace Related

variable {s s' : MemoryStore} {t t' : SqliteStore} {a : AgentId} {channels : Option (List Channel)}
  {max : Int} {patterns : List Pattern}

theorem init : Related MemoryStore.init SqliteStore.init where
  messages := .nil
  patterns _ := .refl _
  counter := rfl
  memory := .init
  sqlite := SqliteStore.inv_init
  gapless _ := rfl

/-- Both number a channel's next message by what is stored on it. -/
theorem nextSeq (h : Related s t) (c : Channel) : s.channelSeq.getD c 0 + 1 = t.db.nextSeq c := by
  rw [h.memory.counter, SqliteDb.nextSeq_eq h.gapless, h.messages.onChannel_length]

theorem nextMessage (h : Related s t) {args args' : SendArgs} (hargs : args.Alike args') (now now' : ℚ) :
    (s.nextMessage now args).Alike (t.db.newRow now' args' (t.db.nextSeq args'.channel)) where
  id := h.counter
  channel := hargs.channel
  sender := hargs.sender
  body := hargs.body
  correlationId := hargs.correlationId
  seq := by
    rw [← hargs.channel]
    exact h.nextSeq args.channel
  replyTo := hargs.replyTo
  deliveredTo := rfl

theorem append (h : Related s t) {now now' : ℚ} (args args' : SendArgs) (hargs : args.Alike args')
    (hs : s'.messages = s.messages ++ [s.nextMessage now args]) (hid : s'.nextId = s.nextId + 1)
    (hseq : s'.channelSeq = s.channelSeq.set args.channel (s.channelSeq.getD args.channel 0 + 1))
    (ht : t'.db.messages = t.db.messages ++ [t.db.newRow now' args' (t.db.nextSeq args'.channel)])
    (hinc : t'.db.autoincrement = t.db.autoincrement + 1)
    (hp : ∀ b, (s'.patternsFor b).Perm (t'.db.patternsFor b)) : Related s' t' where
  messages := by
    rw [hs, ht]
    exact List.rel_append h.messages (.cons (h.nextMessage hargs now now') .nil)
  patterns := hp
  counter := by rw [hid, hinc, h.counter]
  memory := h.memory.effect (.append now args hs hid hseq)
  sqlite := h.sqlite.effect (.append now' args' ht hinc)
  gapless := SqliteDb.gapless_effect h.gapless (.append now' args' ht hinc)

theorem mark (h : Related s t) (a : AgentId) (sel sel' : StoredMessage → Bool)
    (hsel : ∀ m n, m.Alike n → sel m = sel' n) (hs : s'.messages = markWhere a sel s.messages)
    (hid : s'.nextId = s.nextId) (hseq : s'.channelSeq = s.channelSeq)
    (ht : t'.db.messages = markWhere a sel' t.db.messages)
    (hinc : t'.db.autoincrement = t.db.autoincrement)
    (hp : ∀ b, (s'.patternsFor b).Perm (t'.db.patternsFor b)) : Related s' t' where
  messages := by
    rw [hs, ht]
    exact h.messages.markWhere hsel
  patterns := hp
  counter := by rw [hid, hinc, h.counter]
  memory := h.memory.effect (.mark a sel hs hid hseq)
  sqlite := h.sqlite.effect (.mark a sel' ht hinc)
  gapless := SqliteDb.gapless_effect h.gapless (.mark a sel' ht hinc)

/-! ### Calls on related stores -/

theorem send (h : Related s t) (now now' : ℚ) (args : SendArgs) :
    Related (s.send now args).2 (sqliteStore.send now' args t).2 :=
  h.append args args ⟨rfl, rfl, .same _, rfl, rfl⟩ rfl rfl rfl rfl rfl h.patterns

theorem heartbeat (h : Related s t) (now now' sendNow : ℚ) (a : AgentId) (status : String)
    (ttl : Option Int) :
    Related (s.heartbeat now a status ttl).2 (sqliteStore.heartbeat now' sendNow a status ttl t).2 :=
  h.append (presenceArgs a status now) (presenceArgs a status now')
    ⟨rfl, rfl, .presence a status now now', rfl, rfl⟩ rfl rfl rfl rfl rfl h.patterns

theorem subscribe (h : Related s t) (a : AgentId) (p : Pattern) :
    (s.subscribe a p).1.Perm (sqliteStore.subscribe a p t).1 ∧
      Related (s.subscribe a p).2 (sqliteStore.subscribe a p t).2 := by
  have hmsgs : (t.db.insertSubscription a p).messages = t.db.messages :=
    SqliteDb.insertSubscription_messages p
  constructor
  · show ((sortedNames (s.messages.map (·.channel))).filter _).Perm
      (((t.db.insertSubscription a p).messages.map (·.channel)).dedup.filter _)
    rw [hmsgs, ← h.messages.channels]
    exact (List.perm_insertionSort _ _).filter _
  · refine h.mark a (fun _ => false) (fun _ => false) (fun _ _ _ => rfl)
      markWhere_none.symm rfl rfl (hmsgs.trans markWhere_none.symm)
      (SqliteDb.insertSubscription_autoincrement p) fun b => ?_
    show ((s.addPattern a p).patternsFor b).Perm ((t.db.insertSubscription a p).patternsFor b)
    rw [MemoryStore.patternsFor_addPattern, SqliteDb.patternsFor_insertSubscription]
    simp only [(h.patterns a).mem_iff]
    split
    · split
      · exact h.patterns a
      · exact (h.patterns a).append_right [p]
    · exact h.patterns b

theorem clearedBy (h : Related s t) (a : AgentId) (patterns : List Pattern) :
    s.clearedBy a patterns = t.db.clearedBy a patterns :=
  funext fun _ => ((h.patterns a).filter _).any_eq

theorem unsubscribe (h : Related s t) (a : AgentId) (patterns : List Pattern) :
    let r := s.unsubscribe a patterns
    let r' := sqliteStore.unsubscribe a patterns t
    r.1.1.Perm r'.1.1 ∧ r.1.2 = r'.1.2 ∧ Related r.2 r'.2 := by
  have hnd : (t.db.messages.map (·.id)).Nodup := h.sqlite.ids_nodup
  have hbox : ListsAlike (inbox (s.clearedBy a patterns) a s.messages)
      (inbox (t.db.clearedBy a patterns) a t.db.messages) := by
    rw [h.clearedBy]
    exact h.messages.inbox _ a
  refine ⟨?_, ?_, ?_⟩
  · show (s.unsubscribe a patterns).1.1.Perm (t.db.unsubscribe a patterns).1.1
    rw [MemoryStore.unsubscribe_eq, SqliteDb.unsubscribe_eq hnd]
    exact (h.patterns a).filter _
  · show (s.unsubscribe a patterns).1.2 = (t.db.unsubscribe a patterns).1.2
    rw [MemoryStore.unsubscribe_eq, SqliteDb.unsubscribe_eq hnd]
    exact hbox.length_eq
  · refine h.mark a (fun m => s.clearedBy a patterns m.channel)
      (fun m => t.db.clearedBy a patterns m.channel) (fun m n hmn => ?_) ?_ ?_ ?_ ?_ ?_
      fun b => ?_
    · rw [h.clearedBy, hmn.channel]
    · rw [MemoryStore.unsubscribe_eq]
    · rw [MemoryStore.unsubscribe_eq]
    · rw [MemoryStore.unsubscribe_eq]
    · show (t.db.unsubscribe a patterns).2.messages = _
      rw [SqliteDb.unsubscribe_eq hnd]
      exact markDelivered_inbox hnd
    · show (t.db.unsubscribe a patterns).2.autoincrement = _
      rw [SqliteDb.unsubscribe_eq hnd]
    · show ((s.unsubscribe a patterns).2.patternsFor b).Perm ((t.db.unsubscribe a patterns).2.patternsFor b)
      by_cases hb : b = a
      · subst hb
        rw [MemoryStore.patternsFor_unsubscribe_self, SqliteDb.patternsFor_unsubscribe_self hnd]
        exact (h.patterns b).filter _
      · rw [MemoryStore.patternsFor_unsubscribe_other hb,
          SqliteDb.patternsFor_unsubscribe_other hnd hb]
        exact h.patterns b

theorem replay (h : Related s t) (c : Channel) (since : Int) (untilSeq : Option Int) (limit : Int) :
    let r := s.replay c since untilSeq limit
    let r' := t.db.replay c since untilSeq limit
    List.Forall₂ Message.Alike r.1 r'.1 ∧ r.2 = r'.2 := by
  have hfound : ListsAlike (replayRange c since untilSeq s.messages)
      (replayRange c since untilSeq t.db.messages) := h.messages.replayRange c since untilSeq
  refine ⟨(hfound.sliceTo limit).toWire, ?_⟩
  simp only [MemoryStore.replay, SqliteDb.replay, hfound.length_eq]

/-- Neither cut drops anything, or both cut the one channel that is pending, in storage order. -/
theorem drained (h : Related s t) (hs : Clocked s.messages) (ht : Clocked t.db.messages)
    (hfit : (Call.recv a channels max).fits s) :
    ListsAlike (s.drained a channels max) (t.db.drained a channels max) := by
  have hbox : ListsAlike (s.pending a channels)
      (inbox (wants channels (t.db.patternsFor a)) a t.db.messages) := by
    rw [MemoryStore.pending, wants_perm (h.patterns a)]
    exact h.messages.inbox _ a
  have hpending : t.db.pending a channels =
      sortMessages (inbox (wants channels (t.db.patternsFor a)) a t.db.messages) :=
    inbox_sortMessages h.sqlite.ids_nodup
  have hs' : Clocked (s.pending a channels) := hs.sublist inbox_sublist
  have ht' : Clocked (inbox (wants channels (t.db.patternsFor a)) a t.db.messages) :=
    ht.sublist inbox_sublist
  have hsorted : ListsAlike (sortMessages (s.pending a channels)) (t.db.pending a channels) :=
    hpending ▸ hbox.sortMessages hs' ht'
  rw [MemoryStore.drained, SqliteDb.drained]
  rcases hfit with hall | ⟨hone, c, hc⟩
  · have hlen : (s.pending a channels).length ≤ max.toNat := by omega
    have hlen' : (t.db.pending a channels).length ≤ Nat.max max.toNat 1 := by
      rw [← hsorted.length_eq, (sortMessages_perm _).length_eq]
      exact hlen.trans (Nat.le_max_left ..)
    rw [List.take_of_length_le hlen, List.take_of_length_le hlen']
    exact hsorted
  · have hcap : Nat.max max.toNat 1 = max.toNat := Nat.max_eq_left (by omega)
    have hcut : ∀ m ∈ (s.pending a channels).take max.toNat, m.channel = c := fun m hm =>
      hc m (List.mem_of_mem_take hm)
    have hc' : ∀ n ∈ inbox (wants channels (t.db.patternsFor a)) a t.db.messages, n.channel = c := by
      intro n hn
      have hmem : n.channel ∈ (s.pending a channels).map (·.channel) :=
        hbox.channels ▸ List.mem_map_of_mem hn
      obtain ⟨m, hm, he⟩ := List.mem_map.1 hmem
      exact he ▸ hc m hm
    rw [(hs'.sublist (List.take_sublist ..)).sortMessages_eq hcut, hpending, ht'.sortMessages_eq hc', hcap]
    exact List.forall₂_take _ hbox

theorem recv (h : Related s t) (hs : Clocked s.messages) (ht : Clocked t.db.messages)
    (hfit : (Call.recv a channels max).fits s) :
    List.Forall₂ Message.Alike (s.recv a channels max).1 (sqliteStore.recv a channels max t).1 ∧
      Related (s.recv a channels max).2 (sqliteStore.recv a channels max t).2 := by
  have hnd : (t.db.messages.map (·.id)).Nodup := h.sqlite.ids_nodup
  have hdrained := h.drained hs ht hfit
  constructor
  · show List.Forall₂ Message.Alike (s.recv a channels max).1 (t.db.recv a channels max).1
    rw [MemoryStore.recv_eq, SqliteDb.recv_eq hnd]
    exact hdrained.toWire
  · refine h.mark a (fun m => decide (m.id ∈ (s.drained a channels max).map (·.id)))
      (fun m => decide (m.id ∈ (t.db.drained a channels max).map (·.id)))
      (fun m n hmn => ?_) ?_ ?_ ?_ ?_ ?_ fun b => ?_
    · rw [hdrained.ids, hmn.id]
    · rw [MemoryStore.recv_eq]; rfl
    · rw [MemoryStore.recv_eq]
    · rw [MemoryStore.recv_eq]
    · show (t.db.recv a channels max).2.messages = _
      rw [SqliteDb.recv_eq hnd]
      rfl
    · show (t.db.recv a channels max).2.autoincrement = _
      rw [SqliteDb.recv_eq hnd]
    · show ((s.recv a channels max).2.patternsFor b).Perm ((t.db.recv a channels max).2.patternsFor b)
      rw [MemoryStore.recv_eq, SqliteDb.recv_eq hnd]
      exact h.patterns b

/-! ### Whole traces -/

theorem call (h : Related s t) (hs : Clocked s.messages) (ht : Clocked t.db.messages)
    (now now' sendNow : ℚ) {c : Call} (hfit : c.fits s) :
    let r := memoryStore.call now now c s
    let r' := sqliteStore.call now' sendNow c t
    r.1.Alike r'.1 ∧ Related r.2 r'.2 := by
  cases c with
  | send args => exact ⟨⟨h.counter, h.nextSeq args.channel⟩, h.send now now' args⟩
  | subscribe a p => exact h.subscribe a p
  | unsubscribe a ps =>
    obtain ⟨hp, hn, hrel⟩ := h.unsubscribe a ps
    exact ⟨⟨hp, hn⟩, hrel⟩
  | recv a channels max => exact h.recv hs ht hfit
  | replay ch since untilSeq limit => exact ⟨h.replay ch since untilSeq limit, h⟩
  | heartbeat a status ttl => exact ⟨⟨rfl, rfl⟩, h.heartbeat now now' sendNow a status ttl⟩

end Related

/-- Marking reads no clock. -/
theorem markWhere_sentAt (a : AgentId) (sel : StoredMessage → Bool) (l : List StoredMessage)
    (readings : List ℚ) :
    ((markWhere a sel l).map (·.sentAt)).Sublist (l.map (·.sentAt) ++ readings) := by
  rw [map_markWhere _ fun _ => StoredMessage.deliver_sentAt]
  exact List.sublist_append_left ..

/-- Timestamps come from the readings of the calls. -/
theorem memory_sentAt (st : TraceStep) (s : MemoryStore) :
    ((memoryStore.call st.memoryNow st.memoryNow st.call s).2.messages.map (·.sentAt)).Sublist
      (s.messages.map (·.sentAt) ++ st.memoryReadings) := by
  obtain ⟨c, now, now', sendNow⟩ := st
  cases c with
  | send args =>
    show ((s.messages ++ [s.nextMessage now args]).map (·.sentAt)).Sublist _
    rw [List.map_append]
    exact .refl _
  | heartbeat a status ttl =>
    show ((s.messages ++ [s.nextMessage now (presenceArgs a status now)]).map (·.sentAt)).Sublist _
    rw [List.map_append]
    exact .refl _
  | recv a channels max =>
    show ((s.recv a channels max).2.messages.map (·.sentAt)).Sublist _
    rw [MemoryStore.recv_eq]
    exact markWhere_sentAt ..
  | unsubscribe a ps =>
    show ((s.unsubscribe a ps).2.messages.map (·.sentAt)).Sublist _
    rw [MemoryStore.unsubscribe_eq]
    exact markWhere_sentAt ..
  | subscribe | replay => exact List.sublist_append_left ..

theorem sqlite_sentAt (st : TraceStep) {t : SqliteStore} (h : t.db.Inv) :
    ((sqliteStore.call st.sqliteNow st.sqliteSendNow st.call t).2.db.messages.map (·.sentAt)).Sublist
      (t.db.messages.map (·.sentAt) ++ st.sqliteReadings) := by
  obtain ⟨c, now, now', sendNow⟩ := st
  cases c with
  | send args =>
    show ((t.db.messages ++ [t.db.newRow now' args _]).map (·.sentAt)).Sublist _
    rw [List.map_append]
    exact .refl _
  | heartbeat a status ttl =>
    show ((t.db.messages ++ [t.db.newRow sendNow (presenceArgs a status now') _]).map (·.sentAt)).Sublist _
    rw [List.map_append]
    exact .append (.refl _) (.cons _ (.refl _))
  | recv a channels max =>
    show ((t.db.recv a channels max).2.messages.map (·.sentAt)).Sublist _
    rw [SqliteDb.recv_eq h.ids_nodup]
    exact markWhere_sentAt ..
  | unsubscribe a ps =>
    show ((t.db.unsubscribe a ps).2.messages.map (·.sentAt)).Sublist _
    rw [SqliteDb.unsubscribe_eq h.ids_nodup]
    exact markWhere_sentAt ..
  | subscribe a p =>
    show ((t.db.insertSubscription a p).messages.map (·.sentAt)).Sublist _
    rw [SqliteDb.insertSubscription_messages]
    exact List.sublist_append_left ..
  | replay => exact List.sublist_append_left ..

/-- From related stores whose timestamps lie before the readings to come. -/
theorem Related.trace {steps : List TraceStep} {s : MemoryStore} {t : SqliteStore} (h : Related s t)
    (hfit : RecvsFit steps s) (hbound : ∀ st ∈ steps, st.call.bound.all sqliteInteger = true)
    (hs : (s.messages.map (·.sentAt) ++ steps.flatMap (·.memoryReadings)).Pairwise (· < ·))
    (ht : (t.db.messages.map (·.sentAt) ++ steps.flatMap (·.sqliteReadings)).Pairwise (· < ·)) :
    List.Forall₂ AnswersAlike (memoryAnswers steps s) (sqliteAnswers steps t) := by
  induction steps generalizing s t with
  | nil => exact .nil
  | cons st steps ih =>
    obtain ⟨hnow, hrest⟩ := hfit
    have hids : (s.messages.map (·.id)).Pairwise (· < ·) := h.memory.ids ▸ List.pairwise_lt_range'
    obtain ⟨halike, hrel⟩ := h.call (.of hids (hs.sublist (List.sublist_append_left ..)))
      (.of h.sqlite.ids (ht.sublist (List.sublist_append_left ..))) st.memoryNow st.sqliteNow
      st.sqliteSendNow hnow
    have hcall : sqliteCall st.sqliteNow st.sqliteSendNow st.call t =
        (sqliteStore.call st.sqliteNow st.sqliteSendNow st.call t).map .ok id :=
      if_pos (hbound st List.mem_cons_self)
    rw [List.flatMap_cons, ← List.append_assoc] at hs ht
    simp only [memoryAnswers, sqliteAnswers, hcall]
    refine .cons ⟨_, rfl, halike⟩ (ih hrel hrest (fun st' hst' => hbound st' (List.mem_cons_of_mem _ hst'))
      (hs.sublist ((memory_sentAt st s).append (.refl _)))
      (ht.sublist ((sqlite_sentAt st h.sqlite).append (.refl _))))

/-- The SQLite store stands in for the in-memory store: on every trace of calls from the empty
stores, with increasing clocks, every `recv` as `RecvsFit` says and the bounds of every `replay`
within 64 bits, SQLite raises nothing and the answers are alike one by one. -/
theorem stores_interchangeable (steps : List TraceStep) (hclock : Ticking steps)
    (hfit : RecvsFit steps MemoryStore.init)
    (hbound : ∀ st ∈ steps, ∀ n ∈ st.call.bound, -2 ^ 63 ≤ n ∧ n < 2 ^ 63) :
    List.Forall₂ AnswersAlike (memoryAnswers steps MemoryStore.init)
      (sqliteAnswers steps SqliteStore.init) := by
  refine Related.init.trace hfit (fun st hst => ?_) hclock.memory hclock.sqlite
  rw [List.all_eq_true]
  intro n hn
  simpa [sqliteInteger] using hbound st hst n hn

/-- Overlapping patterns, a presence message between two sends, a cut by `max_messages`, and an
`unsubscribe` that discards what is left. -/
def ticketTrace : List TraceStep :=
  [⟨.subscribe "bob" "ticket:*", 0, 0, 0⟩, ⟨.subscribe "bob" "ticket:2", 0, 0, 0⟩,
    ⟨.send ⟨"ticket:2", "alice", .empty, none, none⟩, 1, 1, 0⟩,
    ⟨.heartbeat "alice" "online" none, 2, 2, 3⟩,
    ⟨.send ⟨"ticket:1", "alice", .empty, some "c1", none⟩, 3, 4, 0⟩,
    ⟨.send ⟨"ticket:1", "alice", .empty, none, some "3"⟩, 4, 5, 0⟩,
    ⟨.recv "bob" (some ["ticket:1"]) 1, 0, 0, 0⟩,
    ⟨.replay "ticket:1" 1 (some 2) 1, 0, 0, 0⟩,
    ⟨.unsubscribe "bob" ["ticket:2", "ticket:3"], 0, 0, 0⟩, ⟨.recv "bob" none 50, 0, 0, 0⟩]

theorem stores_interchangeable_tickets :
    List.Forall₂ AnswersAlike (memoryAnswers ticketTrace MemoryStore.init)
      (sqliteAnswers ticketTrace SqliteStore.init) := by
  refine stores_interchangeable ticketTrace ⟨?_, ?_⟩ ?_ ?_
  · show List.Pairwise (· < ·) ([1, 2, 3, 4] : List ℚ)
    norm_num
  · show List.Pairwise (· < ·) ([1, 2, 3, 4, 5] : List ℚ)
    norm_num
  · exact ⟨trivial, trivial, trivial, trivial, trivial, trivial,
      .inr ⟨by decide, "ticket:1", by decide⟩, trivial, trivial, .inl (by decide), trivial⟩
  · decide

/-- A `since` that no `INTEGER` holds: the memory store finds nothing, SQLite raises. -/
theorem replay_past_integer :
    ¬∀ steps : List TraceStep, Ticking steps → RecvsFit steps MemoryStore.init →
      List.Forall₂ AnswersAlike (memoryAnswers steps MemoryStore.init)
        (sqliteAnswers steps SqliteStore.init) := by
  intro h
  have halike := h [⟨.replay "ticket:1" (2 ^ 63) none 100, 0, 0, 0⟩] ⟨.nil, .nil⟩ ⟨trivial, trivial⟩
  cases halike with
  | cons hfirst _ =>
    obtain ⟨r, hok, -⟩ := hfirst
    cases hok

end Sox
