import Sox.Lib.Cursor
import Sox.Lib.System
import Sox.ReplayPages

/-!
# Recovery of the reference agent

The reference agent keeps the sequence number of the last message that it handled on each channel in a
file. After a restart it replays each of these channels from there on, page by page, and handles every
message again that the file does not count; a request is answered on the channel that is being replayed.
It may be killed between any two of its calls, and the others use the store all the time.
-/

namespace Sox.ReferenceAgent

open Cursor

variable {σ : Type}

/-! ### The agent -/

/-- What comes next for the message at hand. -/
inductive Handling where
  | processing
  | replying
  | finishing
  | saving

/-- Where `recover_from_state` stands. -/
inductive Position where
  /-- At the head of the loop over the cursors that were loaded. -/
  | channels (rest : List (Channel × Int))
  /-- At the head of the loop over the pages of a channel. -/
  | asking (c : Channel) (since : Int) (rest : List (Channel × Int))
  /-- At a message, before the other messages of the page. -/
  | handling (c : Channel) (since : Int) (hasMore : Bool) (m : Message) (next : Handling) (page : List Message)
      (rest : List (Channel × Int))
  | complete

structure Agent where
  lastSeq : Dict Channel Int
  /-- A set: the messages that were acknowledged but are not settled. -/
  pending : List String := []
  position : Position

/-- The store, the file with the cursors, the process of the agent while there is one, and the messages that
`handle_message` got through. -/
structure System (σ : Type) where
  store : σ
  file : Dict Channel Int
  agent : Option Agent := none
  handled : List Message := []

/-- `json.dump` sorts the keys. -/
def SeqState.save (state : Dict Channel Int) : Dict Channel Int where
  entries := state.entries.insertionSort fun p q => p.1 ≤ q.1
  nodup := ((List.perm_insertionSort _ _).map _).nodup_iff.2 state.nodup

def SeqState.update (channel : Channel) (seq : Int) (file : Dict Channel Int) : Dict Channel Int :=
  SeqState.save (file.set channel seq)

/-- The set after an acknowledgement. -/
def notePending (id status : String) (pending : List String) : List String :=
  if status = "received" ∨ status = "processing" then if id ∈ pending then pending else pending ++ [id]
  else if status = "done" ∨ status = "nack" then pending.filter (· ≠ id)
  else pending

def ack (B : BackingStore σ) (self : AgentId) (now : ℚ) (id status : String) (reason : Option String) (s : σ)
    (pending : List String) : σ × List String :=
  if id = "" then (s, pending) else (B.apply (.ack now self id status reason) s, notePending id status pending)

def answerText : String :=
  "Acknowledged. Continuing under best-guess assumption while clarification is processed. " ++
    "Will reconcile when your answer arrives."

/-- The answer to a clarification request. -/
def replyBody (m : Message) : JsonDict :=
  Dict.set (.ofList [("type", .str "clarification_reply"), ("subject", m.body.getD "subject" (.str "")),
    ("answer", .str answerText)]) "_reply_to" (.str (toString m.messageId))

/-- `reply_to_request`. -/
def replyArgs (self : AgentId) (m : Message) : SendArgs where
  channel := m.channel
  sender := self
  body := replyBody m
  correlationId := m.correlationId.filter (· ≠ "")

def isRequest (floatRepr : ℚ → String) (m : Message) : Bool :=
  (m.body.getD "type" (.str "")).pyStr floatRepr = "clarification_request"

/-- The next message of the page, or the next page, or the next channel. -/
def nextMessage (c : Channel) (since : Int) (hasMore : Bool) (rest : List (Channel × Int)) : List Message → Position
  | m :: page => .handling c since hasMore m .processing page rest
  | [] => if hasMore then .asking c since rest else .channels rest

/-- A replay of the store. -/
abbrev Replay (σ : Type) := Channel → Int → σ → Except String (List Message × Bool)

/-- What the agent reads in the answer: one that reports an error has no `messages` and no `has_more`. -/
def pageOf : Except String (List Message × Bool) → List Message × Bool
  | .ok r => r
  | .error _ => ([], false)

/-- The next call of the agent, or its next step without one. -/
def step (B : BackingStore σ) (replay : Replay σ) (floatRepr : ℚ → String) (self : AgentId) (now : ℚ)
    (s : System σ) (a : Agent) : Option (System σ) :=
  match a.position with
  | .complete => none
  | .channels [] => some { s with agent := some { a with position := .complete } }
  | .channels ((c, lastSeq) :: rest) =>
    some { s with agent := some { a with position := .asking c (lastSeq + 1) rest } }
  | .asking c since rest =>
    let (replayed, hasMore) := pageOf (replay c since s.store)
    some { s with agent := some { a with position := nextMessage c since hasMore rest replayed } }
  | .handling c since hasMore m next page rest =>
    match next with
    | .processing =>
      let (store, pending) := ack B self now (toString m.messageId) "processing" none s.store a.pending
      let next := if isRequest floatRepr m then .replying else .finishing
      some { s with store, agent := some { a with pending, position := .handling c since hasMore m next page rest } }
    | .replying =>
      let store := B.apply (.send now (replyArgs self m)) s.store
      some { s with store, agent := some { a with position := .handling c since hasMore m .finishing page rest } }
    | .finishing =>
      let (store, pending) := ack B self now (toString m.messageId) "done" none s.store a.pending
      some { s with store, handled := s.handled ++ [m]
                    agent := some { a with pending, position := .handling c since hasMore m .saving page rest } }
    | .saving =>
      -- the store numbers from one, so that every message is counted
      if m.seq = 0 then some { s with agent := some { a with position := nextMessage c since hasMore rest page } }
      else some { s with
        file := SeqState.update c m.seq s.file
        agent := some { a with lastSeq := a.lastSeq.set c m.seq, position := nextMessage c m.seq hasMore rest page } }

inductive Action where
  /-- Somebody else calls the store. -/
  | other (op : StoreOp)
  | start
  /-- The process is killed, or a call raises. -/
  | crash
  | go (now : ℚ)

/-- The agent and the others on one store. -/
def recovery (B : BackingStore σ) (replay : Replay σ) (floatRepr : ℚ → String) (self : AgentId) :
    ActionSystem (System σ) Action where
  step s
    | .other op => some { s with store := B.apply op s.store }
    | .start => match s.agent with
      | some _ => none
      | none => some { s with agent := some { lastSeq := s.file, position := .channels s.file.entries } }
    | .crash => some { s with agent := none }
    | .go now => s.agent.bind (step B replay floatRepr self now s)

def pageLimit : Nat := 100

/-! ### The stores -/

/-- What recovery relies on, in the states that operations reach: the channels are logs, and `replay` gives a
page of one. -/
structure Replays (B : BackingStore σ) (replay : Replay σ) (Reach : σ → Prop) (log : Channel → σ → List Message) :
    Prop where
  apply : ∀ {s} op, Reach s → Reach (B.apply op s)
  ascending : ∀ {s}, Reach s → ∀ c, (log c s).Pairwise (·.seq < ·.seq)
  numbered : ∀ {s c m}, Reach s → m ∈ log c s → m.channel = c ∧ m.seq ≠ 0
  grows : ∀ {s} op, Reach s → ∀ c, log c s <+: log c (B.apply op s)
  quiet : ∀ {s c op}, Reach s → ¬op.PostsTo c → log c (B.apply op s) = log c s
  sends : ∀ {s} now args, Reach s → ∃ m, m.body = args.body ∧
    log args.channel (B.apply (.send now args) s) = log args.channel s ++ [m]
  page : ∀ {s c since r}, Reach s → replay c since s = .ok r →
    r = ((Paging.range Message.seq since none (log c s)).take pageLimit,
      decide (pageLimit < (Paging.range Message.seq since none (log c s)).length))

def replayMemory : Replay MemoryStore := fun c since s => memoryReplay c none pageLimit since s

def replaySqlite : Replay SqliteStore := fun c since s => sqliteReplay c none pageLimit since s

theorem numbered_feed {l : List StoredMessage} {c : Channel} {m : Message} (h : Gapless l) (hm : m ∈ feed c l) :
    m.channel = c ∧ m.seq ≠ 0 := by
  rw [feed_eq, wires] at hm
  obtain ⟨x, hx, rfl⟩ := List.mem_map.1 hm
  have hseq : x.seq ∈ (onChannel c l).map (·.seq) := List.mem_map_of_mem hx
  rw [h c, List.mem_range'_1] at hseq
  refine ⟨of_decide_eq_true (List.mem_filter.1 hx).2, ?_⟩
  show x.seq ≠ 0
  omega

theorem feed_concat {l : List StoredMessage} {m : StoredMessage} {c : Channel} (hc : m.channel = c) :
    feed c (l ++ [m]) = feed c l ++ [m.toWire] := by
  rw [feed, feed, wires, List.map_append, List.filter_append]
  simp [wires, StoredMessage.toWire, hc]

theorem replays_memory : Replays memoryStore replayMemory
    (fun s => ∃ ops, s = memoryStore.applyAll ops MemoryStore.init) (fun c s => feed c s.messages) where
  apply := by
    rintro s op ⟨ops, rfl⟩
    exact ⟨ops ++ [op], (BackingStore.applyAll_append _ ops [op] _).symm⟩
  ascending := by
    rintro s ⟨ops, rfl⟩ c
    exact feed_ascending (MemoryStore.Inv.reachable ops).seqs
  numbered := by
    rintro s c m ⟨ops, rfl⟩ hm
    exact numbered_feed (MemoryStore.Inv.reachable ops).seqs hm
  grows := by
    rintro s op - c
    exact (MemoryStore.appends_apply op s).feed_isPrefix
  quiet := by
    rintro s c op - hop
    exact (MemoryStore.appends_apply op s).feed_eq fun t ht => hop ⟨_, t, ht⟩
  sends := by
    rintro s now args -
    exact ⟨(s.nextMessage now args).toWire, rfl, feed_concat rfl⟩
  page := by
    rintro s c since r ⟨ops, rfl⟩ h
    rw [← Except.ok.inj h]
    exact replay_page (MemoryStore.Inv.reachable ops).seqs (by decide)

theorem replays_sqlite : Replays sqliteStore replaySqlite
    (fun s => ∃ ops, s = sqliteStore.applyAll ops SqliteStore.init) (fun c s => feed c s.db.messages) where
  apply := by
    rintro s op ⟨ops, rfl⟩
    exact ⟨ops ++ [op], (BackingStore.applyAll_append _ ops [op] _).symm⟩
  ascending := by
    rintro s ⟨ops, rfl⟩ c
    exact feed_ascending (SqliteStore.gapless_reachable ops)
  numbered := by
    rintro s c m ⟨ops, rfl⟩ hm
    exact numbered_feed (SqliteStore.gapless_reachable ops) hm
  grows := by
    rintro s op ⟨ops, rfl⟩ c
    exact (SqliteStore.appends_apply op (SqliteStore.inv_reachable ops)).feed_isPrefix
  quiet := by
    rintro s c op ⟨ops, rfl⟩ hop
    exact (SqliteStore.appends_apply op (SqliteStore.inv_reachable ops)).feed_eq fun t ht => hop ⟨_, t, ht⟩
  sends := by
    rintro s now args -
    exact ⟨(s.db.newRow now args (s.db.nextSeq args.channel)).toWire, rfl, feed_concat rfl⟩
  page := by
    rintro s c since r ⟨ops, rfl⟩ h
    rw [replaySqlite, sqliteReplay] at h
    split at h
    · rw [← Except.ok.inj h]
      exact replay_page (SqliteStore.gapless_reachable ops) (by decide)
    · cases h

/-! ### Where the agent can be -/

/-- Each channel still to come has the cursor that was loaded. -/
structure Coming (current : Dict Channel Int) (rest : List (Channel × Int)) : Prop where
  nodup : (rest.map Prod.fst).Nodup
  loaded : ∀ p ∈ rest, current.get? p.1 = some p.2

/-- The message and the rest of the page are the next to be handled. -/
def Due (log : List Message) (start k : Int) (told : List Message) (m : Message) (page : List Message) : Prop :=
  ∃ since, Resumes Message.seq log start k told since ∧ m :: page <+: Paging.range Message.seq since none log

/-- The message was handled, and the rest of the page is next. -/
structure Finished (log : List Message) (start k : Int) (told : List Message) (m : Message) (page : List Message) :
    Prop where
  saved : Saved Message.seq log start m.seq told
  behind : start < m.seq
  cursor : k ≤ m.seq
  page : page <+: Paging.range Message.seq (m.seq + 1) none log

def AtMessage (log : List Message) (start k : Int) (told : List Message) (m : Message) (page : List Message) :
    Handling → Prop
  | .processing | .replying | .finishing => Due log start k told m page
  | .saving => Finished log start k told m page

/-- On the channel that is being replayed, which does not come again. -/
def OnChannel (file current : Dict Channel Int) (c : Channel) (rest : List (Channel × Int)) (P : Int → Int → Prop) :
    Prop :=
  Coming current rest ∧ c ∉ rest.map Prod.fst ∧ ∃ start k, file.get? c = some start ∧ current.get? c = some k ∧
    P start k

def Located (file current : Dict Channel Int) (log told : Channel → List Message) : Position → Prop
  | .channels rest => Coming current rest
  | .asking c since rest => OnChannel file current c rest fun start k =>
    Resumes Message.seq (log c) start k (told c) since
  | .handling c _ _ m next page rest => OnChannel file current c rest fun start k =>
    m ∈ log c ∧ AtMessage (log c) start k (told c) m page next
  | .complete => True

/-- The messages that are acknowledged and not settled. -/
def pendingAt : Position → List String
  | .handling _ _ _ m .replying _ _ | .handling _ _ _ m .finishing _ _ => [toString m.messageId]
  | _ => []

/-- What the agent has handled on the channel. -/
def told (c : Channel) (s : System σ) : List Message := s.handled.filter (·.channel = c)

structure Inv (Reach : σ → Prop) (log : Channel → σ → List Message) (file : Dict Channel Int) (s : System σ) :
    Prop where
  reach : Reach s.store
  followed : ∀ c start, file.get? c = some start → ∃ k, s.file.get? c = some k ∧
    Followed Message.seq (log c s.store) start k (told c s)
  unlisted : ∀ c, file.get? c = none → s.file.get? c = none ∧ told c s = []
  agent : ∀ a, s.agent = some a → Located file s.file (log · s.store) (told · s) a.position ∧
    (∀ c, a.lastSeq.get? c = s.file.get? c) ∧ a.pending = pendingAt a.position

section
variable {current file : Dict Channel Int} {c : Channel} {rest : List (Channel × Int)} {start k since : Int}
  {hasMore : Bool} {m : Message} {page : List Message} {log log' told : Channel → List Message} {next : Handling}
  {position : Position}

theorem AtMessage.grow {l l' ts : List Message} (h : AtMessage l start k ts m page next) (hl : l <+: l') :
    AtMessage l' start k ts m page next := by
  have hrange (n : Int) : Paging.range Message.seq n none l <+: Paging.range Message.seq n none l' :=
    Paging.range_of_isPrefix hl
  cases next with
  | processing | replying | finishing =>
    obtain ⟨since, hresumes, hpage⟩ := h
    exact ⟨since, hresumes.grow hl, hpage.trans (hrange _)⟩
  | saving => exact ⟨h.saved.grow hl, h.behind, h.cursor, h.page.trans (hrange _)⟩

theorem Located.grow (h : Located file current log told position) (hlog : ∀ c, log c <+: log' c) :
    Located file current log' told position := by
  cases position with
  | channels rest | complete => exact h
  | asking c since rest =>
    obtain ⟨hcoming, hc, start, k, hstart, hk, hresumes⟩ := h
    exact ⟨hcoming, hc, start, k, hstart, hk, hresumes.grow (hlog c)⟩
  | handling c since hasMore m next page rest =>
    obtain ⟨hcoming, hc, start, k, hstart, hk, hm, hat⟩ := h
    exact ⟨hcoming, hc, start, k, hstart, hk, (hlog c).subset hm, hat.grow (hlog c)⟩

theorem Located.due (h : Located file current log told (.handling c since hasMore m next page rest)) :
    m ∈ log c := by
  obtain ⟨-, -, start, k, -, -, hm, -⟩ := h
  exact hm

theorem located_nextMessage (hcoming : Coming current rest) (hc : c ∉ rest.map Prod.fst)
    (hstart : file.get? c = some start) (hk : current.get? c = some k)
    (hsince : Resumes Message.seq (log c) start k (told c) since)
    (hpage : ∃ n, Resumes Message.seq (log c) start k (told c) n ∧ page <+: Paging.range Message.seq n none (log c)) :
    Located file current log told (nextMessage c since hasMore rest page) := by
  cases page with
  | nil =>
    rw [nextMessage]
    split
    · exact ⟨hcoming, hc, start, k, hstart, hk, hsince⟩
    · exact hcoming
  | cons m page =>
    obtain ⟨n, hresumes, hahead⟩ := hpage
    have hm : m ∈ log c := (Paging.mem_range.1 (hahead.subset List.mem_cons_self)).1
    exact ⟨hcoming, hc, start, k, hstart, hk, hm, n, hresumes, hahead⟩

theorem pendingAt_nextMessage : pendingAt (nextMessage c since hasMore rest page) = [] := by
  cases page with
  | nil =>
    rw [nextMessage]
    split
    · rfl
    · rfl
  | cons m page => rfl

theorem get?_save (state : Dict Channel Int) (j : Channel) : (SeqState.save state).get? j = state.get? j := by
  refine Option.ext fun k => ?_
  rw [Dict.get?_eq_some, Dict.get?_eq_some]
  exact (List.perm_insertionSort _ _).mem_iff

theorem get?_update (c j : Channel) (seq : Int) (file : Dict Channel Int) :
    (SeqState.update c seq file).get? j = if j = c then some seq else file.get? j := by
  rw [SeqState.update, get?_save, Dict.get?_set]

theorem Coming.set {seq : Int} {current' : Dict Channel Int} (h : Coming current rest) (hc : c ∉ rest.map Prod.fst)
    (hcurrent : ∀ j, current'.get? j = if j = c then some seq else current.get? j) : Coming current' rest := by
  refine ⟨h.nodup, fun p hp => ?_⟩
  have hne : p.1 ≠ c := fun heq => hc (heq ▸ List.mem_map_of_mem hp)
  rw [hcurrent, if_neg hne]
  exact h.loaded p hp

theorem notePending_done (id : String) : notePending id "done" [id] = [] := by
  rw [notePending, if_neg (by decide), if_pos (by decide)]
  simp

theorem notePending_processing (id : String) : notePending id "processing" [] = [id] := by
  rw [notePending, if_pos (by decide), if_neg List.not_mem_nil]
  rfl

theorem ack_messageId (B : BackingStore σ) (self : AgentId) (now : ℚ) (n : Nat) (status : String) (s : σ)
    (pending : List String) : ack B self now (toString n) status none s pending =
      (B.apply (.ack now self (toString n) status none) s, notePending (toString n) status pending) := by
  refine if_neg fun h => ?_
  have hlist := congrArg String.toList h
  have hdigits : (toString n).toList = Nat.toDigits 10 n := Nat.toList_repr
  rw [hdigits] at hlist
  exact Nat.toDigits_ne_nil hlist

end

/-! ### Every step -/

section
variable (B : BackingStore σ) (replay : Replay σ) (floatRepr : ℚ → String) (self : AgentId) (now : ℚ)

/-- What a step does, from one position of the agent to the next. -/
inductive Went (s : System σ) (lastSeq : Dict Channel Int) (pending : List String) : Position → System σ → Prop
  | through : Went s lastSeq pending (.channels []) { s with agent := some { lastSeq, pending, position := .complete } }
  | next (c : Channel) (k : Int) (rest : List (Channel × Int)) : Went s lastSeq pending (.channels ((c, k) :: rest))
      { s with agent := some { lastSeq, pending, position := .asking c (k + 1) rest } }
  | refused (c : Channel) (since : Int) (rest : List (Channel × Int)) (e : String)
      (h : replay c since s.store = .error e) : Went s lastSeq pending (.asking c since rest)
      { s with agent := some { lastSeq, pending, position := .channels rest } }
  | answered (c : Channel) (since : Int) (rest : List (Channel × Int)) (page : List Message) (hasMore : Bool)
      (h : replay c since s.store = .ok (page, hasMore)) : Went s lastSeq pending (.asking c since rest)
      { s with agent := some { lastSeq, pending, position := nextMessage c since hasMore rest page } }
  | processed (c : Channel) (since : Int) (hasMore : Bool) (m : Message) (page : List Message)
      (rest : List (Channel × Int)) : Went s lastSeq pending (.handling c since hasMore m .processing page rest)
      { s with
        store := B.apply (.ack now self (toString m.messageId) "processing" none) s.store
        agent := some { lastSeq, pending := notePending (toString m.messageId) "processing" pending
                        position := .handling c since hasMore m
                          (if isRequest floatRepr m then .replying else .finishing) page rest } }
  | replied (c : Channel) (since : Int) (hasMore : Bool) (m : Message) (page : List Message)
      (rest : List (Channel × Int)) : Went s lastSeq pending (.handling c since hasMore m .replying page rest)
      { s with
        store := B.apply (.send now (replyArgs self m)) s.store
        agent := some { lastSeq, pending, position := .handling c since hasMore m .finishing page rest } }
  | finished (c : Channel) (since : Int) (hasMore : Bool) (m : Message) (page : List Message)
      (rest : List (Channel × Int)) : Went s lastSeq pending (.handling c since hasMore m .finishing page rest)
      { s with
        store := B.apply (.ack now self (toString m.messageId) "done" none) s.store
        handled := s.handled ++ [m]
        agent := some { lastSeq, pending := notePending (toString m.messageId) "done" pending
                        position := .handling c since hasMore m .saving page rest } }
  | uncounted (c : Channel) (since : Int) (hasMore : Bool) (m : Message) (page : List Message)
      (rest : List (Channel × Int)) (h : m.seq = 0) :
      Went s lastSeq pending (.handling c since hasMore m .saving page rest)
      { s with agent := some { lastSeq, pending, position := nextMessage c since hasMore rest page } }
  | saved (c : Channel) (since : Int) (hasMore : Bool) (m : Message) (page : List Message)
      (rest : List (Channel × Int)) (h : m.seq ≠ 0) :
      Went s lastSeq pending (.handling c since hasMore m .saving page rest)
      { s with
        file := SeqState.update c m.seq s.file
        agent := some { lastSeq := lastSeq.set c m.seq, pending
                        position := nextMessage c m.seq hasMore rest page } }

theorem step_went {s s' : System σ} {lastSeq : Dict Channel Int} {pending : List String} {position : Position}
    (h : step B replay floatRepr self now s ⟨lastSeq, pending, position⟩ = some s') :
    Went B replay floatRepr self now s lastSeq pending position s' := by
  unfold step at h
  cases position with
  | complete => cases h
  | channels rest =>
    cases rest with
    | nil =>
      cases h
      exact .through
    | cons p rest =>
      cases h
      exact .next p.1 p.2 rest
  | asking c since rest =>
    dsimp only at h
    cases hreplay : replay c since s.store with
    | error e =>
      rw [hreplay] at h
      cases h
      exact .refused c since rest e hreplay
    | ok r =>
      rw [hreplay] at h
      cases h
      exact .answered c since rest r.1 r.2 hreplay
  | handling c since hasMore m next page rest =>
    cases next with
    | processing =>
      dsimp only at h
      rw [ack_messageId] at h
      cases h
      exact .processed c since hasMore m page rest
    | replying =>
      cases h
      exact .replied c since hasMore m page rest
    | finishing =>
      dsimp only at h
      rw [ack_messageId] at h
      cases h
      exact .finished c since hasMore m page rest
    | saving =>
      dsimp only at h
      split at h
      · rename_i hseq
        cases h
        exact .uncounted c since hasMore m page rest hseq
      · rename_i hseq
        cases h
        exact .saved c since hasMore m page rest hseq

end

section
variable {B : BackingStore σ} {replay : Replay σ} {Reach : σ → Prop} {log : Channel → σ → List Message}
  {file : Dict Channel Int} {floatRepr : ℚ → String} {self : AgentId} {s s' t : System σ} {a : Agent} {c : Channel}
  {m : Message} {act : Action}

theorem inv_init {store : σ} (hreach : Reach store) : Inv Reach log file { store, file } where
  reach := hreach
  followed _ start hstart := ⟨start, hstart, .inl .init⟩
  unlisted _ hc := ⟨hc, rfl⟩
  agent _ h := by cases h

/-- The store grows, and the agent may have moved. -/
theorem Inv.move (h : Inv Reach log file s) {store : σ} {agent : Option Agent} (hreach : Reach store)
    (hgrow : ∀ c, log c s.store <+: log c store)
    (hagent : ∀ a, agent = some a → Located file s.file (log · store) (told · s) a.position ∧
      (∀ c, a.lastSeq.get? c = s.file.get? c) ∧ a.pending = pendingAt a.position) :
    Inv Reach log file { s with store, agent } where
  reach := hreach
  followed c start hstart := by
    obtain ⟨k, hk, hfollowed⟩ := h.followed c start hstart
    exact ⟨k, hk, hfollowed.grow (hgrow c)⟩
  unlisted := h.unlisted
  agent := hagent

/-- The agent moves without a call. -/
theorem Inv.goto (h : Inv Reach log file s) {position : Position} (ha : s.agent = some a)
    (hposition : Located file s.file (log · s.store) (told · s) position)
    (hpending : a.pending = pendingAt position) : Inv Reach log file { s with agent := some { a with position } } := by
  refine h.move h.reach (fun c => List.prefix_refl _) fun b hb => ?_
  cases hb
  exact ⟨hposition, (h.agent a ha).2.1, hpending⟩

theorem told_concat (hm : m.channel = c) (j : Channel) (s : System σ) :
    (s.handled ++ [m]).filter (·.channel = j) = if j = c then told j s ++ [m] else told j s := by
  rw [List.filter_append, told]
  split
  · rename_i hj
    simp [hm, hj]
  · rename_i hj
    simp [hm, Ne.symm hj]

variable (R : Replays B replay Reach log)

include R

/-- A message that is due was handled. -/
theorem Inv.finish (h : Inv Reach log file s) {lastSeq : Dict Channel Int} {pending : List String} {since : Int}
    {hasMore : Bool} {page : List Message} {rest : List (Channel × Int)}
    (hat : Located file s.file (log · s.store) (told · s) (.handling c since hasMore m .finishing page rest))
    (hlast : ∀ c, lastSeq.get? c = s.file.get? c) (hpending : pending = []) :
    Inv Reach log file { s with
      handled := s.handled ++ [m]
      agent := some { lastSeq, pending, position := .handling c since hasMore m .saving page rest } } := by
  obtain ⟨hcoming, hc, start, k, hstart, hk, hm, since', hresumes, hpage⟩ := hat
  have hchannel := (R.numbered h.reach hm).1
  have htold (j : Channel) : (s.handled ++ [m]).filter (·.channel = j) = _ := told_concat hchannel j s
  obtain ⟨k', hk', hfollowed⟩ := h.followed c start hstart
  obtain rfl : k' = k := Option.some.inj (hk'.symm.trans hk)
  obtain ⟨hhandled, hsaved, hbehind⟩ := hresumes.handle hfollowed (R.ascending h.reach c) hpage
  refine ⟨h.reach, fun j start' hstart' => ?_, fun j hj => ?_, fun b hb => ?_⟩
  · by_cases hj : j = c
    · subst hj
      obtain rfl : start' = start := Option.some.inj (hstart'.symm.trans hstart)
      refine ⟨_, hk, ?_⟩
      show Followed _ _ _ _ ((s.handled ++ [m]).filter (·.channel = j))
      rw [htold, if_pos rfl]
      exact hhandled
    · obtain ⟨k', hk', hfollowed'⟩ := h.followed j start' hstart'
      refine ⟨k', hk', ?_⟩
      show Followed _ _ _ _ ((s.handled ++ [m]).filter (·.channel = j))
      rw [htold, if_neg hj]
      exact hfollowed'
  · obtain ⟨hnone, hnot⟩ := h.unlisted j hj
    refine ⟨hnone, ?_⟩
    have hne : j ≠ c := by
      rintro rfl
      rw [hstart] at hj
      cases hj
    show (s.handled ++ [m]).filter (·.channel = j) = []
    rw [htold, if_neg hne]
    exact hnot
  · cases hb
    refine ⟨⟨hcoming, hc, start, _, hstart, hk, hm, ?_⟩, hlast, hpending⟩
    show Finished _ _ _ ((s.handled ++ [m]).filter (·.channel = c)) _ _
    rw [htold, if_pos rfl]
    exact ⟨hsaved, hbehind, hresumes.cursor_le hpage, Cursor.range_tail (R.ascending h.reach c) hpage⟩

omit R in
/-- The cursor of a message that was handled is saved. -/
theorem Inv.save (h : Inv Reach log file s) {lastSeq : Dict Channel Int} {since : Int} {hasMore : Bool}
    {page : List Message} {rest : List (Channel × Int)}
    (hat : Located file s.file (log · s.store) (told · s) (.handling c since hasMore m .saving page rest))
    (hlast : ∀ c, lastSeq.get? c = s.file.get? c) :
    Inv Reach log file { s with
      file := SeqState.update c m.seq s.file
      agent := some { lastSeq := lastSeq.set c m.seq, position := nextMessage c m.seq hasMore rest page } } := by
  obtain ⟨hcoming, hc, start, k, hstart, hk, hm, hsaved, hbehind, -, hpage⟩ := hat
  have hself : (SeqState.update c m.seq s.file).get? c = some (m.seq : Int) := by rw [get?_update, if_pos rfl]
  refine ⟨h.reach, fun j start' hstart' => ?_, fun j hj => ?_, fun b hb => ?_⟩
  · by_cases hj : j = c
    · subst hj
      obtain rfl : start' = start := Option.some.inj (hstart'.symm.trans hstart)
      exact ⟨m.seq, hself, .inl hsaved⟩
    · obtain ⟨k', hk', hfollowed⟩ := h.followed j start' hstart'
      refine ⟨k', ?_, hfollowed⟩
      show (SeqState.update c m.seq s.file).get? j = _
      rw [get?_update, if_neg hj]
      exact hk'
  · obtain ⟨hnone, hnot⟩ := h.unlisted j hj
    refine ⟨?_, hnot⟩
    have hne : j ≠ c := by
      rintro rfl
      rw [hstart] at hj
      cases hj
    show (SeqState.update c m.seq s.file).get? j = none
    rw [get?_update, if_neg hne]
    exact hnone
  · cases hb
    refine ⟨?_, fun j => ?_, pendingAt_nextMessage.symm⟩
    · have hcoming' := hcoming.set hc fun j => get?_update c j m.seq s.file
      exact located_nextMessage hcoming' hc hstart hself (hsaved.resumes hbehind) ⟨_, .inl rfl, hpage⟩
    · show (lastSeq.set c (m.seq : Int)).get? j = (SeqState.update c m.seq s.file).get? j
      rw [Dict.get?_set, get?_update, hlast]

/-- Another acknowledgement, or the answer. -/
theorem Inv.call (h : Inv Reach log file s) (op : StoreOp) {pending : List String} {position : Position}
    (ha : s.agent = some a) (hposition : Located file s.file (log · s.store) (told · s) position)
    (hpending : pending = pendingAt position) :
    Inv Reach log file { s with store := B.apply op s.store, agent := some { a with pending, position } } := by
  refine h.move (R.apply op h.reach) (R.grows op h.reach) fun b hb => ?_
  cases hb
  exact ⟨hposition.grow (R.grows op h.reach), (h.agent a ha).2.1, hpending⟩

theorem Inv.go {now : ℚ} (h : Inv Reach log file s) (ha : s.agent = some a)
    (hgo : step B replay floatRepr self now s a = some s') : Inv Reach log file s' := by
  obtain ⟨hlocated, hlast, hpending⟩ := h.agent a ha
  obtain ⟨lastSeq, pending, position⟩ := a
  cases step_went B replay floatRepr self now hgo with
  | through => exact h.goto ha trivial hpending
  | next c k rest =>
    obtain ⟨hnotin, hrest⟩ := List.nodup_cons.1 hlocated.nodup
    have hk : s.file.get? c = some k := hlocated.loaded (c, k) List.mem_cons_self
    refine h.goto ha ⟨⟨hrest, fun q hq => hlocated.loaded q (List.mem_cons_of_mem _ hq)⟩, hnotin, ?_⟩ hpending
    cases hstart : file.get? c with
    | none =>
      rw [(h.unlisted c hstart).1] at hk
      cases hk
    | some start => exact ⟨start, k, rfl, hk, .inl rfl⟩
  | refused c since rest e hreplay => exact h.goto ha hlocated.1 hpending
  | answered c since rest replayed hasMore hreplay =>
    obtain ⟨hcoming, hc, start, k, hstart, hk, hresumes⟩ := hlocated
    obtain ⟨hpage, -⟩ := Prod.mk.inj (R.page h.reach hreplay)
    have hahead : replayed <+: Paging.range Message.seq since none (log c s.store) := by
      rw [hpage]
      exact List.take_prefix _ _
    have hnext := @located_nextMessage s.file file c rest start k since hasMore replayed (log · s.store) (told · s)
      hcoming hc hstart hk hresumes ⟨since, hresumes, hahead⟩
    exact h.goto ha hnext (hpending.trans pendingAt_nextMessage.symm)
  | processed c since hasMore m page rest =>
    have hpending' : notePending (toString m.messageId) "processing" pending = [toString m.messageId] := by
      rw [show pending = [] from hpending, notePending_processing]
    -- what is known of a message that is due does not say which step is next
    have hreply : Located file s.file (log · s.store) (told · s)
      (.handling c since hasMore m .replying page rest) := hlocated
    have hfinish : Located file s.file (log · s.store) (told · s)
      (.handling c since hasMore m .finishing page rest) := hlocated
    split
    · exact h.call R (.ack now self (toString m.messageId) "processing" none) ha hreply hpending'
    · exact h.call R (.ack now self (toString m.messageId) "processing" none) ha hfinish hpending'
  | replied c since hasMore m page rest => exact h.call R _ ha hlocated hpending
  | finished c since hasMore m page rest =>
    have hdone : notePending (toString m.messageId) "done" pending = [] := by
      rw [show pending = [toString m.messageId] from hpending, notePending_done]
    have hcalled := h.call R (.ack now self (toString m.messageId) "done" none) ha hlocated hpending
    obtain ⟨hlocated', -, -⟩ := hcalled.agent _ rfl
    exact hcalled.finish R hlocated' hlast hdone
  | uncounted c since hasMore m page rest hseq =>
    have hm : m ∈ (log · s.store) c := hlocated.due
    exact absurd hseq (R.numbered h.reach hm).2
  | saved c since hasMore m page rest hseq =>
    rw [show pending = [] from hpending]
    exact h.save hlocated hlast

theorem Inv.step (h : Inv Reach log file s) (hstep : (recovery B replay floatRepr self).step s act = some s') :
    Inv Reach log file s' := by
  cases act with
  | other op =>
    cases hstep
    refine h.move (R.apply op h.reach) (R.grows op h.reach) fun a ha => ?_
    obtain ⟨hlocated, hrest⟩ := h.agent a ha
    exact ⟨hlocated.grow (R.grows op h.reach), hrest⟩
  | start =>
    simp only [recovery] at hstep
    split at hstep
    · cases hstep
    · cases hstep
      refine h.move h.reach (fun c => List.prefix_refl _) fun a ha => ?_
      cases ha
      exact ⟨⟨s.file.nodup, fun p hp => Dict.get?_eq_some.2 hp⟩, fun c => rfl, rfl⟩
  | crash =>
    cases hstep
    exact h.move h.reach (fun c => List.prefix_refl _) fun a ha => by cases ha
  | go now =>
    obtain ⟨a, ha, hgo⟩ := Option.bind_eq_some_iff.1 hstep
    exact h.go R ha hgo

theorem inv_run {as : List Action} (h : Inv Reach log file s)
    (hrun : (recovery B replay floatRepr self).run s as = some t) : Inv Reach log file t :=
  ActionSystem.run_invariant (G := fun _ _ => True) (fun _ _ _ h _ hstep => h.step R hstep) h
    (ActionSystem.guarded_of_forall fun _ _ _ => trivial) hrun

end

/-! ### In order, and everything -/

/-- Of a file with cursors, and any run after that: on a channel of the file, the messages that were handled
follow one another as they are in the log, behind the number in the file; a message is handled again only right
after it was handled; and the file counts no message that was not handled. -/
structure InOrder (file : Dict Channel Int) (log : Channel → List Message) (t : System σ) : Prop where
  followed : ∀ c start, file.get? c = some start → ∃ k, t.file.get? c = some k ∧ start ≤ k ∧
    Followed Message.seq (log c) start k (told c t) ∧ ∀ m ∈ log c, start < m.seq → m.seq ≤ k → m ∈ t.handled
  unlisted : ∀ c, file.get? c = none → t.file.get? c = none ∧ told c t = []
  /-- At most the message at hand is not settled. -/
  settled : ∀ a, t.agent = some a → a.pending = pendingAt a.position ∧ ∀ c, a.lastSeq.get? c = t.file.get? c

theorem Inv.inOrder {B : BackingStore σ} {replay : Replay σ} {Reach : σ → Prop} {log : Channel → σ → List Message}
    {file : Dict Channel Int} {t : System σ} (R : Replays B replay Reach log) (h : Inv Reach log file t) :
    InOrder file (log · t.store) t where
  followed c start hstart := by
    obtain ⟨k, hk, hfollowed⟩ := h.followed c start hstart
    refine ⟨k, hk, hfollowed.start_le, hfollowed, fun m hm hlt hle => ?_⟩
    exact List.mem_of_mem_filter (hfollowed.covers (R.ascending h.reach c) hm hlt hle)
  unlisted := h.unlisted
  settled a ha := ⟨(h.agent a ha).2.2, (h.agent a ha).2.1⟩

/-- No cursor goes back. -/
def Advances (s t : System σ) : Prop :=
  ∀ c k, s.file.get? c = some k → ∃ k', t.file.get? c = some k' ∧ k ≤ k'

theorem Advances.of_eq {s t : System σ} (h : t.file = s.file) : Advances s t :=
  fun _ k hk => ⟨k, h ▸ hk, Int.le_refl k⟩

section
variable {B : BackingStore σ} {replay : Replay σ} {Reach : σ → Prop} {log : Channel → σ → List Message}
  {file : Dict Channel Int} {floatRepr : ℚ → String} {self : AgentId} {s s' t : System σ} {a : Agent} {act : Action}

theorem Inv.advances_go {now : ℚ} (h : Inv Reach log file s) (ha : s.agent = some a)
    (hgo : ReferenceAgent.step B replay floatRepr self now s a = some s') : Advances s s' := by
  obtain ⟨hlocated, -, -⟩ := h.agent a ha
  obtain ⟨lastSeq, pending, position⟩ := a
  cases step_went B replay floatRepr self now hgo with
  | saved c since hasMore m page rest hseq =>
    obtain ⟨-, -, start, k, -, hk, -, hfinished⟩ := hlocated
    intro j k' hk'
    show ∃ k'', (SeqState.update c m.seq s.file).get? j = some k'' ∧ k' ≤ k''
    rw [get?_update]
    split
    · rename_i hj
      rw [hj, hk] at hk'
      cases hk'
      exact ⟨m.seq, rfl, hfinished.cursor⟩
    · exact ⟨k', hk', Int.le_refl k'⟩
  | _ => exact .of_eq rfl

theorem Inv.advances_step (h : Inv Reach log file s)
    (hstep : (recovery B replay floatRepr self).step s act = some s') : Advances s s' := by
  cases act with
  | other op => cases hstep; exact .of_eq rfl
  | crash => cases hstep; exact .of_eq rfl
  | start =>
    simp only [recovery] at hstep
    split at hstep
    · cases hstep
    · cases hstep
      exact .of_eq rfl
  | go now =>
    obtain ⟨a, ha, hgo⟩ := Option.bind_eq_some_iff.1 hstep
    exact h.advances_go ha hgo

theorem advances_run {as : List Action} (R : Replays B replay Reach log) (h : Inv Reach log file s)
    (hrun : (recovery B replay floatRepr self).run s as = some t) : Advances s t := by
  refine ActionSystem.run_rel (G := fun _ _ => True) (fun s => .of_eq rfl) (fun s₁ s₂ s₃ h₁ h₂ c k hk => ?_)
    (fun s _ s' h _ hstep => ⟨h.step R hstep, h.advances_step hstep⟩) h
    (ActionSystem.guarded_of_forall fun _ _ _ => trivial) hrun
  obtain ⟨k', hk', hle⟩ := h₁ c k hk
  obtain ⟨k'', hk'', hle'⟩ := h₂ c k' hk'
  exact ⟨k'', hk'', Int.le_trans hle hle'⟩

end

/-- Whatever the others do, and wherever the agent is killed and started again. -/
theorem recovery_in_order (floatRepr : ℚ → String) (self : AgentId) (file : Dict Channel Int) (ops : List StoreOp)
    (as : List Action) :
    (∀ t, let M := recovery memoryStore replayMemory floatRepr self
      M.run { store := memoryStore.applyAll ops MemoryStore.init, file } as = some t →
        InOrder file (feed · t.store.messages) t ∧ ∀ bs u, M.run t bs = some u → Advances t u) ∧
    ∀ t, let M := recovery sqliteStore replaySqlite floatRepr self
      M.run { store := sqliteStore.applyAll ops SqliteStore.init, file } as = some t →
        InOrder file (feed · t.store.db.messages) t ∧ ∀ bs u, M.run t bs = some u → Advances t u := by
  constructor
  · intro t M hrun
    have hinv := inv_run replays_memory (inv_init ⟨ops, rfl⟩) hrun
    exact ⟨hinv.inOrder replays_memory, fun bs u hafter => advances_run replays_memory hinv hafter⟩
  · intro t M hrun
    have hinv := inv_run replays_sqlite (inv_init ⟨ops, rfl⟩) hrun
    exact ⟨hinv.inOrder replays_sqlite, fun bs u hafter => advances_run replays_sqlite hinv hafter⟩

/-- Three messages of alice, of which the second is a request. -/
def tickets : List StoreOp :=
  [.send 1 ⟨"ticket:1", "alice", .empty, none, none⟩,
    .send 2 ⟨"ticket:1", "alice", .ofList [("type", .str "clarification_request")], none, none⟩,
    .send 3 ⟨"ticket:1", "alice", .empty, none, none⟩]

def gos (now : ℚ) (n : Nat) : List Action := List.replicate n (.go now)

/-- bob is killed before he counts the request that he answered. -/
def bobIsKilled : List Action := .start :: gos 10 5 ++ [.crash]

/-- He handles it again, then the last message and his first answer, and is through. -/
def bobRecovers : List Action := .start :: gos 20 13

def bobAgent : ActionSystem (System MemoryStore) Action := recovery memoryStore replayMemory (fun _ => "") "bob"

def bobStarts : System MemoryStore where
  store := memoryStore.applyAll tickets MemoryStore.init
  file := .ofList [("ticket:1", 1)]

theorem recovery_in_order_bob : ∃ t, bobAgent.run bobStarts (bobIsKilled ++ bobRecovers) = some t ∧
    t.handled.map (·.seq) = [2, 2, 3, 4] ∧ InOrder bobStarts.file (feed · t.store.messages) t := by
  have hrun : (bobAgent.run bobStarts (bobIsKilled ++ bobRecovers)).isSome = true := by decide +kernel
  have hfinal := ActionSystem.run_final hrun
  refine ⟨_, hfinal, by decide +kernel, ?_⟩
  exact ((recovery_in_order (fun _ => "") "bob" bobStarts.file tickets (bobIsKilled ++ bobRecovers)).1 _ hfinal).1

/-! ### A recovery that comes to its end -/

/-- The file counts the messages of an earlier time. -/
def Counts (current : Dict Channel Int) (log₀ : Channel → List Message) (c : Channel) : Prop :=
  ∀ k, current.get? c = some k → ∀ m ∈ log₀ c, (m.seq : Int) ≤ k

/-- The channels that the agent is through with are counted, and so is the channel at hand when its last page is
handled. -/
def Through (current : Dict Channel Int) (log₀ : Channel → List Message) : Position → Prop
  | .channels rest => ∀ c, c ∉ rest.map Prod.fst → Counts current log₀ c
  | .asking c _ rest => ∀ j, j ∉ rest.map Prod.fst → j ≠ c → Counts current log₀ j
  | .handling c _ hasMore m _ page rest => (∀ j, j ∉ rest.map Prod.fst → j ≠ c → Counts current log₀ j) ∧
    (hasMore = false → ∀ x ∈ log₀ c, ∀ y ∈ (m :: page).getLast?, x.seq ≤ y.seq)
  | .complete => ∀ c, Counts current log₀ c

theorem through_nextMessage {current : Dict Channel Int} {log₀ : Channel → List Message} {c : Channel} {since : Int}
    {hasMore : Bool} {rest : List (Channel × Int)} {page : List Message}
    (hothers : ∀ j, j ∉ rest.map Prod.fst → j ≠ c → Counts current log₀ j)
    (hlast : hasMore = false → ∀ x ∈ log₀ c, ∀ y ∈ page.getLast?, x.seq ≤ y.seq)
    (hcounts : hasMore = false → page = [] → Counts current log₀ c) :
    Through current log₀ (nextMessage c since hasMore rest page) := by
  cases page with
  | cons m page => exact ⟨hothers, hlast⟩
  | nil =>
    rw [nextMessage]
    split
    · exact hothers
    · rename_i hmore
      intro j hj
      by_cases hjc : j = c
      · rw [hjc]
        exact hcounts (Bool.eq_false_iff.2 hmore) rfl
      · exact hothers j hj hjc

section
variable {B : BackingStore σ} {replay : Replay σ} {Reach : σ → Prop} {log : Channel → σ → List Message}
  {file : Dict Channel Int} {floatRepr : ℚ → String} {self : AgentId} {s s' t : System σ} {a : Agent} {c : Channel}
  {log₀ : Channel → List Message} {act : Action}

/-- The messages of the earlier time are in the store, and the agent is past some of them. -/
structure Since (Reach : σ → Prop) (log : Channel → σ → List Message) (file : Dict Channel Int)
    (log₀ : Channel → List Message) (s : System σ) : Prop where
  inv : Inv Reach log file s
  present : ∀ c, log₀ c <+: log c s.store
  through : ∀ a, s.agent = some a → Through s.file log₀ a.position

theorem Counts.update {current : Dict Channel Int} {seq : Nat} {j : Channel} (h : Counts current log₀ j) (hj : j ≠ c) :
    Counts (SeqState.update c seq current) log₀ j := by
  intro k hk
  rw [get?_update, if_neg hj] at hk
  exact h k hk

/-- A page that leaves nothing behind it reaches every message of the earlier time. -/
theorem le_last_of_page {l l₀ page : List Message} {since : Int} (hasc : l.Pairwise (·.seq < ·.seq)) (hl : l₀ <+: l)
    (hpage : page = Paging.range Message.seq since none l) (x : Message) (hx : x ∈ l₀) :
    (page = [] → (x.seq : Int) < since) ∧ ∀ y ∈ page.getLast?, x.seq ≤ y.seq := by
  have hin : since ≤ x.seq → x ∈ page := fun h => by
    rw [hpage]
    exact Paging.mem_range.2 ⟨hl.subset hx, h, by simp⟩
  constructor
  · rintro hnil
    by_contra hnot
    have := hin (by omega)
    rw [hnil] at this
    cases this
  · intro y hy
    obtain ⟨front, hfront⟩ := List.getLast?_eq_some_iff.1 hy
    have hymem : y ∈ page := List.mem_of_getLast? hy
    by_cases hsince : since ≤ x.seq
    · have hxpage := hin hsince
      rw [hfront] at hxpage
      have hpages : page.Pairwise (·.seq < ·.seq) := hpage ▸ hasc.filter _
      rw [hfront] at hpages
      rcases List.mem_append.1 hxpage with h | h
      · exact Nat.le_of_lt ((List.pairwise_append.1 hpages).2.2 x h y (List.mem_singleton_self y))
      · rw [List.mem_singleton.1 h]
    · rw [hpage] at hymem
      have := (Paging.mem_range.1 hymem).2.1
      omega

/-- If the agent asks for a replay, it is answered by a page. -/
def answered (replay : Replay σ) (s : System σ) : Action → Bool
  | .go _ => match s.agent.map Agent.position with
    | some (.asking c since _) => (replay c since s.store).isOk
    | _ => true
  | _ => true

def Answered (replay : Replay σ) (s : System σ) (act : Action) : Prop := answered replay s act = true

instance {replay : Replay σ} {s : System σ} {act : Action} : Decidable (Answered replay s act) :=
  inferInstanceAs (Decidable (_ = true))

theorem Answered.page {now : ℚ} {since : Int} {rest : List (Channel × Int)} (h : Answered replay s (.go now))
    (ha : s.agent = some a) (hasking : a.position = .asking c since rest) : ∃ r, replay c since s.store = .ok r := by
  rw [Answered, answered, ha, Option.map_some, hasking] at h
  dsimp only at h
  cases hreplay : replay c since s.store with
  | error e =>
    rw [hreplay] at h
    cases h
  | ok r => exact ⟨r, rfl⟩

variable (R : Replays B replay Reach log)

include R

omit R in
theorem Since.goto (h : Since Reach log file log₀ s) (hinv : Inv Reach log file { s with agent := some a })
    (hthrough : Through s.file log₀ a.position) : Since Reach log file log₀ { s with agent := some a } := by
  refine ⟨hinv, h.present, fun b hb => ?_⟩
  cases hb
  exact hthrough

theorem Since.go {now : ℚ} (h : Since Reach log file log₀ s) (hanswered : Answered replay s (.go now))
    (ha : s.agent = some a) (hgo : step B replay floatRepr self now s a = some s') (hinv : Inv Reach log file s') :
    Since Reach log file log₀ s' := by
  have hthrough := h.through a ha
  obtain ⟨hlocated, -, -⟩ := h.inv.agent a ha
  obtain ⟨lastSeq, pending, position⟩ := a
  have hcalled (op : StoreOp) (c : Channel) : log₀ c <+: log c (B.apply op s.store) :=
    (h.present c).trans (R.grows op h.inv.reach c)
  cases step_went B replay floatRepr self now hgo with
  | through => exact h.goto hinv fun c => hthrough c List.not_mem_nil
  | next c k rest =>
    refine h.goto hinv fun j hj hne => hthrough j fun hmem => ?_
    rcases List.mem_cons.1 hmem with heq | hmem
    · exact hne heq
    · exact hj hmem
  | refused c since rest e hreplay =>
    obtain ⟨r, hr⟩ := hanswered.page ha rfl
    rw [hr] at hreplay
    cases hreplay
  | answered c since rest replayed hasMore hreplay =>
    obtain ⟨-, -, start, k, -, hk, hresumes⟩ := hlocated
    obtain ⟨hpage, hmore⟩ := Prod.mk.inj (R.page h.inv.reach hreplay)
    have hwhole (hno : hasMore = false) :
        replayed = Paging.range Message.seq since none (log c s.store) := by
      rw [hno] at hmore
      rw [hpage, List.take_of_length_le]
      exact Nat.not_lt.1 (of_decide_eq_false hmore.symm)
    have hle := fun hno => le_last_of_page (R.ascending h.inv.reach c) (h.present c) (hwhole hno)
    refine h.goto hinv (through_nextMessage hthrough (fun hno x hx => (hle hno x hx).2)
      fun hno hnil k' hk' x hx => ?_)
    obtain rfl : k' = k := Option.some.inj (hk'.symm.trans hk)
    have hlt := (hle hno x hx).1 hnil
    rcases hresumes with hsince | ⟨hsince, -⟩
    · omega
    · omega
  | processed c since hasMore m page rest =>
    refine ⟨hinv, hcalled (.ack now self (toString m.messageId) "processing" none), fun b hb => ?_⟩
    cases hb
    exact hthrough
  | replied c since hasMore m page rest =>
    refine ⟨hinv, hcalled (.send now (replyArgs self m)), fun b hb => ?_⟩
    cases hb
    exact hthrough
  | finished c since hasMore m page rest =>
    refine ⟨hinv, hcalled (.ack now self (toString m.messageId) "done" none), fun b hb => ?_⟩
    cases hb
    exact hthrough
  | uncounted c since hasMore m page rest hseq =>
    have hm : m ∈ (log · s.store) c := hlocated.due
    exact absurd hseq (R.numbered h.inv.reach hm).2
  | saved c since hasMore m page rest hseq =>
    obtain ⟨hothers, hlast⟩ := hthrough
    refine ⟨hinv, h.present, fun b hb => ?_⟩
    cases hb
    refine through_nextMessage (fun j hj hne => (hothers j hj hne).update hne) (fun hno x hx y hy => ?_) ?_
    · refine hlast hno x hx y ?_
      rw [List.getLast?_cons, hy]
      rfl
    · intro hno hnil k hk x hx
      rw [get?_update, if_pos rfl] at hk
      have := hlast hno x hx m (by rw [hnil]; rfl)
      rw [← Option.some.inj hk]
      omega

theorem Since.step (h : Since Reach log file log₀ s) (hanswered : Answered replay s act)
    (hstep : (recovery B replay floatRepr self).step s act = some s') :
    Since Reach log file log₀ s' := by
  have hinv := h.inv.step R hstep
  cases act with
  | other op =>
    cases hstep
    exact ⟨hinv, fun c => (h.present c).trans (R.grows op h.inv.reach c), h.through⟩
  | start =>
    simp only [recovery] at hstep
    split at hstep
    · cases hstep
    · cases hstep
      refine ⟨hinv, h.present, fun a ha => ?_⟩
      cases ha
      -- every channel of the file is still to come
      intro c hc k hk
      exact absurd (List.mem_map_of_mem (Dict.get?_eq_some.1 hk)) hc
  | crash =>
    cases hstep
    exact ⟨hinv, h.present, fun a ha => by cases ha⟩
  | go now =>
    obtain ⟨a, ha, hgo⟩ := Option.bind_eq_some_iff.1 hstep
    exact h.go R hanswered ha hgo hinv

theorem since_run {as bs : List Action} {store : σ} (hreach : Reach store)
    (hbefore : (recovery B replay floatRepr self).run { store, file } as = some s) (hdown : s.agent = none)
    (hafter : (recovery B replay floatRepr self).run s bs = some t)
    (hanswered : (recovery B replay floatRepr self).Guarded (Answered replay) s bs) (ha : t.agent = some a)
    (hcomplete : a.position = .complete) : ∀ c start, file.get? c = some start →
      ∀ m ∈ log c s.store, start < m.seq → m ∈ t.handled := by
  have hinv : Inv Reach log file s := inv_run R (inv_init hreach) hbefore
  have hstart : Since Reach log file (log · s.store) s :=
    ⟨hinv, fun c => List.prefix_refl _, fun b hb => by rw [hdown] at hb; cases hb⟩
  have hend : Since Reach log file (log · s.store) t :=
    ActionSystem.run_invariant (fun _ _ _ h hact hstep => h.step R hact hstep) hstart hanswered hafter
  intro c start hc m hm hlt
  have hcounts := hend.through a ha
  rw [hcomplete] at hcounts
  obtain ⟨k, hk, -, -, hcovers⟩ := (hend.inv.inOrder R).followed c start hc
  exact hcovers m ((hend.present c).subset hm) hlt (hcounts c k hk m hm)

omit R in
theorem answered_memory {bs : List Action} {s : System MemoryStore} :
    (recovery memoryStore replayMemory floatRepr self).Guarded (Answered replayMemory) s bs := by
  refine ActionSystem.guarded_of_forall fun b _ s => ?_
  cases b with
  | other op | start | crash => rfl
  | go now =>
    rw [Answered, answered]
    split
    · rfl
    · rfl

end

/-- A recovery that comes to its end has handled every message of its channels that was there when it was started,
whatever was interrupted before; `as` is what happened up to a time at which the agent was down. Over SQLite the
replays have to be answered: one whose number does not fit into an `INTEGER` is read as the last page. -/
theorem recovery_complete (floatRepr : ℚ → String) (self : AgentId) (file : Dict Channel Int) (ops : List StoreOp)
    (as bs : List Action) :
    (∀ s t a, let M := recovery memoryStore replayMemory floatRepr self
      M.run { store := memoryStore.applyAll ops MemoryStore.init, file } as = some s → s.agent = none →
      M.run s bs = some t → t.agent = some a → a.position = .complete →
        ∀ c start, file.get? c = some start → ∀ m ∈ feed c s.store.messages, start < m.seq → m ∈ t.handled) ∧
    ∀ s t a, let M := recovery sqliteStore replaySqlite floatRepr self
      M.run { store := sqliteStore.applyAll ops SqliteStore.init, file } as = some s → s.agent = none →
      M.run s bs = some t → M.Guarded (Answered replaySqlite) s bs → t.agent = some a → a.position = .complete →
        ∀ c start, file.get? c = some start → ∀ m ∈ feed c s.store.db.messages, start < m.seq → m ∈ t.handled :=
  ⟨fun _ _ _ hbefore hdown hafter => since_run replays_memory ⟨ops, rfl⟩ hbefore hdown hafter answered_memory,
    fun _ _ _ => since_run replays_sqlite ⟨ops, rfl⟩⟩

def bobSqlite : ActionSystem (System SqliteStore) Action := recovery sqliteStore replaySqlite (fun _ => "") "bob"

def bobStartsSqlite : System SqliteStore where
  store := sqliteStore.applyAll tickets SqliteStore.init
  file := bobStarts.file

theorem recovery_complete_bob :
    (∃ s t, bobAgent.run bobStarts bobIsKilled = some s ∧ bobAgent.run s bobRecovers = some t ∧
      ∀ m ∈ feed "ticket:1" s.store.messages, (1 : Int) < m.seq → m ∈ t.handled) ∧
    ∃ s t, bobSqlite.run bobStartsSqlite bobIsKilled = some s ∧ bobSqlite.run s bobRecovers = some t ∧
      ∀ m ∈ feed "ticket:1" s.store.db.messages, (1 : Int) < m.seq → m ∈ t.handled := by
  obtain ⟨hmemory, hsqlite⟩ := recovery_complete (fun _ => "") "bob" bobStarts.file tickets bobIsKilled bobRecovers
  constructor
  · have hkilled : (bobAgent.run bobStarts bobIsKilled).isSome = true := by decide +kernel
    have hbefore := ActionSystem.run_final hkilled
    have hrun : (bobAgent.run (bobAgent.final bobStarts bobIsKilled) bobRecovers).isSome = true := by decide +kernel
    have hafter := ActionSystem.run_final hrun
    obtain ⟨a, ha, hcomplete⟩ : ∃ a,
        (bobAgent.final (bobAgent.final bobStarts bobIsKilled) bobRecovers).agent = some a ∧
          a.position = .complete := ⟨_, rfl, rfl⟩
    exact ⟨_, _, hbefore, hafter, hmemory _ _ a hbefore rfl hafter ha hcomplete "ticket:1" 1 rfl⟩
  · have hkilled : (bobSqlite.run bobStartsSqlite bobIsKilled).isSome = true := by decide +kernel
    have hbefore := ActionSystem.run_final hkilled
    have hrun : (bobSqlite.run (bobSqlite.final bobStartsSqlite bobIsKilled) bobRecovers).isSome = true := by
      decide +kernel
    have hafter := ActionSystem.run_final hrun
    obtain ⟨a, ha, hcomplete⟩ : ∃ a,
        (bobSqlite.final (bobSqlite.final bobStartsSqlite bobIsKilled) bobRecovers).agent = some a ∧
          a.position = .complete := ⟨_, rfl, rfl⟩
    have hanswered : bobSqlite.Guarded (Answered replaySqlite) (bobSqlite.final bobStartsSqlite bobIsKilled)
        bobRecovers := by decide +kernel
    exact ⟨_, _, hbefore, hafter, hsqlite _ _ a hbefore rfl hafter hanswered ha hcomplete "ticket:1" 1 rfl⟩

end Sox.ReferenceAgent
