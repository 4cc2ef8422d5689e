import Sox.Backpressure
import Sox.Listener

/-!
# The event stream of the HTTP transport

`GET /v1/stream` for one agent and its client: `sse_event_generator` over one `watch` of the store for
each connection. The endpoint parses `Last-Event-ID` into `_resume_seq`, which nothing reads, and a new
`watch` starts above what is marked delivered to the agent, which is nothing while the agent only reads
the stream. So each connection starts over: a drained client has every message once exactly when no
connection was opened after it had received something (`stream_once_iff`).
-/

namespace Sox

namespace Sse

/-- `id: <seq>`, `event: message`, `data: <json>`. -/
structure Event where
  id : Nat
  event : String := "message"
  data : Message

def formatSseEvent (m : Message) : Event := { id := m.seq, data := m }

/-- A connection: the `watch` inside has not started before its task runs first. -/
structure Connection where
  resumeSeq : Nat
  lastSeenId : Option Nat := none
  queue : List Message := []

/-- The store, the connection the client has open, and what it has received over all of them. -/
structure Session (σ : Type) where
  store : σ
  connection : Option Connection := none
  received : List Event := []

inductive Action where
  | send (now : ℚ) (args : SendArgs)
  /-- The client connects, with the id of the last event it received as `Last-Event-ID`. -/
  | connect
  /-- The task of the connection computes the mark of `watch`. -/
  | start
  | poll
  | deliver
  | disconnect

variable {σ : Type}

/-- `_resume_seq` of a client that sends the id of its last event, or none. -/
def resumeSeq (received : List Event) : Nat := (received.getLast?.map (·.id)).getD 0

def step (B : BackingStore σ) (a : AgentId) (s : Session σ) : Action → Option (Session σ)
  | .send now args => some { s with store := (B.send now args s.store).2 }
  | .connect =>
    match s.connection with
    | none => some { s with connection := some { resumeSeq := resumeSeq s.received } }
    | some _ => none
  | .start =>
    match s.connection with
    | some ⟨seq, none, queue⟩ => some { s with connection := some ⟨seq, some (B.watchStart a s.store), queue⟩ }
    | _ => none
  | .poll =>
    match s.connection with
    | some ⟨seq, some last, queue⟩ =>
      let (msgs, last') := B.watchPoll a last s.store
      some { s with connection := some ⟨seq, some last', queue ++ msgs⟩ }
    | _ => none
  | .deliver =>
    match s.connection with
    | some ⟨seq, last, m :: queue⟩ =>
      some { s with connection := some ⟨seq, last, queue⟩, received := s.received ++ [formatSseEvent m] }
    | _ => none
  | .disconnect =>
    match s.connection with
    | some _ => some { s with connection := none }
    | none => none

def system (B : BackingStore σ) (a : AgentId) : ActionSystem (Session σ) Action := ⟨step B a⟩

/-- The current connection has nothing left to deliver, and a poll would find nothing. -/
def Drained (B : BackingStore σ) (a : AgentId) (s : Session σ) : Prop :=
  ∃ c last, s.connection = some c ∧ c.lastSeenId = some last ∧ c.queue = [] ∧ (B.watchPoll a last s.store).1 = []

/-- A connection is opened only before anything was received. -/
def Anew (s : Session σ) : Action → Prop
  | .connect => s.received.isEmpty = true
  | _ => True

instance (s : Session σ) (act : Action) : Decidable (Anew s act) := by
  unfold Anew
  split <;> infer_instance

variable {B : BackingStore σ} (X : Mailbox B) (a : AgentId)

/-- The messages on channels that match the agent's patterns. -/
def matching (s : σ) : List StoredMessage :=
  (X.messages s).filter fun m => wants none (X.patterns s a) m.channel

/-- The events received over all connections are the matching messages, each once. -/
def ExactlyOnce (s : Session σ) : Prop :=
  (s.received.map (·.data)).Perm ((matching X a s.store).map (·.toWire))

/-- Nothing is marked delivered to the agent, whose only reader is the stream. -/
def Unread (s : σ) : Prop := ∀ m ∈ X.messages s, a ∉ m.deliveredTo

instance (s : σ) : Decidable (Unread X a s) := by unfold Unread; infer_instance

/-- What the current connection has to do with the events: `base` was received before it, and it has
delivered or queued the matching messages up to its mark. -/
structure Reading (base : List Message) (s : Session σ) : Prop where
  inv : X.Inv s.store
  unread : Unread X a s.store
  before : base <+: s.received.map (·.data)
  unstarted : ∀ seq queue, s.connection = some ⟨seq, none, queue⟩ → queue = [] ∧ s.received.map (·.data) = base
  started : ∀ seq last queue, s.connection = some ⟨seq, some last, queue⟩ → last ≤ maxId (X.messages s.store) ∧
    ∃ got, s.received.map (·.data) = base ++ got ∧
      (got ++ queue).Perm (((matching X a s.store).filter (·.id ≤ last)).map (·.toWire))

variable {X a} {s s' : Session σ} {base : List Message}

theorem Unread.watchStart (h : Unread X a s.store) (hX : X.Lawful) : B.watchStart a s.store = 0 := by
  rw [hX.watchStart, List.filter_eq_nil_iff.2 fun m hm hd => h m hm (of_decide_eq_true hd)]
  rfl

theorem Unread.unseen (h : Unread X a s.store) (last : Nat) :
    X.unseen s.store a last = (matching X a s.store).filter fun m => !decide (m.id ≤ last) := by
  rw [Mailbox.unseen, matching, List.filter_filter]
  refine List.filter_congr fun m hm => ?_
  have ha := h m hm
  rw [Bool.eq_iff_iff]
  simp [StoredMessage.awaits, ha]

/-! ### The steps -/

theorem Reading.send (hX : X.Lawful) (h : Reading X a base s) (now : ℚ) (args : SendArgs) :
    Reading X a base { s with store := (B.send now args s.store).2 } := by
  obtain ⟨m, hmsgs, hnew, hm, hpat⟩ := hX.send now args s.store h.inv
  have hinv : X.Inv (B.send now args s.store).2 := hX.keeps (.send now args) s.store h.inv
  have hpos : 0 < m.id := hX.pos _ hinv m (by rw [hmsgs]; simp)
  refine ⟨hinv, fun n hn => ?_, h.before, h.unstarted, fun seq last queue hc => ?_⟩
  · rw [hmsgs] at hn
    rcases List.mem_append.1 hn with hn | hn
    · exact h.unread n hn
    · rw [List.mem_singleton.1 hn, hm]
      exact List.not_mem_nil
  · obtain ⟨hlast, got, hgot, hperm⟩ := h.started seq last queue hc
    have hlt : last < m.id := hlast.trans_lt (maxId_lt hpos hnew)
    refine ⟨?_, got, hgot, ?_⟩
    · -- the mark stays among the ids
      rcases maxId_mem (X.messages s.store) with ⟨-, hz⟩ | ⟨n, hn, hid⟩
      · omega
      · have hle : n.id ≤ maxId (X.messages (B.send now args s.store).2) :=
          le_maxId (by rw [hmsgs]; exact List.mem_append_left _ hn)
        exact (hlast.trans_eq hid.symm).trans hle
    · -- the new message is above it
      have hnone : ([m].filter fun n => wants none (X.patterns s.store a) n.channel).filter
          (fun n => n.id ≤ last) = [] := by
        refine List.filter_eq_nil_iff.2 fun n hn hle => ?_
        rw [List.mem_singleton.1 (List.mem_of_mem_filter hn)] at hle
        have := of_decide_eq_true hle
        omega
      rw [matching, hpat, hmsgs, List.filter_append, List.filter_append, hnone, List.append_nil]
      exact hperm

theorem Reading.connect (h : Reading X a base s) (seq : Nat) :
    Reading X a (s.received.map (·.data)) { s with connection := some ⟨seq, none, []⟩ } where
  inv := h.inv
  unread := h.unread
  before := List.prefix_refl _
  unstarted seq' queue hc := by
    cases hc
    exact ⟨rfl, rfl⟩
  started seq' last queue hc := by cases hc

theorem Reading.start (hX : X.Lawful) (h : Reading X a base s) {seq : Nat} {queue : List Message}
    (hc : s.connection = some ⟨seq, none, queue⟩) :
    Reading X a base { s with connection := some ⟨seq, some (B.watchStart a s.store), queue⟩ } where
  inv := h.inv
  unread := h.unread
  before := h.before
  unstarted seq' queue' hc' := by cases hc'
  started seq' last queue' hc' := by
    obtain ⟨rfl, hbase⟩ := h.unstarted seq queue hc
    cases hc'
    -- the mark is 0, below every id
    have hzero : (matching X a s.store).filter (fun m => m.id ≤ B.watchStart a s.store) = [] := by
      rw [h.unread.watchStart hX]
      refine List.filter_eq_nil_iff.2 fun m hm hle => ?_
      have hpos := hX.pos s.store h.inv m (List.mem_of_mem_filter hm)
      have := of_decide_eq_true hle
      omega
    refine ⟨?_, [], hbase.trans (List.append_nil _).symm, ?_⟩
    · rw [h.unread.watchStart hX]
      exact Nat.zero_le _
    · show ([] ++ []).Perm (((matching X a s.store).filter _).map _)
      rw [hzero]
      exact .refl _

theorem Reading.poll (hX : X.Lawful) (h : Reading X a base s) {seq last : Nat} {queue : List Message}
    (hc : s.connection = some ⟨seq, some last, queue⟩) :
    Reading X a base
      { s with
        connection := some ⟨seq, some (B.watchPoll a last s.store).2, queue ++ (B.watchPoll a last s.store).1⟩ } where
  inv := h.inv
  unread := h.unread
  before := h.before
  unstarted seq' queue' hc' := by cases hc'
  started seq' last' queue' hc' := by
    obtain ⟨hlast, got, hgot, hperm⟩ := h.started seq last queue hc
    obtain ⟨p, hp, hmsgs, hmark⟩ := hX.watchPoll a last s.store
    cases hc'
    rw [h.unread.unseen] at hp
    refine ⟨?_, got, hgot, ?_⟩
    · rw [hmark]
      refine Nat.max_le.2 ⟨hlast, ?_⟩
      rcases maxId_mem p with ⟨-, hz⟩ | ⟨m, hm, hid⟩
      · rw [hz]
        exact Nat.zero_le _
      · rw [← hid]
        exact le_maxId (List.mem_of_mem_filter (List.mem_of_mem_filter (hp.mem_iff.1 hm)))
    · -- the new mark is above all that matches
      have hall : (matching X a s.store).filter (fun m => m.id ≤ (B.watchPoll a last s.store).2) =
          matching X a s.store := by
        refine List.filter_eq_self.2 fun m hm => decide_eq_true ?_
        rw [hmark]
        rcases Nat.lt_or_ge last m.id with hlt | hle
        · have hmem : m ∈ p := hp.mem_iff.2 (List.mem_filter.2 ⟨hm, by simpa using hlt⟩)
          exact (le_maxId hmem).trans (Nat.le_max_right ..)
        · exact hle.trans (Nat.le_max_left ..)
      show (got ++ (queue ++ _)).Perm (((matching X a s.store).filter _).map _)
      rw [hall, hmsgs, ← List.append_assoc]
      refine (hperm.append (hp.map _)).trans ?_
      rw [← List.map_append]
      exact (List.filter_append_perm _ _).map _

theorem Reading.deliver (h : Reading X a base s) {seq : Nat} {last : Option Nat} {m : Message}
    {queue : List Message} (hc : s.connection = some ⟨seq, last, m :: queue⟩) :
    Reading X a base
      { s with connection := some ⟨seq, last, queue⟩, received := s.received ++ [formatSseEvent m] } where
  inv := h.inv
  unread := h.unread
  before := by
    rw [List.map_append]
    exact h.before.trans (List.prefix_append _ _)
  unstarted seq' queue' hc' := by
    cases hc'
    cases (h.unstarted seq (m :: queue) hc).1
  started seq' last' queue' hc' := by
    cases hc'
    obtain ⟨hlast, got, hgot, hperm⟩ := h.started seq last' (m :: queue) hc
    refine ⟨hlast, got ++ [m], ?_, ?_⟩
    · rw [List.map_append, hgot, List.append_assoc]
      rfl
    · rw [List.append_assoc]
      exact hperm

theorem Reading.disconnect (h : Reading X a base s) : Reading X a base { s with connection := none } where
  inv := h.inv
  unread := h.unread
  before := h.before
  unstarted seq queue hc := by cases hc
  started seq last queue hc := by cases hc

/-- A step other than `connect` goes on reading; `connect` starts over after what was received. -/
theorem Reading.step (hX : X.Lawful) (h : Reading X a base s) {act : Action}
    (hstep : step B a s act = some s') :
    ∃ base', Reading X a base' s' ∧ (base' = [] ↔ base = [] ∧ Anew s act) := by
  cases act with
  | send now args =>
    cases hstep
    exact ⟨base, h.send hX now args, by simp [Anew]⟩
  | connect =>
    simp only [Sse.step] at hstep
    split at hstep
    · cases hstep
      refine ⟨_, h.connect _, ?_⟩
      have hbefore := h.before
      simp only [Anew, List.isEmpty_iff, List.map_eq_nil_iff]
      constructor
      · intro hnil
        rw [hnil] at hbefore
        exact ⟨List.prefix_nil.1 hbefore, hnil⟩
      · exact fun hnil => hnil.2
    · cases hstep
  | start =>
    simp only [Sse.step] at hstep
    split at hstep
    · rename_i hc
      cases hstep
      exact ⟨base, h.start hX hc, by simp [Anew]⟩
    · cases hstep
  | poll =>
    simp only [Sse.step] at hstep
    split at hstep
    · rename_i hc
      cases hstep
      exact ⟨base, h.poll hX hc, by simp [Anew]⟩
    · cases hstep
  | deliver =>
    simp only [Sse.step] at hstep
    split at hstep
    · rename_i hc
      cases hstep
      exact ⟨base, h.deliver hc, by simp [Anew]⟩
    · cases hstep
  | disconnect =>
    simp only [Sse.step] at hstep
    split at hstep
    · cases hstep
      exact ⟨base, h.disconnect, by simp [Anew]⟩
    · cases hstep

/-! ### Runs -/

theorem Reading.run (hX : X.Lawful) (h : Reading X a base s) {as : List Action}
    (hr : (system B a).run s as = some s') :
    ∃ base', Reading X a base' s' ∧ (base' = [] ↔ base = [] ∧ (system B a).Guarded Anew s as) := by
  induction as generalizing s base with
  | nil =>
    cases hr
    exact ⟨base, h, by simp [ActionSystem.Guarded]⟩
  | cons act as ih =>
    obtain ⟨s₁, hstep, hrest⟩ := ActionSystem.run_cons.1 hr
    obtain ⟨base₁, h₁, hiff₁⟩ := h.step hX hstep
    obtain ⟨base', h', hiff⟩ := ih h₁ hrest
    refine ⟨base', h', ?_⟩
    rw [hiff, hiff₁, ActionSystem.guarded_cons, and_assoc]
    refine and_congr_right fun _ => and_congr_right fun _ => ?_
    constructor
    · intro hg s₂ hs₂
      obtain rfl := Option.some.inj (hstep.symm.trans hs₂)
      exact hg
    · exact fun hg => hg s₁ hstep

/-- A connection that is drained has delivered everything that matches. -/
theorem Reading.drained (hX : X.Lawful) (h : Reading X a base s) (hd : Drained B a s) :
    (s.received.map (·.data)).Perm (base ++ (matching X a s.store).map (·.toWire)) := by
  obtain ⟨⟨seq, _, queue⟩, last, hc, rfl, rfl, hquiet⟩ := hd
  obtain ⟨-, got, hgot, hperm⟩ := h.started seq last [] hc
  obtain ⟨p, hp, hmsgs, -⟩ := hX.watchPoll a last s.store
  have hnone : p = [] := List.map_eq_nil_iff.1 (hmsgs.symm.trans hquiet)
  rw [hnone, h.unread.unseen] at hp
  have hall : (matching X a s.store).filter (fun m => m.id ≤ last) = matching X a s.store := by
    refine List.filter_eq_self.2 fun m hm => ?_
    have hno := List.filter_eq_nil_iff.1 hp.nil_eq.symm m hm
    simpa using hno
  rw [hall, List.append_nil] at hperm
  rw [hgot]
  exact List.Perm.append_left _ hperm

theorem exactlyOnce_iff (hX : X.Lawful) {s₀ : σ} (hs : X.Inv s₀) (hunread : Unread X a s₀)
    {as : List Action} (hr : (system B a).run { store := s₀ } as = some s) (hd : Drained B a s) :
    ExactlyOnce X a s ↔ (system B a).Guarded Anew { store := s₀ } as := by
  have hstart : Reading X a [] ({ store := s₀ } : Session σ) :=
    ⟨hs, hunread, List.nil_prefix, fun _ _ hc => (by cases hc), fun _ _ _ hc => (by cases hc)⟩
  obtain ⟨base, hreading, hiff⟩ := hstart.run hX hr
  have hperm := hreading.drained hX hd
  rw [and_iff_right rfl] at hiff
  rw [← hiff]
  constructor
  · intro honce
    have hlen := (hperm.symm.trans honce).length_eq
    rw [List.length_append] at hlen
    exact List.eq_nil_of_length_eq_zero (by omega)
  · rintro rfl
    exact hperm

end Sse

/-- The stream over the memory store, from any reachable state in which nothing is marked delivered to
the agent: once the current connection is drained, the client has received every message on a matching
channel exactly once if and only if no connection was opened after it had received an event. -/
theorem stream_once_iff (ops : List StoreOp) (a : AgentId)
    (hunread : Sse.Unread MemoryStore.mailbox a (memoryStore.applyAll ops .init)) (as : List Sse.Action)
    (s : Sse.Session MemoryStore)
    (hr : (Sse.system memoryStore a).run { store := memoryStore.applyAll ops .init } as = some s)
    (hd : Sse.Drained memoryStore a s) :
    Sse.ExactlyOnce MemoryStore.mailbox a s ↔
      (Sse.system memoryStore a).Guarded Sse.Anew { store := memoryStore.applyAll ops .init } as :=
  Sse.exactlyOnce_iff MemoryStore.mailbox_lawful (MemoryStore.Inv.reachable ops) hunread hr hd

/-- A first connection that delivers nothing, then one that delivers the two tickets. -/
def streamed : List Sse.Action :=
  [.send 1 ticket, .connect, .start, .poll, .disconnect, .connect, .start, .poll, .deliver, .send 2 ticket,
    .poll, .deliver]

theorem stream_once_two : ∃ s, (Sse.system memoryStore "bob").run
      { store := memoryStore.applyAll subscribed .init } streamed = some s ∧
    Sse.ExactlyOnce MemoryStore.mailbox "bob" s := by
  refine ⟨_, rfl, ?_⟩
  refine (stream_once_iff subscribed "bob" (by decide) streamed _ rfl ?_).2 (by decide)
  exact ⟨_, _, rfl, rfl, rfl, rfl⟩

/-- The client has the ticket when it reconnects, with the id of the ticket. -/
def resumed : List Sse.Action :=
  [.send 1 ticket, .connect, .start, .poll, .deliver, .disconnect, .connect, .start, .poll, .deliver]

/-- The second connection delivers the ticket again. -/
theorem stream_twice : ∃ s, (Sse.system memoryStore "bob").run
      { store := memoryStore.applyAll subscribed .init } resumed = some s ∧
    Sse.Drained memoryStore "bob" s ∧ ¬Sse.ExactlyOnce MemoryStore.mailbox "bob" s := by
  refine ⟨_, rfl, ⟨_, _, rfl, rfl, rfl, rfl⟩, fun h => ?_⟩
  exact absurd h.length_eq (by decide)

end Sox
