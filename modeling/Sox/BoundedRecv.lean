import Sox.RecvOrder
import Sox.Lib.Batches

/-!
# How long a bounded `recv` can leave a message behind

An agent drains with `recv` of `max` messages while others send. The memory store cuts a batch off in
the order in which the messages were sent, so a message waits for those before it. The SQLite store
cuts it off in the order of the channels' names: what arrives on an earlier channel goes in front, and
`bounded_recv_iff` counts how much of it a message survives.
-/

namespace Sox

/-- A `send` with its reading of the clock. -/
abbrev TimedSend := ℚ × SendArgs

namespace BackingStore

variable {σ : Type} (B : BackingStore σ)

def sendAll (sends : List TimedSend) (s : σ) : σ := B.applyAll (sends.map fun p => .send p.1 p.2) s

/-- In every round there are sends, and then the agent's `recv`. -/
def recvRounds (a : AgentId) (max : Int) : List (List TimedSend) → σ → List Message
  | [], _ => []
  | sends :: rounds, s =>
    let s := B.sendAll sends s
    (B.recv a none max s).1 ++ recvRounds a max rounds (B.recv a none max s).2

end BackingStore

namespace Mailbox

variable {σ : Type} {B : BackingStore σ} (X : Mailbox B) {s : σ} {a : AgentId} {max : Int}
  {x : StoredMessage} {sends : List TimedSend}

/-- The scan of the store goes by `ahead`, and `overtakes` says which sends put a message ahead of one
that is there. -/
structure Ranked (ahead : StoredMessage → StoredMessage → Bool)
    (overtakes : TimedSend → StoredMessage → Bool) : Prop where
  asymm : ∀ m n, ahead m n = true → ahead n m = false
  scan : ∀ s, X.Inv s → (X.scan (X.messages s)).Pairwise (ahead · ·)
  scan_mark : ∀ a sel l, X.scan (markWhere a sel l) = markWhere a sel (X.scan l)
  send : ∀ p s, X.Inv s → ∃ m, X.messages (B.send p.1 p.2 s).2 = X.messages s ++ [m] ∧
    m.deliveredTo = [] ∧ m.channel = p.2.channel ∧
    X.patterns (B.send p.1 p.2 s).2 = X.patterns s ∧
    ∀ n ∈ X.messages s, ahead m n = overtakes p n

/-- How many of the agent's pending messages are ahead of `x`. -/
def aheadOf (ahead : StoredMessage → StoredMessage → Bool) (s : σ) (a : AgentId) (x : StoredMessage) :
    Nat :=
  (X.pending s a none).countP (ahead · x)

/-- How many of the sends are for the agent and go in front of `x`. -/
def overtaking (overtakes : TimedSend → StoredMessage → Bool) (s : σ) (a : AgentId) (x : StoredMessage)
    (sends : List TimedSend) : Nat :=
  sends.countP fun p => wants none (X.patterns s a) p.2.channel && overtakes p x

variable {X} {ahead : StoredMessage → StoredMessage → Bool}
  {overtakes : TimedSend → StoredMessage → Bool}

theorem pending_send {p : TimedSend} (hX : X.Lawful) (hR : X.Ranked ahead overtakes) (hs : X.Inv s)
    (hx : x ∈ X.pending s a none) :
    x ∈ X.pending (B.send p.1 p.2 s).2 a none ∧
    X.aheadOf ahead (B.send p.1 p.2 s).2 a x =
      X.aheadOf ahead s a x + X.overtaking overtakes s a x [p] := by
  obtain ⟨m, hmsgs, hnew, hchannel, hpat, hover⟩ := hR.send p s hs
  obtain ⟨hxm, hxa, hxw⟩ := (mem_pending hX).1 hx
  constructor
  · rw [mem_pending hX, hmsgs, hpat]
    exact ⟨List.mem_append_left _ hxm, hxa, hxw⟩
  · have hperm := pending_perm (s := (B.send p.1 p.2 s).2) (a := a) hX
    rw [hmsgs, hpat, inbox, List.filter_append] at hperm
    rw [aheadOf, hperm.countP_eq, List.countP_append, aheadOf, (pending_perm hX).countP_eq, overtaking]
    congr 1
    by_cases hwant : wants none (X.patterns s a) p.2.channel = true
    · simp [StoredMessage.awaits, hnew, hchannel, hwant, hover x hxm, List.countP_singleton]
    · simp [StoredMessage.awaits, hnew, hchannel, hwant]

theorem pending_sendAll (hX : X.Lawful) (hR : X.Ranked ahead overtakes) (sends : List TimedSend)
    (hs : X.Inv s) (hx : x ∈ X.pending s a none) :
    X.Inv (B.sendAll sends s) ∧ X.patterns (B.sendAll sends s) = X.patterns s ∧
    x ∈ X.pending (B.sendAll sends s) a none ∧
    X.aheadOf ahead (B.sendAll sends s) a x =
      X.aheadOf ahead s a x + X.overtaking overtakes s a x sends := by
  induction sends generalizing s with
  | nil => exact ⟨hs, rfl, hx, rfl⟩
  | cons p sends ih =>
    obtain ⟨hx', hahead⟩ := pending_send (p := p) hX hR hs hx
    obtain ⟨m, -, -, -, hpat, -⟩ := hR.send p s hs
    obtain ⟨hinv, hpats, hmem, hcount⟩ := ih (hX.keeps (.send p.1 p.2) s hs) hx'
    refine ⟨hinv, hpats.trans hpat, hmem, ?_⟩
    have hsame : X.overtaking overtakes (B.send p.1 p.2 s).2 a x sends =
      X.overtaking overtakes s a x sends := by
      rw [overtaking, hpat]
      rfl
    have hcons : X.overtaking overtakes s a x (p :: sends) =
        X.overtaking overtakes s a x [p] + X.overtaking overtakes s a x sends := by
      rw [overtaking, overtaking, overtaking, ← List.countP_append]
      rfl
    rw [hcons, ← Nat.add_assoc, ← hahead, ← hsame]
    exact hcount

/-- A `recv` takes the front of what is pending. -/
theorem pending_recv_none (hX : X.Lawful) (hR : X.Ranked ahead overtakes) (hs : X.Inv s) (max : Int) :
    X.pending (B.recv a none max s).2 a none = (X.pending s a none).drop (X.cap max) := by
  obtain ⟨p, hp, -, hmsgs, hpat⟩ := hX.recv a none max s hs
  rw [pending, hmsgs, hpat, markDelivered_perm (hp.map _), markDelivered, hR.scan_mark,
    inbox_markWhere_self]
  exact filter_notMem_take (pending_ids_nodup (a := a) hX hs none) (X.cap max)

theorem mem_recv_ids (hX : X.Lawful) (hs : X.Inv s) (hx : x ∈ X.pending s a none) :
    x.id ∈ (B.recv a none max s).1.map (·.messageId) ↔ x ∈ (X.pending s a none).take (X.cap max) := by
  obtain ⟨p, hp, hout, -, -⟩ := hX.recv a none max s hs
  have hids : (p.map (·.toWire)).map (·.messageId) = p.map (·.id) := by
    rw [List.map_map]
    rfl
  rw [hout, hids, (hp.map _).mem_iff]
  constructor
  · intro h
    obtain ⟨y, hy, hid⟩ := List.mem_map.1 h
    exact List.inj_on_of_nodup_map (pending_ids_nodup (a := a) hX hs none)
      (List.mem_of_mem_take hy) hx hid ▸ hy
  · exact fun h => List.mem_map_of_mem h

theorem scan_pending (hR : X.Ranked ahead overtakes) (hs : X.Inv s) :
    (X.pending s a none).Pairwise (ahead · ·) :=
  (hR.scan s hs).sublist inbox_sublist

/-- A message that is pending is returned in one of the rounds exactly when the batches reach it. -/
theorem mem_recvRounds (hX : X.Lawful) (hR : X.Ranked ahead overtakes) (rounds : List (List TimedSend))
    (hs : X.Inv s) (hx : x ∈ X.pending s a none) :
    x.id ∈ (B.recvRounds a max rounds s).map (·.messageId) ↔
      Batches.place (X.cap max) (X.aheadOf ahead s a x)
        (rounds.map (X.overtaking overtakes s a x)) = none := by
  induction rounds generalizing s with
  | nil => simp [BackingStore.recvRounds, Batches.place]
  | cons sends rounds ih =>
    obtain ⟨hinv, hpat, hmem, hcount⟩ := pending_sendAll hX hR sends hs hx
    rw [BackingStore.recvRounds, List.map_append, List.mem_append, mem_recv_ids hX hinv hmem,
      Batches.mem_take_iff hR.asymm (scan_pending hR hinv) hmem, List.map_cons, Batches.place, ← hcount]
    change X.aheadOf ahead (B.sendAll sends s) a x < X.cap max ∨ _ ↔ _
    by_cases hnow : X.aheadOf ahead (B.sendAll sends s) a x < X.cap max
    · simp [hnow]
    · have hleft : x ∈ (X.pending (B.sendAll sends s) a none).drop (X.cap max) := by
        rw [← List.take_append_drop (X.cap max) (X.pending (B.sendAll sends s) a none),
          List.mem_append] at hmem
        refine hmem.resolve_left fun htake => hnow ?_
        exact (Batches.mem_take_iff hR.asymm (scan_pending hR hinv) (List.mem_of_mem_take htake)).1
          htake
      have hrest := Batches.countP_drop (scan_pending hR hinv) hleft
      have hafter := pending_recv_none (a := a) hX hR hinv max
      have hstays : X.aheadOf ahead (B.recv a none max (B.sendAll sends s)).2 a x =
          X.aheadOf ahead (B.sendAll sends s) a x - X.cap max := by
        rw [aheadOf, hafter, aheadOf, ← hrest, Nat.add_sub_cancel]
      have hsame : X.overtaking overtakes (B.recv a none max (B.sendAll sends s)).2 a x =
          X.overtaking overtakes s a x := by
        obtain ⟨-, -, -, -, hpat'⟩ := hX.recv a none max _ hinv
        funext later
        rw [overtaking, hpat', hpat]
        rfl
      have hkept : X.Inv (B.recv a none max (B.sendAll sends s)).2 := hX.keeps (.recv a none max) _ hinv
      rw [if_neg hnow, or_iff_right hnow, ih hkept (hafter ▸ hleft), hstays, hsame]

end Mailbox

/-! ### The two stores -/

/-- In the order of the sends. -/
def earlier (m n : StoredMessage) : Bool := decide (m.id < n.id)

/-- In the order of the SQLite store's scan. -/
def scannedBefore (m n : StoredMessage) : Bool := decide (m.Before n) && decide (m.id ≠ n.id)

/-- The send is scanned before the message, although it comes later. -/
def sortsBefore (p : TimedSend) (x : StoredMessage) : Bool :=
  decide (p.2.channel < x.channel) || (decide (p.2.channel = x.channel) && decide (p.1 < x.sentAt))

theorem MemoryStore.ranked : MemoryStore.mailbox.Ranked earlier fun _ _ => false where
  asymm m n h := by
    simp only [earlier, decide_eq_true_eq, decide_eq_false_iff_not] at h ⊢
    omega
  scan s hs := by
    have hids := MemoryStore.mailbox_lawful.ids s hs
    exact (List.pairwise_map.1 hids).imp fun h => decide_eq_true h
  scan_mark := MemoryStore.sorts.scan_mark
  send p s hs := by
    obtain ⟨m, hmsgs, hids, hnew, hpat⟩ := MemoryStore.mailbox_lawful.send p.1 p.2 s hs
    have hm : m = s.nextMessage p.1 p.2 := by
      have hlast : MemoryStore.mailbox.messages (memoryStore.send p.1 p.2 s).2 =
        MemoryStore.mailbox.messages s ++ [s.nextMessage p.1 p.2] := rfl
      rw [hlast] at hmsgs
      exact (List.singleton_inj.1 (List.append_cancel_left hmsgs)).symm
    refine ⟨m, hmsgs, hnew, by rw [hm]; rfl, hpat, fun n hn => ?_⟩
    have hlt := hids n hn
    simp only [earlier, decide_eq_false_iff_not]
    omega

theorem SqliteStore.ranked : SqliteStore.mailbox.Ranked scannedBefore sortsBefore where
  asymm m n h := by
    simp only [scannedBefore, Bool.and_eq_true, decide_eq_true_eq] at h
    by_contra hnm
    simp only [scannedBefore, Bool.not_eq_false, Bool.and_eq_true, decide_eq_true_eq] at hnm
    have hkey : m.key = n.key :=
      le_antisymm (StoredMessage.before_iff.1 h.1) (StoredMessage.before_iff.1 hnm.1)
    exact h.2 (congrArg (fun k => (ofLex (ofLex k).2).2) hkey)
  scan s hs := by
    have hids := (SqliteStore.mailbox_lawful.ids s hs).imp Nat.ne_of_lt
    have hnd : ((sortMessages s.db.messages).map (·.id)).Nodup :=
      (((sortMessages_perm _).map _).nodup_iff).2 hids
    refine ((List.pairwise_insertionSort StoredMessage.Before s.db.messages).and
      (List.pairwise_map.1 hnd)).imp ?_
    intro m n h
    simp [scannedBefore, h.1, h.2]
  scan_mark := SqliteStore.sorts.scan_mark
  send p s hs := by
    obtain ⟨m, hmsgs, hids, hnew, hpat⟩ := SqliteStore.mailbox_lawful.send p.1 p.2 s hs
    have hm : m = s.db.newRow p.1 p.2 (s.db.nextSeq p.2.channel) := by
      have hlast : SqliteStore.mailbox.messages (sqliteStore.send p.1 p.2 s).2 =
        SqliteStore.mailbox.messages s ++ [s.db.newRow p.1 p.2 (s.db.nextSeq p.2.channel)] := rfl
      rw [hlast] at hmsgs
      exact (List.singleton_inj.1 (List.append_cancel_left hmsgs)).symm
    refine ⟨m, hmsgs, hnew, by rw [hm]; rfl, hpat, fun n hn => ?_⟩
    have hlt := hids n hn
    have hchannel : m.channel = p.2.channel := by rw [hm]; rfl
    have htime : m.sentAt = p.1 := by rw [hm]; rfl
    have hnot : ¬m.id ≤ n.id := by omega
    have hne : m.id ≠ n.id := by omega
    simp [scannedBefore, sortsBefore, StoredMessage.Before, hchannel, htime, hnot, hne, Bool.decide_or]

/-- Some batch reaches the message: what was ahead of it, and what came in ahead of it until then, leave
room in the batches so far. -/
def Mailbox.Reaches {σ : Type} {B : BackingStore σ} (X : Mailbox B)
    (ahead : StoredMessage → StoredMessage → Bool) (overtakes : TimedSend → StoredMessage → Bool) (s : σ)
    (a : AgentId) (max : Int) (rounds : List (List TimedSend)) (x : StoredMessage) : Prop :=
  ∃ j < rounds.length,
    X.aheadOf ahead s a x + ((rounds.take (j + 1)).map (X.overtaking overtakes s a x)).sum <
      (j + 1) * max.toNat

/-- In as many calls as the pending messages sent before it ask for, the memory store returns a pending
message whatever else arrives, and the SQLite store exactly if a batch reaches it in the order of the
channels. -/
theorem bounded_recv_iff (ops : List StoreOp) (a : AgentId) (max : Int) (hmax : 1 ≤ max)
    (rounds : List (List TimedSend)) (x : StoredMessage) :
    (x ∈ MemoryStore.mailbox.pending (memoryStore.applyAll ops .init) a none →
      rounds.length =
        MemoryStore.mailbox.aheadOf earlier (memoryStore.applyAll ops .init) a x / max.toNat + 1 →
      x.id ∈ (memoryStore.recvRounds a max rounds (memoryStore.applyAll ops .init)).map (·.messageId)) ∧
    (x ∈ SqliteStore.mailbox.pending (sqliteStore.applyAll ops .init) a none →
      rounds.length =
        SqliteStore.mailbox.aheadOf earlier (sqliteStore.applyAll ops .init) a x / max.toNat + 1 →
      (x.id ∈ (sqliteStore.recvRounds a max rounds (sqliteStore.applyAll ops .init)).map (·.messageId) ↔
        SqliteStore.mailbox.Reaches scannedBefore sortsBefore (sqliteStore.applyAll ops .init) a max
          rounds x)) := by
  constructor
  · intro hx hrounds
    refine (Mailbox.mem_recvRounds MemoryStore.mailbox_lawful MemoryStore.ranked rounds
      (MemoryStore.Inv.reachable ops) hx).2 (Batches.place_quiet ?_ ?_ ?_)
    · show 0 < max.toNat
      omega
    · intro n hn
      obtain ⟨sends, -, rfl⟩ := List.mem_map.1 hn
      simp [Mailbox.overtaking]
    · rw [List.length_map, hrounds]
      exact Nat.lt_succ_self _
  · intro hx _
    have hcap : SqliteStore.mailbox.cap max = max.toNat := Nat.max_eq_left (by omega)
    rw [Mailbox.mem_recvRounds SqliteStore.mailbox_lawful SqliteStore.ranked rounds
      (SqliteStore.inv_reachable ops) hx,
      Batches.place_eq_none_iff, hcap, List.length_map]
    simp only [← List.map_take]
    exact Iff.rfl

def bobFollowsAll : List StoreOp :=
  [.subscribe "bob" "*", .send 1 { channel := "b", sender := "alice", body := .empty }]

/-- What the second operation sent. -/
def firstOnB : StoredMessage where
  id := 1
  channel := "b"
  sender := "alice"
  body := .empty
  correlationId := none
  sentAt := 1
  seq := 1
  replyTo := none

theorem bounded_recv_iff_bob :
    firstOnB.id ∈ (memoryStore.recvRounds "bob" 1 [[]] (memoryStore.applyAll bobFollowsAll .init)).map
      (·.messageId) ∧
    (firstOnB.id ∈ (sqliteStore.recvRounds "bob" 1 [[]] (sqliteStore.applyAll bobFollowsAll .init)).map
      (·.messageId) ↔
      SqliteStore.mailbox.Reaches scannedBefore sortsBefore (sqliteStore.applyAll bobFollowsAll .init)
        "bob" 1 [[]]
        firstOnB) := by
  obtain ⟨hmemory, hsqlite⟩ := bounded_recv_iff bobFollowsAll "bob" 1 (by decide) [[]] firstOnB
  have hm : MemoryStore.mailbox.pending (memoryStore.applyAll bobFollowsAll .init) "bob" none =
    [firstOnB] := rfl
  have hs : SqliteStore.mailbox.pending (sqliteStore.applyAll bobFollowsAll .init) "bob" none =
    [firstOnB] := rfl
  exact ⟨hmemory (by simp [hm]) (by decide), hsqlite (by simp [hs]) (by decide)⟩

/-- The readings of the clock by the sends of operations. -/
def StoreOp.sendTimes : StoreOp → List ℚ
  | .send now _ => [now]
  | .heartbeat _ sendNow _ _ _ => [sendNow]
  | _ => []

/-- With batches of one, what arrives on `a` keeps the message on `b` from being returned first. -/
theorem sqlite_recv_starves :
    ¬∀ (ops : List StoreOp) (a : AgentId) (max : Int) (rounds : List (List TimedSend))
      (x : StoredMessage), 1 ≤ max →
      (ops.flatMap StoreOp.sendTimes ++ rounds.flatten.map Prod.fst).Pairwise (· < ·) →
      x ∈ SqliteStore.mailbox.pending (sqliteStore.applyAll ops .init) a none →
      rounds.length =
        SqliteStore.mailbox.aheadOf earlier (sqliteStore.applyAll ops .init) a x / max.toNat + 1 →
      x.id ∈
        (sqliteStore.recvRounds a max rounds (sqliteStore.applyAll ops .init)).map (·.messageId) := by
  intro h
  have hpending : SqliteStore.mailbox.pending (sqliteStore.applyAll bobFollowsAll .init) "bob" none =
    [firstOnB] := rfl
  have hreturned :=
    h bobFollowsAll "bob" 1 [[(2, { channel := "a", sender := "alice", body := .empty })]] firstOnB
    (by decide) (by decide) (by simp [hpending]) (by decide)
  exact absurd hreturned (by decide)

end Sox
