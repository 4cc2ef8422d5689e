import Sox.SqliteInv
import Sox.Lib.Select

/-!
# `channels recv` on the command line

Without `--channel` the command hands the agent's patterns to the store as a list of channels.
`cmdRecv_eq_recv_iff` says when this drains what the store's own `recv` without channels drains: a
pattern is then compared with a channel's name, not matched against it.
-/

namespace Sox

namespace ChannelsCli

/-- What the command prints. -/
inductive RecvOutput where
  | noSubscriptions
  | drained (agentId : AgentId) (messages : List Message)

/-- `"messages"`; without subscriptions there is a note beside it. -/
def RecvOutput.messages : RecvOutput → List Message
  | .noSubscriptions => []
  | .drained _ messages => messages

def RecvOutput.note : RecvOutput → Option String
  | .noSubscriptions => some "no subscriptions found"
  | .drained .. => none

/-- `channel` holds the `--channel` arguments. -/
def cmdRecv (agentId : AgentId) (channel : List Channel) (max : Int) (db : SqliteDb) :
    RecvOutput × SqliteDb :=
  let channels := if channel.isEmpty then db.patternsFor agentId else channel
  if channels.isEmpty then (.noSubscriptions, db)
  else
    let (messages, db) := db.recv agentId (some channels) max
    (.drained agentId messages, db)

/-- The rows not yet delivered to the agent, as `recv` scans them. -/
def undelivered (agentId : AgentId) (db : SqliteDb) : List StoredMessage :=
  (sortMessages db.messages).filter fun m => decide (agentId ∉ m.deliveredTo)

/-- A pattern of the agent matches the channel. -/
def matched (agentId : AgentId) (db : SqliteDb) (channel : Channel) : Bool :=
  (db.patternsFor agentId).any (Glob.fnmatchcase channel)

/-- On the channel of every row that is scanned before `max` are taken, a pattern matches exactly when
one is the channel's name. -/
def NamesSuffice (agentId : AgentId) (max : Int) (db : SqliteDb) : Prop :=
  ∀ before row after, undelivered agentId db = before ++ row :: after →
    ((before.filter fun m => matched agentId db m.channel).length : Int) < max →
    (matched agentId db row.channel = true ↔ row.channel ∈ db.patternsFor agentId)

variable {agentId : AgentId} {max : Int} {db : SqliteDb}

theorem inbox_sorted (want : Channel → Bool) :
    inbox want agentId (sortMessages db.messages) = (undelivered agentId db).filter fun m =>
      want m.channel := by
  rw [inbox, undelivered, List.filter_filter]
  exact List.filter_congr fun m _ => Bool.and_comm _ _

/-- The rows that each of the two ways takes, seen through what tells their channels. -/
theorem rows_eq_iff {β : Type} {f : StoredMessage → β} (hf : ∀ m n, f m = f n → m.channel = n.channel)
    (hmax : 1 ≤ max) :
    ((SqliteDb.eligibleRows agentId (some (db.patternsFor agentId)) [] max
      (sortMessages db.messages)).map f =
      (SqliteDb.eligibleRows agentId none (db.patternsFor agentId) max
        (sortMessages db.messages)).map f) ↔
    NamesSuffice agentId max db := by
  have hone : Nat.max max.toNat 1 = max.toNat := Nat.max_eq_left (by omega)
  rw [SqliteDb.eligibleRows_eq, SqliteDb.eligibleRows_eq, inbox_sorted, inbox_sorted, hone, eq_comm]
  refine (Select.map_select_eq_iff (fun m n h => by rw [hf m n h])
    (fun m n h => by rw [hf m n h])).trans ?_
  refine forall_congr' fun before => forall_congr' fun row => forall_congr' fun after => ?_
  refine imp_congr Iff.rfl (imp_congr ?_ ?_)
  · show (before.filter fun m => matched agentId db m.channel).length < max.toNat ↔ _
    omega
  · show matched agentId db row.channel = (db.patternsFor agentId).contains row.channel ↔ _
    rw [Bool.eq_iff_iff, List.contains_iff_mem]

/-- The command returns and marks what `recv` without channels would exactly when the patterns' own
names suffice. -/
theorem cmdRecv_eq_recv_iff (agentId : AgentId) (max : Int) (db : SqliteDb) (hmax : 1 ≤ max) :
    ((cmdRecv agentId [] max db).1.messages, (cmdRecv agentId [] max db).2) = db.recv agentId none max ↔
      NamesSuffice agentId max db := by
  by_cases hpatterns : db.patternsFor agentId = []
  · have hcmd : cmdRecv agentId [] max db = (.noSubscriptions, db) := by simp [cmdRecv, hpatterns]
    have hrecv : db.recv agentId none max = ([], db) := by simp [SqliteDb.recv, hpatterns]
    rw [hcmd, hrecv]
    refine iff_of_true rfl fun before row after _ _ => ?_
    simp [matched, hpatterns]
  · have hcmd : cmdRecv agentId [] max db =
        (.drained agentId (db.recv agentId (some (db.patternsFor agentId)) max).1,
          (db.recv agentId (some (db.patternsFor agentId)) max).2) := by
      simp [cmdRecv, hpatterns]
    rw [hcmd]
    have hlisted : db.recv agentId (some (db.patternsFor agentId)) max =
        ((SqliteDb.eligibleRows agentId (some (db.patternsFor agentId)) [] max
            (sortMessages db.messages)).map (·.toWire),
          (SqliteDb.eligibleRows agentId (some (db.patternsFor agentId)) [] max
            (sortMessages db.messages)).foldl (SqliteDb.markRow agentId) db) := by
      simp [SqliteDb.recv]
    have hmatched : db.recv agentId none max =
        ((SqliteDb.eligibleRows agentId none (db.patternsFor agentId) max
            (sortMessages db.messages)).map (·.toWire),
          (SqliteDb.eligibleRows agentId none (db.patternsFor agentId) max
            (sortMessages db.messages)).foldl (SqliteDb.markRow agentId) db) := by
      simp [SqliteDb.recv, hpatterns]
    rw [hlisted, hmatched]
    constructor
    · intro h
      exact (rows_eq_iff (fun m n h => congrArg Message.channel h) hmax).1 (Prod.mk.inj h).1
    · intro h
      have hrows := (rows_eq_iff (f := id) (fun m n h => by rw [id_eq, id_eq] at h; rw [h]) hmax).2 h
      rw [List.map_id, List.map_id] at hrows
      rw [hrows]
      rfl

def engMessage : StoredMessage where
  id := 1
  channel := "team/eng"
  sender := "alice"
  body := .empty
  correlationId := none
  sentAt := 1
  seq := 1
  replyTo := none

/-- bob follows `team/*`, and there is a message on `team/eng`. -/
def globDb : SqliteDb where
  messages := [engMessage]
  autoincrement := 1
  subscriptions := [("bob", "team/*")]

theorem cmdRecv_eq_recv_iff_bob :
    ((cmdRecv "bob" [] 50 globDb).1.messages, (cmdRecv "bob" [] 50 globDb).2) =
      globDb.recv "bob" none 50 ↔
      NamesSuffice "bob" 50 globDb :=
  cmdRecv_eq_recv_iff "bob" 50 globDb (by decide)

/-- No channel is called `team/*`, so the command drains nothing. -/
theorem cmdRecv_misses_glob :
    ¬∀ (agentId : AgentId) (max : Int) (db : SqliteDb), 1 ≤ max →
      ((cmdRecv agentId [] max db).1.messages, (cmdRecv agentId [] max db).2) =
        db.recv agentId none max := by
  intro h
  have hmessages := congrArg (fun r => r.1.length) (h "bob" 50 globDb (by decide))
  exact absurd hmessages (by decide)

end ChannelsCli

end Sox
