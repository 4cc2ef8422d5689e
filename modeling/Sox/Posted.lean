import Sox.MemoryInv
import Sox.SqliteInv

/-!
# What an operation adds to the messages

The message that an operation stores comes last, and the other messages keep everything that is on the
wire (`Appends`). Nothing is ever taken away.
-/

namespace Sox

/-- The channel and the time of the message that the operation stores; the memory store stamps the
presence message with the first of the two readings, the others with the second. -/
def StoreOp.posts (reading : ℚ → ℚ → ℚ) : StoreOp → Option (Channel × ℚ)
  | .send now args => some (args.channel, now)
  | .heartbeat now sendNow _ _ _ => some (presenceChannel, reading now sendNow)
  | _ => none

/-- The message that the operation stores, at the second of the two readings. -/
def StoreOp.sends : StoreOp → Option (ℚ × SendArgs)
  | .send now args => some (now, args)
  | .heartbeat now sendNow a status _ => some (sendNow, presenceArgs a status now)
  | _ => none

def wires (l : List StoredMessage) : List Message := l.map (·.toWire)

def Appends (posted : Option (Channel × ℚ)) (l l' : List StoredMessage) : Prop :=
  ∃ new : Option Message, wires l' = wires l ++ new.toList ∧ new.map (fun m => (m.channel, m.sentAt)) = posted

section
variable {l : List StoredMessage} {m : StoredMessage} {a : AgentId}

theorem appends_message : Appends (some (m.channel, m.sentAt)) l (l ++ [m]) :=
  ⟨some m.toWire, List.map_append, rfl⟩

theorem appends_markWhere (sel : StoredMessage → Bool) : Appends none l (markWhere a sel l) := by
  refine ⟨none, ?_, rfl⟩
  rw [Option.toList_none, List.append_nil]
  exact map_markWhere _ (by simp)

theorem appends_none : Appends none l l := ⟨none, (List.append_nil _).symm, rfl⟩

end

/-- The presence message has the time of the liveness record. -/
theorem MemoryStore.appends_apply (op : StoreOp) (s : MemoryStore) :
    Appends (op.posts fun now _ => now) s.messages (memoryStore.apply op s).messages := by
  cases op with
  | send now args => exact appends_message
  | heartbeat now sendNow a status ttl => exact appends_message
  | recv a channels max =>
    show Appends none s.messages (s.recv a channels max).2.messages
    rw [recv_eq]
    exact appends_markWhere _
  | unsubscribe a ps =>
    show Appends none s.messages (s.unsubscribe a ps).2.messages
    rw [unsubscribe_eq]
    exact appends_markWhere _
  | groupInvite now a g b =>
    show Appends none s.messages (s.groupInvite now a g b).2.messages
    rw [groupInvite]
    split <;> exact appends_none
  | subscribe | ack | groupCreate | groupJoin | groupLeave => exact appends_none

/-- The presence message has a time of its own. -/
theorem SqliteStore.appends_apply (op : StoreOp) {s : SqliteStore} (h : s.db.Inv) :
    Appends (op.posts fun _ sendNow => sendNow) s.db.messages (sqliteStore.apply op s).db.messages := by
  have hinsert (a : AgentId) (p : Pattern) :
      Appends none s.db.messages (s.db.insertSubscription a p).messages := by
    rw [SqliteDb.insertSubscription_messages]
    exact appends_none
  cases op with
  | send now args => exact appends_message
  | heartbeat now sendNow a status ttl => exact appends_message
  | recv a channels max =>
    show Appends none s.db.messages (s.db.recv a channels max).2.messages
    rw [SqliteDb.recv_eq h.ids_nodup]
    exact appends_markWhere _
  | unsubscribe a ps =>
    show Appends none s.db.messages (s.db.unsubscribe a ps).2.messages
    rw [SqliteDb.unsubscribe_eq h.ids_nodup]
    exact appends_markWhere _
  | groupInvite now a g b =>
    show Appends none s.db.messages (s.groupInvite now a g b).2.db.messages
    rw [groupInvite]
    split <;> exact appends_none
  | subscribe a p => exact hinsert a p
  | groupCreate now a gid => exact hinsert a _
  | groupJoin now a g => exact hinsert a g
  | ack | groupLeave => exact appends_none

end Sox
