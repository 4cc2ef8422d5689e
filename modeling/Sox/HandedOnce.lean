import Sox.Listener

/-!
# What the agent's tools return

One lifetime of the MCP server: to the steps of the receive path come a store error, after which the
listener starts a new `watch`, and `channels__collect`, which answers with a `recv` of the store. The
new watch starts above what is marked delivered, which what is still in the queue is not; and a
collected message may be in the queue already. `held` is everything that was returned or will be, and
a run returns nothing twice, however the agent drains it afterwards, exactly when no poll and no
collect takes what is held (`Fresh`).
-/

namespace Sox

namespace Server

/-- The steps over a lifetime of the server. -/
inductive LifeAction where
  | act (act : Action)
  /-- The watch has ended with an error; `_run` calls `watch` again. -/
  | restart
  | collect (replyTo : Channel) (count : Int)

variable {σ : Type}

/-- A collect is one step, although SQLite marks message by message: it holds the lock of `recv` and
has selected what it returns before the first mark. To it, what is sent in between is sent later; a
poll in between yields what one after it would, or else a message that the collect returns, which the
poll before it yields too. -/
def lifeStep (B : BackingStore σ) (a : AgentId) (sv : Server σ) : LifeAction → Option (Server σ)
  | .act act => step B a sv act
  | .restart => some { sv with lastSeenId := B.watchStart a sv.store }
  | .collect replyTo count =>
    let (messages, store) := B.recv a (some [replyTo]) count sv.store
    some { sv with store, returned := sv.returned ++ messages }

def lifetime (B : BackingStore σ) (a : AgentId) : ActionSystem (Server σ) LifeAction := ⟨lifeStep B a⟩

/-- The ids of the messages returned, in the hands of a call, or in the queue. -/
def held (sv : Server σ) : List Nat :=
  (sv.returned ++ sv.calls.flatMap (·.buffered) ++ sv.queue).map (·.messageId)

def returnedIds (sv : Server σ) : List Nat := sv.returned.map (·.messageId)

variable {B : BackingStore σ} (X : Mailbox B) (a : AgentId)

/-- A poll yields, and a collect takes, nothing that is held. -/
def Fresh (sv : Server σ) : LifeAction → Prop
  | .act .poll => ∀ m ∈ X.unseen sv.store a sv.lastSeenId, m.id ∉ sv.held
  | .collect replyTo count =>
    ∀ m ∈ (X.pending sv.store a (some [replyTo])).take (X.cap count), m.id ∉ sv.held
  | _ => True

/-- The steps of `channels__recv`. -/
def IsRecv : LifeAction → Prop
  | .act (.recvDrain ..) => True
  | .act (.recvDispatch _) => True
  | _ => False

instance (sv : Server σ) (act : LifeAction) : Decidable (Fresh X a sv act) := by
  unfold Fresh
  split <;> infer_instance

variable {X a} {sv sv' : Server σ} {act : LifeAction} {s₀ : σ}

/-! ### The steps -/

theorem filterChannels_perm (channels : Option (List Channel)) (l : List Message) :
    ((filterChannels channels l).1 ++ (filterChannels channels l).2).Perm l := by
  cases channels with
  | none => exact .of_eq (List.append_nil l)
  | some cs =>
    have hperm : (l.filter (fun m => cs.contains m.channel) ++
        (l.filter fun m => !cs.contains m.channel)).Perm l :=
      List.filter_append_perm _ l
    exact (List.Perm.append_left _ (List.reverse_perm _)).trans hperm

/-- The drain of a call moves messages from the queue to the call. -/
theorem held_recvDrain (channels : Option (List Channel)) (max : Int) (includeMeta : Bool)
    (hstep : lifeStep B a sv (.act (.recvDrain channels max includeMeta)) = some sv') :
    sv'.held.Perm sv.held := by
  simp only [lifeStep, step, drain_eq, List.nil_append, List.length_nil, Nat.sub_zero, Option.some.injEq] at hstep
  subst hstep
  have hfilter := (filterChannels_perm channels (sv.queue.take max.toNat)).map (·.messageId)
  have hstrip : ((filterChannels channels (sv.queue.take max.toNat)).1.map (stripMeta includeMeta)).map
      (·.messageId) = (filterChannels channels (sv.queue.take max.toNat)).1.map (·.messageId) := by
    rw [List.map_map]
    exact List.map_congr_left fun m _ => stripMeta_messageId includeMeta m
  have hqueue : sv.queue.map (·.messageId) = (sv.queue.take max.toNat).map (·.messageId) ++
      (sv.queue.drop max.toNat).map (·.messageId) := by
    rw [← List.map_append, List.take_append_drop]
  simp only [held, List.flatMap_append, List.flatMap_singleton, List.map_append, hstrip, hqueue,
    List.append_assoc] at hfilter ⊢
  refine List.Perm.append_left _ (List.Perm.append_left _ ?_)
  -- what was kept, what is left, what went back: the last two change places
  refine (List.Perm.append_left _ List.perm_append_comm).trans ?_
  rw [← List.append_assoc]
  exact hfilter.append_right _

theorem flatMap_eraseIdx {call : RecvCall} {i : Nat} {calls : List RecvCall}
    (hcall : calls[i]? = some call) :
    (call.buffered ++ (calls.eraseIdx i).flatMap (·.buffered)).Perm (calls.flatMap (·.buffered)) := by
  induction calls generalizing i with
  | nil => cases hcall
  | cons c calls ih =>
    cases i with
    | zero =>
      obtain rfl : c = call := by simpa using hcall
      exact .refl _
    | succ i =>
      rw [List.getElem?_cons_succ] at hcall
      simp only [List.eraseIdx_cons_succ, List.flatMap_cons]
      refine List.perm_append_comm_assoc _ _ _ |>.trans ?_
      exact List.Perm.append_left _ (ih hcall)

/-- The dispatch moves what the call holds to the agent. -/
theorem held_recvDispatch {i : Nat} (hstep : lifeStep B a sv (.act (.recvDispatch i)) = some sv') :
    sv'.held.Perm sv.held := by
  simp only [lifeStep, step] at hstep
  split at hstep
  · cases hstep
  · rename_i call hcall
    cases hstep
    have hcalls := flatMap_eraseIdx hcall
    refine List.Perm.map _ (List.Perm.append_right _ ?_)
    rw [List.append_assoc]
    exact List.Perm.append_left _ hcalls

theorem held_isRecv (hact : IsRecv act) (hstep : lifeStep B a sv act = some sv') :
    sv'.held.Perm sv.held := by
  unfold IsRecv at hact
  split at hact
  · exact held_recvDrain _ _ _ hstep
  · exact held_recvDispatch hstep
  · exact hact.elim

theorem held_poll (hX : X.Lawful) (hstep : lifeStep B a sv (.act .poll) = some sv') :
    sv'.held.Perm (sv.held ++ (X.unseen sv.store a sv.lastSeenId).map (·.id)) := by
  obtain ⟨p, hp, hmsgs, -⟩ := hX.watchPoll a sv.lastSeenId sv.store
  simp only [lifeStep, step, Option.some.injEq] at hstep
  subst hstep
  have hids : (p.map (·.toWire)).map (·.messageId) = p.map (·.id) := by simp
  simp only [held, hmsgs, List.map_append, hids]
  rw [← List.append_assoc]
  exact List.Perm.append_left _ (hp.map _)

theorem held_collect (hX : X.Lawful) (hs : X.Inv sv.store) {replyTo : Channel} {count : Int}
    (hstep : lifeStep B a sv (.collect replyTo count) = some sv') :
    sv'.held.Perm
      (sv.held ++ ((X.pending sv.store a (some [replyTo])).take (X.cap count)).map (·.id)) := by
  obtain ⟨p, hp, hmsgs, -, -⟩ := hX.recv a (some [replyTo]) count sv.store hs
  simp only [lifeStep, Option.some.injEq] at hstep
  subst hstep
  have hids : (p.map (·.toWire)).map (·.messageId) = p.map (·.id) := by simp
  simp only [held, hmsgs, List.map_append, hids, List.append_assoc]
  refine List.Perm.append_left _ ?_
  refine List.perm_append_comm.trans ?_
  rw [List.append_assoc]
  exact List.Perm.append_left _ (List.Perm.append_left _ (hp.map _))

theorem store_inv (hX : X.Lawful) (hs : X.Inv sv.store) (hstep : lifeStep B a sv act = some sv') :
    X.Inv sv'.store := by
  cases act with
  | restart => cases hstep; exact hs
  | collect replyTo count =>
    cases hstep
    exact hX.keeps (.recv a (some [replyTo]) count) sv.store hs
  | act act =>
    cases act with
    | send now args => cases hstep; exact hX.keeps (.send now args) sv.store hs
    | poll => cases hstep; exact hs
    | recvDrain channels max includeMeta => cases hstep; exact hs
    | recvDispatch i =>
      simp only [lifeStep, step] at hstep
      split at hstep
      · cases hstep
      · rename_i call _
        cases hstep
        exact hX.keeps (.recv a call.channels call.maxMessages) sv.store hs

/-- Adding fresh ids to a list without repetition. -/
theorem nodup_append_iff {l l' : List Nat} {p : List StoredMessage} (hl : l.Nodup)
    (hp : (p.map (·.id)).Nodup) (hperm : l'.Perm (l ++ p.map (·.id))) :
    (∀ m ∈ p, m.id ∉ l) ↔ l'.Nodup := by
  rw [hperm.nodup_iff, List.nodup_append]
  constructor
  · intro h
    refine ⟨hl, hp, ?_⟩
    rintro i hi j hj rfl
    obtain ⟨m, hm, rfl⟩ := List.mem_map.1 hj
    exact h m hm hi
  · rintro ⟨-, -, hdisj⟩ m hm hi
    exact hdisj _ hi _ (List.mem_map_of_mem hm) rfl

/-- A step repeats nothing that is held exactly when it is fresh. -/
theorem step_held_iff (hX : X.Lawful) (hs : X.Inv sv.store) (hnd : sv.held.Nodup)
    (hstep : lifeStep B a sv act = some sv') :
    X.Inv sv'.store ∧ (Fresh X a sv act ↔ sv'.held.Nodup) := by
  refine ⟨store_inv hX hs hstep, ?_⟩
  have hids : ((X.messages sv.store).map (·.id)).Nodup := (hX.ids _ hs).imp Nat.ne_of_lt
  cases act with
  | restart =>
    cases hstep
    exact iff_of_true trivial hnd
  | collect replyTo count =>
    have hscan : ((X.scan (X.messages sv.store)).map (·.id)).Nodup :=
      (((hX.scan_perm _).map _).nodup_iff).2 hids
    have htaken : (((X.pending sv.store a (some [replyTo])).take (X.cap count)).map (·.id)).Nodup :=
      (inbox_ids_nodup hscan).sublist ((List.take_sublist ..).map _)
    exact nodup_append_iff hnd htaken (held_collect hX hs hstep)
  | act act =>
    cases act with
    | send now args =>
      cases hstep
      exact iff_of_true trivial hnd
    | poll =>
      have hunseen : ((X.unseen sv.store a sv.lastSeenId).map (·.id)).Nodup :=
        hids.sublist (List.filter_sublist.map _)
      exact nodup_append_iff hnd hunseen (held_poll hX hstep)
    | recvDrain channels max includeMeta =>
      have hperm := held_recvDrain channels max includeMeta hstep
      exact iff_of_true trivial (hperm.nodup_iff.2 hnd)
    | recvDispatch i =>
      have hperm := held_recvDispatch hstep
      exact iff_of_true trivial (hperm.nodup_iff.2 hnd)

/-! ### Draining -/

theorem run_isRecv {cs : List LifeAction} {t : Server σ} (hcs : ∀ act ∈ cs, IsRecv act)
    (hr : (lifetime B a).run sv cs = some t) : t.held.Perm sv.held := by
  induction cs generalizing sv with
  | nil => cases hr; exact .refl _
  | cons act cs ih =>
    obtain ⟨u, hu, hr⟩ := ActionSystem.run_cons.1 hr
    have hstep := held_isRecv (hcs act List.mem_cons_self) hu
    exact (ih (fun c hc => hcs c (List.mem_cons_of_mem _ hc)) hr).trans hstep

theorem returnedIds_sublist (sv : Server σ) : sv.returnedIds.Sublist sv.held := by
  rw [held, List.append_assoc]
  exact (List.sublist_append_left ..).map _

/-- The calls in progress end one after another. -/
theorem exists_calls_done (B : BackingStore σ) (a : AgentId) (sv : Server σ) :
    ∃ cs t, (∀ act ∈ cs, IsRecv act) ∧ (lifetime B a).run sv cs = some t ∧ t.calls = [] := by
  obtain ⟨n, hn⟩ : ∃ n, sv.calls.length = n := ⟨_, rfl⟩
  induction n generalizing sv with
  | zero => exact ⟨[], sv, by simp, rfl, List.length_eq_zero_iff.1 hn⟩
  | succ n ih =>
    obtain ⟨call, calls, hcalls⟩ := List.exists_cons_of_length_eq_add_one hn
    obtain ⟨u, hu, hlen⟩ : ∃ u, lifeStep B a sv (.act (.recvDispatch 0)) = some u ∧
        u.calls.length = n := by
      refine ⟨_, by simp only [lifeStep, step, hcalls, List.getElem?_cons_zero]; rfl, ?_⟩
      rw [hcalls, List.length_cons] at hn
      simp only [List.eraseIdx_cons_zero]
      omega
    obtain ⟨cs, t, hcs, hr, ht⟩ := ih u hlen
    refine ⟨.act (.recvDispatch 0) :: cs, t, ?_, ActionSystem.run_cons.2 ⟨u, hu, hr⟩, ht⟩
    intro act hact
    rcases List.mem_cons.1 hact with rfl | hact
    · trivial
    · exact hcs act hact

/-- From every state the agent can be given everything held, by calls of `channels__recv`. -/
theorem exists_drained (B : BackingStore σ) (a : AgentId) (sv : Server σ) :
    ∃ cs t, (∀ act ∈ cs, IsRecv act) ∧ (lifetime B a).run sv cs = some t ∧
      t.returnedIds.Perm sv.held := by
  obtain ⟨cs, u, hcs, hr, hu⟩ := exists_calls_done B a sv
  -- one more call takes the whole queue
  obtain ⟨v, hv⟩ : ∃ v, lifeStep B a u (.act (.recvDrain none u.queue.length true)) = some v := ⟨_, rfl⟩
  obtain ⟨hvcalls, hvqueue⟩ : v.calls.length = 1 ∧ v.queue = [] := by
    simp only [lifeStep, step, drain_eq, hu, filterChannels, Option.some.injEq] at hv
    subst hv
    simp
  obtain ⟨call, calls, hcall⟩ := List.exists_cons_of_length_eq_add_one hvcalls
  obtain rfl : calls = [] := by
    rw [hcall, List.length_cons] at hvcalls
    exact List.length_eq_zero_iff.1 (by omega)
  obtain ⟨t, ht, htcalls, htqueue⟩ : ∃ t, lifeStep B a v (.act (.recvDispatch 0)) = some t ∧
      t.calls = [] ∧ t.queue = [] := by
    simp only [lifeStep, step, hcall, List.getElem?_cons_zero]
    exact ⟨_, rfl, rfl, hvqueue⟩
  have hlast : (lifetime B a).run u
      [.act (.recvDrain none u.queue.length true), .act (.recvDispatch 0)] = some t :=
    ActionSystem.run_cons.2 ⟨v, hv, ActionSystem.run_cons.2 ⟨t, ht, rfl⟩⟩
  have hrun := ActionSystem.run_append.2 ⟨u, hr, hlast⟩
  have hall : ∀ act ∈ cs ++ [.act (.recvDrain none u.queue.length true), .act (.recvDispatch 0)],
      IsRecv act := by
    intro act hact
    rcases List.mem_append.1 hact with hact | hact
    · exact hcs act hact
    · rcases List.mem_cons.1 hact with rfl | hact
      · trivial
      · rw [List.mem_singleton.1 hact]
        trivial
  refine ⟨_, t, hall, hrun, ?_⟩
  have hperm := run_isRecv hall hrun
  rwa [held, htcalls, htqueue, List.flatMap_nil, List.append_nil, List.append_nil] at hperm

/-! ### Runs -/

/-- No tool returns a message twice, in the run and however the agent drains the server from any point
of it, exactly when the steps of the run are fresh. -/
theorem run_returned_nodup_iff (hX : X.Lawful) (hs : X.Inv s₀) {as : List LifeAction}
    (hr : (lifetime B a).run (start B a s₀) as = some sv) :
    (lifetime B a).Guarded (Fresh X a) (start B a s₀) as ↔
      ∀ bs u, bs <+: as → (lifetime B a).run (start B a s₀) bs = some u →
        ∀ cs t, (∀ act ∈ cs, IsRecv act) → (lifetime B a).run u cs = some t → t.returnedIds.Nodup := by
  have hnone : (start B a s₀).held.Nodup := List.nodup_nil
  have hheld : (lifetime B a).Guarded (Fresh X a) (start B a s₀) as ↔
      ∀ bs u, bs <+: as → (lifetime B a).run (start B a s₀) bs = some u → u.held.Nodup :=
    ActionSystem.guarded_iff (I := fun sv : Server σ => X.Inv sv.store)
      (fun _ _ _ hI hnd hstep => step_held_iff hX hI hnd hstep) hs hnone hr
  rw [hheld]
  refine forall_congr' fun bs => forall_congr' fun u => forall_congr' fun _ => forall_congr' fun _ => ?_
  constructor
  · intro hnd cs t hcs ht
    have hperm := run_isRecv hcs ht
    exact (hperm.nodup_iff.2 hnd).sublist (returnedIds_sublist t)
  · intro h
    obtain ⟨cs, t, hcs, ht, hperm⟩ := exists_drained B a u
    exact hperm.nodup_iff.1 (h cs t hcs ht)

end Server

/-- The tools over either store, the server started in any reachable state: they return no message
twice, in the run and however the agent drains the server from any point of it, if and only if every
poll and every collect of the run takes only what is not held. -/
theorem tools_return_once (ops : List StoreOp) (a : AgentId) (as : List Server.LifeAction) :
    (let start := Server.start memoryStore a (memoryStore.applyAll ops MemoryStore.init)
      let run := (Server.lifetime memoryStore a).run
      ∀ sv, run start as = some sv →
        ((Server.lifetime memoryStore a).Guarded (Server.Fresh MemoryStore.mailbox a) start as ↔
          ∀ bs u, bs <+: as → run start bs = some u →
            ∀ cs t, (∀ act ∈ cs, Server.IsRecv act) → run u cs = some t → t.returnedIds.Nodup)) ∧
    (let start := Server.start sqliteStore a (sqliteStore.applyAll ops SqliteStore.init)
      let run := (Server.lifetime sqliteStore a).run
      ∀ sv, run start as = some sv →
        ((Server.lifetime sqliteStore a).Guarded (Server.Fresh SqliteStore.mailbox a) start as ↔
          ∀ bs u, bs <+: as → run start bs = some u →
            ∀ cs t, (∀ act ∈ cs, Server.IsRecv act) → run u cs = some t → t.returnedIds.Nodup)) := by
  constructor
  · intro start run sv hr
    have hs₀ := MemoryStore.Inv.reachable ops
    exact Server.run_returned_nodup_iff MemoryStore.mailbox_lawful hs₀ hr
  · intro start run sv hr
    have hs₀ := SqliteStore.inv_reachable ops
    exact Server.run_returned_nodup_iff SqliteStore.mailbox_lawful hs₀ hr

/-- One call of `channels__recv` that nothing comes between. -/
def recvAll : List Server.LifeAction := [.act (.recvDrain none 50 true), .act (.recvDispatch 0)]

theorem tools_return_once_polled :
    ∃ sv, (Server.lifetime memoryStore "bob").run
        (Server.start memoryStore "bob" (memoryStore.applyAll subscribed MemoryStore.init))
        (.act (sendTicket 1) :: .act .poll :: recvAll ++ [.restart, .act .poll]) = some sv ∧
      sv.returnedIds.Nodup := by
  have hr := ActionSystem.run_final (by decide : ((Server.lifetime memoryStore "bob").run
    (Server.start memoryStore "bob" (memoryStore.applyAll subscribed MemoryStore.init))
    (.act (sendTicket 1) :: .act .poll :: recvAll ++ [.restart, .act .poll])).isSome = true)
  exact ⟨_, hr, ((tools_return_once subscribed "bob" _).1 _ hr).1 (by decide) _ _
    (List.prefix_refl _) hr [] _ (by simp) rfl⟩

/-- A store error while a message is still in the queue. -/
def restartRun : List Server.LifeAction :=
  .act (sendTicket 1) :: .act .poll :: .restart :: .act .poll :: recvAll

/-- A collect of a message that is in the queue. -/
def collectRun : List Server.LifeAction :=
  .act (sendTicket 1) :: .act .poll :: .collect "ticket:1" 1 :: recvAll

/-- Either way the message is returned twice, by one call of `channels__recv` or by both tools. -/
theorem tools_return_twice :
    (¬∀ ops a as sv, (Server.lifetime memoryStore a).run
        (Server.start memoryStore a (memoryStore.applyAll ops MemoryStore.init)) as = some sv →
      sv.returnedIds.Nodup) ∧
    ¬∀ ops a as sv, (Server.lifetime sqliteStore a).run
        (Server.start sqliteStore a (sqliteStore.applyAll ops SqliteStore.init)) as = some sv →
      sv.returnedIds.Nodup := by
  constructor <;> intro h
  · have htwice := h subscribed "bob" restartRun _ (ActionSystem.run_final (by decide))
    exact absurd htwice (by decide)
  · have htwice := h subscribed "bob" collectRun _ (ActionSystem.run_final (by decide))
    exact absurd htwice (by decide)

end Sox
