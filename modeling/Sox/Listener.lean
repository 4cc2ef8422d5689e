import Sox.Lib.System
import Sox.Watch

/-!
# The receive path of the MCP server

One agent's server: the listener task polls `watch` and puts what it yields on a queue;
`channels__recv` drains the queue for its answer and then, as a second step, dispatches `recv`
through the pipeline, whose result it discards but whose deliveries the store keeps. Anything may
happen between the two steps.

`HandedOver` is what the agent is owed: a message marked delivered to it since the start was put on
the queue or returned. It breaks exactly at a dispatch that marks a message `watch` has not got to
(`Covered`).
-/

namespace Sox

/-- A call of `channels__recv` between its drain and its dispatch. -/
structure RecvCall where
  channels : Option (List Channel)
  maxMessages : Int
  buffered : List Message

/-- The server over a store; `enqueued` is the history of the queue. -/
structure Server (σ : Type) where
  store : σ
  lastSeenId : Nat
  queue : List Message := []
  calls : List RecvCall := []
  returned : List Message := []
  enqueued : List Message := []

namespace Server

inductive Action where
  | send (now : ℚ) (args : SendArgs)
  | poll
  | recvDrain (channels : Option (List Channel)) (maxMessages : Int) (includeMeta : Bool)
  | recvDispatch (call : Nat)

/-- `Listener.drain`: the messages popped and the queue left. -/
def drain (maxMessages : Int) (messages : List Message) : List Message → List Message × List Message
  | [] => (messages, [])
  | m :: queue =>
    if (messages.length : Int) < maxMessages then drain maxMessages (messages ++ [m]) queue
    else (messages, m :: queue)

/-- The channel filter of `channels__recv`: what is kept, and what goes back to the end of the
queue. -/
def filterChannels (channels : Option (List Channel)) (buffered : List Message) :
    List Message × List Message :=
  match channels with
  | none => (buffered, [])
  | some cs =>
    (buffered.filter fun m => cs.contains m.channel,
      (buffered.filter fun m => !cs.contains m.channel).reverse)

def stripMeta (includeMeta : Bool) (m : Message) : Message :=
  if includeMeta then m else { m with metaField := none }

variable {σ : Type}

def step (B : BackingStore σ) (a : AgentId) (sv : Server σ) : Action → Option (Server σ)
  | .send now args => some { sv with store := (B.send now args sv.store).2 }
  | .poll =>
    let (msgs, last) := B.watchPoll a sv.lastSeenId sv.store
    some { sv with lastSeenId := last, queue := sv.queue ++ msgs, enqueued := sv.enqueued ++ msgs }
  | .recvDrain channels maxMessages includeMeta =>
    let (popped, rest) := drain maxMessages [] sv.queue
    let (kept, requeued) := filterChannels channels popped
    some { sv with
      queue := rest ++ requeued
      calls := sv.calls ++ [{ channels, maxMessages, buffered := kept.map (stripMeta includeMeta) }] }
  | .recvDispatch i =>
    match sv.calls[i]? with
    | none => none
    | some call => some { sv with
        -- the messages of this `recv` are dropped: the answer is what was drained
        store := (B.recv a call.channels call.maxMessages sv.store).2
        calls := sv.calls.eraseIdx i
        returned := sv.returned ++ call.buffered }

def system (B : BackingStore σ) (a : AgentId) : ActionSystem (Server σ) Action := ⟨step B a⟩

def start (B : BackingStore σ) (a : AgentId) (s : σ) : Server σ :=
  { store := s, lastSeenId := B.watchStart a s }

variable {B : BackingStore σ} (X : Mailbox B) (a : AgentId) (s₀ : σ)

/-- Every message delivered to the agent since the start was put on the queue or returned. -/
def HandedOver (sv : Server σ) : Prop :=
  ∀ m ∈ X.messages sv.store, a ∈ m.deliveredTo →
    (∃ n ∈ X.messages s₀, n.id = m.id ∧ a ∈ n.deliveredTo) ∨
      m.id ∈ sv.enqueued.map (·.messageId) ∨ m.id ∈ sv.returned.map (·.messageId)

/-- The watch has got to the message: its id is between the mark at the start and the mark now, and
a pattern of the agent matches. -/
def Reached (sv : Server σ) (m : StoredMessage) : Prop :=
  B.watchStart a s₀ < m.id ∧ m.id ≤ sv.lastSeenId ∧ wants none (X.patterns s₀ a) m.channel = true

/-- A dispatch is covered when every message pending on its channels that the watch has not got to
has at least `max_messages` pending messages before it in the scan. Every other action is. -/
def Covered (sv : Server σ) : Action → Prop
  | .recvDispatch i => match sv.calls[i]? with
    | none => True
    | some call => ∀ m ∈ X.pending sv.store a call.channels, ¬Reached X a s₀ sv m →
        X.cap call.maxMessages ≤ ((X.pending sv.store a call.channels).map (·.id)).idxOf m.id
  | _ => True

instance (sv : Server σ) : Decidable (HandedOver X a s₀ sv) := by unfold HandedOver; infer_instance

instance (sv : Server σ) (m : StoredMessage) :
    Decidable (Reached X a s₀ sv m) := by unfold Reached; infer_instance

instance (sv : Server σ) (act : Action) : Decidable (Covered X a s₀ sv act) := by
  unfold Covered
  split
  · split <;> infer_instance
  · infer_instance

/-! ### The steps -/

theorem drain_eq (max : Int) (acc queue : List Message) :
    drain max acc queue = (acc ++ queue.take (max.toNat - acc.length),
      queue.drop (max.toNat - acc.length)) := by
  induction queue generalizing acc with
  | nil => simp [drain]
  | cons m queue ih =>
    by_cases h : (acc.length : Int) < max
    · obtain ⟨k, hk⟩ : ∃ k, max.toNat - acc.length = k + 1 := ⟨max.toNat - acc.length - 1, by omega⟩
      have hk' : max.toNat - (acc.length + 1) = k := by omega
      simp [drain, h, ih, hk, hk']
    · have hz : max.toNat - acc.length = 0 := by omega
      simp [drain, h, hz]

theorem stripMeta_messageId (includeMeta : Bool) (m : Message) :
    (stripMeta includeMeta m).messageId = m.messageId := by
  unfold stripMeta
  split <;> rfl

theorem filterChannels_subset (channels : Option (List Channel)) (l : List Message) :
    (filterChannels channels l).1 ⊆ l ∧ (filterChannels channels l).2 ⊆ l := by
  cases channels with
  | none => exact ⟨List.Subset.refl _, List.nil_subset _⟩
  | some cs =>
    exact ⟨List.filter_subset_self _, fun m hm => List.filter_subset_self _ (List.mem_reverse.1 hm)⟩

/-- What every step keeps, for a server started over `s₀`. -/
structure Inv (sv : Server σ) : Prop where
  store : X.Inv sv.store
  patterns : X.patterns sv.store = X.patterns s₀
  base : B.watchStart a s₀ ≤ sv.lastSeenId
  mark : sv.lastSeenId ≤ maxId (X.messages sv.store)
  oldTop : maxId (X.messages s₀) ≤ maxId (X.messages sv.store)
  old : ∀ n ∈ X.messages s₀, a ∈ n.deliveredTo → ∀ m ∈ X.messages sv.store, m.id = n.id →
    a ∈ m.deliveredTo
  seen : ∀ m ∈ sv.enqueued, m.messageId ≤ sv.lastSeenId
  reached : ∀ m ∈ X.messages sv.store, a ∉ m.deliveredTo →
    (m.id ∈ sv.enqueued.map (·.messageId) ↔ Reached X a s₀ sv m)
  queue : ∀ m ∈ sv.queue, m.messageId ∈ sv.enqueued.map (·.messageId)
  calls : ∀ call ∈ sv.calls, ∀ m ∈ call.buffered, m.messageId ∈ sv.enqueued.map (·.messageId)
  returned : ∀ m ∈ sv.returned, m.messageId ∈ sv.enqueued.map (·.messageId)

variable {X a s₀} {sv : Server σ}

theorem Inv.start (hX : X.Lawful) (hs : X.Inv s₀) : Inv X a s₀ (start B a s₀) := by
  have hmark : B.watchStart a s₀ ≤ maxId (X.messages s₀) := by
    rw [hX.watchStart]
    rcases maxId_mem ((X.messages s₀).filter fun m => decide (a ∈ m.deliveredTo)) with
      ⟨-, h0⟩ | ⟨m, hm, hid⟩
    · exact h0 ▸ Nat.zero_le _
    · exact hid ▸ le_maxId (List.mem_of_mem_filter hm)
  exact {
    store := hs
    patterns := rfl
    base := le_refl _
    mark := hmark
    oldTop := le_refl _
    old := by
      intro n hn ha m hm hid
      rwa [List.inj_on_of_nodup_map ((hX.ids s₀ hs).imp Nat.ne_of_lt) hm hn hid]
    seen := by simp [Server.start]
    reached := by
      -- nothing is between the mark and itself
      intro m hm ha
      simp only [Server.start, Reached, List.map_nil, List.not_mem_nil, false_iff]
      rintro ⟨h₁, h₂, -⟩
      exact absurd (h₁.trans_le h₂) (lt_irrefl _)
    queue := by simp [Server.start]
    calls := by simp [Server.start]
    returned := by simp [Server.start] }

theorem Inv.send (hX : X.Lawful) (h : Inv X a s₀ sv) (now : ℚ) (args : SendArgs) :
    Inv X a s₀ { sv with store := (B.send now args sv.store).2 } := by
  obtain ⟨m, hmsgs, hlt, hm, hpat⟩ := hX.send now args sv.store h.store
  have hkeep : X.Inv (B.send now args sv.store).2 := hX.keeps (.send now args) sv.store h.store
  have hnew : maxId (X.messages sv.store) < m.id :=
    maxId_lt (hX.pos _ hkeep m (by simp [hmsgs])) hlt
  have hgrow : maxId (X.messages sv.store) ≤ maxId (X.messages (B.send now args sv.store).2) :=
    hnew.le.trans (le_maxId (by simp [hmsgs]))
  refine { h with
    store := hkeep
    patterns := hpat.trans h.patterns
    mark := h.mark.trans hgrow
    oldTop := h.oldTop.trans hgrow
    old := ?_
    reached := ?_ }
  · intro n hn ha k hk hid
    rcases List.mem_append.1 (hmsgs ▸ hk) with hk | hk
    · exact h.old n hn ha k hk hid
    · obtain rfl := List.mem_singleton.1 hk
      exact absurd (hid ▸ hnew) (Nat.not_lt.2 ((le_maxId hn).trans h.oldTop))
  · intro k hk ha
    rcases List.mem_append.1 (hmsgs ▸ hk) with hk | hk
    · exact h.reached k hk ha
    · -- the new message is above the mark and so on neither side
      obtain rfl := List.mem_singleton.1 hk
      have habove : sv.lastSeenId < k.id := h.mark.trans_lt hnew
      refine iff_of_false (fun hmem => ?_) fun hr => absurd hr.2.1 (Nat.not_le.2 habove)
      obtain ⟨w, hw, hid⟩ := List.mem_map.1 hmem
      exact absurd (h.seen w hw) (by rw [hid]; exact Nat.not_le.2 habove)

theorem Inv.poll (hX : X.Lawful) (h : Inv X a s₀ sv) :
    Inv X a s₀ { sv with
      lastSeenId := (B.watchPoll a sv.lastSeenId sv.store).2
      queue := sv.queue ++ (B.watchPoll a sv.lastSeenId sv.store).1
      enqueued := sv.enqueued ++ (B.watchPoll a sv.lastSeenId sv.store).1 } := by
  obtain ⟨p, hp, hmsgs, hlast⟩ := hX.watchPoll a sv.lastSeenId sv.store
  have hmem : ∀ {m}, m ∈ p ↔ m ∈ X.messages sv.store ∧ sv.lastSeenId < m.id ∧ a ∉ m.deliveredTo ∧
      wants none (X.patterns s₀ a) m.channel = true := fun {m} => by
    rw [hp.mem_iff, Mailbox.unseen, List.mem_filter, h.patterns, Bool.and_eq_true, decide_eq_true_eq,
      StoredMessage.awaits_iff]
  have hids : (p.map (·.toWire)).map (·.messageId) = p.map (·.id) := by simp
  have hup : sv.lastSeenId ≤ Nat.max sv.lastSeenId (maxId p) := Nat.le_max_left ..
  rw [hlast, hmsgs]
  refine { h with
    base := h.base.trans hup
    mark := Nat.max_le.2 ⟨h.mark, ?_⟩
    seen := ?_
    reached := ?_
    queue := ?_
    calls := ?_
    returned := ?_ }
  · rcases maxId_mem p with ⟨-, h0⟩ | ⟨m, hm, hid⟩
    · exact h0 ▸ Nat.zero_le _
    · exact hid ▸ le_maxId (hmem.1 hm).1
  · intro w hw
    rcases List.mem_append.1 hw with hw | hw
    · exact (h.seen w hw).trans hup
    · obtain ⟨m, hm, rfl⟩ := List.mem_map.1 hw
      exact (le_maxId hm).trans (Nat.le_max_right ..)
  · intro m hm ha
    rw [List.map_append, List.mem_append, h.reached m hm ha, hids,
      id_mem_ids_iff ((hX.ids _ h.store).imp Nat.ne_of_lt) hm fun n hn => (hmem.1 hn).1, hmem]
    constructor
    · rintro (⟨h₁, h₂, h₃⟩ | ⟨-, h₁, -, h₃⟩)
      · exact ⟨h₁, h₂.trans hup, h₃⟩
      · exact ⟨h.base.trans_lt h₁, (le_maxId (hmem.2 ⟨hm, h₁, ha, h₃⟩)).trans (Nat.le_max_right ..), h₃⟩
    · rintro ⟨h₁, -, h₃⟩
      rcases Nat.lt_or_ge sv.lastSeenId m.id with hlt | hle
      · exact .inr ⟨hm, hlt, ha, h₃⟩
      · exact .inl ⟨h₁, hle, h₃⟩
  · intro w hw
    rw [List.map_append, List.mem_append]
    rcases List.mem_append.1 hw with hw | hw
    · exact .inl (h.queue w hw)
    · exact .inr (List.mem_map_of_mem hw)
  · intro call hcall w hw
    exact List.mem_map.2 ((List.mem_map.1 (h.calls call hcall w hw)).imp fun _ hv =>
      ⟨by simp [hv.1], hv.2⟩)
  · intro w hw
    exact List.mem_map.2 ((List.mem_map.1 (h.returned w hw)).imp fun _ hv => ⟨by simp [hv.1], hv.2⟩)

theorem Inv.recvDrain {sv' : Server σ} {channels : Option (List Channel)} {max : Int} {includeMeta : Bool}
    (h : Inv X a s₀ sv) (hstep : step B a sv (.recvDrain channels max includeMeta) = some sv') :
    Inv X a s₀ sv' := by
  simp only [step, drain_eq, List.nil_append, List.length_nil, Nat.sub_zero, Option.some.injEq] at hstep
  subst hstep
  obtain ⟨hkept, hback⟩ := filterChannels_subset channels (sv.queue.take max.toNat)
  refine { h with queue := ?_, calls := ?_ }
  · intro w hw
    rcases List.mem_append.1 hw with hw | hw
    · exact h.queue w (List.mem_of_mem_drop hw)
    · exact h.queue w (List.mem_of_mem_take (hback hw))
  · intro call hcall w hw
    rcases List.mem_append.1 hcall with hcall | hcall
    · exact h.calls call hcall w hw
    · obtain rfl := List.mem_singleton.1 hcall
      obtain ⟨v, hv, rfl⟩ := List.mem_map.1 hw
      rw [stripMeta_messageId]
      exact h.queue v (List.mem_of_mem_take (hkept hv))

/-- The state after the dispatch of `call`, the call with number `i`. -/
theorem Inv.recvDispatch (hX : X.Lawful) (h : Inv X a s₀ sv) {i : Nat} {call : RecvCall}
    (hcall : sv.calls[i]? = some call) :
    Inv X a s₀ { sv with
      store := (B.recv a call.channels call.maxMessages sv.store).2
      calls := sv.calls.eraseIdx i
      returned := sv.returned ++ call.buffered } := by
  obtain ⟨p, -, hids, hpat, hafter, -⟩ :=
    Mailbox.recv_marks hX h.store a call.channels call.maxMessages
  have hmax : maxId (X.messages (B.recv a call.channels call.maxMessages sv.store).2) =
      maxId (X.messages sv.store) := by
    rw [maxId, maxId, hids]
  refine { h with
    store := hX.keeps (.recv a call.channels call.maxMessages) sv.store h.store
    patterns := hpat.trans h.patterns
    mark := hmax ▸ h.mark
    oldTop := hmax ▸ h.oldTop
    old := ?_
    reached := ?_
    calls := fun c hc => h.calls c (List.mem_of_mem_eraseIdx hc)
    returned := ?_ }
  · intro n hn ha m' hm' hid
    obtain ⟨m, hm, hid', -, hdel⟩ := hafter m' hm'
    exact hdel.2 (.inl (h.old n hn ha m hm (hid' ▸ hid)))
  · intro m' hm' ha
    obtain ⟨m, hm, hid, hch, hdel⟩ := hafter m' hm'
    have ham : a ∉ m.deliveredTo := fun hd => ha (hdel.2 (.inl hd))
    rw [hid, h.reached m hm ham]
    simp only [Reached, hid, hch]
  · intro w hw
    rcases List.mem_append.1 hw with hw | hw
    · exact h.returned w hw
    · exact h.calls call (List.mem_of_getElem? hcall) w hw

/-- A dispatch hands over what it marks exactly when it is covered. -/
theorem covered_recvDispatch_iff (hX : X.Lawful) (h : Inv X a s₀ sv) (hsafe : HandedOver X a s₀ sv)
    {i : Nat} {call : RecvCall} (hcall : sv.calls[i]? = some call) :
    Covered X a s₀ sv (.recvDispatch i) ↔ HandedOver X a s₀ { sv with
      store := (B.recv a call.channels call.maxMessages sv.store).2
      calls := sv.calls.eraseIdx i
      returned := sv.returned ++ call.buffered } := by
  have h' := h.recvDispatch hX hcall
  obtain ⟨p, hp, -, -, hafter, hmarked⟩ :=
    Mailbox.recv_marks hX h.store a call.channels call.maxMessages
  have hnd : ((X.pending sv.store a call.channels).map (·.id)).Nodup := by
    refine inbox_ids_nodup ((((hX.scan_perm _).map _).nodup_iff).2 ?_)
    exact (hX.ids _ h.store).imp Nat.ne_of_lt
  simp only [Covered, hcall]
  constructor
  · intro hcov m' hm' ha
    obtain ⟨m, hm, hid, -, hdel⟩ := hafter m' hm'
    rw [hid]
    by_cases ham : a ∈ m.deliveredTo
    · refine (hsafe m hm ham).imp_right (Or.imp_right fun hr => ?_)
      rw [List.map_append, List.mem_append]
      exact .inl hr
    · -- a message marked now comes before the cap, so the watch had got to it
      have hmp : m ∈ p := (hdel.1 ha).resolve_left ham
      have htake := hp.mem_iff.1 hmp
      have hpend : m ∈ X.pending sv.store a call.channels := List.mem_of_mem_take htake
      have hlt := (mem_take_iff_idxOf hnd hpend _).1 htake
      have hreach : Reached X a s₀ sv m := by
        by_contra hn
        have hle := hcov m hpend hn
        omega
      exact .inr (.inl ((h.reached m hm ham).2 hreach))
  · intro hover m hm hn
    by_contra hlt
    have hmp : m ∈ p := hp.mem_iff.2 ((mem_take_iff_idxOf hnd hm _).2 (Nat.not_le.1 hlt))
    obtain ⟨hmem, ham, -⟩ := (Mailbox.mem_pending hX).1 hm
    have henq : m.id ∈ sv.enqueued.map (·.messageId) := by
      rcases hover _ (hmarked m hmp) (by simp) with ⟨n, hn, hid, ha⟩ | henq | hr
      · have hid' : m.id = n.id := by simpa using hid.symm
        exact absurd (h.old n hn ha m hmem hid') ham
      · simpa using henq
      · obtain ⟨w, hw, hid⟩ := List.mem_map.1 hr
        have hwq := h'.returned w hw
        rw [hid] at hwq
        simpa using hwq
    exact hn ((h.reached m hmem ham).1 henq)

/-! ### Runs -/

theorem HandedOver.start : HandedOver X a s₀ (start B a s₀) := fun m hm ha => .inl ⟨m, hm, rfl, ha⟩

theorem step_iff (hX : X.Lawful) {act : Action} {sv' : Server σ} (h : Inv X a s₀ sv)
    (hsafe : HandedOver X a s₀ sv) (hstep : step B a sv act = some sv') :
    Inv X a s₀ sv' ∧ (Covered X a s₀ sv act ↔ HandedOver X a s₀ sv') := by
  cases act with
  | send now args =>
    cases hstep
    obtain ⟨m, hmsgs, -, hm, -⟩ := hX.send now args sv.store h.store
    refine ⟨h.send hX now args, iff_of_true trivial fun k hk ha => ?_⟩
    rcases List.mem_append.1 (hmsgs ▸ hk) with hk | hk
    · exact hsafe k hk ha
    · rw [List.mem_singleton.1 hk, hm] at ha
      exact absurd ha (List.not_mem_nil)
  | poll =>
    cases hstep
    refine ⟨h.poll hX, iff_of_true trivial fun k hk ha => ?_⟩
    refine (hsafe k hk ha).imp_right (Or.imp_left fun he => ?_)
    rw [List.map_append, List.mem_append]
    exact .inl he
  | recvDrain channels max includeMeta =>
    refine ⟨h.recvDrain hstep, iff_of_true trivial ?_⟩
    cases hstep
    exact hsafe
  | recvDispatch i =>
    simp only [step] at hstep
    split at hstep
    · cases hstep
    · rename_i call hcall
      cases hstep
      exact ⟨h.recvDispatch hX hcall, covered_recvDispatch_iff hX h hsafe hcall⟩

/-- A run hands over everything it delivers, at every point of it, exactly when all its dispatches
are covered. -/
theorem run_handedOver_iff (hX : X.Lawful) (hs : X.Inv s₀) {as : List Action}
    (hr : (system B a).run (start B a s₀) as = some sv) :
    (system B a).Guarded (Covered X a s₀) (start B a s₀) as ↔
      ∀ bs u, bs <+: as → (system B a).run (start B a s₀) bs = some u → HandedOver X a s₀ u := by
  have hinv : Inv X a s₀ (start B a s₀) := .start hX hs
  have hsafe : HandedOver X a s₀ (start B a s₀) := .start
  exact ActionSystem.guarded_iff (I := Inv X a s₀)
    (fun _ _ _ h hsafe hstep => step_iff hX h hsafe hstep) hinv hsafe hr

end Server

/-- The receive path over either store, started in any reachable state: a run hands over every
message it marks delivered, at every point, if and only if each of its dispatches is covered. -/
theorem recv_path_handedOver (ops : List StoreOp) (a : AgentId) (as : List Server.Action) :
    (let s₀ := memoryStore.applyAll ops MemoryStore.init
      let run := (Server.system memoryStore a).run (Server.start memoryStore a s₀)
      ∀ sv, run as = some sv →
        ((Server.system memoryStore a).Guarded (Server.Covered MemoryStore.mailbox a s₀)
            (Server.start memoryStore a s₀) as ↔
          ∀ bs u, bs <+: as → run bs = some u → Server.HandedOver MemoryStore.mailbox a s₀ u)) ∧
    (let s₀ := sqliteStore.applyAll ops SqliteStore.init
      let run := (Server.system sqliteStore a).run (Server.start sqliteStore a s₀)
      ∀ sv, run as = some sv →
        ((Server.system sqliteStore a).Guarded (Server.Covered SqliteStore.mailbox a s₀)
            (Server.start sqliteStore a s₀) as ↔
          ∀ bs u, bs <+: as → run bs = some u → Server.HandedOver SqliteStore.mailbox a s₀ u)) := by
  constructor
  · intro s₀ run sv hr
    have hs₀ : MemoryStore.Inv s₀ := MemoryStore.Inv.reachable ops
    exact Server.run_handedOver_iff MemoryStore.mailbox_lawful hs₀ hr
  · intro s₀ run sv hr
    have hs₀ : s₀.db.Inv := SqliteStore.inv_reachable ops
    exact Server.run_handedOver_iff SqliteStore.mailbox_lawful hs₀ hr

def subscribed : List StoreOp := [.subscribe "bob" "ticket:*"]

def sendTicket (now : ℚ) : Server.Action := .send now ⟨"ticket:1", "alice", .empty, none, none⟩

theorem recv_path_polled :
    ∃ sv, (Server.system sqliteStore "bob").run
        (Server.start sqliteStore "bob" (sqliteStore.applyAll subscribed SqliteStore.init))
        [sendTicket 1, .poll, .recvDrain none 50 true, .recvDispatch 0] = some sv ∧
      Server.HandedOver SqliteStore.mailbox "bob" (sqliteStore.applyAll subscribed SqliteStore.init)
        sv := by
  have hr := ActionSystem.run_final (by decide : ((Server.system sqliteStore "bob").run
    (Server.start sqliteStore "bob" (sqliteStore.applyAll subscribed SqliteStore.init))
    [sendTicket 1, .poll, .recvDrain none 50 true, .recvDispatch 0]).isSome = true)
  exact ⟨_, hr, ((recv_path_handedOver subscribed "bob" _).2 _ hr).1 (by decide) _ _
    (List.prefix_refl _) hr⟩

/-- A message sent after the last poll and before the call is marked delivered and never handed
over. -/
theorem recv_path_loses :
    ¬(∀ ops a as sv, (Server.system memoryStore a).run
        (Server.start memoryStore a (memoryStore.applyAll ops MemoryStore.init)) as = some sv →
      Server.HandedOver MemoryStore.mailbox a (memoryStore.applyAll ops MemoryStore.init) sv) ∧
    ¬(∀ ops a as sv, (Server.system sqliteStore a).run
        (Server.start sqliteStore a (sqliteStore.applyAll ops SqliteStore.init)) as = some sv →
      Server.HandedOver SqliteStore.mailbox a (sqliteStore.applyAll ops SqliteStore.init) sv) := by
  constructor <;> intro h
  · have hlost := h subscribed "bob" [.poll, sendTicket 1, .recvDrain none 50 true, .recvDispatch 0] _
      (ActionSystem.run_final (by decide))
    exact absurd hlost (by decide)
  · have hlost := h subscribed "bob" [.poll, sendTicket 1, .recvDrain none 50 true, .recvDispatch 0] _
      (ActionSystem.run_final (by decide))
    exact absurd hlost (by decide)

end Sox
