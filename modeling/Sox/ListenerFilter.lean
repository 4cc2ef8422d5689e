import Sox.Lib.Select
import Sox.Listener

/-!
# Filtered reads of the buffer

`channels__recv` pops at most `max_messages` messages and puts those that its filter rejects back at
the end of the queue, last first. That is the stable selection from the queue exactly when the filter
rejects nothing that was popped, or nothing is missed behind what was popped and the rotation cannot be
seen (`recvDrain_selects_iff`). As long as every call meets this, each channel comes out in the order in
which the listener put it on the queue.
-/

namespace Sox

namespace Server

open Select

/-- The filter lets the message pass. -/
def selects (channels : Option (List Channel)) (m : Message) : Bool :=
  match channels with
  | none => true
  | some cs => cs.contains m.channel

/-- What a call takes from the queue and the queue it leaves. -/
def takeFrom (channels : Option (List Channel)) (maxMessages : Int) (queue : List Message) :
    List Message × List Message :=
  let (popped, rest) := drain maxMessages [] queue
  let (kept, requeued) := filterChannels channels popped
  (kept, rest ++ requeued)

/-- The filter passes everything that is popped; or nothing behind it, and then the rejected messages,
and those of them behind, read the same backwards. -/
def Unturned (channels : Option (List Channel)) (maxMessages : Int) (queue : List Message) : Prop :=
  (∀ m ∈ queue.take maxMessages.toNat, selects channels m = true) ∨
    ((∀ m ∈ queue.drop maxMessages.toNat, selects channels m = false) ∧
      (queue.drop maxMessages.toNat).reverse = queue.drop maxMessages.toNat ∧
      (queue.filter fun m => !selects channels m).reverse = queue.filter fun m => !selects channels m)

variable {σ : Type} {B : BackingStore σ} {a : AgentId} {sv sv' : Server σ}
  {channels : Option (List Channel)} {max : Int} {includeMeta : Bool} {queue : List Message}

theorem filterChannels_eq (channels : Option (List Channel)) (l : List Message) :
    filterChannels channels l =
      (l.filter (selects channels), (l.filter fun m => !selects channels m).reverse) := by
  cases channels with
  | none =>
    have hall : l.filter (selects none) = l := List.filter_eq_self.2 fun m _ => rfl
    have hno : l.filter (fun m => !selects none m) = [] := List.filter_eq_nil_iff.2 fun m _ => Bool.false_ne_true
    rw [hall, hno]
    rfl
  | some cs => rfl

theorem takeFrom_eq : takeFrom channels max queue =
    ((queue.take max.toNat).filter (selects channels), queue.drop max.toNat ++
      ((queue.take max.toNat).filter fun m => !selects channels m).reverse) := by
  simp only [takeFrom, drain_eq, filterChannels_eq, List.nil_append, List.length_nil, Nat.sub_zero]

theorem step_recvDrain : step B a sv (.recvDrain channels max includeMeta) = some { sv with
    queue := (takeFrom channels max sv.queue).2
    calls := sv.calls ++ [{
      channels
      maxMessages := max
      buffered := (takeFrom channels max sv.queue).1.map (stripMeta includeMeta) }] } := rfl

theorem takeFrom_eq_select_iff : takeFrom channels max queue = select (selects channels) max.toNat queue ↔
    Unturned channels max queue := by
  rw [takeFrom_eq]
  exact rotate_eq_select_iff

/-- What a call takes is the beginning of the selection. -/
theorem takeFrom_initial :
    (takeFrom channels max queue).1 <+: (select (selects channels) max.toNat queue).1 := by
  have hlen : (queue.take max.toNat).length ≤ max.toNat := List.length_take_le _ _
  have hcount := List.length_filter_le (selects channels) (queue.take max.toNat)
  have hsel := select_append (v := queue.drop max.toNat) (hcount.trans hlen)
  rw [List.take_append_drop] at hsel
  rw [takeFrom_eq, hsel]
  exact List.prefix_append _ _

/-- A call answers with the first `max_messages` messages that the filter passes and leaves the others
in their order. -/
theorem recvDrain_selects_iff :
    step B a sv (.recvDrain channels max includeMeta) = some { sv with
      queue := (select (selects channels) max.toNat sv.queue).2
      calls := sv.calls ++ [{
        channels
        maxMessages := max
        buffered := (select (selects channels) max.toNat sv.queue).1.map (stripMeta includeMeta) }] } ↔
      Unturned channels max sv.queue := by
  rw [← takeFrom_eq_select_iff, step_recvDrain]
  constructor
  · intro h
    injection h with h
    injection h with _ _ hqueue hcalls
    have hbuffered := (RecvCall.mk.inj (List.singleton_inj.1 (List.append_cancel_left hcalls))).2.2
    have hlen := congrArg List.length hbuffered
    rw [List.length_map, List.length_map] at hlen
    exact Prod.ext (takeFrom_initial.eq_of_length hlen) hqueue
  · intro h
    rw [h]

/-- For different messages: the filter passes everything that is popped, or it passes nothing behind it
and rejects at most one message of the buffer. -/
theorem unturned_iff_of_nodup (hqueue : queue.Nodup) : Unturned channels max queue ↔
    (∀ m ∈ queue.take max.toNat, selects channels m = true) ∨
      ((∀ m ∈ queue.drop max.toNat, selects channels m = false) ∧
        (queue.filter fun m => !selects channels m).length ≤ 1) := by
  unfold Unturned
  rw [reverse_eq_self_iff (hqueue.sublist (List.drop_sublist _ _)), reverse_eq_self_iff (hqueue.filter _)]
  refine or_congr Iff.rfl (and_congr_right fun hnone => ⟨And.right, fun hfew => ⟨?_, hfew⟩⟩)
  have hdrop : (queue.drop max.toNat).filter (fun m => !selects channels m) = queue.drop max.toNat :=
    List.filter_eq_self.2 fun m hm => by simp [hnone m hm]
  have hsub := (List.drop_sublist max.toNat queue).filter fun m => !selects channels m
  rw [hdrop] at hsub
  exact hsub.length_le.trans hfew

/-! ### Runs -/

/-- What an action takes from the queue. -/
def takes (sv : Server σ) : Action → List Message
  | .recvDrain channels max _ => (takeFrom channels max sv.queue).1
  | _ => []

/-- What the calls of a run take, in their order. -/
def taken (B : BackingStore σ) (a : AgentId) : Server σ → List Action → List Message
  | _, [] => []
  | sv, act :: as => takes sv act ++ match step B a sv act with
    | none => []
    | some sv' => taken B a sv' as

/-- A call of `channels__recv` is unturned. Every other action may be taken. -/
def Unrotated (sv : Server σ) : Action → Prop
  | .recvDrain channels max _ => Unturned channels max sv.queue
  | _ => True

def onChannel (c : Channel) (m : Message) : Bool := m.channel == c

theorem takeFrom_onChannel (h : Unturned channels max queue) (c : Channel) :
    (takeFrom channels max queue).1.filter (onChannel c) ++
      (takeFrom channels max queue).2.filter (onChannel c) = queue.filter (onChannel c) := by
  rw [takeFrom_eq_select_iff.2 h]
  refine select_filter fun m _ n _ hm hn => ?_
  have hmc : m.channel = c := beq_iff_eq.1 hm
  have hnc : n.channel = c := beq_iff_eq.1 hn
  cases channels with
  | none => rfl
  | some cs => simp only [selects, hmc, hnc]

/-- What an action takes and leaves of a channel was in the queue or is new. -/
theorem step_onChannel {act : Action} (h : step B a sv act = some sv') (hact : Unrotated sv act) :
    ∃ news, sv'.enqueued = sv.enqueued ++ news ∧ ∀ c,
      (takes sv act).filter (onChannel c) ++ sv'.queue.filter (onChannel c) =
        sv.queue.filter (onChannel c) ++ news.filter (onChannel c) := by
  cases act with
  | send now args =>
    cases h
    exact ⟨[], by simp, fun c => by simp [takes]⟩
  | poll =>
    cases h
    exact ⟨_, rfl, fun c => by simp [takes]⟩
  | recvDrain channels max includeMeta =>
    cases h
    refine ⟨[], by simp, fun c => ?_⟩
    rw [List.filter_nil, List.append_nil]
    exact takeFrom_onChannel hact c
  | recvDispatch i =>
    simp only [step] at h
    split at h
    · cases h
    · cases h
      exact ⟨[], by simp, fun c => by simp [takes]⟩

theorem run_onChannel {as : List Action} (hr : (system B a).run sv as = some sv')
    (hg : (system B a).Guarded Unrotated sv as) :
    ∃ news, sv'.enqueued = sv.enqueued ++ news ∧ ∀ c,
      (taken B a sv as).filter (onChannel c) ++ sv'.queue.filter (onChannel c) =
        sv.queue.filter (onChannel c) ++ news.filter (onChannel c) := by
  induction as generalizing sv with
  | nil =>
    cases hr
    exact ⟨[], by simp, fun c => by simp [taken]⟩
  | cons act as ih =>
    obtain ⟨sv₁, hstep, hrest⟩ := ActionSystem.run_cons.1 hr
    obtain ⟨hact, hguard⟩ := ActionSystem.guarded_cons.1 hg
    obtain ⟨news, henq, hnews⟩ := step_onChannel hstep hact
    obtain ⟨later, henq', hlater⟩ := ih hrest (hguard sv₁ hstep)
    refine ⟨news ++ later, by rw [henq', henq, List.append_assoc], fun c => ?_⟩
    have hstep' : step B a sv act = some sv₁ := hstep
    calc (taken B a sv (act :: as)).filter (onChannel c) ++ sv'.queue.filter (onChannel c)
        = (takes sv act).filter (onChannel c) ++
            ((taken B a sv₁ as).filter (onChannel c) ++ sv'.queue.filter (onChannel c)) := by
          rw [taken, hstep', List.filter_append, List.append_assoc]
      _ = ((takes sv act).filter (onChannel c) ++ sv₁.queue.filter (onChannel c)) ++
            later.filter (onChannel c) := by rw [hlater, List.append_assoc]
      _ = sv.queue.filter (onChannel c) ++ (news ++ later).filter (onChannel c) := by
          rw [hnews, List.filter_append, List.append_assoc]

end Server

/-- A call of `channels__recv` is the stable selection from the buffer exactly when it is unturned; and
when the calls of a run are, each channel comes out in the order in which it went in. -/
theorem filtered_recv_stable_iff {σ : Type} (B : BackingStore σ) (a : AgentId) :
    (∀ (sv : Server σ) channels max includeMeta,
      Server.step B a sv (.recvDrain channels max includeMeta) = some { sv with
        queue := (Select.select (Server.selects channels) max.toNat sv.queue).2
        calls := sv.calls ++ [{
          channels
          maxMessages := max
          buffered := (Select.select (Server.selects channels) max.toNat sv.queue).1.map
            (Server.stripMeta includeMeta) }] } ↔ Server.Unturned channels max sv.queue) ∧
    ∀ s₀ as sv, (Server.system B a).run (Server.start B a s₀) as = some sv →
      (Server.system B a).Guarded Server.Unrotated (Server.start B a s₀) as →
      ∀ c, (Server.taken B a (Server.start B a s₀) as).filter (Server.onChannel c) ++
        sv.queue.filter (Server.onChannel c) = sv.enqueued.filter (Server.onChannel c) := by
  refine ⟨fun sv channels max includeMeta => Server.recvDrain_selects_iff, ?_⟩
  intro s₀ as sv hr hg c
  obtain ⟨news, henq, hnews⟩ := Server.run_onChannel hr hg
  rw [hnews, henq]
  rfl

/-- Two messages on ticket:1 are in bob's buffer. -/
def twoBuffered : List Server.Action := [sendTicket 1, sendTicket 2, .poll]

def bobServer : Server MemoryStore :=
  .start memoryStore "bob" (memoryStore.applyAll subscribed MemoryStore.init)

/-- The filter passes both, one after the other. -/
theorem filtered_recv_stable_ticket :
    let as := twoBuffered ++ [.recvDrain (some ["ticket:1"]) 1 true, .recvDrain (some ["ticket:1"]) 1 true]
    ∃ sv, (Server.system memoryStore "bob").run bobServer as = some sv ∧
      (Server.taken memoryStore "bob" bobServer as).filter (Server.onChannel "ticket:1") ++
        sv.queue.filter (Server.onChannel "ticket:1") = sv.enqueued.filter (Server.onChannel "ticket:1") := by
  intro as
  have hr : (Server.system memoryStore "bob").run bobServer as = some _ := ActionSystem.run_final (by decide)
  refine ⟨_, hr, (filtered_recv_stable_iff memoryStore "bob").2 _ as _ hr ?_ "ticket:1"⟩
  exact ⟨trivial, trivial, trivial, .inl (by decide), .inl (by decide), trivial⟩

/-- A filter that passes neither leaves the second before the first, and so they come out. -/
theorem filtered_recv_turns :
    ¬(∀ (sv : Server MemoryStore) channels max includeMeta, 1 ≤ max →
      Server.step memoryStore "bob" sv (.recvDrain channels max includeMeta) = some { sv with
        queue := (Select.select (Server.selects channels) max.toNat sv.queue).2
        calls := sv.calls ++ [{
          channels
          maxMessages := max
          buffered := (Select.select (Server.selects channels) max.toNat sv.queue).1.map
            (Server.stripMeta includeMeta) }] }) ∧
    ((Server.taken memoryStore "bob" bobServer (twoBuffered ++
      [.recvDrain (some ["ticket:2"]) 50 true, .recvDrain none 50 true])).map (·.messageId)) = [2, 1] := by
  refine ⟨fun h => ?_, by decide⟩
  have hturned := Server.recvDrain_selects_iff.1
    (h ((Server.system memoryStore "bob").final bobServer twoBuffered) (some ["ticket:2"]) 50 true (by decide))
  rcases hturned with hpass | ⟨-, -, hback⟩
  · revert hpass
    decide
  · have hids := congrArg (List.map (·.messageId)) hback
    revert hids
    decide

end Sox
