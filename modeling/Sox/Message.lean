import Sox.Json

/-!
# Stored messages and the inbox they make up

`StoredMessage` is the record both stores keep: `_StoredMessage` of the memory store (whose
`delivered_to` is a set: `deliver` adds an agent once) and a row of the SQLite `messages` table
(whose `delivered_to` is a JSON array). `Message` is the dict a store hands out. A message id is
printed in decimal on the wire; here it stays the number it prints.

`inbox want a l`: the messages of `l` not yet delivered to `a` on the channels `want` selects, in
the order of `l`. The lemmas here say how marking deliveries changes the inboxes of every agent;
both stores' `recv`, `unsubscribe` and `watch` are proved through them.
-/

namespace Sox

abbrev AgentId := String
abbrev Channel := String
abbrev Pattern := String

structure StoredMessage where
  id : Nat
  channel : Channel
  sender : AgentId
  body : JsonDict
  correlationId : Option String
  sentAt : ℚ
  seq : Nat
  replyTo : Option String
  deliveredTo : List AgentId := []

/-- The dict of a message: `ts`, `delivered_to` and `origin_server` are always `None`, and so is
`_meta`, which a caller may remove. -/
structure Message where
  messageId : Nat
  channel : Channel
  sender : AgentId
  body : JsonDict
  correlationId : Option String
  sentAt : ℚ
  seq : Nat
  ts : Json := .null
  replyTo : Option String
  deliveredTo : Json := .null
  originServer : Json := .null
  metaField : Option Json := some .null

namespace StoredMessage

variable {m n : StoredMessage} {a b : AgentId}

/-- `to_wire` of the memory store, `_build_message` of the SQLite store. -/
def toWire (m : StoredMessage) : Message where
  messageId := m.id
  channel := m.channel
  sender := m.sender
  body := m.body
  correlationId := m.correlationId
  sentAt := m.sentAt
  seq := m.seq
  replyTo := m.replyTo

/-- `delivered_to.add(agent_id)`. -/
def deliver (a : AgentId) (m : StoredMessage) : StoredMessage :=
  if a ∈ m.deliveredTo then m else { m with deliveredTo := m.deliveredTo ++ [a] }

@[simp] theorem toWire_messageId : m.toWire.messageId = m.id := rfl

@[simp] theorem deliver_id : (m.deliver a).id = m.id := by unfold deliver; split <;> rfl

@[simp] theorem deliver_channel : (m.deliver a).channel = m.channel := by unfold deliver; split <;> rfl

@[simp] theorem deliver_seq : (m.deliver a).seq = m.seq := by unfold deliver; split <;> rfl

@[simp] theorem deliver_sentAt : (m.deliver a).sentAt = m.sentAt := by unfold deliver; split <;> rfl

@[simp] theorem deliver_toWire : (m.deliver a).toWire = m.toWire := by unfold deliver; split <;> rfl

@[simp] theorem deliver_deliver : (m.deliver a).deliver a = m.deliver a := by
  by_cases h : a ∈ m.deliveredTo <;> simp [deliver, h]

@[simp] theorem mem_deliver : b ∈ (m.deliver a).deliveredTo ↔ b ∈ m.deliveredTo ∨ b = a := by
  unfold deliver
  split
  · rename_i h
    constructor
    · exact .inl
    · rintro (h' | rfl) <;> assumption
  · simp

/-- The order in which both stores hand messages out: by channel, then by `sent_at`, then by id. -/
def Before (m n : StoredMessage) : Prop :=
  m.channel < n.channel ∨ m.channel = n.channel ∧
    (m.sentAt < n.sentAt ∨ m.sentAt = n.sentAt ∧ m.id ≤ n.id)

instance : DecidableRel Before := fun m n => by unfold Before; infer_instance

end StoredMessage

def sortMessages (l : List StoredMessage) : List StoredMessage := l.insertionSort StoredMessage.Before

theorem sortMessages_perm (l : List StoredMessage) : (sortMessages l).Perm l :=
  List.perm_insertionSort _ l

@[simp] theorem mem_sortMessages {l : List StoredMessage} {m : StoredMessage} :
    m ∈ sortMessages l ↔ m ∈ l :=
  (sortMessages_perm l).mem_iff

/-! ### Inboxes -/

/-- Not yet delivered to `a`, on a channel that `want` selects. -/
def StoredMessage.awaits (want : Channel → Bool) (a : AgentId) (m : StoredMessage) : Bool :=
  decide (a ∉ m.deliveredTo) && want m.channel

def inbox (want : Channel → Bool) (a : AgentId) (l : List StoredMessage) : List StoredMessage :=
  l.filter (·.awaits want a)

def markWhere (a : AgentId) (sel : StoredMessage → Bool) (l : List StoredMessage) : List StoredMessage :=
  l.map fun m => if sel m then m.deliver a else m

def markDelivered (a : AgentId) (ids : List Nat) (l : List StoredMessage) : List StoredMessage :=
  markWhere a (fun m => decide (m.id ∈ ids)) l

def onChannel (c : Channel) (l : List StoredMessage) : List StoredMessage := l.filter (·.channel = c)

/-- On every channel the sequence numbers are 1, 2, …, n in storage order. -/
def Gapless (l : List StoredMessage) : Prop :=
  ∀ c, (onChannel c l).map (·.seq) = List.range' 1 (onChannel c l).length

section
variable {want : Channel → Bool} {a b : AgentId} {sel : StoredMessage → Bool} {ids : List Nat}
  {l : List StoredMessage} {m : StoredMessage}

theorem StoredMessage.awaits_iff :
    m.awaits want a = true ↔ a ∉ m.deliveredTo ∧ want m.channel = true := by
  simp [awaits]

theorem mem_inbox : m ∈ inbox want a l ↔ m ∈ l ∧ a ∉ m.deliveredTo ∧ want m.channel = true := by
  simp [inbox, StoredMessage.awaits_iff]

theorem inbox_sublist : (inbox want a l).Sublist l := List.filter_sublist

theorem inbox_ids_nodup (hnd : (l.map (·.id)).Nodup) : ((inbox want a l).map (·.id)).Nodup :=
  hnd.sublist (inbox_sublist.map _)

theorem inbox_perm {l₁ l₂ : List StoredMessage} (h : l₁.Perm l₂) :
    (inbox want a l₁).Perm (inbox want a l₂) :=
  h.filter _

theorem map_markWhere {β : Type*} (f : StoredMessage → β) (hf : ∀ m, f (m.deliver a) = f m) :
    (markWhere a sel l).map f = l.map f := by
  simp only [markWhere, List.map_map]
  refine List.map_congr_left fun m _ => ?_
  simp only [Function.comp_apply]
  split
  exacts [hf m, rfl]

@[simp] theorem markWhere_ids : (markWhere a sel l).map (·.id) = l.map (·.id) :=
  map_markWhere _ fun _ => StoredMessage.deliver_id

theorem markWhere_length : (markWhere a sel l).length = l.length := by simp [markWhere]

theorem markWhere_none : markWhere a (fun _ => false) l = l := by simp [markWhere]

theorem markWhere_awaits : markWhere a (·.awaits want a) l = markWhere a (fun m => want m.channel) l := by
  refine List.map_congr_left fun m _ => ?_
  by_cases ha : a ∈ m.deliveredTo <;> simp [StoredMessage.awaits, StoredMessage.deliver, ha]

theorem markWhere_markWhere (sel sel' : StoredMessage → Bool) (hsel : ∀ m, sel' (m.deliver a) = sel' m) :
    markWhere a sel' (markWhere a sel l) = markWhere a (fun m => sel m || sel' m) l := by
  simp only [markWhere, List.map_map]
  refine List.map_congr_left fun m _ => ?_
  by_cases h : sel m = true <;> by_cases h' : sel' m = true <;> simp [h, h', hsel]

theorem exists_markWhere {i : Nat} :
    (∃ m ∈ markWhere a sel l, m.id = i ∧ b ∈ m.deliveredTo) ↔
      ∃ m ∈ l, m.id = i ∧ (b ∈ m.deliveredTo ∨ b = a ∧ sel m = true) := by
  simp only [markWhere, List.mem_map, exists_exists_and_eq_and]
  refine exists_congr fun m => and_congr_right fun _ => ?_
  by_cases hs : sel m = true <;> simp [hs]

/-- Another agent's inbox keeps its messages as they are handed out, in their order. -/
theorem inbox_markWhere_other (hb : b ≠ a) :
    (inbox want b (markWhere a sel l)).map (·.toWire) = (inbox want b l).map (·.toWire) := by
  induction l with
  | nil => rfl
  | cons m l ih =>
    have hm : (if sel m then m.deliver a else m).awaits want b = m.awaits want b ∧
        (if sel m then m.deliver a else m).toWire = m.toWire := by
      split <;> simp [StoredMessage.awaits, hb]
    simp only [inbox, markWhere, List.map_cons, List.filter_cons, hm.1] at ih ⊢
    split
    · simp only [List.map_cons, hm.2, ih]
    · exact ih

/-- The agent's own inbox loses exactly the selected messages. -/
theorem inbox_markWhere_self :
    inbox want a (markWhere a sel l) = (inbox want a l).filter fun m => !sel m := by
  induction l with
  | nil => rfl
  | cons m l ih =>
    simp only [inbox, markWhere, List.map_cons, List.filter_cons] at ih ⊢
    by_cases hs : sel m = true
    · have hd : (m.deliver a).awaits want a = false := by simp [StoredMessage.awaits]
      simp only [hs, ↓reduceIte, hd, Bool.false_eq_true]
      by_cases hm : m.awaits want a = true
      · simp [hm, ih, hs]
      · simp [hm, ih]
    · by_cases hm : m.awaits want a = true
      · simp [hs, hm, ih]
      · simp [hs, hm, ih]

theorem inbox_length_or (want want' : Channel → Bool) :
    (inbox want a l).length + (inbox want' a (markWhere a (fun m => want m.channel) l)).length =
      (inbox (fun c => want c || want' c) a l).length := by
  have h₁ : inbox want a l = (inbox (fun c => want c || want' c) a l).filter fun m => want m.channel := by
    simp only [inbox, List.filter_filter, StoredMessage.awaits]
    refine List.filter_congr fun m _ => ?_
    cases want m.channel <;> simp
  have h₂ : (inbox want' a l).filter (fun m => !want m.channel) =
      (inbox (fun c => want c || want' c) a l).filter fun m => !want m.channel := by
    simp only [inbox, List.filter_filter, StoredMessage.awaits]
    refine List.filter_congr fun m _ => ?_
    cases want m.channel <;> simp
  rw [inbox_markWhere_self, h₁, h₂]
  exact (List.length_eq_length_filter_add fun m : StoredMessage => want m.channel).symm

theorem markDelivered_perm {ids' : List Nat} (h : ids.Perm ids') :
    markDelivered a ids l = markDelivered a ids' l := by
  simp only [markDelivered, h.mem_iff]

theorem filter_notMem_take {α β : Type*} [DecidableEq β] {f : α → β} {p : List α}
    (hnd : (p.map f).Nodup) (k : Nat) :
    (p.filter fun x => !decide (f x ∈ (p.take k).map f)) = p.drop k := by
  have hdisj : ∀ x ∈ p.take k, ∀ y ∈ p.drop k, f x ≠ f y := by
    rw [← List.take_append_drop k p, List.map_append, List.nodup_append] at hnd
    exact fun x hx y hy => hnd.2.2 _ (List.mem_map_of_mem hx) _ (List.mem_map_of_mem hy)
  have hkeep : (p.drop k).filter (fun x => !decide (f x ∈ (p.take k).map f)) = p.drop k := by
    rw [List.filter_eq_self]
    intro y hy
    simp only [List.mem_map, Bool.not_eq_true', decide_eq_false_iff_not, not_exists, not_and]
    exact fun x hx => hdisj x hx y hy
  have hdrop : (p.take k).filter (fun x => !decide (f x ∈ (p.take k).map f)) = [] := by
    rw [List.filter_eq_nil_iff]
    intro x hx
    simpa only [Bool.not_eq_true', decide_eq_false_iff_not, not_not] using List.mem_map_of_mem hx
  conv_lhs => enter [2]; rw [← List.take_append_drop k p]
  rw [List.filter_append, hdrop, hkeep, List.nil_append]

theorem inbox_markDelivered_take (hnd : (l.map (·.id)).Nodup) (k : Nat) :
    inbox want a (markDelivered a (((inbox want a l).take k).map (·.id)) l) =
      (inbox want a l).drop k := by
  rw [markDelivered, inbox_markWhere_self]
  exact filter_notMem_take (inbox_ids_nodup hnd) k

/-! ### Sequence numbers -/

theorem foldr_max_range' (start n : Nat) : (List.range' start (n + 1)).foldr max 0 = start + n := by
  induction n generalizing start with
  | zero => simp
  | succ n ih => rw [List.range'_succ, List.foldr_cons, ih]; omega

theorem onChannel_append {c : Channel} {l₁ l₂ : List StoredMessage} :
    onChannel c (l₁ ++ l₂) = onChannel c l₁ ++ onChannel c l₂ := List.filter_append ..

theorem onChannel_singleton {c : Channel} : onChannel c [m] = if m.channel = c then [m] else [] := by
  simp [onChannel, List.filter_cons]

theorem Gapless.append (h : Gapless l) (hm : m.seq = (onChannel m.channel l).length + 1) :
    Gapless (l ++ [m]) := by
  intro c
  rw [onChannel_append, onChannel_singleton]
  split
  · rename_i hc
    subst hc
    rw [List.map_append, h m.channel, List.length_append, List.length_singleton, List.range'_concat]
    simp [hm, Nat.add_comm]
  · simpa using h c

theorem markWhere_seqs (c : Channel) :
    (onChannel c (markWhere a sel l)).map (·.seq) = (onChannel c l).map (·.seq) := by
  induction l with
  | nil => rfl
  | cons m l ih =>
    have hm : (if sel m then m.deliver a else m).channel = m.channel ∧
        (if sel m then m.deliver a else m).seq = m.seq := by split <;> simp
    simp only [onChannel, markWhere, List.map_cons, List.filter_cons, hm.1] at ih ⊢
    split
    · simp only [List.map_cons, hm.2, ih]
    · exact ih

theorem onChannel_markWhere_length (c : Channel) :
    (onChannel c (markWhere a sel l)).length = (onChannel c l).length := by
  simpa using congrArg List.length (markWhere_seqs c)

theorem Gapless.markWhere (h : Gapless l) : Gapless (markWhere a sel l) := fun c => by
  rw [markWhere_seqs, onChannel_markWhere_length, h c]

end

end Sox
