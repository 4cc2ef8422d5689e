import Sox.Interchange
import Sox.Posted
import Sox.Lib.Paging

/-!
# Replaying a channel page by page

The messages of a channel are a log in which the sequence numbers ascend and to which the operations
only append, so `replay` gives a page of `Paging`. The loop that goes on behind the last message of each
page while `has_more` is true ends, whatever runs between the pages if `until` is given, and its pages
are the messages between the bounds (`replay_pages_complete`).
-/

namespace Sox

/-! ### The loop -/

/-- After page `i` the store changes as `grow i` says. Nothing when `fuel` pages are not enough. -/
def replayAll {σ : Type} (replay : Int → σ → Except String (List Message × Bool)) (grow : Nat → σ → σ) :
    Nat → Nat → Int → σ → Option (Except String (List Message × σ))
  | 0, _, _, _ => none
  | fuel + 1, i, since, s =>
    match replay since s with
    | .error e => some (.error e)
    | .ok (page, hasMore) =>
      if hasMore then
        (replayAll replay grow fuel (i + 1) (Paging.next Message.seq since page) (grow i s)).map fun r =>
          r.map fun rest => (page ++ rest.1, rest.2)
      else some (.ok (page, s))

def memoryReplay (c : Channel) (untilSeq : Option Int) (limit since : Int) (s : MemoryStore) :
    Except String (List Message × Bool) :=
  .ok (memoryStore.replay c since untilSeq limit s)

/-- The bounds are parameters of the query. -/
def sqliteReplay (c : Channel) (untilSeq : Option Int) (limit since : Int) (s : SqliteStore) :
    Except String (List Message × Bool) :=
  if (Call.replay c since untilSeq limit).bound.all sqliteInteger then
    .ok (sqliteStore.replay c since untilSeq limit s)
  else .error overflowText

/-- The operations up to page `i`. -/
def StoreOp.upTo (ops : List StoreOp) (grow : Nat → List StoreOp) (i : Nat) : List StoreOp :=
  ops ++ (List.range i).flatMap grow

/-- The operation stores a message on the channel. -/
def StoreOp.PostsTo (c : Channel) (op : StoreOp) : Prop := ∃ reading t, op.posts reading = some (c, t)

/-- All messages of the channel between the bounds, once and in the order of their numbers. -/
structure ReplayedFrom (l : List StoredMessage) (c : Channel) (since : Int) (untilSeq : Option Int)
    (out : List Message) : Prop where
  ascending : out.Pairwise (·.seq < ·.seq)
  messages : ∀ m, m ∈ out ↔ ∃ x ∈ l, x.toWire = m ∧ x.channel = c ∧ since ≤ x.seq ∧
    ∀ u ∈ untilSeq, (x.seq : Int) ≤ u

/-! ### The log of a channel -/

/-- The messages of the channel as they are on the wire. -/
def feed (c : Channel) (l : List StoredMessage) : List Message := (wires l).filter (·.channel = c)

section
variable {c : Channel} {l l' : List StoredMessage} {since limit : Int} {untilSeq : Option Int}
  {posted : Option (Channel × ℚ)}

theorem feed_eq (c : Channel) (l : List StoredMessage) : feed c l = wires (onChannel c l) := List.filter_map

theorem Gapless.ascending (h : Gapless l) : (onChannel c l).Pairwise (·.seq < ·.seq) := by
  refine List.pairwise_map.1 ?_
  rw [h c]
  exact List.pairwise_lt_range'

theorem feed_ascending (h : Gapless l) : (feed c l).Pairwise (·.seq < ·.seq) := by
  rw [feed_eq]
  exact List.pairwise_map.2 h.ascending

theorem Appends.feed_isPrefix (h : Appends posted l l') : feed c l <+: feed c l' := by
  obtain ⟨new, hwires, -⟩ := h
  rw [feed, feed, hwires, List.filter_append]
  exact List.prefix_append _ _

/-- Messages on other channels do not matter. -/
theorem Appends.feed_eq (h : Appends posted l l') (hc : ∀ t, posted ≠ some (c, t)) : feed c l' = feed c l := by
  obtain ⟨new, hwires, rfl⟩ := h
  rw [feed, feed, hwires, List.filter_append]
  cases new with
  | none => exact List.append_nil _
  | some m =>
    have hne : m.channel ≠ c := fun heq => hc m.sentAt (by rw [Option.map_some, heq])
    simp [hne]

/-- The rows need no sorting. -/
theorem wires_replayRange (h : Gapless l) :
    wires (replayRange c since untilSeq l) = Paging.range Message.seq since untilSeq (feed c l) := by
  have hfilter : (l.filter fun m => m.channel == c && decide (since ≤ m.seq) && untilSeq.all fun u =>
      decide ((m.seq : Int) ≤ u)) = (onChannel c l).filter (Paging.inRange (·.seq) since untilSeq) := by
    rw [onChannel, List.filter_filter]
    refine List.filter_congr fun m _ => ?_
    rw [Paging.inRange, Bool.and_assoc, Bool.and_comm]
    rfl
  rw [replayRange, hfilter, List.Pairwise.insertionSort_eq ((h.ascending.filter _).imp .inl), feed_eq, wires,
    wires, Paging.range, List.filter_map]
  rfl

theorem replay_page (h : Gapless l) (hlimit : 1 ≤ limit) :
    ((sliceTo limit (replayRange c since untilSeq l)).map (·.toWire),
      decide (limit < (replayRange c since untilSeq l).length)) =
    ((Paging.range Message.seq since untilSeq (feed c l)).take limit.toNat,
      decide (limit.toNat < (Paging.range Message.seq since untilSeq (feed c l)).length)) := by
  rw [← wires_replayRange h]
  refine Prod.ext ?_ ?_
  · rw [sliceTo, if_pos (by omega), wires, List.map_take]
  · refine decide_eq_decide.2 ?_
    rw [wires, List.length_map]
    omega

theorem replayedFrom_range (h : Gapless l) :
    ReplayedFrom l c since untilSeq (Paging.range Message.seq since untilSeq (feed c l)) where
  ascending := (feed_ascending h).filter _
  messages m := by
    rw [Paging.mem_range, feed, List.mem_filter, wires, List.mem_map, decide_eq_true_eq]
    constructor
    · rintro ⟨⟨⟨x, hx, rfl⟩, hc⟩, hrange⟩
      exact ⟨x, hx, rfl, hc, hrange⟩
    · rintro ⟨x, hx, rfl, hc, hrange⟩
      exact ⟨⟨⟨x, hx, rfl⟩, hc⟩, hrange⟩

end

/-! ### Runs of the loop -/

section
variable {σ : Type} {replay : Int → σ → Except String (List Message × Bool)} {grow : Nat → σ → σ}
  {states : Nat → σ} {messages : σ → List StoredMessage} {fits : Int → Prop} {c : Channel}
  {untilSeq : Option Int} {limit : Nat}

/-- While there is more, the next bound is not above the number of a message. -/
theorem next_le {log : List Message} {since : Int} (hasc : log.Pairwise (·.seq < ·.seq)) (hlimit : 1 ≤ limit)
    (hmore : limit < (Paging.range Message.seq since untilSeq log).length) :
    since ≤ Paging.next Message.seq since ((Paging.range Message.seq since untilSeq log).take limit) ∧
      ∃ y ∈ Paging.range Message.seq since untilSeq log,
        Paging.next Message.seq since ((Paging.range Message.seq since untilSeq log).take limit) ≤ y.seq := by
  obtain ⟨x, hx⟩ := Paging.exists_getLast? hlimit hmore
  have hpage : x ∈ (Paging.range Message.seq since untilSeq log).take limit := List.mem_of_getLast? hx
  have hle := (Paging.mem_range.1 (List.mem_of_mem_take hpage)).2.1
  have hrest : (Paging.range Message.seq since untilSeq log).drop limit ≠ [] := by
    rw [ne_eq, List.drop_eq_nil_iff]
    omega
  obtain ⟨y, hy⟩ := List.exists_mem_of_ne_nil _ hrest
  have hboth : (Paging.range Message.seq since untilSeq log).Pairwise (·.seq < ·.seq) := hasc.filter _
  rw [← List.take_append_drop limit (Paging.range Message.seq since untilSeq log)] at hboth
  have hlt := (List.pairwise_append.1 hboth).2.2 x hpage y hy
  rw [Paging.next, hx, Option.elim_some]
  exact ⟨by omega, y, List.mem_of_mem_drop hy, by omega⟩

/-- The loop over a store is the loop over the log of the channel, as long as the bounds fit. -/
theorem replayAll_eq (hstates : ∀ i, states (i + 1) = grow i (states i)) (hlimit : 1 ≤ limit)
    (hgapless : ∀ i, Gapless (messages (states i)))
    (hreplay : ∀ i since, fits since → replay since (states i) = .ok
      ((Paging.range Message.seq since untilSeq (feed c (messages (states i)))).take limit,
        decide (limit < (Paging.range Message.seq since untilSeq (feed c (messages (states i)))).length)))
    (hfits : ∀ i n m, fits n → n ≤ m → ∀ y ∈ Paging.range Message.seq n untilSeq (feed c (messages (states i))),
      m ≤ y.seq → fits m) (fuel i : Nat) (since : Int) (hsince : fits since) :
    replayAll replay grow fuel i since (states i) =
      (Paging.collect Message.seq (fun i => feed c (messages (states i))) untilSeq limit fuel i since).map
        fun r => .ok (r.1, states r.2) := by
  induction fuel generalizing i since with
  | zero => rfl
  | succ fuel ih =>
    rw [replayAll, hreplay i since hsince, Paging.collect]
    dsimp only
    by_cases hmore : limit < (Paging.range Message.seq since untilSeq (feed c (messages (states i)))).length
    · obtain ⟨hle, y, hy, hnext⟩ := next_le (feed_ascending (hgapless i)) hlimit hmore
      rw [if_pos (decide_eq_true hmore), if_pos hmore, ← hstates, ih _ _ (hfits i _ _ hsince hle y hy hnext),
        Option.map_map, Option.map_map]
      rfl
    · rw [if_neg (by simpa using hmore), if_neg hmore]
      rfl

end

/-! ### Growing stores -/

section
variable {σ : Type} {B : BackingStore σ} {messages : σ → List StoredMessage} {init : σ}
  {reading : ℚ → ℚ → ℚ} {c : Channel} {ops more : List StoreOp} {grow : Nat → List StoreOp}

theorem applyAll_upTo_succ (B : BackingStore σ) (ops : List StoreOp) (grow : Nat → List StoreOp) (init : σ)
    (i : Nat) : B.applyAll (StoreOp.upTo ops grow (i + 1)) init =
      B.applyAll (grow i) (B.applyAll (StoreOp.upTo ops grow i) init) := by
  simp [StoreOp.upTo, List.range_succ, BackingStore.applyAll]

variable (happends : ∀ u op, Appends (op.posts reading) (messages (B.applyAll u init))
  (messages (B.apply op (B.applyAll u init))))

include happends

theorem feed_applyAll (u more : List StoreOp) :
    feed c (messages (B.applyAll u init)) <+: feed c (messages (B.applyAll more (B.applyAll u init))) := by
  induction more generalizing u with
  | nil => exact List.prefix_refl _
  | cons op more ih =>
    have hrest := ih (u ++ [op])
    rw [BackingStore.applyAll_append] at hrest
    exact (happends u op).feed_isPrefix.trans hrest

theorem feed_applyAll_eq (u : List StoreOp) (hmore : ∀ op ∈ more, ¬op.PostsTo c) :
    feed c (messages (B.applyAll more (B.applyAll u init))) = feed c (messages (B.applyAll u init)) := by
  induction more generalizing u with
  | nil => rfl
  | cons op more ih =>
    have hrest := ih (u ++ [op]) fun o ho => hmore o (List.mem_cons_of_mem op ho)
    rw [BackingStore.applyAll_append] at hrest
    refine hrest.trans ((happends u op).feed_eq fun t ht => ?_)
    exact hmore op List.mem_cons_self ⟨reading, t, ht⟩

theorem feed_upTo (hgrow : ∀ i, ∀ op ∈ grow i, ¬op.PostsTo c) (i : Nat) :
    feed c (messages (B.applyAll (StoreOp.upTo ops grow i) init)) = feed c (messages (B.applyAll ops init)) := by
  induction i with
  | zero => simp [StoreOp.upTo]
  | succ i ih =>
    rw [applyAll_upTo_succ, feed_applyAll_eq happends _ (hgrow i), ih]

variable (hgapless : ∀ u, Gapless (messages (B.applyAll u init)))

include hgapless

/-- No number in question is above `until`, or above the number of messages when nothing is added. -/
theorem seq_le {untilSeq : Option Int} (hgrow : untilSeq = none → ∀ i, ∀ op ∈ grow i, ¬op.PostsTo c) (i : Nat)
    {m : Message} (hm : m ∈ feed c (messages (B.applyAll (StoreOp.upTo ops grow i) init)))
    (htop : ∀ u ∈ untilSeq, (m.seq : Int) ≤ u) :
    (m.seq : Int) ≤ untilSeq.getD (onChannel c (messages (B.applyAll ops init))).length := by
  cases untilSeq with
  | some u => exact htop u rfl
  | none =>
    rw [feed_upTo happends (hgrow rfl), feed_eq, wires] at hm
    obtain ⟨x, hx, rfl⟩ := List.mem_map.1 hm
    have hseq : x.seq ∈ (onChannel c (messages (B.applyAll ops init))).map (·.seq) := List.mem_map_of_mem hx
    rw [hgapless ops c, List.mem_range'_1] at hseq
    show (x.seq : Int) ≤ ((onChannel c (messages (B.applyAll ops init))).length : Int)
    omega

theorem replayed_all {replay : Int → σ → Except String (List Message × Bool)} {fits : Int → Prop}
    {untilSeq : Option Int} {limit since : Int} (hlimit : 1 ≤ limit)
    (hgrow : untilSeq = none → ∀ i, ∀ op ∈ grow i, ¬op.PostsTo c)
    (hreplay : ∀ s since, fits since → replay since s = .ok
      ((sliceTo limit (replayRange c since untilSeq (messages s))).map (·.toWire),
        decide (limit < (replayRange c since untilSeq (messages s)).length)))
    (hfits : ∀ n m : Int, fits n → n ≤ m →
      m ≤ untilSeq.getD (onChannel c (messages (B.applyAll ops init))).length → fits m)
    (hsince : fits since) {fuel : Nat}
    (hfuel : (untilSeq.getD (onChannel c (messages (B.applyAll ops init))).length + 1 - since).toNat < fuel) :
    ∃ out n, replayAll replay (fun i => B.applyAll (grow i)) fuel 0 since (B.applyAll ops init) =
        some (.ok (out, B.applyAll (StoreOp.upTo ops grow n) init)) ∧
      ReplayedFrom (messages (B.applyAll (StoreOp.upTo ops grow n) init)) c since untilSeq out := by
  have hlim : 1 ≤ limit.toNat := by omega
  have hbound (i : Nat) (m : Message) (hm : m ∈ feed c (messages (B.applyAll (StoreOp.upTo ops grow i) init)))
      (htop : ∀ u ∈ untilSeq, (m.seq : Int) ≤ u) := seq_le happends hgapless hgrow i hm htop
  have hstart : B.applyAll (StoreOp.upTo ops grow 0) init = B.applyAll ops init := by simp [StoreOp.upTo]
  have hlogs (i : Nat) : feed c (messages (B.applyAll (StoreOp.upTo ops grow i) init)) <+:
      feed c (messages (B.applyAll (StoreOp.upTo ops grow (i + 1)) init)) := by
    rw [applyAll_upTo_succ]
    exact feed_applyAll happends _ _
  have hpages : replayAll replay (fun i => B.applyAll (grow i)) fuel 0 since
      (B.applyAll (StoreOp.upTo ops grow 0) init) = (Paging.collect Message.seq
        (fun i => feed c (messages (B.applyAll (StoreOp.upTo ops grow i) init))) untilSeq limit.toNat fuel 0
        since).map fun r => .ok (r.1, B.applyAll (StoreOp.upTo ops grow r.2) init) := by
    refine replayAll_eq (applyAll_upTo_succ B ops grow init) hlim (fun _ => hgapless _)
      (fun i n hn => ?_) (fun i n m hn hle y hy hmy => ?_) fuel 0 since hsince
    · exact (hreplay _ n hn).trans (congrArg Except.ok (replay_page (hgapless _) hlimit))
    · obtain ⟨hmem, -, htop⟩ := Paging.mem_range.1 hy
      exact hfits n m hn hle (hmy.trans (hbound i y hmem htop))
  obtain ⟨out, n, hcollect⟩ : ∃ out n, Paging.collect Message.seq
      (fun i => feed c (messages (B.applyAll (StoreOp.upTo ops grow i) init))) untilSeq limit.toNat fuel 0 since =
        some (out, n) := Paging.collect_terminates hlim hbound hfuel
  obtain ⟨-, rfl⟩ := Paging.collect_eq (fun i => feed_ascending (hgapless _)) hlogs hlim hcollect
  rw [hstart] at hpages
  refine ⟨_, n, ?_, replayedFrom_range (hgapless _)⟩
  rw [hpages, hcollect]
  rfl

end

/-- In either store, whatever ran before and whatever runs between the pages (nothing on the channel when
`until` is not given), the loop ends with all messages between the bounds; SQLite's bounds fit into an
`INTEGER`. -/
theorem replay_pages_complete (c : Channel) (since limit : Int) (untilSeq : Option Int) (hlimit : 1 ≤ limit)
    (ops : List StoreOp) (grow : Nat → List StoreOp)
    (hgrow : untilSeq = none → ∀ i, ∀ op ∈ grow i, ¬op.PostsTo c) :
    (∀ fuel, let s := memoryStore.applyAll ops MemoryStore.init
      (untilSeq.getD (onChannel c s.messages).length + 1 - since).toNat < fuel →
        ∃ out n, let s' := memoryStore.applyAll (StoreOp.upTo ops grow n) MemoryStore.init
          replayAll (memoryReplay c untilSeq limit) (fun i => memoryStore.applyAll (grow i)) fuel 0 since s =
              some (.ok (out, s')) ∧
            ReplayedFrom s'.messages c since untilSeq out) ∧
    (∀ fuel, let s := sqliteStore.applyAll ops SqliteStore.init
      (since :: untilSeq.toList).all sqliteInteger = true →
      (untilSeq = none → (onChannel c s.db.messages).length < 2 ^ 63) →
      (untilSeq.getD (onChannel c s.db.messages).length + 1 - since).toNat < fuel →
        ∃ out n, let s' := sqliteStore.applyAll (StoreOp.upTo ops grow n) SqliteStore.init
          replayAll (sqliteReplay c untilSeq limit) (fun i => sqliteStore.applyAll (grow i)) fuel 0 since s =
              some (.ok (out, s')) ∧
            ReplayedFrom s'.db.messages c since untilSeq out) := by
  constructor
  · intro fuel s hfuel
    exact @replayed_all _ memoryStore (·.messages) MemoryStore.init (fun now _ => now) c ops grow
      (fun u op => MemoryStore.appends_apply op _) (fun u => (MemoryStore.Inv.reachable u).seqs) _
      (fun _ => True) untilSeq limit since hlimit hgrow (fun _ _ _ => rfl) (fun _ _ _ _ _ => trivial) trivial
      fuel hfuel
  · intro fuel s hbounds hrows hfuel
    have htop : ∀ u ∈ untilSeq, sqliteInteger u = true := by
      intro u hu
      exact List.all_eq_true.1 hbounds u (by simp [Option.mem_def.1 hu])
    refine @replayed_all _ sqliteStore (·.db.messages) SqliteStore.init (fun _ sendNow => sendNow) c ops grow
      (fun u op => SqliteStore.appends_apply op (SqliteStore.inv_reachable u))
      (fun u => SqliteStore.gapless_reachable u) _ (fun n => sqliteInteger n = true) untilSeq limit since hlimit
      hgrow (fun t n hn => ?_) (fun n m hn hle hm => ?_) (List.all_eq_true.1 hbounds since (by simp)) fuel hfuel
    · have hall : (Call.replay c n untilSeq limit).bound.all sqliteInteger = true := by
        simp only [Call.bound, List.all_cons, hn, Bool.true_and, List.all_eq_true, Option.mem_toList]
        exact htop
      exact if_pos hall
    · simp only [sqliteInteger, Bool.and_eq_true, decide_eq_true_eq] at hn htop ⊢
      refine ⟨hn.1.trans hle, hm.trans_lt ?_⟩
      cases untilSeq with
      | some u => exact (htop u rfl).2
      | none =>
        show ((onChannel c s.db.messages).length : Int) < 2 ^ 63
        have hcount := hrows rfl
        omega

/-- Pages of one message, and another message after each page. -/
theorem replay_pages_tickets :
    let ticket : SendArgs := ⟨"ticket:1", "alice", .empty, none, none⟩
    let ops : List StoreOp := [.send 1 ticket, .send 2 ticket]
    let grow : Nat → List StoreOp := fun i => [.send (i + 3) ticket]
    ∃ out n, let s := sqliteStore.applyAll (StoreOp.upTo ops grow n) SqliteStore.init
      replayAll (sqliteReplay "ticket:1" (some 4) 1) (fun i => sqliteStore.applyAll (grow i)) 6 0 0
          (sqliteStore.applyAll ops SqliteStore.init) = some (.ok (out, s)) ∧
        ReplayedFrom s.db.messages "ticket:1" 0 (some 4) out := by
  intro ticket ops grow
  obtain ⟨-, hsqlite⟩ := replay_pages_complete "ticket:1" 0 1 (some 4) le_rfl ops grow (by simp)
  exact hsqlite 6 (by decide) (by simp) (by simp)

/-- A bound that no `INTEGER` holds: SQLite raises, where the memory store has nothing to return. -/
theorem replay_pages_raise :
    ¬(∀ (c : Channel) (since limit : Int) (untilSeq : Option Int), 1 ≤ limit → ∀ ops : List StoreOp,
      ∃ fuel out s, replayAll (sqliteReplay c untilSeq limit) (fun _ t => t) fuel 0 since
        (sqliteStore.applyAll ops SqliteStore.init) = some (.ok (out, s))) ∧
    replayAll (memoryReplay "ticket:1" none 100) (fun _ t => t) 1 0 (2 ^ 63) MemoryStore.init =
      some (.ok ([], MemoryStore.init)) := by
  refine ⟨fun h => ?_, rfl⟩
  obtain ⟨fuel, out, s, hrun⟩ := h "ticket:1" (2 ^ 63) 100 none (by decide) []
  cases fuel with
  | zero => cases hrun
  | succ fuel => cases hrun

end Sox
