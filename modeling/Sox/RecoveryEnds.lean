import Sox.ReferenceAgent

/-!
# Recovery comes to an end

Recovery answers the requests that it replays on the channel it is replaying, and each page after the first
starts with the last message of the page before, which is handled again. It ends all the same once the others
leave its channels alone: an answer is no request, a message is handled at most twice, and every page goes
further. `remaining` counts what is left.
-/

namespace Sox.ReferenceAgent

open Cursor

variable {σ : Type}

/-! ### What is left to do -/

/-- Handling a message: a request is answered, and the answer will be handled as well. -/
def effort (floatRepr : ℚ → String) (m : Message) : Nat := if isRequest floatRepr m then 11 else 3

/-- A message behind the cursor may be handled twice, the second time after another page was asked for. -/
def cost (floatRepr : ℚ → String) (k : Int) (m : Message) : Nat :=
  if m.seq ≤ k then effort floatRepr m + 1 else effort floatRepr m + (effort floatRepr m + 1)

def load (floatRepr : ℚ → String) (k : Int) (ms : List Message) : Nat := (ms.map (cost floatRepr k)).sum

def behind (since : Int) (log : List Message) : List Message := Paging.range Message.seq since none log

/-- The channels that are still to come. -/
def later (floatRepr : ℚ → String) (log : Channel → List Message) (rest : List (Channel × Int)) : Nat :=
  (rest.map fun p => 3 + load floatRepr p.2 (behind (p.2 + 1) (log p.1))).sum

/-- The message at hand. -/
def left (floatRepr : ℚ → String) (m : Message) : Handling → Nat
  | .processing => effort floatRepr m
  | .replying => 10
  | .finishing => 2
  | .saving => 1

def remaining (floatRepr : ℚ → String) (log : Channel → List Message) (current : Dict Channel Int) : Position → Nat
  | .channels rest => 1 + later floatRepr log rest
  | .asking c since rest =>
    2 + load floatRepr (current.getD c 0) (behind since (log c)) + later floatRepr log rest
  | .handling c _ hasMore m next page rest =>
    left floatRepr m next + load floatRepr (current.getD c 0) (behind (m.seq + 1) (log c)) + later floatRepr log rest +
      2 + if page = [] ∧ hasMore = true then effort floatRepr m + 1 else 0
  | .complete => 0

def System.remaining (floatRepr : ℚ → String) (log : Channel → σ → List Message) (s : System σ) : Nat :=
  match s.agent with
  | none => 0
  | some a => ReferenceAgent.remaining floatRepr (log · s.store) s.file a.position

/-- A step of the agent, or one of the others that posts nothing on the channels of the file. -/
def Undisturbed (file : Dict Channel Int) : Action → Prop
  | .go _ => True
  | .other op => ∀ c ∈ file.keys, ¬op.PostsTo c
  | .start | .crash => False

def Action.isGo : Action → Bool
  | .go _ => true
  | _ => false

section
variable {floatRepr : ℚ → String} {m : Message} {page ms l l' : List Message} {k since : Int} {c : Channel}
  {rest : List (Channel × Int)} {log log' : Channel → List Message} {file current : Dict Channel Int}
  {told : Channel → List Message} {position : Position} {hasMore : Bool}

theorem load_cons : load floatRepr k (m :: ms) = cost floatRepr k m + load floatRepr k ms := by
  rw [load, List.map_cons, List.sum_cons]
  rfl

theorem cost_le (floatRepr : ℚ → String) (k : Int) (m : Message) :
    cost floatRepr k m ≤ effort floatRepr m + (effort floatRepr m + 1) := by
  rw [cost]
  split <;> omega

theorem cost_of_lt (h : k < m.seq) : cost floatRepr k m = effort floatRepr m + (effort floatRepr m + 1) := by
  rw [cost, if_neg (by omega)]

/-- Behind a message that is due come the others. -/
theorem behind_cons (hasc : l.Pairwise (·.seq < ·.seq)) (h : m :: page <+: behind since l) :
    behind since l = m :: behind (m.seq + 1) l := by
  obtain ⟨rest, hrest⟩ := h
  have hsplit : Paging.range Message.seq since none l = [m] ++ (page ++ rest) := hrest.symm
  have hnext := Paging.range_next hasc hsplit (x := m) List.getLast?_singleton
  rw [behind, behind, hnext, hsplit]
  rfl

/-- Moving the cursor does not change the messages behind both. -/
theorem load_behind {k' : Int} (hk : k ≤ m.seq) (hk' : k' ≤ m.seq) :
    load floatRepr k (behind (m.seq + 1) l) = load floatRepr k' (behind (m.seq + 1) l) := by
  rw [load, load]
  refine congrArg List.sum (List.map_congr_left fun x hx => ?_)
  have hlt := (Paging.mem_range.1 hx).2.1
  rw [cost_of_lt (by omega), cost_of_lt (by omega)]

theorem later_congr (h : ∀ p ∈ rest, log p.1 = log' p.1) : later floatRepr log rest = later floatRepr log' rest := by
  rw [later, later]
  refine congrArg List.sum (List.map_congr_left fun p hp => ?_)
  rw [h p hp]

/-- What is left depends on the logs of the channels that are not done. -/
theorem remaining_congr (hpos : Located file current log' told position)
    (hlog : ∀ c ∈ current.keys, log c = log' c) :
    remaining floatRepr log current position = remaining floatRepr log' current position := by
  have hkey {c : Channel} {k : Int} (h : current.get? c = some k) : log c = log' c :=
    hlog c (List.mem_map_of_mem (Dict.get?_eq_some.1 h))
  have hlater {rest : List (Channel × Int)} (h : Coming current rest) :
      later floatRepr log rest = later floatRepr log' rest := later_congr fun p hp => hkey (h.loaded p hp)
  cases position with
  | complete => rfl
  | channels rest => rw [remaining, remaining, hlater hpos]
  | asking c since rest =>
    obtain ⟨hcoming, -, start, k, -, hk, -⟩ := hpos
    rw [remaining, remaining, hlater hcoming, hkey hk]
  | handling c since hasMore m next page rest =>
    obtain ⟨hcoming, -, start, k, -, hk, -⟩ := hpos
    rw [remaining, remaining, hlater hcoming, hkey hk]

/-- After a message. -/
theorem remaining_after {cursor : Int} (hasc : (log c).Pairwise (·.seq < ·.seq)) (hm : m ∈ log c)
    (hcursor : cursor ≤ m.seq) (hk : current.getD c 0 = m.seq) (hpage : page <+: behind (m.seq + 1) (log c)) :
    remaining floatRepr log current (nextMessage c m.seq hasMore rest page) <
      1 + load floatRepr cursor (behind (m.seq + 1) (log c)) + later floatRepr log rest + 2 +
        if page = [] ∧ hasMore = true then effort floatRepr m + 1 else 0 := by
  rw [load_behind hcursor (Int.le_refl _)]
  cases page with
  | nil =>
    rw [nextMessage]
    split
    · -- the last message of the page comes again
      rename_i hmore
      have hagain : behind m.seq (log c) = m :: behind (m.seq + 1) (log c) := range_self hasc hm
      rw [remaining, hk, hagain, load_cons, cost, if_pos (Int.le_refl _), if_pos ⟨rfl, hmore⟩]
      omega
    · rw [remaining]
      omega
  | cons m' page =>
    rw [nextMessage, remaining, hk, left, behind_cons hasc hpage, load_cons]
    have hlt := (Paging.mem_range.1 (hpage.subset List.mem_cons_self)).2.1
    have hmore : ¬(m' :: page = [] ∧ hasMore = true) := fun h => List.cons_ne_nil _ _ h.1
    rw [cost_of_lt (by omega), if_neg hmore]
    split <;> omega

/-- After a replay. -/
theorem remaining_page (hasc : (log c).Pairwise (·.seq < ·.seq)) (hpage : page = (behind since (log c)).take pageLimit)
    (hmore : hasMore = decide (pageLimit < (behind since (log c)).length)) :
    remaining floatRepr log current (nextMessage c since hasMore rest page) <
      2 + load floatRepr (current.getD c 0) (behind since (log c)) + later floatRepr log rest := by
  have hfull : hasMore = true → page.length = pageLimit := fun h => by
    rw [h] at hmore
    have hlt := of_decide_eq_true hmore.symm
    rw [hpage, List.length_take]
    omega
  cases page with
  | nil =>
    have hnot : ¬hasMore = true := fun h => absurd (hfull h) (by decide)
    rw [nextMessage, if_neg hnot, remaining]
    omega
  | cons m page =>
    have hahead : m :: page <+: behind since (log c) := by
      rw [hpage]
      exact List.take_prefix _ _
    have hlong : ¬(page = [] ∧ hasMore = true) := by
      rintro ⟨rfl, h⟩
      have hone : 1 = pageLimit := hfull h
      exact absurd hone (by decide)
    rw [nextMessage, remaining, left, behind_cons hasc hahead, load_cons, if_neg hlong, cost]
    split <;> omega

theorem left_processed (floatRepr : ℚ → String) (m : Message) :
    left floatRepr m (if isRequest floatRepr m then .replying else .finishing) < left floatRepr m .processing := by
  rw [left.eq_1, effort]
  split
  · exact Nat.lt_succ_self 10
  · exact Nat.lt_succ_self 2

theorem isRequest_reply {y : Message} (h : y.body = replyBody m) : isRequest floatRepr y = false := by
  rw [isRequest, h]
  rfl

/-- The answer is one more message on the channel. -/
theorem load_reply (floatRepr : ℚ → String) (k : Int) {y : Message} (hlog : l' = l ++ [y])
    (hy : y.body = replyBody m) (n : Int) :
    load floatRepr k (behind n l') ≤ load floatRepr k (behind n l) + 7 := by
  rw [behind, hlog, Paging.range, List.filter_append, load, List.map_append, List.sum_append]
  have hcost := cost_le floatRepr k y
  rw [effort, isRequest_reply hy] at hcost
  by_cases hin : Paging.inRange Message.seq n none y = true
  · rw [List.filter_cons_of_pos hin]
    simp only [List.filter_nil, List.map_cons, List.map_nil, List.sum_cons, List.sum_nil]
    exact Nat.add_le_add_left hcost _
  · rw [List.filter_cons_of_neg hin]
    exact Nat.le_add_right _ _

end

/-! ### Every step -/

section
variable {B : BackingStore σ} {replay : Replay σ} {Reach : σ → Prop} {log : Channel → σ → List Message}
  {file : Dict Channel Int} {floatRepr : ℚ → String} {self : AgentId} {s s' t : System σ} {a : Agent} {c : Channel}
  {act : Action}

theorem quiet_ack {now : ℚ} {id status : String} {reason : Option String} :
    ¬(StoreOp.ack now self id status reason).PostsTo c := by
  rintro ⟨reading, t, h⟩
  cases h

/-- The files name the same channels. -/
theorem Inv.mem_keys (h : Inv Reach log file s) (hc : c ∈ s.file.keys) : c ∈ file.keys := by
  by_contra hnot
  have hnone : file.get? c = none := by
    rw [← Option.not_isSome_iff_eq_none, Dict.isSome_get?_iff]
    exact hnot
  have hsome := Dict.isSome_get?_iff.2 hc
  rw [(h.unlisted c hnone).1] at hsome
  cases hsome

variable (R : Replays B replay Reach log)

include R

theorem remaining_go {now : ℚ} (h : Inv Reach log file s) (ha : s.agent = some a)
    (hgo : step B replay floatRepr self now s a = some s') :
    s'.remaining floatRepr log < s.remaining floatRepr log := by
  have hs : s.remaining floatRepr log = remaining floatRepr (log · s.store) s.file a.position := by
    rw [System.remaining, ha]
  rw [hs]
  obtain ⟨hlocated, -, -⟩ := h.agent a ha
  obtain ⟨lastSeq, pending, position⟩ := a
  have hasc (c : Channel) := R.ascending h.reach c
  have hacked (id status : String) (c : Channel) :
      log c (B.apply (.ack now self id status none) s.store) = log c s.store := R.quiet h.reach quiet_ack
  cases step_went B replay floatRepr self now hgo with
  | through => exact Nat.succ_pos _
  | next c k rest =>
    have hk : s.file.getD c 0 = k := by rw [Dict.getD, hlocated.loaded (c, k) List.mem_cons_self]; rfl
    show remaining floatRepr (log · s.store) s.file (.asking c (k + 1) rest) <
      remaining floatRepr (log · s.store) s.file (.channels ((c, k) :: rest))
    rw [remaining, remaining, hk, later, later, List.map_cons, List.sum_cons]
    dsimp only
    omega
  | refused c since rest e hreplay =>
    show remaining floatRepr (log · s.store) s.file (.channels rest) < _
    rw [remaining, remaining]
    omega
  | answered c since rest replayed hasMore hreplay =>
    obtain ⟨hpage, hmore⟩ := Prod.mk.inj (R.page h.reach hreplay)
    exact remaining_page (hasc c) hpage hmore
  | processed c since hasMore m page rest =>
    simp only [System.remaining]
    simp only [hacked]
    have hleft := left_processed floatRepr m
    rw [remaining, remaining]
    omega
  | replied c since hasMore m page rest =>
    obtain ⟨-, hc, start, k, -, -, hm, -⟩ := hlocated
    obtain ⟨y, hbody, hlog⟩ := R.sends (s := s.store) now (replyArgs self m) h.reach
    have hchannel : (replyArgs self m).channel = c := (R.numbered h.reach hm).1
    rw [hchannel] at hlog
    have hothers : later floatRepr (log · (B.apply (.send now (replyArgs self m)) s.store)) rest =
        later floatRepr (log · s.store) rest := by
      refine later_congr fun p hp => R.quiet h.reach ?_
      rintro ⟨reading, t, hposts⟩
      have heq : (replyArgs self m).channel = p.1 := congrArg Prod.fst (Option.some.inj hposts)
      exact hc ((hchannel.symm.trans heq) ▸ List.mem_map_of_mem hp)
    have hload := load_reply floatRepr (s.file.getD c 0) hlog hbody (m.seq + 1)
    simp only [System.remaining]
    rw [remaining, remaining, left, left, hothers]
    omega
  | finished c since hasMore m page rest =>
    simp only [System.remaining]
    simp only [hacked]
    rw [remaining, remaining, left, left]
    omega
  | uncounted c since hasMore m page rest hseq =>
    have hm : m ∈ (log · s.store) c := hlocated.due
    exact absurd hseq (R.numbered h.reach hm).2
  | saved c since hasMore m page rest hseq =>
    obtain ⟨-, -, start, k, -, hk, hm, hat⟩ := hlocated
    have hcurrent : (SeqState.update c m.seq s.file).getD c 0 = m.seq := by
      rw [Dict.getD, get?_update, if_pos rfl]
      rfl
    have hcursor : s.file.getD c 0 ≤ m.seq := by
      rw [Dict.getD, hk]
      exact hat.cursor
    exact remaining_after (hasc c) hm hcursor hcurrent hat.page

theorem remaining_step (h : Inv Reach log file s) (hact : Undisturbed file act)
    (hstep : (recovery B replay floatRepr self).step s act = some s') :
    s'.remaining floatRepr log + (if act.isGo then 1 else 0) ≤ s.remaining floatRepr log := by
  cases act with
  | start | crash => exact absurd hact id
  | go now =>
    obtain ⟨a, ha, hgo⟩ := Option.bind_eq_some_iff.1 hstep
    exact remaining_go R h ha hgo
  | other op =>
    cases hstep
    refine Nat.le_of_eq ?_
    show System.remaining floatRepr log { s with store := B.apply op s.store } = s.remaining floatRepr log
    rw [System.remaining, System.remaining]
    cases ha : s.agent with
    | none => rfl
    | some a =>
      have hsame : ∀ c ∈ s.file.keys, log c (B.apply op s.store) = log c s.store := fun c hc =>
        R.quiet h.reach (hact c (h.mem_keys hc))
      exact remaining_congr (h.agent a ha).1 hsame

theorem remaining_run {bs : List Action} (h : Inv Reach log file s) (hbs : ∀ b ∈ bs, Undisturbed file b)
    (hrun : (recovery B replay floatRepr self).run s bs = some t) :
    bs.countP Action.isGo ≤ s.remaining floatRepr log := by
  have hrank := ActionSystem.run_rank (G := fun _ b => Undisturbed file b) (p := Action.isGo)
    (fun _ _ _ h hact hstep => ⟨h.step R hstep, remaining_step R h hact hstep⟩) h
    (ActionSystem.guarded_of_forall fun b hb _ => hbs b hb) hrun
  omega

omit R in
/-- Only a recovery that is complete has nothing to do. -/
theorem step_isSome (now : ℚ) (ha : a.position ≠ .complete) :
    (step B replay floatRepr self now s a).isSome = true := by
  obtain ⟨lastSeq, pending, position⟩ := a
  unfold step
  cases position with
  | complete => exact absurd rfl ha
  | channels rest =>
    cases rest with
    | nil => rfl
    | cons p rest => rfl
  | asking c since rest => rfl
  | handling c since hasMore m next page rest =>
    cases next with
    | processing | replying | finishing => rfl
    | saving =>
      dsimp only
      split
      · rfl
      · rfl

omit R in
theorem goes_on (now : ℚ) (ha : s.agent = some a) :
    a.position = .complete ∨ ((recovery B replay floatRepr self).step s (.go now)).isSome = true := by
  by_cases hcomplete : a.position = .complete
  · exact .inl hcomplete
  · refine .inr ?_
    show (s.agent.bind (step B replay floatRepr self now s)).isSome = true
    rw [ha]
    exact step_isSome now hcomplete

omit R in
/-- A step does not end the process. -/
theorem step_agent {now : ℚ} (hgo : step B replay floatRepr self now s a = some s') : s'.agent.isSome = true := by
  obtain ⟨lastSeq, pending, position⟩ := a
  cases step_went B replay floatRepr self now hgo with
  | _ => rfl

omit R in
theorem run_agent {bs : List Action} (hbs : ∀ b ∈ bs, Undisturbed file b)
    (hrun : (recovery B replay floatRepr self).run s bs = some t) : t.agent.isSome = s.agent.isSome := by
  refine ActionSystem.run_rel (I := fun _ => True) (G := fun _ b => Undisturbed file b)
    (R := fun s t : System σ => t.agent.isSome = s.agent.isSome) (fun _ => rfl)
    (fun s₁ s₂ s₃ (h : s₂.agent.isSome = s₁.agent.isSome) h' => h'.trans h)
    (fun s b s' _ hact hstep => ⟨trivial, ?_⟩) trivial (ActionSystem.guarded_of_forall fun b hb _ => hbs b hb) hrun
  cases b with
  | start | crash => exact absurd hact id
  | other op => cases hstep; rfl
  | go now =>
    obtain ⟨a, ha, hgo⟩ := Option.bind_eq_some_iff.1 hstep
    rw [step_agent hgo, ha]
    rfl

/-- What is left bounds the steps, and the process goes on. -/
theorem ends_run {bs : List Action} (h : Inv Reach log file s) (hbs : ∀ b ∈ bs, Undisturbed file b)
    (hrun : (recovery B replay floatRepr self).run s bs = some t) :
    bs.countP Action.isGo ≤ s.remaining floatRepr log ∧ t.agent.isSome = s.agent.isSome ∧
      ∀ a, t.agent = some a → ∀ now,
        a.position = .complete ∨ ((recovery B replay floatRepr self).step t (.go now)).isSome = true :=
  ⟨remaining_run R h hbs hrun, run_agent hbs hrun, fun _ ha now => goes_on now ha⟩

end

/-- Once the others leave its channels alone, a recovery that is not killed comes to its end: however its steps and
theirs follow one another, it takes no more than `n` steps, and until it is complete the process is there and can
take the next one. -/
theorem recovery_ends (floatRepr : ℚ → String) (self : AgentId) (file : Dict Channel Int) (ops : List StoreOp)
    (as : List Action) :
    (∀ s, let M := recovery memoryStore replayMemory floatRepr self
      M.run { store := memoryStore.applyAll ops MemoryStore.init, file } as = some s →
        ∃ n, ∀ bs t, M.run s bs = some t → (∀ b ∈ bs, Undisturbed file b) → bs.countP Action.isGo ≤ n ∧
          t.agent.isSome = s.agent.isSome ∧
            ∀ a, t.agent = some a → ∀ now, a.position = .complete ∨ (M.step t (.go now)).isSome = true) ∧
    ∀ s, let M := recovery sqliteStore replaySqlite floatRepr self
      M.run { store := sqliteStore.applyAll ops SqliteStore.init, file } as = some s →
        ∃ n, ∀ bs t, M.run s bs = some t → (∀ b ∈ bs, Undisturbed file b) → bs.countP Action.isGo ≤ n ∧
          t.agent.isSome = s.agent.isSome ∧
            ∀ a, t.agent = some a → ∀ now, a.position = .complete ∨ (M.step t (.go now)).isSome = true := by
  constructor
  · intro s M hrun
    have hinv := inv_run replays_memory (inv_init ⟨ops, rfl⟩) hrun
    exact ⟨_, fun bs t hafter hbs => ends_run replays_memory hinv hbs hafter⟩
  · intro s M hrun
    have hinv := inv_run replays_sqlite (inv_init ⟨ops, rfl⟩) hrun
    exact ⟨_, fun bs t hafter hbs => ends_run replays_sqlite hinv hbs hafter⟩

theorem recovery_ends_bob : ∃ s n, bobAgent.run bobStarts [.start] = some s ∧ ∀ bs t, bobAgent.run s bs = some t →
    (∀ b ∈ bs, Undisturbed bobStarts.file b) → bs.countP Action.isGo ≤ n := by
  have hfinal : bobAgent.run bobStarts [.start] = some (bobAgent.final bobStarts [.start]) := rfl
  obtain ⟨n, hn⟩ := (recovery_ends (fun _ => "") "bob" bobStarts.file tickets [.start]).1 _ hfinal
  exact ⟨_, n, hfinal, fun bs t hrun hbs => (hn bs t hrun hbs).1⟩

end Sox.ReferenceAgent
