import Sox.EnforcerCli
import Sox.EnforcerRuns
import Sox.Lib.System

/-!
# Concurrent enforcer hooks

Hook processes over one state database. A process first loads the row of its agent and decides on it,
and later applies its event in a transaction of its own; between the two the others may have written
the row. The runs in which no event is decided on stale counters are serialisable
(`hooks_serialisable`).
-/

namespace Sox

namespace EnforcerCli

open Enforcer

variable {ι : Type*}

inductive HookAction (ι : Type*) where
  | load (p : ι)
  | apply (p : ι)

/-- `snapshots` are the rows that running processes loaded; `log` are the finished ones with what they
decided, in the order of their transactions. -/
structure HookSystem (ι : Type*) where
  db : StateDb
  snapshots : ι → Option State := fun _ => none
  log : List (ι × Decision) := []

namespace HookSystem

def setSnapshot [DecidableEq ι] (s : HookSystem ι) (p : ι) (snapshot : Option State) : HookSystem ι :=
  { s with snapshots := fun q => if q = p then snapshot else s.snapshots q }

/-- `apply_event` of a process that decided on `snapshot`. -/
def finish [DecidableEq ι] (policy : Policy) (hooks : ι → Event) (s : HookSystem ι) (p : ι)
    (snapshot : State) : HookSystem ι :=
  { s.setSnapshot p none with
    db := applyEvent (hooks p).agentId (hooks p).eventType (hooks p).timestamp s.db
    log := s.log ++ [(p, Enforcer.decide (hooks p) snapshot policy)] }

/-- One step of a process; each process runs once. -/
def step [DecidableEq ι] (policy : Policy) (hooks : ι → Event) (s : HookSystem ι) :
    HookAction ι → Option (HookSystem ι)
  | .load p =>
    if (s.snapshots p).isSome ∨ p ∈ s.log.map Prod.fst then none
    else some (s.setSnapshot p (some (Enforcer.load (hooks p).agentId s.db)))
  | .apply p => (s.snapshots p).map (s.finish policy hooks p)

end HookSystem

def hookSystem [DecidableEq ι] (policy : Policy) (hooks : ι → Event) :
    ActionSystem (HookSystem ι) (HookAction ι) := ⟨HookSystem.step policy hooks⟩

/-- Some order of the finished processes gives, run one after another, the same decisions and the same
database. -/
def Serialisable (policy : Policy) (hooks : ι → Event) (db : StateDb) (s : HookSystem ι) : Prop :=
  ∃ order : List ι, order.Perm (s.log.map Prod.fst) ∧
    ((processFrom policy db (order.map hooks)).1.map Prod.snd).Perm (s.log.map Prod.snd) ∧
    (processFrom policy db (order.map hooks)).2 = s.db

/-- What `decide` reads of the row to answer the event. -/
def readFor (policy : Policy) (e : Event) (s : State) : List Int :=
  match e.eventType with
  | .toolUsed => if e.namesRecv then [] else [s.toolCallsSinceDrain]
  | .channelRecv => []
  | .channelSend =>
    if policy.suspectSendAndWait ∧ 0 < s.sendsSinceLastDrain ∧
        policy.sendFollowedByIdleTurns ≤ s.turnsSinceLastDrain then
      [s.sendsSinceLastDrain, s.turnsSinceLastDrain]
    else []
  | .stopRequested => if Enforcer.inboxNonEmpty e s then [1] else []
  | .turnStarted => [s.turnsSinceLastDrain]

/-- An event is applied to a row that still has what its process read. -/
def Fresh (policy : Policy) (hooks : ι → Event) (s : HookSystem ι) : HookAction ι → Prop
  | .load _ => True
  | .apply p => ∀ snapshot ∈ s.snapshots p, readFor policy (hooks p) snapshot =
      readFor policy (hooks p) (Enforcer.load (hooks p).agentId s.db)

instance (policy : Policy) (hooks : ι → Event) (s : HookSystem ι) :
    ∀ action, Decidable (Fresh policy hooks s action)
  | .load _ => isTrue trivial
  | .apply p => inferInstanceAs (Decidable (∀ snapshot ∈ s.snapshots p, _))

variable {policy : Policy} {hooks : ι → Event} {db : StateDb} {s t : HookSystem ι} {p : ι} {a : String}

theorem decide_congr {e : Event} {s s' : State} (h : readFor policy e s = readFor policy e s') :
    Enforcer.decide e s policy = Enforcer.decide e s' policy := by
  unfold readFor at h
  unfold Enforcer.decide
  cases he : e.eventType with
  | toolUsed =>
    rw [he] at h
    by_cases hr : e.namesRecv = true
    · rw [Event.namesRecv] at hr
      simp [hr]
    · simp only [hr, Bool.false_eq_true, if_false, List.cons.injEq, and_true] at h
      rw [h]
  | channelRecv => rfl
  | channelSend =>
    rw [he] at h
    simp only [Bool.and_eq_true, decide_eq_true_eq, and_assoc]
    dsimp only at h
    split at h <;> split at h
    · simp only [List.cons.injEq, and_true] at h
      rw [h.1, h.2]
    · cases h
    · cases h
    · rename_i h₁ h₂
      rw [if_neg h₁, if_neg h₂]
  | stopRequested =>
    rw [he] at h
    have hinbox : Enforcer.inboxNonEmpty e s = Enforcer.inboxNonEmpty e s' := by
      cases h₁ : Enforcer.inboxNonEmpty e s <;> cases h₂ : Enforcer.inboxNonEmpty e s' <;>
        simp [h₁, h₂] at h ⊢
    rw [hinbox]
  | turnStarted =>
    rw [he] at h
    simp only [List.cons.injEq, and_true] at h
    rw [h]

/-- A process that nothing interrupts does what `decideAndApply` does. -/
theorem run_alone [DecidableEq ι] (hp : s.snapshots p = none) (hlog : p ∉ s.log.map Prod.fst) (db : SqliteDb) :
    ∃ t d, (hookSystem policy hooks).run s [.load p, .apply p] = some t ∧
      t.log = s.log ++ [(p, d)] ∧
      decideAndApply policy (hooks p) ⟨db, s.db⟩ = (output d, ⟨db, t.db⟩) := by
  let row := Enforcer.load (hooks p).agentId s.db
  let loaded := s.setSnapshot p (some row)
  have hload : (hookSystem policy hooks).step s (.load p) = some loaded :=
    if_neg fun h => h.elim (by simp [hp]) hlog
  have hsnap : loaded.snapshots p = some row := if_pos rfl
  refine ⟨loaded.finish policy hooks p row, Enforcer.decide (hooks p) row policy, ?_, rfl, rfl⟩
  exact ActionSystem.run_cons.2 ⟨loaded, hload,
    ActionSystem.run_cons.2 ⟨_, Option.map_eq_some_iff.2 ⟨row, hsnap, rfl⟩, rfl⟩⟩

/-! ### Fresh runs are serialisable -/

/-- The log, run as a history, gives the same decisions and the database. -/
structure InLogOrder (policy : Policy) (hooks : ι → Event) (db : StateDb) (s : HookSystem ι) :
    Prop where
  decisions : (processFrom policy db (s.log.map fun l => hooks l.1)).1.map Prod.snd =
    s.log.map Prod.snd
  db : (processFrom policy db (s.log.map fun l => hooks l.1)).2 = s.db

theorem inLogOrder_step [DecidableEq ι] (h : InLogOrder policy hooks db s) (action : HookAction ι)
    (hf : Fresh policy hooks s action) (hs : (hookSystem policy hooks).step s action = some t) :
    InLogOrder policy hooks db t := by
  cases action with
  | load p =>
    change (if _ then none else some _) = some t at hs
    split at hs
    · cases hs
    · cases hs
      exact ⟨h.decisions, h.db⟩
  | apply p =>
    obtain ⟨snapshot, hsnap, rfl⟩ := Option.map_eq_some_iff.1 hs
    have hdecide := decide_congr (hf snapshot hsnap)
    constructor
    · simp only [HookSystem.finish, List.map_append, List.map_cons, List.map_nil, processFrom_concat,
        processOne]
      rw [h.decisions, h.db, hdecide]
    · simp only [HookSystem.finish, List.map_append, List.map_cons, List.map_nil, processFrom_concat,
        processOne]
      rw [h.db]

theorem InLogOrder.serialisable (h : InLogOrder policy hooks db s) :
    Serialisable policy hooks db s := by
  refine ⟨s.log.map Prod.fst, .refl _, ?_, ?_⟩
  · rw [List.map_map]
    exact .of_eq h.decisions
  · rw [List.map_map]
    exact h.db

/-! ### Crossing the threshold -/

/-- The event of a tool other than the recv tool, by agent `a`. -/
def GenericOf (a : String) (e : Event) : Prop :=
  e.eventType = .toolUsed ∧ e.namesRecv = false ∧ e.agentId = a

instance (a : String) (e : Event) : Decidable (GenericOf a e) :=
  inferInstanceAs (Decidable (_ ∧ _ ∧ _))

theorem toolCalls_processFrom {events : List Event} (h : ∀ e ∈ events, GenericOf a e) :
    (load a (processFrom policy db events).2).toolCallsSinceDrain =
      (load a db).toolCallsSinceDrain + events.length := by
  induction events using List.reverseRecOn with
  | nil => simp [processFrom]
  | append_singleton events e ih =>
    obtain ⟨ht, -, ha⟩ := h e (by simp)
    have ih := ih fun e he => h e (by simp [he])
    rw [processFrom_concat]
    show (load a (applyEvent e.agentId e.eventType e.timestamp _)).toolCallsSinceDrain = _
    rw [load_applyEvent, if_pos ha.symm, ht, ha]
    simp only [State.after, ih, List.length_append, List.length_singleton]
    push_cast
    omega

/-- Generic hooks that cross the threshold together: when they are serialisable, one of them answers
with the reminder. -/
theorem Serialisable.crosses (h : Serialisable policy hooks db s) (hne : s.log ≠ [])
    (hgeneric : ∀ p ∈ s.log.map Prod.fst, GenericOf a (hooks p))
    (hcross : policy.reminderThresholdToolCalls ≤
      (load a db).toolCallsSinceDrain + s.log.length) :
    ∃ d ∈ s.log.map Prod.snd, d.action = .inject := by
  obtain ⟨order, hperm, hdecisions, -⟩ := h
  have hlen : order.length = s.log.length := by rw [hperm.length_eq, List.length_map]
  rcases List.eq_nil_or_concat order with rfl | ⟨front, p, rfl⟩
  · exact absurd (List.length_eq_zero_iff.1 hlen.symm) hne
  rw [List.concat_eq_append] at hperm hdecisions hlen
  have hall : ∀ e ∈ front.map hooks, GenericOf a e := by
    intro e he
    obtain ⟨q, hq, rfl⟩ := List.mem_map.1 he
    exact hgeneric q (hperm.subset (by simp [hq]))
  obtain ⟨ht, hr, ha⟩ := hgeneric p (hperm.subset (by simp))
  -- the last process in the order sees all the others counted
  have hcount : (load a (processFrom policy db (front.map hooks)).2).toolCallsSinceDrain = _ :=
    toolCalls_processFrom hall
  rw [List.map_append, List.map_singleton, processFrom_concat, processOne, List.map_append] at hdecisions
  refine ⟨_, hdecisions.subset (List.mem_append_right _ (List.mem_singleton_self _)), ?_⟩
  rw [Event.namesRecv] at hr
  simp only [Enforcer.decide, ht, hr, ha, hcount, Bool.false_eq_true, if_false]
  rw [if_pos]
  · rfl
  · simp only [List.length_append, List.length_singleton] at hlen
    rw [List.length_map]
    omega

/-- A run of hook processes in which every event is applied to counters that its process read is
serialisable; when generic hooks of one agent cross the threshold together, one answers with the
reminder. -/
theorem hooks_serialisable [DecidableEq ι] {actions : List (HookAction ι)}
    (hrun : (hookSystem policy hooks).run { db } actions = some s)
    (hfresh : (hookSystem policy hooks).Guarded (Fresh policy hooks) { db } actions) :
    Serialisable policy hooks db s ∧
      ∀ a, s.log ≠ [] → (∀ p ∈ s.log.map Prod.fst, GenericOf a (hooks p)) →
        policy.reminderThresholdToolCalls ≤ (load a db).toolCallsSinceDrain + s.log.length →
        ∃ d ∈ s.log.map Prod.snd, d.action = .inject := by
  have hinv : InLogOrder policy hooks db s :=
    ActionSystem.run_invariant (fun s action t h hf hs => inLogOrder_step h action hf hs)
      ⟨rfl, rfl⟩ hfresh hrun
  exact ⟨hinv.serialisable, fun a => hinv.serialisable.crosses⟩

def bobTool : Event where
  eventType := .toolUsed
  agentId := "bob"
  timestamp := 0
  toolName := .str "bash"

/-- Three counted calls, two before the reminder. -/
def threeCalls : StateDb := (processAll {} [bobTool, bobTool, bobTool]).2

/-- Two hooks of bob's and one of alice's, on the same tool. -/
def threeHooks : Fin 3 → Event
  | 0 => bobTool
  | 1 => { bobTool with agentId := "alice" }
  | 2 => bobTool

/-- Alice's hook has loaded while both of bob's run. -/
def interleaved : List (HookAction (Fin 3)) := [.load 0, .load 1, .apply 0, .load 2, .apply 2]

/-- The second of bob's hooks reminds; the run in which alice's then applies its event is serialisable. -/
theorem hooks_serialisable_interleaved :
    (∃ s, (hookSystem {} threeHooks).run { db := threeCalls } interleaved = some s ∧
      ∃ d ∈ s.log.map Prod.snd, d.action = .inject) ∧
    ∃ s, (hookSystem {} threeHooks).run { db := threeCalls } (interleaved ++ [.apply 1]) = some s ∧
      s.log.length = 3 ∧ Serialisable {} threeHooks threeCalls s := by
  constructor
  · refine ⟨_, rfl, ?_⟩
    have hrun : (hookSystem {} threeHooks).run { db := threeCalls } interleaved = some _ := rfl
    have hserial := hooks_serialisable hrun (by decide)
    exact hserial.2 "bob" (by decide) (by decide) (by decide)
  · refine ⟨_, rfl, rfl, ?_⟩
    have hrun : (hookSystem {} threeHooks).run { db := threeCalls } (interleaved ++ [.apply 1]) = some _ := rfl
    exact (hooks_serialisable hrun (by decide)).1

/-- Both hooks load the count three: neither reminds. -/
theorem hooks_stale :
    ¬∀ policy (hooks : Bool → Event) db actions s,
      (hookSystem policy hooks).run { db } actions = some s → Serialisable policy hooks db s := by
  intro h
  have hserial := h {} (fun _ => bobTool) threeCalls
    [.load true, .load false, .apply true, .apply false] _ rfl
  obtain ⟨d, hd, hinject⟩ := hserial.crosses (a := "bob") (by decide)
    (fun _ _ => ⟨rfl, by decide, rfl⟩) (by decide)
  revert d
  decide

end EnforcerCli

end Sox
