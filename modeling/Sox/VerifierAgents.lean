import Sox.Lib.Projection
import Sox.Verifier

/-!
# Agents at one verifier

All agents share the replay cache of an `IdentityVerifier`, which is keyed by the nonce alone. A run of
`verifySystem` is compared with the run without the calls of all agents but one. What that agent is
answered differs only at a nonce check: by another agent's nonce that is still in the cache, or, when
calls reach their nonce checks in another order than they were started in, by another agent's later
reading that dropped the agent's own.
-/

namespace Sox

namespace VerifyCall

def isOf (A : AgentId) (c : VerifyCall) : Bool := c.request.agentId == A

/-- Accepted or rejected, once the call has returned. -/
def outcome (c : VerifyCall) : Option Bool :=
  match c.phase with
  | .done (.ok _) => some true
  | .done (.error _) => some false
  | _ => none

def atNonce (c : VerifyCall) : Bool :=
  match c.phase with
  | .nonce _ => true
  | _ => false

end VerifyCall

namespace VerifyRun

def callsOf (s : VerifyRun) (A : AgentId) : List VerifyCall := s.calls.filter (·.isOf A)

def outcomesOf (s : VerifyRun) (A : AgentId) : List (SignedRequest × Option Bool) :=
  (s.callsOf A).map fun c => (c.request, c.outcome)

/-- The checks of the agent's nonces, newest first. -/
def logOf (s : VerifyRun) (A : AgentId) : List (Expiring.Check String ℚ) :=
  (s.checks.filter (·.request.agentId == A)).map (·.entry)

/-- The number that the call number `i` has among the calls of the agent. -/
def rank (s : VerifyRun) (A : AgentId) (i : Nat) : Nat := (s.calls.take i).countP (·.isOf A)

/-- The action in the run without the calls of other agents. -/
def own (A : AgentId) (s : VerifyRun) : VerifyAction → Option VerifyAction
  | .start req operation connectionId =>
    if req.agentId = A then some (.start req operation connectionId) else none
  | .resume i =>
    match s.calls[i]? with
    | some c => if c.isOf A then some (.resume (s.rank A i)) else none
    | none => none
  | a => some a

end VerifyRun

namespace IdentityVerifier

variable (V : IdentityVerifier)

/-- The run without the calls of agents other than `A`. -/
def withoutOthers (A : AgentId) (s : VerifyRun) (as : List VerifyAction) : List VerifyAction :=
  V.verifySystem.project (VerifyRun.own A) s as

/-- At a check of a nonce of `A` the nonce is remembered exactly when it is from the checks of `A`
alone. -/
def Undisturbed (A : AgentId) (s : VerifyRun) (a : VerifyAction) : Prop :=
  ∀ i c, a = .resume i → ChecksNonce s i c → c.request.agentId = A →
    (Expiring.Remembered V.replayWindow c.request.nonce c.now s.log ↔
      Expiring.Remembered V.replayWindow c.request.nonce c.now (s.logOf A))

end IdentityVerifier

/-! ### A place in a filtered list -/

section
variable {α : Type} {p : α → Bool} {l : List α} {i : Nat} {x y : α}

theorem getElem?_filter_countP (hx : l[i]? = some x) (hpx : p x = true) :
    (l.filter p)[(l.take i).countP p]? = some x := by
  induction l generalizing i with
  | nil => cases hx
  | cons z l ih =>
    cases i with
    | zero =>
      obtain rfl : z = x := by simpa using hx
      simp [hpx]
    | succ i =>
      have hrest := ih (i := i) (by simpa using hx)
      by_cases hz : p z = true
      · simpa [hz] using hrest
      · simpa [hz] using hrest

theorem filter_set_countP (hx : l[i]? = some x) (hpx : p x = true) (hpy : p y = true) :
    (l.set i y).filter p = (l.filter p).set ((l.take i).countP p) y := by
  induction l generalizing i with
  | nil => cases hx
  | cons z l ih =>
    cases i with
    | zero =>
      obtain rfl : z = x := by simpa using hx
      simp [hpx, hpy]
    | succ i =>
      have hrest := ih (i := i) (by simpa using hx)
      by_cases hz : p z = true
      · simp [hz, hrest]
      · simp [hz, hrest]

end

/-! ### What a call does -/

namespace IdentityVerifier

variable {V : IdentityVerifier} {A : AgentId} {s s' t t' : VerifyRun} {i j : Nat} {c : VerifyCall}
  {phase : VerifyPhase} {a : VerifyAction}

/-- The answer of the nonce check for the call. -/
def fresh (V : IdentityVerifier) (s : VerifyRun) (c : VerifyCall) : Bool :=
  (V.checkAndInsertNonce c.request.nonce c.now s.seenNonces).1

/-- Where a call gets to, from what the registry and the nonce check say. -/
def nextPhase (V : IdentityVerifier) (registry : CredentialRegistry) (inserted : Bool) (c : VerifyCall) :
    Option VerifyPhase :=
  match c.phase with
  | .lookup => some (.found (registry.lookup c.request.agentId))
  | .found found =>
    match V.checkCredential c.request found with
    | .error e => some (.done (.error e))
    | .ok record => some (.nonce record)
  | .nonce record => some (.done (conclude c.now c.connectionId record inserted))
  | .done _ => none

/-- The call number `i` has moved to `phase`. -/
structure Resumed (V : IdentityVerifier) (s : VerifyRun) (i : Nat) (c : VerifyCall) (phase : VerifyPhase)
    (t : VerifyRun) : Prop where
  clock : t.clock = s.clock
  registry : t.registry = s.registry
  calls : t.calls = s.calls.set i { c with phase }
  checks : t.checks = if c.atNonce then ⟨c.request, c.now, V.fresh s c⟩ :: s.checks else s.checks

theorem resume_spec (h : V.nextPhase s.registry (V.fresh s c) c = some phase) :
    ∃ t, V.resume s i c = some t ∧ V.Resumed s i c phase t := by
  unfold nextPhase at h
  unfold resume
  cases hp : c.phase with
  | lookup =>
    rw [hp] at h
    cases h
    exact ⟨_, rfl, rfl, rfl, rfl, by simp [VerifyCall.atNonce, hp, VerifyRun.update]⟩
  | found found =>
    rw [hp] at h
    dsimp only at h ⊢
    cases hcheck : V.checkCredential c.request found with
    | error e =>
      rw [hcheck] at h
      cases h
      exact ⟨_, rfl, rfl, rfl, rfl, by simp [VerifyCall.atNonce, hp, VerifyRun.reject, VerifyRun.update]⟩
    | ok record =>
      rw [hcheck] at h
      cases h
      exact ⟨_, rfl, rfl, rfl, rfl, by simp [VerifyCall.atNonce, hp, VerifyRun.update]⟩
  | nonce record =>
    rw [hp] at h
    cases h
    have hnonce : c.atNonce = true := by simp [VerifyCall.atNonce, hp]
    dsimp only
    cases hf : V.fresh s c with
    | true =>
      rw [show (V.checkAndInsertNonce c.request.nonce c.now s.seenNonces).1 = true from hf]
      exact ⟨_, rfl, rfl, rfl, rfl, by simp [hnonce, hf, VerifyRun.update]⟩
    | false =>
      rw [show (V.checkAndInsertNonce c.request.nonce c.now s.seenNonces).1 = false from hf]
      exact ⟨_, rfl, rfl, rfl, rfl, by simp [hnonce, hf, VerifyRun.reject, VerifyRun.update]⟩
  | done result =>
    rw [hp] at h
    cases h

theorem resume_cases (h : V.resume s i c = some t) :
    ∃ phase, V.nextPhase s.registry (V.fresh s c) c = some phase ∧ V.Resumed s i c phase t := by
  cases hp : V.nextPhase s.registry (V.fresh s c) c with
  | some phase =>
    obtain ⟨u, hu, hres⟩ := resume_spec (i := i) hp
    obtain rfl : u = t := Option.some.inj (hu.symm.trans h)
    exact ⟨phase, rfl, hres⟩
  | none =>
    unfold nextPhase at hp
    unfold resume at h
    cases hphase : c.phase with
    | lookup => rw [hphase] at hp; cases hp
    | found found =>
      rw [hphase] at hp
      dsimp only at hp
      split at hp <;> cases hp
    | nonce record => rw [hphase] at hp; cases hp
    | done result => rw [hphase] at h; cases h

/-- Away from the nonce check a call does not look at the replay cache. -/
theorem nextPhase_congr {registry : CredentialRegistry} {b b' : Bool} (h : c.atNonce = true → b = b') :
    V.nextPhase registry b c = V.nextPhase registry b' c := by
  unfold nextPhase
  cases hp : c.phase with
  | nonce record => rw [h (by simp [VerifyCall.atNonce, hp])]
  | lookup | found _ | done _ => rfl

def startPhase (V : IdentityVerifier) (now : ℚ) (req : SignedRequest) : VerifyPhase :=
  match V.checkRequest now req with
  | .ok () => .lookup
  | .error e => .done (.error e)

/-- What `start` changes besides the audit log. -/
theorem start_spec (req : SignedRequest) (operation : String) (connectionId : Option String)
    (s : VerifyRun) :
    (V.start req operation connectionId s).clock = s.clock ∧
      (V.start req operation connectionId s).registry = s.registry ∧
      (V.start req operation connectionId s).checks = s.checks ∧
      (V.start req operation connectionId s).calls =
        s.calls ++ [⟨req, operation, connectionId, s.clock, V.startPhase s.clock req⟩] := by
  unfold start startPhase
  cases V.checkRequest s.clock req with
  | ok u => exact ⟨rfl, rfl, rfl, rfl⟩
  | error e => exact ⟨rfl, rfl, rfl, rfl⟩

theorem outcome_conclude (c : VerifyCall) (record : CredentialRecord) (inserted : Bool) :
    VerifyCall.outcome { c with phase := .done (conclude c.now c.connectionId record inserted) } =
      some inserted := by
  cases inserted with
  | false => rfl
  | true => rfl

/-! ### Two runs -/

/-- A state of a run and the state of the run without the others' calls, as long as `A` was answered
alike in both. -/
structure Alongside (V : IdentityVerifier) (A : AgentId) (s s' : VerifyRun) : Prop where
  clock : s'.clock = s.clock
  registry : s'.registry = s.registry
  calls : s'.calls = s.callsOf A
  log : s'.log = s.logOf A
  inv : V.Inv s
  inv' : V.Inv s'

theorem Inv.fresh_iff (hI : V.Inv s) :
    V.fresh s c = true ↔ ¬Expiring.Remembered V.replayWindow c.request.nonce c.now s.log :=
  hI.tracks.entered_iff

theorem Alongside.fresh_eq_iff (h : V.Alongside A s s') : V.fresh s c = V.fresh s' c ↔
    (Expiring.Remembered V.replayWindow c.request.nonce c.now s.log ↔
      Expiring.Remembered V.replayWindow c.request.nonce c.now (s.logOf A)) := by
  rw [Bool.eq_iff_iff, h.inv.fresh_iff, h.inv'.fresh_iff, h.log, not_iff_not]

theorem Alongside.call (h : V.Alongside A s s') (hc : s.calls[i]? = some c) (hA : c.isOf A = true) :
    s'.calls[s.rank A i]? = some c := by
  rw [h.calls]
  exact getElem?_filter_countP hc hA

/-- Without the others a call has the number that it has among the agent's calls. -/
theorem Alongside.rank (h : V.Alongside A s s') (hj : s'.calls[j]? = some c) : s'.rank A j = j := by
  have hlt : j < s'.calls.length := (List.getElem?_eq_some_iff.1 hj).1
  have hall : ∀ d ∈ s'.calls.take j, d.isOf A = true := by
    intro d hd
    have hmem := List.mem_of_mem_take hd
    rw [h.calls, VerifyRun.callsOf, List.mem_filter] at hmem
    exact hmem.2
  rw [VerifyRun.rank, List.countP_eq_length.2 hall, List.length_take]
  omega

theorem Alongside.outcomesOf (h : V.Alongside A s s') : s.outcomesOf A = s'.outcomesOf A := by
  rw [VerifyRun.outcomesOf, VerifyRun.outcomesOf, VerifyRun.callsOf, VerifyRun.callsOf, h.calls,
    VerifyRun.callsOf, List.filter_filter]
  simp only [Bool.and_self]

theorem Resumed.callsOf_own (h : V.Resumed s i c phase t) (hc : s.calls[i]? = some c)
    (hA : c.isOf A = true) : t.callsOf A = (s.callsOf A).set (s.rank A i) { c with phase } := by
  rw [VerifyRun.callsOf, h.calls]
  exact filter_set_countP hc hA hA

theorem Resumed.callsOf_other (h : V.Resumed s i c phase t) (hc : s.calls[i]? = some c)
    (hA : c.isOf A = false) : t.callsOf A = s.callsOf A := by
  rw [VerifyRun.callsOf, h.calls]
  exact filter_set_of_not hc hA hA

/-- What the call that has moved shows of itself. -/
theorem Resumed.outcomesOf_getElem? (h : V.Resumed s i c phase t) (hc : s.calls[i]? = some c)
    (hA : c.isOf A = true) :
    (t.outcomesOf A)[s.rank A i]? = some (c.request, VerifyCall.outcome { c with phase }) := by
  have hplace : (s.callsOf A)[s.rank A i]? = some c := getElem?_filter_countP hc hA
  obtain ⟨hlt, -⟩ := List.getElem?_eq_some_iff.1 hplace
  rw [VerifyRun.outcomesOf, h.callsOf_own hc hA, List.getElem?_map, List.getElem?_set_self hlt]
  rfl

theorem Resumed.logOf (h : V.Resumed s i c phase t) :
    t.logOf A = if c.atNonce ∧ c.isOf A = true then ⟨c.request.nonce, c.now, V.fresh s c⟩ :: s.logOf A
      else s.logOf A := by
  rw [VerifyRun.logOf, h.checks]
  cases c.atNonce with
  | false => rfl
  | true =>
    cases hA : c.isOf A with
    | false =>
      have hne : (c.request.agentId == A) = false := hA
      simp [VerifyRun.logOf, hne]
    | true =>
      have heq : (c.request.agentId == A) = true := hA
      simp [VerifyRun.logOf, heq, NonceCheck.entry]

theorem Alongside.resume_other (h : V.Alongside A s s') (hc : s.calls[i]? = some c)
    (hA : c.isOf A = false) (hstep : V.step s (.resume i) = some t) : V.Alongside A t s' := by
  have hr : V.resume s i c = some t := by simpa [step, hc] using hstep
  obtain ⟨phase, -, hres⟩ := resume_cases hr
  refine ⟨?_, ?_, ?_, ?_, h.inv.step hstep, h.inv'⟩
  · rw [h.clock, hres.clock]
  · rw [h.registry, hres.registry]
  · rw [h.calls, hres.callsOf_other hc hA]
  · rw [h.log, hres.logOf, if_neg (by simp [hA])]

theorem Alongside.resume_own (h : V.Alongside A s s') (hc : s.calls[i]? = some c)
    (hA : c.isOf A = true) (hstep : V.step s (.resume i) = some t)
    (hfresh : c.atNonce = true → V.fresh s c = V.fresh s' c) :
    ∃ t', V.step s' (.resume (s.rank A i)) = some t' ∧ V.Alongside A t t' := by
  have hr : V.resume s i c = some t := by simpa [step, hc] using hstep
  obtain ⟨phase, hphase, hres⟩ := resume_cases hr
  rw [nextPhase_congr hfresh, ← h.registry] at hphase
  obtain ⟨t', ht', hres'⟩ := resume_spec (i := s.rank A i) hphase
  have hstep' : V.step s' (.resume (s.rank A i)) = some t' := by simpa [step, h.call hc hA] using ht'
  refine ⟨t', hstep', ?_, ?_, ?_, ?_, h.inv.step hstep, h.inv'.step hstep'⟩
  · rw [hres'.clock, h.clock, hres.clock]
  · rw [hres'.registry, h.registry, hres.registry]
  · rw [hres'.calls, h.calls, hres.callsOf_own hc hA]
  · rw [VerifyRun.log, hres'.checks, hres.logOf]
    by_cases hn : c.atNonce = true
    · rw [if_pos hn, if_pos ⟨hn, hA⟩, List.map_cons, hfresh hn]
      exact congrArg _ h.log
    · rw [if_neg hn, if_neg fun hand => hn hand.1]
      exact h.log

theorem start_step (req : SignedRequest) (operation : String) (connectionId : Option String)
    (s : VerifyRun) : V.step s (.start req operation connectionId) =
      some (V.start req operation connectionId s) := rfl

theorem Alongside.start_own (h : V.Alongside A s s') {req : SignedRequest} (hA : req.agentId = A)
    (operation : String) (connectionId : Option String) :
    V.Alongside A (V.start req operation connectionId s) (V.start req operation connectionId s') := by
  obtain ⟨hclock, hregistry, hchecks, hcalls⟩ := start_spec (V := V) req operation connectionId s
  obtain ⟨hclock', hregistry', hchecks', hcalls'⟩ := start_spec (V := V) req operation connectionId s'
  refine ⟨?_, ?_, ?_, ?_, h.inv.step (start_step ..), h.inv'.step (start_step ..)⟩
  · rw [hclock', hclock, h.clock]
  · rw [hregistry', hregistry, h.registry]
  · rw [hcalls', VerifyRun.callsOf, hcalls, List.filter_append, h.calls, h.clock]
    simp [VerifyRun.callsOf, VerifyCall.isOf, hA]
  · rw [VerifyRun.log, hchecks', VerifyRun.logOf, hchecks]
    exact h.log

theorem Alongside.start_other (h : V.Alongside A s s') {req : SignedRequest} (hA : req.agentId ≠ A)
    (operation : String) (connectionId : Option String) :
    V.Alongside A (V.start req operation connectionId s) s' := by
  obtain ⟨hclock, hregistry, hchecks, hcalls⟩ := start_spec (V := V) req operation connectionId s
  refine ⟨?_, ?_, ?_, ?_, h.inv.step (start_step ..), h.inv'⟩
  · rw [hclock, h.clock]
  · rw [hregistry, h.registry]
  · rw [VerifyRun.callsOf, hcalls, List.filter_append, h.calls]
    simp [VerifyRun.callsOf, VerifyCall.isOf, hA]
  · rw [VerifyRun.logOf, hchecks]
    exact h.log

/-- A step that moves the clock or the registry takes the two runs along. -/
theorem Alongside.both (h : V.Alongside A s s') (hstep : V.step s a = some t)
    (hstep' : V.step s' a = some t') (hclock : t'.clock = t.clock) (hregistry : t'.registry = t.registry)
    (hcalls : t.calls = s.calls ∧ t'.calls = s'.calls) (hchecks : t.checks = s.checks ∧ t'.checks = s'.checks) :
    V.Alongside A t t' := by
  refine ⟨hclock, hregistry, ?_, ?_, h.inv.step hstep, h.inv'.step hstep'⟩
  · rw [hcalls.2, VerifyRun.callsOf, hcalls.1]
    exact h.calls
  · rw [VerifyRun.log, hchecks.2, VerifyRun.logOf, hchecks.1]
    exact h.log

/-- A step that does not disturb `A` has its counterpart without the others. -/
theorem Alongside.step (h : V.Alongside A s s') (hstep : V.step s a = some t)
    (hG : V.Undisturbed A s a) :
    ∃ t', V.verifySystem.run s' (s.own A a).toList = some t' ∧ V.Alongside A t t' := by
  cases a with
  | tick now =>
    have hle : s.clock ≤ now := by
      by_contra hlt
      simp [IdentityVerifier.step, hlt] at hstep
    have hstep' : V.step s' (.tick now) = some { s' with clock := now } := by
      simp [IdentityVerifier.step, h.clock, hle]
    obtain rfl : { s with clock := now } = t := by simpa [IdentityVerifier.step, hle] using hstep
    exact ⟨_, ActionSystem.run_toList_some.2 hstep',
      h.both hstep hstep' rfl h.registry ⟨rfl, rfl⟩ ⟨rfl, rfl⟩⟩
  | register agentId publicKey =>
    cases hreg : s.registry.register s.clock agentId publicKey with
    | error e => simp [IdentityVerifier.step, hreg] at hstep
    | ok registry =>
      have hstep' : V.step s' (.register agentId publicKey) = some { s' with registry } := by
        simp [IdentityVerifier.step, h.clock, h.registry, hreg]
      obtain rfl : { s with registry } = t := by simpa [IdentityVerifier.step, hreg] using hstep
      exact ⟨_, ActionSystem.run_toList_some.2 hstep',
        h.both hstep hstep' h.clock rfl ⟨rfl, rfl⟩ ⟨rfl, rfl⟩⟩
  | revoke agentId =>
    cases hreg : s.registry.revoke s.clock agentId with
    | error e => simp [IdentityVerifier.step, hreg] at hstep
    | ok registry =>
      have hstep' : V.step s' (.revoke agentId) = some { s' with registry } := by
        simp [IdentityVerifier.step, h.clock, h.registry, hreg]
      obtain rfl : { s with registry } = t := by simpa [IdentityVerifier.step, hreg] using hstep
      exact ⟨_, ActionSystem.run_toList_some.2 hstep',
        h.both hstep hstep' h.clock rfl ⟨rfl, rfl⟩ ⟨rfl, rfl⟩⟩
  | start req operation connectionId =>
    obtain rfl := Option.some.inj hstep
    rw [VerifyRun.own]
    split
    · rename_i hA
      exact ⟨_, ActionSystem.run_toList_some.2 rfl, h.start_own hA operation connectionId⟩
    · rename_i hA
      exact ⟨s', ActionSystem.run_toList_none.2 rfl, h.start_other hA operation connectionId⟩
  | resume i =>
    obtain ⟨c, hc, -⟩ := Option.bind_eq_some_iff.1 hstep
    rw [VerifyRun.own, hc]
    dsimp only
    cases hA : c.isOf A with
    | false => exact ⟨s', ActionSystem.run_toList_none.2 rfl, h.resume_other hc hA hstep⟩
    | true =>
      have hfresh (hn : c.atNonce = true) : V.fresh s c = V.fresh s' c := by
        refine h.fresh_eq_iff.2 (hG i c rfl ⟨hc, ?_⟩ (beq_iff_eq.1 hA))
        unfold VerifyCall.atNonce at hn
        split at hn
        · exact ⟨_, ‹_›⟩
        · cases hn
      obtain ⟨t', hstep', hR⟩ := h.resume_own hc hA hstep hfresh
      exact ⟨t', ActionSystem.run_toList_some.2 hstep', hR⟩

/-- When the calls come to their nonce checks in the order of their readings, an agent is disturbed
exactly by a nonce that is in the window from another agent's accepted request and from none of its
own. -/
theorem undisturbed_iff_of_ordered (hc : ChecksNonce s i c) (hA : c.request.agentId = A)
    (hlog : s.log.Pairwise fun d d' => d'.reading ≤ d.reading) (hnow : ∀ d ∈ s.log, d.reading ≤ c.now) :
    V.Undisturbed A s (.resume i) ↔
      ((∃ d ∈ s.log, d.entered = true ∧ d.key = c.request.nonce ∧ c.now ≤ d.reading + V.replayWindow) →
        ∃ d ∈ s.logOf A, d.entered = true ∧ d.key = c.request.nonce ∧
          c.now ≤ d.reading + V.replayWindow) := by
  have hsub : List.Sublist (s.logOf A) s.log := List.filter_sublist.map _
  have hfull := Expiring.remembered_iff_of_ordered (W := V.replayWindow) (k := c.request.nonce) hlog hnow
  have hown := Expiring.remembered_iff_of_ordered (W := V.replayWindow) (k := c.request.nonce)
    (hlog.sublist hsub) fun d hd => hnow d (hsub.subset hd)
  rw [← hfull, ← hown]
  constructor
  · exact fun hG => (hG i c rfl hc hA).1
  · rintro himp j d hj ⟨hd, -⟩ -
    cases hj
    obtain rfl := Option.some.inj (hc.1.symm.trans hd)
    refine ⟨himp, fun h => hfull.2 ?_⟩
    obtain ⟨e, he, hentered⟩ := hown.1 h
    exact ⟨e, hsub.subset he, hentered⟩

/-- A step after which `A` is answered alike did not disturb it. -/
theorem Alongside.undisturbed (h : V.Alongside A s s') (hstep : V.step s a = some t)
    (hown : V.verifySystem.run s' (s.own A a).toList = some t') (halike : t.outcomesOf A = t'.outcomesOf A) :
    V.Undisturbed A s a := by
  rintro i c rfl ⟨hc, record, hp⟩ hagent
  have hA : c.isOf A = true := beq_iff_eq.2 hagent
  rw [VerifyRun.own, hc] at hown
  simp only [hA, if_true] at hown
  have hc' := h.call hc hA
  have hr : V.resume s i c = some t := by simpa [IdentityVerifier.step, hc] using hstep
  have hr' : V.resume s' (s.rank A i) c = some t' := by
    simpa [verifySystem, IdentityVerifier.step, hc'] using ActionSystem.run_toList_some.1 hown
  obtain ⟨phase, hphase, hres⟩ := resume_cases hr
  obtain ⟨phase', hphase', hres'⟩ := resume_cases hr'
  simp only [nextPhase, hp, Option.some.injEq] at hphase hphase'
  subst hphase hphase'
  have hanswer := hres.outcomesOf_getElem? hc hA
  have hanswer' := hres'.outcomesOf_getElem? hc' hA
  rw [h.rank hc', ← halike, hanswer, outcome_conclude, outcome_conclude] at hanswer'
  exact h.fresh_eq_iff.1 (by simpa using hanswer')

theorem outcomes_alone_iff (V : IdentityVerifier) (A : AgentId) {clock : ℚ} {as : List VerifyAction}
    {s : VerifyRun} (hr : V.verifySystem.run (initial clock) as = some s) :
    V.verifySystem.Guarded (V.Undisturbed A) (initial clock) as ↔
      ∀ bs u, bs <+: as → V.verifySystem.run (initial clock) bs = some u →
        ∃ u', V.verifySystem.run (initial clock) (V.withoutOthers A (initial clock) bs) = some u' ∧
          u.outcomesOf A = u'.outcomesOf A := by
  have hstart : V.Alongside A (initial clock) (initial clock) :=
    ⟨rfl, rfl, rfl, rfl, inv_initial clock, inv_initial clock⟩
  refine ActionSystem.guarded_project_iff (R := V.Alongside A) ?_ ?_ ?_ hstart hr
  · exact fun s s' a t hR hstep hG => hR.step hstep hG
  · exact fun s s' a t t' hR hstep hown halike => hR.undisturbed hstep hown halike
  · exact fun s s' hR => hR.outcomesOf

def requestOf (agentId : AgentId) (nonce : String) : SignedRequest := ⟨agentId, nonce, .finite 0, "send", "", []⟩

/-- bob's request is accepted under the nonce "n1"; then alice's is verified. -/
def bobThenAlice (nonce : String) : List VerifyAction :=
  [.register "bob" (List.replicate 32 0), .register "alice" (List.replicate 32 1),
    .start (requestOf "bob" "n1") "send" none, .resume 0, .resume 0, .resume 0,
    .start (requestOf "alice" nonce) "send" none, .resume 1, .resume 1, .resume 1]

theorem outcomes_alone_other_nonce :
    goodSignatures.verifySystem.Guarded (goodSignatures.Undisturbed "alice") (initial 0)
      (bobThenAlice "n2") := by
  refine (outcomes_alone_iff goodSignatures "alice"
    (ActionSystem.run_final (by decide +kernel))).2 fun bs u hbs hu => ?_
  have halike : ∀ bs ∈ (bobThenAlice "n2").inits, ∀ u ∈ goodSignatures.verifySystem.run (initial 0) bs,
      (goodSignatures.verifySystem.run (initial 0) (goodSignatures.withoutOthers "alice" (initial 0) bs)).map
        (·.outcomesOf "alice") = some (u.outcomesOf "alice") := by
    decide +kernel
  obtain ⟨u', hu', heq⟩ := Option.map_eq_some_iff.1 (halike bs ((List.mem_inits bs _).2 hbs) u hu)
  exact ⟨u', hu', heq.symm⟩

/-- Under bob's nonce alice's request is rejected, and accepted where bob's was never made. -/
theorem outcomes_not_alone :
    ¬∀ (V : IdentityVerifier) (A : AgentId) (clock : ℚ) (as : List VerifyAction) (s s' : VerifyRun),
      V.verifySystem.run (initial clock) as = some s →
      V.verifySystem.run (initial clock) (V.withoutOthers A (initial clock) as) = some s' →
        s.outcomesOf A = s'.outcomesOf A := by
  intro hall
  have halike := hall goodSignatures "alice" 0 (bobThenAlice "n1") _ _
    (ActionSystem.run_final (by decide +kernel)) (ActionSystem.run_final (by decide +kernel))
  revert halike
  decide +kernel

end IdentityVerifier

end Sox
