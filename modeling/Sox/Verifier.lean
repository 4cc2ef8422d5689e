import Mathlib.Data.List.Infix
import Sox.Envelope
import Sox.Lib.Expiring
import Sox.Lib.System

/-!
# The identity verifier and replays

`IdentityVerifier` of `verifier.py`. The code between two awaits of `verify` is a function of its
own: the checks of the request, those of the credential that the registry returned, and the nonce
check under the lock. `verify` is one call without interruption; in `verifySystem` any number of
calls advance step by step while the clock, the registry and the replay cache change. A nonce is
dropped one window after the reading at which it was seen, so a request dated ahead, or a call that
was slow to reach its nonce check, is accepted a second time: `replays_remembered_iff` has the
condition under which none is.
-/

namespace Sox

structure IdentityVerifier where
  crypto : Crypto
  replayWindow : ℚ := 300

/-- What the calls of one verifier share. -/
structure VerifierState where
  registry : CredentialRegistry := .empty
  seenNonces : Dict String ℚ := .empty
  audit : List AuditEntry := []

namespace IdentityVerifier

variable (V : IdentityVerifier)

/-- `abs(now - timestamp)` -/
def age (now : ℚ) : Timestamp → Timestamp
  | .finite t => .finite |now - t|
  | .infinite _ => .infinite false
  | .nan => .nan

/-- `age > replay_window`, which a NaN never is. -/
def outsideWindow : Timestamp → Bool
  | .finite a => V.replayWindow < a
  | .infinite negative => !negative
  | .nan => false

/-- Structural validation and timestamp freshness. -/
def checkRequest (now : ℚ) (req : SignedRequest) : Except IdentityFailure Unit :=
  if req.agentId.isEmpty then .error ⟨.malformedRequest, "agent_id must be non-empty"⟩
  else if req.nonce.isEmpty then .error ⟨.malformedRequest, "nonce must be non-empty"⟩
  else if V.outsideWindow (age now req.timestamp) then
    .error ⟨.malformedRequest, "Request timestamp is outside replay window (age=" ++
      (age now req.timestamp).fixedPoint 1 ++ "s, window=" ++ V.crypto.floatRepr V.replayWindow ++ "s)"⟩
  else .ok ()

/-- Registry answer, revocation and signature; the three failures read alike. -/
def checkCredential (req : SignedRequest) : Option CredentialRecord →
    Except IdentityFailure CredentialRecord
  | none => .error ⟨.unknownAgent, "Identity verification failed"⟩
  | some record =>
    if record.isRevoked then .error ⟨.revokedCredential, "Identity verification failed"⟩
    else if !V.crypto.verifySignature record.publicKey (canonicalPayload req) req.signature then
      .error ⟨.signatureMismatch, "Identity verification failed"⟩
    else .ok record

def pruneReplayCache (now : ℚ) (seen : Dict String ℚ) : Dict String ℚ :=
  seen.filter fun _ ts => !decide (ts < now - V.replayWindow)

/-- Under the lock: prune, check, insert. -/
def checkAndInsertNonce (nonce : String) (now : ℚ) (seen : Dict String ℚ) : Bool × Dict String ℚ :=
  if ((V.pruneReplayCache now seen).get? nonce).isSome then (false, V.pruneReplayCache now seen)
  else (true, (V.pruneReplayCache now seen).set nonce now)

/-- The answer after the nonce check. -/
def conclude (now : ℚ) (connectionId : Option String) (record : CredentialRecord) (inserted : Bool) :
    Except IdentityFailure VerifiedIdentity :=
  if inserted then .ok { agentId := record.agentId, verifiedAt := now, connectionId }
  else .error ⟨.replayDetected, "Duplicate nonce within replay window"⟩

/-- `_fail` writes an audit line; `auditNow` is the audit writer's reading of the clock. -/
def auditEntry (auditNow : ℚ) (operation : String) (connectionId : Option String) (req : SignedRequest)
    (e : IdentityFailure) : AuditEntry where
  ts := auditNow
  claimedAgentId := if req.agentId.isEmpty then none else some req.agentId
  reason := e.reason
  operation
  connectionId

def recordFailure (auditNow : ℚ) (operation : String) (connectionId : Option String) (req : SignedRequest)
    (e : IdentityFailure) (s : VerifierState) : VerifierState :=
  { s with audit := s.audit ++ [auditEntry auditNow operation connectionId req e] }

/-- One call of `verify` that nothing comes between. -/
def verify (now auditNow : ℚ) (operation : String) (connectionId : Option String) (req : SignedRequest)
    (s : VerifierState) : Except IdentityFailure VerifiedIdentity × VerifierState :=
  match V.checkRequest now req with
  | .error e => (.error e, recordFailure auditNow operation connectionId req e s)
  | .ok () =>
    match V.checkCredential req (s.registry.lookup req.agentId) with
    | .error e => (.error e, recordFailure auditNow operation connectionId req e s)
    | .ok record =>
      let checked := V.checkAndInsertNonce req.nonce now s.seenNonces
      let s := { s with seenNonces := checked.2 }
      match conclude now connectionId record checked.1 with
      | .error e => (.error e, recordFailure auditNow operation connectionId req e s)
      | .ok identity => (.ok identity, s)

end IdentityVerifier

/-! ### Interleaved calls -/

/-- Where a call of `verify` waits. -/
inductive VerifyPhase where
  /-- For the registry. -/
  | lookup
  /-- The registry has answered. -/
  | found (record : Option CredentialRecord)
  /-- For the nonces lock. -/
  | nonce (record : CredentialRecord)
  | done (result : Except IdentityFailure VerifiedIdentity)

structure VerifyCall where
  request : SignedRequest
  operation : String
  connectionId : Option String
  /-- The reading the call was started with. -/
  now : ℚ
  phase : VerifyPhase

def VerifyCall.accepted (c : VerifyCall) : Bool :=
  match c.phase with
  | .done (.ok _) => true
  | _ => false

/-- A nonce check that took place, for the statements only. -/
structure NonceCheck where
  request : SignedRequest
  reading : ℚ
  inserted : Bool

def NonceCheck.entry (c : NonceCheck) : Expiring.Check String ℚ :=
  ⟨c.request.nonce, c.reading, c.inserted⟩

structure VerifyRun extends VerifierState where
  clock : ℚ
  calls : List VerifyCall := []
  /-- Newest first. -/
  checks : List NonceCheck := []

inductive VerifyAction where
  | tick (t : ℚ)
  | register (agentId : AgentId) (publicKey : Bytes)
  | revoke (agentId : AgentId)
  | start (req : SignedRequest) (operation : String) (connectionId : Option String)
  /-- The call number `i` runs to its next await. -/
  | resume (i : Nat)

namespace VerifyRun

/-- The requests that were accepted, once for each call. -/
def accepted (s : VerifyRun) : List SignedRequest := (s.calls.filter (·.accepted)).map (·.request)

def log (s : VerifyRun) : List (Expiring.Check String ℚ) := s.checks.map (·.entry)

def update (s : VerifyRun) (i : Nat) (c : VerifyCall) (phase : VerifyPhase) : VerifyRun :=
  { s with calls := s.calls.set i { c with phase } }

/-- The call `i` ends with the failure `e`. -/
def reject (s : VerifyRun) (i : Nat) (c : VerifyCall) (e : IdentityFailure) : VerifyRun :=
  { s.update i c (.done (.error e)) with
    audit := s.audit ++ [IdentityVerifier.auditEntry s.clock c.operation c.connectionId c.request e] }

end VerifyRun

namespace IdentityVerifier

variable (V : IdentityVerifier)

/-- `verify` up to its first await. -/
def start (req : SignedRequest) (operation : String) (connectionId : Option String)
    (s : VerifyRun) : VerifyRun :=
  match V.checkRequest s.clock req with
  | .ok () => { s with calls := s.calls ++ [⟨req, operation, connectionId, s.clock, .lookup⟩] }
  | .error e =>
    { s with
      calls := s.calls ++ [⟨req, operation, connectionId, s.clock, .done (.error e)⟩]
      audit := s.audit ++ [auditEntry s.clock operation connectionId req e] }

def resume (s : VerifyRun) (i : Nat) (c : VerifyCall) : Option VerifyRun :=
  match c.phase with
  | .lookup => some (s.update i c (.found (s.registry.lookup c.request.agentId)))
  | .found found =>
    match V.checkCredential c.request found with
    | .error e => some (s.reject i c e)
    | .ok record => some (s.update i c (.nonce record))
  | .nonce record =>
    let checked := V.checkAndInsertNonce c.request.nonce c.now s.seenNonces
    let s := { s with seenNonces := checked.2, checks := ⟨c.request, c.now, checked.1⟩ :: s.checks }
    match conclude c.now c.connectionId record checked.1 with
    | .error e => some (s.reject i c e)
    | .ok identity => some (s.update i c (.done (.ok identity)))
  | .done _ => none

def step (s : VerifyRun) : VerifyAction → Option VerifyRun
  | .tick t => if s.clock ≤ t then some { s with clock := t } else none
  | .register agentId publicKey =>
    match s.registry.register s.clock agentId publicKey with
    | .ok registry => some { s with registry }
    | .error _ => none
  | .revoke agentId =>
    match s.registry.revoke s.clock agentId with
    | .ok registry => some { s with registry }
    | .error _ => none
  | .start req operation connectionId => some (V.start req operation connectionId s)
  | .resume i => (s.calls[i]?).bind (V.resume s i)

def verifySystem : ActionSystem VerifyRun VerifyAction := ⟨V.step⟩

end IdentityVerifier

/-! ### What a step changes -/

section
variable {α : Type} {p : α → Bool} {l : List α} {i : Nat} {x y : α}

theorem filter_set_of_not (hx : l[i]? = some x) (hpx : p x = false) (hpy : p y = false) :
    (l.set i y).filter p = l.filter p := by
  induction l generalizing i with
  | nil => rfl
  | cons z l ih =>
    cases i with
    | zero =>
      obtain rfl : z = x := by simpa using hx
      simp [hpx, hpy]
    | succ i =>
      simp only [List.getElem?_cons_succ] at hx
      simp only [List.set_cons_succ, List.filter_cons, ih hx]

theorem filter_set_perm (hx : l[i]? = some x) (hpx : p x = false) (hpy : p y = true) :
    ((l.set i y).filter p).Perm (y :: l.filter p) := by
  induction l generalizing i with
  | nil => cases hx
  | cons z l ih =>
    cases i with
    | zero =>
      obtain rfl : z = x := by simpa using hx
      simp [hpx, hpy]
    | succ i =>
      simp only [List.getElem?_cons_succ] at hx
      simp only [List.set_cons_succ, List.filter_cons]
      split
      · exact ((ih hx).cons z).trans (.swap y z _)
      · exact ih hx

end

namespace VerifyRun

variable {s : VerifyRun} {i : Nat} {c : VerifyCall} {phase : VerifyPhase}

theorem accepted_update_of_not (hc : s.calls[i]? = some c) (hca : c.accepted = false)
    (hp : VerifyCall.accepted { c with phase } = false) : (s.update i c phase).accepted = s.accepted := by
  rw [accepted, update, filter_set_of_not hc hca hp, accepted]

theorem accepted_update_perm (hc : s.calls[i]? = some c) (hca : c.accepted = false)
    (hp : VerifyCall.accepted { c with phase } = true) :
    (s.update i c phase).accepted.Perm (c.request :: s.accepted) :=
  (filter_set_perm hc hca hp).map VerifyCall.request

theorem accepted_append (hc : c.accepted = false) :
    accepted { s with calls := s.calls ++ [c] } = s.accepted := by
  simp [accepted, List.filter_append, hc]

end VerifyRun

namespace IdentityVerifier

variable {V : IdentityVerifier} {s s' : VerifyRun} {a : VerifyAction}

theorem check_eq (nonce : String) (now : ℚ) (seen : Dict String ℚ) :
    V.checkAndInsertNonce nonce now seen = Expiring.check V.replayWindow nonce now seen := rfl

/-- The action is the nonce check of the call `c` with the number `i`. -/
def ChecksNonce (s : VerifyRun) (i : Nat) (c : VerifyCall) : Prop :=
  s.calls[i]? = some c ∧ ∃ record, c.phase = .nonce record

/-- The accepted requests, the replay cache and the checks are as before. -/
def Quiet (s s' : VerifyRun) : Prop :=
  s'.accepted = s.accepted ∧ s'.seenNonces = s.seenNonces ∧ s'.checks = s.checks

/-- A step leaves acceptances and nonces alone, or it is a nonce check, which accepts the request of
its call exactly when it inserts the nonce. -/
theorem step_cases (h : V.step s a = some s') :
    (Quiet s s' ∧ ∀ i c, a = .resume i → ¬ChecksNonce s i c) ∨
    ∃ i c, a = .resume i ∧ ChecksNonce s i c ∧
      s'.seenNonces = (V.checkAndInsertNonce c.request.nonce c.now s.seenNonces).2 ∧
      s'.checks = ⟨c.request, c.now,
        (V.checkAndInsertNonce c.request.nonce c.now s.seenNonces).1⟩ :: s.checks ∧
      if (V.checkAndInsertNonce c.request.nonce c.now s.seenNonces).1 then
        s'.accepted.Perm (c.request :: s.accepted)
      else s'.accepted = s.accepted := by
  cases a with
  | tick _ | register _ _ | revoke _ =>
    refine .inl ⟨?_, by simp⟩
    simp only [step] at h
    split at h
    · cases h
      exact ⟨rfl, rfl, rfl⟩
    · cases h
  | start req operation connectionId =>
    refine .inl ⟨?_, by simp⟩
    simp only [step, Option.some.injEq] at h
    subst h
    unfold start
    split
    · exact ⟨VerifyRun.accepted_append rfl, rfl, rfl⟩
    · exact ⟨VerifyRun.accepted_append rfl, rfl, rfl⟩
  | resume i =>
    obtain ⟨c, hc, hr⟩ := Option.bind_eq_some_iff.1 h
    have hother (hne : ∀ record, c.phase ≠ .nonce record) :
        ∀ j d, VerifyAction.resume i = .resume j → ¬ChecksNonce s j d := by
      rintro j d hj ⟨hd, record, hp⟩
      cases hj
      obtain rfl := Option.some.inj (hc.symm.trans hd)
      exact hne record hp
    unfold resume at hr
    split at hr
    · rename_i hp
      cases hr
      have hca : c.accepted = false := by simp [VerifyCall.accepted, hp]
      exact .inl ⟨⟨VerifyRun.accepted_update_of_not hc hca rfl, rfl, rfl⟩, hother (by simp [hp])⟩
    · rename_i found hp
      have hca : c.accepted = false := by simp [VerifyCall.accepted, hp]
      refine .inl ⟨?_, hother (by simp [hp])⟩
      split at hr
      · cases hr
        exact ⟨VerifyRun.accepted_update_of_not hc hca rfl, rfl, rfl⟩
      · cases hr
        exact ⟨VerifyRun.accepted_update_of_not hc hca rfl, rfl, rfl⟩
    · rename_i record hp
      have hca : c.accepted = false := by simp [VerifyCall.accepted, hp]
      refine .inr ⟨i, c, rfl, ⟨hc, record, hp⟩, ?_⟩
      cases hi : (V.checkAndInsertNonce c.request.nonce c.now s.seenNonces).1 with
      | true =>
        simp only [conclude, hi, ↓reduceIte, Option.some.injEq] at hr
        subst hr
        exact ⟨rfl, rfl, VerifyRun.accepted_update_perm hc hca rfl⟩
      | false =>
        simp only [conclude, hi, Bool.false_eq_true, ↓reduceIte, Option.some.injEq] at hr
        subst hr
        exact ⟨rfl, rfl, VerifyRun.accepted_update_of_not hc hca rfl⟩
    · cases hr

/-! ### Replays -/

/-- The replay cache holds what the log of checks remembers, and a request was accepted for every
check that inserted its nonce. -/
structure Inv (V : IdentityVerifier) (s : VerifyRun) : Prop where
  tracks : Expiring.Tracks V.replayWindow s.seenNonces s.log
  accepted : s.accepted.Perm ((s.checks.filter (·.inserted)).map (·.request))

def initial (clock : ℚ) : VerifyRun := { clock }

theorem inv_initial (clock : ℚ) : V.Inv (initial clock) := ⟨Expiring.tracks_empty, .refl _⟩

theorem Inv.step (hI : V.Inv s) (h : V.step s a = some s') : V.Inv s' := by
  rcases step_cases h with ⟨⟨hacc, hseen, hchecks⟩, -⟩ | ⟨i, c, -, -, hseen, hchecks, hacc⟩
  · refine ⟨?_, ?_⟩
    · rw [hseen, VerifyRun.log, hchecks]
      exact hI.tracks
    · rw [hacc, hchecks]
      exact hI.accepted
  · refine ⟨?_, ?_⟩
    · rw [hseen, VerifyRun.log, hchecks, check_eq]
      exact hI.tracks.check _ _
    · rw [hchecks, List.filter_cons]
      split at hacc
      · rename_i hi
        rw [if_pos hi]
        exact hacc.trans (hI.accepted.cons _)
      · rename_i hi
        rw [if_neg hi, hacc]
        exact hI.accepted

/-- A request that was accepted before comes to its nonce check only while its nonce is remembered:
under that nonce some request was accepted at a reading within one window of this check and of every
check since. -/
def RemembersReplays (V : IdentityVerifier) (s : VerifyRun) (a : VerifyAction) : Prop :=
  ∀ i c, a = .resume i → ChecksNonce s i c → c.request ∈ s.accepted →
    Expiring.Remembered V.replayWindow c.request.nonce c.now s.log

/-- A step keeps the acceptances distinct exactly when it remembers replays. -/
theorem step_nodup_iff (hI : V.Inv s) (hnd : s.accepted.Nodup) (h : V.step s a = some s') :
    V.RemembersReplays s a ↔ s'.accepted.Nodup := by
  rcases step_cases h with ⟨⟨hacc, -, -⟩, hquiet⟩ | ⟨i, c, rfl, hc, -, -, hacc⟩
  · rw [hacc]
    exact iff_of_true (fun i c ha hc => absurd hc (hquiet i c ha)) hnd
  · have hG : V.RemembersReplays s (.resume i) ↔
        (c.request ∈ s.accepted → Expiring.Remembered V.replayWindow c.request.nonce c.now s.log) := by
      constructor
      · exact fun hG => hG i c rfl hc
      · rintro hG j d hj ⟨hd, -⟩
        cases hj
        obtain rfl := Option.some.inj (hc.1.symm.trans hd)
        exact hG
    have hentered : (V.checkAndInsertNonce c.request.nonce c.now s.seenNonces).1 = true ↔
        ¬Expiring.Remembered V.replayWindow c.request.nonce c.now s.log := hI.tracks.entered_iff
    rw [hG]
    split at hacc
    · rename_i hi
      have hforgot := hentered.1 hi
      rw [hacc.nodup_iff, List.nodup_cons]
      exact ⟨fun hm => ⟨fun hmem => hforgot (hm hmem), hnd⟩, fun hn hmem => absurd hmem hn.1⟩
    · rename_i hi
      rw [hacc]
      refine iff_of_true (fun _ => ?_) hnd
      exact Classical.not_not.1 fun hforgot => hi (hentered.2 hforgot)

/-- In every interleaving no request is accepted twice, at any time, exactly when every step
remembers replays. -/
theorem replays_remembered_iff (V : IdentityVerifier) {clock : ℚ} {as : List VerifyAction} {s : VerifyRun}
    (hr : V.verifySystem.run (initial clock) as = some s) :
    V.verifySystem.Guarded V.RemembersReplays (initial clock) as ↔
      ∀ bs u, bs <+: as → V.verifySystem.run (initial clock) bs = some u → u.accepted.Nodup := by
  have hnone : (initial clock).accepted.Nodup := List.nodup_nil
  refine ActionSystem.guarded_iff (I := V.Inv) ?_ (inv_initial clock) hnone hr
  intro s act s' hI hnd hstep
  exact ⟨hI.step hstep, step_nodup_iff hI hnd hstep⟩

/-- A verifier for requests whose signatures are all good. -/
def goodSignatures : IdentityVerifier := { crypto := ⟨fun _ _ _ => true, fun _ => "", fun _ => "300.0"⟩ }

/-- Dated one window ahead of the first reading. -/
def aheadRequest : SignedRequest := ⟨"alice", "n1", .finite 300, "send", "", []⟩

/-- The request is verified at 0 and again at `t`. -/
def replayAt (t : ℚ) : List VerifyAction :=
  [.register "alice" (List.replicate 32 0), .start aheadRequest "send" none, .resume 0, .resume 0,
    .resume 0, .tick t,
    .start aheadRequest "send" none, .resume 1, .resume 1, .resume 1]

theorem replays_remembered_within_window :
    goodSignatures.verifySystem.Guarded goodSignatures.RemembersReplays (initial 0) (replayAt 300) := by
  refine (replays_remembered_iff goodSignatures
    (ActionSystem.run_final (by decide +kernel))).2 fun bs u hbs hu => ?_
  have hsafe : ∀ bs ∈ (replayAt 300).inits,
      (goodSignatures.verifySystem.run (initial 0) bs).all (fun u => decide u.accepted.Nodup) = true := by
    decide +kernel
  have hu' := hsafe bs ((List.mem_inits bs _).2 hbs)
  rw [hu] at hu'
  simpa using hu'

/-- At 301 the nonce that was seen at 0 is dropped, and the request, dated 300, is fresh: it is
accepted twice. -/
theorem replay_accepted_twice : ∃ s, goodSignatures.verifySystem.run (initial 0) (replayAt 301) = some s ∧
    s.accepted = [aheadRequest, aheadRequest] :=
  ⟨_, ActionSystem.run_final (by decide +kernel), by decide +kernel⟩

end IdentityVerifier

end Sox
