import Sox.VerifierAgents

/-!
# What a verification leaves behind

Of all calls under way at an `IdentityVerifier` only one that returns touches what the calls share. One
that raises writes its audit line, and what it drops from the replay cache was expired at its reading;
one that succeeds enters its own nonce. A call that succeeds was answered by the registry while it was
under way, with a record that was not revoked; so none does that starts after a revocation.
-/

namespace Sox

namespace IdentityVerifier

variable (V : IdentityVerifier)

/-- A check at the reading `t` does not drop the nonce. -/
def Unexpired (seen : Dict String ℚ) (t : ℚ) (nonce : String) : Prop :=
  ∃ ts, seen.get? nonce = some ts ∧ ¬ts < t - V.replayWindow

/-- In the step from `s` to `s'` the call number `i` returns; `c` is the call when it has. -/
structure Returns (s s' : VerifyRun) (i : Nat) (c : VerifyCall)
    (result : Except IdentityFailure VerifiedIdentity) : Prop where
  call : s'.calls[i]? = some c
  done : c.phase = .done result
  before : ∀ d, s.calls[i]? = some d → ∀ r, d.phase ≠ .done r

/-- The step in which the call `c` raises `e`. -/
structure LeavesNoTrace (s s' : VerifyRun) (c : VerifyCall) (e : IdentityFailure) : Prop where
  nonces : ∀ t nonce, c.now ≤ t →
    (V.Unexpired s'.seenNonces t nonce ↔ V.Unexpired s.seenNonces t nonce)
  audit : s'.audit = s.audit ++ [auditEntry s.clock c.operation c.connectionId c.request e]

/-- The step in which the call `c` succeeds. -/
structure EntersNonce (s s' : VerifyRun) (c : VerifyCall) : Prop where
  fresh : ¬V.Unexpired s.seenNonces c.now c.request.nonce
  entered : s'.seenNonces.get? c.request.nonce = some c.now
  others : ∀ t nonce, c.now ≤ t → nonce ≠ c.request.nonce →
    (V.Unexpired s'.seenNonces t nonce ↔ V.Unexpired s.seenNonces t nonce)
  audit : s'.audit = s.audit

/-- At some time of the run after the call number `i` was started the registry held the record. -/
def Answered (clock : ℚ) (as : List VerifyAction) (i : Nat) (agentId : AgentId)
    (record : CredentialRecord) : Prop :=
  ∃ bs u, bs <+: as ∧ V.verifySystem.run (initial clock) bs = some u ∧ i < u.calls.length ∧
    u.registry.lookup agentId = some record

variable {V} {s s' t : VerifyRun} {i j : Nat} {c d : VerifyCall} {phase : VerifyPhase} {a : VerifyAction}
  {r : Except IdentityFailure VerifiedIdentity} {e : IdentityFailure}

/-! ### One step -/

theorem Returns.of_set (h : Returns s s' j d r) (hc : s.calls[i]? = some c)
    (hcalls : s'.calls = s.calls.set i { c with phase }) : j = i ∧ d = { c with phase } := by
  have hi : i < s.calls.length := (List.getElem?_eq_some_iff.1 hc).1
  have hj := h.call
  rw [hcalls] at hj
  by_cases hji : i = j
  · subst hji
    rw [List.getElem?_set_self hi] at hj
    exact ⟨rfl, (Option.some.inj hj).symm⟩
  · rw [List.getElem?_set_ne hji] at hj
    exact absurd h.done (h.before d hj r)

theorem Returns.of_append (h : Returns s s' j d r) (hcalls : s'.calls = s.calls ++ [c]) :
    j = s.calls.length ∧ d = c := by
  have hj := h.call
  rw [hcalls] at hj
  rcases Nat.lt_or_ge j s.calls.length with hlt | hge
  · rw [List.getElem?_append_left hlt] at hj
    exact absurd h.done (h.before d hj r)
  · rw [List.getElem?_append_right hge] at hj
    obtain ⟨hlt, hd⟩ := List.getElem?_eq_some_iff.1 hj
    have hzero : j - s.calls.length = 0 := by simpa using hlt
    refine ⟨by omega, ?_⟩
    simpa [hzero] using hd.symm

theorem returns_set (hc : s.calls[i]? = some c) (hne : ∀ r, c.phase ≠ .done r)
    (hcalls : s'.calls = s.calls.set i { c with phase := .done r }) :
    Returns s s' i { c with phase := .done r } r := by
  refine ⟨?_, rfl, ?_⟩
  · rw [hcalls, List.getElem?_set_self (List.getElem?_eq_some_iff.1 hc).1]
  · intro d hd
    obtain rfl := Option.some.inj (hc.symm.trans hd)
    exact hne

theorem returns_append (hcalls : s'.calls = s.calls ++ [c]) (hdone : c.phase = .done r) :
    Returns s s' s.calls.length c r := by
  refine ⟨by rw [hcalls, List.getElem?_concat_length], hdone, ?_⟩
  intro d hd
  rw [List.getElem?_eq_none le_rfl] at hd
  cases hd

theorem Returns.of_same (h : Returns s s' j d r) (hcalls : s'.calls = s.calls) : False := by
  have hj := h.call
  rw [hcalls] at hj
  exact h.before d hj r h.done

/-- A check at `now` changes nothing about what is unexpired from then on, but for its own nonce. -/
theorem unexpired_prune {now t : ℚ} (ht : now ≤ t) (seen : Dict String ℚ) (nonce : String) :
    V.Unexpired (V.pruneReplayCache now seen) t nonce ↔ V.Unexpired seen t nonce := by
  constructor
  · rintro ⟨ts, hts, hle⟩
    exact ⟨ts, (Dict.get?_filter.1 hts).1, hle⟩
  · rintro ⟨ts, hts, hle⟩
    refine ⟨ts, Dict.get?_filter.2 ⟨hts, ?_⟩, hle⟩
    have hkept : ¬ts < now - V.replayWindow := fun hlt => hle (by linarith)
    simpa using hkept

theorem unexpired_iff_isSome {now : ℚ} {seen : Dict String ℚ} {nonce : String} :
    V.Unexpired seen now nonce ↔ ((V.pruneReplayCache now seen).get? nonce).isSome = true := by
  rw [Option.isSome_iff_exists]
  constructor
  · rintro ⟨ts, hts, hle⟩
    exact ⟨ts, Dict.get?_filter.2 ⟨hts, by simpa using hle⟩⟩
  · rintro ⟨ts, hts⟩
    obtain ⟨hget, hle⟩ := Dict.get?_filter.1 hts
    exact ⟨ts, hget, by simpa using hle⟩

/-- A step in which no call returns, one in which one raises, or one in which one succeeds. -/
theorem step_effect (h : V.step s a = some s') :
    ((∀ i c r, ¬Returns s s' i c r) ∧ s'.seenNonces = s.seenNonces ∧ s'.audit = s.audit) ∨
    (∃ i c e, Returns s s' i c (.error e) ∧
      (∀ j d r, Returns s s' j d r → d = c ∧ r = .error e) ∧ V.LeavesNoTrace s s' c e) ∨
    ∃ i c identity, Returns s s' i c (.ok identity) ∧
      (∀ j d r, Returns s s' j d r → d = c ∧ r = .ok identity) ∧ V.EntersNonce s s' c := by
  cases a with
  | tick _ | register _ _ | revoke _ =>
    refine .inl ?_
    simp only [step] at h
    split at h
    · cases h
      exact ⟨fun i c r hret => hret.of_same rfl, rfl, rfl⟩
    · cases h
  | start req operation connectionId =>
    simp only [step, Option.some.injEq] at h
    subst h
    unfold start
    split
    · refine .inl ⟨fun i c r hret => ?_, rfl, rfl⟩
      obtain ⟨-, rfl⟩ := hret.of_append rfl
      cases hret.done
    · rename_i e he
      refine .inr (.inl ⟨s.calls.length, ⟨req, operation, connectionId, s.clock, .done (.error e)⟩, e,
        returns_append rfl rfl, fun i d r hret => ?_, fun t nonce _ => Iff.rfl, rfl⟩)
      obtain ⟨-, rfl⟩ := hret.of_append rfl
      exact ⟨rfl, (VerifyPhase.done.inj hret.done).symm⟩
  | resume i =>
    obtain ⟨c, hc, hr⟩ := Option.bind_eq_some_iff.1 h
    unfold resume at hr
    split at hr
    · cases hr
      refine .inl ⟨fun j d r hret => ?_, rfl, rfl⟩
      obtain ⟨-, rfl⟩ := hret.of_set hc rfl
      cases hret.done
    · rename_i found hp
      split at hr
      · rename_i e he
        cases hr
        refine .inr (.inl ⟨i, { c with phase := .done (.error e) }, e, returns_set hc (by simp [hp]) rfl,
          fun j d r hret => ?_, fun t nonce _ => Iff.rfl, rfl⟩)
        obtain ⟨-, rfl⟩ := hret.of_set hc rfl
        exact ⟨rfl, (VerifyPhase.done.inj hret.done).symm⟩
      · cases hr
        refine .inl ⟨fun j d r hret => ?_, rfl, rfl⟩
        obtain ⟨-, rfl⟩ := hret.of_set hc rfl
        cases hret.done
    · rename_i record hp
      by_cases hseen : V.Unexpired s.seenNonces c.now c.request.nonce
      · -- a replay: the cache is pruned and nothing is entered
        have hcheck : V.checkAndInsertNonce c.request.nonce c.now s.seenNonces =
            (false, V.pruneReplayCache c.now s.seenNonces) := if_pos (unexpired_iff_isSome.1 hseen)
        rw [hcheck] at hr
        cases hr
        refine .inr (.inl ⟨i, { c with phase := .done (conclude c.now c.connectionId record false) }, _,
          returns_set hc (by simp [hp]) rfl, fun j d r hret => ?_, fun t nonce ht => unexpired_prune ht _ _, rfl⟩)
        obtain ⟨-, rfl⟩ := hret.of_set hc rfl
        exact ⟨rfl, (VerifyPhase.done.inj hret.done).symm⟩
      · have hcheck : V.checkAndInsertNonce c.request.nonce c.now s.seenNonces =
            (true, (V.pruneReplayCache c.now s.seenNonces).set c.request.nonce c.now) :=
          if_neg fun hsome => hseen (unexpired_iff_isSome.2 hsome)
        rw [hcheck] at hr
        cases hr
        refine .inr (.inr ⟨i, { c with phase := .done (conclude c.now c.connectionId record true) },
          ⟨record.agentId, c.now, c.connectionId, none⟩, returns_set hc (by simp [hp]) rfl,
          fun j d r hret => ?_, hseen, Dict.get?_set_self, ?_, rfl⟩)
        · obtain ⟨-, rfl⟩ := hret.of_set hc rfl
          exact ⟨rfl, (VerifyPhase.done.inj hret.done).symm⟩
        · intro t nonce ht hne
          rw [← unexpired_prune ht s.seenNonces nonce, Unexpired, Unexpired]
          show (∃ ts, ((V.pruneReplayCache c.now s.seenNonces).set _ _).get? nonce = some ts ∧ _) ↔ _
          rw [Dict.get?_set_of_ne hne]
    · cases hr

/-! ### What the registry said -/

/-- A call is new, or as it was, or has moved. -/
theorem step_calls (h : V.step s a = some s') (hj : s'.calls[j]? = some d) :
    s.calls[j]? = some d ∨ (d.now = s.clock ∧ d.phase = V.startPhase s.clock d.request) ∨
      ∃ c phase, s.calls[j]? = some c ∧ V.nextPhase s.registry (V.fresh s c) c = some phase ∧
        d = { c with phase } := by
  cases a with
  | tick _ | register _ _ | revoke _ =>
    simp only [step] at h
    split at h
    · cases h
      exact .inl hj
    · cases h
  | start req operation connectionId =>
    obtain rfl := Option.some.inj h
    obtain ⟨-, -, -, hcalls⟩ := start_spec (V := V) req operation connectionId s
    rw [hcalls] at hj
    rcases Nat.lt_or_ge j s.calls.length with hlt | hge
    · rw [List.getElem?_append_left hlt] at hj
      exact .inl hj
    · rw [List.getElem?_append_right hge] at hj
      obtain rfl := List.mem_singleton.1 (List.mem_of_getElem? hj)
      exact .inr (.inl ⟨rfl, rfl⟩)
  | resume i =>
    obtain ⟨c, hc, hr⟩ := Option.bind_eq_some_iff.1 h
    obtain ⟨phase, hphase, hres⟩ := resume_cases hr
    have hi : i < s.calls.length := (List.getElem?_eq_some_iff.1 hc).1
    rw [hres.calls] at hj
    by_cases hji : i = j
    · subst hji
      rw [List.getElem?_set_self hi] at hj
      exact .inr (.inr ⟨c, phase, hc, hphase, (Option.some.inj hj).symm⟩)
    · rw [List.getElem?_set_ne hji] at hj
      exact .inl hj

theorem Answered.mono {clock : ℚ} {as bs : List VerifyAction} {agentId : AgentId} {record : CredentialRecord}
    (h : V.Answered clock as i agentId record) (hpre : as <+: bs) : V.Answered clock bs i agentId record := by
  obtain ⟨cs, u, hcs, hu⟩ := h
  exact ⟨cs, u, hcs.trans hpre, hu⟩

/-- What a call carries is from the registry. -/
def Grounded (V : IdentityVerifier) (clock : ℚ) (as : List VerifyAction) (i : Nat) (c : VerifyCall) : Prop :=
  match c.phase with
  | .lookup => True
  | .found found => ∀ record, found = some record → V.Answered clock as i c.request.agentId record
  | .nonce record => V.Answered clock as i c.request.agentId record ∧ record.isRevoked = false
  | .done result => ∀ identity, result = .ok identity →
      ∃ record, V.Answered clock as i c.request.agentId record ∧ record.isRevoked = false ∧
        identity = { agentId := record.agentId, verifiedAt := c.now, connectionId := c.connectionId }

theorem checkCredential_ok {req : SignedRequest} {found : Option CredentialRecord} {record : CredentialRecord}
    (h : V.checkCredential req found = .ok record) : found = some record ∧ record.isRevoked = false := by
  unfold checkCredential at h
  split at h
  · cases h
  · split at h
    · cases h
    · rename_i hrev
      split at h
      · cases h
      · cases h
        exact ⟨rfl, by simpa using hrev⟩

theorem Grounded.next {clock : ℚ} {as : List VerifyAction} (hc : V.Grounded clock as i c)
    (hr : V.verifySystem.run (initial clock) as = some s) (hi : i < s.calls.length)
    (hphase : V.nextPhase s.registry (V.fresh s c) c = some phase) :
    V.Grounded clock as i { c with phase } := by
  unfold Grounded at hc
  unfold nextPhase at hphase
  cases hp : c.phase with
  | lookup =>
    rw [hp] at hphase
    obtain rfl := Option.some.inj hphase
    exact fun record hrecord => ⟨as, s, List.prefix_refl as, hr, hi, hrecord⟩
  | found found =>
    rw [hp] at hphase hc
    dsimp only at hphase hc
    cases hcheck : V.checkCredential c.request found with
    | error e =>
      rw [hcheck] at hphase
      obtain rfl := Option.some.inj hphase
      rintro identity ⟨⟩
    | ok record =>
      rw [hcheck] at hphase
      obtain rfl := Option.some.inj hphase
      obtain ⟨hfound, hrev⟩ := checkCredential_ok hcheck
      exact ⟨hc record hfound, hrev⟩
  | nonce record =>
    rw [hp] at hphase hc
    obtain rfl := Option.some.inj hphase
    intro identity hid
    refine ⟨record, hc.1, hc.2, ?_⟩
    unfold conclude at hid
    split at hid
    · exact (Except.ok.inj hid).symm
    · cases hid
  | done result =>
    rw [hp] at hphase
    cases hphase

theorem startPhase_grounded {clock : ℚ} {as : List VerifyAction} {now : ℚ}
    (h : c.phase = V.startPhase now c.request) : V.Grounded clock as i c := by
  unfold Grounded
  rw [h]
  unfold startPhase
  cases V.checkRequest now c.request with
  | ok u => trivial
  | error e => rintro identity ⟨⟩

theorem Grounded.mono {clock : ℚ} {as bs : List VerifyAction} (h : V.Grounded clock as i c)
    (hpre : as <+: bs) : V.Grounded clock bs i c := by
  unfold Grounded at h ⊢
  cases hp : c.phase with
  | lookup => trivial
  | found found =>
    rw [hp] at h
    exact fun record hrecord => (h record hrecord).mono hpre
  | nonce record =>
    rw [hp] at h
    exact ⟨h.1.mono hpre, h.2⟩
  | done result =>
    rw [hp] at h
    intro identity hid
    obtain ⟨record, hans, hrest⟩ := h identity hid
    exact ⟨record, hans.mono hpre, hrest⟩

theorem step_clock (h : V.step s a = some s') : s.clock ≤ s'.clock := by
  cases a with
  | tick t =>
    simp only [step] at h
    split at h
    · cases h
      assumption
    · cases h
  | register _ _ | revoke _ =>
    simp only [step] at h
    split at h
    · cases h
      exact le_rfl
    · cases h
  | start req operation connectionId =>
    obtain rfl := Option.some.inj h
    exact (start_spec (V := V) req operation connectionId s).1.ge
  | resume i =>
    obtain ⟨c, -, hr⟩ := Option.bind_eq_some_iff.1 h
    obtain ⟨phase, -, hres⟩ := resume_cases hr
    exact hres.clock.ge

theorem run_grounded {clock : ℚ} {as : List VerifyAction}
    (hr : V.verifySystem.run (initial clock) as = some s) (hc : s.calls[i]? = some c) :
    V.Grounded clock as i c ∧ c.now ≤ s.clock := by
  induction as using List.reverseRecOn generalizing s c with
  | nil =>
    cases hr
    cases hc
  | append_singleton as a ih =>
    obtain ⟨s₀, hr₀, hlast⟩ := ActionSystem.run_concat.1 hr
    have hpre : as <+: as ++ [a] := List.prefix_append as [a]
    have hclock := step_clock hlast
    rcases step_calls hlast hc with hold | ⟨hnow, hnew⟩ | ⟨c₀, phase, hc₀, hphase, rfl⟩
    · obtain ⟨hground, hle⟩ := ih hr₀ hold
      exact ⟨hground.mono hpre, hle.trans hclock⟩
    · exact ⟨startPhase_grounded hnew, hnow.trans_le hclock⟩
    · obtain ⟨hground, hle⟩ := ih hr₀ hc₀
      have hi : i < s₀.calls.length := (List.getElem?_eq_some_iff.1 hc₀).1
      exact ⟨(hground.next hr₀ hi hphase).mono hpre, hle.trans hclock⟩

/-! ### Revocation -/

/-- No record of the agent is good. -/
def Barred (A : AgentId) (s : VerifyRun) : Prop :=
  ∀ record, s.registry.lookup A = some record → record.isRevoked = true

variable {A : AgentId}

theorem revoke_barred (h : V.step s (.revoke A) = some s') : Barred A s' := by
  simp only [step, CredentialRegistry.revoke] at h
  cases hl : s.registry.lookup A with
  | none =>
    rw [hl] at h
    cases h
  | some existing =>
    rw [hl] at h
    obtain rfl := Option.some.inj h
    have hkey : existing.agentId = A := s.registry.keyed A existing hl
    intro record hrecord
    simp only [CredentialRegistry.lookup, CredentialRegistry.put, hkey, Dict.get?_set_self] at hrecord
    obtain rfl := Option.some.inj hrecord
    rfl

theorem Barred.step (hA : Barred A s) (ha : ∀ key, a ≠ .register A key) (h : V.step s a = some s') :
    Barred A s' := by
  cases a with
  | tick _ =>
    simp only [IdentityVerifier.step] at h
    split at h
    · cases h
      exact hA
    · cases h
  | register B key =>
    have hne : A ≠ B := fun hAB => ha key (by rw [hAB])
    simp only [IdentityVerifier.step] at h
    split at h
    · rename_i registry hreg
      cases h
      unfold CredentialRegistry.register at hreg
      split at hreg
      · cases hreg
      · split at hreg
        · cases hreg
        · obtain rfl := Except.ok.inj hreg
          intro record hrecord
          simp only [CredentialRegistry.lookup, CredentialRegistry.put, Dict.get?_set_of_ne hne] at hrecord
          exact hA record hrecord
    · cases h
  | revoke B =>
    by_cases hAB : B = A
    · subst hAB
      exact revoke_barred h
    · simp only [IdentityVerifier.step, CredentialRegistry.revoke] at h
      cases hl : s.registry.lookup B with
      | none =>
        rw [hl] at h
        cases h
      | some existing =>
        rw [hl] at h
        obtain rfl := Option.some.inj h
        have hkey : existing.agentId = B := s.registry.keyed B existing hl
        intro record hrecord
        simp only [CredentialRegistry.lookup, CredentialRegistry.put, hkey,
          Dict.get?_set_of_ne (Ne.symm hAB)] at hrecord
        exact hA record hrecord
  | start req operation connectionId =>
    obtain rfl := Option.some.inj h
    obtain ⟨-, hregistry, -⟩ := start_spec (V := V) req operation connectionId s
    rw [Barred, hregistry]
    exact hA
  | resume i =>
    obtain ⟨c, -, hr⟩ := Option.bind_eq_some_iff.1 h
    obtain ⟨phase, -, hres⟩ := resume_cases hr
    rw [Barred, hres.registry]
    exact hA

theorem step_calls_length (h : V.step s a = some s') : s.calls.length ≤ s'.calls.length := by
  cases a with
  | tick _ | register _ _ | revoke _ =>
    simp only [step] at h
    split at h
    · cases h
      exact le_rfl
    · cases h
  | start req operation connectionId =>
    obtain rfl := Option.some.inj h
    obtain ⟨-, -, -, hcalls⟩ := start_spec (V := V) req operation connectionId s
    rw [hcalls, List.length_append]
    omega
  | resume i =>
    obtain ⟨c, -, hr⟩ := Option.bind_eq_some_iff.1 h
    obtain ⟨phase, -, hres⟩ := resume_cases hr
    rw [hres.calls, List.length_set]

theorem run_calls_length {bs : List VerifyAction} (hr : V.verifySystem.run s bs = some t) :
    s.calls.length ≤ t.calls.length :=
  ActionSystem.run_rel (I := fun _ => True) (R := fun s t => s.calls.length ≤ t.calls.length)
    (fun _ => le_rfl) (fun _ _ _ => le_trans) (fun _ _ _ _ _ h => ⟨trivial, step_calls_length h⟩) trivial
    (ActionSystem.guarded_of_forall (G := fun _ _ => True) fun _ _ _ => trivial) hr

/-- A call that starts after the agent was revoked is not accepted, until the agent is registered. -/
theorem revoked_not_accepted {clock : ℚ} {as bs : List VerifyAction}
    (hr : V.verifySystem.run (initial clock) as = some s) (h : V.step s (.revoke A) = some s')
    (hrest : V.verifySystem.run s' bs = some t) (hbs : ∀ key, .register A key ∉ bs)
    (hi : s'.calls.length ≤ i) (hc : t.calls[i]? = some c) (hA : c.request.agentId = A) :
    c.accepted = false := by
  have hrevoked : V.verifySystem.run (initial clock) (as ++ [.revoke A]) = some s' :=
    ActionSystem.run_concat.2 ⟨s, hr, h⟩
  have hall : V.verifySystem.run (initial clock) ((as ++ [.revoke A]) ++ bs) = some t :=
    ActionSystem.run_append.2 ⟨s', hrevoked, hrest⟩
  obtain ⟨hground, -⟩ := run_grounded hall hc
  by_contra hacc
  unfold VerifyCall.accepted at hacc
  split at hacc
  · rename_i identity hphase
    unfold Grounded at hground
    rw [hphase] at hground
    obtain ⟨record, ⟨cs, u, hcs, hu, hiu, hlookup⟩, hgood, -⟩ := hground identity rfl
    rw [hA] at hlookup
    -- the registry's answer came after the revocation
    rcases List.prefix_or_prefix_of_prefix hcs (List.prefix_append (as ++ [.revoke A]) bs) with hle | hle
    · obtain ⟨ds, hds⟩ := hle
      rw [← hds] at hrevoked
      obtain ⟨u', hu', hrun⟩ := ActionSystem.run_append.1 hrevoked
      obtain rfl : u = u' := Option.some.inj (hu.symm.trans hu')
      have hlen := run_calls_length hrun
      omega
    · obtain ⟨ds, rfl⟩ := hle
      obtain ⟨s₂, hs₂, hrun⟩ := ActionSystem.run_append.1 hu
      obtain rfl : s' = s₂ := Option.some.inj (hrevoked.symm.trans hs₂)
      have hds : ds <+: bs := (List.prefix_append_right_inj _).1 hcs
      have hbarred : Barred A u := by
        refine ActionSystem.run_invariant (G := fun _ a => ∀ key, a ≠ .register A key)
          (fun s a s' hs ha hstep => hs.step ha hstep) (revoke_barred h) ?_ hrun
        refine ActionSystem.guarded_of_forall fun b hb _ key hkey => hbs key ?_
        rw [← hkey]
        exact hds.subset hb
      rw [hbarred record hlookup] at hgood
      cases hgood
  · exact hacc rfl

/-- What a step of a run does for the call that returns in it, and that a revocation lasts. -/
theorem failures_leave_no_trace (V : IdentityVerifier) {clock : ℚ} {as : List VerifyAction} {s : VerifyRun}
    (hr : V.verifySystem.run (initial clock) as = some s) {a : VerifyAction} {s' : VerifyRun}
    (h : V.step s a = some s') :
    (∀ i c e, Returns s s' i c (.error e) → c.now ≤ s'.clock ∧ V.LeavesNoTrace s s' c e) ∧
    (∀ i c identity, Returns s s' i c (.ok identity) → c.now ≤ s'.clock ∧ V.EntersNonce s s' c ∧
      ∃ record, V.Answered clock (as ++ [a]) i c.request.agentId record ∧ record.isRevoked = false ∧
        record.agentId = c.request.agentId ∧
        identity = { agentId := record.agentId, verifiedAt := c.now, connectionId := c.connectionId }) ∧
    ((∀ i c r, ¬Returns s s' i c r) → s'.seenNonces = s.seenNonces ∧ s'.audit = s.audit) ∧
    ∀ A bs t i c, a = .revoke A → V.verifySystem.run s' bs = some t → (∀ key, .register A key ∉ bs) →
      s'.calls.length ≤ i → t.calls[i]? = some c → c.request.agentId = A → c.accepted = false := by
  have hr' : V.verifySystem.run (initial clock) (as ++ [a]) = some s' := ActionSystem.run_concat.2 ⟨s, hr, h⟩
  refine ⟨?_, ?_, ?_, ?_⟩
  · intro i c e hret
    refine ⟨(run_grounded hr' hret.call).2, ?_⟩
    rcases step_effect h with ⟨hnone, -⟩ | ⟨-, c', e', -, hret', htrace⟩ | ⟨-, c', identity', -, hret', -⟩
    · exact absurd hret (hnone i c _)
    · obtain ⟨rfl, he⟩ := hret' i c _ hret
      obtain rfl := Except.error.inj he
      exact htrace
    · obtain ⟨-, he⟩ := hret' i c _ hret
      cases he
  · intro i c identity hret
    obtain ⟨hground, hnow⟩ := run_grounded hr' hret.call
    refine ⟨hnow, ?_, ?_⟩
    · rcases step_effect h with ⟨hnone, -⟩ | ⟨-, c', e', -, hret', -⟩ | ⟨-, c', identity', -, hret', henters⟩
      · exact absurd hret (hnone i c _)
      · obtain ⟨-, he⟩ := hret' i c _ hret
        cases he
      · obtain ⟨rfl, -⟩ := hret' i c _ hret
        exact henters
    · unfold Grounded at hground
      rw [hret.done] at hground
      obtain ⟨record, hans, hgood, hid⟩ := hground identity rfl
      obtain ⟨bs, u, -, -, -, hlookup⟩ := id hans
      exact ⟨record, hans, hgood, u.registry.keyed _ _ hlookup, hid⟩
  · intro hnone
    rcases step_effect h with ⟨-, hsame⟩ | ⟨i, c, e, hret, -⟩ | ⟨i, c, identity, hret, -⟩
    · exact hsame
    · exact absurd hret (hnone i c _)
    · exact absurd hret (hnone i c _)
  · rintro A bs t i c rfl hrest hbs hi hc hA
    exact revoked_not_accepted hr h hrest hbs hi hc hA

/-- alice is accepted, and then revoked. -/
def acceptedThenRevoked : List VerifyAction :=
  [.register "alice" (List.replicate 32 1), .start (requestOf "alice" "n1") "send" none, .resume 0,
    .resume 0, .resume 0]

/-- Her next request. -/
def afterRevocation : List VerifyAction := [.start (requestOf "alice" "n2") "send" none, .resume 1, .resume 1]

theorem failures_leave_no_trace_revoked :
    ∃ s' t c, goodSignatures.verifySystem.run (initial 0) (acceptedThenRevoked ++ [.revoke "alice"]) = some s' ∧
      goodSignatures.verifySystem.run s' afterRevocation = some t ∧
      t.accepted = [requestOf "alice" "n1"] ∧ t.calls[1]? = some c ∧ c.accepted = false := by
  have hrun : goodSignatures.verifySystem.run (initial 0) (acceptedThenRevoked ++ [.revoke "alice"]) = some _ :=
    ActionSystem.run_final (by decide +kernel)
  have hall : goodSignatures.verifySystem.run (initial 0)
      ((acceptedThenRevoked ++ [.revoke "alice"]) ++ afterRevocation) = some _ :=
    ActionSystem.run_final (by decide +kernel)
  obtain ⟨s', hs', ht⟩ := ActionSystem.run_append.1 hall
  obtain ⟨s, hs, hstep⟩ := ActionSystem.run_concat.1 hs'
  have hlen : s'.calls.length = 1 := by
    rw [Option.some.inj (hs'.symm.trans hrun)]
    decide +kernel
  have hnext : ((goodSignatures.verifySystem.final (initial 0)
      ((acceptedThenRevoked ++ [.revoke "alice"]) ++ afterRevocation)).calls[1]?).map (·.request) =
        some (requestOf "alice" "n2") := by decide +kernel
  obtain ⟨c, hc, hreq⟩ := Option.map_eq_some_iff.1 hnext
  refine ⟨s', _, c, hs', ht, by decide +kernel, hc, ?_⟩
  obtain ⟨-, -, -, hrevoked⟩ := failures_leave_no_trace goodSignatures hs (a := .revoke "alice") hstep
  refine hrevoked "alice" afterRevocation _ 1 c rfl ht ?_ hlen.le hc (by rw [hreq]; rfl)
  intro key
  simp [afterRevocation]

end IdentityVerifier

end Sox
