import Sox.Json
import Sox.Lib.System

/-!
# The chat program's JSON-RPC client

`McpStdioClient` matches what the server writes with the calls in flight: every call puts a future
under its number, one loop reads lines and completes futures. The loop ends at the first line it
cannot handle, and Python's dictionary takes `true` for 1. `answers_kept` says that calls get their
own answers, and get them, as long as no such line comes.
-/

namespace Sox

/-- A line of the server's output, without its newline. -/
abbrev OutputLine := List UInt8

/-- What `json.loads` makes of a decoded line: a value, a `JSONDecodeError`, or another exception. -/
inductive Loaded where
  | value (j : Json)
  | notJson
  | raises

inductive Future where
  | waiting
  | result (msg : List (String × Json))
  | cancelled

structure McpClient where
  nextId : ℤ := 1
  /-- The keys of `_pending`; the future of a key is the one of that call. -/
  pending : List ℤ := []
  futures : Dict ℤ Future := .empty
  /-- The loop has not ended. -/
  reading : Bool := true
  /-- The server has closed its output. -/
  closed : Bool := false
  written : List Json := []
  /-- Which line completed which call. -/
  completed : List (ℤ × OutputLine) := []

namespace McpClient

/-- The integer that a value is equal to as a key of a dictionary; arrays and objects have no hash. -/
def dictKey : Json → Except Unit (Option ℤ)
  | .int n => .ok (some n)
  | .bool b => .ok (some (if b then 1 else 0))
  | .float q => .ok (if q.den = 1 then some q.num else none)
  | .str _ | .null => .ok none
  | .arr _ | .obj _ => .error ()

def request (reqId : ℤ) (method : String) (params : Json) : Json :=
  .obj [("jsonrpc", .str "2.0"), ("id", .int reqId), ("method", .str method), ("params", params)]

/-- `_call` and the handshake, up to the wait. -/
def call (method : String) (params : Json) (s : McpClient) : McpClient :=
  { s with
    nextId := s.nextId + 1
    pending := s.pending ++ [s.nextId]
    futures := s.futures.set s.nextId .waiting
    written := s.written ++ [request s.nextId method params] }

def stopReading (s : McpClient) : McpClient := { s with reading := false }

/-- `pop` and `set_result` -/
def complete (key : ℤ) (line : OutputLine) (msg : List (String × Json)) (s : McpClient) : McpClient :=
  let s := { s with pending := s.pending.erase key }
  match s.futures.get? key with
  | some .waiting =>
    { s with futures := s.futures.set key (.result msg), completed := s.completed ++ [(key, line)] }
  | _ => s

variable (limit : Nat) (loads : OutputLine → Loaded)

/-- One turn of `_read_loop`; a line beyond the stream's limit makes `readline` raise. -/
def readLine (line : OutputLine) (s : McpClient) : McpClient :=
  if limit < line.length then s.stopReading
  else match loads line with
    | .notJson => s
    | .raises => s.stopReading
    | .value (.obj msg) =>
      match msg.lookup "id" with
      | none | some .null => s
      | some msgId =>
        match dictKey msgId with
        | .error _ => s.stopReading
        | .ok none => s
        | .ok (some key) => if key ∈ s.pending then s.complete key line msg else s
    -- only an object has `get`
    | .value _ => s.stopReading

inductive Event where
  | call (method : String) (params : Json)
  /-- The wait for a call ends without an answer: its future is cancelled, its entry stays. -/
  | giveUp (reqId : ℤ)
  | line (line : OutputLine)
  | close

def step (s : McpClient) : Event → Option McpClient
  | .call method params => some (s.call method params)
  | .giveUp reqId =>
    match s.futures.get? reqId with
    | some .waiting => some { s with futures := s.futures.set reqId .cancelled }
    | _ => none
  | .line line =>
    if s.closed then none
    else some (if s.reading then s.readLine limit loads line else s)
  | .close => if s.closed then none else some { s with closed := true, reading := false }

def system : ActionSystem McpClient Event := ⟨step limit loads⟩

/-! ### Answers -/

def Waiting (s : McpClient) (n : ℤ) : Prop := s.futures.get? n = some .waiting

/-- The JSON number `n`. -/
def IsNumber (j : Json) (n : ℤ) : Prop := j = .int n ∨ j = .float n

/-- The line is a JSON object with the number of the call as its id. -/
def Answers (line : OutputLine) (n : ℤ) : Prop :=
  ∃ msg j, loads line = .value (.obj msg) ∧ msg.lookup "id" = some j ∧ IsNumber j n

/-- No call is completed twice, or by a line that is no answer to it. -/
structure Matched (s : McpClient) : Prop where
  once : (s.completed.map Prod.fst).Nodup
  own : ∀ n line, (n, line) ∈ s.completed → Answers loads line n

/-- The loop can handle the id, and does not take it for the number of another call. -/
def PlainId (s : McpClient) : Json → Prop
  | .arr _ | .obj _ => False
  | .bool b => b = true → ¬s.Waiting 1
  | _ => True

/-- A line that the loop handles: within the limit, and no JSON or an object with a plain id. -/
def Readable (s : McpClient) (line : OutputLine) : Prop :=
  line.length ≤ limit ∧
    match loads line with
    | .notJson => True
    | .value (.obj msg) => ∀ j, msg.lookup "id" = some j → s.PlainId j
    | _ => False

/-- What the server may write without harm. -/
def Sensible (s : McpClient) : Event → Prop
  | .line line => s.Readable limit loads line
  | _ => True

/-! ### What a step keeps -/

structure Inv (s : McpClient) : Prop where
  reading : s.reading = !s.closed
  made : 1 ≤ s.nextId
  numbered : ∀ n f, s.futures.get? n = some f → 1 ≤ n ∧ n < s.nextId
  waits : ∀ n, s.Waiting n → n ∈ s.pending
  settled : ∀ n ∈ s.completed.map Prod.fst, ¬s.Waiting n ∧ n < s.nextId
  matched : s.Matched loads

section
variable {limit : Nat} {loads : OutputLine → Loaded} {s s' : McpClient} {n : ℤ} {j : Json}
  {line : OutputLine} {msg : List (String × Json)}

theorem inv_init : Inv loads {} where
  reading := rfl
  made := le_refl _
  numbered n f h := by cases h
  waits n h := by cases h
  settled n h := by cases h
  matched := ⟨List.nodup_nil, fun _ _ h => by cases h⟩

theorem dictKey_of_isNumber (h : IsNumber j n) : dictKey j = .ok (some n) := by
  rcases h with rfl | rfl
  · rfl
  · simp [dictKey]

theorem dictKey_of_plainId (h : s.PlainId j) : ∃ key, dictKey j = .ok key := by
  cases j with
  | arr _ | obj _ => exact absurd h id
  | null | bool _ | int _ | float _ | str _ => exact ⟨_, rfl⟩

/-- The loop takes a plain id for no other number. -/
theorem isNumber_of_dictKey (hs : Inv loads s) (hplain : s.PlainId j) (hkey : dictKey j = .ok (some n))
    (hwaiting : s.Waiting n) : IsNumber j n := by
  obtain ⟨hpos, -⟩ := hs.numbered n _ hwaiting
  cases j with
  | int m => exact .inl (by rw [dictKey, Except.ok.injEq, Option.some.injEq] at hkey; rw [hkey])
  | float q =>
    rw [dictKey] at hkey
    split at hkey
    · rename_i hden
      rw [Except.ok.injEq, Option.some.injEq] at hkey
      exact .inr (by rw [← hkey, Rat.coe_int_num_of_den_eq_one hden])
    · cases hkey
  | bool b =>
    rw [dictKey, Except.ok.injEq, Option.some.injEq] at hkey
    cases b with
    | false =>
      rw [← hkey] at hpos
      exact absurd hpos (by decide)
    | true =>
      rw [← hkey] at hwaiting
      exact absurd hwaiting (hplain rfl)
  | null | str _ | arr _ | obj _ => cases hkey

theorem Inv.call (hs : Inv loads s) (method : String) (params : Json) :
    Inv loads (s.call method params) where
  reading := hs.reading
  made := by have := hs.made; show 1 ≤ s.nextId + 1; omega
  numbered n f h := by
    change (s.futures.set s.nextId .waiting).get? n = some f at h
    rw [Dict.get?_set] at h
    show 1 ≤ n ∧ n < s.nextId + 1
    have hmade := hs.made
    split at h
    · omega
    · have := hs.numbered n f h
      omega
  waits n h := by
    change (s.futures.set s.nextId .waiting).get? n = some .waiting at h
    rw [Dict.get?_set] at h
    show n ∈ s.pending ++ [s.nextId]
    split at h
    · rename_i hn
      simp [hn]
    · exact List.mem_append_left _ (hs.waits n h)
  settled n h := by
    obtain ⟨hnot, hlt⟩ := hs.settled n h
    refine ⟨fun hwait => hnot ?_, ?_⟩
    · change (s.futures.set s.nextId .waiting).get? n = some .waiting at hwait
      rwa [Dict.get?_set_of_ne (by omega)] at hwait
    · show n < s.nextId + 1
      omega
  matched := ⟨hs.matched.once, hs.matched.own⟩

theorem Inv.giveUp (hs : Inv loads s) (hn : s.Waiting n) :
    Inv loads { s with futures := s.futures.set n .cancelled } where
  reading := hs.reading
  made := hs.made
  numbered k f h := by
    change (s.futures.set n .cancelled).get? k = some f at h
    rw [Dict.get?_set] at h
    split at h
    · rename_i hk
      exact hk ▸ hs.numbered n _ hn
    · exact hs.numbered k f h
  waits k h := by
    change (s.futures.set n .cancelled).get? k = some .waiting at h
    rw [Dict.get?_set] at h
    split at h
    · cases h
    · exact hs.waits k h
  settled k h := by
    obtain ⟨hnot, hlt⟩ := hs.settled k h
    refine ⟨fun hwait => hnot ?_, hlt⟩
    change (s.futures.set n .cancelled).get? k = some .waiting at hwait
    rw [Dict.get?_set] at hwait
    split at hwait
    · cases hwait
    · exact hwait
  matched := ⟨hs.matched.once, hs.matched.own⟩

/-- An entry of the map is popped; the call gets the line if it still waits. -/
theorem Inv.complete (hs : Inv loads s) (hown : s.Waiting n → Answers loads line n) :
    Inv loads (s.complete n line msg) := by
  rw [McpClient.complete]
  have hpop : ∀ k, k ≠ n → k ∈ s.pending → k ∈ s.pending.erase n :=
    fun k hk hmem => (List.mem_erase_of_ne hk).2 hmem
  split
  · rename_i hwaiting
    change s.Waiting n at hwaiting
    have hfuture : ∀ k, (s.futures.set n (.result msg)).get? k = some .waiting →
        k ≠ n ∧ s.Waiting k := by
      intro k hk
      rw [Dict.get?_set] at hk
      split at hk
      · cases hk
      · rename_i hne
        exact ⟨hne, hk⟩
    refine ⟨hs.reading, hs.made, fun k f h => ?_, fun k h => ?_, fun k h => ?_, ?_, fun k l h => ?_⟩
    · change (s.futures.set n (.result msg)).get? k = some f at h
      rw [Dict.get?_set] at h
      split at h
      · rename_i hk
        exact hk ▸ hs.numbered n _ hwaiting
      · exact hs.numbered k f h
    · obtain ⟨hne, hk⟩ := hfuture k h
      exact hpop k hne (hs.waits k hk)
    · have hold : k = n ∨ k ∈ s.completed.map Prod.fst := by
        rw [List.map_append, List.mem_append] at h
        exact h.symm.imp (by simp) id
      refine ⟨fun hwait => ?_, ?_⟩
      · obtain ⟨hne, hk⟩ := hfuture k hwait
        exact (hs.settled k (hold.resolve_left hne)).1 hk
      · rcases hold with rfl | hold
        · exact (hs.numbered _ _ hwaiting).2
        · exact (hs.settled k hold).2
    · rw [List.map_append, List.map_singleton]
      refine List.Nodup.append hs.matched.once (List.nodup_singleton _) ?_
      rw [List.disjoint_singleton]
      exact fun hmem => (hs.settled n hmem).1 hwaiting
    · rcases List.mem_append.1 h with h | h
      · exact hs.matched.own k l h
      · cases List.mem_singleton.1 h
        exact hown hwaiting
  · rename_i hnot
    refine ⟨hs.reading, hs.made, hs.numbered, fun k h => ?_, hs.settled, hs.matched.once,
      hs.matched.own⟩
    refine hpop k (fun hk => ?_) (hs.waits k h)
    rw [hk] at h
    exact hnot h

theorem Inv.readLine (hs : Inv loads s) (hread : s.Readable limit loads line) :
    Inv loads (s.readLine limit loads line) := by
  obtain ⟨hlimit, hvalue⟩ := hread
  rw [McpClient.readLine, if_neg (not_lt.2 hlimit)]
  rcases hloaded : loads line with j | - | -
  · rw [hloaded] at hvalue
    cases j with
    | obj msg =>
      dsimp only at hvalue ⊢
      cases hid : msg.lookup "id" with
      | none => exact hs
      | some msgId =>
        have hplain := hvalue msgId hid
        by_cases hnull : msgId = .null
        · subst hnull
          exact hs
        · have hgoal : Inv loads (match dictKey msgId with
              | .error _ => s.stopReading
              | .ok none => s
              | .ok (some key) => if key ∈ s.pending then s.complete key line msg else s) := by
            obtain ⟨key, hkey⟩ := dictKey_of_plainId hplain
            rw [hkey]
            cases key with
            | none => exact hs
            | some key =>
              dsimp only
              split
              · exact hs.complete fun hwait =>
                  ⟨msg, msgId, hloaded, hid, isNumber_of_dictKey hs hplain hkey hwait⟩
              · exact hs
          cases msgId <;> first | exact absurd rfl hnull | exact hgoal
    | null | bool _ | int _ | float _ | str _ | arr _ => exact absurd hvalue id
  · exact hs
  · rw [hloaded] at hvalue
    exact absurd hvalue id

theorem inv_step (s : McpClient) (e : Event) (s' : McpClient) (hs : Inv loads s)
    (hg : Sensible limit loads s e)
    (h : (system limit loads).step s e = some s') : Inv loads s' := by
  cases e with
  | call method params =>
    cases h
    exact hs.call method params
  | giveUp n =>
    simp only [system, step] at h
    split at h
    · rename_i hwaiting
      cases h
      exact hs.giveUp hwaiting
    · cases h
  | line line =>
    simp only [system, step] at h
    split at h
    · cases h
    · cases h
      split
      · exact hs.readLine hg
      · exact hs
  | close =>
    simp only [system, step] at h
    split at h
    · cases h
    · cases h
      exact ⟨rfl, hs.made, hs.numbered, hs.waits, hs.settled, hs.matched.once, hs.matched.own⟩

/-- A line that the loop handles and that answers a waiting call completes it. -/
theorem completed_readLine (hs : Inv loads s) (hread : s.Readable limit loads line)
    (hwaiting : s.Waiting n) (hanswer : Answers loads line n) :
    (s.readLine limit loads line).completed = s.completed ++ [(n, line)] := by
  obtain ⟨msg, j, hloaded, hid, hnumber⟩ := hanswer
  have hkey := dictKey_of_isNumber hnumber
  have hpop : s.complete n line msg = { s with
      pending := s.pending.erase n
      futures := s.futures.set n (.result msg)
      completed := s.completed ++ [(n, line)] } := by
    rw [McpClient.complete]
    change s.futures.get? n = some .waiting at hwaiting
    simp only [hwaiting]
  have hgoal : s.readLine limit loads line = s.complete n line msg := by
    rw [McpClient.readLine, if_neg (not_lt.2 hread.1), hloaded]
    dsimp only
    rw [hid]
    rcases hnumber with rfl | rfl <;>
    · dsimp only
      rw [hkey]
      exact if_pos (hs.waits n hwaiting)
  rw [hgoal, hpop]

/-- A loop that has ended completes nothing any more. -/
theorem run_of_not_reading {events : List Event} (h : s.reading = false)
    (hrun : (system limit loads).run s events = some s') : s'.completed = s.completed := by
  have hkept : s'.reading = false ∧ s'.completed = s.completed := by
    refine ActionSystem.run_invariant (M := system limit loads) (G := fun _ _ => True)
      (I := fun u => u.reading = false ∧ u.completed = s.completed) ?_ ⟨h, rfl⟩
      (ActionSystem.guarded_of_forall fun _ _ _ => trivial) hrun
    intro u e u' hu _ hstep
    cases e with
    | call method params => cases hstep; exact hu
    | giveUp n =>
      simp only [system, step] at hstep
      split at hstep
      · cases hstep; exact hu
      · cases hstep
    | line line =>
      simp only [system, step, hu.1] at hstep
      split at hstep
      · cases hstep
      · cases hstep; exact hu
    | close =>
      simp only [system, step] at hstep
      split at hstep
      · cases hstep
      · cases hstep; exact ⟨rfl, hu.2⟩
  exact hkept.2

theorem closed_complete (key : ℤ) (msg : List (String × Json)) :
    (s.complete key line msg).closed = s.closed := by
  rw [McpClient.complete]
  split <;> rfl

theorem closed_readLine : (s.readLine limit loads line).closed = s.closed := by
  rw [McpClient.readLine]
  repeat' split
  case h_3.isTrue => exact closed_complete ..
  all_goals rfl

/-- After any other line the loop has ended, or a call has an answer that is not its own. -/
theorem readable_iff (hs : Inv loads s) (hopen : s.closed = false)
    (hstep : (system limit loads).step s (.line line) = some s') :
    s.Readable limit loads line ↔ s'.reading = true ∧ s'.Matched loads := by
  have hreading : s.reading = true := by rw [hs.reading, hopen]; rfl
  have hs' : s' = s.readLine limit loads line := by
    simp only [system, step, hopen, hreading, Bool.false_eq_true, ↓reduceIte] at hstep
    exact (Option.some.inj hstep).symm
  constructor
  · intro hread
    have hinv := hs.readLine hread
    rw [← hs'] at hinv
    have hstill : s'.closed = false := by rw [hs', closed_readLine, hopen]
    exact ⟨by rw [hinv.reading, hstill]; rfl, hinv.matched⟩
  · rintro ⟨hgoing, hmatched⟩
    rw [hs'] at hgoing hmatched
    have hlimit : line.length ≤ limit := by
      by_contra hlong
      rw [McpClient.readLine, if_pos (not_le.1 hlong)] at hgoing
      cases hgoing
    refine ⟨hlimit, ?_⟩
    rw [McpClient.readLine, if_neg (not_lt.2 hlimit)] at hgoing hmatched
    rcases hloaded : loads line with j | - | -
    · rw [hloaded] at hgoing hmatched
      cases j with
      | obj msg =>
        dsimp only at hgoing hmatched ⊢
        intro j hid
        rw [hid] at hgoing hmatched
        cases j with
        | arr _ | obj _ => cases hgoing
        | null | int _ | float _ | str _ => trivial
        | bool b =>
          rintro rfl hwaiting
          have hmem := hs.waits 1 hwaiting
          simp only [dictKey, ↓reduceIte, hmem, McpClient.complete] at hmatched
          change s.futures.get? 1 = some .waiting at hwaiting
          rw [hwaiting] at hmatched
          obtain ⟨msg', j, hloaded', hid', hnumber⟩ := hmatched.own 1 line (by simp)
          rw [hloaded] at hloaded'
          cases hloaded'
          rw [hid] at hid'
          cases hid'
          rcases hnumber with h | h <;> cases h
      | null | bool _ | int _ | float _ | str _ | arr _ => cases hgoing
    · trivial
    · rw [hloaded] at hgoing
      cases hgoing

end

/-- In a run in which the server writes only what the loop can handle, every call has its own answer or
none, and a line that answers a waiting call completes it. -/
theorem answers_kept (limit : Nat) (loads : OutputLine → Loaded) (events : List Event) (s : McpClient)
    (hguard : (system limit loads).Guarded (Sensible limit loads) {} events)
    (hrun : (system limit loads).run {} events = some s) :
    s.Matched loads ∧ ∀ n line s', s.Waiting n → Answers loads line n → s.Readable limit loads line →
      (system limit loads).step s (.line line) = some s' → (n, line) ∈ s'.completed := by
  have hs : Inv loads s := ActionSystem.run_invariant inv_step inv_init hguard hrun
  refine ⟨hs.matched, fun n line s' hwaiting hanswer hread hstep => ?_⟩
  simp only [system, step] at hstep
  split at hstep
  · cases hstep
  · rename_i hopen
    have hreading : s.reading = true := by rw [hs.reading]; simpa using hopen
    cases hstep
    rw [if_pos hreading, completed_readLine hs hread hwaiting hanswer]
    simp

/-- `[]` and `{"id":1}`, and what `json.loads` makes of them. -/
def emptyArray : OutputLine := [91, 93]

def responseOne : OutputLine := [123, 34, 105, 100, 34, 58, 49, 125]

def loadsTwo (line : OutputLine) : Loaded :=
  if line = emptyArray then .value (.arr [])
  else if line = responseOne then .value (.obj [("id", .int 1)])
  else .notJson

theorem answers_kept_one : Matched loadsTwo (call "tools/call" (.obj []) {}) ∧
    (1, responseOne) ∈
      ((call "tools/call" (.obj []) {}).readLine 65536 loadsTwo responseOne).completed := by
  have hrun : (system 65536 loadsTwo).run {} [.call "tools/call" (.obj [])] =
      some (call "tools/call" (.obj []) {}) := rfl
  have hread : Readable 65536 loadsTwo (call "tools/call" (.obj []) {}) responseOne :=
    ⟨by decide, fun j hj => by cases hj; trivial⟩
  obtain ⟨hmatched, hkept⟩ :=
    answers_kept 65536 loadsTwo [.call "tools/call" (.obj [])] _ ⟨trivial, trivial⟩ hrun
  exact ⟨hmatched, hkept 1 responseOne _ rfl ⟨_, _, rfl, rfl, .inl rfl⟩ hread rfl⟩

/-- After a line with an array the answer to a call is not read. -/
theorem answer_lost_after_array :
    ¬∀ (limit : Nat) (loads : OutputLine → Loaded) (events : List Event) (s : McpClient),
      (system limit loads).run {} events = some s →
      s.Matched loads ∧ ∀ n line s', s.Waiting n → Answers loads line n →
        (system limit loads).step s (.line line) = some s' → (n, line) ∈ s'.completed := by
  intro h
  obtain ⟨-, hkept⟩ := h 65536 loadsTwo [.call "tools/call" (.obj []), .line emptyArray] _ rfl
  have hmem : (1, responseOne) ∈ ([] : List (ℤ × OutputLine)) :=
    hkept 1 responseOne _ rfl ⟨_, _, rfl, rfl, .inl rfl⟩ rfl
  exact absurd hmem List.not_mem_nil

end McpClient

end Sox
