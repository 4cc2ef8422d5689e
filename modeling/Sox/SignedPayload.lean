import Sox.Envelope
import Sox.Lib.Separator
import Mathlib.Tactic.Linarith
import Mathlib.Tactic.NormNum
import Mathlib.Tactic.Ring

/-!
# What a signature covers

`canonicalPayload` joins five fields by newlines. Its timestamp has no newline, so the payload of a
request without a newline in its other fields is that of no other request; every other request shares its
payload, and so its signature, with one that has the newline in the neighbouring field
(`payload_determines_iff`).
-/

namespace Sox
open Separator

/-! ### What a request says -/

/-- Rounded as the payload rounds. -/
def microseconds (t : ℚ) : Int := roundHalfEven (t * 10 ^ 6)

def Timestamp.Agrees : Timestamp → Timestamp → Prop
  | .finite t, .finite t' => microseconds t = microseconds t'
  | t, t' => t = t'

/-- The same request, to the microsecond. -/
structure SignedRequest.Same (r r' : SignedRequest) : Prop where
  agentId : r.agentId = r'.agentId
  nonce : r.nonce = r'.nonce
  timestamp : r.timestamp.Agrees r'.timestamp
  method : r.method = r'.method
  bodyHash : r.bodyHash = r'.bodyHash

/-- No newline in a string field. -/
def SignedRequest.OneLine (r : SignedRequest) : Prop :=
  '\n' ∉ r.agentId.toList ∧ '\n' ∉ r.nonce.toList ∧ '\n' ∉ r.method.toList ∧ '\n' ∉ r.bodyHash.toList

/-! ### Decimal numerals -/

theorem zeroPad_toList (width n : Nat) : ∃ zeros, (zeroPad width (toString n)).toList =
    List.replicate zeros '0' ++ Nat.toDigits 10 n := by
  refine ⟨width - (toString n).length, ?_⟩
  rw [zeroPad, String.toList_append, String.toList_ofList, Nat.toString_eq_repr, Nat.toList_repr]

/-- A numeral is read back, whatever it is padded with. -/
theorem ofDigitChars_padded (zeros n : Nat) :
    Nat.ofDigitChars 10 (List.replicate zeros '0' ++ Nat.toDigits 10 n) 0 = n := by
  rw [Nat.ofDigitChars_append, Nat.ofDigitChars_replicate_zero, Nat.mul_zero, Nat.ofDigitChars_ten_toDigits]

section
variable {digits : Nat} {q q' : ℚ}

/-- Sign, whole part, point and fraction. -/
theorem fixedPoint_toList (digits : Nat) (q : ℚ) : ∃ zeros, (fixedPoint digits q).toList =
    (if q < 0 then ['-'] else []) ++ Nat.toDigits 10 ((roundHalfEven (|q| * 10 ^ digits)).toNat / 10 ^ digits) ++
      '.' :: (List.replicate zeros '0' ++
        Nat.toDigits 10 ((roundHalfEven (|q| * 10 ^ digits)).toNat % 10 ^ digits)) := by
  obtain ⟨zeros, hpad⟩ := zeroPad_toList digits ((roundHalfEven (|q| * 10 ^ digits)).toNat % 10 ^ digits)
  refine ⟨zeros, ?_⟩
  rw [fixedPoint, String.toList_append, String.toList_append, String.toList_append, hpad, Nat.toString_eq_repr,
    Nat.toList_repr, List.append_assoc]
  split <;> rfl

theorem fixedPoint_newline (digits : Nat) (q : ℚ) : '\n' ∉ (fixedPoint digits q).toList := by
  obtain ⟨zeros, h⟩ := fixedPoint_toList digits q
  rw [h]
  simp only [List.mem_append, List.mem_cons, List.mem_replicate, not_or]
  refine ⟨⟨?_, notMem_toDigits rfl _⟩, by decide, fun h => ?_, notMem_toDigits rfl _⟩
  · split <;> decide
  · exact absurd h.2 (by decide)

theorem fixedPoint_point (digits : Nat) (q : ℚ) : '.' ∈ (fixedPoint digits q).toList := by
  obtain ⟨zeros, h⟩ := fixedPoint_toList digits q
  rw [h]
  simp

/-! ### Rounding -/

theorem roundHalfEven_nonneg (hq : 0 ≤ q) : 0 ≤ roundHalfEven q := by
  have hfloor : 0 ≤ ⌊q⌋ := Int.floor_nonneg.2 hq
  unfold roundHalfEven
  split
  · exact hfloor
  · split
    · omega
    · split <;> omega

/-- A half is even from either side. -/
theorem roundHalfEven_neg (q : ℚ) : roundHalfEven (-q) = -roundHalfEven q := by
  have hle : (⌊q⌋ : ℚ) ≤ q := Int.floor_le q
  have hlt : q < ⌊q⌋ + 1 := Int.lt_floor_add_one q
  rcases hle.eq_or_lt with heq | hlow
  · have hneg : ⌊-q⌋ = -⌊q⌋ := by
      rw [Int.floor_eq_iff]
      push_cast
      constructor <;> linarith
    have hhalf : q - ⌊q⌋ < 1 / 2 := by linarith
    have hhalf' : -q - (⌊-q⌋ : ℚ) < 1 / 2 := by
      rw [hneg]
      push_cast
      linarith
    rw [roundHalfEven, roundHalfEven, if_pos hhalf, if_pos hhalf', hneg]
  · have hneg : ⌊-q⌋ = -⌊q⌋ - 1 := by
      rw [Int.floor_eq_iff]
      push_cast
      constructor <;> linarith
    have hrest : -q - (⌊-q⌋ : ℚ) = 1 - (q - ⌊q⌋) := by
      rw [hneg]
      push_cast
      ring
    rw [roundHalfEven, roundHalfEven, hrest, hneg]
    rcases lt_trichotomy (q - ⌊q⌋ : ℚ) (1 / 2) with hhalf | hhalf | hhalf
    · rw [if_pos hhalf, if_neg (by linarith), if_pos (by linarith)]
      omega
    · rw [hhalf]
      norm_num
      split <;> split <;> omega
    · rw [if_pos (by linarith), if_neg (by linarith), if_pos hhalf]
      omega

/-- The sign and the digits before and behind the point, as lists of characters. -/
theorem fixedPoint_parts (h : fixedPoint digits q = fixedPoint digits q') :
    let n := (roundHalfEven (|q| * 10 ^ digits)).toNat
    let n' := (roundHalfEven (|q'| * 10 ^ digits)).toNat
    (if q < 0 then ['-'] else []) ++ Nat.toDigits 10 (n / 10 ^ digits) =
        (if q' < 0 then ['-'] else []) ++ Nat.toDigits 10 (n' / 10 ^ digits) ∧
      n % 10 ^ digits = n' % 10 ^ digits := by
  intro n n'
  obtain ⟨zeros, hq⟩ := fixedPoint_toList digits q
  obtain ⟨zeros', hq'⟩ := fixedPoint_toList digits q'
  have hparts : [(if q < 0 then ['-'] else []) ++ Nat.toDigits 10 (n / 10 ^ digits),
        List.replicate zeros '0' ++ Nat.toDigits 10 (n % 10 ^ digits)] =
      [(if q' < 0 then ['-'] else []) ++ Nat.toDigits 10 (n' / 10 ^ digits),
        List.replicate zeros' '0' ++ Nat.toDigits 10 (n' % 10 ^ digits)] := by
    refine Separator.intercalate_inj (x := '.') rfl ?_ ?_
    · simp only [List.forall_mem_cons, List.mem_append, List.mem_replicate, not_or]
      refine ⟨⟨?_, notMem_toDigits rfl _⟩, ⟨fun h => absurd h.2 (by decide), notMem_toDigits rfl _⟩, by simp⟩
      split <;> decide
    · simp only [List.intercalate_cons_cons, List.intercalate_singleton]
      rw [List.append_assoc _ ['.'], List.append_assoc _ ['.'], List.singleton_append, List.singleton_append,
        ← hq, ← hq', h]
  obtain ⟨hfront, hback⟩ := List.cons_eq_cons.1 hparts
  refine ⟨hfront, ?_⟩
  have hvalue := congrArg (Nat.ofDigitChars 10 · 0) (List.cons_eq_cons.1 hback).1
  simpa only [ofDigitChars_padded] using hvalue

theorem fixedPoint_inj (h : fixedPoint digits q = fixedPoint digits q') : (q < 0 ↔ q' < 0) ∧
    roundHalfEven (|q| * 10 ^ digits) = roundHalfEven (|q'| * 10 ^ digits) := by
  obtain ⟨hfront, hfraction⟩ := fixedPoint_parts h
  set n := (roundHalfEven (|q| * 10 ^ digits)).toNat with hn
  set n' := (roundHalfEven (|q'| * 10 ^ digits)).toNat with hn'
  -- only a sign is a minus
  have hminus (r : ℚ) (m : Nat) : '-' ∈ (if r < 0 then ['-'] else []) ++ Nat.toDigits 10 m ↔ r < 0 := by
    rw [List.mem_append, or_iff_left (notMem_toDigits rfl m)]
    split
    · rename_i hr
      simp [hr]
    · rename_i hr
      simp [hr]
  have hsign : q < 0 ↔ q' < 0 := by rw [← hminus q (n / 10 ^ digits), hfront, hminus]
  have hwhole : n / 10 ^ digits = n' / 10 ^ digits := by
    simp only [hsign] at hfront
    have hvalue := congrArg (Nat.ofDigitChars 10 · 0) (List.append_cancel_left hfront)
    simpa only [Nat.ofDigitChars_ten_toDigits] using hvalue
  have hnat : n = n' := by rw [← Nat.div_add_mod n (10 ^ digits), hwhole, hfraction, Nat.div_add_mod]
  have hpos (r : ℚ) : 0 ≤ roundHalfEven (|r| * 10 ^ digits) := roundHalfEven_nonneg (by positivity)
  refine ⟨hsign, ?_⟩
  rw [← Int.toNat_of_nonneg (hpos q), ← Int.toNat_of_nonneg (hpos q'), ← hn, ← hn', hnat]

theorem microseconds_eq (t : ℚ) : microseconds t =
    if t < 0 then -roundHalfEven (|t| * 10 ^ 6) else roundHalfEven (|t| * 10 ^ 6) := by
  unfold microseconds
  split
  · rename_i ht
    rw [abs_of_neg ht, neg_mul, roundHalfEven_neg, neg_neg]
  · rename_i ht
    rw [abs_of_nonneg (not_lt.1 ht)]

end

/-! ### The payload -/

theorem Timestamp.fixedPoint_newline (t : Timestamp) : '\n' ∉ (t.fixedPoint 6).toList := by
  cases t with
  | finite t => exact Sox.fixedPoint_newline 6 t
  | infinite negative => cases negative <;> decide
  | nan => decide

theorem Timestamp.agrees_of_fixedPoint {t t' : Timestamp} (h : t.fixedPoint 6 = t'.fixedPoint 6) : t.Agrees t' := by
  -- what is no number has no point
  have hpoint {q : ℚ} {s : String} (heq : Sox.fixedPoint 6 q = s) (hs : '.' ∉ s.toList) : False :=
    hs (heq ▸ fixedPoint_point 6 q)
  cases t with
  | finite t =>
    cases t' with
    | finite t' =>
      obtain ⟨hsign, hround⟩ := fixedPoint_inj h
      show microseconds t = microseconds t'
      rw [microseconds_eq, microseconds_eq, hround]
      simp only [hsign]
    | infinite negative => exact (hpoint h (by cases negative <;> decide)).elim
    | nan => exact (hpoint h (by decide)).elim
  | infinite negative =>
    cases t' with
    | finite t' => exact (hpoint h.symm (by cases negative <;> decide)).elim
    | infinite negative' =>
      show Timestamp.infinite negative = .infinite negative'
      cases negative <;> cases negative' <;> revert h <;> decide
    | nan =>
      show Timestamp.infinite negative = .nan
      cases negative <;> revert h <;> decide
  | nan =>
    cases t' with
    | finite t' => exact (hpoint h.symm (by decide)).elim
    | infinite negative =>
      show Timestamp.nan = .infinite negative
      cases negative <;> revert h <;> decide
    | nan => rfl

theorem toList_loop (bytes : ByteArray) (n i : Nat) (read : List UInt8) (hn : bytes.size ≤ i + n) :
    ByteArray.toList.loop bytes i read = read.reverse ++ bytes.data.toList.drop i := by
  have hlength : bytes.data.toList.length = bytes.size := Array.length_toList
  induction n generalizing i read with
  | zero =>
    rw [ByteArray.toList.loop, if_neg (by omega), List.drop_eq_nil_of_le (by omega), List.append_nil]
  | succ n ih =>
    rw [ByteArray.toList.loop]
    split
    · rename_i hi
      have hget : bytes.data.toList.drop i = bytes.get! i :: bytes.data.toList.drop (i + 1) := by
        rw [List.drop_eq_getElem_cons (by omega), Array.getElem_toList]
        exact congrArg (· :: _) (getElem!_pos bytes.data i hi).symm
      rw [ih (i + 1) _ (by omega), hget, List.reverse_cons, List.append_assoc]
      rfl
    · rw [List.drop_eq_nil_of_le (by omega), List.append_nil]

theorem utf8_inj {s s' : String} (h : utf8 s = utf8 s') : s = s' := by
  have hlist (bytes : ByteArray) : bytes.toList = bytes.data.toList := toList_loop bytes bytes.size 0 [] (by omega)
  rw [utf8, utf8, hlist, hlist, Array.toList_inj] at h
  exact String.toByteArray_inj.1 (ByteArray.ext h)

/-- The payload is the five fields. -/
theorem canonicalPayload_eq_iff {r r' : SignedRequest} : canonicalPayload r = canonicalPayload r' ↔
    ['\n'].intercalate [r.agentId.toList, r.nonce.toList, (r.timestamp.fixedPoint 6).toList, r.method.toList,
      r.bodyHash.toList] =
    ['\n'].intercalate [r'.agentId.toList, r'.nonce.toList, (r'.timestamp.fixedPoint 6).toList, r'.method.toList,
      r'.bodyHash.toList] := by
  have hlists (r : SignedRequest) : ("\n".intercalate [r.agentId, r.nonce, r.timestamp.fixedPoint 6, r.method,
      r.bodyHash]).toList = ['\n'].intercalate [r.agentId.toList, r.nonce.toList,
        (r.timestamp.fixedPoint 6).toList, r.method.toList, r.bodyHash.toList] := String.toList_intercalate
  rw [← hlists, ← hlists, String.toList_inj]
  exact ⟨utf8_inj, congrArg utf8⟩

theorem same_of_payload {r r' : SignedRequest} (h : r.OneLine) (heq : canonicalPayload r' = canonicalPayload r) :
    r.Same r' := by
  obtain ⟨hagent, hnonce, hmethod, hhash⟩ := h
  have hlists := canonicalPayload_eq_iff.1 heq.symm
  have hfree : ∀ l ∈ [r.agentId.toList, r.nonce.toList, (r.timestamp.fixedPoint 6).toList, r.method.toList,
      r.bodyHash.toList], '\n' ∉ l := by
    simp [hagent, hnonce, hmethod, hhash, Timestamp.fixedPoint_newline]
  have hfields := Separator.intercalate_inj (by rfl) hfree hlists
  simp only [List.cons_eq_cons, String.toList_inj] at hfields
  obtain ⟨ha, hn, ht, hm, hb, -⟩ := hfields
  exact ⟨ha, hn, Timestamp.agrees_of_fixedPoint ht, hm, hb⟩

/-! ### Other requests with the same payload -/

theorem exists_split {s : String} (h : '\n' ∈ s.toList) : ∃ u v, s = u ++ "\n" ++ v := by
  obtain ⟨u, v, hsplit⟩ := List.append_of_mem h
  refine ⟨String.ofList u, String.ofList v, String.toList_inj.1 ?_⟩
  rw [String.toList_append, String.toList_append, String.toList_ofList, String.toList_ofList, hsplit]
  simp

theorem ne_append (u v : String) : u ≠ u ++ "\n" ++ v := by
  intro h
  have hlength := congrArg (fun s => s.toList.length) h
  simp at hlength

/-- A newline in a field may as well be the one between two fields. -/
theorem exists_other {r : SignedRequest} (h : ¬r.OneLine) :
    ∃ r', canonicalPayload r' = canonicalPayload r ∧ ¬r.Same r' := by
  by_contra hall
  have hnone (r' : SignedRequest) (heq : canonicalPayload r' = canonicalPayload r) : r.Same r' :=
    by_contra fun hother => hall ⟨r', heq, hother⟩
  refine h ⟨fun hmem => ?_, fun hmem => ?_, fun hmem => ?_, fun hmem => ?_⟩
  all_goals obtain ⟨u, v, hsplit⟩ := exists_split hmem
  · have hsame := hnone { r with agentId := u, nonce := v ++ "\n" ++ r.nonce }
      (by simp [canonicalPayload, hsplit, String.append_assoc])
    exact ne_append u v (hsame.agentId.symm.trans hsplit)
  · have hsame := hnone { r with agentId := r.agentId ++ "\n" ++ u, nonce := v }
      (by simp [canonicalPayload, hsplit, String.append_assoc])
    exact ne_append r.agentId u hsame.agentId
  · have hsame := hnone { r with method := u, bodyHash := v ++ "\n" ++ r.bodyHash }
      (by simp [canonicalPayload, hsplit, String.append_assoc])
    exact ne_append u v (hsame.method.symm.trans hsplit)
  · have hsame := hnone { r with method := r.method ++ "\n" ++ u, bodyHash := v }
      (by simp [canonicalPayload, hsplit, String.append_assoc])
    exact ne_append r.method u hsame.method

/-- The payload of a request determines it exactly when none of its string fields has a newline. -/
theorem payload_determines_iff (r : SignedRequest) :
    (∀ r', canonicalPayload r' = canonicalPayload r → r.Same r') ↔ r.OneLine := by
  constructor
  · intro h
    by_contra hnot
    obtain ⟨r', heq, hother⟩ := exists_other hnot
    exact hother (h r' heq)
  · exact fun h r' heq => same_of_payload h heq

/-- alice's request to send a body, and one with another method and another body under the same nonce. -/
def sendRequest : SignedRequest := ⟨"alice", "n1", .finite 1, "send", "e3b0\nc442", []⟩

def otherRequest : SignedRequest := ⟨"alice", "n1", .finite 1, "send\ne3b0", "c442", []⟩

/-- Whatever signs one signs the other. -/
theorem payload_of_two_requests :
    ¬(∀ r r' : SignedRequest, canonicalPayload r = canonicalPayload r' → r.Same r') ∧
    ∀ (C : Crypto) (publicKey signature : Bytes),
      C.verifySignature publicKey (canonicalPayload sendRequest) signature =
        C.verifySignature publicKey (canonicalPayload otherRequest) signature := by
  have hpayload : canonicalPayload sendRequest = canonicalPayload otherRequest := by decide +kernel
  refine ⟨fun h => ?_, fun C publicKey signature => by rw [hpayload]⟩
  have hsame := h sendRequest otherRequest hpayload
  exact absurd hsame.method (by decide)

end Sox
