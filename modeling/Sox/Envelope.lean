import Sox.Json
import Sox.Message
import Mathlib.Data.Rat.Floor

/-!
# Signed requests

The signed-request envelope of `envelope.py`, the credential records of `registry.py` and the
failures of `errors.py`. Ed25519 and SHA-256 come from packages outside the repository:
`verifySignature` and `sha256Hex` are parameters, in `Crypto`.
-/

namespace Sox

/-- A client's `timestamp`, a float. -/
inductive Timestamp where
  | finite (t : ℚ)
  | infinite (negative : Bool)
  | nan
deriving DecidableEq

/-- Rounds to the nearest integer, a half to the even one. -/
def roundHalfEven (q : ℚ) : Int :=
  if q - ⌊q⌋ < 1 / 2 then ⌊q⌋
  else if 1 / 2 < q - ⌊q⌋ then ⌊q⌋ + 1
  else if ⌊q⌋ % 2 = 0 then ⌊q⌋ else ⌊q⌋ + 1

def zeroPad (width : Nat) (s : String) : String :=
  String.ofList (List.replicate (width - s.length) '0') ++ s

/-- `f"{q:.<digits>f}"`. -/
def fixedPoint (digits : Nat) (q : ℚ) : String :=
  let n := (roundHalfEven (|q| * 10 ^ digits)).toNat
  (if q < 0 then "-" else "") ++ toString (n / 10 ^ digits) ++ "." ++
    zeroPad digits (toString (n % 10 ^ digits))

example : fixedPoint 1 (1 / 4) = "0.2" := by decide +kernel

def Timestamp.fixedPoint (digits : Nat) : Timestamp → String
  | .finite t => Sox.fixedPoint digits t
  | .infinite negative => if negative then "-inf" else "inf"
  | .nan => "nan"

abbrev Bytes := List UInt8

def utf8 (s : String) : Bytes := s.toUTF8.toList

structure SignedRequest where
  agentId : AgentId
  nonce : String
  timestamp : Timestamp
  method : String
  bodyHash : String
  signature : Bytes
deriving DecidableEq

structure VerifiedIdentity where
  agentId : AgentId
  verifiedAt : ℚ
  connectionId : Option String
  originServer : Option String := none
deriving DecidableEq

/-- The primitives, and how Python prints a float. -/
structure Crypto where
  /-- Of a public key, a payload and a signature. -/
  verifySignature : Bytes → Bytes → Bytes → Bool
  sha256Hex : Bytes → String
  floatRepr : ℚ → String

def computeBodyHash (C : Crypto) (body : JsonDict) : String :=
  C.sha256Hex (utf8 (Json.dumps C.floatRepr (.obj body.entries)))

/-- The bytes that are signed. -/
def canonicalPayload (req : SignedRequest) : Bytes :=
  utf8 ("\n".intercalate [req.agentId, req.nonce, req.timestamp.fixedPoint 6, req.method, req.bodyHash])

/-! ### The registry -/

structure CredentialRecord where
  agentId : AgentId
  publicKey : Bytes
  registeredAt : ℚ
  revokedAt : Option ℚ := none
deriving DecidableEq

def CredentialRecord.isRevoked (r : CredentialRecord) : Bool := r.revokedAt.isSome

/-- `InMemoryCredentialRegistry`; each record is filed under its own agent. -/
structure CredentialRegistry where
  records : Dict AgentId CredentialRecord
  keyed : ∀ a r, records.get? a = some r → r.agentId = a

namespace CredentialRegistry

def empty : CredentialRegistry := ⟨.empty, fun _ _ h => nomatch h⟩

def lookup (R : CredentialRegistry) (agentId : AgentId) : Option CredentialRecord :=
  R.records.get? agentId

/-- The record goes under its own agent. -/
def put (R : CredentialRegistry) (record : CredentialRecord) : CredentialRegistry where
  records := R.records.set record.agentId record
  keyed a r h := by
    rw [Dict.get?_set] at h
    split at h
    · rename_i ha
      cases h
      exact ha.symm
    · exact R.keyed a r h

def register (now : ℚ) (agentId : AgentId) (publicKey : Bytes) (R : CredentialRegistry) :
    Except String CredentialRegistry :=
  if agentId.isEmpty then .error "agent_id must be non-empty"
  else if publicKey.length ≠ 32 then
    .error ("public_key must be 32 bytes, got " ++ toString publicKey.length)
  else .ok (R.put { agentId, publicKey, registeredAt := now })

/-- Keeps the record and marks it; `KeyError` without one. -/
def revoke (now : ℚ) (agentId : AgentId) (R : CredentialRegistry) : Except String CredentialRegistry :=
  match R.lookup agentId with
  | none => .error (Json.reprStr agentId)
  | some existing => .ok (R.put { existing with revokedAt := some now })

end CredentialRegistry

/-! ### Failures -/

inductive IdentityFailureKind where
  | malformedRequest
  | unknownAgent
  | revokedCredential
  | signatureMismatch
  | replayDetected
deriving DecidableEq

structure IdentityFailure where
  kind : IdentityFailureKind
  reason : String
deriving DecidableEq

structure AuditEntry where
  ts : ℚ
  claimedAgentId : Option AgentId
  reason : String
  operation : String
  connectionId : Option String

end Sox
