import Sox.Lib.Journal
import Sox.SqliteStore

/-!
# Opening and migrating a SQLite database

`SqliteStore.initialize` on a database file: `schema.sql`, then `migrate` of `migration_runner.py`.
Scripts commit statement by statement, so a process that dies leaves one of the durable states of
the journal; opening the file again runs everything once more. The runner decides what to redo from
the columns and the version row, and takes a `seq` column for a finished first migration, also when
the process died before the back-fill.
-/

namespace Sox

/-- The `messages` table; without a column its values are the defaults that adding it gives. -/
structure MessagesTable where
  seqColumn : Bool
  replyToColumn : Bool
  rows : List StoredMessage

structure FileDb where
  messages : Option MessagesTable := none
  indexChannel : Bool := false
  indexSentAt : Bool := false
  subscriptions : Option (List (AgentId × Pattern)) := none
  liveness : Option (Dict AgentId Liveness) := none
  indexExpiresAt : Bool := false
  soxMeta : Option (Dict String String) := none

namespace FileDb

/-- `PRAGMA table_info(table)`, for the table whose shape the runner asks about. -/
def columns (db : FileDb) (table : String) : List String :=
  if table = "messages" then
    match db.messages with
    | none => []
    | some t => ["id", "channel", "sender", "body", "correlation_id", "sent_at", "delivered_to"] ++
      (if t.seqColumn then ["seq"] else []) ++ (if t.replyToColumn then ["reply_to"] else [])
  else []

def tables (db : FileDb) : List String :=
  (if db.messages.isSome then ["messages"] else []) ++
  (if db.subscriptions.isSome then ["subscriptions"] else []) ++
    (if db.liveness.isSome then ["liveness"] else []) ++ (if db.soxMeta.isSome then ["_sox_meta"] else [])

abbrev Statement := FileDb → Except String FileDb

/-! ### Statements -/

def createMessages : Statement := fun db =>
  .ok { db with messages := some (db.messages.getD ⟨true, true, []⟩) }

def createIndexChannel : Statement := fun db => .ok { db with indexChannel := true }

def createIndexSentAt : Statement := fun db => .ok { db with indexSentAt := true }

def createSubscriptions : Statement := fun db =>
  .ok { db with subscriptions := some (db.subscriptions.getD []) }

def createLiveness : Statement := fun db => .ok { db with liveness := some (db.liveness.getD .empty) }

def createIndexExpiresAt : Statement := fun db => .ok { db with indexExpiresAt := true }

def createMeta : Statement := fun db => .ok { db with soxMeta := some (db.soxMeta.getD .empty) }

/-- `ALTER TABLE messages ADD COLUMN seq INTEGER NOT NULL DEFAULT 0` -/
def addSeq : Statement := fun db =>
  match db.messages with
  | none => .error "no such table: messages"
  | some t =>
    if t.seqColumn then .error "duplicate column name: seq"
    else
      let rows := t.rows.map fun m => { m with seq := 0 }
      .ok { db with messages := some { t with seqColumn := true, rows } }

/-- `ROW_NUMBER() OVER (PARTITION BY channel ORDER BY sent_at ASC, id ASC)` of the row with the id
of `m`. -/
def rowNumber (rows : List StoredMessage) (m : StoredMessage) : Nat :=
  ((sortMessages (onChannel m.channel rows)).map (·.id)).idxOf m.id + 1

/-- The back-fill: `UPDATE messages SET seq = … WHERE seq = 0`. -/
def backfill (rows : List StoredMessage) : List StoredMessage :=
  rows.map fun m => if m.seq = 0 then { m with seq := rowNumber rows m } else m

def backfillSeq : Statement := fun db =>
  match db.messages with
  | none => .error "no such table: messages"
  | some t =>
    if t.seqColumn then .ok { db with messages := some { t with rows := backfill t.rows } }
    else .error "no such column: seq"

/-- `ALTER TABLE messages ADD COLUMN reply_to TEXT DEFAULT NULL` -/
def addReplyTo : Statement := fun db =>
  match db.messages with
  | none => .error "no such table: messages"
  | some t =>
    if t.replyToColumn then .error "duplicate column name: reply_to"
    else
      let rows := t.rows.map fun m => { m with replyTo := none }
      .ok { db with messages := some { t with replyToColumn := true, rows } }

/-- The upsert of the version row, durable when it is committed. -/
def setVersion (version : String) : Statement := fun db =>
  match db.soxMeta with
  | none => .error "no such table: _sox_meta"
  | some kv => .ok { db with soxMeta := some (kv.set "schema_version" version) }

end FileDb

namespace Migration

open FileDb

/-- `schema.sql`. -/
def schemaSql : List Statement :=
  [createMessages, createIndexChannel, createIndexSentAt, createSubscriptions, createLiveness,
    createIndexExpiresAt]

/-- The files of `migrations/`. -/
def migrationScript (fromVersion toVersion : String) : Option (List Statement) :=
  if (fromVersion, toVersion) = ("1.0", "1.1") then some [addSeq, backfillSeq]
  else if (fromVersion, toVersion) = ("1.1", "1.2") then some [addReplyTo]
  else if (fromVersion, toVersion) = ("1.2", "1.3") then some [createLiveness, createIndexExpiresAt]
  else none

def migrationChain : List (String × String) := [("1.0", "1.1"), ("1.1", "1.2"), ("1.2", "1.3")]

def schemaVersion : String := "1.3"

def parseDigits : Nat → List Char → Option Nat
  | n, [] => some n
  | n, c :: cs => if '0' ≤ c ∧ c ≤ '9' then parseDigits (10 * n + (c.toNat - 48)) cs else none

/-- The parts of a dotted version, from the part read so far. -/
def parseParts : List Char → List Char → Option (List Nat)
  | [], [] => none
  | part, [] => (parseDigits 0 part).map ([·])
  | part, '.' :: cs =>
    match part, parseDigits 0 part, parseParts [] cs with
    | _ :: _, some n, some ns => some (n :: ns)
    | _, _, _ => none
  | part, c :: cs => parseParts (part ++ [c]) cs

/-- `_parse_version`; `none` for a part that is no number. -/
def parseVersion (v : String) : Option (List Nat) := parseParts [] v.toList

def getPersistedVersion : Journal FileDb String := do
  Journal.exec createMeta
  let db ← Journal.read
  pure (((db.soxMeta.getD .empty).get? "schema_version").getD "0.0")

def setPersistedVersion (version : String) : Journal FileDb Unit := Journal.exec (setVersion version)

/-- Whether the structural change of a migration is there already. -/
def structuralChangePresent (fromVersion toVersion : String) (db : FileDb) : Bool :=
  if (fromVersion, toVersion) = ("1.0", "1.1") then (db.columns "messages").contains "seq"
  else if (fromVersion, toVersion) = ("1.1", "1.2") then (db.columns "messages").contains "reply_to"
  else if (fromVersion, toVersion) = ("1.2", "1.3") then db.tables.contains "liveness"
  else false

def applyMigration (fromVersion toVersion : String) : Journal FileDb Unit := do
  match migrationScript fromVersion toVersion with
  | none =>
    throw ("Missing migration script (needed to upgrade " ++ fromVersion ++ " → " ++ toVersion ++ ")")
  | some sql =>
    let db ← Journal.read
    if !structuralChangePresent fromVersion toVersion db then
      Journal.script sql
    setPersistedVersion toVersion

/-- Walks the chain from `cursor` to `target`; each step of the chain is taken once at most. -/
def walkChain (target : String) : Nat → String → Except String (List (String × String))
  | 0, cursor =>
    if cursor = target then .ok []
    else .error ("No migration path from " ++ cursor ++ " to " ++ target)
  | fuel + 1, cursor =>
    if cursor = target then .ok []
    else match migrationChain.find? fun s => s.1 = cursor with
      | none => .error ("No migration path from " ++ cursor ++ " to " ++ target)
      | some nextStep => (walkChain target fuel nextStep.2).map (nextStep :: ·)

def chainFor (persisted target : String) : Except String (List (String × String)) :=
  if persisted = target then .ok []
  else match parseVersion persisted, parseVersion target with
    | some p, some t =>
      if t < p then
        .error ("Database schema version " ++ Json.reprStr persisted ++
          " is newer than the adapter's target " ++ Json.reprStr target ++
          "; refusing to downgrade. Upgrade the sox-protocol package or restore from a snapshot.")
      else if persisted = "0.0" then .ok migrationChain
      else walkChain target migrationChain.length persisted
    | _, _ => .error "invalid literal for int()"

def applyAll : List (String × String) → Journal FileDb (List String)
  | [] => pure []
  | (fromVersion, toVersion) :: rest => do
    applyMigration fromVersion toVersion
    let applied ← applyAll rest
    pure ((fromVersion ++ "→" ++ toVersion) :: applied)

def migrateFrom (starting target : String) : Journal FileDb (String × List String) := do
  match chainFor starting target with
  | .error e => throw e
  | .ok chain =>
    let applied ← applyAll chain
    pure (starting, applied)

def migrate (target : String) : Journal FileDb (String × List String) := do
  let starting ← getPersistedVersion
  if starting = target then pure (starting, [])
  else if starting = "0.0" then
    -- a database with the latest marker column is fresh; one without predates the version row
    let db ← Journal.read
    if (db.columns "messages").contains "reply_to" then
      setPersistedVersion target
      pure (starting, [])
    else migrateFrom "1.0" target
  else migrateFrom starting target

/-- `SqliteStore.initialize` on the database file. -/
def openStore : Journal FileDb (String × List String) := do
  Journal.script schemaSql
  migrate schemaVersion

end Migration

end Sox
