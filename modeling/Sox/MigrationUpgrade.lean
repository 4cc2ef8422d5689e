import Sox.MigrationCrash

/-!
# An uninterrupted migration

Files of the schemas 1.0, 1.1 and 1.2, with and without a version row, and what opening them makes
of them: `migration_upgrade`. Whichever way the runner finds out the version, the migrations that
run are those whose change is missing. A file of a version beyond 1.3 is refused before its rows are
touched (`newer_refused`).
-/

namespace Sox

inductive OldVersion where
  | v10
  | v11
  | v12
deriving DecidableEq

def OldVersion.str : OldVersion → String
  | v10 => "1.0"
  | v11 => "1.1"
  | v12 => "1.2"

/-- A database of an old schema. The columns that its schema lacks have their defaults in `rows`. -/
structure OldFile where
  version : OldVersion
  rows : List StoredMessage
  nodup : (rows.map (·.id)).Nodup
  seqs : version = .v10 → ∀ m ∈ rows, m.seq = 0
  replies : version ≠ .v12 → ∀ m ∈ rows, m.replyTo = none
  indexChannel : Bool
  indexSentAt : Bool
  subscriptions : List (AgentId × Pattern)
  soxMeta : Option (Dict String String)
  /-- The version row of a tracked file is its version; an untracked one has none. -/
  tracked : (soxMeta.getD .empty).get? "schema_version" = none ∨
    (soxMeta.getD .empty).get? "schema_version" = some version.str

namespace OldFile

def table (f : OldFile) : MessagesTable where
  seqColumn := f.version ≠ .v10
  replyToColumn := f.version = .v12
  rows := f.rows

def db (f : OldFile) : FileDb where
  messages := some f.table
  indexChannel := f.indexChannel
  indexSentAt := f.indexSentAt
  subscriptions := some f.subscriptions
  soxMeta := f.soxMeta

/-- The table that opening the file ends with. -/
def upgradedTable (f : OldFile) : MessagesTable where
  seqColumn := true
  replyToColumn := true
  rows := if f.version = .v10 then FileDb.backfill f.rows else f.rows

end OldFile

namespace Migration

open FileDb Journal

section
variable {t : MessagesTable} {subs : List (AgentId × Pattern)} {lv : Dict AgentId Liveness}
  {kv : Dict String String} {mt : Option (Dict String String)}

/-- A table with the latest column and no version row counts as fresh. -/
theorem runs_migrate_fresh (db : FileDb) (ht : db.messages = some t)
    (hv : (db.soxMeta.getD .empty).get? "schema_version" = none) (hr : t.replyToColumn = true) :
    Runs (migrate schemaVersion) db ("0.0", [])
      [{ db with soxMeta := some (db.soxMeta.getD .empty) },
        { db with soxMeta := some ((db.soxMeta.getD .empty).set "schema_version" "1.3") }]
      { db with soxMeta := some ((db.soxMeta.getD .empty).set "schema_version" "1.3") } := by
  have hmark : Runs (setPersistedVersion schemaVersion >>= fun _ => pure ("0.0", ([] : List String)))
      { db with soxMeta := some (db.soxMeta.getD .empty) } ("0.0", [])
      ([{ db with soxMeta := some ((db.soxMeta.getD .empty).set "schema_version" "1.3") }] ++ [])
      { db with soxMeta := some ((db.soxMeta.getD .empty).set "schema_version" "1.3") } :=
    (runs_setPersistedVersion rfl schemaVersion).bind runs_pure
  refine (runs_getPersistedVersion db).bind ?_
  simp only [hv, Option.getD_none, (by decide : "0.0" ≠ schemaVersion), ↓reduceIte]
  refine runs_read.bind ?_
  have hcolumn : (columns { db with soxMeta := some (db.soxMeta.getD .empty) } "messages").contains
      "reply_to" = true := (contains_reply_to ht).trans hr
  simp only [hcolumn, ↓reduceIte]
  exact hmark

theorem rows_withReplyTo (h : ∀ m ∈ t.rows, m.replyTo = none) : t.withReplyTo.rows = t.rows := by
  refine (List.map_congr_left fun m hm => ?_).trans (List.map_id _)
  show { m with replyTo := none } = m
  rw [← h m hm]

theorem rows_withSeq (h : ∀ m ∈ t.rows, m.seq = 0) : t.withSeq.rows = t.rows := by
  refine (List.map_congr_left fun m hm => ?_).trans (List.map_id _)
  show { m with seq := 0 } = m
  rw [← h m hm]

end

section
variable {f : OldFile}

theorem backfill_replyTo {rows : List StoredMessage} (h : ∀ m ∈ rows, m.replyTo = none) :
    ∀ m ∈ backfill rows, m.replyTo = none := by
  intro m hm
  obtain ⟨n, hn, rfl⟩ := List.mem_map.1 hm
  split
  · exact h n hn
  · exact h n hn

/-- The migrations whose change is missing make the upgraded table. -/
theorem migrate_table (hv : f.version ≠ .v12) : f.table.migrateSeq.migrateReplyTo = f.upgradedTable := by
  have hreplies := f.replies hv
  have hadd (rows : List StoredMessage) (h : ∀ m ∈ rows, m.replyTo = none) :
      (⟨true, false, rows⟩ : MessagesTable).migrateReplyTo = ⟨true, true, rows⟩ := by
    have hrows := rows_withReplyTo (t := ⟨true, false, rows⟩) h
    rw [MessagesTable.migrateReplyTo, if_neg Bool.false_ne_true]
    exact congrArg (MessagesTable.mk true true) hrows
  cases hversion : f.version with
  | v12 => exact absurd hversion hv
  | v10 =>
    have htable : f.table = ⟨false, false, f.rows⟩ := by simp [OldFile.table, hversion]
    have hupgraded : f.upgradedTable = ⟨true, true, backfill f.rows⟩ := by
      simp [OldFile.upgradedTable, hversion]
    have hseq : f.table.migrateSeq = ⟨true, false, backfill f.rows⟩ := by
      rw [htable, MessagesTable.migrateSeq, if_neg Bool.false_ne_true]
      exact congrArg (fun rows => MessagesTable.mk true false (backfill rows))
        (rows_withSeq (t := ⟨false, false, f.rows⟩) (f.seqs hversion))
    rw [hseq, hupgraded, hadd _ (backfill_replyTo hreplies)]
  | v11 =>
    have htable : f.table = ⟨true, false, f.rows⟩ := by simp [OldFile.table, hversion]
    have hupgraded : f.upgradedTable = ⟨true, true, f.rows⟩ := by simp [OldFile.upgradedTable, hversion]
    rw [htable, MessagesTable.migrateSeq, if_pos rfl, hupgraded, hadd _ hreplies]

theorem upgradedTable_v12 (hv : f.version = .v12) : f.upgradedTable = f.table := by
  simp [OldFile.upgradedTable, OldFile.table, hv]

def upgradedDb (f : OldFile) : FileDb :=
  opened f.upgradedTable f.subscriptions .empty
    (some ((f.soxMeta.getD .empty).set "schema_version" "1.3"))

theorem migrates_upgrade (f : OldFile) : ∃ r es, Runs (migrate schemaVersion)
    (opened f.table f.subscriptions .empty f.soxMeta) r es (upgradedDb f) := by
  rcases f.tracked with hnone | hsome
  · by_cases hv : f.version = .v12
    · rw [upgradedDb, upgradedTable_v12 hv]
      exact ⟨_, _, runs_migrate_fresh _ rfl hnone (by simp [OldFile.table, hv])⟩
    · rw [upgradedDb, ← migrate_table hv]
      exact migrates_1_0 (.inl hnone) (by simp [OldFile.table, hv])
  · cases hv : f.version with
    | v10 =>
      rw [hv] at hsome
      rw [upgradedDb, ← migrate_table (by simp [hv])]
      exact migrates_1_0 (.inr hsome) (by simp [OldFile.table, hv])
    | v11 =>
      rw [hv] at hsome
      obtain ⟨names, es, h⟩ := exists_runs_from_1_1
        (opened f.table f.subscriptions .empty (some (f.soxMeta.getD .empty))) rfl rfl
      have hskip : f.table.migrateSeq = f.table := by
        simp [MessagesTable.migrateSeq, OldFile.table, hv]
      rw [upgradedDb, ← migrate_table (by simp [hv]), hskip]
      exact ⟨_, _, runs_migrate_tracked hsome (by decide) rfl h⟩
    | v12 =>
      rw [hv] at hsome
      rw [upgradedDb, upgradedTable_v12 hv]
      exact ⟨_, _, runs_migrate_tracked hsome (by decide) rfl (runs_from_1_2 _ rfl rfl)⟩

theorem outcome_upgrade (f : OldFile) : openStore.outcome f.db = .ok (upgradedDb f) :=
  outcome_openStore rfl rfl rfl rfl (migrates_upgrade f)

/-- Opening a finished file makes no other state durable. -/
theorem runs_openStore_finished (t : MessagesTable) (subs : List (AgentId × Pattern))
    (lv : Dict AgentId Liveness) (kv : Dict String String) :
    let db := opened t subs lv (some (kv.set "schema_version" "1.3"))
    Runs openStore db ("1.3", []) (List.replicate 7 db) db := by
  intro db
  have hschema : Runs (script schemaSql) db () (List.replicate 6 db) db :=
    runs_script_cons rfl (runs_script_cons rfl (runs_script_cons rfl (runs_script_cons rfl
      (runs_script_cons rfl (runs_script_cons rfl runs_script_nil)))))
  exact hschema.bind (runs_migrate_1_3 Dict.get?_set_self)

/-- The store on an opened file, `autoincrement` being what `sqlite_sequence` says. -/
def storeOn (autoincrement : Nat) (db : FileDb) : SqliteDb where
  messages := (db.messages.map (·.rows)).getD []
  autoincrement := autoincrement
  subscriptions := db.subscriptions.getD []
  liveness := db.liveness.getD .empty

/-- One send after the other: the receipts, with the channels, and the database. -/
def sendAll : List (ℚ × SendArgs) → SqliteDb → List (Channel × SendReceipt) × SqliteDb
  | [], db => ([], db)
  | (now, args) :: sends, db =>
    let (receipt, db) := db.send now args
    let (receipts, db) := sendAll sends db
    ((args.channel, receipt) :: receipts, db)

/-- The numbers that the sends to the channel got, in order. -/
def seqsOn (c : Channel) (receipts : List (Channel × SendReceipt)) : List Nat :=
  (receipts.filter (·.1 = c)).map (·.2.seq)

def maxSeq (c : Channel) (rows : List StoredMessage) : Nat := ((onChannel c rows).map (·.seq)).foldr max 0

theorem onChannel_send (now : ℚ) (args : SendArgs) (db : SqliteDb) (c : Channel) :
    (onChannel c (db.send now args).2.messages).map (·.seq) =
      (onChannel c db.messages).map (·.seq) ++
        if args.channel = c then [maxSeq c db.messages + 1] else [] := by
  have hsend : (db.send now args).2.messages =
      db.messages ++ [db.newRow now args (db.nextSeq args.channel)] := rfl
  have hchannel : (db.newRow now args (db.nextSeq args.channel)).channel = args.channel := rfl
  rw [hsend, onChannel_append, onChannel_singleton, hchannel, List.map_append]
  split
  · rename_i hc
    subst hc
    rfl
  · rfl

theorem maxSeq_send (now : ℚ) (args : SendArgs) (db : SqliteDb) (c : Channel) :
    maxSeq c (db.send now args).2.messages =
      if args.channel = c then maxSeq c db.messages + 1 else maxSeq c db.messages := by
  have hlast (l : List Nat) (n : Nat) : (l ++ [n]).foldr max 0 = max (l.foldr max 0) n := by
    induction l with
    | nil => simp
    | cons k l ih => simp only [List.cons_append, List.foldr_cons, ih, max_assoc]
  rw [maxSeq, onChannel_send]
  split
  · rw [hlast, ← maxSeq]
    omega
  · rw [List.append_nil, maxSeq]

/-- Sends continue every channel behind its highest number. -/
theorem sendAll_seqs (sends : List (ℚ × SendArgs)) (db : SqliteDb) (c : Channel) :
    let n := (seqsOn c (sendAll sends db).1).length
    seqsOn c (sendAll sends db).1 = List.range' (maxSeq c db.messages + 1) n ∧
    (onChannel c (sendAll sends db).2.messages).map (·.seq) =
      (onChannel c db.messages).map (·.seq) ++ List.range' (maxSeq c db.messages + 1) n := by
  induction sends generalizing db with
  | nil => simp [sendAll, seqsOn]
  | cons send sends ih =>
    obtain ⟨now, args⟩ := send
    obtain ⟨hseqs, hrows⟩ := ih (db.send now args).2
    have hreceipt : (db.send now args).1.seq = maxSeq args.channel db.messages + 1 := rfl
    rw [maxSeq_send] at hseqs hrows
    rw [onChannel_send] at hrows
    simp only [sendAll]
    by_cases hc : args.channel = c
    · have hcons : seqsOn c ((args.channel, (db.send now args).1) :: (sendAll sends (db.send now args).2).1) =
          (maxSeq c db.messages + 1) :: seqsOn c (sendAll sends (db.send now args).2).1 := by
        simp [seqsOn, hc, hreceipt]
      rw [if_pos hc] at hseqs hrows
      rw [hcons, List.length_cons, List.range'_succ, ← hseqs]
      refine ⟨rfl, ?_⟩
      rw [hrows, if_pos hc, List.append_assoc, ← hseqs]
      rfl
    · have hcons : seqsOn c ((args.channel, (db.send now args).1) :: (sendAll sends (db.send now args).2).1) =
          seqsOn c (sendAll sends (db.send now args).2).1 := by
        simp [seqsOn, hc]
      rw [if_neg hc] at hseqs hrows
      rw [hcons]
      refine ⟨hseqs, ?_⟩
      rw [hrows, if_neg hc, List.append_nil]

/-! ### Newer files -/

/-- The `ValueError` of `_chain_for`. -/
def newerError (v : String) : String :=
  "Database schema version " ++ Json.reprStr v ++ " is newer than the adapter's target " ++
    Json.reprStr schemaVersion ++
    "; refusing to downgrade. Upgrade the sox-protocol package or restore from a snapshot."

/-- The version comes behind 1.3. -/
def IsNewer (v : String) : Prop := ∃ p, parseVersion v = some p ∧ [1, 3] < p

theorem IsNewer.ne {u v : String} {q : List Nat} (h : IsNewer v) (hu : parseVersion u = some q)
    (hq : ¬ [1, 3] < q) : v ≠ u := by
  rintro rfl
  obtain ⟨p, hp, hlt⟩ := h
  cases hp.symm.trans hu
  exact hq hlt

theorem parse_schemaVersion : parseVersion schemaVersion = some [1, 3] := by decide

theorem parse_untracked : parseVersion "0.0" = some [0, 0] := by decide

theorem chainFor_newer {v : String} (h : IsNewer v) : chainFor v schemaVersion = .error (newerError v) := by
  have hne : v ≠ schemaVersion := h.ne parse_schemaVersion (by decide)
  obtain ⟨p, hp, hlt⟩ := h
  unfold chainFor newerError
  rw [if_neg hne, hp, parse_schemaVersion]
  exact if_pos hlt

theorem newer_refused {db : FileDb} {t : MessagesTable} {v : String} (ht : db.messages = some t)
    (hv : (db.soxMeta.getD .empty).get? "schema_version" = some v) (h : IsNewer v) :
    openStore.outcome db = .error (newerError v) ∧ ∀ d ∈ openStore.durable db, d.messages = some t := by
  obtain ⟨ds, hds, hschema⟩ := runs_schemaSql db
  rw [ht] at hds hschema
  have hne : v ≠ schemaVersion ∧ v ≠ "0.0" :=
    ⟨h.ne parse_schemaVersion (by decide), h.ne parse_untracked (by decide)⟩
  set schema := opened t (db.subscriptions.getD []) (db.liveness.getD .empty) with hopened
  have hfail : Fails (migrate schemaVersion) (schema db.soxMeta) (newerError v)
      ([schema (some (db.soxMeta.getD .empty))] ++ []) (schema (some (db.soxMeta.getD .empty))) := by
    refine (runs_getPersistedVersion (schema db.soxMeta)).bind_fails ?_
    simp only [hopened, opened, hv, Option.getD_some, hne.1, hne.2, ↓reduceIte]
    unfold migrateFrom
    rw [chainFor_newer h]
    exact fails_throw
  have hopen : Fails openStore db (newerError v) (ds ++ [schema (some (db.soxMeta.getD .empty))]) _ :=
    hschema.bind_fails hfail
  refine ⟨hopen.outcome_eq, fun d hd => ?_⟩
  rw [hopen.durable_eq] at hd
  simp only [List.mem_cons, List.mem_append, List.not_mem_nil, or_false] at hd
  rcases hd with rfl | hd | rfl
  · exact ht
  · exact (hds d hd).1
  · rfl

end

/-- The file `db` is what an uninterrupted migration makes of `f`. -/
structure Upgraded (f : OldFile) (t : MessagesTable) (db : FileDb) : Prop where
  messages : db.messages = some t
  columns : t.seqColumn = true ∧ t.replyToColumn = true
  version : (db.soxMeta.getD .empty).get? "schema_version" = some schemaVersion
  subscriptions : db.subscriptions = some f.subscriptions
  kept : t.rows.map (fun m => { m with seq := 0 }) = f.rows.map fun m => { m with seq := 0 }
  numbered : f.version = .v10 → ∀ c, (sortMessages (onChannel c t.rows)).map (·.seq) =
    List.range' 1 (onChannel c t.rows).length
  numbers : f.version ≠ .v10 → t.rows.map (·.seq) = f.rows.map (·.seq)
  /-- Opening it once more changes nothing, in any state on the way. -/
  again : openStore.outcome db = .ok db ∧ ∀ d ∈ openStore.durable db, d = db
  /-- Sends continue every channel behind its highest number. -/
  continues : ∀ autoincrement sends c,
    let receipts := (sendAll sends (storeOn autoincrement db)).1
    let stored := (sendAll sends (storeOn autoincrement db)).2.messages
    let n := (seqsOn c receipts).length
    seqsOn c receipts = List.range' (maxSeq c t.rows + 1) n ∧
    (onChannel c stored).map (·.seq) =
      (onChannel c t.rows).map (·.seq) ++ List.range' (maxSeq c t.rows + 1) n

theorem upgraded (f : OldFile) : Upgraded f f.upgradedTable (upgradedDb f) where
  messages := rfl
  columns := ⟨rfl, rfl⟩
  version := Dict.get?_set_self
  subscriptions := rfl
  kept := by
    by_cases hv : f.version = .v10
    · simp only [OldFile.upgradedTable, if_pos hv, backfill, List.map_map]
      refine List.map_congr_left fun m _ => ?_
      simp only [Function.comp_apply]
      split <;> rfl
    · simp only [OldFile.upgradedTable, if_neg hv]
  numbered hv c := by
    simp only [OldFile.upgradedTable, if_pos hv]
    exact backfill_ordered f.nodup (f.seqs hv) c
  numbers hv := by simp only [OldFile.upgradedTable, if_neg hv]
  again := by
    have hrun := runs_openStore_finished f.upgradedTable f.subscriptions .empty (f.soxMeta.getD .empty)
    refine ⟨hrun.outcome_eq, fun d hd => ?_⟩
    rw [upgradedDb, hrun.durable_eq, List.mem_cons] at hd
    rcases hd with rfl | hd
    · rfl
    · exact List.eq_of_mem_replicate hd
  continues autoincrement sends c := sendAll_seqs sends (storeOn autoincrement (upgradedDb f)) c

/-- Opening a file of an old schema keeps its messages, numbers those of a 1.0 file in the order of
`(sent_at, id)` and leaves the numbers of the others as they are; opening it again changes nothing,
and sends go on behind the highest numbers. A newer file is refused and keeps its messages. -/
theorem migration_upgrade :
    (∀ f : OldFile, ∃ t db, openStore.outcome f.db = .ok db ∧ Upgraded f t db) ∧
    ∀ (db : FileDb) (t : MessagesTable) (v : String), db.messages = some t →
      (db.soxMeta.getD .empty).get? "schema_version" = some v → IsNewer v →
        openStore.outcome db = .error (newerError v) ∧ ∀ d ∈ openStore.durable db, d.messages = some t :=
  ⟨fun f => ⟨f.upgradedTable, upgradedDb f, outcome_upgrade f, upgraded f⟩,
    fun _ _ _ ht hv h => newer_refused ht hv h⟩

/-- A file of version 9.0 with nothing in it. -/
def futureFile : FileDb :=
  { messages := some ⟨true, true, []⟩, soxMeta := some (Dict.empty.set "schema_version" "9.0") }

theorem migration_upgrade_newer : openStore.outcome futureFile = .error (newerError "9.0") ∧
    ∀ d ∈ openStore.durable futureFile, d.messages = some ⟨true, true, []⟩ :=
  migration_upgrade.2 futureFile _ "9.0" rfl (by decide) ⟨[9, 0], by decide, by decide⟩

end Migration

end Sox
