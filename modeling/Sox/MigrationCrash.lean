import Sox.Migration

/-!
# A migration that dies half way

The states a crash of `openStore` on a 1.0 file can leave behind, and what opening them again makes
of them. After `schema.sql` a file differs from the finished one in the columns of `messages` and in
its version row only, so each migration is followed on files of that shape. `migration_reopened`
tells the one crash that is not repaired: the `seq` column is there and the rows are not
back-filled.
-/

namespace Sox

/-- A row of `messages` in schema 1.0. -/
structure RowV10 where
  id : Nat
  channel : Channel
  sender : AgentId
  body : JsonDict
  correlationId : Option String
  sentAt : ℚ
  deliveredTo : List AgentId

def RowV10.stored (r : RowV10) : StoredMessage where
  id := r.id
  channel := r.channel
  sender := r.sender
  body := r.body
  correlationId := r.correlationId
  sentAt := r.sentAt
  seq := 0
  replyTo := none
  deliveredTo := r.deliveredTo

/-- A database of schema 1.0: ids are the primary key, and a version row, if there is one, says
1.0. -/
structure V10File where
  rows : List RowV10
  nodup : (rows.map (·.id)).Nodup
  indexChannel : Bool
  indexSentAt : Bool
  subscriptions : List (AgentId × Pattern)
  soxMeta : Option (Dict String String)
  version : (soxMeta.getD .empty).get? "schema_version" = none ∨
    (soxMeta.getD .empty).get? "schema_version" = some "1.0"

def V10File.db (f : V10File) : FileDb where
  messages := some ⟨false, false, f.rows.map RowV10.stored⟩
  indexChannel := f.indexChannel
  indexSentAt := f.indexSentAt
  subscriptions := some f.subscriptions
  soxMeta := f.soxMeta

namespace MessagesTable

def withSeq (t : MessagesTable) : MessagesTable :=
  { t with seqColumn := true, rows := t.rows.map fun m => { m with seq := 0 } }

def backfilled (t : MessagesTable) : MessagesTable := { t with rows := FileDb.backfill t.rows }

def withReplyTo (t : MessagesTable) : MessagesTable :=
  { t with replyToColumn := true, rows := t.rows.map fun m => { m with replyTo := none } }

def migrateSeq (t : MessagesTable) : MessagesTable := if t.seqColumn then t else t.withSeq.backfilled

def migrateReplyTo (t : MessagesTable) : MessagesTable := if t.replyToColumn then t else t.withReplyTo

end MessagesTable

/-- `db` after the last migration, with the table `t` and the metadata `kv`. -/
def FileDb.migratedTo (db : FileDb) (t : MessagesTable) (kv : Dict String String) : FileDb :=
  { db with
    messages := some t
    liveness := some (db.liveness.getD .empty)
    indexExpiresAt := db.liveness.isNone || db.indexExpiresAt
    soxMeta := some kv }

/-- The rows of `f` in a table that has got the `seq` column. -/
def V10File.table (f : V10File) : MessagesTable := ⟨true, false, f.rows.map RowV10.stored⟩

/-- The table that an uninterrupted migration ends with. -/
def V10File.migratedTable (f : V10File) : MessagesTable := f.table.backfilled.withReplyTo

namespace Migration

open FileDb Journal

/-! ### The migrations, one by one -/

section
variable {db db' : FileDb} {t t' : MessagesTable} {subs : List (AgentId × Pattern)}
  {lv : Dict AgentId Liveness} {kv : Dict String String} {mt : Option (Dict String String)}

/-- A file that `schema.sql` has gone over. -/
def opened (t : MessagesTable) (subs : List (AgentId × Pattern)) (lv : Dict AgentId Liveness)
    (mt : Option (Dict String String)) : FileDb :=
  ⟨some t, true, true, some subs, some lv, true, mt⟩

theorem runs_getPersistedVersion (db : FileDb) : Runs getPersistedVersion db
    (((db.soxMeta.getD .empty).get? "schema_version").getD "0.0")
    [{ db with soxMeta := some (db.soxMeta.getD .empty) }]
    { db with soxMeta := some (db.soxMeta.getD .empty) } := by
  have hmeta : Runs (exec createMeta) db () [{ db with soxMeta := some (db.soxMeta.getD .empty) }]
      { db with soxMeta := some (db.soxMeta.getD .empty) } := runs_exec rfl
  exact hmeta.bind (runs_read.bind runs_pure)

theorem runs_setPersistedVersion (hkv : db.soxMeta = some kv) (v : String) :
    Runs (setPersistedVersion v) db () [{ db with soxMeta := some (kv.set "schema_version" v) }]
      { db with soxMeta := some (kv.set "schema_version" v) } := by
  have hset : setVersion v db = .ok { db with soxMeta := some (kv.set "schema_version" v) } := by
    simp only [setVersion, hkv]
  exact runs_exec hset

theorem contains_seq (ht : db.messages = some t) :
    (db.columns "messages").contains "seq" = t.seqColumn := by
  rw [columns, if_pos rfl, ht]
  obtain ⟨_ | _, _ | _, rows⟩ := t <;> rfl

theorem contains_reply_to (ht : db.messages = some t) :
    (db.columns "messages").contains "reply_to" = t.replyToColumn := by
  rw [columns, if_pos rfl, ht]
  obtain ⟨_ | _, _ | _, rows⟩ := t <;> rfl

theorem present_seq (ht : db.messages = some t) :
    structuralChangePresent "1.0" "1.1" db = t.seqColumn := by
  rw [← contains_seq ht, structuralChangePresent, if_pos rfl]

theorem present_replyTo (ht : db.messages = some t) :
    structuralChangePresent "1.1" "1.2" db = t.replyToColumn := by
  rw [← contains_reply_to ht, structuralChangePresent, if_neg (by decide), if_pos rfl]

theorem present_liveness : structuralChangePresent "1.2" "1.3" db = db.liveness.isSome := by
  rw [structuralChangePresent, if_neg (by decide), if_neg (by decide), if_pos rfl]
  obtain ⟨_ | _, _, _, _ | _, _ | _, _, _ | _⟩ := db <;> rfl

/-- A migration whose change is there only records its version. -/
theorem runs_applyMigration_skip {u v : String} {sql : List Statement}
    (hsql : migrationScript u v = some sql) (hkv : db.soxMeta = some kv)
    (h : structuralChangePresent u v db = true) :
    Runs (applyMigration u v) db () [{ db with soxMeta := some (kv.set "schema_version" v) }]
      { db with soxMeta := some (kv.set "schema_version" v) } := by
  unfold applyMigration
  rw [hsql]
  refine runs_read.bind ?_
  simp only [h, Bool.not_true, Bool.false_eq_true, ↓reduceIte]
  exact runs_setPersistedVersion hkv v

/-- A migration whose change is missing runs its script and records its version. -/
theorem runs_applyMigration {u v : String} {sql : List Statement} {es : List FileDb}
    (hsql : migrationScript u v = some sql) (h : structuralChangePresent u v db = false)
    (hrun : Runs (script sql) db () es db') (hkv : db'.soxMeta = some kv) :
    Runs (applyMigration u v) db ()
      (es ++ [{ db' with soxMeta := some (kv.set "schema_version" v) }])
      { db' with soxMeta := some (kv.set "schema_version" v) } := by
  unfold applyMigration
  rw [hsql]
  refine runs_read.bind ?_
  simp only [h, Bool.not_false, ↓reduceIte]
  exact hrun.bind (runs_setPersistedVersion hkv v)

theorem runs_seq (db : FileDb) (ht : db.messages = some t) (hkv : db.soxMeta = some kv) (h : t.seqColumn = false) :
    Runs (applyMigration "1.0" "1.1") db ()
      [{ db with messages := some t.withSeq }, { db with messages := some t.withSeq.backfilled },
        { db with messages := some t.withSeq.backfilled, soxMeta := some (kv.set "schema_version" "1.1") }]
      { db with messages := some t.withSeq.backfilled, soxMeta := some (kv.set "schema_version" "1.1") } := by
  have hadd : addSeq db = .ok { db with messages := some t.withSeq } := by
    simp only [addSeq, ht, h, Bool.false_eq_true, ↓reduceIte, MessagesTable.withSeq]
  have hfill : backfillSeq { db with messages := some t.withSeq } =
      .ok { db with messages := some t.withSeq.backfilled } := rfl
  have hscript : Runs (script [addSeq, backfillSeq]) db () _ { db with messages := some t.withSeq.backfilled } :=
    runs_script_cons hadd (runs_script_cons hfill runs_script_nil)
  exact runs_applyMigration rfl ((present_seq ht).trans h) hscript hkv

theorem runs_replyTo (ht : db.messages = some t) (hkv : db.soxMeta = some kv)
    (h : t.replyToColumn = false) :
    Runs (applyMigration "1.1" "1.2") db ()
      [{ db with messages := some t.withReplyTo },
        { db with messages := some t.withReplyTo, soxMeta := some (kv.set "schema_version" "1.2") }]
      { db with messages := some t.withReplyTo, soxMeta := some (kv.set "schema_version" "1.2") } := by
  have hadd : addReplyTo db = .ok { db with messages := some t.withReplyTo } := by
    simp only [addReplyTo, ht, h, Bool.false_eq_true, ↓reduceIte, MessagesTable.withReplyTo]
  have hscript : Runs (script [addReplyTo]) db () _ { db with messages := some t.withReplyTo } :=
    runs_script_cons hadd runs_script_nil
  exact runs_applyMigration rfl ((present_replyTo ht).trans h) hscript hkv

theorem runs_liveness (hkv : db.soxMeta = some kv) (h : db.liveness.isSome = true) :
    Runs (applyMigration "1.2" "1.3") db ()
      [{ db with soxMeta := some (kv.set "schema_version" "1.3") }]
      { db with soxMeta := some (kv.set "schema_version" "1.3") } :=
  runs_applyMigration_skip rfl hkv (present_liveness.trans h)

/-! ### The chain -/

theorem runs_applyAll_cons {u v : String} {rest : List (String × String)} {names : List String}
    {es es' : List FileDb} {db'' : FileDb} (h : Runs (applyMigration u v) db () es db')
    (hrest : Runs (applyAll rest) db' names es' db'') :
    Runs (applyAll ((u, v) :: rest)) db ((u ++ "→" ++ v) :: names) (es ++ es') db'' := by
  have htail : Runs (applyAll rest >>= fun applied => pure ((u ++ "→" ++ v) :: applied)) db'
      ((u ++ "→" ++ v) :: names) (es' ++ []) db'' := hrest.bind runs_pure
  rw [List.append_nil] at htail
  exact h.bind htail

theorem exists_runs_seq (ht : db.messages = some t) (hkv : db.soxMeta = some kv) :
    ∃ es, Runs (applyMigration "1.0" "1.1") db () es
      { db with messages := some t.migrateSeq, soxMeta := some (kv.set "schema_version" "1.1") } := by
  unfold MessagesTable.migrateSeq
  split
  · rename_i h
    rw [← ht]
    exact ⟨_, runs_applyMigration_skip rfl hkv ((present_seq ht).trans h)⟩
  · rename_i h
    exact ⟨_, runs_seq db ht hkv (Bool.eq_false_iff.2 h)⟩

theorem exists_runs_replyTo (ht : db.messages = some t) (hkv : db.soxMeta = some kv) :
    ∃ es, Runs (applyMigration "1.1" "1.2") db () es
      { db with messages := some t.migrateReplyTo, soxMeta := some (kv.set "schema_version" "1.2") } := by
  unfold MessagesTable.migrateReplyTo
  split
  · rename_i h
    rw [← ht]
    exact ⟨_, runs_applyMigration_skip rfl hkv ((present_replyTo ht).trans h)⟩
  · rename_i h
    exact ⟨_, runs_replyTo ht hkv (Bool.eq_false_iff.2 h)⟩

theorem exists_runs_liveness (ht : db.messages = some t) (hkv : db.soxMeta = some kv) :
    ∃ es, Runs (applyMigration "1.2" "1.3") db () es
      (db.migratedTo t (kv.set "schema_version" "1.3")) := by
  unfold migratedTo
  cases hlv : db.liveness with
  | some lv =>
    have hsame : { db with
        messages := some t, liveness := some lv, soxMeta := some (kv.set "schema_version" "1.3") } =
        { db with soxMeta := some (kv.set "schema_version" "1.3") } := by
      rw [← ht, ← hlv]
    simp only [Option.getD_some, Option.isNone_some, Bool.false_or, hsame]
    exact ⟨_, runs_liveness hkv (by rw [hlv]; rfl)⟩
  | none =>
    have hadd : createLiveness db = .ok { db with liveness := some .empty } := by
      simp only [createLiveness, hlv, Option.getD_none]
    have hscript : Runs (script [createLiveness, createIndexExpiresAt]) db () _
        { db with liveness := some .empty, indexExpiresAt := true } :=
      runs_script_cons hadd (runs_script_cons rfl runs_script_nil)
    simp only [Option.getD_none, Option.isNone_none, Bool.true_or, ← ht]
    exact ⟨_, runs_applyMigration rfl (present_liveness.trans (by rw [hlv]; rfl)) hscript hkv⟩

theorem runs_from_1_2 (db : FileDb) (hkv : db.soxMeta = some kv) (h : db.liveness.isSome = true) :
    Runs (applyAll migrationChain.tail.tail) db ["1.2→1.3"]
      [{ db with soxMeta := some (kv.set "schema_version" "1.3") }]
      { db with soxMeta := some (kv.set "schema_version" "1.3") } :=
  runs_applyAll_cons (runs_liveness hkv h) runs_pure

theorem exists_runs_from_1_2 (db : FileDb) (ht : db.messages = some t) (hkv : db.soxMeta = some kv) :
    ∃ names es, Runs (applyAll migrationChain.tail.tail) db names es
      (db.migratedTo t (kv.set "schema_version" "1.3")) := by
  obtain ⟨es, h⟩ := exists_runs_liveness ht hkv
  exact ⟨_, _, runs_applyAll_cons h runs_pure⟩

theorem exists_runs_from_1_1 (db : FileDb) (ht : db.messages = some t) (hkv : db.soxMeta = some kv) :
    ∃ names es, Runs (applyAll migrationChain.tail) db names es
      (db.migratedTo t.migrateReplyTo (kv.set "schema_version" "1.3")) := by
  obtain ⟨es, h⟩ := exists_runs_replyTo ht hkv
  obtain ⟨names, es', h'⟩ := exists_runs_from_1_2 { db with
    messages := some t.migrateReplyTo, soxMeta := some (kv.set "schema_version" "1.2") } rfl rfl
  rw [Dict.set_set] at h'
  exact ⟨_, _, runs_applyAll_cons h h'⟩

theorem exists_runs_from_1_0 (db : FileDb) (ht : db.messages = some t) (hkv : db.soxMeta = some kv) :
    ∃ names es, Runs (applyAll migrationChain) db names es
      (db.migratedTo t.migrateSeq.migrateReplyTo (kv.set "schema_version" "1.3")) := by
  obtain ⟨es, h⟩ := exists_runs_seq ht hkv
  obtain ⟨names, es', h'⟩ := exists_runs_from_1_1 { db with
    messages := some t.migrateSeq, soxMeta := some (kv.set "schema_version" "1.1") } rfl rfl
  rw [Dict.set_set] at h'
  exact ⟨_, _, runs_applyAll_cons h h'⟩

theorem runs_migrate_tracked {v : String} {chain : List (String × String)} {names : List String}
    {es : List FileDb} (hv : (db.soxMeta.getD .empty).get? "schema_version" = some v)
    (hne : v ≠ schemaVersion ∧ v ≠ "0.0") (hc : chainFor v schemaVersion = .ok chain)
    (h : Runs (applyAll chain) { db with soxMeta := some (db.soxMeta.getD .empty) } names es db') :
    Runs (migrate schemaVersion) db (v, names)
      ({ db with soxMeta := some (db.soxMeta.getD .empty) } :: es) db' := by
  have hfrom : Runs (migrateFrom v schemaVersion) { db with soxMeta := some (db.soxMeta.getD .empty) }
      (v, names) (es ++ []) db' := by
    unfold migrateFrom
    rw [hc]
    exact h.bind runs_pure
  rw [List.append_nil] at hfrom
  refine (runs_getPersistedVersion db).bind ?_
  simp only [hv, Option.getD_some, hne.1, hne.2, ↓reduceIte]
  exact hfrom

theorem runs_migrate_untracked {names : List String} {es : List FileDb} (ht : db.messages = some t)
    (hv : (db.soxMeta.getD .empty).get? "schema_version" = none) (hr : t.replyToColumn = false)
    (h : Runs (applyAll migrationChain) { db with soxMeta := some (db.soxMeta.getD .empty) } names es db') :
    Runs (migrate schemaVersion) db ("1.0", names)
      ({ db with soxMeta := some (db.soxMeta.getD .empty) } :: es) db' := by
  have hfrom : Runs (migrateFrom "1.0" schemaVersion)
      { db with soxMeta := some (db.soxMeta.getD .empty) } ("1.0", names) (es ++ []) db' :=
    h.bind runs_pure
  rw [List.append_nil] at hfrom
  refine (runs_getPersistedVersion db).bind ?_
  simp only [hv, Option.getD_none, (by decide : "0.0" ≠ schemaVersion), ↓reduceIte]
  refine runs_read.bind ?_
  have hcolumn : (columns { db with soxMeta := some (db.soxMeta.getD .empty) } "messages").contains
      "reply_to" = false := (contains_reply_to ht).trans hr
  simp only [hcolumn, Bool.false_eq_true, ↓reduceIte]
  exact hfrom

/-! ### Opening a file -/

theorem runs_schemaSql (db : FileDb) :
    let t := db.messages.getD ⟨true, true, []⟩
    ∃ ds, (∀ d ∈ ds, d.messages = some t ∧ d.subscriptions.getD [] = db.subscriptions.getD [] ∧
        d.liveness.getD .empty = db.liveness.getD .empty ∧ d.soxMeta = db.soxMeta) ∧
      Runs (script schemaSql) db () ds
        (opened t (db.subscriptions.getD []) (db.liveness.getD .empty) db.soxMeta) := by
  intro t
  refine ⟨_, ?_, runs_script_cons rfl (runs_script_cons rfl (runs_script_cons rfl (runs_script_cons rfl
    (runs_script_cons rfl (runs_script_cons rfl runs_script_nil)))))⟩
  simp [t]

theorem runs_openStore {db db' : FileDb} {ds es : List FileDb} {r : String × List String}
    (hs : Runs (script schemaSql) db () ds (opened t subs lv mt))
    (h : Runs (migrate schemaVersion) (opened t subs lv mt) r es db') :
    Runs openStore db r (ds ++ es) db' :=
  hs.bind h

theorem outcome_openStore {db db' : FileDb} (hm : db.messages = some t)
    (hs : db.subscriptions.getD [] = subs)
    (hl : db.liveness.getD .empty = lv) (hmt : db.soxMeta = mt)
    (h : ∃ r es, Runs (migrate schemaVersion) (opened t subs lv mt) r es db') :
      openStore.outcome db = .ok db' := by
  obtain ⟨ds, -, hschema⟩ := runs_schemaSql db
  rw [hm, hs, hl, hmt] at hschema
  obtain ⟨r, es, h⟩ := h
  exact (runs_openStore hschema h).outcome_eq

theorem migrates_1_0 (hv : (mt.getD .empty).get? "schema_version" = none ∨
    (mt.getD .empty).get? "schema_version" = some "1.0") (hr : t.replyToColumn = false) :
    ∃ r es, Runs (migrate schemaVersion) (opened t subs lv mt) r es
      (opened t.migrateSeq.migrateReplyTo subs lv
        (some ((mt.getD .empty).set "schema_version" "1.3"))) := by
  obtain ⟨names, es, h⟩ := exists_runs_from_1_0 (opened t subs lv (some (mt.getD .empty))) rfl rfl
  rcases hv with hv | hv
  · exact ⟨_, _, runs_migrate_untracked rfl hv hr h⟩
  · exact ⟨_, _, runs_migrate_tracked hv (by decide) rfl h⟩

theorem migrates_1_1 : ∃ r es, Runs (migrate schemaVersion)
    (opened t subs lv (some (kv.set "schema_version" "1.1"))) r
    es (opened t.migrateReplyTo subs lv (some (kv.set "schema_version" "1.3"))) := by
  obtain ⟨names, es, h⟩ :=
    exists_runs_from_1_1 (opened t subs lv (some (kv.set "schema_version" "1.1"))) rfl rfl
  rw [Dict.set_set] at h
  exact ⟨_, _, runs_migrate_tracked Dict.get?_set_self (by decide) rfl h⟩

theorem migrates_1_2 : ∃ r es, Runs (migrate schemaVersion)
    (opened t subs lv (some (kv.set "schema_version" "1.2"))) r
    es (opened t subs lv (some (kv.set "schema_version" "1.3"))) := by
  have h := runs_from_1_2 (opened t subs lv (some (kv.set "schema_version" "1.2"))) rfl rfl
  rw [Dict.set_set] at h
  exact ⟨_, _, runs_migrate_tracked Dict.get?_set_self (by decide) rfl h⟩

theorem runs_migrate_1_3 (hv : (db.soxMeta.getD .empty).get? "schema_version" = some schemaVersion) :
    Runs (migrate schemaVersion) db (schemaVersion, [])
      [{ db with soxMeta := some (db.soxMeta.getD .empty) }]
      { db with soxMeta := some (db.soxMeta.getD .empty) } := by
  have h : Runs (migrate schemaVersion) db (schemaVersion, [])
      ([{ db with soxMeta := some (db.soxMeta.getD .empty) }] ++ [])
      { db with soxMeta := some (db.soxMeta.getD .empty) } := by
    refine (runs_getPersistedVersion db).bind ?_
    simp only [hv, Option.getD_some, ↓reduceIte]
    exact runs_pure
  exact h

theorem migrates_1_3 : ∃ r es, Runs (migrate schemaVersion)
    (opened t subs lv (some (kv.set "schema_version" "1.3"))) r
    es (opened t subs lv (some (kv.set "schema_version" "1.3"))) :=
  ⟨_, _, runs_migrate_1_3 Dict.get?_set_self⟩

/-- The run of the runner on a 1.0 table, statement by statement. -/
theorem runs_migrate_v10 (hv : (mt.getD .empty).get? "schema_version" = none ∨
    (mt.getD .empty).get? "schema_version" = some "1.0") (hs : t.seqColumn = false)
      (hr : t.replyToColumn = false) :
    ∃ r, Runs (migrate schemaVersion) (opened t subs lv mt) r
      [opened t subs lv (some (mt.getD .empty)), opened t.withSeq subs lv (some (mt.getD .empty)),
        opened t.withSeq.backfilled subs lv (some (mt.getD .empty)),
        opened t.withSeq.backfilled subs lv (some ((mt.getD .empty).set "schema_version" "1.1")),
        opened t.withSeq.backfilled.withReplyTo subs lv
          (some ((mt.getD .empty).set "schema_version" "1.1")),
        opened t.withSeq.backfilled.withReplyTo subs lv
          (some ((mt.getD .empty).set "schema_version" "1.2")),
        opened t.withSeq.backfilled.withReplyTo subs lv
          (some ((mt.getD .empty).set "schema_version" "1.3"))]
      (opened t.withSeq.backfilled.withReplyTo subs lv
        (some ((mt.getD .empty).set "schema_version" "1.3"))) := by
  have hseq := runs_seq (opened t subs lv (some (mt.getD .empty))) rfl rfl hs
  have hreply : Runs _ (opened t.withSeq.backfilled subs lv
      (some ((mt.getD .empty).set "schema_version" "1.1"))) () _ _ := runs_replyTo rfl rfl hr
  have hlast : Runs _ (opened t.withSeq.backfilled.withReplyTo subs lv
      (some (((mt.getD .empty).set "schema_version" "1.1").set "schema_version" "1.2"))) _ _ _ :=
    runs_from_1_2 _ rfl rfl
  have h := runs_applyAll_cons hseq (runs_applyAll_cons hreply hlast)
  simp only [Dict.set_set] at h
  rcases hv with hv | hv
  · exact ⟨_, runs_migrate_untracked rfl hv hr h⟩
  · exact ⟨_, runs_migrate_tracked hv (by decide) rfl h⟩

end

/-! ### The back-fill -/

section
variable {rows : List StoredMessage} {t : MessagesTable}

theorem backfill_seq_ne {m : StoredMessage} (hm : m ∈ backfill rows) : m.seq ≠ 0 := by
  obtain ⟨n, -, rfl⟩ := List.mem_map.1 hm
  split
  · exact Nat.succ_ne_zero _
  · assumption

theorem backfill_eq_self (h : ∀ m ∈ rows, m.seq ≠ 0) : backfill rows = rows := by
  have hsame : backfill rows = rows.map id := List.map_congr_left fun m hm => if_neg (h m hm)
  rw [hsame, List.map_id]

theorem map_idxOf_succ {l : List Nat} (h : l.Nodup) :
    l.map (fun i => l.idxOf i + 1) = List.range' 1 l.length := by
  refine List.ext_getElem (by simp) fun i h₁ h₂ => ?_
  have hi : i < l.length := by simpa using h₁
  rw [List.getElem_map, h.idxOf_getElem i hi, List.getElem_range']
  omega

/-- Back-filled from nothing, the rows of each channel are numbered 1, …, n in delivery order. -/
theorem backfill_ordered (hnd : (rows.map (·.id)).Nodup) (h : ∀ m ∈ rows, m.seq = 0) (c : Channel) :
    (sortMessages (onChannel c (backfill rows))).map (·.seq) =
      List.range' 1 (onChannel c (backfill rows)).length := by
  let number : StoredMessage → StoredMessage := fun m => { m with seq := rowNumber rows m }
  have hfill : backfill rows = rows.map number := List.map_congr_left fun m hm => if_pos (h m hm)
  have hon : onChannel c (rows.map number) = (onChannel c rows).map number := List.filter_map ..
  have hsort : sortMessages ((onChannel c rows).map number) =
    (sortMessages (onChannel c rows)).map number :=
    (List.map_insertionSort StoredMessage.Before _ number _ fun _ _ _ _ => Iff.rfl).symm
  have hids : ((sortMessages (onChannel c rows)).map (·.id)).Nodup :=
    ((sortMessages_perm _).map _).nodup_iff.2 (hnd.sublist (List.filter_sublist.map _))
  rw [hfill, hon, hsort, List.map_map, List.length_map]
  calc (sortMessages (onChannel c rows)).map (fun m => rowNumber rows m)
      = (sortMessages (onChannel c rows)).map
          (fun m => ((sortMessages (onChannel c rows)).map (·.id)).idxOf m.id + 1) := by
        refine List.map_congr_left fun m hm => ?_
        have hc : m.channel = c := by
          simpa [onChannel] using (List.mem_filter.1 (mem_sortMessages.1 hm)).2
        rw [rowNumber, hc]
    _ = ((sortMessages (onChannel c rows)).map (·.id)).map
          (fun i => ((sortMessages (onChannel c rows)).map (·.id)).idxOf i + 1) := by
            rw [List.map_map]; rfl
    _ = List.range' 1 (onChannel c rows).length := by
        rw [map_idxOf_succ hids, List.length_map, (sortMessages_perm _).length_eq]

/-- Skipping the back-fill is harmless exactly when there was nothing to number. -/
theorem withReplyTo_backfilled_eq_iff :
    t.withReplyTo = t.backfilled.withReplyTo ↔ ∀ m ∈ t.rows, m.seq ≠ 0 := by
  constructor
  · intro h m hm h0
    have hrows : t.rows.map (fun m => { m with replyTo := none }) =
        (backfill t.rows).map fun m => { m with replyTo := none } := congrArg MessagesTable.rows h
    have hmem : { m with replyTo := none } ∈ (backfill t.rows).map fun m =>
      { m with replyTo := none } := by
      rw [← hrows]
      exact List.mem_map_of_mem hm
    obtain ⟨n, hn, hnm⟩ := List.mem_map.1 hmem
    have hseq : n.seq = m.seq := by simpa using congrArg StoredMessage.seq hnm
    exact backfill_seq_ne hn (hseq.trans h0)
  · intro h
    rw [MessagesTable.backfilled, backfill_eq_self h]

end

/-! ### The crash that is not repaired -/

/-- The `seq` column is there, and some row has no number. -/
def seqUnfilled (db : FileDb) : Bool := db.messages.any fun t => t.seqColumn && t.rows.any (·.seq = 0)

/-- The file `db` is what a migration of `f` is for: the shape and version of schema 1.3, the rows
of `f`, and on every channel the numbers 1, …, n in the order of `(sent_at, id)`. -/
structure Migrated (f : V10File) (t : MessagesTable) (db : FileDb) : Prop where
  messages : db.messages = some t
  columns : db.columns "messages" =
    ["id", "channel", "sender", "body", "correlation_id", "sent_at", "delivered_to", "seq", "reply_to"]
  tables : db.tables = ["messages", "subscriptions", "liveness", "_sox_meta"]
  indexes : db.indexChannel = true ∧ db.indexSentAt = true ∧ db.indexExpiresAt = true
  version : (db.soxMeta.getD .empty).get? "schema_version" = some schemaVersion
  subscriptions : db.subscriptions = some f.subscriptions
  rows : t.rows.map (fun m => { m with seq := 0 }) = f.rows.map RowV10.stored
  ordered : ∀ c, (sortMessages (onChannel c t.rows)).map (·.seq) =
    List.range' 1 (onChannel c t.rows).length

section
variable {f : V10File}

theorem stored_seq {m : StoredMessage} (hm : m ∈ f.rows.map RowV10.stored) : m.seq = 0 := by
  obtain ⟨r, -, rfl⟩ := List.mem_map.1 hm
  rfl

theorem migratedTable_seq {m : StoredMessage} (hm : m ∈ f.migratedTable.rows) : m.seq ≠ 0 := by
  obtain ⟨n, hn, rfl⟩ := List.mem_map.1 hm
  have hn' : n.seq ≠ 0 := backfill_seq_ne hn
  exact hn'

theorem migratedTable_rows : f.migratedTable.rows = backfill (f.rows.map RowV10.stored) := by
  refine (List.map_congr_left fun m hm => ?_).trans (List.map_id _)
  obtain ⟨n, hn, rfl⟩ := List.mem_map.1 hm
  obtain ⟨r, -, rfl⟩ := List.mem_map.1 hn
  rfl

theorem withSeq_stored :
    (⟨false, false, f.rows.map RowV10.stored⟩ : MessagesTable).withSeq = f.table := by
  simp only [MessagesTable.withSeq, V10File.table, List.map_map]
  rfl

def migratedDb (f : V10File) : FileDb :=
  opened f.migratedTable f.subscriptions .empty
    (some ((f.soxMeta.getD .empty).set "schema_version" "1.3"))

theorem migrated : Migrated f f.migratedTable (migratedDb f) where
  messages := rfl
  columns := rfl
  tables := rfl
  indexes := ⟨rfl, rfl, rfl⟩
  version := Dict.get?_set_self
  subscriptions := rfl
  rows := by
    rw [migratedTable_rows, backfill, List.map_map]
    refine (List.map_congr_left fun m hm => ?_).trans (List.map_id _)
    have h0 := stored_seq hm
    simp only [Function.comp_apply, h0, ↓reduceIte, id]
    rw [← h0]
  ordered c := by
    rw [migratedTable_rows]
    refine backfill_ordered ?_ (fun m hm => stored_seq hm) c
    rw [List.map_map]
    exact f.nodup

theorem outcome_v10 {db : FileDb} (hm : db.messages = some ⟨false, false, f.rows.map RowV10.stored⟩)
    (hs : db.subscriptions.getD [] = f.subscriptions) (hl : db.liveness.getD .empty = .empty)
    (hmt : db.soxMeta.getD .empty = f.soxMeta.getD .empty) :
    openStore.outcome db = .ok (migratedDb f) := by
  refine outcome_openStore hm hs hl rfl ?_
  have hv := f.version
  rw [← hmt] at hv
  have h : ∃ r es, Runs _ (opened ⟨false, false, f.rows.map RowV10.stored⟩ f.subscriptions .empty
    db.soxMeta) r es _ :=
    migrates_1_0 hv rfl
  rw [hmt] at h
  have htable : (⟨false, false, f.rows.map RowV10.stored⟩ : MessagesTable).migrateSeq.migrateReplyTo =
      f.migratedTable := by
    rw [MessagesTable.migrateSeq, if_neg Bool.false_ne_true, withSeq_stored]
    rfl
  rwa [htable] at h

theorem seqUnfilled_opened {t : MessagesTable} {subs : List (AgentId × Pattern)}
    {lv : Dict AgentId Liveness} {mt : Option (Dict String String)} (hs : t.seqColumn = true) :
    seqUnfilled (opened t subs lv mt) = false ↔ ∀ m ∈ t.rows, m.seq ≠ 0 := by
  simp [seqUnfilled, opened, hs]

theorem seqUnfilled_v10 {db : FileDb} (hm : db.messages = some ⟨false, false, f.rows.map RowV10.stored⟩) :
    seqUnfilled db = false := by
  simp [seqUnfilled, hm]

theorem opened_inj {t t' : MessagesTable} {subs : List (AgentId × Pattern)} {lv : Dict AgentId Liveness}
    {mt : Option (Dict String String)} : opened t subs lv mt = opened t' subs lv mt ↔ t = t' :=
  ⟨fun h => Option.some.inj (congrArg FileDb.messages h), fun h => by rw [h]⟩

theorem outcome_seqAdded {subs : List (AgentId × Pattern)} : openStore.outcome
    (opened f.table subs .empty (some (f.soxMeta.getD .empty))) =
      .ok (opened f.table.withReplyTo subs .empty
        (some ((f.soxMeta.getD .empty).set "schema_version" "1.3"))) :=
  outcome_openStore rfl rfl rfl rfl (migrates_1_0 f.version rfl)

/-- The states a crash can leave behind, and the state at the end. -/
theorem runs_openStore_v10 (f : V10File) : ∃ r ds, Runs openStore f.db r
    (ds ++ [opened ⟨false, false, f.rows.map RowV10.stored⟩ f.subscriptions .empty
      (some (f.soxMeta.getD .empty)),
      opened f.table f.subscriptions .empty (some (f.soxMeta.getD .empty)),
      opened f.table.backfilled f.subscriptions .empty (some (f.soxMeta.getD .empty)),
      opened f.table.backfilled f.subscriptions .empty
        (some ((f.soxMeta.getD .empty).set "schema_version" "1.1")),
      opened f.migratedTable f.subscriptions .empty
        (some ((f.soxMeta.getD .empty).set "schema_version" "1.1")),
      opened f.migratedTable f.subscriptions .empty
        (some ((f.soxMeta.getD .empty).set "schema_version" "1.2")),
      migratedDb f]) (migratedDb f) ∧
    ∀ d ∈ ds, d.messages = some ⟨false, false, f.rows.map RowV10.stored⟩ ∧
      d.subscriptions.getD [] = f.subscriptions ∧ d.liveness.getD .empty = .empty ∧
        d.soxMeta = f.soxMeta := by
  obtain ⟨ds, hds, hschema⟩ := runs_schemaSql f.db
  obtain ⟨r, hmig⟩ : ∃ r, Runs _
    (opened ⟨false, false, f.rows.map RowV10.stored⟩ f.subscriptions .empty f.soxMeta) r
    _ _ := runs_migrate_v10 f.version rfl rfl
  rw [withSeq_stored] at hmig
  exact ⟨r, ds, runs_openStore hschema hmig, hds⟩

end

/-- Opening a 1.0 file migrates it, and opening what a crash on the way has left behind ends in the
same file exactly when the crash did not come between adding `seq` to a file with messages and the
back-fill. -/
theorem migration_reopened (f : V10File) : ∃ t db, openStore.outcome f.db = .ok db ∧ Migrated f t db ∧
    ∀ crashed ∈ openStore.durable f.db, (openStore.outcome crashed = .ok db ↔
      seqUnfilled crashed = false) := by
  obtain ⟨r, ds, hrun, hds⟩ := runs_openStore_v10 f
  refine ⟨f.migratedTable, migratedDb f, hrun.outcome_eq, migrated, fun crashed hcrashed => ?_⟩
  have hfilled : ∀ m ∈ f.table.backfilled.rows, m.seq ≠ 0 := fun m hm => backfill_seq_ne hm
  have hmigrated : ∀ m ∈ f.migratedTable.rows, m.seq ≠ 0 := fun m hm => migratedTable_seq hm
  simp only [hrun.durable_eq, List.mem_cons, List.mem_append, List.not_mem_nil, or_false] at hcrashed
  rcases hcrashed with rfl | hd | rfl | rfl | rfl | rfl | rfl | rfl | rfl
  · exact iff_of_true hrun.outcome_eq (seqUnfilled_v10 rfl)
  · obtain ⟨hm, hs, hl, hmt⟩ := hds crashed hd
    exact iff_of_true (outcome_v10 hm hs hl (by rw [hmt])) (seqUnfilled_v10 hm)
  · exact iff_of_true (outcome_v10 rfl rfl rfl rfl) (seqUnfilled_v10 rfl)
  · rw [outcome_seqAdded, Except.ok.injEq, migratedDb, opened_inj, seqUnfilled_opened rfl]
    exact withReplyTo_backfilled_eq_iff
  · exact iff_of_true (outcome_openStore rfl rfl rfl rfl (migrates_1_0 f.version rfl))
      ((seqUnfilled_opened rfl).2 hfilled)
  · exact iff_of_true (outcome_openStore rfl rfl rfl rfl migrates_1_1)
      ((seqUnfilled_opened rfl).2 hfilled)
  · exact iff_of_true (outcome_openStore rfl rfl rfl rfl migrates_1_1)
      ((seqUnfilled_opened rfl).2 hmigrated)
  · exact iff_of_true (outcome_openStore rfl rfl rfl rfl migrates_1_2)
      ((seqUnfilled_opened rfl).2 hmigrated)
  · exact iff_of_true (outcome_openStore rfl rfl rfl rfl migrates_1_3)
      ((seqUnfilled_opened rfl).2 hmigrated)

def oneMessage : V10File where
  rows := [⟨1, "#a", "alice", .empty, none, 0, []⟩]
  nodup := by decide
  indexChannel := true
  indexSentAt := true
  subscriptions := []
  soxMeta := none
  version := .inl rfl

/-- A crash right after the `seq` column is added leaves the message without a number for good. -/
theorem migration_crash_unnumbered : ∃ crashed ∈ openStore.durable oneMessage.db, ∃ db,
    openStore.outcome crashed = .ok db ∧ openStore.outcome oneMessage.db ≠ .ok db ∧
      (db.soxMeta.getD .empty).get? "schema_version" = some "1.3" ∧
      db.messages.map (fun t => t.rows.map (·.seq)) = some [0] := by
  obtain ⟨r, ds, hrun, -⟩ := runs_openStore_v10 oneMessage
  refine ⟨opened oneMessage.table [] .empty (some .empty), ?_, _, outcome_seqAdded, fun h => ?_, rfl, rfl⟩
  · rw [hrun.durable_eq]
    refine List.mem_cons_of_mem _ (List.mem_append_right _ ?_)
    exact List.mem_cons_of_mem _ List.mem_cons_self
  · have hdb := Except.ok.inj (hrun.outcome_eq.symm.trans h)
    have hseqs : oneMessage.migratedTable = oneMessage.table.withReplyTo := opened_inj.1 hdb
    have h01 : [1] = [0] := congrArg (fun t => t.rows.map StoredMessage.seq) hseqs
    cases h01

end Migration

end Sox
