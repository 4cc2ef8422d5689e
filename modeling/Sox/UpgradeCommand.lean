import Sox.MigrationUpgrade

/-!
# The upgrade command

`_run_migration` of `sox-protocol upgrade` runs the migrations on a database file that is there
already, and nothing else. Opening the file as a store goes over it with `schema.sql` first, which
makes the tables and indexes that no migration makes. The two agree on the files that need nothing
of the kind (`upgrade_agrees_iff`).
-/

namespace Sox

namespace FileDb

def versionRow (db : FileDb) : Option String := (db.soxMeta.getD .empty).get? "schema_version"

/-- The version that the file records, if it records one, is that of a release. -/
def KnownVersion (db : FileDb) : Prop := ∀ v, db.versionRow = some v → v ∈ ["1.0", "1.1", "1.2", "1.3"]

end FileDb

/-- A file of a store of schema 1.0 to 1.3: whatever its tables are, a version row is one of these. -/
structure StoreFile where
  db : FileDb
  known : db.KnownVersion

namespace Migration

open FileDb Journal

/-- `_run_migration`, for a path with or without a file. -/
def runMigration (dbPathExists : Bool) : Journal FileDb (String × List String × String) := do
  if !dbPathExists then
    let _ ← openStore
    pure ("0.0", [], schemaVersion)
  else
    let starting ← getPersistedVersion
    let (startingReturned, applied) ← migrate schemaVersion
    pure (if starting ≠ "0.0" then starting else startingReturned, applied, schemaVersion)

/-- The command and the store accept the same files and make the same of them. -/
def Agrees (db : FileDb) : Prop :=
  ((∃ d, (runMigration true).outcome db = .ok d) ↔ ∃ d, openStore.outcome db = .ok d) ∧
    ∀ d d', (runMigration true).outcome db = .ok d → openStore.outcome db = .ok d' → d = d'

/-- The runner goes on to the last migration: an older version is recorded, or none and the latest
column is missing. -/
def chainAhead (db : FileDb) : Bool :=
  match db.versionRow with
  | none => !(db.columns "messages").contains "reply_to"
  | some v => v ≠ schemaVersion

/-- Whatever `schema.sql` would make is there, or the last migration makes it. -/
def needsNoSchema (db : FileDb) : Bool :=
  db.messages.isSome && db.indexChannel && db.indexSentAt && db.subscriptions.isSome &&
    if db.liveness.isSome then db.indexExpiresAt else chainAhead db

/-! ### What the runner keeps -/

section
variable {I : FileDb → Prop}

def KeptBy (I : FileDb → Prop) (stmt : Statement) : Prop := ∀ d d', I d → stmt d = .ok d' → I d'

theorem keeps_applyMigration {u v : String} (hset : KeptBy I (setVersion v))
    (hsql : ∀ sql, migrationScript u v = some sql → ∀ stmt ∈ sql, KeptBy I stmt) :
    Keeps I (applyMigration u v) := by
  unfold applyMigration
  split
  · exact keeps_throw
  · rename_i sql heq
    refine keeps_read.bind fun db => ?_
    split
    · exact (keeps_script (hsql sql heq)).bind fun _ => keeps_exec hset
    · exact keeps_exec hset

theorem walkChain_subset {target : String} {fuel : Nat} {cursor : String} {chain : List (String × String)}
    (h : walkChain target fuel cursor = .ok chain) : ∀ s ∈ chain, s ∈ migrationChain := by
  induction fuel generalizing cursor chain with
  | zero =>
    unfold walkChain at h
    split at h
    · cases h
      exact fun _ hs => absurd hs List.not_mem_nil
    · cases h
  | succ fuel ih =>
    unfold walkChain at h
    split at h
    · cases h
      exact fun _ hs => absurd hs List.not_mem_nil
    · split at h
      · cases h
      · rename_i nextStep hfind
        cases hrest : walkChain target fuel nextStep.2 with
        | error e =>
          rw [hrest] at h
          cases h
        | ok rest =>
          rw [hrest] at h
          cases h
          intro s hs
          rcases List.mem_cons.1 hs with rfl | hs
          · exact List.mem_of_find?_eq_some hfind
          · exact ih hrest s hs

theorem chainFor_subset {persisted target : String} {chain : List (String × String)}
    (h : chainFor persisted target = .ok chain) : ∀ s ∈ chain, s ∈ migrationChain := by
  unfold chainFor at h
  split at h
  · cases h
    exact fun _ hs => absurd hs List.not_mem_nil
  · split at h
    · split at h
      · cases h
      · split at h
        · cases h
          exact fun _ hs => hs
        · exact walkChain_subset h
    · cases h

theorem keeps_applyAll {chain : List (String × String)}
    (h : ∀ s ∈ chain, Keeps I (applyMigration s.1 s.2)) : Keeps I (applyAll chain) := by
  induction chain with
  | nil => exact keeps_pure
  | cons s rest ih =>
    have hrest := ih fun s' hs' => h s' (List.mem_cons_of_mem _ hs')
    exact (h s List.mem_cons_self).bind fun _ => hrest.bind fun _ => keeps_pure

/-- What the statements keep, the runner keeps. -/
theorem keeps_migrate (hmeta : KeptBy I createMeta) (hset : ∀ v ∈ ["1.1", "1.2", "1.3"], KeptBy I (setVersion v))
    (hsql : ∀ stmt ∈ [addSeq, backfillSeq, addReplyTo, createLiveness, createIndexExpiresAt], KeptBy I stmt) :
    Keeps I (migrate schemaVersion) := by
  have hsteps : ∀ s ∈ migrationChain, Keeps I (applyMigration s.1 s.2) := by
    intro s hs
    simp only [migrationChain, List.mem_cons, List.not_mem_nil, or_false] at hs
    rcases hs with rfl | rfl | rfl
    all_goals
      refine keeps_applyMigration (hset _ (by simp)) ?_
      rintro sql ⟨⟩ stmt hstmt
      refine hsql stmt ?_
      simp only [List.mem_cons, List.not_mem_nil, or_false] at hstmt ⊢
      grind
  have hfrom (v : String) : Keeps I (migrateFrom v schemaVersion) := by
    unfold migrateFrom
    split
    · exact keeps_throw
    · rename_i chain hchain
      have hall := keeps_applyAll fun s hs => hsteps s (chainFor_subset hchain s hs)
      exact hall.bind fun _ => keeps_pure
  have hpersisted : Keeps I getPersistedVersion :=
    (keeps_exec hmeta).bind fun _ => keeps_read.bind fun _ => keeps_pure
  refine hpersisted.bind fun starting => ?_
  split
  · exact keeps_pure
  · split
    · refine keeps_read.bind fun db => ?_
      split
      · exact (keeps_exec (hset _ (by simp [schemaVersion]))).bind fun _ => keeps_pure
      · exact hfrom "1.0"
    · exact hfrom starting

end

theorem keptBy_of_versionRow {stmt : Statement} (h : ∀ d d', stmt d = .ok d' → d'.versionRow = d.versionRow) :
    KeptBy KnownVersion stmt := by
  intro d d' hd hstmt
  unfold KnownVersion
  rw [h d d' hstmt]
  exact hd

theorem keptBy_setVersion : ∀ v ∈ ["1.1", "1.2", "1.3"], KeptBy KnownVersion (setVersion v) := by
  intro v hv d d' _ hstmt
  unfold setVersion at hstmt
  split at hstmt
  · cases hstmt
  · cases hstmt
    intro w hw
    have hvw : w = v := by simpa [versionRow] using hw.symm
    rw [hvw]
    exact List.mem_cons_of_mem _ hv

theorem keptBy_createMeta : KeptBy KnownVersion createMeta := by
  refine keptBy_of_versionRow fun d d' h => ?_
  cases h
  rfl

theorem keptBy_schemaSql : ∀ stmt ∈ schemaSql, KeptBy KnownVersion stmt := by
  intro stmt hstmt
  refine keptBy_of_versionRow fun d d' h => ?_
  simp only [schemaSql, List.mem_cons, List.not_mem_nil, or_false] at hstmt
  rcases hstmt with rfl | rfl | rfl | rfl | rfl | rfl
  all_goals
    cases h
    rfl

theorem keptBy_migrations : ∀ stmt ∈ [addSeq, backfillSeq, addReplyTo], KeptBy KnownVersion stmt := by
  intro stmt hstmt
  refine keptBy_of_versionRow fun d d' h => ?_
  simp only [List.mem_cons, List.not_mem_nil, or_false] at hstmt
  rcases hstmt with rfl | rfl | rfl
  · unfold addSeq at h
    grind [versionRow]
  · unfold backfillSeq at h
    grind [versionRow]
  · unfold addReplyTo at h
    grind [versionRow]

/-- The files that a crash of opening or upgrading leaves behind are files of a store as well. -/
theorem known_durable (f : StoreFile) :
    ∀ d, d ∈ openStore.durable f.db ∨ d ∈ (runMigration true).durable f.db → KnownVersion d := by
  have hmigrate : Keeps KnownVersion (migrate schemaVersion) := by
    refine keeps_migrate keptBy_createMeta keptBy_setVersion fun stmt hstmt => ?_
    simp only [List.mem_cons, List.not_mem_nil, or_false] at hstmt
    rcases hstmt with h | h | h | h | h
    · exact keptBy_migrations stmt (by simp [h])
    · exact keptBy_migrations stmt (by simp [h])
    · exact keptBy_migrations stmt (by simp [h])
    · exact keptBy_schemaSql stmt (by simp [schemaSql, h])
    · exact keptBy_schemaSql stmt (by simp [schemaSql, h])
  have hopen : Keeps KnownVersion openStore :=
    (keeps_script keptBy_schemaSql).bind fun _ => hmigrate
  have hpersisted : Keeps KnownVersion getPersistedVersion :=
    (keeps_exec keptBy_createMeta).bind fun _ => keeps_read.bind fun _ => keeps_pure
  have hrun : Keeps KnownVersion (runMigration true) :=
    hpersisted.bind fun _ => hmigrate.bind fun _ => keeps_pure
  intro d hd
  rcases hd with hd | hd
  · exact hopen.durable f.known d hd
  · exact hrun.durable f.known d hd

/-! ### The two outcomes -/

section
variable {db : FileDb} {t : MessagesTable} {kv : Dict String String}

/-- What the runner makes of `messages` and of the version row depends on these two alone. -/
theorem exists_runs_migrate (t : MessagesTable) (kv : Dict String String)
    (hkv : ∀ v, kv.get? "schema_version" = some v → v ∈ ["1.0", "1.1", "1.2", "1.3"]) :
    ∃ t' kv', ∀ db : FileDb, db.messages = some t → db.soxMeta.getD .empty = kv →
      ∃ r es, Runs (migrate schemaVersion) db r es
        (if chainAhead db then db.migratedTo t' kv'
        else { db with messages := some t', soxMeta := some kv' }) := by
  have hahead {db : FileDb} {row : Option String} (hmeta : db.soxMeta.getD .empty = kv)
      (hv : kv.get? "schema_version" = row) : db.versionRow = row := by
    rw [versionRow, hmeta, hv]
  cases hv : kv.get? "schema_version" with
  | none =>
    by_cases hr : t.replyToColumn = true
    · refine ⟨t, kv.set "schema_version" "1.3", fun db ht hmeta => ?_⟩
      have hnot : chainAhead db = false := by
        rw [chainAhead, hahead hmeta hv]
        simp only [contains_reply_to ht, hr, Bool.not_true]
      rw [hnot, if_neg Bool.false_ne_true, ← ht, ← hmeta]
      exact ⟨_, _, runs_migrate_fresh db ht (hahead hmeta hv) hr⟩
    · rw [Bool.not_eq_true] at hr
      refine ⟨t.migrateSeq.migrateReplyTo, kv.set "schema_version" "1.3", fun db ht hmeta => ?_⟩
      have hwalk : chainAhead db = true := by
        rw [chainAhead, hahead hmeta hv]
        simp only [contains_reply_to ht, hr, Bool.not_false]
      obtain ⟨names, es, h⟩ :=
        exists_runs_from_1_0 { db with soxMeta := some (db.soxMeta.getD .empty) } ht rfl
      rw [hwalk, if_pos rfl, ← hmeta]
      exact ⟨_, _, runs_migrate_untracked ht (hahead hmeta hv) hr h⟩
  | some v =>
    have htracked {db : FileDb} (hmeta : db.soxMeta.getD .empty = kv) (hne : v ≠ schemaVersion) :
        chainAhead db = true := by
      rw [chainAhead, hahead hmeta hv]
      exact decide_eq_true hne
    have hmem := hkv v hv
    simp only [List.mem_cons, List.not_mem_nil, or_false] at hmem
    rcases hmem with rfl | rfl | rfl | rfl
    · refine ⟨t.migrateSeq.migrateReplyTo, kv.set "schema_version" "1.3", fun db ht hmeta => ?_⟩
      obtain ⟨names, es, h⟩ :=
        exists_runs_from_1_0 { db with soxMeta := some (db.soxMeta.getD .empty) } ht rfl
      rw [htracked hmeta (by decide), if_pos rfl, ← hmeta]
      exact ⟨_, _, runs_migrate_tracked (hahead hmeta hv) (by decide) rfl h⟩
    · refine ⟨t.migrateReplyTo, kv.set "schema_version" "1.3", fun db ht hmeta => ?_⟩
      obtain ⟨names, es, h⟩ :=
        exists_runs_from_1_1 { db with soxMeta := some (db.soxMeta.getD .empty) } ht rfl
      rw [htracked hmeta (by decide), if_pos rfl, ← hmeta]
      exact ⟨_, _, runs_migrate_tracked (hahead hmeta hv) (by decide) rfl h⟩
    · refine ⟨t, kv.set "schema_version" "1.3", fun db ht hmeta => ?_⟩
      obtain ⟨names, es, h⟩ :=
        exists_runs_from_1_2 { db with soxMeta := some (db.soxMeta.getD .empty) } ht rfl
      rw [htracked hmeta (by decide), if_pos rfl, ← hmeta]
      exact ⟨_, _, runs_migrate_tracked (hahead hmeta hv) (by decide) rfl h⟩
    · refine ⟨t, kv, fun db ht hmeta => ?_⟩
      have hnot : chainAhead db = false := by
        rw [chainAhead, hahead hmeta hv]
        exact decide_eq_false fun h => h rfl
      rw [hnot, if_neg Bool.false_ne_true, ← ht, ← hmeta]
      exact ⟨_, _, runs_migrate_1_3 (hahead hmeta hv)⟩

/-- What both make of a file: the store makes it complete, the command leaves out what the
migrations do not make. -/
theorem outcomes (f : StoreFile) : ∃ t' kv',
    openStore.outcome f.db = .ok (opened t' (f.db.subscriptions.getD []) (f.db.liveness.getD .empty) (some kv')) ∧
    ∀ t, f.db.messages = some t → (runMigration true).outcome f.db =
      .ok (if chainAhead f.db then f.db.migratedTo t' kv'
        else { f.db with messages := some t', soxMeta := some kv' }) := by
  obtain ⟨db, hknown⟩ := f
  obtain ⟨t', kv', hmigrate⟩ :=
    exists_runs_migrate (db.messages.getD ⟨true, true, []⟩) (db.soxMeta.getD .empty) hknown
  refine ⟨t', kv', ?_, fun t ht => ?_⟩
  · obtain ⟨ds, -, hschema⟩ := runs_schemaSql db
    obtain ⟨r, es, h⟩ := hmigrate (opened (db.messages.getD ⟨true, true, []⟩)
      (db.subscriptions.getD []) (db.liveness.getD .empty) db.soxMeta) rfl rfl
    have hfinal := (runs_openStore hschema h).outcome_eq
    rw [hfinal]
    split
    · rfl
    · rfl
  · obtain ⟨r, es, h⟩ := hmigrate { db with soxMeta := some (db.soxMeta.getD .empty) }
      (by rw [ht, Option.getD_some]) rfl
    obtain ⟨a, ds, hrun⟩ : ∃ a ds, Runs (runMigration true) db a ds _ :=
      ⟨_, _, (runs_getPersistedVersion db).bind (h.bind runs_pure)⟩
    exact hrun.outcome_eq

/-- The command makes no `messages` table. -/
theorem messages_none {d : FileDb} (h : db.messages = none)
    (hd : (runMigration true).outcome db = .ok d) : d.messages = none := by
  have hmeta : KeptBy (fun d => d.messages = none) createMeta := by
    rintro d _ hnone ⟨⟩
    exact hnone
  have hmigrate : Keeps (fun d => d.messages = none) (migrate schemaVersion) := by
    refine keeps_migrate hmeta ?_ ?_
    · intro v _ d d' hnone hstmt
      unfold setVersion at hstmt
      split at hstmt
      · cases hstmt
      · cases hstmt
        exact hnone
    · intro stmt hstmt d d' hnone h
      simp only [List.mem_cons, List.not_mem_nil, or_false] at hstmt
      rcases hstmt with rfl | rfl | rfl | rfl | rfl
      · simp only [addSeq, hnone] at h
        cases h
      · simp only [backfillSeq, hnone] at h
        cases h
      · simp only [addReplyTo, hnone] at h
        cases h
      · cases h
        exact hnone
      · cases h
        exact hnone
  have hpersisted : Keeps (fun d => d.messages = none) getPersistedVersion :=
    (keeps_exec hmeta).bind fun _ => keeps_read.bind fun _ => keeps_pure
  have hrun : Keeps (fun d => d.messages = none) (runMigration true) :=
    hpersisted.bind fun _ => hmigrate.bind fun _ => keeps_pure
  exact hrun.outcome h hd

theorem agrees_iff {d' : FileDb} (hopen : openStore.outcome db = .ok d') :
    Agrees db ↔ (runMigration true).outcome db = .ok d' := by
  constructor
  · rintro ⟨hsucceeds, hsame⟩
    obtain ⟨d, hd⟩ := hsucceeds.2 ⟨d', hopen⟩
    rw [hd, hsame d d' hd hopen]
  · intro hrun
    refine ⟨iff_of_true ⟨d', hrun⟩ ⟨d', hopen⟩, fun d e hd he => ?_⟩
    rw [← Except.ok.inj (hrun.symm.trans hd), ← Except.ok.inj (hopen.symm.trans he)]

end

/-- The command agrees with the store exactly on the files in which it misses nothing that
`schema.sql` would make. -/
theorem upgrade_agrees_iff (f : StoreFile) : Agrees f.db ↔ needsNoSchema f.db = true := by
  obtain ⟨t', kv', hopen, hrun⟩ := outcomes f
  rw [agrees_iff hopen]
  cases ht : f.db.messages with
  | none =>
    have hneeds : needsNoSchema f.db = false := by simp [needsNoSchema, ht]
    rw [hneeds]
    refine iff_of_false (fun h => ?_) Bool.false_ne_true
    have hnone := messages_none ht h
    cases hnone
  | some t =>
    rw [hrun t ht, Except.ok.injEq]
    obtain ⟨⟨messages, ic, is, subs, lv, ie, mt⟩, hknown⟩ := f
    cases ht
    cases hahead : chainAhead ⟨some t, ic, is, subs, lv, ie, mt⟩ with
    | false => cases subs <;> cases lv <;> simp [needsNoSchema, hahead, opened, and_assoc]
    | true => cases subs <;> cases lv <;> simp [needsNoSchema, hahead, opened, migratedTo, and_assoc]

/-- A store killed after the first statement of `schema.sql`: the upgrade takes the table for a
finished file and records 1.3, without the other tables. -/
theorem upgrade_incomplete : ∃ f : StoreFile, f.db ∈ openStore.durable {} ∧ ¬ Agrees f.db ∧
    ∃ d d', (runMigration true).outcome f.db = .ok d ∧ openStore.outcome f.db = .ok d' ∧
      d.versionRow = some "1.3" ∧ d.tables = ["messages", "_sox_meta"] ∧
      d'.tables = ["messages", "subscriptions", "liveness", "_sox_meta"] := by
  let table : MessagesTable := ⟨true, true, []⟩
  let f : StoreFile := ⟨{ messages := some table }, fun v hv => by cases hv⟩
  let version : Dict String String := Dict.empty.set "schema_version" "1.3"
  have hfresh (db : FileDb) (ht : db.messages = some table) (hmeta : db.soxMeta.getD .empty = .empty) :
      ∃ r es, Runs (migrate schemaVersion) db r es { db with soxMeta := some version } := by
    have hrun := runs_migrate_fresh db ht (by rw [hmeta]; rfl) rfl
    rw [hmeta] at hrun
    exact ⟨_, _, hrun⟩
  have hschema : Runs (script schemaSql) {} () (f.db :: _) (opened table [] .empty none) :=
    runs_script_cons rfl (runs_script_cons rfl (runs_script_cons rfl (runs_script_cons rfl
      (runs_script_cons rfl (runs_script_cons rfl runs_script_nil)))))
  have hmem : f.db ∈ openStore.durable {} := by
    obtain ⟨r, es, hmigrate⟩ := hfresh (opened table [] .empty none) rfl rfl
    rw [(runs_openStore hschema hmigrate).durable_eq]
    exact List.mem_cons_of_mem _ List.mem_cons_self
  have hopen : openStore.outcome f.db = .ok (opened table [] .empty (some version)) :=
    outcome_openStore rfl rfl rfl rfl (hfresh (opened table [] .empty none) rfl rfl)
  have hupgrade : (runMigration true).outcome f.db =
      .ok { messages := some table, soxMeta := some version } := by
    obtain ⟨r, es, hmigrate⟩ := hfresh { messages := some table, soxMeta := some .empty } rfl rfl
    obtain ⟨a, ds, hrun⟩ : ∃ a ds, Runs (runMigration true) f.db a ds _ :=
      ⟨_, _, (runs_getPersistedVersion f.db).bind (hmigrate.bind runs_pure)⟩
    exact hrun.outcome_eq
  refine ⟨f, hmem, fun hagrees => ?_, _, _, hupgrade, hopen, rfl, rfl, rfl⟩
  have hsame := congrArg FileDb.subscriptions (hagrees.2 _ _ hupgrade hopen)
  cases hsame

end Migration

end Sox
