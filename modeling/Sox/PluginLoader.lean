import Mathlib.Data.List.Dedup
import Sox.DefaultChain

/-!
# Loading plugins

`load_plugins` of `core/middleware/registry.py` with the manifest checks of `plugin_loader.py`. What
it reads of the outside are the entry points (the parsed `sox-plugin.yaml` of each and what its
`load()` gives and registers), the JSON Schema validator, and the check of a manifest's protocol
version. The first six steps only read (`plan`); the seventh loads the plugins one after the other and
registers each as soon as it is loaded.
-/

namespace Sox

inductive PluginError where
  | notAllowed (pluginId message : String)
  | notFound (pluginId : String)
  | manifestInvalid (pluginId reason path : String)
  | protocolVersionMismatch (pluginId pluginDeclares hostSupports remediation : String)
  | capabilityConflict (pluginId message : String)
  | orderingCycle (cycleMembers : List String)
  | requirementUnmet (pluginId capability : String)
  /-- Any other exception. -/
  | raised (exc : String)
deriving DecidableEq

structure PluginManifest extends Manifest where
  version : String
  kind : String
  protocolVersion : String
  pluginCapabilities : List (List (String × Json)) := []
  requires : List String := []
  signatures : List Json := []
  appliesTo : Json := .null

/-- `manifestFile` is the parsed `sox-plugin.yaml` of its distribution, or the reason why there is
none. `load` imports the plugin and gives its factory or raises; the import may call
`register_middleware.register` on the registry that is being filled, which takes free names only. -/
structure EntryPoint (φ : Type) where
  name : String
  named : name ≠ ""
  manifestFile : Except String Json
  load : Dict String φ → Except String φ × Dict String φ
  grows : ∀ factories, factories.entries <+: (load factories).2.entries

/-- An entry point whose import registers nothing. -/
def EntryPoint.plain {φ : Type} (name : String) (named : name ≠ "") (manifestFile : Except String Json)
    (result : Except String φ) : EntryPoint φ :=
  ⟨name, named, manifestFile, fun factories => (result, factories), fun _ => List.prefix_rfl⟩

structure PluginHost where
  /-- The message and the path of the first violation of `sox-plugin.schema.json`. -/
  schemaError : List (String × Json) → Option (String × String)
  checkProtocolVersion : PluginManifest → String → Except PluginError Unit

structure LoadArgs where
  allowlist : Option (List String) := none
  env : String := "dev"
  hostProtocolVersion : String := "1.0.0"
  noDiscovery : Bool := false

def LoadArgs.isProduction (args : LoadArgs) : Bool := args.env == "production"

structure MiddlewareRegistry (φ : Type) where
  factories : Dict String φ := .empty
  loadedManifests : Dict String PluginManifest := .empty
  resolvedOrder : Option (List String) := none

namespace PluginLoader

variable {φ : Type}

/-! ### One manifest -/

def readManifestForEntryPoint (ep : EntryPoint φ) : Except PluginError (List (String × Json)) :=
  match ep.manifestFile with
  | .error reason => .error (.manifestInvalid ep.name reason "")
  | .ok (.obj doc) => .ok doc
  | .ok _ => .error (.manifestInvalid ep.name "sox-plugin.yaml top-level value must be a YAML mapping" "")

/-- `block[key]` of a string field. -/
def strField (block : List (String × Json)) (key : String) : Except PluginError String :=
  match block.lookup key with
  | some (.str s) => .ok s
  | _ => .error (.raised ("KeyError: " ++ Json.reprStr key))

/-- `block.get(key) or []` -/
def listField (block : List (String × Json)) (key : String) : List Json :=
  match block.lookup key with
  | some (.arr xs) => xs
  | _ => []

def strings (xs : List Json) : List String :=
  xs.filterMap fun
    | .str s => some s
    | _ => none

def objects (xs : List Json) : List (List (String × Json)) :=
  xs.filterMap fun
    | .obj fields => some fields
    | _ => none

/-- The id that a failing manifest is reported under. -/
def reportedId (doc : List (String × Json)) : String :=
  match doc.lookup "metadata" with
  | some (.obj metadata) =>
    match metadata.lookup "id" with
    | some (.str id) => id
    | _ => "<unknown>"
  | _ => "<unknown>"

def validateManifest (host : PluginHost) (doc : List (String × Json)) :
    Except PluginError PluginManifest :=
  match host.schemaError doc with
  | some (reason, path) => .error (.manifestInvalid (reportedId doc) reason path)
  | none =>
    match doc.lookup "spec", doc.lookup "metadata" with
    | some (.obj spec), some (.obj metadata) =>
      match spec.lookup "signatures" with
      | some (.arr signatures) => do
        let id ← strField metadata "id"
        let version ← strField metadata "version"
        let kind ← strField spec "plugin_kind"
        let protocolVersion ← strField spec "protocol_version"
        .ok
          { id, version, kind, protocolVersion
            pluginCapabilities := objects (listField spec "plugin_capabilities")
            requires := strings (listField spec "requires")
            mustRunBefore := strings (listField spec "must_run_before")
            mustRunAfter := strings (listField spec "must_run_after")
            signatures
            appliesTo := (spec.lookup "applies_to").getD .null }
      | _ => .error (.manifestInvalid (reportedId doc)
          "spec.signatures must be present and must be a list (may be empty)" "spec.signatures")
    | _, _ => .error (.raised "KeyError")

def isTrue : Option Json → Bool
  | some (.bool b) => b
  | _ => false

def assertCapabilityOrthogonality (manifest : PluginManifest) : Except PluginError Unit :=
  let observeOnly := manifest.pluginCapabilities.any fun cap => isTrue (cap.lookup "observe_only")
  let mayShortCircuit :=
    manifest.pluginCapabilities.any fun cap => isTrue (cap.lookup "may_short_circuit")
  if observeOnly && mayShortCircuit then
    .error (.capabilityConflict manifest.id
      ("Plugin " ++ Json.reprStr manifest.id ++ " declares both observe_only=true and " ++
        "may_short_circuit=true in plugin_capabilities; these flags are " ++
        "mutually exclusive per 03-plugin-contract.md §2.3"))
  else .ok ()

/-- The checks of one entry point in step 3. -/
def checkEntryPoint (host : PluginHost) (version : String) (ep : EntryPoint φ) :
    Except PluginError PluginManifest := do
  let raw ← readManifestForEntryPoint ep
  let manifest ← validateManifest host raw
  host.checkProtocolVersion manifest version
  assertCapabilityOrthogonality manifest
  .ok manifest

/-! ### The first six steps -/

structure Discovered (φ : Type) where
  manifests : Dict String PluginManifest := .empty
  epMap : Dict String (EntryPoint φ) := .empty

/-- In production an entry point that the allowlist does not name is not looked at. -/
def considered (args : LoadArgs) (ep : EntryPoint φ) : Bool :=
  !args.isProduction || args.allowlist.all (·.contains ep.name)

/-- Step 3. -/
def discover (host : PluginHost) (args : LoadArgs) (eps : List (EntryPoint φ)) :
    Except PluginError (Discovered φ) :=
  eps.foldlM (fun d ep =>
    if considered args ep then do
      let manifest ← checkEntryPoint host args.hostProtocolVersion ep
      .ok ⟨d.manifests.set manifest.id manifest, d.epMap.set manifest.id ep⟩
    else .ok d) {}

/-- An allowlisted id without a manifest; Python takes the first in the order of a set. -/
def missing? (args : LoadArgs) (manifests : Dict String PluginManifest) : Option String :=
  (args.allowlist.getD []).find? fun id => id != "" && (manifests.get? id).isNone

/-- In development every discovered plugin is loaded. -/
def toLoad (args : LoadArgs) (manifests : Dict String PluginManifest) : Dict String PluginManifest :=
  manifests.filter fun id _ => args.allowlist.all (·.contains id) || !args.isProduction

def providedCaps (manifests : List PluginManifest) : List String :=
  manifests.flatMap fun m =>
    (m.pluginCapabilities.flatMap fun cap => cap.map Prod.fst).filter
      (fun k => k != "observe_only" && k != "may_short_circuit") ++ [m.id]

/-- The first requirement, in the order of loading, that nobody provides. -/
def unmet? (loading : Dict String PluginManifest) (order : List String) : Option (String × String) :=
  order.findSome? fun id => (loading.get? id).bind fun m =>
    (m.requires.find? fun req => !(providedCaps loading.values).contains req).map (id, ·)

/-- Step 1: the last entry point of a name counts. -/
def byName (entryPoints : List (EntryPoint φ)) : List (EntryPoint φ) :=
  (Dict.ofList (entryPoints.map fun ep => (ep.name, ep))).values

structure Plan (φ : Type) where
  loading : Dict String PluginManifest
  epMap : Dict String (EntryPoint φ)
  order : List String

def plan (host : PluginHost) (args : LoadArgs) (entryPoints : List (EntryPoint φ)) :
    Except PluginError (Plan φ) :=
  if args.isProduction && (args.allowlist.getD []).isEmpty then
    .error (.notAllowed "*"
      ("SOX_ENV=production requires an explicit --allow-plugins allowlist. " ++
        "Set SOX_ALLOWED_PLUGINS or pass --allow-plugins to enable plugins, " ++
        "or set --no-discovery to disable plugin loading entirely."))
  else do
    let d ← discover host args (byName entryPoints)
    match missing? args d.manifests with
    | some id => .error (.notFound id)
    | none =>
      let loading := toLoad args d.manifests
      match toposortPlugins (loading.values.map (·.toManifest)) with
      | .error cycle => .error (.orderingCycle cycle.cycleMembers)
      | .ok order =>
        match unmet? loading order with
        | some (id, capability) => .error (.requirementUnmet id capability)
        | none => .ok ⟨loading, d.epMap, order⟩

/-! ### The seventh step -/

def register (name : String) (factory : φ) (factories : Dict String φ) :
    Except String (Dict String φ) :=
  if (factories.get? name).isSome then
    .error ("Middleware " ++ Json.reprStr name ++ " is already registered")
  else .ok (factories.set name factory)

/-- The turn of a plugin in the loop: its id, its entry point, and the factories that it finds. -/
structure Load (φ : Type) where
  id : String
  ep : EntryPoint φ
  found : Dict String φ

/-- The factories after the turn. -/
def Load.leaves (l : Load φ) : Dict String φ :=
  match l.ep.load l.found with
  | (.error _, factories) => factories
  | (.ok factory, factories) => if (factories.get? l.id).isSome then factories else factories.set l.id factory

/-- The outcome, the factories and the turns that were taken. -/
structure Loaded (φ : Type) where
  outcome : Except PluginError Unit
  factories : Dict String φ
  loads : List (Load φ)

def Loaded.after (l : Load φ) (r : Loaded φ) : Loaded φ := { r with loads := l :: r.loads }

def registerAll (epMap : Dict String (EntryPoint φ)) : List String → Dict String φ → Loaded φ
  | [], factories => ⟨.ok (), factories, []⟩
  | id :: ids, found =>
    match epMap.get? id with
    | none => ⟨.error (.raised ("KeyError: " ++ Json.reprStr id)), found, []⟩
    | some ep =>
      match ep.load found with
      | (.error exc, factories) => ⟨.error (.raised exc), factories, [⟨id, ep, found⟩]⟩
      | (.ok factory, factories) =>
        if (factories.get? id).isSome then (registerAll epMap ids factories).after ⟨id, ep, found⟩
        else
          match register id factory factories with
          | .error reason => ⟨.error (.manifestInvalid id reason ""), factories, [⟨id, ep, found⟩]⟩
          | .ok factories => (registerAll epMap ids factories).after ⟨id, ep, found⟩

structure LoadResult (φ : Type) where
  outcome : Except PluginError Unit
  registry : MiddlewareRegistry φ
  loads : List (Load φ) := []

def loadPlugins (host : PluginHost) (args : LoadArgs) (entryPoints : List (EntryPoint φ))
    (R : MiddlewareRegistry φ) : LoadResult φ :=
  if args.noDiscovery then ⟨.ok (), { R with resolvedOrder := some [] }, []⟩
  else
    match plan host args entryPoints with
    | .error e => ⟨.error e, R, []⟩
    | .ok p =>
      let l := registerAll p.epMap p.order R.factories
      match l.outcome with
      | .error e => ⟨.error e, { R with factories := l.factories }, l.loads⟩
      | .ok () => ⟨.ok (), ⟨l.factories, p.loading, some p.order⟩, l.loads⟩

theorem except_bind {ε α β : Type} {x : Except ε α} {f : α → Except ε β} {b : β}
    (h : x >>= f = .ok b) : ∃ a, x = .ok a ∧ f a = .ok b := by
  cases x with
  | error e => cases h
  | ok a => exact ⟨a, rfl, h⟩

/-! ### A load that fails -/

/-- Every plugin loads in its turn. -/
def LoadAll (epMap : Dict String (EntryPoint φ)) : List String → Dict String φ → Prop
  | [], _ => True
  | id :: ids, found => ∃ ep factory, epMap.get? id = some ep ∧ (ep.load found).1 = .ok factory ∧
      LoadAll epMap ids (Load.leaves ⟨id, ep, found⟩)

/-- The plugin has a factory, and loads without registering anything. -/
def Idle (epMap : Dict String (EntryPoint φ)) (factories : Dict String φ) (id : String) : Prop :=
  ∃ ep factory, epMap.get? id = some ep ∧ ep.load factories = (.ok factory, factories) ∧
    (factories.get? id).isSome = true

/-- The plugin fails to load, and its import registers nothing. -/
def FailsClean (epMap : Dict String (EntryPoint φ)) (factories : Dict String φ) (id : String) : Prop :=
  ∀ ep, epMap.get? id = some ep → ∃ exc, ep.load factories = (.error exc, factories)

/-- The first plugin that does anything in its turn fails to load, and registers nothing. -/
def FailsFirst (epMap : Dict String (EntryPoint φ)) (order : List String) (factories : Dict String φ) :
    Prop :=
  ∃ front id back, order = front ++ id :: back ∧ (∀ x ∈ front, Idle epMap factories x) ∧
    FailsClean epMap factories id

section
variable {epMap : Dict String (EntryPoint φ)} {id : String} {ids : List String}
  {factories : Dict String φ} {ep : EntryPoint φ} {factory : φ} {l : Load φ}

theorem entries_set_of_new (h : ¬(factories.get? id).isSome = true) :
    (factories.set id factory).entries = factories.entries ++ [(id, factory)] :=
  Dict.entries_set_of_notMem fun hmem => h (Dict.isSome_get?_iff.2 hmem)

/-- A turn only adds factories. -/
theorem Load.leaves_grows (l : Load φ) : l.found.entries <+: l.leaves.entries := by
  have hload := l.ep.grows l.found
  unfold leaves
  generalize l.ep.load l.found = p at hload ⊢
  obtain ⟨result, left⟩ := p
  cases result with
  | error exc => exact hload
  | ok factory =>
    dsimp only at hload ⊢
    split
    · exact hload
    · rename_i hnew
      rw [entries_set_of_new hnew]
      exact hload.trans (List.prefix_append _ _)

theorem get?_of_grows {fs fs' : Dict String φ} (h : fs.entries <+: fs'.entries) {x : String} {f : φ}
    (hx : fs.get? x = some f) : fs'.get? x = some f :=
  Dict.get?_eq_some.2 (h.subset (Dict.get?_eq_some.1 hx))

theorem eq_of_grows {fs fs' : Dict String φ} (h : fs.entries <+: fs'.entries)
    (h' : fs'.entries <+: fs.entries) : fs' = fs :=
  Dict.ext (h'.eq_of_length (le_antisymm h'.length_le h.length_le))

/-- What the loop does with a plugin that loads. -/
theorem registerAll_cons (hep : epMap.get? id = some ep) (hload : (ep.load factories).1 = .ok factory)
    (ids : List String) :
    registerAll epMap (id :: ids) factories =
      (registerAll epMap ids (Load.leaves ⟨id, ep, factories⟩)).after ⟨id, ep, factories⟩ := by
  simp only [registerAll, hep, Load.leaves]
  generalize ep.load factories = p at hload ⊢
  obtain ⟨result, left⟩ := p
  cases hload
  dsimp only
  split
  · rfl
  · rename_i hnew
    rw [register, if_neg hnew]

theorem registerAll_missing (hep : epMap.get? id = none) (ids : List String) (factories : Dict String φ) :
    (registerAll epMap (id :: ids) factories).outcome.isOk = false ∧
      (registerAll epMap (id :: ids) factories).factories = factories ∧
      (registerAll epMap (id :: ids) factories).loads = [] := by
  simp [registerAll, hep, Except.isOk, Except.toBool]

theorem registerAll_fails {exc : String} (hep : epMap.get? id = some ep)
    (hload : (ep.load factories).1 = .error exc) (ids : List String) :
    (registerAll epMap (id :: ids) factories).outcome.isOk = false ∧
      (registerAll epMap (id :: ids) factories).factories = (ep.load factories).2 ∧
      (registerAll epMap (id :: ids) factories).loads = [⟨id, ep, factories⟩] := by
  simp only [registerAll, hep]
  generalize ep.load factories = p at hload ⊢
  obtain ⟨result, left⟩ := p
  cases hload
  simp [Except.isOk, Except.toBool]

theorem registerAll_isOk (ids : List String) (factories : Dict String φ) :
    (registerAll epMap ids factories).outcome.isOk = true ↔ LoadAll epMap ids factories := by
  induction ids generalizing factories with
  | nil => exact iff_of_true rfl trivial
  | cons id ids ih =>
    cases hep : epMap.get? id with
    | none =>
      rw [(registerAll_missing hep ids factories).1]
      refine iff_of_false (by simp) ?_
      rintro ⟨ep, factory, hep', -⟩
      cases hep.symm.trans hep'
    | some ep =>
      cases hload : (ep.load factories).1 with
      | error exc =>
        rw [(registerAll_fails hep hload ids).1]
        refine iff_of_false (by simp) ?_
        rintro ⟨ep', factory, hep', hload', -⟩
        cases hep.symm.trans hep'
        cases hload.symm.trans hload'
      | ok factory =>
        rw [registerAll_cons hep hload, Loaded.after, ih]
        constructor
        · exact fun h => ⟨ep, factory, hep, hload, h⟩
        · rintro ⟨ep', factory', hep', -, h⟩
          cases hep.symm.trans hep'
          exact h

theorem registerAll_grows (ids : List String) (factories : Dict String φ) :
    factories.entries <+: (registerAll epMap ids factories).factories.entries := by
  induction ids generalizing factories with
  | nil => exact List.prefix_rfl
  | cons id ids ih =>
    cases hep : epMap.get? id with
    | none => rw [(registerAll_missing hep ids factories).2.1]
    | some ep =>
      cases hload : (ep.load factories).1 with
      | error exc =>
        rw [(registerAll_fails hep hload ids).2.1]
        exact ep.grows factories
      | ok factory =>
        rw [registerAll_cons hep hload]
        exact (Load.leaves_grows ⟨id, ep, factories⟩).trans (ih _)

theorem not_idle (hep : epMap.get? id = some ep) {exc : String} (hload : (ep.load factories).1 = .error exc) :
    ¬Idle epMap factories id := by
  rintro ⟨ep', factory, hep', hload', -⟩
  cases hep.symm.trans hep'
  rw [hload'] at hload
  cases hload

theorem failsFirst_cons (ids : List String) : FailsFirst epMap (id :: ids) factories ↔
    FailsClean epMap factories id ∨ Idle epMap factories id ∧ FailsFirst epMap ids factories := by
  constructor
  · rintro ⟨front, y, back, hsplit, hfront, hy⟩
    cases front with
    | nil =>
      obtain ⟨rfl, -⟩ := List.cons.inj hsplit
      exact .inl hy
    | cons z front =>
      obtain ⟨rfl, rfl⟩ := List.cons.inj hsplit
      obtain ⟨hz, hfront⟩ := List.forall_mem_cons.1 hfront
      exact .inr ⟨hz, front, y, back, rfl, hfront, hy⟩
  · rintro (hclean | ⟨hidle, front, y, back, rfl, hfront, hy⟩)
    · exact ⟨[], id, ids, rfl, by simp, hclean⟩
    · exact ⟨id :: front, y, back, rfl, List.forall_mem_cons.2 ⟨hidle, hfront⟩, hy⟩

/-- A turn that leaves the factories as they were is idle. -/
theorem idle_of_leaves (hep : epMap.get? id = some ep) (hload : (ep.load factories).1 = .ok factory)
    (h : Load.leaves ⟨id, ep, factories⟩ = factories) : Idle epMap factories id := by
  have hgrows := ep.grows factories
  simp only [Load.leaves] at h
  obtain ⟨left, hpair⟩ : ∃ left, ep.load factories = (.ok factory, left) := ⟨_, Prod.ext hload rfl⟩
  rw [hpair] at h hgrows
  dsimp only at h hgrows
  split at h
  · rename_i hsome
    subst h
    exact ⟨ep, factory, hep, hpair, hsome⟩
  · rename_i hnew
    -- a new factory would have made them longer
    have hlen := congrArg (fun fs : Dict String φ => fs.entries.length) h
    rw [entries_set_of_new hnew, List.length_append, List.length_singleton] at hlen
    have := hgrows.length_le
    omega

theorem leaves_of_idle (h : Idle epMap factories id) (hep : epMap.get? id = some ep) :
    (∃ factory, (ep.load factories).1 = .ok factory) ∧ Load.leaves ⟨id, ep, factories⟩ = factories := by
  obtain ⟨ep', factory, hep', hload, hsome⟩ := h
  cases hep.symm.trans hep'
  refine ⟨⟨factory, by rw [hload]⟩, ?_⟩
  simp only [Load.leaves, hload, hsome, if_true]

theorem registerAll_failsFirst (ids : List String) :
    FailsFirst epMap ids factories ↔ (registerAll epMap ids factories).outcome.isOk = false ∧
      (registerAll epMap ids factories).factories = factories := by
  induction ids with
  | nil =>
    refine iff_of_false ?_ fun h => by cases h.1
    rintro ⟨front, y, back, h, -⟩
    simp at h
  | cons id ids ih =>
    rw [failsFirst_cons]
    cases hep : epMap.get? id with
    | none =>
      obtain ⟨hfails, hsame, -⟩ := registerAll_missing hep ids factories
      refine iff_of_true (.inl fun ep hep' => ?_) ⟨hfails, hsame⟩
      cases hep.symm.trans hep'
    | some ep =>
      cases hload : (ep.load factories).1 with
      | error exc =>
        obtain ⟨hfails, hsame, -⟩ := registerAll_fails hep hload ids
        rw [hfails, hsame, or_iff_left (fun h => not_idle hep hload h.1), and_iff_right rfl]
        constructor
        · intro hclean
          obtain ⟨exc', h⟩ := hclean ep hep
          rw [h]
        · intro hleft ep' hep'
          cases hep.symm.trans hep'
          exact ⟨exc, Prod.ext hload hleft⟩
      | ok factory =>
        have hclean : ¬FailsClean epMap factories id := by
          intro h
          obtain ⟨exc, h⟩ := h ep hep
          rw [h] at hload
          cases hload
        rw [or_iff_right hclean, registerAll_cons hep hload, Loaded.after]
        constructor
        · rintro ⟨hidle, hrest⟩
          rw [(leaves_of_idle hidle hep).2]
          exact ih.1 hrest
        · rintro ⟨hfails, hsame⟩
          -- what the turn has added stays
          have hleaves : Load.leaves ⟨id, ep, factories⟩ = factories := by
            refine eq_of_grows (Load.leaves_grows ⟨id, ep, factories⟩) ?_
            have hrest : (Load.leaves ⟨id, ep, factories⟩).entries <+: (registerAll epMap ids _).factories.entries :=
              registerAll_grows ids _
            rwa [hsame] at hrest
          rw [hleaves] at hfails hsame
          exact ⟨idle_of_leaves hep hload hleaves, ih.2 ⟨hfails, hsame⟩⟩

end

/-- `load_plugins` that raises leaves the registry as it was if and only if, where it gets to load the
plugins, they all load, or the first one that does anything fails and its import registers nothing:
those before it have their factories and register nothing either. -/
theorem loadPlugins_unchanged_iff (host : PluginHost) (args : LoadArgs)
    (entryPoints : List (EntryPoint φ)) (R : MiddlewareRegistry φ) :
    ((loadPlugins host args entryPoints R).outcome.isOk = false →
        (loadPlugins host args entryPoints R).registry = R) ↔
      ∀ p, args.noDiscovery = false → plan host args entryPoints = .ok p →
        LoadAll p.epMap p.order R.factories ∨ FailsFirst p.epMap p.order R.factories := by
  unfold loadPlugins
  cases args.noDiscovery with
  | true => simp [Except.isOk, Except.toBool]
  | false =>
    cases hp : plan host args entryPoints with
    | error e => simp
    | ok p =>
      simp only [Bool.false_eq_true, if_false, forall_const, Except.ok.injEq, forall_eq',
        ← registerAll_isOk, registerAll_failsFirst]
      cases (registerAll p.epMap p.order R.factories).outcome with
      | error e =>
        simp only [Except.isOk, Except.toBool, Bool.false_eq_true, false_or, true_and, forall_const]
        refine ⟨fun h => congrArg MiddlewareRegistry.factories h, fun h => ?_⟩
        show { R with factories := _ } = R
        rw [h]
      | ok u => simp [Except.isOk, Except.toBool]

/-- For manifests that fit the schema and support the host's protocol version. -/
def conformingHost : PluginHost := ⟨fun _ => none, fun _ _ => .ok ()⟩

def noopManifest (id : String) : Json :=
  .obj [("apiVersion", .str "sox.dev/v1"), ("kind", .str "SoxPlugin"),
    ("metadata", .obj [("id", .str id), ("version", .str "1.0.0")]),
    ("spec", .obj [("protocol_version", .str ">=1.0,<2.0"), ("plugin_kind", .str "transformer"),
      ("signatures", .arr [])])]

theorem soxA_named : "io.sox.a" ≠ "" := by decide

theorem soxB_named : "io.sox.b" ≠ "" := by decide

/-- Of two plugins the second cannot be imported. -/
def noopThenBroken : List (EntryPoint String) :=
  [.plain "io.sox.a" soxA_named (.ok (noopManifest "io.sox.a")) (.ok "a"),
    .plain "io.sox.b" soxB_named (.ok (noopManifest "io.sox.b")) (.error "ImportError")]

/-- The import error of the second plugin leaves the first one registered. -/
theorem loadPlugins_half_done :
    ¬∀ (host : PluginHost) (args : LoadArgs) (entryPoints : List (EntryPoint String))
      (R : MiddlewareRegistry String), (loadPlugins host args entryPoints R).outcome.isOk = false →
        (loadPlugins host args entryPoints R).registry = R := by
  intro hall
  have hfails : (loadPlugins conformingHost {} noopThenBroken {}).outcome.isOk = false := by
    decide +kernel
  have hleft : (loadPlugins conformingHost {} noopThenBroken {}).registry.factories.get? "io.sox.a" =
      some "a" := by
    decide +kernel
  rw [hall conformingHost {} noopThenBroken {} hfails] at hleft
  cases hleft

/-! ### What runs in production -/

section
variable {host : PluginHost} {args : LoadArgs} {eps entryPoints : List (EntryPoint φ)}
  {epMap : Dict String (EntryPoint φ)} {ids allowlist : List String} {factories : Dict String φ}

/-- Step 3 looks at the considered entry points in their order and files each under its manifest's id. -/
theorem discover_ok {d : Discovered φ} (h : discover host args eps = .ok d) :
    ∃ pairs : List (PluginManifest × EntryPoint φ),
      pairs.map Prod.snd = eps.filter (considered args) ∧
      (∀ p ∈ pairs, checkEntryPoint host args.hostProtocolVersion p.2 = .ok p.1) ∧
      d.manifests = Dict.ofList (pairs.map fun p => (p.1.id, p.1)) ∧
      d.epMap = Dict.ofList (pairs.map fun p => (p.1.id, p.2)) := by
  induction eps using List.reverseRecOn generalizing d with
  | nil =>
    cases h
    exact ⟨[], rfl, by simp, rfl, rfl⟩
  | append_singleton eps ep ih =>
    rw [discover, List.foldlM_append] at h
    obtain ⟨d₀, hd₀, h⟩ := except_bind h
    obtain ⟨pairs, heps, hcheck, hm, he⟩ := ih hd₀
    simp only [List.foldlM_cons, List.foldlM_nil, bind_pure] at h
    rw [List.filter_append]
    split at h
    · rename_i hc
      obtain ⟨m, hm', h⟩ := except_bind h
      cases h
      refine ⟨pairs ++ [(m, ep)], by simp [heps, hc], fun p hp => ?_, ?_, ?_⟩
      · rcases List.mem_append.1 hp with hp | hp
        · exact hcheck p hp
        · rw [List.mem_singleton.1 hp]
          exact hm'
      · rw [List.map_append, List.map_singleton, Dict.ofList_concat, hm]
      · rw [List.map_append, List.map_singleton, Dict.ofList_concat, he]
    · rename_i hc
      cases h
      exact ⟨pairs, by simp [heps, hc], hcheck, hm, he⟩

theorem toposortPlugins_perm {manifests : List Manifest} {order : List String}
    (hids : (manifests.map (·.id)).Nodup) (h : toposortPlugins manifests = .ok order) :
    order.Perm (manifests.map (·.id)) := by
  unfold toposortPlugins at h
  dsimp only at h
  split at h
  · cases h
  · rename_i hlen
    cases h
    have hnodes : ∀ e ∈ pluginEdges manifests, e.1 ∈ manifests.map (·.id) ∧
        e.2 ∈ manifests.map (·.id) := fun e he => Pipeline.pluginEdges_nodes he
    refine (List.subperm_of_subset (TopoSort.kahn_nodup hids hnodes) fun x hx =>
      TopoSort.kahn_subset hids hnodes hx).perm_of_length_le ?_
    omega

theorem byName_eq (hnames : (entryPoints.map (·.name)).Nodup) : byName entryPoints = entryPoints := by
  rw [byName, Dict.values, Dict.entries_ofList (by simpa [Function.comp_def] using hnames),
    List.map_map]
  exact List.map_id _

theorem plan_ok {p : Plan φ} (h : plan host args entryPoints = .ok p) :
    ∃ d, discover host args (byName entryPoints) = .ok d ∧ missing? args d.manifests = none ∧
      toposortPlugins ((toLoad args d.manifests).values.map (·.toManifest)) = .ok p.order ∧
      p.loading = toLoad args d.manifests ∧ p.epMap = d.epMap := by
  unfold plan at h
  dsimp only at h
  split at h
  · cases h
  obtain ⟨d, hd, h⟩ := except_bind h
  split at h
  · cases h
  rename_i hmissing
  split at h
  · cases h
  rename_i order horder
  split at h
  · cases h
  cases h
  exact ⟨d, hd, hmissing, horder, rfl, rfl⟩

/-- As many ids as names, the names all allowed and the allowed all ids. -/
theorem perm_allowed {names allowed : List String} (hnames : names.Nodup) (hallowed : allowed.Nodup)
    (hnamed : names ⊆ allowed) (hfound : allowed ⊆ ids) (hlen : ids.length = names.length) :
    ids.Perm allowed := by
  have hle := (List.subperm_of_subset hnames hnamed).length_le
  exact ((List.subperm_of_subset hallowed hfound).perm_of_length_le (by omega)).symm

/-- The ids that an allowlist asks for. -/
def wanted (allowlist : List String) : List String := (allowlist.filter (· ≠ "")).dedup

theorem mem_wanted {id : String} : id ∈ wanted allowlist ↔ id ∈ allowlist ∧ id ≠ "" := by
  rw [wanted, List.mem_dedup, List.mem_filter, decide_eq_true_eq]

/-- What a plan for production is made of: the entry points that the allowlist names, whose manifests
have the allowlist's ids, each once. -/
structure Selection (host : PluginHost) (args : LoadArgs) (entryPoints : List (EntryPoint φ))
    (allowlist : List String) (p : Plan φ) (pairs : List (PluginManifest × EntryPoint φ)) : Prop where
  eps : pairs.map Prod.snd = entryPoints.filter fun ep => allowlist.contains ep.name
  checked : ∀ q ∈ pairs, checkEntryPoint host args.hostProtocolVersion q.2 = .ok q.1
  ids : (pairs.map fun q => q.1.id).Perm (wanted allowlist)
  epMap : p.epMap.entries = pairs.map fun q => (q.1.id, q.2)
  order : p.order.Perm (pairs.map fun q => q.1.id)

section
variable {p : Plan φ} {pairs : List (PluginManifest × EntryPoint φ)}
  {q : PluginManifest × EntryPoint φ} {ep : EntryPoint φ}

theorem Selection.ids_nodup (h : Selection host args entryPoints allowlist p pairs) :
    (pairs.map fun q => q.1.id).Nodup := h.ids.nodup_iff.2 (List.nodup_dedup _)

/-- What is filed under an id is the pair with that id. -/
theorem Selection.get?_iff {id : String} (h : Selection host args entryPoints allowlist p pairs) :
    p.epMap.get? id = some ep ↔ ∃ q ∈ pairs, q.1.id = id ∧ q.2 = ep := by
  rw [Dict.get?_eq_some, h.epMap, List.mem_map]
  simp only [Prod.mk.injEq]

theorem Selection.named (h : Selection host args entryPoints allowlist p pairs) (hq : q ∈ pairs) :
    q.2 ∈ entryPoints ∧ q.2.name ∈ allowlist := by
  have hmem : q.2 ∈ pairs.map Prod.snd := List.mem_map_of_mem hq
  rw [h.eps, List.mem_filter] at hmem
  exact ⟨hmem.1, by simpa using hmem.2⟩

theorem Selection.pair_mem (h : Selection host args entryPoints allowlist p pairs)
    (hep : ep ∈ entryPoints) (hname : ep.name ∈ allowlist) {m : PluginManifest}
    (hcheck : checkEntryPoint host args.hostProtocolVersion ep = .ok m) : (m, ep) ∈ pairs := by
  have hmem : ep ∈ pairs.map Prod.snd := by
    rw [h.eps, List.mem_filter]
    exact ⟨hep, by simpa using hname⟩
  obtain ⟨q, hq, rfl⟩ := List.mem_map.1 hmem
  obtain rfl : q.1 = m := Except.ok.inj ((h.checked q hq).symm.trans hcheck)
  exact hq

end

theorem plan_selection {p : Plan φ} (hprod : args.isProduction = true)
    (hallow : args.allowlist = some allowlist) (hnames : (entryPoints.map (·.name)).Nodup)
    (h : plan host args entryPoints = .ok p) :
    ∃ pairs, Selection host args entryPoints allowlist p pairs := by
  obtain ⟨d, hd, hmissing, horder, -, hep⟩ := plan_ok h
  rw [byName_eq hnames] at hd
  obtain ⟨pairs, hpairs, hcheck, hm, he⟩ := discover_ok hd
  have hconsidered : considered (φ := φ) args = fun ep => allowlist.contains ep.name := by
    funext ep
    simp [considered, hprod, hallow]
  rw [hconsidered] at hpairs
  have hids : (pairs.map fun q => q.1.id).Perm (wanted allowlist) := by
    refine perm_allowed (?_ : ((pairs.map Prod.snd).map (·.name)).Nodup) (List.nodup_dedup _) ?_ ?_
      (by simp)
    · rw [hpairs]
      exact hnames.sublist (List.filter_sublist.map _)
    · intro name hname
      obtain ⟨ep, hmem, rfl⟩ := List.mem_map.1 hname
      rw [hpairs, List.mem_filter] at hmem
      exact mem_wanted.2 ⟨by simpa using hmem.2, ep.named⟩
    · intro id hid
      obtain ⟨hin, hne⟩ := mem_wanted.1 hid
      rw [missing?, hallow, Option.getD_some, List.find?_eq_none] at hmissing
      have hsome : d.manifests.get? id ≠ none := by simpa [hne] using hmissing id hin
      have hkey := Dict.isSome_get?_iff.1 (Option.isSome_iff_ne_none.2 hsome)
      rw [hm, Dict.mem_keys_ofList, List.map_map] at hkey
      exact hkey
  have hnodup : (pairs.map fun q => q.1.id).Nodup := hids.nodup_iff.2 (List.nodup_dedup _)
  have hentries : d.manifests.entries = pairs.map fun q => (q.1.id, q.1) := by
    rw [hm]
    exact Dict.entries_ofList (by rw [List.map_map]; exact hnodup)
  have hloading : ((toLoad args d.manifests).values.map (·.toManifest)).map (·.id) =
      pairs.map fun q => q.1.id := by
    have hall : ∀ e ∈ d.manifests.entries,
        (args.allowlist.all (·.contains e.1) || !args.isProduction) = true := by
      intro e hmem
      rw [hentries] at hmem
      obtain ⟨q, hq, rfl⟩ := List.mem_map.1 hmem
      have hid := hids.subset (List.mem_map_of_mem hq : q.1.id ∈ pairs.map fun q => q.1.id)
      simp [hallow, (mem_wanted.1 hid).1]
    have hkept : (toLoad args d.manifests).entries = pairs.map fun q => (q.1.id, q.1) :=
      (List.filter_eq_self.2 hall).trans hentries
    rw [Dict.values, hkept]
    simp [Function.comp_def]
  refine ⟨pairs, hpairs, hcheck, hids, ?_, ?_⟩
  · rw [hep, he]
    exact Dict.entries_ofList (by rw [List.map_map]; exact hnodup)
  · rw [← hloading]
    exact toposortPlugins_perm (hloading ▸ hnodup) horder

/-! ### What is registered -/

/-- The turns of the plugins, each of which loads. -/
def turns (epMap : Dict String (EntryPoint φ)) : List String → Dict String φ → List (Load φ)
  | [], _ => []
  | id :: ids, found =>
    match epMap.get? id with
    | none => []
    | some ep => ⟨id, ep, found⟩ :: turns epMap ids (Load.leaves ⟨id, ep, found⟩)

/-- The turn registers the factory: the import does, or the loop afterwards. -/
def Load.Registers (l : Load φ) (id : String) (factory : φ) : Prop :=
  l.found.get? id = none ∧ l.leaves.get? id = some factory

theorem registerAll_loads (h : LoadAll epMap ids factories) :
    (registerAll epMap ids factories).loads = turns epMap ids factories := by
  induction ids generalizing factories with
  | nil => rfl
  | cons id ids ih =>
    obtain ⟨ep, factory, hep, hload, hrest⟩ := h
    rw [registerAll_cons hep hload, Loaded.after, ih hrest, turns, hep]

theorem get?_of_mem_turns : ∀ l ∈ turns epMap ids factories, epMap.get? l.id = some l.ep := by
  induction ids generalizing factories with
  | nil => simp [turns]
  | cons id ids ih =>
    unfold turns
    cases hep : epMap.get? id with
    | none => simp
    | some ep => exact List.forall_mem_cons.2 ⟨hep, ih⟩

theorem turns_ids (h : LoadAll epMap ids factories) : (turns epMap ids factories).map (·.id) = ids := by
  induction ids generalizing factories with
  | nil => rfl
  | cons id ids ih =>
    obtain ⟨ep, factory, hep, -, hrest⟩ := h
    rw [turns, hep]
    exact congrArg (id :: ·) (ih hrest)

/-- After its turn a plugin has a factory. -/
theorem Load.leaves_isSome {l : Load φ} {factory : φ} (h : (l.ep.load l.found).1 = .ok factory) :
    (l.leaves.get? l.id).isSome = true := by
  unfold leaves
  generalize l.ep.load l.found = p at h ⊢
  obtain ⟨result, left⟩ := p
  cases h
  dsimp only
  split
  · assumption
  · rw [Dict.get?_set_self]
    rfl

/-- A turn registers what its import does, and nothing else but under its id. -/
theorem Load.Registers.imported {l : Load φ} {id : String} {factory : φ} (h : l.Registers id factory)
    (hid : id ≠ l.id) : (l.ep.load l.found).2.get? id = some factory := by
  obtain ⟨-, hleft⟩ := h
  unfold leaves at hleft
  generalize l.ep.load l.found = p at hleft ⊢
  obtain ⟨result, left⟩ := p
  cases result with
  | error exc => exact hleft
  | ok factory' =>
    dsimp only at hleft ⊢
    split at hleft
    · exact hleft
    · rwa [Dict.get?_set_of_ne hid] at hleft

/-- What an import registers is there after the turn. -/
theorem Load.registers_of_imported {l : Load φ} {id : String} {factory : φ} (hnew : l.found.get? id = none)
    (h : (l.ep.load l.found).2.get? id = some factory) : l.Registers id factory := by
  refine ⟨hnew, ?_⟩
  unfold leaves
  generalize l.ep.load l.found = p at h ⊢
  obtain ⟨result, left⟩ := p
  cases result with
  | error exc => exact h
  | ok factory' =>
    dsimp only at h ⊢
    split
    · exact h
    · rename_i hfree
      rw [Dict.get?_set_of_ne, h]
      rintro rfl
      exact hfree (Option.isSome_of_eq_some h)

theorem registerAll_isSome (h : LoadAll epMap ids factories) {x : String} (hx : x ∈ ids) :
    ((registerAll epMap ids factories).factories.get? x).isSome = true := by
  induction ids generalizing factories with
  | nil => cases hx
  | cons id ids ih =>
    obtain ⟨ep, factory, hep, hload, hrest⟩ := h
    rw [registerAll_cons hep hload]
    rcases List.mem_cons.1 hx with rfl | hx
    · obtain ⟨f, hf⟩ := Option.isSome_iff_exists.1 (Load.leaves_isSome (l := ⟨x, ep, factories⟩) hload)
      exact Option.isSome_of_eq_some (get?_of_grows (registerAll_grows ids _) hf)
    · exact ih hrest hx

/-- A factory that was not there before is registered in one of the turns. -/
theorem exists_registers (h : LoadAll epMap ids factories) {x : String} {f : φ} (hnew : factories.get? x = none)
    (hx : (registerAll epMap ids factories).factories.get? x = some f) :
    ∃ l ∈ turns epMap ids factories, l.Registers x f := by
  induction ids generalizing factories with
  | nil =>
    rw [registerAll, hnew] at hx
    cases hx
  | cons id ids ih =>
    obtain ⟨ep, factory, hep, hload, hrest⟩ := h
    rw [registerAll_cons hep hload] at hx
    rw [turns, hep]
    cases hleft : (Load.leaves ⟨id, ep, factories⟩).get? x with
    | none =>
      obtain ⟨l, hl, hreg⟩ := ih hrest hleft hx
      exact ⟨l, List.mem_cons_of_mem _ hl, hreg⟩
    | some f' =>
      have hkept : (registerAll epMap ids (Load.leaves ⟨id, ep, factories⟩)).factories.get? x = some f' :=
        get?_of_grows (registerAll_grows ids _) hleft
      obtain rfl : f' = f := Option.some.inj (hkept.symm.trans hx)
      exact ⟨_, List.mem_cons_self, hnew, hleft⟩

theorem found_grows : ∀ l ∈ turns epMap ids factories, factories.entries <+: l.found.entries := by
  induction ids generalizing factories with
  | nil => simp [turns]
  | cons id ids ih =>
    unfold turns
    cases hep : epMap.get? id with
    | none => simp
    | some ep =>
      refine List.forall_mem_cons.2 ⟨List.prefix_rfl, fun l hl => ?_⟩
      exact (Load.leaves_grows ⟨id, ep, factories⟩).trans (ih l hl)

/-- Only one turn registers a factory under a name, and this one stays. -/
theorem registers_unique (h : LoadAll epMap ids factories) {l l' : Load φ} {x : String} {f f' : φ}
    (hl : l ∈ turns epMap ids factories) (hreg : l.Registers x f) (hl' : l' ∈ turns epMap ids factories)
    (hreg' : l'.Registers x f') :
    l = l' ∧ (registerAll epMap ids factories).factories.get? x = some f := by
  induction ids generalizing factories with
  | nil => cases hl
  | cons id ids ih =>
    obtain ⟨ep, factory, hep, hload, hrest⟩ := h
    rw [turns, hep] at hl hl'
    rw [registerAll_cons hep hload, Loaded.after]
    -- what the first turn registers, a later one finds
    have hlater {m : Load φ} {g g' : φ} (hm : m ∈ turns epMap ids (Load.leaves ⟨id, ep, factories⟩))
        (hfirst : (Load.leaves ⟨id, ep, factories⟩).get? x = some g) (hmreg : m.Registers x g') : False := by
      have hfound := get?_of_grows (found_grows m hm) hfirst
      rw [hmreg.1] at hfound
      cases hfound
    rcases List.mem_cons.1 hl with rfl | hl <;> rcases List.mem_cons.1 hl' with rfl | hl'
    · exact ⟨rfl, get?_of_grows (registerAll_grows ids _) hreg.2⟩
    · exact (hlater hl' hreg.2 hreg').elim
    · exact (hlater hl hreg'.2 hreg).elim
    · exact ih hrest hl hl'

/-- Under each id of the allowlist one plugin is loaded, of an entry point that the allowlist names,
and what is registered comes from the entry point of that name with that manifest. -/
structure ExactlyAllowed (host : PluginHost) (args : LoadArgs) (allowlist : List String)
    (entryPoints : List (EntryPoint φ)) (before : MiddlewareRegistry φ) (r : LoadResult φ) : Prop where
  registered : ∀ id factory, before.factories.get? id = none →
    r.registry.factories.get? id = some factory →
      ∃ l ∈ r.loads, l.ep ∈ entryPoints ∧ l.Registers id factory ∧ l.ep.name = id ∧
        id ∈ allowlist ∧ ∃ m, checkEntryPoint host args.hostProtocolVersion l.ep = .ok m ∧ m.id = id
  once : (r.loads.map (·.id)).Perm (wanted allowlist)
  factory : ∀ id ∈ wanted allowlist, (r.registry.factories.get? id).isSome = true
  loaded : ∀ l ∈ r.loads, l.ep ∈ entryPoints ∧ l.ep.name ∈ allowlist

/-- An entry point that the allowlist names has its manifest's id for its name, if that id had no
factory before. -/
def NamedById (host : PluginHost) (args : LoadArgs) (allowlist : List String)
    (entryPoints : List (EntryPoint φ)) (before : MiddlewareRegistry φ) : Prop :=
  ∀ ep ∈ entryPoints, ep.name ∈ allowlist → ∀ m,
    checkEntryPoint host args.hostProtocolVersion ep = .ok m →
      before.factories.get? m.id = none → ep.name = m.id

/-- No import registers, in its turn, a factory under a name other than that of its entry point, or under
one that is not the id of its manifest. -/
def ImportsOwn (p : Plan φ) (before : MiddlewareRegistry φ) : Prop :=
  ∀ l ∈ turns p.epMap p.order before.factories, ∀ id, l.found.get? id = none →
    ((l.ep.load l.found).2.get? id).isSome = true → id = l.ep.name ∧ id = l.id

theorem loadPlugins_ok {R : MiddlewareRegistry φ} (hdiscovery : args.noDiscovery = false)
    (hok : (loadPlugins host args entryPoints R).outcome.isOk = true) :
    ∃ p, plan host args entryPoints = .ok p ∧
      (registerAll p.epMap p.order R.factories).outcome.isOk = true ∧
      (loadPlugins host args entryPoints R).loads = (registerAll p.epMap p.order R.factories).loads ∧
      (loadPlugins host args entryPoints R).registry =
        ⟨(registerAll p.epMap p.order R.factories).factories, p.loading, some p.order⟩ := by
  unfold loadPlugins at hok ⊢
  rw [hdiscovery] at hok ⊢
  cases hp : plan host args entryPoints with
  | error e => rw [hp] at hok; cases hok
  | ok p =>
    rw [hp] at hok
    refine ⟨p, rfl, ?_⟩
    simp only [Bool.false_eq_true, if_false] at hok ⊢
    cases hout : (registerAll p.epMap p.order R.factories).outcome with
    | error e => rw [hout] at hok; cases hok
    | ok u => exact ⟨rfl, rfl, rfl⟩

section
variable {R : MiddlewareRegistry φ} {r : LoadResult φ} {p : Plan φ} {pairs : List (PluginManifest × EntryPoint φ)}
  (hsel : Selection host args entryPoints allowlist p pairs)
  (hall : LoadAll p.epMap p.order R.factories) (hloads : r.loads = turns p.epMap p.order R.factories)
  (hregistry : r.registry = ⟨(registerAll p.epMap p.order R.factories).factories, p.loading, some p.order⟩)

include hsel

theorem Selection.pair_of_turn {l : Load φ} (hl : l ∈ turns p.epMap p.order R.factories) :
    ∃ q ∈ pairs, q.1.id = l.id ∧ q.2 = l.ep :=
  hsel.get?_iff.1 (get?_of_mem_turns l hl)

include hall hloads hregistry

/-- A turn that registers a factory is that of the entry point with its name. -/
theorem ExactlyAllowed.own (h : ExactlyAllowed host args allowlist entryPoints R r) {l : Load φ}
    (hl : l ∈ turns p.epMap p.order R.factories) {id : String} {factory : φ} (hreg : l.Registers id factory) :
    id = l.ep.name ∧ id = l.id := by
  have hnew : R.factories.get? id = none := by
    by_contra hsome
    obtain ⟨f, hf⟩ := Option.ne_none_iff_exists'.1 hsome
    have hfound := get?_of_grows (found_grows l hl) hf
    rw [hreg.1] at hfound
    cases hfound
  have hfinal := (registers_unique hall hl hreg hl hreg).2
  obtain ⟨l', hl', -, hreg', hname, -, m, hcheck, hid⟩ := h.registered id factory hnew
    (by rw [hregistry]; exact hfinal)
  rw [hloads] at hl'
  obtain rfl := (registers_unique hall hl hreg hl' hreg').1
  obtain ⟨q, hq, hqid, hqep⟩ := hsel.pair_of_turn hl
  have hm := Except.ok.inj ((hsel.checked q hq).symm.trans (hqep ▸ hcheck))
  exact ⟨hname.symm, by rw [← hid, ← hm, hqid]⟩

theorem ExactlyAllowed.namedById (h : ExactlyAllowed host args allowlist entryPoints R r) :
    NamedById host args allowlist entryPoints R := by
  intro ep hep hname m hcheck hnew
  have hq := hsel.pair_mem hep hname hcheck
  have horder : m.id ∈ p.order := hsel.order.mem_iff.2 (List.mem_map_of_mem (f := fun q => q.1.id) hq)
  obtain ⟨factory, hfactory⟩ := Option.isSome_iff_exists.1 (registerAll_isSome hall horder)
  obtain ⟨l, hl, hreg⟩ := exists_registers hall hnew hfactory
  obtain ⟨hlname, hlid⟩ := h.own hsel hall hloads hregistry hl hreg
  obtain ⟨q', hq', hid, hqep⟩ := hsel.pair_of_turn hl
  -- the entry point that was loaded under the id is the one with that id
  obtain rfl : q' = (m, ep) := List.inj_on_of_nodup_map hsel.ids_nodup hq' hq (hid.trans hlid.symm)
  rw [hlname, ← hqep]

theorem exactlyAllowed_of_named (hnamed : NamedById host args allowlist entryPoints R) (himports : ImportsOwn p R) :
    ExactlyAllowed host args allowlist entryPoints R r where
  registered id factory hnew hfactory := by
    rw [hregistry] at hfactory
    obtain ⟨l, hl, hreg⟩ := exists_registers hall hnew hfactory
    obtain ⟨q, hq, hqid, hqep⟩ := hsel.pair_of_turn hl
    obtain ⟨hmem, hallowed⟩ := hsel.named hq
    have hcheck := hsel.checked q hq
    rw [hqep] at hmem hallowed hcheck
    obtain ⟨hname, hid⟩ : l.ep.name = id ∧ q.1.id = id := by
      by_cases hid : id = l.id
      · have hqid : q.1.id = id := hqid.trans hid.symm
        exact ⟨(hnamed l.ep hmem hallowed q.1 hcheck (hqid.symm ▸ hnew)).trans hqid, hqid⟩
      · have h := himports l hl id hreg.1 (Option.isSome_of_eq_some (hreg.imported hid))
        exact absurd h.2 hid
    exact ⟨l, hloads ▸ hl, hmem, hreg, hname, hname ▸ hallowed, q.1, hcheck, hid⟩
  once := by
    rw [hloads, turns_ids hall]
    exact hsel.order.trans hsel.ids
  factory id hid := by
    rw [hregistry]
    exact registerAll_isSome hall ((hsel.order.trans hsel.ids).mem_iff.2 hid)
  loaded l hl := by
    rw [hloads] at hl
    obtain ⟨q, hq, -, hep⟩ := hsel.pair_of_turn hl
    exact hep ▸ hsel.named hq

end

/-- In production with an allowlist, a successful `load_plugins` loads and registers exactly what the
allowlist names if and only if the named entry points have their manifests' ids for their names, and their
imports register nothing under other names. -/
theorem exactlyAllowed_iff {R : MiddlewareRegistry φ} (hprod : args.isProduction = true)
    (hdiscovery : args.noDiscovery = false) (hallow : args.allowlist = some allowlist)
    (hnames : (entryPoints.map (·.name)).Nodup)
    (hok : (loadPlugins host args entryPoints R).outcome.isOk = true) :
    ExactlyAllowed host args allowlist entryPoints R (loadPlugins host args entryPoints R) ↔
      NamedById host args allowlist entryPoints R ∧
        ∀ p, plan host args entryPoints = .ok p → ImportsOwn p R := by
  obtain ⟨p, hplan, hall, hloads, hregistry⟩ := loadPlugins_ok hdiscovery hok
  obtain ⟨pairs, hsel⟩ := plan_selection hprod hallow hnames hplan
  rw [registerAll_isOk] at hall
  rw [registerAll_loads hall] at hloads
  simp only [hplan, Except.ok.injEq, forall_eq']
  constructor
  · intro h
    refine ⟨h.namedById hsel hall hloads hregistry, fun l hl id hfree hsome => ?_⟩
    obtain ⟨factory, hfactory⟩ := Option.isSome_iff_exists.1 hsome
    exact h.own hsel hall hloads hregistry hl (Load.registers_of_imported hfree hfactory)
  · rintro ⟨hnamed, himports⟩
    exact exactlyAllowed_of_named hsel hall hloads hregistry hnamed himports

/-- Imports that register nothing. -/
theorem importsOwn_of_silent {p : Plan φ} {R : MiddlewareRegistry φ} (hprod : args.isProduction = true)
    (hallow : args.allowlist = some allowlist) (hnames : (entryPoints.map (·.name)).Nodup)
    (hplan : plan host args entryPoints = .ok p)
    (hsilent : ∀ ep ∈ entryPoints, ∀ found, (ep.load found).2 = found) : ImportsOwn p R := by
  intro l hl id hfree hsome
  obtain ⟨pairs, hsel⟩ := plan_selection hprod hallow hnames hplan
  obtain ⟨q, hq, -, hqep⟩ := hsel.get?_iff.1 (get?_of_mem_turns l hl)
  rw [hsilent l.ep (hqep ▸ (hsel.named hq).1), hfree] at hsome
  cases hsome

/-- Two entry points of these names; the second argument has the ids of their manifests. -/
def entryPointsOf (idA idB : String) : List (EntryPoint String) :=
  [.plain "io.sox.a" soxA_named (.ok (noopManifest idA)) (.ok "a"),
    .plain "io.sox.b" soxB_named (.ok (noopManifest idB)) (.ok "b")]

def bothAllowed : LoadArgs := { env := "production", allowlist := some ["io.sox.a", "io.sox.b"] }

theorem exactlyAllowed_matching :
    ExactlyAllowed conformingHost bothAllowed ["io.sox.a", "io.sox.b"] (entryPointsOf "io.sox.a" "io.sox.b")
      {} (loadPlugins conformingHost bothAllowed (entryPointsOf "io.sox.a" "io.sox.b") {}) := by
  refine (exactlyAllowed_iff (by decide) rfl rfl (by decide) (by decide +kernel)).2 ⟨?_, fun p hp => ?_⟩
  · intro ep hep _ m hm _
    rcases List.mem_pair.1 hep with rfl | rfl
    · cases hm
      rfl
    · cases hm
      rfl
  · refine importsOwn_of_silent (by decide) rfl (by decide) hp fun ep hep found => ?_
    rcases List.mem_pair.1 hep with rfl | rfl <;> rfl

/-- With the ids of the two manifests exchanged, the factory of each entry point is registered under
the name of the other. -/
theorem exactlyAllowed_exchanged :
    ¬∀ (host : PluginHost) (args : LoadArgs) (allowlist : List String)
      (entryPoints : List (EntryPoint String)) (R : MiddlewareRegistry String), args.isProduction = true →
        args.noDiscovery = false → args.allowlist = some allowlist → allowlist ≠ [] →
        (entryPoints.map (·.name)).Nodup → (loadPlugins host args entryPoints R).outcome.isOk = true →
        ExactlyAllowed host args allowlist entryPoints R (loadPlugins host args entryPoints R) := by
  intro hall
  have hexact := hall conformingHost bothAllowed _ (entryPointsOf "io.sox.b" "io.sox.a") {} (by decide) rfl rfl
    (by decide) (by decide) (by decide +kernel)
  obtain ⟨l, -, hep, ⟨hfree, hleft⟩, hname, -⟩ := hexact.registered "io.sox.a" "b" rfl (by decide +kernel)
  rcases List.mem_pair.1 hep with h | h
  · -- its load gives the factory "a"
    rw [Load.leaves, h] at hleft
    simp only [EntryPoint.plain] at hleft
    split at hleft
    · rw [hfree] at hleft
      cases hleft
    · rw [Dict.get?_set, hfree] at hleft
      split at hleft <;> simp at hleft
  · rw [h] at hname
    exact absurd hname (by decide)

end

end PluginLoader

end Sox
