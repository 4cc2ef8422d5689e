import Sox.AgentPrompts
import Sox.Lib.Edits
import Sox.Tools

/-!
# The Claude Code installer

`install` merges the SOX entries into `.mcp.json` and `.claude/settings.json` and puts the bootstrap
line into the agents' prompts. A JSON file is the object it holds, `none` when it is missing or blank;
it is written when its object does not print as before. All merges are edits in place. What they add
is there afterwards, what was there stays where it was, and a second installation finds nothing to do;
only the line ends of a prompt can be lost (`install_iff`).
-/

namespace Sox

namespace Json

def asDict : Json → Option JsonDict
  | .obj fields => some (.ofList fields)
  | _ => none

def asList : Json → Option (List Json)
  | .arr xs => some xs
  | _ => none

def ofDict (d : JsonDict) : Json := .obj d.entries

mutual
/-- `json.dumps` with sorted keys prints the two alike. -/
def printsAlike : Json → Json → Bool
  | .null, .null => true
  | .bool a, .bool b => a == b
  | .int m, .int n => m == n
  | .float p, .float q => p == q
  | .str s, .str t => s == t
  | .arr xs, .arr ys => allPrintAlike xs ys
  | .obj fs, .obj gs => fs.length == gs.length && fieldsPrintAlike gs fs
  | _, _ => false

def allPrintAlike : List Json → List Json → Bool
  | [], [] => true
  | x :: xs, y :: ys => printsAlike x y && allPrintAlike xs ys
  | _, _ => false

def fieldsPrintAlike (gs : List (String × Json)) : List (String × Json) → Bool
  | [] => true
  | (k, x) :: fs =>
    (match gs.lookup k with
      | some y => printsAlike x y
      | none => false) && fieldsPrintAlike gs fs
end

end Json

namespace ClaudeCode

open Json

/-! ### The installer

`none` stands for the exception at a value that is not of the type the code relies on. -/

def hookEvents : List String := ["PostToolUse", "Stop", "SubagentStop"]

def mcpServerName : String := "sox"

def soxMcpToolNames : List String :=
  ["mcp__sox__channels__send", "mcp__sox__channels__recv", "mcp__sox__channels__subscribe",
    "mcp__sox__channels__unsubscribe", "mcp__sox__channels__ack", "mcp__sox__channels__heartbeat",
    "mcp__sox__channels__list_agents", "mcp__sox__channels__list_channels", "mcp__sox__channels__replay",
    "mcp__sox__channels__collect", "mcp__sox__group__create", "mcp__sox__group__invite",
    "mcp__sox__group__join", "mcp__sox__group__leave", "mcp__sox__group__list_members"]

structure InstallOptions where
  /-- The resolved path. -/
  projectDir : String
  /-- `sys.executable` -/
  executable : String
  agentIdSource : String := "claude_code_agent_name"

/-- `str(dir / relative)` -/
def under (dir relative : String) : String :=
  if dir.endsWith "/" then dir ++ relative else dir ++ "/" ++ relative

def eventToScriptName : String → String
  | "PostToolUse" => "post_tool_use.sh"
  | "Stop" => "stop.sh"
  | "SubagentStop" => "stop.sh"
  | event => event.toLower ++ ".sh"

namespace InstallOptions

variable (P : InstallOptions)

/-- The command of the event's script. -/
def hookPath (event : String) : String :=
    under P.projectDir ("tools/sox-hooks/" ++ eventToScriptName event)

def buildHookEntry (event : String) : JsonDict := pyDict
  [("matcher", .str ""),
    ("hooks", .arr [ofDict (pyDict [("type", .str "command"), ("command", .str (P.hookPath event))])])]

def serverEntry : Json := ofDict (pyDict
  [("type", .str "stdio"), ("command", .str P.executable),
    ("args", .arr [.str "-m", .str "sox_protocol.core.mcp_server"]),
    ("env", ofDict (pyDict
      [("SOX_BACKING_STORE", .str ("sqlite:///" ++ under P.projectDir ".sox/messages.db")),
        ("SOX_AGENT_ID_SOURCE", .str P.agentIdSource)]))])

end InstallOptions

/-- `h.get(key) == text` -/
def isText (key text : String) (h : JsonDict) : Bool :=
  match h.get? key with
  | some (.str s) => s == text
  | _ => false

/-- An old-format entry: the command is the entry's own. -/
def isOldFormat (target : String) (h : JsonDict) : Bool := isText "command" target h

/-- Whether one of the entry's hooks runs the command. -/
def registers (target : String) (h : JsonDict) : Option Bool := do
  let inner ← (h.getD "hooks" (.arr [])).asList
  inner.anyM fun h2 => do
    let h2 ← h2.asDict
    some (isText "command" target h2)

/-- The entries of one event: old-format entries for the script go, and an entry for it comes unless
there is one. -/
def registerHook (target : String) (entry : JsonDict) (raw : Json) : Option Json := do
  let raw ← raw.asList
  let entries ← raw.mapM asDict
  let kept := entries.filter fun h => !isOldFormat target h
  let alreadyRegistered ← kept.anyM (registers target)
  some (.arr ((if alreadyRegistered then kept else kept ++ [entry]).map ofDict))

def onDict (f : JsonDict → Option JsonDict) (j : Json) : Option Json := do
  let d ← j.asDict
  let d ← f d
  some (ofDict d)

def addServer (entry : Json) (servers : JsonDict) : Option JsonDict :=
    some (servers.setdefault mcpServerName entry)

def allowServer (raw : Json) : Option Json := do
  let allowed ← raw.asList
  let found ← allowed.anyM fun e => do
    let e ← e.asDict
    some (isText "serverName" mcpServerName e)
  some (.arr (if found then allowed
    else allowed ++ [ofDict (pyDict [("serverName", .str mcpServerName)])]))

def isStr (text : String) : Json → Bool
  | .str s => s == text
  | _ => false

def allowTool (allow : List Json) (tool : String) : List Json :=
  if allow.any (isStr tool) then allow else allow ++ [.str tool]

/-- Another value than a list is left alone. -/
def allowTools : Json → Option Json
  | .arr allow => some (.arr (soxMcpToolNames.foldl allowTool allow))
  | j => some j

def hookEdits (P : InstallOptions) : List (Edit String Json) := hookEvents.map fun event =>
  ⟨event, .arr [], registerHook (P.hookPath event) (P.buildHookEntry event)⟩

def mcpJsonEdits (P : InstallOptions) : List (Edit String Json) :=
  [⟨"mcpServers", .obj [], onDict (addServer P.serverEntry)⟩]

def permissionEdits : List (Edit String Json) := [⟨"allow", .arr [], allowTools⟩]

def settingsEdits (P : InstallOptions) : List (Edit String Json) :=
  [⟨"hooks", .obj [], onDict (Edit.applyAll (hookEdits P))⟩,
    ⟨"mcpServers", .obj [], onDict (addServer P.serverEntry)⟩,
    ⟨"allowedMcpServers", .arr [], allowServer⟩,
    ⟨"permissions", .obj [], onDict (Edit.applyAll permissionEdits)⟩]

/-- `_update_mcp_json` and `_update_settings`, with the file before and after. -/
def updateFile (edits : List (Edit String Json)) (file : Option JsonDict) :
    Option (Option JsonDict) := do
  let original := file.getD .empty
  let updated ← Edit.applyAll edits original
  some (if (ofDict original).printsAlike (ofDict updated) then file else some updated)

structure Project where
  mcpJson : Option JsonDict := none
  settings : Option JsonDict := none
  /-- The `*.md` files of `.claude/agents`, by their names. -/
  agents : List (String × PromptFile) := []

def install (P : InstallOptions) (p : Project) : Option Project := do
  let mcpJson ← updateFile (mcpJsonEdits P) p.mcpJson
  let settings ← updateFile (settingsEdits P) p.settings
  let agents ← insertBootstrap p.agents
  some { mcpJson, settings, agents }

/-! ### Well-typed files -/

def IsDict (v : Json) : Prop := ∃ d : JsonDict, v = ofDict d

/-- The hooks of the entry, if any, are a list of dictionaries. -/
def IsHookEntry (h : JsonDict) : Prop :=
    ∃ inner : List JsonDict, h.getD "hooks" (.arr []) = .arr (inner.map ofDict)

def IsHookList (v : Json) : Prop := ∃ entries : List JsonDict, v = .arr (entries.map ofDict) ∧
  ∀ h ∈ entries, IsHookEntry h

structure SettingsTyped (settings : JsonDict) : Prop where
  hooks : ∃ d : JsonDict, settings.getD "hooks" (.obj []) = ofDict d ∧
    ∀ event ∈ hookEvents, IsHookList (d.getD event (.arr []))
  mcpServers : IsDict (settings.getD "mcpServers" (.obj []))
  allowed : ∃ ds : List JsonDict, settings.getD "allowedMcpServers" (.arr []) = .arr (ds.map ofDict)
  permissions : ∃ d : JsonDict, settings.getD "permissions" (.obj []) = ofDict d ∧
    ∃ xs, d.getD "allow" (.arr []) = .arr xs

/-! ### What the files hold -/

/-- The dictionary of a value, or an empty one. -/
def dict (j : Json) : JsonDict := j.asDict.getD .empty

/-- The items of a value, or none. -/
def items (j : Json) : List Json := j.asList.getD []

def serversOf (d : JsonDict) : JsonDict := dict (d.getD "mcpServers" (.obj []))

def hooksOf (settings : JsonDict) : JsonDict := dict (settings.getD "hooks" (.obj []))

def entriesIn (hooks : JsonDict) (event : String) : List JsonDict :=
    (items (hooks.getD event (.arr []))).map dict

def entriesOf (settings : JsonDict) : String → List JsonDict := entriesIn (hooksOf settings)

def allowedOf (settings : JsonDict) : List Json := items (settings.getD "allowedMcpServers" (.arr []))

def permissionsOf (settings : JsonDict) : JsonDict := dict (settings.getD "permissions" (.obj []))

def allowOf (settings : JsonDict) : List Json := items ((permissionsOf settings).getD "allow" (.arr []))

/-- The new-format entries for a command. -/
def newFormatCount (target : String) (entries : List JsonDict) : Nat :=
  entries.countP fun h => !isOldFormat target h && (registers target h).getD false

/-- The servers of `d` are there, in their order, and so is the SOX server. -/
structure ServersKept (d d' : JsonDict) : Prop where
  servers : (serversOf d).entries <+: (serversOf d').entries
  sox : mcpServerName ∈ (serversOf d').keys

structure McpJsonKept (d d' : JsonDict) : Prop extends ServersKept d d' where
  keys : d.keys <+: d'.keys
  others : ∀ k ∉ ["mcpServers"], d'.get? k = d.get? k

/-- What is kept of the settings, and what is in them afterwards. -/
structure SettingsKept (P : InstallOptions) (d d' : JsonDict) : Prop extends ServersKept d d' where
  keys : d.keys <+: d'.keys
  others : ∀ k ∉ ["hooks", "mcpServers", "allowedMcpServers", "permissions"], d'.get? k = d.get? k
  hookKeys : (hooksOf d).keys <+: (hooksOf d').keys
  otherHooks : ∀ event ∉ hookEvents, (hooksOf d').get? event = (hooksOf d).get? event
  entries : ∀ event ∈ hookEvents,
    (entriesOf d event).filter (fun h => !isOldFormat (P.hookPath event) h) <+: entriesOf d' event
  registered : ∀ event ∈ hookEvents, newFormatCount (P.hookPath event) (entriesOf d' event) =
    max 1 (newFormatCount (P.hookPath event) (entriesOf d event))
  allowed : allowedOf d <+: allowedOf d'
  allowedSox : ∃ e ∈ allowedOf d', isText "serverName" mcpServerName (dict e) = true
  permissionKeys : (permissionsOf d).keys <+: (permissionsOf d').keys
  otherPermissions : ∀ k ∉ ["allow"], (permissionsOf d').get? k = (permissionsOf d).get? k
  allow : allowOf d <+: allowOf d'
  tools : ∀ tool ∈ soxMcpToolNames, Json.str tool ∈ allowOf d'

/-- The installation is what it is meant to be: a second one changes nothing, the files keep what was in
them and hold what the installer adds, and the prompts keep their text. -/
def Additive (P : InstallOptions) (p : Project) : Prop :=
  ∃ after, install P p = some after ∧
    (∀ P' : InstallOptions, P'.projectDir = P.projectDir → install P' after = some after) ∧
    McpJsonKept (p.mcpJson.getD .empty) (after.mcpJson.getD .empty) ∧
    SettingsKept P (p.settings.getD .empty) (after.settings.getD .empty) ∧
    List.Forall₂ (fun file file' => file'.1 = file.1 ∧ Bootstrapped file.2 file'.2) p.agents after.agents

/-! ### Values that print alike -/

variable {d d' h h' : JsonDict} {j v v' : Json} {xs ys : List Json} {target : String} {entry : JsonDict}
  {entries : List JsonDict} {P P' : InstallOptions}

@[simp] theorem asDict_ofDict (d : JsonDict) : (ofDict d).asDict = some d :=
    congrArg some (Dict.ofList_entries d)

@[simp] theorem dict_ofDict (d : JsonDict) : dict (ofDict d) = d := by simp [dict]

@[simp] theorem items_arr (xs : List Json) : items (.arr xs) = xs := rfl

theorem mapM_asDict (ds : List JsonDict) : (ds.map ofDict).mapM asDict = some ds := by
  induction ds with
  | nil => rfl
  | cons d ds ih =>
    rw [List.map_cons, List.mapM_cons, asDict_ofDict, ih]
    rfl

theorem map_dict_ofDict (ds : List JsonDict) : (ds.map ofDict).map dict = ds := by
  rw [List.map_map]
  exact (List.map_congr_left fun d _ => dict_ofDict d).trans (List.map_id ds)

/-- Lists that print alike are of one length, and each value has an alike one in the other list. -/
theorem allPrintAlike_spec (h : allPrintAlike xs ys = true) :
    xs.length = ys.length ∧ ∀ x ∈ xs, ∃ y ∈ ys, x.printsAlike y = true := by
  induction xs generalizing ys with
  | nil =>
    cases ys with
    | nil => exact ⟨rfl, fun _ hx => absurd hx List.not_mem_nil⟩
    | cons y ys => cases h
  | cons x xs ih =>
    cases ys with
    | nil => cases h
    | cons y ys =>
      rw [allPrintAlike, Bool.and_eq_true] at h
      obtain ⟨hlen, hall⟩ := ih h.2
      refine ⟨by rw [List.length_cons, List.length_cons, hlen], fun z hz => ?_⟩
      rcases List.mem_cons.1 hz with rfl | hz
      · exact ⟨y, List.mem_cons_self, h.1⟩
      · obtain ⟨w, hw, hzw⟩ := hall z hz
        exact ⟨w, List.mem_cons_of_mem _ hw, hzw⟩

theorem lookup_of_fieldsPrintAlike {fs gs : List (String × Json)} {k : String}
    (h : fieldsPrintAlike gs fs = true)
    (hmem : (k, v) ∈ fs) : ∃ v', gs.lookup k = some v' ∧ v.printsAlike v' = true := by
  induction fs with
  | nil => exact absurd hmem List.not_mem_nil
  | cons f fs ih =>
    rw [fieldsPrintAlike, Bool.and_eq_true] at h
    rcases List.mem_cons.1 hmem with rfl | hmem
    · cases hlookup : gs.lookup k with
      | none => simp [hlookup] at h
      | some v' =>
        simp only [hlookup] at h
        exact ⟨v', rfl, h.1⟩
    · exact ih h.2 hmem

/-- Dictionaries that print alike have as many keys, and alike values under them. -/
theorem printsAlike_ofDict (h : (ofDict d).printsAlike (ofDict d') = true) :
    d.keys.length = d'.keys.length ∧
      ∀ k v, d.get? k = some v → ∃ v', d'.get? k = some v' ∧ v.printsAlike v' = true := by
  rw [ofDict, ofDict, printsAlike, Bool.and_eq_true, beq_iff_eq] at h
  refine ⟨by simpa [Dict.keys] using h.1, fun k v hv => ?_⟩
  exact lookup_of_fieldsPrintAlike h.2 (Dict.get?_eq_some.1 hv)

/-- What an edit makes of a value; a change shows in print. -/
structure Settles (change : Json → Option Json) (v v' : Json) : Prop where
  done : change v = some v'
  shows : v.printsAlike v' = true → v' = v

/-- Edits that all settle their values settle the dictionary. -/
theorem applyAll_settles (es : List (Edit String Json)) (hkeys : (es.map Edit.key).Nodup)
    (h : ∀ e ∈ es, ∃ v, Settles e.change (d.getD e.key e.initial) v) :
    ∃ d', Edit.applyAll es d = some d' ∧ Edit.Edited es d d' ∧
      ((ofDict d).printsAlike (ofDict d') = true → d' = d) := by
  obtain ⟨d', hd', hed⟩ := Edit.applyAll_spec hkeys fun e he => (h e he).imp fun v hv => hv.done
  refine ⟨d', hd', hed, fun halike => ?_⟩
  obtain ⟨hlen, halike⟩ := printsAlike_ofDict halike
  refine hed.eq_of_same (hed.keys.eq_of_length hlen).symm fun e he v v' hv hv' => ?_
  obtain ⟨w, hw⟩ := h e he
  rw [Dict.getD, hv, Option.getD_some] at hw
  obtain ⟨u, hu, hvu⟩ := halike e.key v hv
  have hchange := hed.values e he
  rw [Dict.getD, hv, Option.getD_some, hw.done, hv'] at hchange
  rw [hv'] at hu
  cases hu
  cases hchange
  exact hw.shows hvu

/-! ### The single edits -/

theorem onDict_ofDict (f : JsonDict → Option JsonDict) (d : JsonDict) :
    onDict f (ofDict d) = (f d).map ofDict := by
  cases hf : f d <;> simp [onDict, hf]

theorem anyM_eq {α : Type} {p : α → Option Bool} {q : α → Bool} {l : List α}
    (h : ∀ a ∈ l, p a = some (q a)) :
    l.anyM p = some (l.any q) := by
  induction l with
  | nil => rfl
  | cons a l ih =>
    rw [List.anyM, h a List.mem_cons_self, List.any_cons]
    cases hq : q a with
    | true => rfl
    | false => exact ih fun b hb => h b (List.mem_cons_of_mem _ hb)

theorem anyM_asDict (f : JsonDict → Bool) (ds : List JsonDict) :
    ((ds.map ofDict).anyM fun e => do
      let e ← e.asDict
      some (f e)) = some (ds.any f) := by
  rw [anyM_eq (q := fun e => f (dict e)), List.any_map]
  · congr 2
    funext d
    exact congrArg f (dict_ofDict d)
  · intro e he
    obtain ⟨d, -, rfl⟩ := List.mem_map.1 he
    rw [asDict_ofDict, dict_ofDict]
    rfl

theorem addServer_of_mem (h : mcpServerName ∈ d.keys) (entry : Json) : addServer entry d = some d := by
  rw [addServer, Dict.setdefault, if_pos (Dict.isSome_get?_iff.2 h)]

theorem addServer_spec (entry : Json) (d : JsonDict) : ∃ d', addServer entry d = some d' ∧
    d.entries <+: d'.entries ∧ mcpServerName ∈ d'.keys ∧ (d.keys.length = d'.keys.length → d' = d) := by
  by_cases h : mcpServerName ∈ d.keys
  · exact ⟨d, addServer_of_mem h entry, List.prefix_rfl, h, fun _ => rfl⟩
  · have hset : (d.set mcpServerName entry).entries = d.entries ++ [(mcpServerName, entry)] :=
      Dict.upsert_of_notMem h
    refine ⟨d.set mcpServerName entry, ?_, ?_, ?_, ?_⟩
    · rw [addServer, Dict.setdefault, if_neg (mt Dict.isSome_get?_iff.1 h)]
    · rw [hset]
      exact List.prefix_append ..
    · rw [Dict.keys, hset]
      simp
    · intro hlen
      simp [Dict.keys, hset] at hlen

/-- The list of allowed servers after the edit. -/
def withAllowed (ds : List JsonDict) : List JsonDict :=
  if ds.any (isText "serverName" mcpServerName) then ds
  else ds ++ [pyDict [("serverName", .str mcpServerName)]]

theorem allowServer_eq (ds : List JsonDict) :
    allowServer (.arr (ds.map ofDict)) = some (.arr ((withAllowed ds).map ofDict)) := by
  show (((ds.map ofDict).anyM fun e => do
      let e ← e.asDict
      some (isText "serverName" mcpServerName e)) >>= fun found => _) = _
  rw [anyM_asDict, withAllowed]
  show some _ = _
  split <;> simp

theorem any_withAllowed (ds : List JsonDict) :
    (withAllowed ds).any (isText "serverName" mcpServerName) = true := by
  rw [withAllowed]
  split
  · assumption
  · simp [isText, pyDict]

theorem withAllowed_withAllowed (ds : List JsonDict) : withAllowed (withAllowed ds) = withAllowed ds :=
  if_pos (any_withAllowed ds)

theorem withAllowed_extends (ds : List JsonDict) : ds <+: withAllowed ds := by
  rw [withAllowed]
  exact Edit.prefix_ite ..

/-! ### Tools -/

theorem any_isStr {tool : String} : xs.any (isStr tool) = true ↔ Json.str tool ∈ xs := by
  rw [List.any_eq_true]
  constructor
  · rintro ⟨x, hx, htool⟩
    cases x with
    | str s =>
      rw [isStr, beq_iff_eq] at htool
      rwa [htool] at hx
    | _ => cases htool
  · intro hmem
    exact ⟨_, hmem, by simp [isStr]⟩

theorem allowTool_extends (xs : List Json) (tool : String) : xs <+: allowTool xs tool := by
  rw [allowTool]
  exact Edit.prefix_ite ..

theorem mem_allowTool (xs : List Json) (tool : String) : Json.str tool ∈ allowTool xs tool := by
  rw [allowTool]
  split
  · rename_i h
    exact any_isStr.1 h
  · simp

theorem foldl_allowTool (tools : List String) (xs : List Json) :
    xs <+: tools.foldl allowTool xs ∧ ∀ tool ∈ tools, Json.str tool ∈ tools.foldl allowTool xs := by
  induction tools generalizing xs with
  | nil => exact ⟨List.prefix_rfl, fun _ h => absurd h List.not_mem_nil⟩
  | cons tool tools ih =>
    obtain ⟨hextends, hmem⟩ := ih (allowTool xs tool)
    refine ⟨(allowTool_extends xs tool).trans hextends, fun t ht => ?_⟩
    rcases List.mem_cons.1 ht with rfl | ht
    · exact hextends.subset (mem_allowTool xs t)
    · exact hmem t ht

theorem foldl_allowTool_of_mem {tools : List String} (h : ∀ tool ∈ tools, Json.str tool ∈ xs) :
    tools.foldl allowTool xs = xs := by
  induction tools with
  | nil => rfl
  | cons tool tools ih =>
    rw [List.foldl_cons, allowTool, if_pos (any_isStr.2 (h tool List.mem_cons_self))]
    exact ih fun t ht => h t (List.mem_cons_of_mem _ ht)

/-! ### The entries of a hook event -/

def isRegistered (target : String) (h : JsonDict) : Bool := (registers target h).getD false

theorem registers_eq (hh : IsHookEntry h) (target : String) :
    registers target h = some (isRegistered target h) := by
  obtain ⟨inner, hinner⟩ := hh
  have hsome : registers target h = some (inner.any (isText "command" target)) := by
    rw [registers, hinner]
    exact anyM_asDict (isText "command" target) inner
  rw [isRegistered, hsome, Option.getD_some]

def withoutOld (target : String) (entries : List JsonDict) : List JsonDict :=
  entries.filter fun h => !isOldFormat target h

/-- The entries after the edit. -/
def withHook (target : String) (entry : JsonDict) (entries : List JsonDict) : List JsonDict :=
  if (withoutOld target entries).any (isRegistered target) then withoutOld target entries
  else withoutOld target entries ++ [entry]

theorem registerHook_eq (hentries : ∀ h ∈ entries, IsHookEntry h) (target : String) (entry : JsonDict) :
    registerHook target entry (.arr (entries.map ofDict)) =
      some (.arr ((withHook target entry entries).map ofDict)) := by
  have hany : (withoutOld target entries).anyM (registers target) =
      some ((withoutOld target entries).any (isRegistered target)) :=
    anyM_eq fun h hh => registers_eq (hentries h (List.mem_of_mem_filter hh)) target
  show ((entries.map ofDict).mapM asDict >>= fun entries => _) = _
  rw [mapM_asDict]
  show ((withoutOld target entries).anyM (registers target) >>= fun already => _) = _
  rw [hany]
  rfl

/-- An entry for the command in the new format. -/
structure NewFormat (target : String) (entry : JsonDict) : Prop where
  typed : IsHookEntry entry
  notOld : isOldFormat target entry = false
  registered : isRegistered target entry = true

theorem buildHookEntry_newFormat (P : InstallOptions) (event : String) :
    NewFormat (P.hookPath event) (P.buildHookEntry event) := by
  have hhooks : (P.buildHookEntry event).getD "hooks" (.arr []) =
      .arr ([pyDict [("type", .str "command"), ("command", .str (P.hookPath event))]].map ofDict) := by
    simp [InstallOptions.buildHookEntry, pyDict, Dict.getD]
  have htyped : IsHookEntry (P.buildHookEntry event) := ⟨_, hhooks⟩
  refine ⟨htyped, ?_, ?_⟩
  · simp [isOldFormat, isText, InstallOptions.buildHookEntry, pyDict, Dict.get?_set]
  · have hregisters : registers (P.hookPath event) (P.buildHookEntry event) = some true := by
      rw [registers, hhooks]
      refine (anyM_asDict (isText "command" (P.hookPath event)) _).trans ?_
      simp [isText, pyDict]
    rw [isRegistered, hregisters, Option.getD_some]

theorem withHook_extends : withoutOld target entries <+: withHook target entry entries := by
  rw [withHook]
  exact Edit.prefix_ite ..

theorem withoutOld_withHook (hentry : NewFormat target entry) :
    withoutOld target (withHook target entry entries) = withHook target entry entries := by
  refine List.filter_eq_self.2 fun h hh => ?_
  have hkept : ∀ h ∈ withoutOld target entries, (!isOldFormat target h) = true :=
    fun h hh => (List.mem_filter.1 hh).2
  rw [withHook] at hh
  split at hh
  · exact hkept h hh
  · rcases List.mem_append.1 hh with hh | hh
    · exact hkept h hh
    · rw [List.mem_singleton.1 hh, hentry.notOld]
      rfl

theorem any_withHook (hentry : NewFormat target entry) :
    (withHook target entry entries).any (isRegistered target) = true := by
  rw [withHook]
  split
  · assumption
  · rw [List.any_append, List.any_cons, hentry.registered]
    simp

/-- The edit has nothing left to do, whatever entry it would put in. -/
theorem withHook_withHook (hentry : NewFormat target entry) (entry' : JsonDict) :
    withHook target entry' (withHook target entry entries) = withHook target entry entries := by
  rw [withHook, withoutOld_withHook hentry, if_pos (any_withHook hentry)]

theorem isHookEntry_withHook (hentry : NewFormat target entry)
    (hentries : ∀ h ∈ entries, IsHookEntry h) :
    ∀ h ∈ withHook target entry entries, IsHookEntry h := by
  intro h hh
  rw [withHook] at hh
  split at hh
  · exact hentries h (List.mem_of_mem_filter hh)
  · rcases List.mem_append.1 hh with hh | hh
    · exact hentries h (List.mem_of_mem_filter hh)
    · rw [List.mem_singleton.1 hh]
      exact hentry.typed

theorem newFormatCount_eq (target : String) (entries : List JsonDict) :
    newFormatCount target entries = (withoutOld target entries).countP (isRegistered target) := by
  rw [newFormatCount, withoutOld, List.countP_filter]
  exact List.countP_congr fun h _ => by rw [isRegistered, Bool.and_comm]

theorem newFormatCount_withHook (hentry : NewFormat target entry) :
    newFormatCount target (withHook target entry entries) = max 1 (newFormatCount target entries) := by
  rw [newFormatCount_eq, withoutOld_withHook hentry, newFormatCount_eq, withHook]
  split
  · rename_i hany
    have hpos : 0 < (withoutOld target entries).countP (isRegistered target) :=
      List.countP_pos_iff.2 (List.any_eq_true.1 hany)
    omega
  · rename_i hnone
    have hzero : (withoutOld target entries).countP (isRegistered target) = 0 :=
      List.countP_eq_zero.2 fun h hh hreg => hnone (List.any_eq_true.2 ⟨h, hh, hreg⟩)
    rw [List.countP_append, hzero, List.countP_singleton, if_pos hentry.registered]
    rfl

theorem isText_of_printsAlike {key text : String} (halike : (ofDict h).printsAlike (ofDict h') = true)
    (htext : isText key text h = true) : isText key text h' = true := by
  rw [isText] at htext
  split at htext
  · rename_i s hs
    obtain ⟨v', hv', hsv⟩ := (printsAlike_ofDict halike).2 key _ hs
    cases v' with
    | str t =>
      rw [printsAlike, beq_iff_eq] at hsv
      rw [isText, hv', ← hsv]
      exact htext
    | _ => cases hsv
  · cases htext

/-- A change of the entries shows in print. -/
theorem withHook_of_printsAlike (hentry : NewFormat target entry)
    (halike : (Json.arr (entries.map ofDict)).printsAlike
      (.arr ((withHook target entry entries).map ofDict)) = true) :
    withHook target entry entries = entries := by
  rw [printsAlike] at halike
  obtain ⟨hlen, hall⟩ := allPrintAlike_spec halike
  rw [List.length_map, List.length_map] at hlen
  -- an old-format entry would print like one that is left
  have hnone : ∀ h ∈ entries, isOldFormat target h = false := by
    intro h hh
    by_contra hold
    rw [Bool.not_eq_false] at hold
    obtain ⟨y, hy, hhy⟩ := hall _ (List.mem_map_of_mem hh)
    obtain ⟨h', hh', rfl⟩ := List.mem_map.1 hy
    rw [← withoutOld_withHook hentry] at hh'
    have hnot := (List.mem_filter.1 hh').2
    rw [isOldFormat, isText_of_printsAlike hhy hold] at hnot
    cases hnot
  have hkept : withoutOld target entries = entries :=
    List.filter_eq_self.2 fun h hh => by rw [hnone h hh]; rfl
  rw [withHook, hkept] at hlen ⊢
  split
  · rfl
  · rename_i hnot
    rw [if_neg hnot, List.length_append, List.length_singleton] at hlen
    omega

/-! ### The files -/

theorem hookPath_congr (h : P'.projectDir = P.projectDir) (event : String) :
    P'.hookPath event = P.hookPath event := by
  rw [InstallOptions.hookPath, InstallOptions.hookPath, h]

theorem dict_of_get? {k : String} (h : d.get? k = some (ofDict d')) (v : Json) :
    dict (d.getD k v) = d' := by
  rw [Dict.getD, h, Option.getD_some, dict_ofDict]

theorem items_of_get? {k : String} (h : d.get? k = some (.arr xs)) (v : Json) :
    items (d.getD k v) = xs := by
  rw [Dict.getD, h, Option.getD_some, items_arr]

theorem entriesIn_eq {event : String} {entries : List JsonDict}
    (h : d.getD event (.arr []) = .arr (entries.map ofDict)) :
    entriesIn d event = entries := by
  rw [entriesIn, h]
  exact map_dict_ofDict entries

theorem mem_hookEdits {e : Edit String Json} : e ∈ hookEdits P ↔
    ∃ event ∈ hookEvents,
      e = ⟨event, .arr [], registerHook (P.hookPath event) (P.buildHookEntry event)⟩ := by
  simp only [hookEdits, List.mem_map, eq_comm]

theorem isHookList_nil : IsHookList (.arr []) := ⟨[], rfl, fun _ h => absurd h List.not_mem_nil⟩

theorem hookEdits_keys (P : InstallOptions) : (hookEdits P).map Edit.key = hookEvents := rfl

/-- The hooks after the edits. -/
structure HooksKept (P : InstallOptions) (d d' : JsonDict) : Prop where
  keys : d.keys <+: d'.keys
  others : ∀ event ∉ hookEvents, d'.get? event = d.get? event
  entries : ∀ event ∈ hookEvents, ∃ entries : List JsonDict,
    d.getD event (.arr []) = .arr (entries.map ofDict) ∧
    (∀ h ∈ entries, IsHookEntry h) ∧
    d'.get? event =
      some (.arr ((withHook (P.hookPath event) (P.buildHookEntry event) entries).map ofDict))

theorem hooks_kept (P : InstallOptions)
    (hd : ∀ event ∈ hookEvents, IsHookList (d.getD event (.arr []))) :
    ∃ d', HooksKept P d d' ∧ Settles (onDict (Edit.applyAll (hookEdits P))) (ofDict d) (ofDict d') := by
  have hsettles (event : String) (entries : List JsonDict) (hentries : ∀ h ∈ entries, IsHookEntry h) :
      Settles (registerHook (P.hookPath event) (P.buildHookEntry event)) (.arr (entries.map ofDict))
        (.arr ((withHook (P.hookPath event) (P.buildHookEntry event) entries).map ofDict)) :=
    ⟨registerHook_eq hentries _ _, fun halike => by
      rw [withHook_of_printsAlike (buildHookEntry_newFormat P event) halike]⟩
  obtain ⟨d', hd', hed, hshows⟩ :=
    applyAll_settles (d := d) (hookEdits P) (by rw [hookEdits_keys]; decide)
    fun e he => by
      obtain ⟨event, hevent, rfl⟩ := mem_hookEdits.1 he
      obtain ⟨entries, hv, hentries⟩ := hd event hevent
      have hevent := hsettles event entries hentries
      rw [← hv] at hevent
      exact ⟨_, hevent⟩
  refine ⟨d', ⟨hed.keys, fun event hevent => hed.others event hevent, fun event hevent => ?_⟩, ?_,
    fun halike => ?_⟩
  · obtain ⟨entries, hv, hentries⟩ := hd event hevent
    refine ⟨entries, hv, hentries, (hed.values _ (mem_hookEdits.2 ⟨event, hevent, rfl⟩)).trans ?_⟩
    exact (congrArg _ hv).trans (registerHook_eq hentries _ _)
  · rw [onDict_ofDict, hd']
    rfl
  · rw [hshows halike]

theorem HooksKept.fixed (hkept : HooksKept P d d') (hdir : P'.projectDir = P.projectDir) :
    Edit.applyAll (hookEdits P') d' = some d' := by
  refine Edit.applyAll_fixed fun e he => ?_
  obtain ⟨event, hevent, rfl⟩ := mem_hookEdits.1 he
  obtain ⟨entries, -, hentries, hget⟩ := hkept.entries event hevent
  have hnew := buildHookEntry_newFormat P event
  refine ⟨_, hget, ?_⟩
  show registerHook (P'.hookPath event) _ _ = _
  rw [hookPath_congr hdir, registerHook_eq (isHookEntry_withHook hnew hentries), withHook_withHook hnew]

theorem HooksKept.entriesIn (hkept : HooksKept P d d') {event : String} (hevent : event ∈ hookEvents) :
    entriesIn d' event = withHook (P.hookPath event) (P.buildHookEntry event) (entriesIn d event) := by
  obtain ⟨entries, hv, -, hget⟩ := hkept.entries event hevent
  rw [entriesIn_eq hv]
  exact entriesIn_eq (by rw [Dict.getD, hget, Option.getD_some])

/-- The permissions after the edit. -/
structure PermissionsKept (d d' : JsonDict) : Prop where
  keys : d.keys <+: d'.keys
  others : ∀ k ∉ ["allow"], d'.get? k = d.get? k
  allow : ∃ xs, d.getD "allow" (.arr []) = .arr xs ∧
    d'.get? "allow" = some (.arr (soxMcpToolNames.foldl allowTool xs))

theorem permissions_kept (hxs : d.getD "allow" (.arr []) = .arr xs) :
    ∃ d', PermissionsKept d d' ∧
      Settles (onDict (Edit.applyAll permissionEdits)) (ofDict d) (ofDict d') := by
  obtain ⟨d', hd', hed, hshows⟩ := applyAll_settles permissionEdits (by decide) fun e he => by
    rw [List.mem_singleton.1 he]
    refine ⟨_, congrArg allowTools hxs, fun halike => ?_⟩
    dsimp only at halike ⊢
    rw [hxs, printsAlike] at halike
    rw [hxs, ← (foldl_allowTool soxMcpToolNames xs).1.eq_of_length (allPrintAlike_spec halike).1]
  refine ⟨d', ⟨hed.keys, fun k hk => hed.others k hk, xs, hxs, ?_⟩, ?_, fun halike => ?_⟩
  · exact (hed.values _ List.mem_cons_self).trans (congrArg allowTools hxs)
  · rw [onDict_ofDict, hd']
    rfl
  · rw [hshows halike]

theorem PermissionsKept.fixed (hkept : PermissionsKept d d') :
    Edit.applyAll permissionEdits d' = some d' := by
  refine Edit.applyAll_fixed fun e he => ?_
  obtain ⟨xs, -, hget⟩ := hkept.allow
  rw [List.mem_singleton.1 he]
  refine ⟨_, hget, ?_⟩
  show some (Json.arr _) = _
  rw [foldl_allowTool_of_mem (foldl_allowTool soxMcpToolNames xs).2]

/-- The servers after the edit. -/
theorem servers_kept (entry : Json) (d : JsonDict) :
    ∃ d', d.entries <+: d'.entries ∧ mcpServerName ∈ d'.keys ∧
    Settles (onDict (addServer entry)) (ofDict d) (ofDict d') := by
  obtain ⟨d', hadd, hextends, hsox, hsame⟩ := addServer_spec entry d
  refine ⟨d', hextends, hsox, ?_, fun halike => ?_⟩
  · rw [onDict_ofDict, hadd]
    rfl
  · rw [hsame (printsAlike_ofDict halike).1]

theorem servers_fixed (h : mcpServerName ∈ d.keys) (entry : Json) :
    onDict (addServer entry) (ofDict d) = some (ofDict d) := by
  rw [onDict_ofDict, addServer_of_mem h]
  rfl

theorem serversKept_of {servers servers' : JsonDict}
    (hv : d.getD "mcpServers" (.obj []) = ofDict servers)
    (hget : d'.get? "mcpServers" = some (ofDict servers'))
    (hextends : servers.entries <+: servers'.entries)
    (hsox : mcpServerName ∈ servers'.keys) : ServersKept d d' := by
  have hservers : serversOf d = servers := by rw [serversOf, hv, dict_ofDict]
  have hservers' : serversOf d' = servers' := dict_of_get? hget _
  refine ⟨?_, ?_⟩
  · rw [hservers, hservers']
    exact hextends
  · rw [hservers']
    exact hsox

/-- `.mcp.json` -/
theorem mcpJson_spec (P : InstallOptions) (hd : IsDict (d.getD "mcpServers" (.obj []))) :
    ∃ d', Edit.applyAll (mcpJsonEdits P) d = some d' ∧
      (∀ P', Edit.applyAll (mcpJsonEdits P') d' = some d') ∧
      ((ofDict d).printsAlike (ofDict d') = true → d' = d) ∧ McpJsonKept d d' := by
  obtain ⟨servers, hv⟩ := hd
  obtain ⟨servers', hextends, hsox, hsettles⟩ := servers_kept P.serverEntry servers
  rw [← hv] at hsettles
  obtain ⟨d', hd', hed, hshows⟩ :=
    applyAll_settles (mcpJsonEdits P) (List.nodup_singleton _) fun e he => by
    rw [List.mem_singleton.1 he]
    exact ⟨_, hsettles⟩
  have hget : d'.get? "mcpServers" = some (ofDict servers') :=
    (hed.values _ List.mem_cons_self).trans hsettles.done
  refine ⟨d', hd', fun P' => Edit.applyAll_fixed fun e he => ?_, hshows, ?_⟩
  · rw [List.mem_singleton.1 he]
    exact ⟨_, hget, servers_fixed hsox P'.serverEntry⟩
  · exact ⟨serversKept_of hv hget hextends hsox, hed.keys, hed.others⟩

/-- The settings after the edits, value by value. -/
structure SettingsMerged (P : InstallOptions) (d d' : JsonDict) : Prop where
  keys : d.keys <+: d'.keys
  others : ∀ k ∉ ["hooks", "mcpServers", "allowedMcpServers", "permissions"], d'.get? k = d.get? k
  hooks : ∃ hooks hooks', d.getD "hooks" (.obj []) = ofDict hooks ∧
    d'.get? "hooks" = some (ofDict hooks') ∧
    HooksKept P hooks hooks'
  servers : ∃ servers servers', d.getD "mcpServers" (.obj []) = ofDict servers ∧
    d'.get? "mcpServers" = some (ofDict servers') ∧ servers.entries <+: servers'.entries ∧
      mcpServerName ∈ servers'.keys
  allowed : ∃ ds : List JsonDict, d.getD "allowedMcpServers" (.arr []) = .arr (ds.map ofDict) ∧
    d'.get? "allowedMcpServers" = some (.arr ((withAllowed ds).map ofDict))
  permissions : ∃ permissions permissions', d.getD "permissions" (.obj []) = ofDict permissions ∧
    d'.get? "permissions" = some (ofDict permissions') ∧ PermissionsKept permissions permissions'

theorem settings_merged (P : InstallOptions) (hd : SettingsTyped d) :
    ∃ d', Edit.applyAll (settingsEdits P) d = some d' ∧ SettingsMerged P d d' ∧
      ((ofDict d).printsAlike (ofDict d') = true → d' = d) := by
  obtain ⟨hooks, hvh, htyped⟩ := hd.hooks
  obtain ⟨servers, hvs⟩ := hd.mcpServers
  obtain ⟨allowed, hva⟩ := hd.allowed
  obtain ⟨permissions, hvp, xs, hxs⟩ := hd.permissions
  obtain ⟨hooks', hkeptH, hsettlesH⟩ := hooks_kept P htyped
  obtain ⟨servers', hextends, hsox, hsettlesS⟩ := servers_kept P.serverEntry servers
  obtain ⟨permissions', hkeptP, hsettlesP⟩ := permissions_kept hxs
  have hsettlesA : Settles allowServer (.arr (allowed.map ofDict))
      (.arr ((withAllowed allowed).map ofDict)) := by
    refine ⟨allowServer_eq allowed, fun halike => ?_⟩
    rw [printsAlike] at halike
    have hlen := (allPrintAlike_spec halike).1
    rw [List.length_map, List.length_map] at hlen
    rw [← (withAllowed_extends allowed).eq_of_length hlen]
  rw [← hvh] at hsettlesH
  rw [← hvs] at hsettlesS
  rw [← hva] at hsettlesA
  rw [← hvp] at hsettlesP
  have hkeys : ((settingsEdits P).map Edit.key).Nodup := by
    show ["hooks", "mcpServers", "allowedMcpServers", "permissions"].Nodup
    decide
  obtain ⟨d', hd', hed, hshows⟩ := applyAll_settles (d := d) (settingsEdits P) hkeys fun e he => by
    simp only [settingsEdits, List.mem_cons, List.not_mem_nil, or_false] at he
    rcases he with rfl | rfl | rfl | rfl
    exacts [⟨_, hsettlesH⟩, ⟨_, hsettlesS⟩, ⟨_, hsettlesA⟩, ⟨_, hsettlesP⟩]
  have hvalues := hed.values
  simp only [settingsEdits, List.forall_mem_cons] at hvalues
  obtain ⟨hgetH, hgetS, hgetA, hgetP, -⟩ := hvalues
  exact ⟨d', hd',
    { keys := hed.keys
      others := hed.others
      hooks := ⟨hooks, hooks', hvh, hgetH.trans hsettlesH.done, hkeptH⟩
      servers := ⟨servers, servers', hvs, hgetS.trans hsettlesS.done, hextends, hsox⟩
      allowed := ⟨allowed, hva, hgetA.trans hsettlesA.done⟩
      permissions := ⟨permissions, permissions', hvp, hgetP.trans hsettlesP.done, hkeptP⟩ }, hshows⟩

theorem SettingsMerged.fixed (h : SettingsMerged P d d') (hdir : P'.projectDir = P.projectDir) :
    Edit.applyAll (settingsEdits P') d' = some d' := by
  obtain ⟨hooks, hooks', -, hgetH, hkeptH⟩ := h.hooks
  obtain ⟨servers, servers', -, hgetS, -, hsox⟩ := h.servers
  obtain ⟨ds, -, hgetA⟩ := h.allowed
  obtain ⟨permissions, permissions', -, hgetP, hkeptP⟩ := h.permissions
  refine Edit.applyAll_fixed fun e he => ?_
  simp only [settingsEdits, List.mem_cons, List.not_mem_nil, or_false] at he
  rcases he with rfl | rfl | rfl | rfl
  · refine ⟨_, hgetH, ?_⟩
    show onDict _ _ = _
    rw [onDict_ofDict, hkeptH.fixed hdir]
    rfl
  · exact ⟨_, hgetS, servers_fixed hsox P'.serverEntry⟩
  · refine ⟨_, hgetA, ?_⟩
    show allowServer _ = _
    rw [allowServer_eq, withAllowed_withAllowed]
  · refine ⟨_, hgetP, ?_⟩
    show onDict _ _ = _
    rw [onDict_ofDict, hkeptP.fixed]
    rfl

theorem SettingsMerged.kept (h : SettingsMerged P d d') : SettingsKept P d d' := by
  obtain ⟨hooks, hooks', hvh, hgetH, hkeptH⟩ := h.hooks
  obtain ⟨servers, servers', hvs, hgetS, hextends, hsox⟩ := h.servers
  obtain ⟨ds, hva, hgetA⟩ := h.allowed
  obtain ⟨permissions, permissions', hvp, hgetP, hkeptP⟩ := h.permissions
  obtain ⟨xs, hxs, hgetX⟩ := hkeptP.allow
  have hH : hooksOf d = hooks := by rw [hooksOf, hvh, dict_ofDict]
  have hH' : hooksOf d' = hooks' := dict_of_get? hgetH _
  have hA : allowedOf d = ds.map ofDict := by rw [allowedOf, hva, items_arr]
  have hA' : allowedOf d' = (withAllowed ds).map ofDict := items_of_get? hgetA _
  have hP : permissionsOf d = permissions := by rw [permissionsOf, hvp, dict_ofDict]
  have hP' : permissionsOf d' = permissions' := dict_of_get? hgetP _
  have hX : allowOf d = xs := by rw [allowOf, hP, hxs, items_arr]
  have hX' : allowOf d' = soxMcpToolNames.foldl allowTool xs := by
    rw [allowOf, hP']
    exact items_of_get? hgetX _
  have htools := foldl_allowTool soxMcpToolNames xs
  exact
    { toServersKept := serversKept_of hvs hgetS hextends hsox
      keys := h.keys
      others := h.others
      hookKeys := by rw [hH, hH']; exact hkeptH.keys
      otherHooks := by rw [hH, hH']; exact hkeptH.others
      entries := fun event hevent => by
        rw [entriesOf, entriesOf, hH, hH', hkeptH.entriesIn hevent]
        exact withHook_extends
      registered := fun event hevent => by
        rw [entriesOf, entriesOf, hH, hH', hkeptH.entriesIn hevent]
        exact newFormatCount_withHook (buildHookEntry_newFormat P event)
      allowed := by rw [hA, hA']; exact (withAllowed_extends ds).map ofDict
      allowedSox := by
        obtain ⟨e, he, hsox⟩ := List.any_eq_true.1 (any_withAllowed ds)
        exact ⟨ofDict e, hA' ▸ List.mem_map_of_mem he, by rw [dict_ofDict]; exact hsox⟩
      permissionKeys := by rw [hP, hP']; exact hkeptP.keys
      otherPermissions := by rw [hP, hP']; exact hkeptP.others
      allow := by rw [hX, hX']; exact htools.1
      tools := by rw [hX']; exact htools.2 }

theorem updateFile_spec {edits : List (Edit String Json)} {file : Option JsonDict} {d' : JsonDict}
    (happly : Edit.applyAll edits (file.getD .empty) = some d')
    (hshows : (ofDict (file.getD .empty)).printsAlike (ofDict d') = true → d' = file.getD .empty) :
    ∃ file', updateFile edits file = some file' ∧ file'.getD .empty = d' := by
  have hupdate : updateFile edits file =
      some (if (ofDict (file.getD .empty)).printsAlike (ofDict d') then file else some d') := by
    rw [updateFile, happly]
    rfl
  refine ⟨_, hupdate, ?_⟩
  split
  · rename_i halike
    exact (hshows halike).symm
  · rfl

/-- A file on which the edits do nothing is not written. -/
theorem updateFile_fixed {edits : List (Edit String Json)} {file : Option JsonDict}
    (h : Edit.applyAll edits (file.getD .empty) = some (file.getD .empty)) :
    updateFile edits file = some file := by
  rw [updateFile, h]
  cases file with
  | none => rfl
  | some d =>
    show some (if _ then some d else some d) = _
    rw [ite_self]

theorem Additive.agents {p : Project} (h : Additive P p) : ∀ file ∈ p.agents, Appendable file.2 := by
  obtain ⟨after, hinstall, -, -, -, hagents⟩ := h
  simp only [install, Option.bind_eq_bind, Option.bind_eq_some_iff, Option.some.injEq] at hinstall
  obtain ⟨mcpJson, -, settings, -, agents, hinsert, rfl⟩ := hinstall
  exact (insertBootstrap_iff p.agents).1 ⟨agents, hinsert, hagents⟩

/-- For well-typed files the installation is idempotent and additive, exactly when every prompt is in UTF-8
and none that gets the line has other line ends than newlines. -/
theorem install_iff (P : InstallOptions) (p : Project)
    (hmcp : IsDict ((p.mcpJson.getD .empty).getD "mcpServers" (.obj [])))
    (hsettings : SettingsTyped (p.settings.getD .empty)) :
    Additive P p ↔ ∀ file ∈ p.agents, Appendable file.2 := by
  obtain ⟨mcp, happlyM, hfixedM, hshowsM, hkeptM⟩ := mcpJson_spec P hmcp
  obtain ⟨settings, happlyS, hmerged, hshowsS⟩ := settings_merged P hsettings
  obtain ⟨mcpFile, hmcpFile, rfl⟩ := updateFile_spec happlyM hshowsM
  obtain ⟨settingsFile, hsettingsFile, rfl⟩ := updateFile_spec happlyS hshowsS
  refine ⟨Additive.agents, fun hagents => ?_⟩
  obtain ⟨agents, hinsert, hfiles⟩ := (insertBootstrap_iff p.agents).2 hagents
  have hinstall : install P p = some ⟨mcpFile, settingsFile, agents⟩ := by
    rw [install, hmcpFile, hsettingsFile, hinsert]
    rfl
  refine ⟨_, hinstall, fun P' hdir => ?_, hkeptM, hmerged.kept, hfiles⟩
  rw [install, updateFile_fixed (hfixedM P'), updateFile_fixed (hmerged.fixed hdir),
    insertBootstrap_insertBootstrap hinsert]
  rfl

/-- An old entry for the script of two events, a theme, and a prompt. -/
theorem install_iff_worker : Additive ⟨"/p", "python3", "claude_code_agent_name"⟩
    ⟨none, some (pyDict [("theme", .str "dark"), ("hooks", ofDict (pyDict [("Stop", .arr ([pyDict
      [("type", .str "command"), ("command", .str "/p/tools/sox-hooks/stop.sh")]].map ofDict))]))]),
      [("worker.md", .utf8 "# Worker\n".toList)]⟩ := by
  refine (install_iff _ _ ⟨.empty, rfl⟩ ⟨⟨_, rfl, ?_⟩, ⟨.empty, rfl⟩, ⟨[], rfl⟩,
    ⟨.empty, rfl, [], rfl⟩⟩).2 ?_
  · simp only [hookEvents, List.forall_mem_cons]
    refine ⟨isHookList_nil, ⟨_, rfl, fun h hh => ?_⟩, isHookList_nil,
      fun _ h => absurd h List.not_mem_nil⟩
    rw [List.mem_singleton.1 hh]
    exact ⟨[], rfl⟩
  · intro file hfile
    rw [List.mem_singleton.1 hfile]
    exact ⟨_, rfl, .inr (by decide)⟩

/-- A prompt in two lines that end as on Windows. -/
theorem crlf_prompt_rewritten : ¬∀ (P : InstallOptions) (p : Project),
    IsDict ((p.mcpJson.getD .empty).getD "mcpServers" (.obj [])) →
      SettingsTyped (p.settings.getD .empty) →
    Additive P p := by
  intro hall
  have hadditive :=
    hall ⟨"/p", "python3", "claude_code_agent_name"⟩ ⟨none, none, [("worker.md", .utf8 "a\r\nb".toList)]⟩
    ⟨.empty, rfl⟩
    ⟨⟨.empty, rfl, fun _ _ => isHookList_nil⟩, ⟨.empty, rfl⟩, ⟨[], rfl⟩, ⟨.empty, rfl, [], rfl⟩⟩
  obtain ⟨_, hfile, hkept⟩ := hadditive.agents _ List.mem_cons_self
  cases hfile
  rcases hkept with hkept | hkept
  · have hnone : ¬bootstrapSentinel <:+: readText "a\r\nb".toList := by decide +kernel
    exact hnone hkept
  · exact hkept (by decide)

end ClaudeCode

end Sox
