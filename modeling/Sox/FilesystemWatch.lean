import Sox.FilesystemDelivery

/-!
# `watch` of the filesystem store

The generator stops at every `yield` and at the end of every pass over the channels, and anybody may
use the store before it is resumed. `Watcher` is what it holds meanwhile. Between two stops it moves in
small steps (`Moves`), and what a step keeps is kept by every interleaving. So a file is yielded once, no
file that was drained before the pass began is yielded, and a pass misses nothing that waited when it
began; a new watch yields exactly what is pending.
-/

namespace Sox

namespace FilesystemStore

/-- A message file, with its channel. -/
abbrev ChannelFile := Channel × String × MessageFile

/-- The local variables of the generator: between two passes, or at a `yield` with the channels and the
files of the current channel that are still to come. -/
inductive Watcher where
  | asleep (seen : List String)
  | inside (seen : List String) (patterns : List Pattern) (channels : List Channel) (channel : Channel)
      (delivered : List String) (files : List (String × MessageFile))

def Watcher.seen : Watcher → List String
  | .asleep seen => seen
  | .inside seen _ _ _ _ _ => seen

/-- The loop over the files of a channel, up to the next `yield`: the file and those after it. -/
def watchFiles (delivered : List String) : List String → List (String × MessageFile) →
    Option ((String × MessageFile) × List (String × MessageFile)) × List String
  | seen, [] => (none, seen)
  | seen, f :: files =>
    if f.1 ∈ seen then watchFiles delivered seen files
    else if f.1 ∈ delivered then watchFiles delivered (seen ++ [f.1]) files
    else (some (f, files), seen ++ [f.1])

/-- The loop over the channels, up to the next `yield`. -/
def watchChannels (a : AgentId) (patterns : List Pattern) (s : FilesystemStore) :
    List String → List Channel → Option ChannelFile × Watcher
  | seen, [] => (none, .asleep seen)
  | seen, ch :: channels =>
    if matchesAny ch patterns then
      let delivered := s.getDeliveredSet ch a
      match watchFiles delivered seen (s.listMessageFiles ch) with
      | (some (f, files), seen) => (some (ch, f), .inside seen patterns channels ch delivered files)
      | (none, seen) => watchChannels a patterns s seen channels
    else watchChannels a patterns s seen channels

/-- `watch` before its first pass. -/
def watchStart (ls : DirListing) (a : AgentId) (s : FilesystemStore) : Watcher :=
  .asleep (((s.knownChannels ls).filter (matchesAny · (s.getPatterns a))).flatMap (s.getDeliveredSet · a))

/-- The generator until it stops again: the file whose message it yields, if it does not go to sleep. -/
def watchResume (ls : DirListing) (a : AgentId) (w : Watcher) (s : FilesystemStore) :
    Option ChannelFile × Watcher :=
  match w with
  | .asleep seen => watchChannels a (s.getPatterns a) s seen (s.knownChannels ls)
  | .inside seen patterns channels ch delivered files =>
    match watchFiles delivered seen files with
    | (some (f, files), seen) => (some (ch, f), .inside seen patterns channels ch delivered files)
    | (none, seen) => watchChannels a patterns s seen channels

variable {s s' s₁ : FilesystemStore} {a : AgentId} {c : Channel} {ls : DirListing} {w w' : Watcher}
  {out : Option ChannelFile} {Y : List ChannelFile} {f : String × MessageFile} {calls : List HostedOp}
  {k : HostedOp}

/-! ### Small steps -/

/-- A step of the generator, and the file that it yields. -/
inductive Moves (a : AgentId) (s : FilesystemStore) : Watcher → Option ChannelFile → Watcher → Prop
  | wakes (ls : DirListing) (seen : List String) : Moves a s (.asleep seen) none
      (.inside seen (s.getPatterns a) (s.knownChannels ls) "" [] [])
  | passes {seen ps cs ch del f files} (h : f.1 ∈ seen) :
      Moves a s (.inside seen ps cs ch del (f :: files)) none (.inside seen ps cs ch del files)
  | notes {seen ps cs ch del f files} (h : f.1 ∈ del) :
      Moves a s (.inside seen ps cs ch del (f :: files)) none (.inside (seen ++ [f.1]) ps cs ch del files)
  | yields {seen ps cs ch del f files} (h : f.1 ∉ seen) (h' : f.1 ∉ del) :
      Moves a s (.inside seen ps cs ch del (f :: files)) (some (ch, f))
        (.inside (seen ++ [f.1]) ps cs ch del files)
  | skips {seen ps cs ch ch' del} (h : matchesAny ch' ps = false) :
      Moves a s (.inside seen ps (ch' :: cs) ch del []) none (.inside seen ps cs ch del [])
  | opens {seen ps cs ch ch' del} (h : matchesAny ch' ps = true) :
      Moves a s (.inside seen ps (ch' :: cs) ch del []) none
        (.inside seen ps cs ch' (s.getDeliveredSet ch' a) (s.listMessageFiles ch'))
  | rests {seen ps ch del} : Moves a s (.inside seen ps [] ch del []) none (.asleep seen)

/-- Steps until the generator stops. -/
inductive Stops (a : AgentId) (s : FilesystemStore) : Watcher → Option ChannelFile → Watcher → Prop
  | yielded {w e w'} (h : Moves a s w (some e) w') : Stops a s w (some e) w'
  | asleep {w seen} (h : Moves a s w none (.asleep seen)) : Stops a s w none (.asleep seen)
  | more {w w₁ out w'} (h : Moves a s w none w₁) (h' : Stops a s w₁ out w') : Stops a s w out w'

theorem watchFiles_stops {seen : List String} {ps : List Pattern} {cs : List Channel} {ch : Channel}
    {del : List String} {files : List (String × MessageFile)}
    (hnext : ∀ seen, Stops a s (.inside seen ps cs ch del []) (watchChannels a ps s seen cs).1
      (watchChannels a ps s seen cs).2) :
    let r := match watchFiles del seen files with
      | (some (f, files), seen) => (some (ch, f), Watcher.inside seen ps cs ch del files)
      | (none, seen) => watchChannels a ps s seen cs
    Stops a s (.inside seen ps cs ch del files) r.1 r.2 := by
  induction files generalizing seen with
  | nil => exact hnext seen
  | cons f files ih =>
    unfold watchFiles
    split_ifs with hseen hdel
    · exact .more (.passes hseen) ih
    · exact .more (.notes hdel) ih
    · exact .yielded (.yields hseen hdel)

theorem watchChannels_stops (a : AgentId) (ps : List Pattern) (s : FilesystemStore) (cs : List Channel)
    (seen : List String) (ch : Channel) (del : List String) :
    Stops a s (.inside seen ps cs ch del []) (watchChannels a ps s seen cs).1
      (watchChannels a ps s seen cs).2 := by
  induction cs generalizing seen ch del with
  | nil => exact .asleep .rests
  | cons ch' cs ih =>
    unfold watchChannels
    split_ifs with hmatch
    · exact .more (.opens hmatch) (watchFiles_stops fun seen => ih seen ch' _)
    · exact .more (.skips (Bool.not_eq_true _ ▸ hmatch)) (ih seen ch del)

theorem watchResume_stops (ls : DirListing) (a : AgentId) (w : Watcher) (s : FilesystemStore) :
    Stops a s w (watchResume ls a w s).1 (watchResume ls a w s).2 := by
  cases w with
  | asleep seen => exact .more (.wakes ls seen) (watchChannels_stops a _ s _ seen "" [])
  | inside seen ps cs ch del files => exact watchFiles_stops fun seen => watchChannels_stops a ps s cs seen ch del

/-- What every step keeps of the generator and the files that it yielded is kept from stop to stop. -/
theorem Stops.keeps {I : Watcher → List ChannelFile → Prop} (h : Stops a s w out w')
    (hstep : ∀ w out w' Y, Moves a s w out w' → I w Y → I w' (Y ++ out.toList)) (hI : I w Y) :
    I w' (Y ++ out.toList) := by
  induction h with
  | yielded h => exact hstep _ _ _ _ h hI
  | asleep h => exact hstep _ _ _ _ h hI
  | more h _ ih =>
    refine ih ?_
    have hnext := hstep _ _ _ _ h hI
    rwa [Option.toList_none, List.append_nil] at hnext

/-! ### What calls do to the files -/

/-- A name is the name of one file, and agents have drained files only. -/
structure Names (s : FilesystemStore) : Prop where
  apart : ∀ c d n, n ∈ (s.channelDir c).messages.keys → n ∈ (s.channelDir d).messages.keys → c = d
  drained : ∀ c b n, n ∈ s.getDeliveredSet c b → n ∈ (s.channelDir c).messages.keys

/-- Files stay, and stay drained. -/
structure Later (s s' : FilesystemStore) : Prop where
  files : ∀ c, ∀ f ∈ (s.channelDir c).messages.entries, f ∈ (s'.channelDir c).messages.entries
  drained : ∀ c b n, n ∈ s.getDeliveredSet c b → n ∈ s'.getDeliveredSet c b

theorem Later.refl (s : FilesystemStore) : Later s s := ⟨fun _ _ h => h, fun _ _ _ h => h⟩

theorem Later.trans (h : Later s s₁) (h' : Later s₁ s') : Later s s' :=
  ⟨fun c f hf => h'.files c f (h.files c f hf), fun c b n hn => h'.drained c b n (h.drained c b n hn)⟩

theorem Later.keys (h : Later s s') {n : String} (hn : n ∈ (s.channelDir c).messages.keys) :
    n ∈ (s'.channelDir c).messages.keys := by
  obtain ⟨f, hf, rfl⟩ := List.mem_map.1 hn
  exact List.mem_map_of_mem (h.files c f hf)

theorem later_call {used : List Uuid} (hkept : Kept s) (hnames : Inv used s) (hnew : k.uuid ∉ used) :
    Later s (k.apply s) := by
  refine ⟨fun c f hf => ?_, fun c b n hn => (mem_getDeliveredSet_call hkept.encoded).2 (.inl hn)⟩
  cases hsends : k.op.sends with
  | none => rwa [sameFiles_call hsends]
  | some posted =>
    rw [apply_of_sends hsends, send_files (hnames.fresh hnew)]
    exact List.mem_append_left _ hf

/-- Each id of `uuid4` is drawn by one call. -/
theorem call_of_uuid (hu : (calls.map (·.uuid)).Nodup) {k k' : HostedOp} (hk : k ∈ calls) (hk' : k' ∈ calls)
    (h : k.uuid = k'.uuid) : k = k' := List.inj_on_of_nodup_map hu hk hk' h

theorem later_concat (hu : ((calls ++ [k]).map (·.uuid)).Nodup) :
    Later (afterCalls calls) (afterCalls (calls ++ [k])) := by
  rw [List.map_append, List.map_singleton] at hu
  obtain ⟨hnd, -, hdisjoint⟩ := List.nodup_append.1 hu
  have hnew : k.uuid ∉ calls.map (·.uuid) := fun hmem => hdisjoint _ hmem _ (List.mem_singleton_self _) rfl
  obtain ⟨hkept, hnames, -⟩ := kept_calls hnd
  rw [afterCalls_concat]
  exact later_call hkept hnames hnew

theorem names_run (hu : (calls.map (·.uuid)).Nodup) : Names (afterCalls calls) := by
  refine ⟨fun c d n hc hd => ?_, ?_⟩
  · obtain ⟨hwritten, -⟩ := written_run hu
    obtain ⟨f, hf, rfl⟩ := List.mem_map.1 hc
    obtain ⟨g, hg, heq⟩ := List.mem_map.1 hd
    obtain ⟨k, hk, now, args, seq, hsends, rfl, rfl⟩ := hwritten c f hf
    obtain ⟨k', hk', now', args', seq', hsends', rfl, rfl⟩ := hwritten d g hg
    obtain rfl := call_of_uuid hu hk hk' (fileName_uuid heq.symm)
    rw [(Prod.mk.inj (Option.some.inj (hsends.symm.trans hsends'))).2]
  · induction calls using List.reverseRecOn with
    | nil => exact fun c b n hn => absurd hn List.not_mem_nil
    | append_singleton calls k ih =>
      intro c b n hn
      have hlater := later_concat hu
      rw [List.map_append, List.nodup_append] at hu
      rw [afterCalls_concat] at hn
      refine hlater.keys ?_
      rcases (mem_getDeliveredSet_call (kept_calls hu.1).1.encoded).1 hn with hold | hgiven
      · exact ih hu.1 c b n hold
      · exact (waits_of_given hgiven).1

/-! ### Interleavings -/

inductive WatchEvent where
  | call (k : HostedOp)
  | resume (ls : DirListing)

def callsOf : List WatchEvent → List HostedOp
  | [] => []
  | .call k :: es => k :: callsOf es
  | .resume _ :: es => callsOf es

theorem callsOf_append (es fs : List WatchEvent) : callsOf (es ++ fs) = callsOf es ++ callsOf fs := by
  induction es with
  | nil => rfl
  | cons e es ih => cases e <;> simp [callsOf, ih]

/-- The store, a watch of it, and the files that the watch yielded. -/
structure Watching where
  store : FilesystemStore
  watcher : Watcher
  yielded : List ChannelFile := []

namespace Watching

def step (a : AgentId) (x : Watching) : WatchEvent → Watching
  | .call k => { x with store := k.apply x.store }
  | .resume ls =>
    let (file, watcher) := watchResume ls a x.watcher x.store
    { x with watcher, yielded := x.yielded ++ file.toList }

/-- A watch that is started after the calls. -/
def start (ls : DirListing) (a : AgentId) (calls : List HostedOp) : Watching :=
  ⟨afterCalls calls, watchStart ls a (afterCalls calls), []⟩

def after (a : AgentId) (x : Watching) (es : List WatchEvent) : Watching := es.foldl (step a) x

theorem after_store {x : Watching} (hx : x.store = afterCalls calls) (es : List WatchEvent) :
    (x.after a es).store = afterCalls (calls ++ callsOf es) := by
  induction es generalizing x calls with
  | nil => simpa [after, callsOf] using hx
  | cons e es ih =>
    cases e with
    | call k =>
      rw [callsOf, List.append_cons]
      exact ih (by rw [afterCalls_concat, ← hx]; rfl)
    | resume ls => exact ih (x := x.step a (.resume ls)) hx

theorem isPrefix_of_append_nodup {u v : List HostedOp} (h : u <+: v) (hv : (v.map (·.uuid)).Nodup) :
    (u.map (·.uuid)).Nodup := hv.sublist (h.map _).sublist

/-- What later files and the steps of the generator keep is kept by every interleaving; `G` holds of the
stores that the calls leave. -/
theorem after_keeps {I : FilesystemStore → Watcher → List ChannelFile → Prop} {G : FilesystemStore → Prop}
    {x : Watching} (hlater : ∀ s s' w Y, Later s s' → I s w Y → I s' w Y)
    (hmove : ∀ s w out w' Y, G s → Moves a s w out w' → I s w Y → I s w' (Y ++ out.toList))
    (hx : x.store = afterCalls calls) (es : List WatchEvent)
    (hu : ((calls ++ callsOf es).map (·.uuid)).Nodup)
    (hG : ∀ u, calls <+: u → u <+: calls ++ callsOf es → G (afterCalls u))
    (hI : I x.store x.watcher x.yielded) :
    I (x.after a es).store (x.after a es).watcher (x.after a es).yielded := by
  induction es generalizing x calls with
  | nil => exact hI
  | cons e es ih =>
    cases e with
    | call k =>
      rw [callsOf, List.append_cons] at hu hG
      have hstore : (x.step a (.call k)).store = afterCalls (calls ++ [k]) := by
        rw [afterCalls_concat, ← hx]
        rfl
      refine ih hstore hu (fun u hu => hG u ((List.prefix_append _ _).trans hu)) ?_
      rw [hstore]
      refine hlater _ _ _ _ (later_concat ?_) (hx ▸ hI)
      exact isPrefix_of_append_nodup (List.prefix_append _ _) hu
    | resume ls =>
      have hstore : G x.store := hx ▸ hG calls (List.prefix_refl _) (List.prefix_append _ _)
      refine ih (x := x.step a (.resume ls)) hx hu hG ?_
      exact (watchResume_stops ls a x.watcher x.store).keeps
        (fun w out w' Y h => hmove x.store w out w' Y hstore h) hI

end Watching

/-! ### What the watch has seen -/

/-- What the generator holds was read from the store. -/
def Watcher.Reads (a : AgentId) (s : FilesystemStore) : Watcher → Prop
  | .asleep _ => True
  | .inside _ _ _ ch del files => (∀ f ∈ files, f ∈ (s.channelDir ch).messages.entries) ∧
      ∀ n ∈ del, n ∈ s.getDeliveredSet ch a

/-- Every file is yielded once, and is noted; what is noted was yielded or drained. -/
structure Sound (a : AgentId) (s : FilesystemStore) (w : Watcher) (Y : List ChannelFile) : Prop where
  stored : ∀ e ∈ Y, e.2 ∈ (s.channelDir e.1).messages.entries
  once : (Y.map (·.2.1)).Nodup
  noted : ∀ e ∈ Y, e.2.1 ∈ w.seen
  accounted : ∀ n ∈ w.seen, n ∈ Y.map (·.2.1) ∨ ∃ c, n ∈ s.getDeliveredSet c a
  reads : w.Reads a s

theorem Sound.later (h : Sound a s w Y) (hlater : Later s s') : Sound a s' w Y where
  stored e he := hlater.files e.1 e.2 (h.stored e he)
  once := h.once
  noted := h.noted
  accounted n hn := (h.accounted n hn).imp_right fun ⟨c, hc⟩ => ⟨c, hlater.drained c a n hc⟩
  reads := by
    cases w with
    | asleep => trivial
    | inside seen ps cs ch del files =>
      exact ⟨fun f hf => hlater.files ch f (h.reads.1 f hf), fun n hn => hlater.drained ch a n (h.reads.2 n hn)⟩

theorem Sound.move (h : Sound a s w Y) (hmove : Moves a s w out w') : Sound a s w' (Y ++ out.toList) := by
  obtain ⟨hstored, honce, hnoted, haccounted, hreads⟩ := h
  -- the steps that yield nothing keep the files, and what is noted grows
  have quiet : ∀ {w'}, (∀ n ∈ w.seen, n ∈ w'.seen) →
      (∀ n ∈ w'.seen, n ∈ w.seen ∨ ∃ c, n ∈ s.getDeliveredSet c a) → w'.Reads a s →
      Sound a s w' (Y ++ (none : Option ChannelFile).toList) := by
    intro w' hgrows hnew hreads'
    rw [Option.toList_none, List.append_nil]
    exact ⟨hstored, honce, fun e he => hgrows _ (hnoted e he),
      fun n hn => (hnew n hn).elim (haccounted n) .inr, hreads'⟩
  cases hmove with
  | wakes ls seen =>
    exact quiet (fun _ hn => hn) (fun _ hn => .inl hn) ⟨fun f hf => absurd hf List.not_mem_nil,
      fun n hn => absurd hn List.not_mem_nil⟩
  | passes _ =>
    exact quiet (fun _ hn => hn) (fun _ hn => .inl hn)
      ⟨fun f hf => hreads.1 f (List.mem_cons_of_mem _ hf), hreads.2⟩
  | notes hdel =>
    refine quiet (fun _ hn => List.mem_append_left _ hn) (fun n hn => ?_)
      ⟨fun f hf => hreads.1 f (List.mem_cons_of_mem _ hf), hreads.2⟩
    rcases List.mem_append.1 hn with hn | hn
    · exact .inl hn
    · rw [List.mem_singleton.1 hn]
      exact .inr ⟨_, hreads.2 _ hdel⟩
  | skips _ => exact quiet (fun _ hn => hn) (fun _ hn => .inl hn) hreads
  | opens _ =>
    refine quiet (fun _ hn => hn) (fun _ hn => .inl hn) ⟨fun f hf => ?_, fun n hn => hn⟩
    exact (List.mem_insertionSort _).1 hf
  | rests => exact quiet (fun _ hn => hn) (fun _ hn => .inl hn) trivial
  | @yields seen ps cs ch del f files hseen hdel =>
    refine ⟨fun e he => ?_, ?_, fun e he => ?_, fun n hn => ?_,
      ⟨fun g hg => hreads.1 g (List.mem_cons_of_mem _ hg), hreads.2⟩⟩
    · rcases List.mem_append.1 he with he | he
      · exact hstored e he
      · obtain rfl := List.mem_singleton.1 he
        exact hreads.1 f List.mem_cons_self
    · rw [Option.toList_some, List.map_append, List.map_singleton]
      refine List.nodup_append.2 ⟨honce, List.nodup_singleton _, fun n hn m hm heq => ?_⟩
      obtain ⟨e, he, rfl⟩ := List.mem_map.1 hn
      rw [List.mem_singleton.1 hm] at heq
      exact hseen (heq ▸ hnoted e he)
    · rcases List.mem_append.1 he with he | he
      · exact List.mem_append_left _ (hnoted e he)
      · obtain rfl := List.mem_singleton.1 he
        exact List.mem_append_right _ (List.mem_singleton_self _)
    · rw [Option.toList_some, List.map_append, List.map_singleton]
      rcases List.mem_append.1 hn with hn | hn
      · exact (haccounted n hn).imp_left fun h => List.mem_append_left _ h
      · exact .inl (List.mem_append_right _ hn)

theorem sound_start (ls : DirListing) (a : AgentId) (s : FilesystemStore) :
    Sound a s (watchStart ls a s) [] where
  stored e he := absurd he List.not_mem_nil
  once := List.nodup_nil
  noted e he := absurd he List.not_mem_nil
  accounted n hn := by
    obtain ⟨c, -, hc⟩ := List.mem_flatMap.1 hn
    exact .inr ⟨c, hc⟩
  reads := trivial

theorem sound_after (ls : DirListing) (a : AgentId) (es : List WatchEvent)
    (hu : ((calls ++ callsOf es).map (·.uuid)).Nodup) :
    let x := (Watching.start ls a calls).after a es
    Sound a x.store x.watcher x.yielded :=
  Watching.after_keeps (G := fun _ => True) (x := Watching.start ls a calls) (fun _ _ _ _ hlater h => h.later hlater)
    (fun _ _ _ _ _ _ hmove h => h.move hmove) rfl es hu (fun _ _ _ => trivial) (sound_start ls a _)

/-! ### What it does not yield -/

/-- A file that is still to come and was drained in the state `s₁` is one to note only. -/
def Watcher.Spares (a : AgentId) (s₁ : FilesystemStore) : Watcher → Prop
  | .asleep _ => True
  | .inside _ _ _ ch del files => ∀ f ∈ files, f.1 ∈ s₁.getDeliveredSet ch a → f.1 ∈ del

/-- After the state `s₁`, with `Y₁` yielded before, nothing is yielded that was drained in `s₁`. -/
structure Spared (a : AgentId) (s₁ : FilesystemStore) (Y₁ : List ChannelFile) (s : FilesystemStore) (w : Watcher)
    (Y : List ChannelFile) : Prop where
  later : Later s₁ s
  spares : w.Spares a s₁
  fresh : ∀ e ∈ Y, e ∈ Y₁ ∨ e.2.1 ∉ s₁.getDeliveredSet e.1 a

theorem Spared.move {Y₁ : List ChannelFile} (h : Spared a s₁ Y₁ s w Y) (hmove : Moves a s w out w') :
    Spared a s₁ Y₁ s w' (Y ++ out.toList) := by
  obtain ⟨hlater, hspares, hfresh⟩ := h
  have quiet : ∀ {w'}, w'.Spares a s₁ → Spared a s₁ Y₁ s w' (Y ++ (none : Option ChannelFile).toList) := by
    intro w' hw'
    rw [Option.toList_none, List.append_nil]
    exact ⟨hlater, hw', hfresh⟩
  cases hmove with
  | wakes ls seen => exact quiet fun f hf => absurd hf List.not_mem_nil
  | passes _ => exact quiet fun f hf => hspares f (List.mem_cons_of_mem _ hf)
  | notes _ => exact quiet fun f hf => hspares f (List.mem_cons_of_mem _ hf)
  | skips _ => exact quiet fun f hf => absurd hf List.not_mem_nil
  | opens _ => exact quiet fun f _ hn => hlater.drained _ a f.1 hn
  | rests => exact quiet trivial
  | @yields seen ps cs ch del f files _ hdel =>
    refine ⟨hlater, fun g hg => hspares g (List.mem_cons_of_mem _ hg), fun e he => ?_⟩
    rcases List.mem_append.1 he with he | he
    · exact hfresh e he
    · obtain rfl := List.mem_singleton.1 he
      exact .inr fun hn => hdel (hspares f List.mem_cons_self hn)

/-! ### What it does not miss -/

/-- The file has been seen or is still to come in the pass. -/
def Watcher.Covers (c : Channel) (f : String × MessageFile) : Watcher → Prop
  | .asleep seen => f.1 ∈ seen
  | .inside seen ps cs ch _ files => f.1 ∈ seen ∨ (matchesAny c ps = true ∧ c ∈ cs) ∨ c = ch ∧ f ∈ files

theorem Watcher.Covers.move (h : w.Covers c f) (hf : f ∈ (s.channelDir c).messages.entries)
    (hmove : Moves a s w out w') : w'.Covers c f := by
  cases hmove with
  | wakes ls seen => exact .inl h
  | @passes seen ps cs ch del g files hg =>
    rcases h with h | h | ⟨rfl, h⟩
    · exact .inl h
    · exact .inr (.inl h)
    · rcases List.mem_cons.1 h with rfl | h
      · exact .inl hg
      · exact .inr (.inr ⟨rfl, h⟩)
  | @notes seen ps cs ch del g files _ | @yields seen ps cs ch del g files _ _ =>
    rcases h with h | h | ⟨rfl, h⟩
    · exact .inl (List.mem_append_left _ h)
    · exact .inr (.inl h)
    · rcases List.mem_cons.1 h with rfl | h
      · exact .inl (List.mem_append_right _ (List.mem_singleton_self _))
      · exact .inr (.inr ⟨rfl, h⟩)
  | @skips seen ps cs ch ch' del hskip =>
    rcases h with h | ⟨hps, h⟩ | ⟨rfl, h⟩
    · exact .inl h
    · rcases List.mem_cons.1 h with rfl | h
      · rw [hps] at hskip
        cases hskip
      · exact .inr (.inl ⟨hps, h⟩)
    · exact absurd h List.not_mem_nil
  | @opens seen ps cs ch ch' del _ =>
    rcases h with h | ⟨hps, h⟩ | ⟨rfl, h⟩
    · exact .inl h
    · rcases List.mem_cons.1 h with rfl | h
      · exact .inr (.inr ⟨rfl, (List.mem_insertionSort _).2 hf⟩)
      · exact .inr (.inl ⟨hps, h⟩)
    · exact absurd h List.not_mem_nil
  | rests =>
    rcases h with h | ⟨-, h⟩ | ⟨-, h⟩
    · exact h
    · exact absurd h List.not_mem_nil
    · exact absurd h List.not_mem_nil

/-- A pass begins with all that waits on the channels of the agent's patterns. -/
theorem covers_resume (hf : f ∈ s.undelivered c a) (hps : matchesAny c (s.getPatterns a) = true) (ls : DirListing)
    (seen : List String) : (watchResume ls a (.asleep seen) s).2.Covers c f := by
  have hentry := (mem_undelivered.1 hf).1
  have hknown : ∀ ls, c ∈ s.knownChannels ls := fun ls =>
    mem_knownChannels_of_waits ls c (List.ne_nil_of_mem hf)
  have hstops := watchResume_stops ls a (.asleep seen) s
  generalize watchResume ls a (.asleep seen) s = r at hstops ⊢
  obtain ⟨out, w'⟩ := r
  dsimp only at hstops ⊢
  cases hstops with
  | asleep h => cases h
  | yielded h => cases h
  | more h hrest =>
    cases h with
    | wakes ls' _ =>
      exact hrest.keeps (I := fun w _ => w.Covers c f) (Y := []) (fun _ _ _ _ hmove h => h.move hentry hmove)
        (.inr (.inl ⟨hps, hknown ls'⟩))

/-! ### The watch -/

/-- The generator works with patterns that `H` tells, and yields what they match. -/
def Watcher.Heeds (H : List Pattern → Prop) : Watcher → Prop
  | .asleep _ => True
  | .inside _ ps _ ch _ files => H ps ∧ (files ≠ [] → matchesAny ch ps = true)

theorem heeds_move {H : List Pattern → Prop} (hH : H (s.getPatterns a)) (hmove : Moves a s w out w')
    (h : w.Heeds H ∧ ∀ e ∈ Y, ∃ ps, H ps ∧ matchesAny e.1 ps = true) :
    w'.Heeds H ∧ ∀ e ∈ Y ++ out.toList, ∃ ps, H ps ∧ matchesAny e.1 ps = true := by
  obtain ⟨hheeds, hY⟩ := h
  cases hmove with
  | wakes ls seen => exact ⟨⟨hH, fun h => absurd rfl h⟩, by simpa using hY⟩
  | passes _ => exact ⟨⟨hheeds.1, fun _ => hheeds.2 (List.cons_ne_nil _ _)⟩, by simpa using hY⟩
  | notes _ => exact ⟨⟨hheeds.1, fun _ => hheeds.2 (List.cons_ne_nil _ _)⟩, by simpa using hY⟩
  | skips _ => exact ⟨⟨hheeds.1, fun h => absurd rfl h⟩, by simpa using hY⟩
  | opens hmatch => exact ⟨⟨hheeds.1, fun _ => hmatch⟩, by simpa using hY⟩
  | rests => exact ⟨trivial, by simpa using hY⟩
  | @yields seen ps cs ch del f files _ _ =>
    refine ⟨⟨hheeds.1, fun _ => hheeds.2 (List.cons_ne_nil _ _)⟩, fun e he => ?_⟩
    rcases List.mem_append.1 he with he | he
    · exact hY e he
    · obtain rfl := List.mem_singleton.1 he
      exact ⟨ps, hheeds.1, hheeds.2 (List.cons_ne_nil _ _)⟩

/-- The patterns that the agent has had since the calls. -/
def PatternsSince (a : AgentId) (calls : List HostedOp) (es : List WatchEvent) (ps : List Pattern) : Prop :=
  ∃ u, calls <+: u ∧ u <+: calls ++ callsOf es ∧ ps = (afterCalls u).getPatterns a

theorem heeds_after (ls : DirListing) (a : AgentId) (es : List WatchEvent)
    (hu : ((calls ++ callsOf es).map (·.uuid)).Nodup) :
    ∀ e ∈ ((Watching.start ls a calls).after a es).yielded, ∃ ps, PatternsSince a calls es ps ∧
      matchesAny e.1 ps = true :=
  (Watching.after_keeps (x := Watching.start ls a calls) (G := fun s => PatternsSince a calls es (s.getPatterns a))
    (I := fun _ w Y => w.Heeds (PatternsSince a calls es) ∧
      ∀ e ∈ Y, ∃ ps, PatternsSince a calls es ps ∧ matchesAny e.1 ps = true)
    (fun _ _ _ _ _ h => h) (fun _ _ _ _ _ hG hmove h => heeds_move hG hmove h) rfl es hu
    (fun u hu hu' => ⟨u, hu, hu', rfl⟩) ⟨trivial, fun _ he => absurd he List.not_mem_nil⟩).2

theorem start_store (ls : DirListing) (a : AgentId) (calls : List HostedOp) :
    (Watching.start ls a calls).store = afterCalls calls := rfl

theorem after_append {x : Watching} (es fs : List WatchEvent) : x.after a (es ++ fs) = (x.after a es).after a fs :=
  List.foldl_append

/-- From a state in which the generator sleeps. -/
theorem spared_after {x : Watching} {seen : List String} (hx : x.store = afterCalls calls)
    (hsleeps : x.watcher = .asleep seen) (es : List WatchEvent)
    (hu : ((calls ++ callsOf es).map (·.uuid)).Nodup) :
    ∀ e ∈ (x.after a es).yielded, e ∈ x.yielded ∨ e.2.1 ∉ x.store.getDeliveredSet e.1 a :=
  (Watching.after_keeps (I := Spared a x.store x.yielded) (G := fun _ => True)
    (fun _ _ _ _ hlater h => ⟨h.later.trans hlater, h.spares, h.fresh⟩) (fun _ _ _ _ _ _ hmove h => h.move hmove)
    hx es hu (fun _ _ _ => trivial)
    ⟨.refl _, by rw [hsleeps]; trivial, fun _ he => .inl he⟩).fresh

theorem covers_after {x : Watching} {seen : List String} (hx : x.store = afterCalls calls)
    (hsleeps : x.watcher = .asleep seen) (ls : DirListing) (es : List WatchEvent)
    (hu : ((calls ++ callsOf es).map (·.uuid)).Nodup) (hf : f ∈ x.store.undelivered c a)
    (hps : matchesAny c (x.store.getPatterns a) = true) :
    (x.after a (.resume ls :: es)).watcher.Covers c f := by
  have hfirst : (x.step a (.resume ls)).watcher.Covers c f := by
    have hcovers := covers_resume hf hps ls seen
    rwa [← hsleeps] at hcovers
  exact (Watching.after_keeps (x := x.step a (.resume ls)) (G := fun _ => True)
    (I := fun s w _ => f ∈ (s.channelDir c).messages.entries ∧ w.Covers c f)
    (fun _ _ _ _ hlater h => ⟨hlater.files c f h.1, h.2⟩)
    (fun _ _ _ _ _ _ hmove h => ⟨h.1, h.2.move h.1 hmove⟩) hx es hu (fun _ _ _ => trivial)
    ⟨(mem_undelivered.1 hf).1, hfirst⟩).2

/-- What a sleeping generator has seen it has yielded, or somebody drained it for the agent. -/
theorem yielded_or_drained (hnames : Names s) (h : Sound a s w Y) (hf : f ∈ (s.channelDir c).messages.entries)
    (hseen : f.1 ∈ w.seen) : (c, f) ∈ Y ∨ f.1 ∈ s.getDeliveredSet c a := by
  have hkey : f.1 ∈ (s.channelDir c).messages.keys := List.mem_map_of_mem hf
  rcases h.accounted f.1 hseen with hmem | ⟨d, hd⟩
  · obtain ⟨⟨d, g⟩, he, heq⟩ := List.mem_map.1 hmem
    have hg : g ∈ (s.channelDir d).messages.entries := h.stored (d, g) he
    have hgkey : g.1 ∈ (s.channelDir d).messages.keys := List.mem_map_of_mem hg
    have hname : g.1 = f.1 := heq
    rw [hname] at hgkey
    obtain rfl : d = c := hnames.apart d c f.1 hgkey hkey
    -- the files of a directory have different names
    obtain rfl : g = f := List.inj_on_of_nodup_map (s.channelDir d).messages.nodup hg hf hname
    exact .inl he
  · rw [hnames.apart c d f.1 hkey (hnames.drained d a f.1 hd)]
    exact .inr hd

theorem names_after {calls : List HostedOp} {es : List WatchEvent} (ls : DirListing) (a : AgentId)
    (hu : ((calls ++ callsOf es).map (·.uuid)).Nodup) : Names ((Watching.start ls a calls).after a es).store := by
  rw [Watching.after_store (start_store ls a calls)]
  exact names_run hu

theorem messageIds_yielded (ls : DirListing) (a : AgentId) (es : List WatchEvent)
    (hu : ((calls ++ callsOf es).map (·.uuid)).Nodup) :
    (((Watching.start ls a calls).after a es).yielded.map (·.2.2.messageId)).Nodup := by
  have hsound : Sound a _ _ _ := sound_after ls a es hu
  have hstore := Watching.after_store (a := a) (start_store ls a calls) es
  have hids : ((Watching.start ls a calls).after a es).yielded.map (·.2.2.messageId) =
      (((Watching.start ls a calls).after a es).yielded.map itemOf).map itemId := by
    rw [List.map_map]
    refine List.map_congr_left fun e he => ?_
    have hstored := hsound.stored e he
    rw [hstore] at hstored
    exact (written_run hu).1.messageId hstored
  rw [hids]
  refine List.Nodup.map itemId_injective (List.Nodup.of_map Prod.snd ?_)
  rw [List.map_map]
  exact hsound.once

/-- The generator goes to sleep after the events `es₁`, and wakes. -/
structure Wakes (ls : DirListing) (a : AgentId) (calls : List HostedOp) (es es₁ es₂ : List WatchEvent)
    (x₁ : Watching) : Prop where
  split : es = es₁ ++ es₂
  state : x₁ = (Watching.start ls a calls).after a es₁
  sleeps : ∃ seen, x₁.watcher = .asleep seen
  resumes : ∃ ls' es₂', es₂ = .resume ls' :: es₂'

/-- Every interleaving of a watch of the filesystem store with calls by anybody, the ids of `uuid4` being
all different: no message is yielded twice; what is yielded is stored, on a channel that the agent's patterns
matched at some time since the watch began; and between two passes, nothing that was drained for the agent
before the first is yielded, and what waited for it is yielded or drained. -/
theorem filesystem_watch (ls : DirListing) (a : AgentId) (es : List WatchEvent)
    (hu : ((calls ++ callsOf es).map (·.uuid)).Nodup) :
    let x := (Watching.start ls a calls).after a es
    (x.yielded.map (·.2.2.messageId)).Nodup ∧
    (∀ e ∈ x.yielded, e.2 ∈ (x.store.channelDir e.1).messages.entries ∧
      ∃ ps, PatternsSince a calls es ps ∧ matchesAny e.1 ps = true) ∧
    ∀ es₁ es₂ x₁, Wakes ls a calls es es₁ es₂ x₁ →
      (∀ e ∈ x.yielded, e ∈ x₁.yielded ∨ e.2.1 ∉ x₁.store.getDeliveredSet e.1 a) ∧
      ∀ seen, x.watcher = .asleep seen → ∀ c, ∀ f ∈ x₁.store.undelivered c a,
        matchesAny c (x₁.store.getPatterns a) = true →
          (c, f) ∈ x.yielded ∨ f.1 ∈ x.store.getDeliveredSet c a := by
  intro x
  have hsound : Sound a x.store x.watcher x.yielded := sound_after ls a es hu
  refine ⟨messageIds_yielded ls a es hu,
    fun e he => ⟨hsound.stored e he, heeds_after ls a es hu e he⟩, ?_⟩
  rintro es₁ es₂ x₁ ⟨rfl, rfl, ⟨seen, hsleeps⟩, ls', es₂, rfl⟩
  rw [callsOf_append, ← List.append_assoc] at hu
  have hstore := Watching.after_store (a := a) (start_store ls a calls) es₁
  have hx : x = ((Watching.start ls a calls).after a es₁).after a (.resume ls' :: es₂) := after_append _ _
  refine ⟨fun e he => ?_, fun seen' hsleeps' c f hf hps => ?_⟩
  · rw [hx] at he
    exact spared_after hstore hsleeps _ hu e he
  · have hcovers := covers_after hstore hsleeps ls' es₂ hu hf hps
    rw [← hx, hsleeps'] at hcovers
    have hentry : f ∈ (x.store.channelDir c).messages.entries := by
      rw [hx]
      exact (Watching.after_keeps (I := fun s _ _ => f ∈ (s.channelDir c).messages.entries) (G := fun _ => True)
        (fun _ _ _ _ hlater h => hlater.files c f h) (fun _ _ _ _ _ _ _ h => h) hstore (.resume ls' :: es₂) hu
        (fun _ _ _ => trivial) (mem_undelivered.1 hf).1)
    refine yielded_or_drained (names_after ls a ?_) hsound hentry ?_
    · rwa [callsOf_append, ← List.append_assoc]
    · rw [hsleeps']
      exact hcovers

/-- bob watches after his ticket; he wakes twice, and alice writes another one in between. -/
def bobWatches : List WatchEvent :=
  [.resume inOrder, .call (hosted (.send 6 ⟨"ticket:2", "alice", .empty, none, none⟩) '4'), .resume inOrder,
    .resume inOrder]

theorem filesystem_watch_bob :
    let x := (Watching.start inOrder "bob" bobTwice).after "bob" bobWatches
    x.yielded.map (·.1) = ["ticket:1", "ticket:2"] ∧ (x.yielded.map (·.2.2.messageId)).Nodup :=
  ⟨by decide +kernel, (filesystem_watch inOrder "bob" bobWatches (show ((bobTwice ++ _).map _).Nodup by decide)).1⟩

/-! ### What it catches up with -/

theorem asleep_of_silent (h : Stops a s w none w') : ∃ seen, w' = .asleep seen := by
  generalize hout : (none : Option ChannelFile) = out at h
  induction h with
  | yielded h => cases hout
  | asleep h => exact ⟨_, rfl⟩
  | more h h' ih => exact ih hout

/-- Undisturbed, the generator yields at every resume until it goes to sleep. -/
theorem Watching.yields_or_sleeps (x : Watching) (lss : List DirListing) :
    (x.after a (lss.map .resume)).yielded.length = x.yielded.length + lss.length ∨
    ∃ lss₁ lss₂ seen, lss = lss₁ ++ lss₂ ∧ lss₁ ≠ [] ∧ (x.after a (lss₁.map .resume)).watcher = .asleep seen ∧
      (x.after a (lss₁.map .resume)).yielded.length + 1 = x.yielded.length + lss₁.length := by
  induction lss using List.reverseRecOn with
  | nil => exact .inl rfl
  | append_singleton lss ls ih =>
    rcases ih with hyields | ⟨lss₁, lss₂, seen, rfl, hne, hsleeps, hcount⟩
    · have hstep : x.after a ((lss ++ [ls]).map .resume) = (x.after a (lss.map .resume)).step a (.resume ls) := by
        rw [List.map_append, after_append]
        rfl
      have hstops := watchResume_stops ls a (x.after a (lss.map .resume)).watcher (x.after a (lss.map .resume)).store
      cases hout : (watchResume ls a (x.after a (lss.map .resume)).watcher (x.after a (lss.map .resume)).store).1 with
      | some e =>
        left
        rw [hstep]
        simp only [Watching.step, hout, List.length_append, Option.toList_some, List.length_cons, List.length_nil]
        omega
      | none =>
        rw [hout] at hstops
        obtain ⟨seen, hseen⟩ := asleep_of_silent hstops
        refine .inr ⟨lss ++ [ls], [], seen, (List.append_nil _).symm, by simp, by rw [hstep]; exact hseen, ?_⟩
        rw [hstep]
        simp only [Watching.step, hout, List.length_append, Option.toList_none, List.length_cons, List.length_nil]
        omega
    · exact .inr ⟨lss₁, lss₂ ++ [ls], seen, List.append_assoc _ _ _, hne, hsleeps, hcount⟩

theorem callsOf_resumes (es : List WatchEvent) (lss : List DirListing) :
    callsOf (es ++ lss.map .resume) = callsOf es := by
  have hnil : callsOf (lss.map .resume) = [] := by
    induction lss with
    | nil => rfl
    | cons ls lss ih => exact ih
  rw [callsOf_append, hnil, List.append_nil]

/-- The generator only reads. -/
theorem resumes_store (x : Watching) (lss : List DirListing) : (x.after a (lss.map .resume)).store = x.store := by
  induction lss generalizing x with
  | nil => rfl
  | cons ls lss ih => exact ih (x.step a (.resume ls))

theorem yielded_mono (x : Watching) (es : List WatchEvent) : x.yielded <+: (x.after a es).yielded := by
  induction es generalizing x with
  | nil => exact List.prefix_refl _
  | cons e es ih =>
    refine List.IsPrefix.trans ?_ (ih (x.step a e))
    cases e with
    | call k => exact List.prefix_refl _
    | resume ls => exact List.prefix_append _ _

/-- A pass that begins and ends has yielded what waits, if nobody else drains it. -/
theorem yielded_of_sleeps {es : List WatchEvent} {lss : List DirListing} {seen seen' : List String}
    (hu : ((calls ++ callsOf es).map (·.uuid)).Nodup) {x : Watching}
    (hx : x = (Watching.start ls a calls).after a es) (hsleeps : x.watcher = .asleep seen) (hne : lss ≠ [])
    (hsleeps' : (x.after a (lss.map .resume)).watcher = .asleep seen') (hf : f ∈ x.store.undelivered c a)
    (hps : matchesAny c (x.store.getPatterns a) = true) : (c, f) ∈ (x.after a (lss.map .resume)).yielded := by
  obtain ⟨ls', lss, rfl⟩ := List.exists_cons_of_ne_nil hne
  have hstore : x.store = afterCalls (calls ++ callsOf es) := by
    rw [hx]
    exact Watching.after_store (start_store ls a calls) es
  have hafter : x.after a ((ls' :: lss).map .resume) =
      (Watching.start ls a calls).after a (es ++ (ls' :: lss).map .resume) := by
    rw [hx, after_append]
  have hcovers := covers_after hstore hsleeps ls' (lss.map .resume)
    (by rwa [← List.nil_append (lss.map _), callsOf_resumes [], callsOf, List.append_nil]) hf hps
  have hu' : ((calls ++ callsOf (es ++ (ls' :: lss).map .resume)).map (·.uuid)).Nodup := by rwa [callsOf_resumes]
  have hnames := names_after ls a hu'
  have hsound : Sound a _ _ _ := sound_after ls a _ hu'
  rw [← hafter] at hnames hsound
  obtain ⟨hentry, hundrained⟩ := mem_undelivered.1 hf
  rw [← resumes_store x (ls' :: lss)] at hentry hundrained
  rw [← List.map_cons, hsleeps'] at hcovers
  refine (yielded_or_drained hnames hsound hentry ?_).resolve_right hundrained
  rw [hsleeps']
  exact hcovers

/-- All files of the store. -/
def stored (s : FilesystemStore) : List ChannelFile :=
  Feed.endToEnd (fun c => (s.channelDir c).messages.entries) (s.knownChannels inOrder)

theorem mem_stored {e : ChannelFile} (he : e.2 ∈ (s.channelDir e.1).messages.entries) : e ∈ s.stored := by
  refine Feed.mem_endToEnd.2 ⟨(knownChannels_perm inOrder).mem_iff.2 ?_, he⟩
  refine List.mem_map.2 ⟨encodeChannel e.1, ?_, decodeChannel_encodeChannel e.1⟩
  by_contra hkey
  rw [channelDir, Dict.getD_of_notMem hkey] at he
  exact absurd he List.not_mem_nil

theorem yielded_le_stored (ls : DirListing) (a : AgentId) (es : List WatchEvent)
    (hu : ((calls ++ callsOf es).map (·.uuid)).Nodup) :
    let x := (Watching.start ls a calls).after a es
    x.yielded.length ≤ x.store.stored.length := by
  intro x
  have hsound : Sound a x.store x.watcher x.yielded := sound_after ls a es hu
  have hnd : x.yielded.Nodup := hsound.once.of_map _
  exact (List.subperm_of_subset hnd fun e he => mem_stored (hsound.stored e he)).length_le

/-- After a watch has run along with other calls for any time, it is left alone with the store, and
resumed often enough: it has then yielded all that was waiting on the channels of the agent's patterns. -/
theorem watch_catches_up (ls : DirListing) (a : AgentId) (es : List WatchEvent)
    (hu : ((calls ++ callsOf es).map (·.uuid)).Nodup) (lss : List DirListing) :
    let x := (Watching.start ls a calls).after a es
    x.store.stored.length + 1 < x.yielded.length + lss.length →
      ∀ c, ∀ f ∈ x.store.undelivered c a, matchesAny c (x.store.getPatterns a) = true →
        (c, f) ∈ (x.after a (lss.map .resume)).yielded := by
  intro x hlen c f hf hps
  have hcount : ∀ lss : List DirListing,
      (x.after a (lss.map .resume)).yielded.length ≤ x.store.stored.length := fun lss => by
    rw [← resumes_store (a := a) x lss, ← after_append]
    exact yielded_le_stored ls a _ (by rwa [callsOf_resumes])
  rcases x.yields_or_sleeps (a := a) lss with hyields | ⟨lss₁, lss₂, seen, rfl, -, hsleeps, hcount₁⟩
  · have hle := hcount lss
    omega
  -- the pass that was under way has ended; the next one is about all that waits
  rw [List.length_append] at hlen
  rcases (x.after a (lss₁.map .resume)).yields_or_sleeps (a := a) lss₂ with
    hyields | ⟨lss₂, lss₃, seen', rfl, hne, hsleeps', -⟩
  · have hle := hcount (lss₁ ++ lss₂)
    rw [List.map_append, after_append] at hle
    omega
  · have hyielded := yielded_of_sleeps (f := f) (c := c) (by rwa [callsOf_resumes])
      (after_append es (lss₁.map .resume)).symm hsleeps hne hsleeps'
      (by rwa [resumes_store]) (by rwa [resumes_store])
    rw [List.map_append, List.map_append, after_append, after_append]
    exact (yielded_mono _ _).subset hyielded

theorem watch_catches_up_bob :
    let x := (Watching.start inOrder "bob" bobTwice).after "bob" (bobWatches.take 2)
    ∀ f ∈ x.store.undelivered "ticket:2" "bob", ("ticket:2", f) ∈
      (x.after "bob" ([inOrder, inOrder, inOrder].map .resume)).yielded :=
  fun f hf => watch_catches_up inOrder "bob" (bobWatches.take 2) (show ((bobTwice ++ _).map _).Nodup by decide)
    [inOrder, inOrder, inOrder] (by decide +kernel) "ticket:2" f hf (by decide +kernel)

/-- What waits for the agent on the channels of its patterns. -/
def waiting (s : FilesystemStore) (a : AgentId) : List ChannelFile :=
  Feed.endToEnd (s.undelivered · a) ((s.knownChannels inOrder).filter (matchesAny · (s.getPatterns a)))

theorem mem_waiting : (c, f) ∈ s.waiting a ↔ f ∈ s.undelivered c a ∧ matchesAny c (s.getPatterns a) = true := by
  rw [waiting, Feed.mem_endToEnd, List.mem_filter]
  constructor
  · rintro ⟨⟨-, hps⟩, hf⟩
    exact ⟨hf, hps⟩
  · rintro ⟨hf, hps⟩
    exact ⟨⟨mem_knownChannels_of_waits inOrder c (List.ne_nil_of_mem hf), hps⟩, hf⟩

/-- Left alone from its start, a watch yields what was waiting then. -/
theorem yielded_waited (hu : (calls.map (·.uuid)).Nodup) (ls : DirListing) (a : AgentId) (lss : List DirListing) :
    ∀ e ∈ ((Watching.start ls a calls).after a (lss.map .resume)).yielded, e ∈ (afterCalls calls).waiting a := by
  rintro ⟨c, f⟩ he
  have hcalls : callsOf (lss.map .resume) = [] := callsOf_resumes [] lss
  have hu' : ((calls ++ callsOf (lss.map .resume)).map (·.uuid)).Nodup := by rwa [hcalls, List.append_nil]
  have hsound : Sound a _ _ _ := sound_after ls a _ hu'
  have hstored := hsound.stored _ he
  rw [resumes_store] at hstored
  obtain ⟨ps, ⟨u, hprefix, hprefix', rfl⟩, hps⟩ := heeds_after ls a _ hu' _ he
  rw [hcalls, List.append_nil] at hprefix'
  obtain rfl : calls = u := hprefix.eq_of_length_le hprefix'.length_le
  refine mem_waiting.2 ⟨mem_undelivered.2 ⟨hstored, ?_⟩, hps⟩
  exact (spared_after (start_store ls a calls) rfl _ hu' _ he).resolve_left List.not_mem_nil

/-- A new watch that is left alone yields exactly what is pending. -/
theorem watch_restarted (hu : (calls.map (·.uuid)).Nodup) (ls : DirListing) (a : AgentId) (lss : List DirListing)
    (hlen : (postbox.pending (afterCalls calls) a).length < lss.length) :
    (((Watching.start ls a calls).after a (lss.map .resume)).yielded.map (·.2.2)).Perm
      (postbox.pending (afterCalls calls) a) := by
  have hkept := (kept_calls hu).1
  have hpending : (postbox.pending (afterCalls calls) a).Perm (((afterCalls calls).waiting a).map (·.2.2)) :=
    undelivered_filter_perm hkept (knownChannels_nodup hkept.encoded inOrder)
      (mem_knownChannels_of_waits inOrder) (matchesAny · ((afterCalls calls).getPatterns a))
  have hnd : ∀ lss : List DirListing, ((Watching.start ls a calls).after a (lss.map .resume)).yielded.Nodup := by
    intro lss
    have hcalls : callsOf (lss.map .resume) = [] := callsOf_resumes [] lss
    have hsound : Sound a _ _ _ := sound_after ls a (lss.map .resume) (by rwa [hcalls, List.append_nil])
    exact hsound.once.of_map _
  have hcount : ((Watching.start ls a calls).after a (lss.map .resume)).yielded.length ≤
      (postbox.pending (afterCalls calls) a).length := by
    rw [hpending.length_eq, List.length_map]
    exact (List.subperm_of_subset (hnd lss) (yielded_waited hu ls a lss)).length_le
  refine List.Perm.trans (List.Perm.map _ ?_) hpending.symm
  have hwaiting : ((afterCalls calls).waiting a).Nodup :=
    .of_map itemOf (Feed.endToEnd_nodup Prod.fst ((knownChannels_nodup hkept.encoded inOrder).filter _)
      fun _ _ => undelivered_nodup)
  refine (List.perm_ext_iff_of_nodup (hnd lss) hwaiting).2 fun e =>
    ⟨yielded_waited hu ls a lss e, fun he => ?_⟩
  obtain ⟨c, f⟩ := e
  obtain ⟨hf, hps⟩ := mem_waiting.1 he
  rcases (Watching.start ls a calls).yields_or_sleeps (a := a) lss with
    hyields | ⟨lss₁, lss₂, seen, rfl, hne, hsleeps, -⟩
  · rw [hyields] at hcount
    exact absurd hlen (by omega)
  · rw [List.map_append, after_append]
    refine (yielded_mono _ _).subset ?_
    have hu' : ((calls ++ callsOf []).map (·.uuid)).Nodup := by rwa [callsOf, List.append_nil]
    exact yielded_of_sleeps hu' rfl rfl hne hsleeps hf hps

theorem watch_restarted_bob :
    (((Watching.start inOrder "bob" bobTwice).after "bob" ([inOrder, inOrder].map .resume)).yielded.map (·.2.2)).Perm
      (postbox.pending (afterCalls bobTwice) "bob") ∧ postbox.pending (afterCalls bobTwice) "bob" ≠ [] :=
  ⟨watch_restarted (show (bobTwice.map _).Nodup by decide) inOrder "bob" [inOrder, inOrder] (by decide +kernel),
    fun h => absurd (congrArg List.length h) (by decide +kernel)⟩

end FilesystemStore

end Sox
