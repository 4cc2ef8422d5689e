import Mathlib.Data.List.Dedup
import Sox.FilesystemStore
import Sox.MemoryInv
import Sox.SqliteInv

/-!
# The depth that `send` reports

The three stores run side by side on one trace of sends, subscriptions, drains and unsubscriptions.
The memory store counts what it holds on the channel for nobody yet delivered, the new message
included; the SQLite and the filesystem stores count what they held on the channel before, delivered
or not. These are the same number exactly when one message of the channel has been delivered
(`queue_depths_agree_iff`).
-/

namespace Sox

/-- An operation, with what the filesystem store reads of its surroundings. -/
inductive TraceOp where
  | send (now : ℚ) (args : SendArgs) (uuid : Uuid)
  | subscribe (ls : DirListing) (agentId : AgentId) (pattern : Pattern)
  | recv (ls : DirListing) (agentId : AgentId) (channels : Option (List Channel)) (maxMessages : Int)
  | unsubscribe (ls : DirListing) (agentId : AgentId) (patterns : List Pattern)

namespace TraceOp

def storeOp : TraceOp → StoreOp
  | .send now args _ => .send now args
  | .subscribe _ a p => .subscribe a p
  | .recv _ a channels max => .recv a channels max
  | .unsubscribe _ a ps => .unsubscribe a ps

def uuid? : TraceOp → Option Uuid
  | .send _ _ uuid => some uuid
  | _ => none

/-- Whether the operation puts a message on the channel. -/
def sendsOn (c : Channel) : TraceOp → Bool
  | .send _ args _ => args.channel == c
  | _ => false

end TraceOp

def FilesystemStore.apply (s : FilesystemStore) : TraceOp → FilesystemStore
  | .send now args uuid => (s.send now args uuid).2
  | .subscribe ls a p => (s.subscribe ls a p).2
  | .recv ls a channels max => (s.recv ls a channels max).2
  | .unsubscribe ls a ps => (s.unsubscribe ls a ps).2

/-- Whether some agent has drained the file. -/
def FilesystemStore.isDelivered (s : FilesystemStore) (c : Channel) (filename : String) : Bool :=
  (s.channelDir c).delivered.values.any (·.contains filename)

structure Stores where
  memory : MemoryStore := .init
  sqlite : SqliteStore := .init
  files : FilesystemStore := .init

namespace Stores

def step (s : Stores) (op : TraceOp) : Stores where
  memory := memoryStore.apply op.storeOp s.memory
  sqlite := sqliteStore.apply op.storeOp s.sqlite
  files := s.files.apply op

def after (trace : List TraceOp) : Stores := trace.foldl step {}

end Stores

/-! ### Counting -/

/-- How many messages of the channel have been delivered to somebody. -/
def deliveredOn (c : Channel) (l : List StoredMessage) : Nat :=
  (onChannel c l).countP fun m => !m.deliveredTo.isEmpty

def undeliveredOn (c : Channel) (l : List StoredMessage) : Nat :=
  (onChannel c l).countP fun m => m.deliveredTo.isEmpty

def FilesystemStore.deliveredOn (s : FilesystemStore) (c : Channel) : Nat :=
  (s.channelDir c).messages.keys.countP (s.isDelivered c)

def FilesystemStore.undeliveredOn (s : FilesystemStore) (c : Channel) : Nat :=
  (s.channelDir c).messages.keys.countP fun filename => !s.isDelivered c filename

/-- The next `send` reports the same depth from every store, and it is the number of messages on the
channel, the new one included, that nobody has been delivered. -/
def DepthsAgree (s : Stores) (now : ℚ) (args : SendArgs) (uuid : Uuid) : Prop :=
  let memory := s.memory.send now args
  let sqlite := s.sqlite.db.send now args
  let files := s.files.send now args uuid
  memory.1.backpressure.queueDepth = sqlite.1.backpressure.queueDepth ∧
  sqlite.1.backpressure.queueDepth = files.1.backpressure.queueDepth ∧
  memory.1.backpressure.queueDepth = undeliveredOn args.channel memory.2.messages ∧
  sqlite.1.backpressure.queueDepth = undeliveredOn args.channel sqlite.2.messages ∧
  files.1.backpressure.queueDepth = files.2.undeliveredOn args.channel

/-- In each store exactly one message of the channel has been delivered to somebody. -/
def OneDelivered (s : Stores) (c : Channel) : Prop :=
  deliveredOn c s.memory.messages = 1 ∧ deliveredOn c s.sqlite.db.messages = 1 ∧
    s.files.deliveredOn c = 1

instance (s : Stores) (c : Channel) : Decidable (OneDelivered s c) := by
  unfold OneDelivered
  infer_instance

section
variable {c : Channel} {l : List StoredMessage} {m : StoredMessage}

theorem undelivered_add_delivered (c : Channel) (l : List StoredMessage) :
    undeliveredOn c l + deliveredOn c l = (onChannel c l).length := by
  rw [List.length_eq_countP_add_countP fun m : StoredMessage => m.deliveredTo.isEmpty]
  simp only [undeliveredOn, deliveredOn, Bool.not_eq_true, Bool.decide_eq_false]

theorem undeliveredOn_append (hm : m.channel = c) (hnew : m.deliveredTo = []) :
    undeliveredOn c (l ++ [m]) = undeliveredOn c l + 1 := by
  rw [undeliveredOn, undeliveredOn, onChannel_append, onChannel_singleton, if_pos hm, List.countP_append]
  simp [hnew]

/-- The scan of the memory store counts what nobody has been delivered. -/
theorem memory_queueDepth (c : Channel) (l : List StoredMessage) :
    MemoryStore.queueDepth c l = undeliveredOn c l := by
  rw [MemoryStore.queueDepth, undeliveredOn, onChannel, List.countP_filter, List.countP_eq_length_filter]
  congr 1
  refine List.filter_congr fun m _ => ?_
  rw [Bool.and_comm]
  rfl

end

/-! ### How many messages a trace leaves on a channel -/

theorem length_stored {c d : Channel} {l : List StoredMessage} {m : StoredMessage} (hm : m.channel = d) :
    (onChannel c (l ++ [m])).length = (onChannel c l).length + if d == c then 1 else 0 := by
  rw [onChannel_append, onChannel_singleton, List.length_append, hm]
  by_cases h : d = c
  · simp [h]
  · simp [h]

theorem memory_length (c : Channel) (op : TraceOp) (s : MemoryStore) :
    (onChannel c (memoryStore.apply op.storeOp s).messages).length =
      (onChannel c s.messages).length + if op.sendsOn c then 1 else 0 := by
  cases op with
  | send now args uuid =>
    show (onChannel c (s.messages ++ [s.nextMessage now args])).length = _
    exact length_stored rfl
  | subscribe ls a p => rfl
  | recv ls a channels max =>
    show (onChannel c (s.recv a channels max).2.messages).length = _
    rw [MemoryStore.recv_eq]
    exact onChannel_markWhere_length c
  | unsubscribe ls a ps =>
    show (onChannel c (s.unsubscribe a ps).2.messages).length = _
    rw [MemoryStore.unsubscribe_eq]
    exact onChannel_markWhere_length c

theorem sqlite_length (c : Channel) (op : TraceOp) {s : SqliteStore} (h : s.db.Inv) :
    (onChannel c (sqliteStore.apply op.storeOp s).db.messages).length =
      (onChannel c s.db.messages).length + if op.sendsOn c then 1 else 0 := by
  cases op with
  | send now args uuid =>
    show (onChannel c (s.db.messages ++ [s.db.newRow now args _])).length = _
    exact length_stored rfl
  | subscribe ls a p =>
    show (onChannel c (s.db.insertSubscription a p).messages).length = _
    unfold SqliteDb.insertSubscription
    split <;> rfl
  | recv ls a channels max =>
    show (onChannel c (s.db.recv a channels max).2.messages).length = _
    rw [SqliteDb.recv_eq h.ids_nodup]
    exact onChannel_markWhere_length c
  | unsubscribe ls a ps =>
    show (onChannel c (s.db.unsubscribe a ps).2.messages).length = _
    rw [SqliteDb.unsubscribe_eq h.ids_nodup]
    exact onChannel_markWhere_length c

/-- What the first operation draws may be put behind what the others draw. -/
theorem filterMap_cons_perm {α β : Type} (f : α → Option β) (x : α) (l : List α) (used : List β) :
    (l.filterMap f ++ ((f x).toList ++ used)).Perm ((x :: l).filterMap f ++ used) := by
  rw [List.filterMap_cons]
  cases f x with
  | none => exact .refl _
  | some y => exact List.perm_middle

/-! ### The names in the filesystem store -/

namespace FilesystemStore

variable {s : FilesystemStore} {c d : Channel} {used : List Uuid} {n : String}

/-- The name was made with one of the ids. -/
def Named (used : List Uuid) (n : String) : Prop := ∃ t, ∃ u ∈ used, n = fileName t u

/-- Message files, and the files that agents have drained, were named by earlier calls of `send`. -/
structure Inv (used : List Uuid) (s : FilesystemStore) : Prop where
  files : ∀ c, ∀ n ∈ (s.channelDir c).messages.keys, Named used n
  drained : ∀ c a names, (s.channelDir c).delivered.get? a = some names → ∀ n ∈ names, Named used n

theorem Inv.init : Inv [] init := ⟨fun _ _ hn => (nomatch hn), fun _ _ _ h => (nomatch h)⟩

theorem Named.mono {used' : List Uuid} (hsub : used ⊆ used') (h : Named used n) : Named used' n := by
  obtain ⟨t, u, hu, hn⟩ := h
  exact ⟨t, u, hsub hu, hn⟩

theorem Inv.mono {used' : List Uuid} (hsub : used ⊆ used') (h : Inv used s) : Inv used' s :=
  ⟨fun c n hn => (h.files c n hn).mono hsub, fun c a names hg n hn => (h.drained c a names hg n hn).mono hsub⟩

theorem Inv.fresh (h : Inv used s) {t : ℚ} {u : Uuid} (hu : u ∉ used) :
    fileName t u ∉ (s.channelDir c).messages.keys := by
  intro hmem
  obtain ⟨t', u', hu', heq⟩ := h.files c _ hmem
  exact hu (fileName_uuid heq ▸ hu')

theorem Inv.getDeliveredSet (h : Inv used s) {a : AgentId} (hn : n ∈ s.getDeliveredSet c a) :
    Named used n := by
  unfold FilesystemStore.getDeliveredSet Dict.getD at hn
  cases hg : (s.channelDir c).delivered.get? a with
  | none =>
    rw [hg] at hn
    exact nomatch hn
  | some names =>
    rw [hg] at hn
    exact h.drained c a names hg n hn

theorem Inv.isDelivered (h : Inv used s) (hd : s.isDelivered c n = true) : Named used n := by
  obtain ⟨names, hnames, hn⟩ := List.any_eq_true.1 hd
  obtain ⟨⟨a, names'⟩, he, rfl⟩ := List.mem_map.1 hnames
  exact h.drained c a names' (Dict.get?_eq_some.2 he) n (List.contains_iff_mem.1 hn)

theorem mem_listMessageFiles {file : String × MessageFile} (hf : file ∈ s.listMessageFiles c) :
    file.1 ∈ (s.channelDir c).messages.keys :=
  List.mem_map_of_mem ((List.mem_insertionSort _).1 hf)

theorem Inv.markDelivered (h : Inv used s) (a : AgentId) {filenames : List String}
    (hnames : ∀ n ∈ filenames, Named used n) : Inv used (s.markDelivered d a filenames) := by
  refine ⟨fun c n hn => ?_, fun c b names hg n hn => ?_⟩
  · rw [markDelivered_sameFiles filenames c] at hn
    exact h.files c n hn
  · unfold FilesystemStore.markDelivered at hg
    rw [channelDir_set] at hg
    split at hg
    · rw [Dict.get?_set] at hg
      split at hg
      · cases hg
        have hmem : n ∈ s.getDeliveredSet d a ++ filenames := by
          rwa [sortedNames, List.mem_insertionSort, List.mem_dedup] at hn
        rcases List.mem_append.1 hmem with hold | hnew
        · exact h.getDeliveredSet hold
        · exact hnames n hnew
      · exact h.drained d b names hg n hn
    · exact h.drained c b names hg n hn

/-- What a drain is about to mark was named by earlier calls of `send`. -/
def MarksNamed (used : List Uuid) (d : Draining) : Prop :=
  ∀ c names, d.toMark.get? c = some names → ∀ n ∈ names, Named used n

theorem drainFiles_named (max : Int) (ch : Channel) (delivered : List String)
    {files : List (String × MessageFile)} (hfiles : ∀ file ∈ files, Named used file.1) {dr : Draining}
    (h : MarksNamed used dr) : MarksNamed used (drainFiles max ch delivered dr files) := by
  induction files generalizing dr with
  | nil => exact h
  | cons file files ih =>
    obtain ⟨fname, msg⟩ := file
    have hrest : ∀ file ∈ files, Named used file.1 := fun f hf => hfiles f (List.mem_cons_of_mem _ hf)
    unfold drainFiles
    split
    · exact h
    · split
      · exact ih hrest h
      · refine ih hrest fun c names hg n hn => ?_
        rw [Dict.get?_set] at hg
        split at hg
        · cases hg
          rcases List.mem_append.1 hn with hn | hn
          · unfold Dict.getD at hn
            cases hold : dr.toMark.get? ch with
            | none =>
              rw [hold] at hn
              exact nomatch hn
            | some names =>
              rw [hold] at hn
              exact h ch names hold n hn
          · rw [List.mem_singleton.1 hn]
            exact hfiles _ List.mem_cons_self
        · exact h c names hg n hn

theorem Inv.marks (h : Inv used s) (a : AgentId) (marks : List (Channel × List String))
    (hmarks : ∀ e ∈ marks, ∀ n ∈ e.2, Named used n) :
    Inv used (marks.foldl (fun s e => s.markDelivered e.1 a e.2) s) := by
  induction marks generalizing s with
  | nil => exact h
  | cons e marks ih =>
    refine ih (h.markDelivered a (hmarks e List.mem_cons_self)) fun e' he' => ?_
    exact hmarks e' (List.mem_cons_of_mem _ he')

theorem Inv.recv (h : Inv used s) (ls : DirListing) (a : AgentId) (channels : Option (List Channel))
    (max : Int) : Inv used (s.recv ls a channels max).2 := by
  have hfold : ∀ (targets : List Channel) (dr : Draining), MarksNamed used dr →
      MarksNamed used (targets.foldl (fun dr ch =>
        drainFiles max ch (s.getDeliveredSet ch a) dr (s.listMessageFiles ch)) dr) := by
    intro targets
    induction targets with
    | nil => exact fun _ hd => hd
    | cons ch targets ih =>
      intro dr hd
      refine ih _ (drainFiles_named max ch _ (fun file hf => ?_) hd)
      exact h.files ch _ (mem_listMessageFiles hf)
  refine h.marks a _ fun e he n hn => ?_
  exact hfold _ {} (fun _ _ hg => nomatch hg) e.1 e.2 (Dict.get?_eq_some.2 he) n hn

theorem Inv.unsubscribe (h : Inv used s) (ls : DirListing) (a : AgentId) (patterns : List Pattern) :
    Inv used (s.unsubscribe ls a patterns).2 := by
  refine unsubscribe_keeps (P := Inv used) (fun t c names ht _ hnames => ?_) h ls patterns
    ⟨h.files, h.drained⟩
  refine ht.markDelivered a fun n hn => ?_
  obtain ⟨file, hf, rfl⟩ := List.mem_map.1 (hnames n hn)
  exact ht.files c _ (mem_listMessageFiles hf)

theorem subscribe_channels (ls : DirListing) (a : AgentId) (p : Pattern) :
    (s.subscribe ls a p).2.channels = s.channels := by
  unfold subscribe
  dsimp only
  split <;> rfl

theorem Inv.subscribe (h : Inv used s) (ls : DirListing) (a : AgentId) (p : Pattern) :
    Inv used (s.subscribe ls a p).2 := by
  have hdir : ∀ c, (s.subscribe ls a p).2.channelDir c = s.channelDir c := fun c => by
    rw [channelDir, channelDir, subscribe_channels]
  refine ⟨fun c => ?_, fun c => ?_⟩ <;> rw [hdir]
  · exact h.files c
  · exact h.drained c

theorem send_keys {now : ℚ} {args : SendArgs} {u : Uuid}
    (hfresh : fileName now u ∉ (s.channelDir args.channel).messages.keys) (c : Channel) :
    ((s.send now args u).2.channelDir c).messages.keys = (s.channelDir c).messages.keys ++
      if c = args.channel then [fileName now u] else [] := by
  unfold send
  dsimp only
  rw [channelDir_set]
  split
  · rename_i hc
    rw [hc, Dict.keys_set, if_neg hfresh]
  · exact (List.append_nil _).symm

theorem send_delivered (now : ℚ) (args : SendArgs) (u : Uuid) (c : Channel) :
    ((s.send now args u).2.channelDir c).delivered = (s.channelDir c).delivered := by
  unfold send
  dsimp only
  rw [channelDir_set]
  split
  · rename_i hc
    rw [hc]
  · rfl

theorem Inv.send (h : Inv used s) (now : ℚ) (args : SendArgs) {u : Uuid} (hu : u ∉ used) :
    Inv (u :: used) (s.send now args u).2 := by
  have hold := h.mono (List.subset_cons_self u used)
  refine ⟨fun c n hn => ?_, fun c => ?_⟩
  · rw [send_keys (h.fresh hu)] at hn
    rcases List.mem_append.1 hn with hn | hn
    · exact hold.files c n hn
    · split at hn
      · exact ⟨now, u, List.mem_cons_self, List.mem_singleton.1 hn⟩
      · exact nomatch hn
  · rw [send_delivered]
    exact hold.drained c

/-- An operation keeps the names, if the id it draws is a new one. -/
theorem Inv.apply (h : Inv used s) {op : TraceOp} (hu : (op.uuid?.toList ++ used).Nodup) :
    Inv (op.uuid?.toList ++ used) (s.apply op) := by
  cases op with
  | send now args u => exact h.send now args (List.nodup_cons.1 hu).1
  | subscribe ls a p => exact h.subscribe ls a p
  | recv ls a channels max => exact h.recv ls a channels max
  | unsubscribe ls a ps => exact h.unsubscribe ls a ps

theorem undelivered_add_delivered (s : FilesystemStore) (c : Channel) :
    s.undeliveredOn c + s.deliveredOn c = (s.channelDir c).messages.keys.length := by
  rw [List.length_eq_countP_add_countP (s.isDelivered c), Nat.add_comm]
  simp [undeliveredOn, deliveredOn]

theorem undeliveredOn_send (h : Inv used s) (now : ℚ) (args : SendArgs) {u : Uuid} (hu : u ∉ used) :
    (s.send now args u).2.undeliveredOn args.channel = s.undeliveredOn args.channel + 1 := by
  have hsame : (s.send now args u).2.isDelivered args.channel = s.isDelivered args.channel := by
    funext n
    rw [isDelivered, isDelivered, send_delivered]
  have hnew : s.isDelivered args.channel (fileName now u) = false := by
    refine Bool.eq_false_iff.2 fun hd => ?_
    obtain ⟨t, u', hu', heq⟩ := h.isDelivered hd
    exact hu (fileName_uuid heq ▸ hu')
  rw [undeliveredOn, undeliveredOn, hsame, send_keys (h.fresh hu), if_pos rfl, List.countP_append]
  simp [hnew]

end FilesystemStore

/-! ### The three stores on one trace -/

namespace Stores

variable {used : List Uuid} {s : Stores}

/-- The stores hold equally many messages on every channel. -/
structure Inv (used : List Uuid) (s : Stores) : Prop where
  db : s.sqlite.db.Inv
  named : s.files.Inv used
  sqlite : ∀ c, (onChannel c s.sqlite.db.messages).length = (onChannel c s.memory.messages).length
  files : ∀ c, (s.files.channelDir c).messages.keys.length = (onChannel c s.memory.messages).length

theorem Inv.init : Inv [] {} := ⟨SqliteStore.inv_init, .init, fun _ => rfl, fun _ => rfl⟩

theorem Inv.step (h : Inv used s) {op : TraceOp} (hu : (op.uuid?.toList ++ used).Nodup) :
    Inv (op.uuid?.toList ++ used) (s.step op) := by
  have hmem := fun c => memory_length c op s.memory
  have hsql := fun c => sqlite_length c op h.db
  have hfiles : ∀ c, ((s.files.apply op).channelDir c).messages.keys.length =
      (s.files.channelDir c).messages.keys.length + if op.sendsOn c then 1 else 0 := by
    intro c
    cases op with
    | send now args u =>
      have hfresh : u ∉ used := (List.nodup_cons.1 hu).1
      show ((s.files.send now args u).2.channelDir c).messages.keys.length = _
      rw [FilesystemStore.send_keys (h.named.fresh hfresh), List.length_append]
      show _ + List.length (if c = args.channel then _ else []) = _ + if args.channel == c then 1 else 0
      by_cases hc : c = args.channel
      · simp [hc]
      · simp [hc, Ne.symm hc]
    | subscribe ls a p =>
      exact congrArg (fun d : Dict _ _ => d.keys.length) (FilesystemStore.subscribe_sameFiles ls p c)
    | recv ls a channels max =>
      exact congrArg (fun d : Dict _ _ => d.keys.length) (FilesystemStore.recv_sameFiles ls channels max c)
    | unsubscribe ls a ps =>
      exact congrArg (fun d : Dict _ _ => d.keys.length) (FilesystemStore.unsubscribe_sameFiles ls ps c)
  refine ⟨SqliteStore.inv_apply op.storeOp s.sqlite h.db, h.named.apply hu, fun c => ?_, fun c => ?_⟩
  · exact (hsql c).trans ((congrArg (· + _) (h.sqlite c)).trans (hmem c).symm)
  · exact (hfiles c).trans ((congrArg (· + _) (h.files c)).trans (hmem c).symm)

theorem Inv.foldl (h : Inv used s) (trace : List TraceOp)
    (hu : (trace.filterMap TraceOp.uuid? ++ used).Nodup) :
    ∃ used', used'.Perm (trace.filterMap TraceOp.uuid? ++ used) ∧ Inv used' (trace.foldl Stores.step s) := by
  induction trace generalizing s used with
  | nil => exact ⟨used, .refl _, h⟩
  | cons op trace ih =>
    have hperm := filterMap_cons_perm TraceOp.uuid? op trace used
    have hnd := hperm.nodup_iff.2 hu
    obtain ⟨used', hp, hI⟩ := ih (h.step (List.nodup_append.1 hnd).2.1) hnd
    exact ⟨used', hp.trans hperm, hI⟩

/-- After every trace the stores hold equally many messages on every channel, and no file has the
name of a new message. -/
theorem inv_after {trace : List TraceOp} {uuid : Uuid}
    (huuid : (uuid :: trace.filterMap TraceOp.uuid?).Nodup) :
    ∃ used, uuid ∉ used ∧ Inv used (after trace) := by
  obtain ⟨hnew, hnd⟩ := List.nodup_cons.1 huuid
  obtain ⟨used, hperm, hI⟩ := Inv.init.foldl trace (by rwa [List.append_nil])
  rw [List.append_nil] at hperm
  exact ⟨used, fun hm => hnew (hperm.mem_iff.1 hm), hI⟩

end Stores

/-- What the stores report after a trace: the memory store how many messages of the channel nobody
has been delivered, with the new one; the other two how many they held, so that the depth of a channel
that is always drained grows with every message. -/
theorem queue_depths {trace : List TraceOp} {uuid : Uuid}
    (huuid : (uuid :: trace.filterMap TraceOp.uuid?).Nodup) (now : ℚ) (args : SendArgs) :
    let s := Stores.after trace
    let held := (onChannel args.channel s.memory.messages).length
    (s.memory.send now args).1.backpressure.queueDepth = undeliveredOn args.channel s.memory.messages + 1 ∧
    (s.sqlite.db.send now args).1.backpressure.queueDepth = held ∧
    (s.files.send now args uuid).1.backpressure.queueDepth = held := by
  intro s held
  obtain ⟨used, -, hI⟩ := Stores.inv_after huuid
  refine ⟨?_, hI.sqlite args.channel, ?_⟩
  · show MemoryStore.queueDepth args.channel (s.memory.messages ++ [s.memory.nextMessage now args]) = _
    rw [memory_queueDepth]
    exact undeliveredOn_append rfl rfl
  · have hfiles : (s.files.channelDir args.channel).messages.keys.length = held := hI.files args.channel
    rw [← hfiles]
    exact (List.length_map _).symm

/-- After every trace, with the ids of `uuid4` all different, the stores agree on the depth of the next
send, and report what nobody has been delivered, if and only if each of them has delivered exactly one
message of the channel. -/
theorem queue_depths_agree_iff (trace : List TraceOp) (now : ℚ) (args : SendArgs) (uuid : Uuid)
    (huuid : (uuid :: trace.filterMap TraceOp.uuid?).Nodup) :
    DepthsAgree (Stores.after trace) now args uuid ↔ OneDelivered (Stores.after trace) args.channel := by
  obtain ⟨used, hnew, hI⟩ := Stores.inv_after huuid
  obtain ⟨hmem, hsql, hfiles⟩ := queue_depths huuid now args
  unfold DepthsAgree OneDelivered
  generalize Stores.after trace = s at *
  have hmemAfter : undeliveredOn args.channel (s.memory.send now args).2.messages =
      undeliveredOn args.channel s.memory.messages + 1 := undeliveredOn_append rfl rfl
  have hsqlAfter : undeliveredOn args.channel (s.sqlite.db.send now args).2.messages =
      undeliveredOn args.channel s.sqlite.db.messages + 1 := undeliveredOn_append rfl rfl
  have hfilesAfter := FilesystemStore.undeliveredOn_send hI.named now args hnew
  have hm := undelivered_add_delivered args.channel s.memory.messages
  have hq := undelivered_add_delivered args.channel s.sqlite.db.messages
  have hf := s.files.undelivered_add_delivered args.channel
  rw [hI.sqlite] at hq
  rw [hI.files] at hf
  simp only [hmem, hsql, hfiles, hmemAfter, hsqlAfter, hfilesAfter, true_and]
  constructor
  · rintro ⟨h₁, h₂, h₃⟩
    refine ⟨?_, ?_, ?_⟩ <;> omega
  · rintro ⟨h₁, h₂, h₃⟩
    refine ⟨?_, ?_, ?_⟩ <;> omega

/-- `0…0n` -/
def uuidOf (n : Char) : Uuid := ⟨String.ofList (List.replicate 31 '0' ++ [n]), by simp⟩

def ticket : SendArgs := ⟨"ticket:1", "alice", .empty, none, none⟩

/-- `bob` drains the one message of the channel. -/
def drainedOnce : List TraceOp :=
  [.subscribe inOrder "bob" "ticket:*", .send 1 ticket (uuidOf '1'), .recv inOrder "bob" none 50]

theorem queue_depths_agree_drained : DepthsAgree (Stores.after drainedOnce) 2 ticket (uuidOf '2') :=
  (queue_depths_agree_iff drainedOnce 2 ticket (uuidOf '2') (by decide)).2 (by decide +kernel)

/-- On the first message of a channel the memory store says 1 and the others 0. -/
theorem queue_depths_differ :
    ¬∀ trace now args uuid, (uuid :: trace.filterMap TraceOp.uuid?).Nodup →
      DepthsAgree (Stores.after trace) now args uuid := by
  intro h
  have hfirst := (h [] 1 ticket (uuidOf '1') (by decide)).1
  exact absurd hfirst (by decide)

end Sox
