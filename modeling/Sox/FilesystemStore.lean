import Sox.BackingStore
import Sox.Envelope

/-!
# The filesystem store

`FilesystemStore` of `adapters/backing_stores/filesystem/store.py`, as far as messages and
subscriptions go: one directory a channel, one file a message, one file for each agent that names what
it has drained there. The order in which `iterdir` lists a directory is the operating system's and is
an argument (`DirListing`); so are the clock and `uuid4`. Every file that is read was written whole by
the store, so no read fails. Names that the file system itself refuses are outside the model.
-/

namespace Sox

/-! ### Names -/

def encodeChar : Char → List Char
  | '%' => ['%', '2', '5']
  | '/' => ['%', '2', 'F']
  | '\\' => ['%', '5', 'C']
  | ':' => ['%', '3', 'A']
  | c => [c]

/-- The four replacements, `%` first, are one pass. -/
def encodeChannel (channel : Channel) : String := String.ofList (channel.toList.flatMap encodeChar)

def decodeChars : List Char → List Char
  | '%' :: '3' :: 'A' :: cs => ':' :: decodeChars cs
  | '%' :: '2' :: 'F' :: cs => '/' :: decodeChars cs
  | '%' :: '5' :: 'C' :: cs => '\\' :: decodeChars cs
  | '%' :: '2' :: '5' :: cs => '%' :: decodeChars cs
  | c :: cs => c :: decodeChars cs
  | [] => []

/-- No replacement makes a pattern of a later one, so these are one pass too. -/
def decodeChannel (dirname : String) : Channel := String.ofList (decodeChars dirname.toList)

theorem decodeChars_encodeChar (c : Char) (cs : List Char) :
    decodeChars (encodeChar c ++ cs) = c :: decodeChars cs := by
  unfold encodeChar
  split
  · rfl
  · rfl
  · rfl
  · rfl
  · rename_i hpct _ _ _
    -- a character other than `%` opens no escape
    rw [List.singleton_append, decodeChars]
    all_goals
      intros
      simp_all

theorem decodeChars_flatMap (cs : List Char) : decodeChars (cs.flatMap encodeChar) = cs := by
  induction cs with
  | nil => rfl
  | cons c cs ih => rw [List.flatMap_cons, decodeChars_encodeChar, ih]

/-- A directory name is read back as the channel it was made from. -/
theorem decodeChannel_encodeChannel (channel : Channel) : decodeChannel (encodeChannel channel) = channel := by
  rw [decodeChannel, encodeChannel, String.toList_ofList, decodeChars_flatMap, String.ofList_toList]

theorem encodeChannel_inj {c d : Channel} : encodeChannel c = encodeChannel d ↔ c = d := by
  refine ⟨fun h => ?_, fun h => h ▸ rfl⟩
  rw [← decodeChannel_encodeChannel c, h, decodeChannel_encodeChannel]

/-- `uuid4().hex` -/
@[ext] structure Uuid where
  hex : String
  length : hex.toList.length = 32
deriving DecidableEq

/-- `f"{sent_at:.6f}_{uuid}.json"` -/
def fileName (sentAt : ℚ) (uuid : Uuid) : String := fixedPoint 6 sentAt ++ "_" ++ uuid.hex ++ ".json"

theorem fileName_uuid {t t' : ℚ} {u u' : Uuid} (h : fileName t u = fileName t' u') : u = u' := by
  have hlist := congrArg String.toList h
  simp only [fileName, String.toList_append] at hlist
  -- the last five characters agree, and the 32 before them
  have hfront := (List.append_inj' hlist rfl).1
  have hhex := (List.append_inj' hfront (u.length.trans u'.length.symm)).2
  exact Uuid.ext (String.toList_inj.1 hhex)

/-! ### The directories -/

/-- The JSON of a message file, which is what `recv` hands out. -/
structure MessageFile where
  messageId : String
  channel : Channel
  sender : AgentId
  body : JsonDict
  correlationId : Option String
  sentAt : ℚ
  seq : Nat
  replyTo : Option String

/-- `messages/` by file name, `delivered/` by agent. -/
structure ChannelDir where
  messages : Dict String MessageFile := .empty
  delivered : Dict AgentId (List String) := .empty

structure FilesystemStore where
  channels : Dict String ChannelDir := .empty
  subscriptions : Dict AgentId (List Pattern) := .empty

/-- How a directory is listed: all of it, in some order. -/
structure DirListing where
  order : List String → List String
  perm : ∀ names, (order names).Perm names

/-- Directories listed in the order they were made. -/
def inOrder : DirListing := ⟨id, fun _ => .refl _⟩

structure FileReceipt where
  messageId : String
  sentAt : ℚ
  seq : Nat
  backpressure : BackpressureInfo

namespace FilesystemStore

def init : FilesystemStore := {}

def channelDir (s : FilesystemStore) (channel : Channel) : ChannelDir :=
  s.channels.getD (encodeChannel channel) {}

def setChannelDir (s : FilesystemStore) (channel : Channel) (dir : ChannelDir) : FilesystemStore :=
  { s with channels := s.channels.set (encodeChannel channel) dir }

def getPatterns (s : FilesystemStore) (agentId : AgentId) : List Pattern := s.subscriptions.getD agentId []

def matchesAny (channel : Channel) (patterns : List Pattern) : Bool :=
  patterns.any (Glob.fnmatchcase channel)

/-- `sorted(d.glob("*.json"))` -/
def listMessageFiles (s : FilesystemStore) (channel : Channel) : List (String × MessageFile) :=
  (s.channelDir channel).messages.entries.insertionSort (·.1 ≤ ·.1)

def getDeliveredSet (s : FilesystemStore) (channel : Channel) (agentId : AgentId) : List String :=
  (s.channelDir channel).delivered.getD agentId []

def markDelivered (channel : Channel) (agentId : AgentId) (filenames : List String)
    (s : FilesystemStore) : FilesystemStore :=
  let dir := s.channelDir channel
  let updated := sortedNames (s.getDeliveredSet channel agentId ++ filenames)
  s.setChannelDir channel { dir with delivered := dir.delivered.set agentId updated }

def knownChannels (ls : DirListing) (s : FilesystemStore) : List Channel :=
  (ls.order s.channels.keys).map decodeChannel

/-! ### Operations -/

def send (now : ℚ) (args : SendArgs) (uuid : Uuid) (s : FilesystemStore) : FileReceipt × FilesystemStore :=
  let filename := fileName now uuid
  let messageId := encodeChannel args.channel ++ "/" ++ filename
  let dir := s.channelDir args.channel
  let queueDepth := dir.messages.entries.length
  let seq := queueDepth + 1
  let payload : MessageFile :=
    { messageId, channel := args.channel, sender := args.sender, body := args.body
      correlationId := args.correlationId, sentAt := now, seq, replyTo := args.replyTo }
  ({ messageId, sentAt := now, seq
     backpressure := { queueDepth, threshold, overLimit := threshold ≤ queueDepth } },
    s.setChannelDir args.channel { dir with messages := dir.messages.set filename payload })

/-- `messages` and `to_mark` of `recv`. -/
structure Draining where
  messages : List MessageFile := []
  toMark : Dict Channel (List String) := .empty

/-- The files of one channel, up to `maxMessages` messages in all. -/
def drainFiles (maxMessages : Int) (channel : Channel) (delivered : List String) (d : Draining) :
    List (String × MessageFile) → Draining
  | [] => d
  | (fname, msg) :: files =>
    if maxMessages ≤ d.messages.length then d
    else if fname ∈ delivered then drainFiles maxMessages channel delivered d files
    else
      let marked := d.toMark.getD channel [] ++ [fname]
      drainFiles maxMessages channel delivered
        { messages := d.messages ++ [msg], toMark := d.toMark.set channel marked } files

/-- The sort of the answer, stable like Python's. -/
def sortByTime (messages : List MessageFile) : List MessageFile :=
  messages.insertionSort fun m n => m.channel < n.channel ∨ m.channel = n.channel ∧ m.sentAt ≤ n.sentAt

/-- The delivered files are written after the last channel was read. -/
def recv (ls : DirListing) (agentId : AgentId) (channels : Option (List Channel)) (maxMessages : Int)
    (s : FilesystemStore) : List MessageFile × FilesystemStore :=
  let patterns := s.getPatterns agentId
  let targets := match channels with
    | none => (s.knownChannels ls).filter (matchesAny · patterns)
    | some cs => cs
  let d := targets.foldl (fun d ch =>
    drainFiles maxMessages ch (s.getDeliveredSet ch agentId) d (s.listMessageFiles ch)) {}
  (sortByTime d.messages, d.toMark.entries.foldl (fun s e => s.markDelivered e.1 agentId e.2) s)

def subscribe (ls : DirListing) (agentId : AgentId) (pattern : Pattern) (s : FilesystemStore) :
    List Channel × FilesystemStore :=
  let patterns := s.getPatterns agentId
  let s' := if pattern ∈ patterns then s
    else { s with subscriptions := s.subscriptions.set agentId (patterns ++ [pattern]) }
  ((s.knownChannels ls).filter (Glob.fnmatchcase · pattern), s')

/-- One channel that a removed pattern matches: what the agent has not drained is marked. -/
def clearChannel (agentId : AgentId) (cleared : Nat × FilesystemStore) (channel : Channel) :
    Nat × FilesystemStore :=
  let (pendingCleared, s) := cleared
  let delivered := s.getDeliveredSet channel agentId
  let toMark := ((s.listMessageFiles channel).map (·.1)).filter (· ∉ delivered)
  (pendingCleared + toMark.length, if toMark.isEmpty then s else s.markDelivered channel agentId toMark)

def unsubscribe (ls : DirListing) (agentId : AgentId) (patterns : List Pattern) (s : FilesystemStore) :
    (List Pattern × Nat) × FilesystemStore :=
  let existing := s.getPatterns agentId
  let removed := existing.filter (· ∈ patterns)
  if removed.isEmpty then ((removed, 0), s)
  else
    let s := { s with subscriptions := s.subscriptions.set agentId (existing.filter (· ∉ patterns)) }
    let hit := (s.knownChannels ls).filter (matchesAny · removed)
    let (pendingCleared, s) := hit.foldl (clearChannel agentId) (0, s)
    ((removed, pendingCleared), s)

/-! ### Only `send` adds message files -/

variable {s : FilesystemStore} {c d : Channel} {a : AgentId} {dir : ChannelDir}

theorem channelDir_set : (s.setChannelDir d dir).channelDir c = if c = d then dir else s.channelDir c := by
  unfold channelDir setChannelDir Dict.getD
  rw [Dict.get?_set]
  by_cases h : c = d
  · simp [h]
  · simp [h, encodeChannel_inj]

/-- The message files of every channel are the same. -/
def SameFiles (s s' : FilesystemStore) : Prop :=
  ∀ c, (s'.channelDir c).messages = (s.channelDir c).messages

theorem SameFiles.trans {s₁ s₂ s₃ : FilesystemStore} (h : SameFiles s₁ s₂) (h' : SameFiles s₂ s₃) :
    SameFiles s₁ s₃ := fun c => (h' c).trans (h c)

theorem markDelivered_sameFiles (filenames : List String) : SameFiles s (s.markDelivered d a filenames) := by
  intro c
  rw [markDelivered, channelDir_set]
  split
  · rename_i h
    rw [h]
  · rfl

theorem recv_sameFiles (ls : DirListing) (channels : Option (List Channel)) (max : Int) :
    SameFiles s (s.recv ls a channels max).2 := by
  have hfold : ∀ (marks : List (Channel × List String)) (s : FilesystemStore),
      SameFiles s (marks.foldl (fun s e => s.markDelivered e.1 a e.2) s) := by
    intro marks
    induction marks with
    | nil => exact fun _ _ => rfl
    | cons e marks ih => exact fun s => (markDelivered_sameFiles e.2).trans (ih _)
  exact hfold _ s

theorem subscribe_sameFiles (ls : DirListing) (p : Pattern) : SameFiles s (s.subscribe ls a p).2 := by
  intro c
  unfold subscribe
  dsimp only
  split <;> rfl

section
variable {P : FilesystemStore → Prop} (hmark : ∀ t c names, P t → names ≠ [] →
  (∀ n ∈ names, n ∈ (t.listMessageFiles c).map (·.1)) → P (t.markDelivered c a names))
include hmark

theorem clearChannel_keeps (hs : P s) (k : Nat) (c : Channel) : P (clearChannel a (k, s) c).2 := by
  unfold clearChannel
  dsimp only
  split
  · exact hs
  · rename_i hne
    refine hmark s c _ hs (fun hnil => hne (List.isEmpty_iff.2 hnil)) fun n hn => ?_
    exact List.mem_of_mem_filter hn

theorem clearAll_keeps (hs : P s) (hit : List Channel) (k : Nat) :
    P (hit.foldl (clearChannel a) (k, s)).2 := by
  induction hit generalizing k s with
  | nil => exact hs
  | cons c hit ih => exact ih (clearChannel_keeps hmark hs k c) _

/-- `unsubscribe` keeps what taking the patterns away and marking message files keep. -/
theorem unsubscribe_keeps (hs : P s) (ls : DirListing) (patterns : List Pattern)
    (hpatterns : P { s with
      subscriptions := s.subscriptions.set a ((s.getPatterns a).filter (· ∉ patterns)) }) :
    P (s.unsubscribe ls a patterns).2 := by
  unfold unsubscribe
  dsimp only
  split
  · exact hs
  · exact clearAll_keeps hmark hpatterns _ 0

end

theorem unsubscribe_sameFiles (ls : DirListing) (patterns : List Pattern) :
    SameFiles s (s.unsubscribe ls a patterns).2 :=
  unsubscribe_keeps (P := SameFiles s) (fun _ _ _ ht _ _ => ht.trans (markDelivered_sameFiles _))
    (fun _ => rfl) ls patterns fun _ => rfl

end FilesystemStore

end Sox
