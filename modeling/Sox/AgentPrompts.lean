import Mathlib.Data.List.DropRight
import Mathlib.Data.List.Infix

/-!
# The bootstrap line in agent prompts

`_insert_bootstrap` on the agents' files. They are read and written as text: on the way in every line
end becomes a newline, and none is turned back. So a file whose lines end in carriage returns is
rewritten throughout, and keeps its text exactly when it has none before its last lines end
(`withBootstrap_keeps_iff`). A file that is not in UTF-8 cannot be read, and ends the loop.
-/

namespace Sox

namespace ClaudeCode

abbrev Text := List Char

def bootstrapLine : Text :=
  ("For coordination with other agents (clarification, broadcasts, peer questions), " ++
    "load the `inter-agent-channels` skill when blocked, broadcasting, or seeking " ++ "peer input.").toList

def bootstrapSentinel : Text := "load the `inter-agent-channels` skill".toList

/-- `read_text`: `\r\n` and `\r` are read as `\n`. -/
def readText : Text → Text
  | '\r' :: '\n' :: rest => '\n' :: readText rest
  | '\r' :: rest => '\n' :: readText rest
  | c :: rest => c :: readText rest
  | [] => []

/-- The text of a file after `_insert_bootstrap`. -/
def withBootstrap (text : Text) : Text :=
  let content := readText text
  if bootstrapSentinel <:+: content then text
  else
    let separator := if content ≠ [] ∧ ¬['\n', '\n'] <:+ content then ['\n', '\n'] else ['\n']
    content.rdropWhile (· = '\n') ++ separator ++ bootstrapLine ++ ['\n']

/-- What a file holds: a text in UTF-8, or other bytes. -/
inductive PromptFile where
  | utf8 (text : Text)
  | bytes (bytes : List UInt8)

/-- The files after `_insert_bootstrap`; `read_text` raises at bytes that are not UTF-8. -/
def insertBootstrap : List (String × PromptFile) → Option (List (String × PromptFile))
  | [] => some []
  | (_, .bytes _) :: _ => none
  | (name, .utf8 text) :: files => do
    let rest ← insertBootstrap files
    some ((name, .utf8 (withBootstrap text)) :: rest)

def HasBootstrap (text : Text) : Prop := bootstrapSentinel <:+: readText text

/-- The text up to the newlines at its end. -/
def body (text : Text) : Text := text.rdropWhile fun c => c = '\n' ∨ c = '\r'

variable {text t u : Text} {c : Char}

theorem readText_cons (hc : c ≠ '\r') : readText (c :: t) = c :: readText t := by
  rw [readText]
  · rintro _ rfl
    exact absurd rfl hc
  · rintro rfl
    exact absurd rfl hc

theorem carriage_notMem_readText (text : Text) : '\r' ∉ readText text := by
  fun_induction readText text with
  | case1 rest ih => simpa using ih
  | case2 rest _ ih => simpa using ih
  | case3 c rest _ hc ih =>
    rw [List.mem_cons, not_or]
    exact ⟨fun h => hc h.symm, ih⟩
  | case4 => exact List.not_mem_nil

theorem readText_append (ht : '\r' ∉ t) : readText (t ++ u) = t ++ readText u := by
  induction t with
  | nil => rfl
  | cons c t ih =>
    rw [List.mem_cons, not_or] at ht
    rw [List.cons_append, readText_cons (Ne.symm ht.1), ih ht.2, List.cons_append]

theorem readText_of_notMem (ht : '\r' ∉ t) : readText t = t := by
  have h := readText_append (u := []) ht
  rwa [List.append_nil, show readText [] = [] from rfl, List.append_nil] at h

/-- Line ends are read as newlines. -/
theorem readText_lineEnds (text : Text) (h : ∀ c ∈ text, c = '\n' ∨ c = '\r') :
    ∀ c ∈ readText text, c = '\n' := by
  fun_induction readText text with
  | case1 rest ih =>
    intro c hc
    rcases List.mem_cons.1 hc with rfl | hc
    · rfl
    · exact ih (fun d hd => h d (List.mem_cons_of_mem _ (List.mem_cons_of_mem _ hd))) c hc
  | case2 rest _ ih =>
    intro c hc
    rcases List.mem_cons.1 hc with rfl | hc
    · rfl
    · exact ih (fun d hd => h d (List.mem_cons_of_mem _ hd)) c hc
  | case3 d rest _ hd ih =>
    intro c hc
    rcases List.mem_cons.1 hc with rfl | hc
    · exact (h c List.mem_cons_self).resolve_right hd
    · exact ih (fun e he => h e (List.mem_cons_of_mem _ he)) c hc
  | case4 => exact fun c hc => absurd hc List.not_mem_nil

theorem sentinel_infix_line : bootstrapSentinel <:+: bootstrapLine := by decide +kernel

theorem carriage_notMem_line : '\r' ∉ bootstrapLine := by decide +kernel

theorem carriage_notMem_withBootstrap (h : ¬HasBootstrap text) : '\r' ∉ withBootstrap text := by
  have hcontent : '\r' ∉ (readText text).rdropWhile (· = '\n') := fun hmem =>
    carriage_notMem_readText text ((List.rdropWhile_prefix _ _).subset hmem)
  rw [withBootstrap]
  simp only [HasBootstrap] at h
  simp only [h, ↓reduceIte, List.mem_append, not_or]
  refine ⟨⟨⟨hcontent, ?_⟩, carriage_notMem_line⟩, by decide⟩
  split <;> decide

theorem hasBootstrap_withBootstrap (text : Text) : HasBootstrap (withBootstrap text) := by
  by_cases h : HasBootstrap text
  · have hsame : withBootstrap text = text := if_pos h
    rw [hsame]
    exact h
  · rw [HasBootstrap, readText_of_notMem (carriage_notMem_withBootstrap h), withBootstrap]
    simp only [HasBootstrap] at h
    simp only [h, ↓reduceIte]
    exact sentinel_infix_line.trans (List.infix_append _ _ _)

/-- A second insertion changes nothing. -/
theorem withBootstrap_withBootstrap (text : Text) :
    withBootstrap (withBootstrap text) = withBootstrap text :=
  if_pos (hasBootstrap_withBootstrap text)

/-- The body, and what follows it. -/
theorem body_append (text : Text) :
    ∃ ends, text = body text ++ ends ∧ ∀ c ∈ ends, c = '\n' ∨ c = '\r' := by
  refine ⟨text.rtakeWhile fun c => c = '\n' ∨ c = '\r', (List.rdropWhile_append_rtakeWhile ..).symm, ?_⟩
  intro c hc
  simpa using List.mem_rtakeWhile_imp hc

theorem rdropWhile_body_append {ends : Text} (h : ∀ c ∈ ends, c = '\n') :
    (body text ++ ends).rdropWhile (· = '\n') = body text := by
  induction ends using List.reverseRecOn with
  | nil =>
    rw [List.append_nil, List.rdropWhile_eq_self_iff]
    intro hne hlast
    refine List.rdropWhile_last_not _ _ hne ?_
    simp only [decide_eq_true_eq] at hlast ⊢
    exact .inl hlast
  | append_singleton ends c ih =>
    rw [← List.append_assoc, List.rdropWhile_concat_pos _ _ _ (by simpa using h c (by simp))]
    exact ih fun d hd => h d (List.mem_append_left _ hd)

/-- The file still begins with its text, up to the newlines at the end, unless the line is inserted
behind other line ends than newlines. -/
theorem withBootstrap_keeps_iff (text : Text) :
    body text <+: withBootstrap text ↔ HasBootstrap text ∨ '\r' ∉ body text := by
  by_cases h : HasBootstrap text
  · have hsame : withBootstrap text = text := if_pos h
    rw [hsame]
    exact iff_of_true (List.rdropWhile_prefix _ _) (.inl h)
  · rw [or_iff_right h]
    constructor
    · intro hbegins hmem
      exact carriage_notMem_withBootstrap h (hbegins.subset hmem)
    · intro hbody
      obtain ⟨ends, htext, hends⟩ := body_append text
      have hcontent : (readText text).rdropWhile (· = '\n') = body text := by
        rw [htext, readText_append hbody, ← htext]
        exact rdropWhile_body_append (readText_lineEnds ends hends)
      rw [withBootstrap]
      simp only [HasBootstrap] at h
      simp only [h, ↓reduceIte, hcontent, List.append_assoc]
      exact List.prefix_append ..

/-- The file has the line afterwards, and begins with its text up to the newlines at the end. -/
def Bootstrapped (before after : PromptFile) : Prop :=
  ∃ text text', before = .utf8 text ∧ after = .utf8 text' ∧ HasBootstrap text' ∧ body text <+: text'

/-- A text to which the line can be added, or that has it. -/
def Appendable (file : PromptFile) : Prop := ∃ text, file = .utf8 text ∧ (HasBootstrap text ∨ '\r' ∉ body text)

theorem bootstrapped_iff : Bootstrapped (.utf8 text) (.utf8 (withBootstrap text)) ↔ Appendable (.utf8 text) := by
  constructor
  · rintro ⟨_, _, h, h', -, hkeeps⟩
    cases h
    cases h'
    exact ⟨text, rfl, (withBootstrap_keeps_iff text).1 hkeeps⟩
  · rintro ⟨_, h, hkeeps⟩
    cases h
    exact ⟨text, _, rfl, rfl, hasBootstrap_withBootstrap text, (withBootstrap_keeps_iff text).2 hkeeps⟩

/-- The loop comes to its end, and the files are as they should be, if and only if each is appendable. -/
theorem insertBootstrap_iff (files : List (String × PromptFile)) :
    (∃ files', insertBootstrap files = some files' ∧
      List.Forall₂ (fun file file' => file'.1 = file.1 ∧ Bootstrapped file.2 file'.2) files files') ↔
      ∀ file ∈ files, Appendable file.2 := by
  induction files with
  | nil => simp [insertBootstrap]
  | cons file files ih =>
    obtain ⟨name, bytes | text⟩ := file
    · rw [List.forall_mem_cons, ← ih]
      constructor
      · rintro ⟨_, hinsert, hfiles⟩
        obtain ⟨rest, hrest, hcons⟩ := Option.bind_eq_some_iff.1 hinsert
        cases hcons
        obtain ⟨hfile, hfiles⟩ := List.forall₂_cons.1 hfiles
        exact ⟨bootstrapped_iff.1 hfile.2, rest, hrest, hfiles⟩
      · rintro ⟨hfile, rest, hrest, hfiles⟩
        refine ⟨(name, .utf8 (withBootstrap _)) :: rest, ?_, .cons ⟨rfl, bootstrapped_iff.2 hfile⟩ hfiles⟩
        rw [insertBootstrap, hrest]
        rfl
    · refine iff_of_false ?_ fun h => ?_
      · rintro ⟨_, hinsert, -⟩
        cases hinsert
      · obtain ⟨_, hfile, -⟩ := h _ List.mem_cons_self
        cases hfile

/-- A second run of the loop changes nothing. -/
theorem insertBootstrap_insertBootstrap {files files' : List (String × PromptFile)}
    (h : insertBootstrap files = some files') : insertBootstrap files' = some files' := by
  induction files generalizing files' with
  | nil =>
    cases h
    rfl
  | cons file files ih =>
    obtain ⟨name, text | bytes⟩ := file
    · obtain ⟨rest, hrest, hcons⟩ := Option.bind_eq_some_iff.1 h
      cases hcons
      rw [insertBootstrap, ih hrest, withBootstrap_withBootstrap]
      rfl
    · cases h

end ClaudeCode

end Sox
