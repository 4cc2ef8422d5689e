import Mathlib.Data.List.Destutter
import Sox.Lib.Paging

/-!
# Working through a growing log with a saved cursor

Somebody handles the entries of a log in the order of their keys and saves the key of each entry behind
it. The cursor that is saved may be one entry behind (`Unsaved`), and after an interruption he goes on
from there, so that an entry may be handled again; but only right after it was handled, and none is left
out: without such repetitions the entries that were handled are the first ones behind the key he started
from. This survives growth of the log (`Followed.grow`) and every further entry (`Resumes.handle`).
-/

namespace Cursor

open Paging

section Repetitions
variable {β : Type*} [DecidableEq β] {a b : β} {l : List β}

theorem destutter'_concat (a b : β) (l : List β) : (l ++ [b]).destutter' (· ≠ ·) a =
    if (a :: l).getLast? = some b then l.destutter' (· ≠ ·) a else l.destutter' (· ≠ ·) a ++ [b] := by
  induction l generalizing a with
  | nil =>
    rw [List.nil_append, List.destutter'_singleton, List.getLast?_singleton, List.destutter'_nil]
    by_cases h : a = b
    · simp [h]
    · simp [h]
  | cons x l ih =>
    rw [List.cons_append, List.getLast?_cons_cons]
    by_cases h : a = x
    · subst h
      rw [List.destutter'_cons_neg _ (by simp), List.destutter'_cons_neg _ (by simp)]
      exact ih a
    · rw [List.destutter'_cons_pos _ h, List.destutter'_cons_pos _ h, ih x]
      split
      · rfl
      · rfl

theorem destutter_concat (b : β) (l : List β) : (l ++ [b]).destutter (· ≠ ·) =
    if l.getLast? = some b then l.destutter (· ≠ ·) else l.destutter (· ≠ ·) ++ [b] := by
  cases l with
  | nil => rfl
  | cons a l => exact destutter'_concat a b l

theorem getLast?_destutter (l : List β) : (l.destutter (· ≠ ·)).getLast? = l.getLast? := by
  induction l using List.reverseRecOn with
  | nil => rfl
  | append_singleton l b ih =>
    rw [destutter_concat, List.getLast?_concat]
    split
    · rename_i h
      rw [ih, h]
    · rw [List.getLast?_concat]

end Repetitions

variable {α : Type*} {key : α → Nat} {log log' handled done page : List α} {start k since : Int} {x : α}

/-- The key of the last of the entries. -/
def mark (key : α → Nat) (start : Int) (done : List α) : Int := done.getLast?.elim start fun x => key x

/-- Without repetitions, these entries were handled. -/
def Ran (key : α → Nat) (handled done : List α) : Prop :=
  (handled.map key).destutter (· ≠ ·) = done.map key ∧ ∀ x ∈ handled, x ∈ done

/-- The cursor is at the last entry that was handled. -/
def Saved (key : α → Nat) (log : List α) (start k : Int) (handled : List α) : Prop :=
  ∃ done, done <+: range key (start + 1) none log ∧ Ran key handled done ∧ k = mark key start done

/-- The cursor is one entry behind. -/
def Unsaved (key : α → Nat) (log : List α) (start k : Int) (handled : List α) : Prop :=
  ∃ done x, done ++ [x] <+: range key (start + 1) none log ∧ Ran key handled (done ++ [x]) ∧ k = mark key start done

def Followed (key : α → Nat) (log : List α) (start k : Int) (handled : List α) : Prop :=
  Saved key log start k handled ∨ Unsaved key log start k handled

/-- The entries from `since` on are the next to be handled: those behind the cursor, or the last one again. -/
def Resumes (key : α → Nat) (log : List α) (start k : Int) (handled : List α) (since : Int) : Prop :=
  since = k + 1 ∨ since = k ∧ start < k ∧ Saved key log start k handled

/-! ### What was handled -/

theorem Ran.getLast? (h : Ran key handled done) : (handled.map key).getLast? = (done.map key).getLast? := by
  rw [← getLast?_destutter, h.1]

theorem Ran.again (h : Ran key handled done) (hx : done.getLast? = some x) : Ran key (handled ++ [x]) done := by
  have hlast : (handled.map key).getLast? = some (key x) := by
    rw [h.getLast?, List.getLast?_map, hx]
    rfl
  refine ⟨?_, fun y hy => ?_⟩
  · rw [List.map_append, List.map_singleton, destutter_concat, if_pos hlast, h.1]
  · rcases List.mem_append.1 hy with hy | hy
    · exact h.2 y hy
    · rw [List.mem_singleton.1 hy]
      exact List.mem_of_getLast? hx

theorem Ran.next (h : Ran key handled done) (hx : ∀ y ∈ done, key y < key x) :
    Ran key (handled ++ [x]) (done ++ [x]) := by
  have hlast : (handled.map key).getLast? ≠ some (key x) := by
    rw [h.getLast?]
    intro heq
    obtain ⟨y, hy, hkey⟩ := List.mem_map.1 (List.mem_of_getLast? heq)
    have := hx y hy
    omega
  refine ⟨?_, fun y hy => ?_⟩
  · rw [List.map_append, List.map_append, List.map_singleton, destutter_concat, if_neg hlast, h.1]
  · rcases List.mem_append.1 hy with hy | hy
    · exact List.mem_append_left _ (h.2 y hy)
    · exact List.mem_append_right _ hy

/-! ### The log behind a cursor -/

theorem mark_concat : mark key start (done ++ [x]) = key x := by rw [mark, List.getLast?_concat]; rfl

/-- Behind the last of the first entries come the others. -/
theorem range_mark {rest : List α} (hasc : log.Pairwise (key · < key ·))
    (h : range key (start + 1) none log = done ++ rest) : range key (mark key start done + 1) none log = rest := by
  cases hlast : done.getLast? with
  | none =>
    rw [List.getLast?_eq_none_iff.1 hlast, List.nil_append] at h
    rw [mark, hlast]
    exact h
  | some x =>
    rw [mark, hlast]
    exact range_next hasc h hlast

/-- An entry comes before those with greater keys. -/
theorem range_self (hasc : log.Pairwise (key · < key ·)) (hx : x ∈ log) :
    range key (key x) none log = x :: range key (key x + 1) none log := by
  obtain ⟨front, back, rfl⟩ := List.append_of_mem hx
  obtain ⟨-, hback, hcross⟩ := List.pairwise_append.1 hasc
  obtain ⟨hlater, -⟩ := List.pairwise_cons.1 hback
  have hfront (n : Nat) (hn : key x ≤ n) : front.filter (inRange key n none) = [] := by
    refine List.filter_eq_nil_iff.2 fun y hy => ?_
    have hlt := hcross y hy x List.mem_cons_self
    rw [inRange_iff]
    omega
  have hall (n : Nat) (hn : n ≤ key x + 1) : back.filter (inRange key n none) = back := by
    refine List.filter_eq_self.2 fun y hy => inRange_iff.2 ⟨?_, by simp⟩
    have hlt := hlater y hy
    omega
  have hin : inRange key (key x) none x = true := inRange_iff.2 ⟨Int.le_refl _, by simp⟩
  have hout : ¬ inRange key ((key x + 1 : Nat) : Int) none x = true := by
    rw [inRange_iff]
    omega
  have hself : range key (key x) none (front ++ x :: back) = x :: back := by
    rw [range, List.filter_append, hfront _ le_rfl, List.nil_append, List.filter_cons_of_pos hin,
      hall _ (Nat.le_succ _)]
  have hnext : range key ((key x + 1 : Nat) : Int) none (front ++ x :: back) = back := by
    rw [range, List.filter_append, hfront _ (Nat.le_succ _), List.nil_append, List.filter_cons_of_neg hout,
      hall _ le_rfl]
  rw [hself]
  exact congrArg _ hnext.symm

/-- Behind the first entry of a page comes the rest of it. -/
theorem range_tail (hasc : log.Pairwise (key · < key ·)) (h : x :: page <+: range key since none log) :
    page <+: range key (key x + 1) none log := by
  obtain ⟨rest, hrest⟩ := h
  have hsplit : range key since none log = [x] ++ (page ++ rest) := hrest.symm
  have hnext := range_next hasc hsplit (x := x) List.getLast?_singleton
  exact ⟨rest, hnext.symm⟩

/-! ### Steps -/

theorem Saved.init : Saved key log k k [] := ⟨[], List.nil_prefix, ⟨rfl, fun _ h => absurd h List.not_mem_nil⟩, rfl⟩

theorem Saved.grow (h : Saved key log start k handled) (hlog : log <+: log') : Saved key log' start k handled := by
  obtain ⟨done, hdone, hran, hk⟩ := h
  exact ⟨done, hdone.trans (range_of_isPrefix hlog), hran, hk⟩

theorem Followed.grow (h : Followed key log start k handled) (hlog : log <+: log') :
    Followed key log' start k handled := by
  rcases h with h | ⟨done, x, hdone, hran, hk⟩
  · exact .inl (h.grow hlog)
  · exact .inr ⟨done, x, hdone.trans (range_of_isPrefix hlog), hran, hk⟩

theorem Resumes.grow (h : Resumes key log start k handled since) (hlog : log <+: log') :
    Resumes key log' start k handled since := by
  rcases h with h | ⟨h, hlt, hsaved⟩
  · exact .inl h
  · exact .inr ⟨h, hlt, hsaved.grow hlog⟩

theorem Saved.resumes (h : Saved key log start k handled) (hlt : start < k) : Resumes key log start k handled k :=
  .inr ⟨rfl, hlt, h⟩

theorem Resumes.cursor_le (h : Resumes key log start k handled since) (hx : x :: page <+: range key since none log) :
    k ≤ key x := by
  have hin := (mem_range.1 (hx.subset List.mem_cons_self)).2.1
  rcases h with rfl | ⟨rfl, -, -⟩
  · omega
  · exact hin

/-- Handling the entry behind the cursor. -/
theorem Followed.next (h : Followed key log start k handled) (hasc : log.Pairwise (key · < key ·))
    (hx : x :: page <+: range key (k + 1) none log) :
    Unsaved key log start k (handled ++ [x]) ∧ Saved key log start (key x) (handled ++ [x]) ∧ start < key x := by
  obtain ⟨more, hmore⟩ := hx
  suffices ∃ done, done ++ [x] <+: range key (start + 1) none log ∧ Ran key (handled ++ [x]) (done ++ [x]) ∧
      k = mark key start done by
    obtain ⟨done, hdone, hran, hk⟩ := this
    have hin : x ∈ range key (start + 1) none log := hdone.subset (List.mem_append_right _ (List.mem_singleton_self x))
    refine ⟨⟨done, x, hdone, hran, hk⟩, ⟨done ++ [x], hdone, hran, mark_concat.symm⟩, ?_⟩
    have := (mem_range.1 hin).2.1
    omega
  rcases h with ⟨done, ⟨rest, hrest⟩, hran, rfl⟩ | ⟨done, y, ⟨rest, hrest⟩, hran, rfl⟩
  · have hbehind : rest = x :: page ++ more := by rw [← range_mark hasc hrest.symm, hmore]
    have hsplit : range key (start + 1) none log = done ++ [x] ++ (page ++ more) := by
      rw [← hrest, hbehind, List.append_assoc]
      rfl
    have hboth : (done ++ [x] ++ (page ++ more)).Pairwise (key · < key ·) := hsplit ▸ hasc.filter _
    have hlower : ∀ y ∈ done, key y < key x := fun y hy =>
      (List.pairwise_append.1 (List.pairwise_append.1 hboth).1).2.2 y hy x (List.mem_singleton_self x)
    exact ⟨done, ⟨_, hsplit.symm⟩, hran.next hlower, rfl⟩
  · have hbehind : [y] ++ rest = x :: page ++ more := by
      rw [List.append_assoc] at hrest
      rw [← range_mark hasc hrest.symm, hmore]
    obtain rfl : y = x := (List.cons.inj hbehind).1
    exact ⟨done, ⟨rest, hrest⟩, hran.again List.getLast?_concat, rfl⟩

/-- Handling the entry at the cursor again. -/
theorem Saved.again (h : Saved key log start k handled) (hasc : log.Pairwise (key · < key ·)) (hlt : start < k)
    (hx : x :: page <+: range key k none log) : Saved key log start k (handled ++ [x]) ∧ k = key x := by
  obtain ⟨done, hdone, hran, hk⟩ := h
  obtain ⟨y, hy⟩ : ∃ y, done.getLast? = some y := by
    cases hlast : done.getLast? with
    | none =>
      rw [mark, hlast, Option.elim_none] at hk
      omega
    | some y => exact ⟨y, rfl⟩
  have hkey : k = key y := by rw [hk, mark, hy, Option.elim_some]
  have hlog : y ∈ log := (mem_range.1 (hdone.subset (List.mem_of_getLast? hy))).1
  rw [hkey, range_self hasc hlog] at hx
  obtain rfl : x = y := (List.cons_prefix_cons.1 hx).1
  exact ⟨⟨done, hdone, hran.again hy, hk⟩, hkey⟩

/-- Whatever happens next, the cursor is not further than this entry, and saving it is right. -/
theorem Resumes.handle (h : Resumes key log start k handled since) (hfollowed : Followed key log start k handled)
    (hasc : log.Pairwise (key · < key ·)) (hx : x :: page <+: range key since none log) :
    Followed key log start k (handled ++ [x]) ∧ Saved key log start (key x) (handled ++ [x]) ∧ start < key x := by
  rcases h with rfl | ⟨rfl, hlt, hsaved⟩
  · obtain ⟨hunsaved, hnext⟩ := hfollowed.next hasc hx
    exact ⟨.inr hunsaved, hnext⟩
  · obtain ⟨hagain, hkey⟩ := hsaved.again hasc hlt hx
    rw [hkey] at hagain hlt
    exact ⟨.inl (hkey ▸ hagain), hagain, hlt⟩

/-! ### What follows -/

theorem Followed.split (h : Followed key log start k handled) : ∃ done more,
    done ++ more <+: range key (start + 1) none log ∧ Ran key handled (done ++ more) ∧ k = mark key start done := by
  rcases h with ⟨done, hdone, hran, hk⟩ | ⟨done, x, hdone, hran, hk⟩
  · refine ⟨done, [], ?_, ?_, hk⟩
    · rwa [List.append_nil]
    · rwa [List.append_nil]
  · exact ⟨done, [x], hdone, hran, hk⟩

theorem Followed.start_le (h : Followed key log start k handled) : start ≤ k := by
  obtain ⟨done, more, hdone, -, rfl⟩ := h.split
  cases hlast : done.getLast? with
  | none =>
    exact Int.le_of_eq (by rw [mark, hlast, Option.elim_none])
  | some x =>
    have hx : x ∈ done ++ more := List.mem_append_left _ (List.mem_of_getLast? hlast)
    have hin := (mem_range.1 (hdone.subset hx)).2.1
    rw [mark, hlast, Option.elim_some]
    omega

/-- Entries with one key are one entry. -/
theorem eq_of_key (hasc : log.Pairwise (key · < key ·)) {y : α} (hx : x ∈ log) (hy : y ∈ log)
    (h : key x = key y) : x = y := by
  have hkeys : (log.map key).Nodup := by
    refine List.pairwise_map.2 (hasc.imp fun h => ?_)
    omega
  exact List.inj_on_of_nodup_map hkeys hx hy h

/-- Every entry behind the start and up to the cursor was handled. -/
theorem Followed.covers (h : Followed key log start k handled) (hasc : log.Pairwise (key · < key ·)) (hx : x ∈ log)
    (hlt : start < key x) (hle : key x ≤ k) : x ∈ handled := by
  obtain ⟨done, more, ⟨rest, hrest⟩, hran, rfl⟩ := h.split
  have hin : x ∈ done ++ (more ++ rest) := by
    rw [← List.append_assoc, hrest]
    exact mem_range.2 ⟨hx, by omega, by simp⟩
  have hdone : x ∈ done ++ more := by
    rcases List.mem_append.1 hin with h | h
    · exact List.mem_append_left _ h
    · rw [List.append_assoc] at hrest
      rw [← range_mark hasc hrest.symm] at h
      have := (mem_range.1 h).2.1
      omega
  have hkey : key x ∈ (handled.map key).destutter (· ≠ ·) := by
    rw [hran.1]
    exact List.mem_map_of_mem hdone
  obtain ⟨y, hy, heq⟩ := List.mem_map.1 ((List.destutter_sublist _ _).subset hkey)
  have hy' : y ∈ range key (start + 1) none log := by
    rw [← hrest]
    exact List.mem_append_left _ (hran.2 y hy)
  rwa [← eq_of_key hasc (mem_range.1 hy').1 hx heq]

end Cursor
