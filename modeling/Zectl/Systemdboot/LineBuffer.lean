import Zectl.Libze.Sample
import Zectl.Systemdboot.ReplaceMatched

/-!
# Lines longer than the buffer

`replace_matched` gives its callback what one `fgets` reads, drops what the callback returns
and does not look at what `fwrite` returns.
-/

namespace Zectl.Systemdboot.LineBuffer

open Zectl.Lib.StateRun Zectl.Lib.Lines Zectl.Util.CString Zectl.Util.Files Zectl.Zfs.System
open Zectl.Zfs.Steps Zectl.Libze.Sample Zectl.Systemdboot.ReplaceMatched

/-- A callback for one line: it fails on some lines and makes one text of each of the others,
and it leaves the files alone. -/
structure Rewrites (fails : CStr → Bool) (rewrite : CStr → CStr) (replaceFn : LineReplaceFn) :
    Prop where
  fail : ∀ line buf s, fails line = true → (replaceFn line buf s).1.1 ≠ .success
  result : ∀ line buf s, fails line = false → (replaceFn line buf s).1 = (.success, rewrite line)
  files : ∀ line buf s, (replaceFn line buf s).2.files = s.files

/-- After a success no line has failed and the new file holds the results for the lines. -/
def NewFileHolds (host : Host) (filename filenameNew : CStr) (replaceFn : LineReplaceFn)
    (fails : CStr → Bool) (rewrite : CStr → CStr) (content : CStr) (s : Sys) : Prop :=
  ∀ t, replaceMatched host filename filenameNew replaceFn s = (.success, t) →
    (∀ line ∈ lines '\n' content, fails line = false) ∧
      t.readFile filenameNew = some ((lines '\n' content).map rewrite).flatten

/-- Both files can be opened. -/
def Opened (host : Host) (filename filenameNew : CStr) (s t : Sys) : Prop :=
  ∃ s1 content, call host (.file (.fopenWrite filenameNew)) s = (0, s1) ∧
    fopenRead host filename s1 = (.ok content, t)

/-- Every text the callback makes is written in its turn. -/
def Written (host : Host) (filenameNew : CStr) (replaceFn : LineReplaceFn) :
    List CStr → CStr → Sys → Prop
  | [], _, _ => True
  | line :: rest, buf, u =>
    let text := (replaceFn line buf u).1.2
    let v := (replaceFn line buf u).2
    (text = [] ∨ host.answer v (.file (.fwrite filenameNew text)) = 0) ∧
      Written host filenameNew replaceFn rest text
        (call host (.file (.fwrite filenameNew text)) v).2

section Loop
variable {host : Host} {filename filenameNew content acc buf : CStr} {replaceFn : LineReplaceFn}
  {fails : CStr → Bool} {rewrite : CStr → CStr} {s t u : Sys}

theorem replaceLines_cons (line : CStr) (rest : List CStr) :
    replaceLines host filenameNew replaceFn (line :: rest) buf u =
      if (replaceFn line buf u).1.1 ≠ .success then
        ((replaceFn line buf u).1.1, (replaceFn line buf u).2)
      else replaceLines host filenameNew replaceFn rest (replaceFn line buf u).1.2
        (call host (.file (.fwrite filenameNew (replaceFn line buf u).1.2))
          (replaceFn line buf u).2).2 := by
  rw [replaceLines, run_bind]
  rcases replaceFn line buf u with ⟨⟨ret, text⟩, v⟩
  dsimp only
  by_cases hret : ret ≠ .success
  · rw [if_pos hret, if_pos hret]
    rfl
  · rw [if_neg hret, if_neg hret]
    rfl

/-- Where no line fails the file holds some of the results in order, and all of them exactly
when they are written. -/
theorem replaceLines_written (hfn : Rewrites fails rewrite replaceFn) (ls : List CStr)
    (hok : ∀ line ∈ ls, fails line = false) (hu : u.readFile filenameNew = some acc) :
    ∃ text, (replaceLines host filenameNew replaceFn ls buf u).2.readFile filenameNew =
        some (acc ++ text) ∧ text.Sublist (ls.map rewrite).flatten ∧
      (text = (ls.map rewrite).flatten ↔ Written host filenameNew replaceFn ls buf u) := by
  induction ls generalizing acc buf u with
  | nil =>
    refine ⟨[], ?_, List.Sublist.refl _, iff_of_true rfl trivial⟩
    rw [List.append_nil]
    exact hu
  | cons line rest ih =>
    have hresult := hfn.result line buf u (hok line List.mem_cons_self)
    have hfiles := hfn.files line buf u
    rcases hrun : replaceFn line buf u with ⟨⟨ret, made⟩, v⟩
    rw [hrun] at hresult hfiles
    cases hresult
    have hv : v.readFile filenameNew = some acc := (readFile_of_files hfiles).trans hu
    have hrest := fun line' hline' => hok line' (List.mem_cons_of_mem line hline')
    rw [replaceLines_cons, hrun, List.map_cons, List.flatten_cons, Written, hrun]
    dsimp only
    rw [if_neg (by simp)]
    by_cases hanswer : rewrite line = [] ∨
        host.answer v (.file (.fwrite filenameNew (rewrite line))) = 0
    · obtain ⟨text, hread, hsub, hiff⟩ :=
        @ih (acc ++ rewrite line) (rewrite line) _ hrest (readFile_fwrite hv hanswer)
      refine ⟨rewrite line ++ text, ?_, hsub.append_left _, ?_⟩
      · rw [hread, List.append_assoc]
      · rw [List.append_cancel_left_eq, hiff, and_iff_right hanswer]
    · obtain ⟨hmade, hrefused⟩ := not_or.mp hanswer
      obtain ⟨text, hread, hsub, -⟩ := @ih acc (rewrite line) _ hrest (readFile_fwrite_refused hv hrefused)
      refine ⟨text, hread, hsub.trans (List.sublist_append_right _ _), ?_⟩
      apply iff_of_false
      · -- a text that was refused is missing
        intro hall
        have hlength := hsub.length_le
        have hpos := List.length_pos_iff.mpr hmade
        rw [hall, List.length_append] at hlength
        omega
      · exact fun hwritten => hanswer hwritten.1

/-- A callback that makes empty texts leaves an empty file, however the lines are cut. -/
theorem replaceLines_empty (hfn : Rewrites fails rewrite replaceFn) (ls : List CStr)
    (hempty : ∀ line ∈ ls, rewrite line = []) (hu : u.readFile filenameNew = some acc) :
    (replaceLines host filenameNew replaceFn ls buf u).2.readFile filenameNew = some acc := by
  induction ls generalizing buf u with
  | nil => exact hu
  | cons line rest ih =>
    have hfiles := hfn.files line buf u
    have hv : (replaceFn line buf u).2.readFile filenameNew = some acc :=
      (readFile_of_files hfiles).trans hu
    rw [replaceLines_cons]
    cases hline : fails line with
    | true =>
      rw [if_pos (hfn.fail line buf u hline)]
      exact hv
    | false =>
      have hresult := hfn.result line buf u hline
      rw [hresult, if_neg (by simp)]
      have hmade := hempty line List.mem_cons_self
      apply ih fun line' hline' => hempty line' (List.mem_cons_of_mem line hline')
      rw [hmade]
      have hwrite := @readFile_fwrite host filenameNew _ [] acc hv (.inl rfl)
      rw [List.append_nil] at hwrite
      exact hwrite

end Loop

/-! ## The new file -/

section File
variable {host : Host} {filename filenameNew content : CStr} {replaceFn : LineReplaceFn}
  {fails : CStr → Bool} {rewrite : CStr → CStr} {s t : Sys}

/-- A success is a run of the loop on what the buffer reads, into an empty file. -/
theorem replaceMatched_run (hne : filename ≠ filenameNew)
    (hcontent : s.readFile filename = some content) (hopened : Opened host filename filenameNew s t) :
    t.readFile filenameNew = some [] ∧
      replaceMatched host filename filenameNew replaceFn s =
        (.success, (replaceLines host filenameNew replaceFn (readLines content) [] t).2) := by
  obtain ⟨s1, content', hwrite, hread⟩ := hopened
  obtain ⟨hold, hfiles⟩ := fopenRead_ok hread
  have hs1 : s1.readFile filename = some content := by
    rw [(call_done hwrite).2]
    exact (readFile_putFile_of_ne hne).trans hcontent
  obtain rfl : content' = content := Option.some.inj (hold.symm.trans hs1)
  constructor
  · rw [readFile_of_files hfiles, (call_done hwrite).2]
    exact readFile_putFile_self
  · rw [replaceMatched, run_bind, hwrite, if_neg (by simp), run_bind, hread]
    rfl

theorem opened_of_success
    (hr : replaceMatched host filename filenameNew replaceFn s = (.success, t)) :
    ∃ u, Opened host filename filenameNew s u := by
  unfold replaceMatched at hr
  obtain ⟨code, s1, hwrite, hr⟩ := bind_run hr
  split at hr
  · cases hr
  rename_i hcode
  rw [not_not.mp hcode] at hwrite
  obtain ⟨read, s2, hread, hr⟩ := bind_run hr
  cases read with
  | error errno => cases hr
  | ok content => exact ⟨s2, s1, content, hwrite, hread⟩

/-- The callback with given failures and results. -/
def callback (fails : CStr → Bool) (rewrite : CStr → CStr) : LineReplaceFn :=
  fun line buf => pure (if fails line then (.unknown, buf) else (.success, rewrite line))

theorem callback_rewrites (fails : CStr → Bool) (rewrite : CStr → CStr) :
    Rewrites fails rewrite (callback fails rewrite) where
  fail line buf s hline := by simp [callback, hline]
  result line buf s hline := by simp [callback, hline]
  files _ _ _ := rfl

/-- A line that does not fit the buffer is never given to the callback. -/
theorem long_not_read {line : CStr} (hlong : libzeMaxPathLen ≤ line.length) :
    line ∉ readLines content := by
  intro hmem
  have hlt := length_lt_of_mem_reads (by decide) hmem
  omega

/-- Whatever the callback makes of a line, the new file holds that for the whole lines exactly
when every line fits the buffer, the callback fails on none and what it makes is written. -/
theorem newFileHolds_iff (hne : filename ≠ filenameNew)
    (hcontent : s.readFile filename = some content) (fails : CStr → Bool) :
    (∀ rewrite replaceFn, Rewrites fails rewrite replaceFn →
      NewFileHolds host filename filenameNew replaceFn fails rewrite content s) ↔
    ∀ t, Opened host filename filenameNew s t →
      (∀ line ∈ lines '\n' content, line.length < libzeMaxPathLen ∧ fails line = false) ∧
      ∀ rewrite replaceFn, Rewrites fails rewrite replaceFn →
        Written host filenameNew replaceFn (lines '\n' content) [] t := by
  constructor
  · intro hall t ht
    -- the result for a line that is never read is missing
    have hfit : ∀ line ∈ lines '\n' content, line.length < libzeMaxPathLen ∧
        fails line = false := by
      intro line hline
      let rewrite : CStr → CStr := fun l => if l = line then ['x'] else []
      have hfn := callback_rewrites fails rewrite
      obtain ⟨hempty, hrun⟩ := replaceMatched_run hne hcontent ht
      obtain ⟨hok, hread⟩ := hall rewrite _ hfn _ hrun
      refine ⟨?_, hok line hline⟩
      by_contra hlong
      have hnone : ∀ l ∈ readLines content, rewrite l = [] := by
        intro l hl
        apply if_neg
        rintro rfl
        exact long_not_read (Nat.le_of_not_lt hlong) hl
      rw [replaceLines_empty hfn _ hnone hempty] at hread
      have hmem : 'x' ∈ ((lines '\n' content).map rewrite).flatten := by
        apply List.mem_flatten.mpr
        refine ⟨rewrite line, List.mem_map_of_mem hline, ?_⟩
        simp [rewrite]
      rw [← Option.some.inj hread] at hmem
      cases hmem
    refine ⟨hfit, ?_⟩
    intro rewrite replaceFn hfn
    obtain ⟨hempty, hrun⟩ := replaceMatched_run hne hcontent ht
    obtain ⟨-, hread⟩ := hall rewrite replaceFn hfn _ hrun
    have hlines : readLines content = lines '\n' content :=
      reads_eq_lines fun l hl => (hfit l hl).1
    obtain ⟨text, htext, -, hiff⟩ := @replaceLines_written host filenameNew [] [] replaceFn fails
      rewrite t hfn _ (fun l hl => (hfit l hl).2) hempty
    apply hiff.mp
    rw [hlines, htext] at hread
    exact Option.some.inj hread
  · intro hcond rewrite replaceFn hfn t' hsuccess
    obtain ⟨t, ht⟩ := opened_of_success hsuccess
    obtain ⟨hfit, hwritten⟩ := hcond t ht
    obtain ⟨hempty, hrun⟩ := replaceMatched_run hne hcontent ht
    have hlines : readLines content = lines '\n' content :=
      reads_eq_lines fun l hl => (hfit l hl).1
    obtain ⟨text, htext, -, hiff⟩ := @replaceLines_written host filenameNew [] [] replaceFn fails
      rewrite t hfn _ (fun l hl => (hfit l hl).2) hempty
    rw [hlines] at hrun
    refine ⟨fun l hl => (hfit l hl).2, ?_⟩
    rw [← (Prod.mk.inj (hrun.symm.trans hsuccess)).2, htext,
      hiff.mpr (hwritten rewrite replaceFn hfn)]
    rfl

end File

/-- One line of 300 characters. -/
def longLine : CStr := List.replicate 300 'x'

theorem newFileHolds_iff_long :
    (∀ rewrite replaceFn, Rewrites (fun _ => false) rewrite replaceFn →
      NewFileHolds allowing "/loader.conf" "/new" replaceFn (fun _ => false) rewrite longLine
        (sampleFile longLine)) ↔
    ∀ t, Opened allowing "/loader.conf" "/new" (sampleFile longLine) t →
      (∀ line ∈ lines '\n' longLine, line.length < libzeMaxPathLen ∧ false = false) ∧
      ∀ rewrite replaceFn, Rewrites (fun _ => false) rewrite replaceFn →
        Written allowing "/new" replaceFn (lines '\n' longLine) [] t :=
  newFileHolds_iff (by decide) rfl fun _ => false

/-- The callback is given the line in two pieces. -/
theorem rewritten_in_pieces :
    Rewrites (fun _ => false) (fun _ => ['y']) (callback (fun _ => false) fun _ => ['y']) ∧
    ¬ NewFileHolds allowing "/loader.conf" "/new" (callback (fun _ => false) fun _ => ['y'])
      (fun _ => false) (fun _ => ['y']) longLine (sampleFile longLine) := by
  refine ⟨callback_rewrites _ _, fun hholds => ?_⟩
  obtain ⟨-, hread⟩ := hholds _ (run_eq_of_fst (by decide +kernel))
  have hnew : ((lines '\n' longLine).map fun _ => ['y']).flatten = ['y'] := by decide +kernel
  have hold : (replaceMatched allowing "/loader.conf" "/new"
      (callback (fun _ => false) fun _ => ['y']) (sampleFile longLine)).2.readFile "/new" =
        some ['y', 'y'] := by decide +kernel
  rw [hold, hnew] at hread
  cases hread

end Zectl.Systemdboot.LineBuffer
