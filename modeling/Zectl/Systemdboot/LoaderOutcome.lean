import Zectl.Systemdboot.Loader
import Mathlib.Data.List.Forall2

/-!
# What an activation makes of `loader.conf`

A directive keeps its text up to the value and gets the new entry, every other line stays
as it is. The code does that exactly when on every line its character class stops where
the value begins, and all that it makes is written.
-/

namespace Zectl.Systemdboot.LoaderOutcome

open Zectl.Lib.StateRun Zectl.Lib.Lines Zectl.Util.CString Zectl.Util.Files Zectl.Util.Replace
open Zectl.Zfs.System Zectl.Libze.Init Zectl.Libze.Sample Zectl.Systemdboot.ReplaceMatched
open Zectl.Systemdboot.Loader
open Zectl.Systemdboot.LineBuffer (Opened Written replaceLines_cons)

/-- The text of a `default` directive up to its value, and the value. -/
def directive (line : CStr) : Option (CStr × CStr) :=
  match afterDefault line with
  | none => none
  | some (head, rest) =>
    let value := (rest.dropWhile isBlank).takeWhile (· ≠ '\n')
    if rest.takeWhile isBlank ≠ [] ∧ value ≠ [] then some (head ++ rest.takeWhile isBlank, value)
    else none

/-- A line of the old file and the line of the new one. -/
def Updated (beName line new : CStr) : Prop :=
  match directive line with
  | none => new = line
  | some (before, _) => ∃ stop : CStr, new = before ++ entryName beName ++ stop ∧
      (stop = ("\n" : CStr) ∨ stop = [] ∧ '\n' ∉ line)

/-- What no name of a dataset has. -/
structure NameText (beName : CStr) : Prop where
  backslash : '\\' ∉ beName
  newline : '\n' ∉ beName
  zero : '\x00' ∉ beName

/-- The class stops where the value begins and the new line fits; a line that is no directive
does not begin with `default`, or already is what the code makes of it. -/
def Safe (beName line : CStr) : Prop :=
  match afterDefault (cString line) with
  | none => '\x00' ∉ line
  | some (head, rest) => (newLine beName head rest).length < libzeMaxPathLen ∧
      match directive line with
      | none => newLine beName head rest = line
      | some (before, _) => head ++ rest.takeWhile inClass = before

/-- Every text the loop makes of a line goes into the temporary file. -/
def LinesWritten (host : Host) (path beName content : CStr) (s : Sys) : Prop :=
  ∀ tmpfile s1 u, makeTmpfile host path "Backup loader.conf exceeds max path length.\n" s =
      ((.success, tmpfile), s1) → Opened host path tmpfile s1 u →
    Written host tmpfile (getLoaderLineFromRegex beName) (lines '\n' content) [] u

section Text
variable {beName line head rest : CStr}

theorem cString_of_not_mem (h : '\x00' ∉ line) : cString line = line :=
  List.takeWhile_eq_self_iff.mpr fun c hc => by
    rw [decide_eq_true_iff]
    rintro rfl
    exact h hc

theorem zero_not_mem_cString (line : CStr) : '\x00' ∉ cString line := fun hmem => by
  simpa using List.mem_takeWhile_imp hmem

theorem inClass_ne {c : Char} (hc : c ∈ rest.takeWhile inClass) : c ≠ '\n' ∧ c ≠ '\x00' := by
  have hclass : inClass c = true := List.mem_takeWhile_imp hc
  constructor
  · rintro rfl
    exact absurd hclass (by decide)
  · rintro rfl
    exact absurd hclass (by decide)

theorem head_ne {c : Char} (h : afterDefault line = some (head, rest)) (hc : c ∈ head) :
    c ≠ '\n' ∧ c ≠ '\x00' := by
  obtain ⟨before, hblank, rfl, -⟩ := afterDefault_eq_some_iff.mp h
  constructor
  all_goals
    rintro rfl
    obtain hc | hc := List.mem_append.mp hc
    · exact absurd (hblank _ hc) (by decide)
    · exact absurd hc (by decide +kernel)

/-- The new line is one line. -/
theorem newLine_eq (hname : NameText beName) (h : afterDefault line = some (head, rest)) :
    ∃ body, newLine beName head rest = body ++ ['\n'] ∧ '\n' ∉ body ∧ '\x00' ∉ body := by
  have hline : ("\n" : CStr) = ['\n'] := by decide
  refine ⟨head ++ rest.takeWhile inClass ++ entryName beName, ?_, ?_, ?_⟩
  · rw [newLine, hline, List.append_assoc _ (entryName beName)]
  · simp only [List.mem_append, not_or]
    exact ⟨⟨fun hc => (head_ne h hc).1 rfl, fun hc => (inClass_ne hc).1 rfl⟩,
      not_mem_entryName hname.newline (by decide +kernel)⟩
  · simp only [List.mem_append, not_or]
    exact ⟨⟨fun hc => (head_ne h hc).2 rfl, fun hc => (inClass_ne hc).2 rfl⟩,
      not_mem_entryName hname.zero (by decide +kernel)⟩

theorem zero_not_mem_rewritten (hname : NameText beName) {w : CStr}
    (hw : rewritten beName line = some w) : '\x00' ∉ w := by
  unfold rewritten at hw
  cases hafter : afterDefault (cString line) with
  | none =>
    rw [hafter] at hw
    cases hw
    exact zero_not_mem_cString line
  | some p =>
    obtain ⟨head, behind⟩ := p
    obtain ⟨body, hbody, -, hzero⟩ := newLine_eq hname hafter
    rw [hafter] at hw
    dsimp only at hw
    split at hw
    · cases hw
      rw [hbody]
      simpa using hzero
    · cases hw

/-- A directive is seen in the string, whatever is behind a zero byte. -/
theorem directive_of_zero (h : afterDefault (cString line) = none) : directive line = none := by
  unfold directive
  cases hafter : afterDefault line with
  | none => rfl
  | some p =>
    obtain ⟨head, rest⟩ := p
    obtain ⟨before, hblank, rfl, rfl⟩ := afterDefault_eq_some_iff.mp hafter
    have hcut : cString (before ++ ("default" : CStr) ++ rest) =
        before ++ ("default" : CStr) ++ cString rest := by
      refine List.takeWhile_append_of_pos fun c hc => ?_
      rw [decide_eq_true_iff]
      exact (head_ne hafter hc).2
    rw [hcut, afterDefault_eq_some_iff.mpr ⟨before, hblank, rfl, rfl⟩] at h
    cases h

theorem newline_of_directive {before value : CStr} (h : directive line = some (before, value))
    (hc : '\n' ∈ before) : '\n' ∈ line := by
  unfold directive at h
  split at h
  · cases h
  · rename_i head rest hafter
    dsimp only at h
    split at h
    · cases h
      obtain ⟨hline, -⟩ := afterDefault_eq_some hafter
      rw [hline, List.mem_append]
      exact (List.mem_append.mp hc).imp_right fun hc => List.takeWhile_sublist _ |>.subset hc
    · cases h

/-- The new line is as wanted when the class stops where the value begins. -/
theorem updated_newLine_iff (hname : NameText beName)
    (hafter : afterDefault (cString line) = some (head, rest)) :
    Updated beName line (newLine beName head rest) ↔
      match directive line with
      | none => newLine beName head rest = line
      | some (before, _) => head ++ rest.takeWhile inClass = before := by
  unfold Updated
  cases hdir : directive line with
  | none => exact Iff.rfl
  | some p =>
    obtain ⟨before, value⟩ := p
    constructor
    · rintro ⟨stop, heq, rfl | ⟨rfl, hno⟩⟩
      · rw [newLine, List.append_assoc before] at heq
        exact List.append_cancel_right heq
      · -- without a newline in the line there is none in what replaces it
        have hmem : '\n' ∈ newLine beName head rest := by
          obtain ⟨body, hbody, -⟩ := newLine_eq hname hafter
          simp [hbody]
        rw [heq, List.append_nil, List.mem_append] at hmem
        obtain hmem | hmem := hmem
        · exact absurd (newline_of_directive hdir hmem) hno
        · exact absurd hmem (not_mem_entryName hname.newline (by decide +kernel))
    · rintro rfl
      exact ⟨_, by rw [newLine, List.append_assoc _ (entryName beName)], .inl rfl⟩

/-- A line, complete or the last one. -/
def IsLine (line : CStr) (rest : List CStr) : Prop :=
  (∃ l, line = l ++ ['\n'] ∧ '\n' ∉ l) ∨ rest = [] ∧ line ≠ [] ∧ '\n' ∉ line

/-- One line, and what is written behind it. -/
theorem updated_cons_iff (hname : NameText beName) {ls : List CStr} {w text : CStr}
    (hline : IsLine line ls) (hw : rewritten beName line = some w) (hzero : '\x00' ∉ text)
    (hlast : ls = [] → text = []) :
    List.Forall₂ (Updated beName) (line :: ls) (lines '\n' (w ++ text)) ↔
      Safe beName line ∧ List.Forall₂ (Updated beName) ls (lines '\n' text) := by
  have hzero' : '\x00' ∉ w ++ text := fun hmem =>
    (List.mem_append.mp hmem).elim (zero_not_mem_rewritten hname hw) hzero
  unfold Safe
  unfold rewritten at hw
  cases hafter : afterDefault (cString line) with
  | none =>
    have hdir := directive_of_zero hafter
    rw [hafter] at hw
    cases hw
    by_cases hline0 : '\x00' ∈ line
    · -- the line is cut, and nothing that is written holds a zero byte
      refine iff_of_false (fun hall => ?_) fun h => h.1 hline0
      obtain ⟨new, rest, hnew, -, hlines⟩ := List.forall₂_cons_left_iff.mp hall
      rw [Updated, hdir] at hnew
      have hmem := mem_of_mem_lines (hlines ▸ List.mem_cons_self) (hnew ▸ hline0)
      exact hzero' hmem
    · have hsplit : lines '\n' (line ++ text) = line :: lines '\n' text := by
        obtain ⟨l, rfl, hl⟩ | ⟨hnil, hne, hl⟩ := hline
        · rw [List.append_assoc, List.singleton_append, lines_append hl]
        · rw [hlast hnil, List.append_nil, lines_of_not_mem hne hl, lines_nil]
      have hself : Updated beName line line := by rw [Updated, hdir]
      rw [cString_of_not_mem hline0, hsplit, List.forall₂_cons, and_iff_right hself,
        and_iff_right hline0]
  | some p =>
    obtain ⟨head, rest⟩ := p
    obtain ⟨body, hbody, hnl, -⟩ := newLine_eq hname hafter
    rw [hafter] at hw
    dsimp only at hw ⊢
    split at hw
    · rename_i hshort
      cases hw
      rw [← updated_newLine_iff hname hafter, hbody, List.append_assoc, List.singleton_append,
        lines_append hnl, List.forall₂_cons, ← hbody, and_iff_right hshort]
    · cases hw

/-- What is written for a line is at most one line. -/
theorem length_lines_rewritten_le (hname : NameText beName) {ls : List CStr} {w : CStr}
    (hline : IsLine line ls) (hw : rewritten beName line = some w) (text : CStr) :
    (lines '\n' (w ++ text)).length ≤ (lines '\n' text).length + 1 := by
  have hpiece : (∃ body, w = body ++ ['\n'] ∧ '\n' ∉ body) ∨ '\n' ∉ w := by
    unfold rewritten at hw
    cases hafter : afterDefault (cString line) with
    | none =>
      rw [hafter] at hw
      cases hw
      have hpre : cString line <+: line := List.takeWhile_prefix _
      obtain ⟨l, rfl, hl⟩ | ⟨-, -, hl⟩ := hline
      · obtain heq | hpre := List.prefix_concat_iff.mp hpre
        · exact .inl ⟨l, heq, hl⟩
        · exact .inr fun hmem => hl (hpre.subset hmem)
      · exact .inr fun hmem => hl (hpre.subset hmem)
    | some p =>
      obtain ⟨head, rest⟩ := p
      obtain ⟨body, hbody, hnl, -⟩ := newLine_eq hname hafter
      rw [hafter] at hw
      dsimp only at hw
      split at hw
      · cases hw
        exact .inl ⟨body, hbody, hnl⟩
      · cases hw
  obtain ⟨body, rfl, hbody⟩ | hw := hpiece
  · rw [List.append_assoc, List.singleton_append, lines_append hbody, List.length_cons]
  · exact length_lines_append_le hw

end Text

/-! ## The loop -/

section Loop
variable {host : Host} {h : Handle} {path beName new line acc buf content : CStr} {s t u : Sys}

/-- What a run of the loop has added to the file: no more lines than there were, and the lines
that are wanted exactly when they are safe and written. -/
structure Added (host : Host) (beName new : CStr) (ls : List CStr) (buf : CStr) (u : Sys)
    (text : CStr) : Prop where
  zero : '\x00' ∉ text
  length : (lines '\n' text).length ≤ ls.length
  updated : List.Forall₂ (Updated beName) ls (lines '\n' text) ↔
    (∀ line ∈ ls, Safe beName line) ∧ Written host new (getLoaderLineFromRegex beName) ls buf u

/-- One line of the loop. -/
theorem exists_added_cons (hname : NameText beName) (hfits : NameFits beName) {ls : List CStr}
    (hline : IsLine line ls) (hshort : line.length < libzeMaxPathLen)
    (ih : ∀ acc buf u, u.readFile new = some acc → ∃ text,
      (replaceLines host new (getLoaderLineFromRegex beName) ls buf u).2.readFile new =
        some (acc ++ text) ∧ Added host beName new ls buf u text)
    (hu : u.readFile new = some acc) : ∃ text,
      (replaceLines host new (getLoaderLineFromRegex beName) (line :: ls) buf u).2.readFile new =
        some (acc ++ text) ∧ Added host beName new (line :: ls) buf u text := by
  obtain ⟨w, hw, hrun⟩ | ⟨hnone, err, out, v, herr, hrun, hfiles⟩ :=
    getLoaderLineFromRegex_run hname.backslash hfits hshort buf u
  · have hwritten : Written host new (getLoaderLineFromRegex beName) (line :: ls) buf u ↔
        (w = [] ∨ host.answer u (.file (.fwrite new w)) = 0) ∧ Written host new
          (getLoaderLineFromRegex beName) ls w (call host (.file (.fwrite new w)) u).2 := by
      rw [Written, hrun]
    rw [replaceLines_cons, hrun, if_neg (by simp)]
    by_cases hanswer : w = [] ∨ host.answer u (.file (.fwrite new w)) = 0
    · obtain ⟨text, hread, hadded⟩ := ih (acc ++ w) w _ (readFile_fwrite hu hanswer)
      have hlast : ls = [] → text = [] := by
        intro hnil
        have hlength := hadded.length
        rw [hnil, List.length_nil, Nat.le_zero, List.length_eq_zero_iff] at hlength
        exact lines_eq_nil_iff.mp hlength
      refine ⟨w ++ text, ?_, ?_, ?_, ?_⟩
      · rw [← List.append_assoc]
        exact hread
      · exact fun hmem => (List.mem_append.mp hmem).elim (zero_not_mem_rewritten hname hw) hadded.zero
      · have hlength := hadded.length
        have hone := length_lines_rewritten_le hname hline hw text
        rw [List.length_cons]
        omega
      · rw [updated_cons_iff hname hline hw hadded.zero hlast, hadded.updated, hwritten,
          and_iff_right hanswer, List.forall_mem_cons, and_assoc]
    · obtain ⟨-, hrefused⟩ := not_or.mp hanswer
      obtain ⟨text, hread, hadded⟩ := ih acc w _ (readFile_fwrite_refused hu hrefused)
      have hlength := hadded.length
      refine ⟨text, hread, hadded.zero, Nat.le_succ_of_le hlength, ?_⟩
      apply iff_of_false
      · -- the line that was refused is missing
        intro hall
        have heq := hall.length_eq
        rw [List.length_cons] at heq
        omega
      · rw [hwritten]
        exact fun h => hanswer h.2.1
  · rw [replaceLines_cons, hrun, if_pos herr]
    refine ⟨[], ?_, List.not_mem_nil, Nat.zero_le _, ?_⟩
    · rw [List.append_nil]
      exact (readFile_of_files hfiles).trans hu
    · apply iff_of_false
      · intro hall
        cases hall
      · intro hsafe
        have hsafe := hsafe.1 line List.mem_cons_self
        unfold rewritten at hnone
        unfold Safe at hsafe
        split at hnone
        · cases hnone
        · rename_i head rest hafter
          rw [hafter] at hsafe
          dsimp only at hsafe
          rw [if_pos hsafe.1] at hnone
          cases hnone

theorem exists_added (hname : NameText beName) (hfits : NameFits beName) (hfit : Fits content)
    (hu : u.readFile new = some acc) : ∃ text,
      (replaceLines host new (getLoaderLineFromRegex beName) (lines '\n' content) buf u).2.readFile
        new = some (acc ++ text) ∧ Added host beName new (lines '\n' content) buf u text := by
  induction content using lines_induction '\n' generalizing acc buf u with
  | nil =>
    refine ⟨[], ?_, List.not_mem_nil, Nat.le_refl _, iff_of_true .nil ⟨?_, trivial⟩⟩
    · rw [List.append_nil]
      exact hu
    · exact fun _ hline => absurd hline List.not_mem_nil
  | last l hl hno =>
    unfold Fits at hfit
    rw [lines_of_not_mem hl hno] at hfit ⊢
    apply exists_added_cons hname hfits (.inr ⟨rfl, hl, hno⟩) (hfit l (List.mem_singleton_self l))
      _ hu
    intro acc buf u hu
    refine ⟨[], ?_, List.not_mem_nil, Nat.le_refl _, iff_of_true .nil ⟨?_, trivial⟩⟩
    · rw [List.append_nil]
      exact hu
    · exact fun _ hline => absurd hline List.not_mem_nil
  | cons l rest hno ih =>
    unfold Fits at hfit
    rw [lines_append hno] at hfit ⊢
    exact exists_added_cons hname hfits (.inl ⟨l, rfl, hno⟩) (hfit _ List.mem_cons_self)
      (fun _ _ _ hu => ih (fun line hline => hfit line (List.mem_cons_of_mem _ hline)) hu) hu

end Loop

/-- After a success `loader.conf` is as wanted exactly when it is empty, or the name goes
into the template, every line is one that the code handles and the new lines are written. -/
theorem updateLoaderDefault_updated_iff (host : Host) (h : Handle) (path beName content : CStr)
    (s t : Sys) (hrule : MkstempRule host) (hname : NameText beName)
    (hcontent : s.readFile path = some content) (hfit : Fits content)
    (hr : updateLoaderDefault host h path beName s = (.success, t)) :
    (∃ new, t.readFile path = some new ∧
      List.Forall₂ (Updated beName) (lines '\n' content) (lines '\n' new)) ↔
    content = [] ∨ NameFits beName ∧ (∀ line ∈ lines '\n' content, Safe beName line) ∧
      LinesWritten host path beName content s := by
  obtain ⟨tmpfile, s1, u, hmade, hopened, hempty, hnew⟩ :=
    updateLoaderDefault_replaced hrule hcontent hfit hr
  by_cases hlen : NameFits beName
  · obtain ⟨text, htext, hadded⟩ := @exists_added host beName tmpfile [] [] content u hname hlen
      hfit hempty
    have hwritten : LinesWritten host path beName content s ↔
        Written host tmpfile (getLoaderLineFromRegex beName) (lines '\n' content) [] u := by
      constructor
      · exact fun h => h tmpfile s1 u hmade hopened
      · intro h tmpfile' s1' u' hmade' hopened'
        cases hmade.symm.trans hmade'
        obtain ⟨v, read, hopen, hread⟩ := hopened
        obtain ⟨v', read', hopen', hread'⟩ := hopened'
        cases hopen.symm.trans hopen'
        cases hread.symm.trans hread'
        exact h
    rw [hnew _ htext]
    simp only [List.nil_append, Option.some.injEq, exists_eq_left']
    rw [hadded.updated, ← hwritten, and_iff_right hlen]
    refine (or_iff_right_of_imp ?_).symm
    rintro rfl
    refine ⟨?_, fun _ _ _ _ _ => trivial⟩
    exact fun _ hline => absurd hline List.not_mem_nil
  · rw [hnew _ (replaceLines_long hlen _ hempty)]
    simp only [Option.some.injEq, exists_eq_left', lines_nil, List.forall₂_nil_right_iff]
    rw [lines_eq_nil_iff]
    exact (or_iff_left fun h => hlen h.1).symm

theorem sampleName : NameText "b" := ⟨by decide +kernel, by decide +kernel, by decide +kernel⟩

theorem updateLoaderDefault_updated_iff_sample :
    (∃ new, ((updateLoaderDefault obliging (sampleHandle none true) "/loader.conf" "b"
        (sampleFile "timeout 3\n  default  x")).2).readFile "/loader.conf" = some new ∧
      List.Forall₂ (Updated "b") (lines '\n' ("timeout 3\n  default  x" : CStr)) (lines '\n' new)) ↔
    ("timeout 3\n  default  x" : CStr) = [] ∨ NameFits "b" ∧
      (∀ line ∈ lines '\n' ("timeout 3\n  default  x" : CStr), Safe "b" line) ∧
      LinesWritten obliging "/loader.conf" "b" "timeout 3\n  default  x"
        (sampleFile "timeout 3\n  default  x") :=
  updateLoaderDefault_updated_iff obliging (sampleHandle none true) "/loader.conf" "b"
    "timeout 3\n  default  x" (sampleFile "timeout 3\n  default  x") _ obliging_mkstempRule
    sampleName rfl (by unfold Fits; decide +kernel)
    (run_eq_of_fst (by decide +kernel))

/-- A tab is no separator for the class, so the new value follows the word at once. -/
theorem not_updated_behind_tab :
    ¬ ∀ (host : Host) (h : Handle) (path beName content : CStr) (s t : Sys), GrantsWrites host →
      MkstempRule host → NameText beName → s.readFile path = some content → Fits content →
      updateLoaderDefault host h path beName s = (.success, t) →
      ∃ new, t.readFile path = some new ∧
        List.Forall₂ (Updated beName) (lines '\n' content) (lines '\n' new) := by
  intro hall
  have hfit : Fits "default\tx\n" := by
    unfold Fits
    decide +kernel
  have hrun : updateLoaderDefault obliging (sampleHandle none true) "/loader.conf" "b"
      (sampleFile "default\tx\n") = (.success, _) := run_eq_of_fst (by decide +kernel)
  obtain ⟨new, hnew, hlines⟩ := hall obliging (sampleHandle none true) "/loader.conf" "b"
    "default\tx\n" (sampleFile "default\tx\n") _ obliging_grantsWrites obliging_mkstempRule
    sampleName rfl hfit hrun
  have hfits : NameFits "b" := by
    unfold NameFits
    decide +kernel
  obtain ⟨tmpfile, s1, u, -, -, hempty, hleft⟩ :=
    updateLoaderDefault_replaced obliging_mkstempRule rfl hfit hrun
  obtain ⟨text, htext, hadded⟩ := @exists_added obliging "b" tmpfile [] [] _ u sampleName hfits
    hfit hempty
  cases hnew.symm.trans (hleft _ htext)
  have hsafe := (hadded.updated.mp hlines).1 "default\tx\n" (by decide +kernel)
  have hafter : afterDefault (cString "default\tx\n") = some (("default" : CStr), ("\tx\n" : CStr)) := by
    decide +kernel
  have hdir : directive "default\tx\n" = some (("default\t" : CStr), ("x" : CStr)) := by decide +kernel
  rw [Safe, hafter, hdir] at hsafe
  exact absurd hsafe.2 (by decide +kernel)

end Zectl.Systemdboot.LoaderOutcome
