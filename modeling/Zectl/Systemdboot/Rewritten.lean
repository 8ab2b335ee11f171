import Mathlib.Data.List.Basic
import Mathlib.Data.List.Forall2
import Zectl.Systemdboot.ReplaceMatched
import Zectl.Util.CopyDir

/-!
# Files that are rewritten in full

A file is rewritten in full when the callback makes something of each of its lines and all of
it is written. `replace_matched` returns a success whether this is so or not; the file it
leaves tells it.
-/

namespace Zectl.Systemdboot.Rewritten

open Zectl.Lib.StateRun Zectl.Util.CString Zectl.Util.Files Zectl.Util.Writes Zectl.Util.CopyDir
open Zectl.Zfs.System Zectl.Zfs.Steps Zectl.Systemdboot.ReplaceMatched

/-- The callback makes `out` of the line, in every state. -/
def Makes (replaceFn : LineReplaceFn) (line out : CStr) : Prop :=
  ∀ buf s, (replaceFn line buf s).1 = (.success, out)

/-- What the callback makes of a line depends on nothing else, and it touches no file. -/
structure Steady (replaceFn : LineReplaceFn) : Prop where
  makes : ∀ line buf s out, (replaceFn line buf s).1 = (.success, out) → Makes replaceFn line out
  quiet : ∀ host line buf, Issues host (fun _ => False) (replaceFn line buf)

/-- `text` is what the callback makes of the lines of `content`. -/
def Rewriting (replaceFn : LineReplaceFn) (content text : CStr) : Prop :=
  ∃ outs, List.Forall₂ (Makes replaceFn) (readLines content) outs ∧ text = outs.flatten

/-- The loop of `replace_matched` when each line is rewritten and written. -/
inductive LinesDone (host : Host) (filenameNew : CStr) (replaceFn : LineReplaceFn) :
    List CStr → CStr → Sys → Sys → Prop
  | nil {buf : CStr} {s : Sys} : LinesDone host filenameNew replaceFn [] buf s s
  | cons {line buf out : CStr} {rest : List CStr} {s s1 t : Sys}
      (hfn : replaceFn line buf s = ((.success, out), s1))
      (hwrite : out = [] ∨ host.answer s1 (.file (.fwrite filenameNew out)) = 0)
      (hrest : LinesDone host filenameNew replaceFn rest out
        (call host (.file (.fwrite filenameNew out)) s1).2 t) :
      LinesDone host filenameNew replaceFn (line :: rest) buf s t

/-- `replace_matched` when both files are opened and each line is rewritten and written. -/
def Rewrites (host : Host) (filename filenameNew : CStr) (replaceFn : LineReplaceFn) (s t : Sys) :
    Prop :=
  ∃ content s1 s2, call host (.file (.fopenWrite filenameNew)) s = (0, s1) ∧
    fopenRead host filename s1 = (.ok content, s2) ∧
    LinesDone host filenameNew replaceFn (readLines content) [] s2 t

/-- The new file was made, then the other one read, and all the callback makes of that is in
the new one in the end. -/
def RewrittenFile (replaceFn : LineReplaceFn) (s t : Sys) (src dst : CStr) : Prop :=
  ∃ before after content text,
    since s t = after ++ (.file (.fopenRead src), 0) :: (.file (.fopenWrite dst), 0) :: before ∧
    (replay s ((.file (.fopenWrite dst), 0) :: before)).readFile src = some content ∧
    Rewriting replaceFn content text ∧ t.readFile dst = some text

section Lines
variable {host : Host} {replaceFn : LineReplaceFn} {new acc : CStr} {lines outs : List CStr}
  {buf : CStr} {s t : Sys}

theorem Steady.files (h : Steady replaceFn) (host : Host) {line : CStr} {r : LibzeError × CStr}
    (hr : replaceFn line buf s = (r, t)) (path : CStr) : t.readFile path = s.readFile path := by
  have hquiet : Issues host (TouchesIn fun _ => False) (replaceFn line buf) :=
    (h.quiet host line buf).weaken fun _ hc => hc.elim
  exact readFile_of_touches hquiet hr id

/-- What the loop leaves when it gets to the end. -/
theorem LinesDone.file (hsteady : Steady replaceFn)
    (h : LinesDone host new replaceFn lines buf s t) (hs : s.readFile new = some acc) :
    ∃ outs, List.Forall₂ (Makes replaceFn) lines outs ∧
      t.readFile new = some (acc ++ outs.flatten) := by
  induction h generalizing acc with
  | nil => exact ⟨[], .nil, by simpa using hs⟩
  | @cons line buf out rest s s1 t hfn hwrite hrest ih =>
    have hs1 : s1.readFile new = some acc := (hsteady.files host hfn new).trans hs
    obtain ⟨outs, houts, ht⟩ := ih (readFile_fwrite hs1 hwrite)
    have hmakes : Makes replaceFn line out := hsteady.makes line buf s out (by rw [hfn])
    exact ⟨out :: outs, .cons hmakes houts, by rw [ht, List.flatten_cons, List.append_assoc]⟩

theorem LinesDone.run (h : LinesDone host new replaceFn lines buf s t) :
    replaceLines host new replaceFn lines buf s = (.success, t) := by
  induction h with
  | nil => rfl
  | cons hfn _ _ ih =>
    rw [replaceLines, run_bind, hfn]
    dsimp only
    rw [if_neg (by simp), run_bind]
    exact ih

/-- The file the loop leaves is no longer than all the lines give. -/
theorem replaceLines_length (hsteady : Steady replaceFn)
    (houts : List.Forall₂ (Makes replaceFn) lines outs) (hs : s.readFile new = some acc) :
    ∃ text, (replaceLines host new replaceFn lines buf s).2.readFile new = some text ∧
      text.length ≤ acc.length + outs.flatten.length := by
  induction houts generalizing acc buf s with
  | nil => exact ⟨acc, hs, by simp⟩
  | @cons line out rest outs hmakes _ ih =>
    rcases hfn : replaceFn line buf s with ⟨r, s1⟩
    obtain rfl : r = (.success, out) := by
      have hr := hmakes buf s
      rwa [hfn] at hr
    have hs1 : s1.readFile new = some acc := (hsteady.files host hfn new).trans hs
    rw [replaceLines, run_bind, hfn]
    dsimp only
    rw [if_neg (by simp), run_bind, List.flatten_cons, List.length_append]
    by_cases hgranted : host.answer s1 (.file (.fwrite new out)) = 0
    · obtain ⟨text, htext, hlen⟩ := ih (readFile_fwrite hs1 (.inr hgranted))
      rw [List.length_append] at hlen
      exact ⟨text, htext, by omega⟩
    · obtain ⟨text, htext, hlen⟩ := ih (readFile_fwrite_refused hs1 hgranted)
      exact ⟨text, htext, by omega⟩

/-- A file of the full length is written by a loop that gets to the end. -/
theorem linesDone_of_file (hsteady : Steady replaceFn)
    (houts : List.Forall₂ (Makes replaceFn) lines outs) (hs : s.readFile new = some acc)
    (ht : (replaceLines host new replaceFn lines buf s).2 = t)
    (hfull : t.readFile new = some (acc ++ outs.flatten)) :
    LinesDone host new replaceFn lines buf s t := by
  induction houts generalizing acc buf s with
  | nil =>
    rw [← ht]
    exact .nil
  | @cons line out rest outs hmakes houts ih =>
    rcases hfn : replaceFn line buf s with ⟨r, s1⟩
    obtain rfl : r = (.success, out) := by
      have hr := hmakes buf s
      rwa [hfn] at hr
    have hs1 : s1.readFile new = some acc := (hsteady.files host hfn new).trans hs
    rw [replaceLines, run_bind, hfn] at ht
    dsimp only at ht
    rw [if_neg (by simp), run_bind] at ht
    rw [List.flatten_cons] at hfull
    have hwrite : out = [] ∨ host.answer s1 (.file (.fwrite new out)) = 0 := by
      by_contra hnot
      obtain ⟨hne, hrefused⟩ := not_or.mp hnot
      obtain ⟨text, htext, hlen⟩ := @replaceLines_length host replaceFn new acc rest outs out
        (call host (.file (.fwrite new out)) s1).2 hsteady houts
        (readFile_fwrite_refused hs1 hrefused)
      have hsame : text = acc ++ (out ++ outs.flatten) := by
        rw [ht, hfull] at htext
        exact (Option.some.inj htext).symm
      have hpos := List.length_pos_iff.mpr hne
      rw [hsame, List.length_append, List.length_append] at hlen
      omega
    refine .cons hfn hwrite (ih (readFile_fwrite hs1 hwrite) ht ?_)
    rw [hfull, List.append_assoc]

/-- The loop writes one file, when the callback writes none. -/
theorem replaceLines_saves_of_quiet
    (hquiet : ∀ line buf, Issues host (fun _ => False) (replaceFn line buf)) (lines : List CStr)
    (buf : CStr) : Issues host (SavesIn (· = new)) (replaceLines host new replaceFn lines buf) := by
  induction lines generalizing buf with
  | nil => exact moves_pure _
  | cons line rest ih =>
    apply moves_bind ((hquiet line buf).weaken fun _ hc => hc.elim)
    intro r
    apply moves_ite (fun _ => moves_pure _)
    intro _
    exact moves_bind (issues_call ⟨rfl, trivial⟩) fun _ => ih _

theorem replaceLines_saves (hsteady : Steady replaceFn) (lines : List CStr) (buf : CStr) :
    Issues host (SavesIn (· = new)) (replaceLines host new replaceFn lines buf) :=
  replaceLines_saves_of_quiet (hsteady.quiet host) lines buf

/-- It writes the file without opening it again. -/
theorem replaceLines_writes (hsteady : Steady replaceFn) (lines : List CStr) (buf : CStr) :
    Issues host (fun c => ∃ text, c = .file (.fwrite new text))
      (replaceLines host new replaceFn lines buf) := by
  induction lines generalizing buf with
  | nil => exact moves_pure _
  | cons line rest ih =>
    apply moves_bind ((hsteady.quiet host line buf).weaken fun _ hc => hc.elim)
    intro r
    apply moves_ite (fun _ => moves_pure _)
    intro _
    exact moves_bind (issues_call ⟨_, rfl⟩) fun _ => ih _

end Lines

section File
variable {host : Host} {replaceFn : LineReplaceFn} {src dst : CStr} {s t u v : Sys}

theorem replaceMatched_saves_of_quiet
    (hquiet : ∀ line buf, Issues host (fun _ => False) (replaceFn line buf)) :
    Issues host (SavesIn (· = dst)) (replaceMatched host src dst replaceFn) := by
  apply moves_bind (issues_call ⟨rfl, trivial⟩)
  intro code
  apply moves_ite (fun _ => issues_errorSet _ _)
  intro _
  apply moves_bind (fopenRead_may ⟨trivial, trivial⟩)
  intro r
  split
  · exact issues_errorSet _ _
  · exact moves_bind (replaceLines_saves_of_quiet hquiet _ _) fun _ => moves_pure _

theorem replaceMatched_saves (hsteady : Steady replaceFn) :
    Issues host (SavesIn (· = dst)) (replaceMatched host src dst replaceFn) :=
  replaceMatched_saves_of_quiet (hsteady.quiet host)

theorem RewrittenFile.extend (h : RewrittenFile replaceFn u v src dst) (hsu : Ran s u)
    (huv : u.trace <:+ v.trace) (hvt : v.trace <:+ t.trace)
    (hkeep : t.readFile dst = v.readFile dst) : RewrittenFile replaceFn s t src dst := by
  obtain ⟨before, after, content, text, hsince, hread, htext, hfile⟩ := h
  refine ⟨before ++ since s u, since v t ++ after, content, text, ?_, ?_, htext, hkeep.trans hfile⟩
  · rw [since_append hsu.suffix (huv.trans hvt), since_append huv hvt, hsince]
    simp only [List.append_assoc, List.cons_append]
  · rw [← List.cons_append, replay_append, readFile_of_files (replay_files hsu.files _)]
    exact hread

theorem Rewrites.run (h : Rewrites host src dst replaceFn s t) :
    replaceMatched host src dst replaceFn s = (.success, t) := by
  obtain ⟨content, s1, s2, hopen, hread, hlines⟩ := h
  rw [replaceMatched, run_bind, hopen, if_neg (by simp), run_bind, hread]
  dsimp only
  rw [run_bind, hlines.run]
  rfl

theorem Rewrites.file (hsteady : Steady replaceFn) (h : Rewrites host src dst replaceFn s t) :
    RewrittenFile replaceFn s t src dst := by
  obtain ⟨content, s1, s2, hopen, hread, hlines⟩ := h
  have hs1 : s1.trace = [(.file (.fopenWrite dst), 0)] ++ s.trace := call_trace hopen
  have hempty : s2.readFile dst = some [] :=
    (readFile_of_files (fopenRead_ok hread).2).trans (fopenWrite_written hopen).2
  obtain ⟨outs, houts, ht⟩ := hlines.file hsteady hempty
  obtain ⟨before, after, hsince, -, hcontent⟩ := fopenRead_readAs hread
  have hread1 : since s1 s2 = [(.file (.fopenRead src), 0)] := by
    obtain ⟨hs1c, -⟩ := fopenRead_ok hread
    rw [fopenRead, run_get_bind, hs1c] at hread
    obtain ⟨code, u, hcall, hread⟩ := bind_run hread
    split at hread
    · cases hread
    rename_i hcode
    rw [not_not.mp hcode] at hcall
    cases hread
    exact since_of_trace (call_trace hcall)
  have hsuffix : s2.trace <:+ t.trace :=
    (ran_of_issues (replaceLines_saves hsteady _ _) hlines.run).suffix
  have hran1 := call_ran hopen
  have hran2 := fopenRead_ran hread
  refine ⟨[], since s2 t, content, outs.flatten, ?_, ?_, ⟨outs, houts, rfl⟩, ht⟩
  · rw [since_append hran1.suffix (hran2.suffix.trans hsuffix), since_append hran2.suffix hsuffix,
      hread1, since_of_trace hs1]
    simp
  · rw [← since_of_trace hs1, readFile_of_files hran1.files]
    exact (fopenRead_ok hread).1

/-- When only this run of `replace_matched` makes the file, what it holds in the end tells that
each line was rewritten and written. -/
theorem rewrites_of_file (hsteady : Steady replaceFn) {r : LibzeError} (hsu : Ran s u)
    (hbefore : (.file (.fopenWrite dst), 0) ∉ since s u)
    (hr : replaceMatched host src dst replaceFn u = (r, v)) (hvt : v.trace <:+ t.trace)
    (hafter : (.file (.fopenWrite dst), 0) ∉ since v t)
    (hread : r ≠ .success → (.file (.fopenRead src), 0) ∉ since v t)
    (hkeep : t.readFile dst = v.readFile dst) (h : RewrittenFile replaceFn s t src dst) :
    Rewrites host src dst replaceFn u v := by
  obtain ⟨before, after, content, text, hsince, hcontent, ⟨outs, houts, rfl⟩, hfile⟩ := h
  have huv : u.trace <:+ v.trace := (ran_of_issues (replaceMatched_saves hsteady) hr).suffix
  rw [since_append hsu.suffix (huv.trans hvt), since_append huv hvt] at hsince
  obtain ⟨code, u1, hopen, hr⟩ := bind_run hr
  have hu1 : u1.trace = [(.file (.fopenWrite dst), code)] ++ u.trace := call_trace hopen
  split at hr
  · rename_i hcode
    -- the file was never opened
    have hv : v.trace = u1.trace := by
      cases hr
      rfl
    rw [since_of_trace (hv.trans hu1)] at hsince
    have hmem : ((.file (.fopenWrite dst), 0) : Call × Nat) ∈
        since v t ++ [(.file (.fopenWrite dst), code)] ++ since s u := by
      rw [hsince]
      simp
    simp only [List.mem_append, List.mem_singleton, Prod.mk.injEq, true_and] at hmem
    obtain (hmem | rfl) | hmem := hmem
    · exact absurd hmem hafter
    · exact absurd rfl hcode
    · exact absurd hmem hbefore
  rename_i hcode
  rw [not_not.mp hcode] at hopen hu1
  have hran1 := call_ran hopen
  obtain ⟨read, u2, hopened, hr⟩ := bind_run hr
  have hran2 := fopenRead_ran hopened
  have hlast : ∀ {new : List (Call × Nat)}, since u1 v = new →
      (.file (.fopenWrite dst), 0) ∉ new → u1.trace <:+ v.trace →
      after ++ [(.file (.fopenRead src), 0)] = since v t ++ new ∧ before = since s u := by
    intro new hnew hnot hsuffix
    rw [since_append hran1.suffix hsuffix, hnew, since_of_trace hu1] at hsince
    have hsplit : (since v t ++ new) ++ (.file (.fopenWrite dst), 0) :: since s u =
        (after ++ [(.file (.fopenRead src), 0)]) ++ (.file (.fopenWrite dst), 0) :: before := by
      simpa using hsince
    have hnotin : (.file (.fopenWrite dst), 0) ∉ since v t ++ new := by
      rw [List.mem_append, not_or]
      exact ⟨hafter, hnot⟩
    obtain ⟨hnew', -, hbefore'⟩ := (List.append_cons_inj_of_notMem hnotin hbefore).mp hsplit
    exact ⟨hnew'.symm, hbefore'.symm⟩
  cases read with
  | error code' =>
    have hne : r ≠ .success := by
      cases hr
      decide
    have hv : v.trace = u2.trace := by
      cases hr
      rfl
    cases hread1 : u1.readFile src with
    | none =>
      -- no file, so nothing was opened
      rw [fopenRead, run_get_bind, hread1] at hopened
      have hu2 : u2.trace = [] ++ u1.trace := by
        cases hopened
        rfl
      obtain ⟨heq, -⟩ := hlast (since_of_trace (hv.trans hu2)) List.not_mem_nil
        (hv ▸ hran2.suffix)
      rw [List.append_nil] at heq
      refine absurd ?_ (hread hne)
      rw [← heq]
      simp
    | some held =>
      rw [fopenRead, run_get_bind, hread1] at hopened
      obtain ⟨code'', u3, hcall, hopened⟩ := bind_run hopened
      split at hopened
      · rename_i hcode''
        cases hopened
        have hu2 : u2.trace = [(.file (.fopenRead src), code')] ++ u1.trace := call_trace hcall
        obtain ⟨heq, -⟩ := hlast (since_of_trace (hv.trans hu2)) (by simp) (hv ▸ hran2.suffix)
        have hend := (List.append_inj_right' heq rfl)
        simp only [List.cons.injEq, Prod.mk.injEq, true_and, and_true] at hend
        exact absurd hend.symm hcode''
      · cases hopened
  | ok held =>
    obtain ⟨ret, u3, hlines, hr⟩ := bind_run hr
    obtain rfl : u3 = v := (Prod.mk.inj hr).2
    have hran3 := ran_of_issues (replaceLines_saves hsteady _ _) hlines
    have hnot : (.file (.fopenWrite dst), 0) ∉ since u1 u3 := by
      have hissued := (@replaceLines_writes host _ dst hsteady (readLines held) []).since u2
      rw [hlines] at hissued
      rw [since_append hran2.suffix hran3.suffix, List.mem_append, not_or]
      constructor
      · intro hmem
        obtain ⟨text, htext⟩ := hissued _ hmem
        cases htext
      · intro hmem
        have hlooked := (@fopenRead_issues host dst src).since u1
        rw [hopened] at hlooked
        cases hlooked _ hmem with
        | fopenWrite hne => exact hne rfl
    obtain ⟨-, rfl⟩ := hlast rfl hnot (hran2.suffix.trans hran3.suffix)
    have hheld : u1.readFile src = some held := (fopenRead_ok hopened).1
    have hsame : since s u1 = (.file (.fopenWrite dst), 0) :: since s u := by
      rw [since_append hsu.suffix hran1.suffix, since_of_trace hu1]
      rfl
    rw [← hsame, readFile_of_files (hsu.trans hran1).files, hheld] at hcontent
    obtain rfl := Option.some.inj hcontent
    refine ⟨held, u1, u2, hopen, hopened, ?_⟩
    have hempty : u2.readFile dst = some [] :=
      (readFile_of_files (fopenRead_ok hopened).2).trans (fopenWrite_written hopen).2
    apply linesDone_of_file hsteady houts hempty (by rw [hlines])
    rw [← hkeep, hfile]
    rfl

end File

/-! ## Updates in place -/

/-- `mkstemp` replaces the last six characters of its template. -/
def TemplateRule (host : Host) : Prop :=
  ∀ s stem, ∃ six, host.tmpName s (stem ++ ("XXXXXX" : CStr)) = stem ++ six

section Update
variable {host : Host} {filename backupError closeError message tmpfile : CStr}
  {replaceFn : LineReplaceFn} {s t : Sys}

theorem fileAccessible_issues {path : CStr} {may : Call → Prop}
    (haccess : may (.file (.access path))) :
    Issues host may (fileAccessible host path) := by
  apply moves_bind (issues_call haccess)
  intro errno
  apply moves_ite (fun _ => moves_pure _)
  intro _
  apply moves_ite (fun _ => issues_errorSet _ _)
  intro _
  exact moves_ite (fun _ => issues_errorSet _ _) fun _ => issues_errorSet _ _

theorem template_of_concat {code : Int} {template : CStr} (hrule : TemplateRule host)
    (hconcat : libzeUtilConcat filename "." "zectl-sdboot.XXXXXX" libzeMaxPathLen = (code, template))
    (hcode : ¬ code ≠ 0) (s : Sys) : filename <+: host.tmpName s template := by
  rw [not_not.mp hcode] at hconcat
  obtain ⟨-, rfl⟩ := (libzeUtilConcat_eq_ok_iff (by decide)).mp hconcat
  have hstem : filename ++ "." ++ "zectl-sdboot.XXXXXX" =
      (filename ++ (".zectl-sdboot." : CStr)) ++ ("XXXXXX" : CStr) := by simp
  obtain ⟨six, hsix⟩ := hrule s (filename ++ (".zectl-sdboot." : CStr))
  rw [hstem, hsix, List.append_assoc]
  exact List.prefix_append _ _

theorem makeTmpfile_touches (hrule : TemplateRule host) :
    Issues host (TouchesIn (filename <+: ·)) (makeTmpfile host filename backupError) := by
  have hfail : ∀ (err : LibzeError) (message : CStr), Issues host (TouchesIn (filename <+: ·))
      (libzeErrorSet err message >>= fun e => pure (e, ([] : CStr))) :=
    fun err message => moves_bind (issues_errorSet err message) fun _ => moves_pure _
  unfold makeTmpfile
  apply moves_bind (fileAccessible_issues trivial)
  intro ret
  apply moves_ite (fun _ => moves_pure _)
  intro _
  rcases hbackup : libzeUtilConcat filename "." "bak" libzeMaxPathLen with ⟨err, newFilename⟩
  apply moves_ite (fun _ => hfail _ _)
  intro herr
  have hnew : filename <+: newFilename := by
    have herr' : err = 0 := not_not.mp herr
    rw [herr'] at hbackup
    obtain ⟨-, rfl⟩ := (libzeUtilConcat_eq_ok_iff (by decide)).mp hbackup
    rw [List.append_assoc]
    exact List.prefix_append _ _
  apply moves_bind (copyFile_issues trivial hnew fun _ => hnew)
  intro code
  apply moves_ite (fun _ => moves_pure _)
  intro _
  rcases htemplate : libzeUtilConcat filename "." "zectl-sdboot.XXXXXX" libzeMaxPathLen with
    ⟨interr, template⟩
  apply moves_ite (fun _ => hfail _ _)
  intro hinterr
  apply moves_bind moves_get
  intro s
  apply moves_bind (issues_call (template_of_concat hrule htemplate hinterr s))
  intro code
  exact moves_ite (fun _ => hfail _ _) fun _ => moves_pure _

/-- The temporary file lies beside the original. -/
theorem makeTmpfile_beside (hrule : TemplateRule host)
    (hr : makeTmpfile host filename backupError s = ((.success, tmpfile), t)) :
    filename <+: tmpfile := by
  unfold makeTmpfile at hr
  obtain ⟨ret, s1, -, hr⟩ := bind_run hr
  split at hr
  · rename_i hret
    cases hr
    exact absurd rfl hret
  rcases libzeUtilConcat filename "." "bak" libzeMaxPathLen with ⟨err, newFilename⟩
  dsimp only at hr
  split at hr
  · cases hr
  obtain ⟨code, s2, -, hr⟩ := bind_run hr
  split at hr
  · rename_i hcode
    obtain ⟨hret, -⟩ := Prod.mk.inj (Prod.mk.inj hr).1
    exact absurd hret (ofCode_ne_success hcode)
  rcases htemplate : libzeUtilConcat filename "." "zectl-sdboot.XXXXXX" libzeMaxPathLen with
    ⟨interr, template⟩
  rw [htemplate] at hr
  dsimp only at hr
  split at hr
  · cases hr
  rename_i hinterr
  rw [run_get_bind] at hr
  obtain ⟨code', s3, -, hr⟩ := bind_run hr
  split at hr
  · cases hr
  obtain rfl := (Prod.mk.inj (Prod.mk.inj hr).1).2
  exact template_of_concat hrule htemplate hinterr s2

theorem removeTmpfile_touches (hbeside : filename <+: tmpfile) :
    Issues host (TouchesIn (filename <+: ·)) (removeTmpfile host tmpfile message) :=
  moves_bind (issues_errorSet _ _) fun _ => moves_bind (issues_call hbeside) fun _ => moves_pure _

/-- An update makes and changes files beside the original only. -/
theorem updateFile_touches_of_quiet (hrule : TemplateRule host)
    (hquiet : ∀ line buf, Issues host (fun _ => False) (replaceFn line buf)) :
    Issues host (TouchesIn (filename <+: ·))
      (updateFile host filename backupError closeError replaceFn) := by
  apply moves_bind_of (makeTmpfile_touches hrule)
  intro s
  rcases hmade : makeTmpfile host filename backupError s with ⟨⟨ret, tmpfile⟩, s1⟩
  dsimp only
  by_cases hret : ret = .success
  · subst hret
    have hbeside := makeTmpfile_beside hrule hmade
    have hrest : Issues host (TouchesIn (filename <+: ·)) (do
        let ret ← replaceMatched host filename tmpfile replaceFn
        if ret ≠ .success then
          return ← removeTmpfile host tmpfile
            (format ["Failed to replace lines in ", tmpfile, ".\n"])
        if (← call host (.file (.close tmpfile))) ≠ 0 then
          return ← removeTmpfile host tmpfile (format [closeError, " of ", tmpfile, ".\n"])
        if (← call host (.file (.rename tmpfile filename))) ≠ 0 then
          return ← removeTmpfile host tmpfile (format ["Failed to replace ", filename, ".\n"])
        return .success) := by
      apply moves_bind
      · apply (replaceMatched_saves_of_quiet hquiet).weaken
        intro c hc
        apply hc.1.mono
        rintro p rfl
        exact hbeside
      intro ret
      apply moves_ite (fun _ => removeTmpfile_touches hbeside)
      intro _
      apply moves_bind (issues_call trivial)
      intro code
      apply moves_ite (fun _ => removeTmpfile_touches hbeside)
      intro _
      apply moves_bind (issues_call ⟨hbeside, List.prefix_refl _⟩)
      intro code
      exact moves_ite (fun _ => removeTmpfile_touches hbeside) fun _ => moves_pure _
    rw [if_neg (by simp)]
    exact hrest s1
  · rw [if_pos hret]
    exact .refl

theorem updateFile_touches (hrule : TemplateRule host) (hsteady : Steady replaceFn) :
    Issues host (TouchesIn (filename <+: ·))
      (updateFile host filename backupError closeError replaceFn) :=
  updateFile_touches_of_quiet hrule (hsteady.quiet host)

end Update

end Zectl.Systemdboot.Rewritten
