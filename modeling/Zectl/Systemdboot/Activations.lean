import Zectl.Systemdboot.Hooks
import Zectl.Systemdboot.LoaderOutcome

/-!
# The default entry over many activations

Each activation rewrites what the one before it has written. As the new value stands where the
old one stood, the result is what the last activation would have made of the first file, as long
as no line becomes too long for the buffer; a line that does cuts the file off.
-/

namespace Zectl.Systemdboot.Activations

open Zectl.Lib.StateRun Zectl.Lib.Lines Zectl.Util.CString Zectl.Util.Files Zectl.Util.Replace
open Zectl.Util.Writes Zectl.Zfs.System Zectl.Zfs.Steps Zectl.Libze.Init Zectl.Libze.Sample
open Zectl.Systemdboot.ReplaceMatched Zectl.Systemdboot.Loader Zectl.Systemdboot.LoaderOutcome
open Zectl.Systemdboot.Rewritten Zectl.Systemdboot.Entry Zectl.Systemdboot.PreSnapshot
open Zectl.Systemdboot.PreSnapshotOutcome Zectl.Systemdboot.SavedKernels Zectl.Systemdboot.Hooks

/-- The name goes into the template, and every line of the file into the buffer behind it. -/
structure Room (beName content : CStr) : Prop where
  text : NameText beName
  fits : NameFits beName
  short : ∀ line ∈ lines '\n' content, (rewritten beName line).isSome

/-- A text file whose lines go into the buffer. -/
structure LoaderFile (content : CStr) : Prop where
  fits : Fits content
  zero : '\x00' ∉ content

/-! ## Two passes over a line -/

section Line
variable {beName first last line new head rest content : CStr}

theorem rewritten_some (h : rewritten beName line = some new) :
    afterDefault (cString line) = none ∧ new = cString line ∨
    ∃ head rest, afterDefault (cString line) = some (head, rest) ∧ new = newLine beName head rest ∧
      (newLine beName head rest).length < libzeMaxPathLen := by
  unfold rewritten at h
  split at h
  · rename_i hafter
    exact .inl ⟨hafter, (Option.some.inj h).symm⟩
  · rename_i head rest hafter
    obtain ⟨hfit, hnew⟩ := Option.ite_none_right_eq_some.mp h
    exact .inr ⟨head, rest, hafter, (Option.some.inj hnew).symm, hfit⟩

/-- The value stops where the class does, so the part before it is kept by every pass. -/
theorem newLine_again (hafter : afterDefault line = some (head, rest)) (hname : NameText first) :
    ∃ rest', afterDefault (cString (newLine first head rest)) = some (head, rest') ∧
      newLine last head rest' = newLine last head rest := by
  obtain ⟨body, hbody, -, hzero⟩ := newLine_eq hname hafter
  have hstring : cString (newLine first head rest) = newLine first head rest := by
    apply cString_of_not_mem
    rw [hbody]
    simpa using hzero
  obtain ⟨before, hblank, hhead, -⟩ := afterDefault_eq_some_iff.mp hafter
  refine ⟨rest.takeWhile inClass ++ (entryName first ++ ("\n" : CStr)), ?_, ?_⟩
  · rw [hstring, afterDefault_eq_some_iff]
    exact ⟨before, hblank, hhead, by rw [newLine, List.append_assoc]⟩
  · obtain ⟨tail, htail⟩ := entryName_cons first
    have hclass : (rest.takeWhile inClass ++ (entryName first ++ ("\n" : CStr))).takeWhile inClass =
        rest.takeWhile inClass := by
      have hall : ∀ c ∈ rest.takeWhile inClass, inClass c = true := fun c hc =>
        List.mem_takeWhile_imp hc
      rw [List.takeWhile_append_of_pos hall, htail, List.cons_append,
        List.takeWhile_cons_of_neg (by decide), List.append_nil]
    rw [newLine, newLine, hclass]

theorem rewritten_again (hname : NameText first) (h : rewritten first line = some new) :
    rewritten last new = rewritten last line := by
  obtain ⟨hafter, rfl⟩ | ⟨head, rest, hafter, rfl, -⟩ := rewritten_some h
  · have hstring := cString_of_not_mem (zero_not_mem_cString line)
    unfold rewritten
    rw [hstring]
  · obtain ⟨rest', hafter', hnew⟩ := @newLine_again _ last _ _ _ hafter hname
    unfold rewritten
    rw [hafter, hafter']
    dsimp only
    rw [hnew]

/-! ## Two passes over a file -/

theorem written_cons (h : rewritten beName line = some new) (ls : List CStr) :
    written beName (line :: ls) = new ++ written beName ls := by
  rw [written, h]

/-- What replaces a complete line is a complete line. -/
theorem rewritten_line {l : CStr} (hname : NameText beName) (hl : '\n' ∉ l) (hzero : '\x00' ∉ l)
    (h : rewritten beName (l ++ ['\n']) = some new) : ∃ body, new = body ++ ['\n'] ∧ '\n' ∉ body := by
  obtain ⟨-, rfl⟩ | ⟨head, rest, hafter, rfl, -⟩ := rewritten_some h
  · exact ⟨l, cString_of_not_mem (by simpa using hzero), hl⟩
  · obtain ⟨body, hbody, hnl, -⟩ := newLine_eq hname hafter
    exact ⟨body, hbody, hnl⟩

theorem lines_rewritten_last {l : CStr} (hname : NameText beName) (hne : l ≠ []) (hl : '\n' ∉ l)
    (hzero : '\x00' ∉ l) (h : rewritten beName l = some new) : lines '\n' new = [new] := by
  obtain ⟨-, rfl⟩ | ⟨head, rest, hafter, rfl, -⟩ := rewritten_some h
  · rw [cString_of_not_mem hzero]
    exact lines_of_not_mem hne hl
  · obtain ⟨body, hbody, hnl, -⟩ := newLine_eq hname hafter
    rw [hbody, ← List.append_nil (body ++ ['\n']), List.append_assoc, List.singleton_append,
      lines_append hnl, lines_nil]

/-- The lines of the new file are those of the old one, each rewritten. -/
theorem lines_written (hroom : Room beName content) (hzero : '\x00' ∉ content) :
    List.Forall₂ (fun line new => rewritten beName line = some new) (lines '\n' content)
      (lines '\n' (written beName (lines '\n' content))) := by
  obtain ⟨hname, -, hsome⟩ := hroom
  induction content using lines_induction '\n' with
  | nil => exact .nil
  | last l hl hno =>
    rw [lines_of_not_mem hl hno] at hsome ⊢
    obtain ⟨new, hnew⟩ := Option.isSome_iff_exists.mp (hsome l List.mem_cons_self)
    rw [written_cons hnew, written, List.append_nil, lines_rewritten_last hname hl hno hzero hnew]
    exact .cons hnew .nil
  | cons l rest hno ih =>
    rw [lines_append hno] at hsome ⊢
    obtain ⟨hzl, hzrest⟩ : '\x00' ∉ l ∧ '\x00' ∉ rest := by
      simp only [List.mem_append, List.mem_cons, not_or] at hzero
      exact ⟨hzero.1, hzero.2.2⟩
    obtain ⟨new, hnew⟩ := Option.isSome_iff_exists.mp (hsome _ List.mem_cons_self)
    obtain ⟨body, rfl, hbody⟩ := rewritten_line hname hno hzl hnew
    rw [written_cons hnew, List.append_assoc, List.singleton_append, lines_append hbody]
    exact .cons hnew (ih hzrest fun line hline => hsome line (List.mem_cons_of_mem _ hline))

theorem written_congr {ls ls' : List CStr}
    (h : List.Forall₂ (fun line new => rewritten beName new = rewritten beName line) ls ls') :
    written beName ls' = written beName ls := by
  induction h with
  | nil => rfl
  | cons hline _ ih => rw [written, written, hline, ih]

/-- The last pass makes of what another one wrote what it would have made of the file itself. -/
theorem written_again (hroom : Room first content) (hzero : '\x00' ∉ content) :
    written last (lines '\n' (written first (lines '\n' content))) =
      written last (lines '\n' content) :=
  written_congr ((lines_written hroom hzero).imp fun _ _ => rewritten_again hroom.text)

theorem rewritten_length (hfit : line.length < libzeMaxPathLen) (h : rewritten beName line = some new) :
    new.length < libzeMaxPathLen := by
  obtain ⟨-, rfl⟩ | ⟨head, rest, -, rfl, hnew⟩ := rewritten_some h
  · exact (cString_length line).trans_lt hfit
  · exact hnew

/-- Each line of the new file is made of one of the old. -/
theorem exists_line (hroom : Room beName content) (hzero : '\x00' ∉ content)
    (hnew : new ∈ lines '\n' (written beName (lines '\n' content))) :
    ∃ line ∈ lines '\n' content, rewritten beName line = some new := by
  have hall := lines_written hroom hzero
  generalize lines '\n' content = ls at hall hnew ⊢
  generalize lines '\n' (written beName ls) = news at hall hnew
  induction hall with
  | nil => cases hnew
  | @cons line new' rest news' hline _ ih =>
    obtain rfl | hnew := List.mem_cons.mp hnew
    · exact ⟨line, List.mem_cons_self, hline⟩
    · obtain ⟨line', hmem, hline'⟩ := ih hnew
      exact ⟨line', List.mem_cons_of_mem _ hmem, hline'⟩

theorem zero_not_mem_written (hname : NameText first) (ls : List CStr) :
    '\x00' ∉ written first ls := by
  induction ls with
  | nil => exact List.not_mem_nil
  | cons line rest ih =>
    rw [written]
    cases hw : rewritten first line with
    | none => exact List.not_mem_nil
    | some w =>
      intro hmem
      exact (List.mem_append.mp hmem).elim (zero_not_mem_rewritten hname hw) ih

/-- The new file is one as well. -/
theorem loaderFile_written (hfile : LoaderFile content) (hroom : Room beName content) :
    LoaderFile (written beName (lines '\n' content)) := by
  constructor
  · intro new hnew
    obtain ⟨line, hline, hrewritten⟩ := exists_line hroom hfile.zero hnew
    exact rewritten_length (hfile.fits line hline) hrewritten
  · exact zero_not_mem_written hroom.text _

/-- A name that has room in the file has room in what another one made of it. -/
theorem Room.again (hlast : Room last content) (hfirst : Room first content)
    (hzero : '\x00' ∉ content) : Room last (written first (lines '\n' content)) := by
  refine ⟨hlast.text, hlast.fits, ?_⟩
  intro new hnew
  obtain ⟨line, hline, hrewritten⟩ := exists_line hfirst hzero hnew
  rw [rewritten_again hfirst.text hrewritten]
  exact hlast.short line hline

end Line

/-! ## Activations one after the other -/

section Outcome
variable {host : Host} {h : Handle} {beName path efi filename backupError closeError content : CStr}
  {replaceFn : LineReplaceFn} {r : LibzeError} {s t : Sys}

theorem makeTmpfile_spares :
    Issues host (Spares filename) (makeTmpfile host filename backupError) := by
  apply moves_bind (fileAccessible_issues (.access _))
  intro ret
  apply moves_ite (fun _ => moves_pure _)
  intro _
  cases hconcat : libzeUtilConcat filename "." "bak" libzeMaxPathLen with
  | mk err newFilename =>
  dsimp only
  apply moves_ite (fun _ => moves_bind (issues_errorSet _ _) fun _ => moves_pure _)
  intro herr
  rw [not_not.mp herr] at hconcat
  obtain ⟨-, rfl⟩ := (libzeUtilConcat_eq_ok_iff (by decide)).mp hconcat
  apply moves_bind (libzeUtilCopyFile_issues filename (by simp))
  intro code
  apply moves_ite (fun _ => moves_pure _)
  intro _
  apply moves_ite (fun _ => moves_bind (issues_errorSet _ _) fun _ => moves_pure _)
  intro _
  apply moves_bind moves_get
  intro s
  apply moves_bind (issues_call (.mkstemp _))
  intro code
  exact moves_ite (fun _ => moves_bind (issues_errorSet _ _) fun _ => moves_pure _)
    fun _ => moves_pure _

/-- An update in place that fails leaves the file as it was. -/
theorem updateFile_failed (hrule : MkstempRule host)
    (hfn : ∀ line buf, Issues host (Spares filename) (replaceFn line buf))
    (hcontent : s.readFile filename = some content)
    (hr : updateFile host filename backupError closeError replaceFn s = (r, t)) (hne : r ≠ .success) :
    t.readFile filename = some content := by
  rcases hmade : makeTmpfile host filename backupError s with ⟨⟨ret, tmpfile⟩, s1⟩
  have hs1 := readFile_of_spares hrule makeTmpfile_spares hmade hcontent
  by_cases hret : ret = .success
  · subst hret
    obtain ⟨-, -, -, htmp, -⟩ := makeTmpfile_success hrule hmade
    rcases hmatched : replaceMatched host filename tmpfile replaceFn s1 with ⟨ret', s2⟩
    have hs2 := readFile_of_spares hrule (replaceMatched_issues hfn htmp) hmatched hs1
    by_cases hret' : ret' = .success
    · subst hret'
      cases updateFile_end hrule hfn hmade hmatched hr with
      | replaced => exact absurd rfl hne
      | refused _ _ hfile => exact hfile.trans hcontent
    · rw [updateFile, run_bind, hmade] at hr
      dsimp only at hr
      rw [if_neg (by simp), run_bind, hmatched, if_pos hret'] at hr
      exact readFile_of_spares hrule (removeTmpfile_issues htmp _) hr hs2
  · rw [updateFile, run_bind, hmade] at hr
    dsimp only at hr
    rw [if_pos hret] at hr
    cases hr
    exact hs1

/-- An activation updates `loader.conf` or fails before it. -/
theorem postActivate_cases (hr : postActivate host h beName s = (r, t)) :
    (r ≠ .success ∧ ∀ path, t.readFile path = s.readFile path) ∨
      updateLoaderDefault host h (loaderConf (propertyOf h "efi")) beName s = (r, t) := by
  unfold postActivate at hr
  split at hr
  · cases hr
    exact .inl ⟨by decide, fun _ => rfl⟩
  obtain ⟨hne, huntouched⟩ | ⟨-, hr⟩ := pluginPropGet_cases hr
  · exact .inl ⟨hne, huntouched.same⟩
  dsimp only at hr
  cases hconcat : concatPath (propertyOf h "efi") "/" "loader/loader.conf" with
  | none =>
    rw [hconcat] at hr
    cases hr
    exact .inl ⟨by decide, fun _ => rfl⟩
  | some loaderBuf =>
    rw [hconcat] at hr
    obtain rfl := concatPath_some hconcat
    exact .inr hr

/-- An activation that fails leaves `loader.conf` as it was. -/
theorem postActivate_failed (hrule : MkstempRule host)
    (hcontent : s.readFile (loaderConf (propertyOf h "efi")) = some content)
    (hr : postActivate host h beName s = (r, t)) (hne : r ≠ .success) :
    t.readFile (loaderConf (propertyOf h "efi")) = some content := by
  obtain ⟨-, hkeep⟩ | hupdate := postActivate_cases hr
  · exact (hkeep _).trans hcontent
  unfold updateLoaderDefault at hupdate
  split at hupdate
  · cases hupdate
    exact hcontent
  · exact updateFile_failed hrule (fun _ _ => getLoaderLineFromRegex_issues _ _) hcontent hupdate hne

/-- One that succeeds rewrites it. -/
theorem postActivate_written (hwrites : GrantsWrites host) (hrule : MkstempRule host)
    (hfile : LoaderFile content) (hroom : Room beName content)
    (hcontent : s.readFile (loaderConf (propertyOf h "efi")) = some content)
    (hr : postActivate host h beName s = (.success, t)) :
    t.readFile (loaderConf (propertyOf h "efi")) = some (written beName (lines '\n' content)) := by
  obtain ⟨hne, -⟩ | hupdate := postActivate_cases hr
  · exact absurd rfl hne
  · exact updateLoaderDefault_file hwrites hrule hroom.text.backslash hroom.fits hcontent hfile.fits
      hupdate

end Outcome

/-! ## Runs of hooks -/

/-- Hooks in any order, with the names of the activations that succeed. The other hooks work
elsewhere. -/
inductive ActivateRun (host : Host) (efi : CStr) : Sys → List CStr → Sys → Prop
  | start (s : Sys) : ActivateRun host efi s [] s
  | between {s u v : Sys} {names : List CStr} (hrun : ActivateRun host efi s names u)
      (hfiles : v.files = u.files) : ActivateRun host efi s names v
  | other {s u : Sys} {names : List CStr} {h : Handle} {mountpointBuf : CStr} {hook : Hook}
      (hrun : ActivateRun host efi s names u)
      (haway : ¬ Area host h mountpointBuf u (loaderConf efi) hook) :
      ActivateRun host efi s names (exportedPlugin host h mountpointBuf hook u).2
  | failed {s u : Sys} {names : List CStr} {h : Handle} {beName : CStr}
      (hrun : ActivateRun host efi s names u) (hefi : propertyOf h "efi" = efi)
      (hfail : (postActivate host h beName u).1 ≠ .success) :
      ActivateRun host efi s names (postActivate host h beName u).2
  | activated {s u : Sys} {names : List CStr} {h : Handle} {beName : CStr}
      (hrun : ActivateRun host efi s names u) (hefi : propertyOf h "efi" = efi)
      (hok : (postActivate host h beName u).1 = .success) :
      ActivateRun host efi s (names ++ [beName]) (postActivate host h beName u).2

/-- What the activations make of a file: what the last of them does. -/
def lastWritten (content : CStr) (names : List CStr) : CStr :=
  (names.getLast?.map fun beName => written beName (lines '\n' content)).getD content

section Runs
variable {host : Host} {efi content : CStr} {names : List CStr} {s t : Sys}

theorem lastWritten_concat (name : CStr) :
    lastWritten content (names ++ [name]) = written name (lines '\n' content) := by
  rw [lastWritten, List.getLast?_concat]
  rfl

/-- The file behind some activations, and another name in it. -/
theorem lastWritten_again {name : CStr} (hfile : LoaderFile content) (hname : Room name content)
    (hrooms : ∀ name ∈ names, Room name content) :
    LoaderFile (lastWritten content names) ∧ Room name (lastWritten content names) ∧
      written name (lines '\n' (lastWritten content names)) = written name (lines '\n' content) := by
  cases hlast : names.getLast? with
  | none =>
    rw [lastWritten, hlast]
    exact ⟨hfile, hname, rfl⟩
  | some first =>
    have hfirst := hrooms first (List.mem_of_getLast? hlast)
    rw [lastWritten, hlast]
    exact ⟨loaderFile_written hfile hfirst, hname.again hfirst hfile.zero,
      written_again hfirst hfile.zero⟩

/-- However many activations there are, and whatever else is done and fails in between,
`loader.conf` is what the last activation that succeeds would have made of the first file. -/
theorem activations_last (hwrites : GrantsWrites host) (hmkstemp : MkstempRule host)
    (htemplate : TemplateRule host) (hrun : ActivateRun host efi s names t)
    (hfile : LoaderFile content) (hrooms : ∀ name ∈ names, Room name content)
    (hcontent : s.readFile (loaderConf efi) = some content) :
    t.readFile (loaderConf efi) = some (lastWritten content names) := by
  induction hrun with
  | start => exact hcontent
  | between _ hfiles ih => exact (readFile_of_files hfiles).trans (ih hrooms)
  | other _ haway ih =>
    exact (hook_outside htemplate (run_eq_of_fst rfl) haway).trans (ih hrooms)
  | failed _ hefi hfail ih =>
    subst hefi
    exact postActivate_failed hmkstemp (ih hrooms) (run_eq_of_fst rfl) hfail
  | activated _ hefi hok ih =>
    subst hefi
    have hbefore := fun name hname => hrooms name (List.mem_append_left _ hname)
    have hname := hrooms _ (List.mem_append_right _ (List.mem_singleton_self _))
    obtain ⟨hfile', hroom, hagain⟩ := lastWritten_again hfile hname hbefore
    rw [postActivate_written hwrites hmkstemp hfile' hroom (ih hbefore)
      (run_eq_of_fst hok), hagain, lastWritten_concat]

/-- The system with a `loader.conf` on its EFI system partition. -/
def loaderSys : Sys :=
  { sampleSys [] with files := [("/efi/loader/loader.conf", "timeout 3\ndefault  x\n")] }

theorem room_sample (name : CStr) (hname : name = "a" ∨ name = "b") :
    Room name "timeout 3\ndefault  x\n" := by
  obtain rfl | rfl := hname
  · refine ⟨⟨by decide +kernel, by decide +kernel, by decide +kernel⟩, ?_, by decide +kernel⟩
    unfold NameFits
    decide +kernel
  · refine ⟨sampleName, ?_, by decide +kernel⟩
    unfold NameFits
    decide +kernel

theorem activations_last_sample :
    (postActivate obliging pluginHandle "b"
      (postActivate obliging pluginHandle "a" loaderSys).2).2.readFile (loaderConf "/efi") =
        some "timeout 3\ndefault  org.zectl-b.conf\n" := by
  have hfirst : (postActivate obliging pluginHandle "a" loaderSys).1 = .success := by decide +kernel
  have hsecond : (postActivate obliging pluginHandle "b"
      (postActivate obliging pluginHandle "a" loaderSys).2).1 = .success := by
    decide +kernel
  have hrun : ActivateRun obliging "/efi" loaderSys ["a", "b"]
      (postActivate obliging pluginHandle "b"
        (postActivate obliging pluginHandle "a" loaderSys).2).2 :=
    .activated (.activated (.start _) plugin_efi hfirst) plugin_efi hsecond
  have hfile : LoaderFile "timeout 3\ndefault  x\n" := by
    constructor
    · unfold Fits
      decide +kernel
    · decide +kernel
  have hlast := activations_last obliging_grantsWrites obliging_mkstempRule (fun _ _ => ⟨_, rfl⟩) hrun
    hfile (fun name hname => room_sample name (by simpa using hname)) rfl
  rw [hlast]
  decide +kernel

end Runs

end Zectl.Systemdboot.Activations
