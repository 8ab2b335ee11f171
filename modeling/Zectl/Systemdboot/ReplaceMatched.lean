import Zectl.Lib.Lines
import Zectl.Util.Files
import Zectl.Util.Replace

/-!
# Rewriting a file line by line

`replace_matched` and what `update_loader_default` and `update_fstab` do around it: a
backup, a temporary file with the rewritten lines, and the temporary file renamed over the
original.
-/

namespace Zectl.Systemdboot.ReplaceMatched

open Zectl.Lib.StateRun Zectl.Lib.Lines Zectl.Lib.BasicRegex Zectl.Util.CString Zectl.Util.Files
open Zectl.Util.Replace Zectl.Zfs.System Zectl.Zfs.Steps

/-- `line_replace_fn`: `line_buf` and what `replace_line_buf` holds before the call. -/
abbrev LineReplaceFn := CStr → CStr → Libze (LibzeError × CStr)

/-- `file_accessible` -/
def fileAccessible (host : Host) (filename : CStr) : Libze LibzeError := do
  let errno ← call host (.file (.access filename))
  if errno = 0 then return .success
  if errno = eacces then
    return ← libzeErrorSet .eperm (format ["File is not in read/write mode (", filename, ").\n"])
  if errno = enametoolong then
    return ← libzeErrorSet .maxpathlen (format ["File exceeds max path length (", filename,
      ").\n"])
  libzeErrorSet .unknown (format ["File could not be accessed (", filename, ").\n"])

/-- What the successive `fgets` of the loop read. -/
def readLines (content : CStr) : List CStr := reads '\n' libzeMaxPathLen content

/-- The loop of `replace_matched`. -/
def replaceLines (host : Host) (filenameNew : CStr) (replaceFn : LineReplaceFn) :
    List CStr → CStr → Libze LibzeError
  | [], _ => return .success
  | lineBuf :: rest, replaceLineBuf => do
    let (ret, replaceLineBuf) ← replaceFn lineBuf replaceLineBuf
    if ret ≠ .success then return ret
    let _ ← call host (.file (.fwrite filenameNew replaceLineBuf))
    replaceLines host filenameNew replaceFn rest replaceLineBuf

/-- `replace_matched`, which drops what the loop returned. -/
def replaceMatched (host : Host) (filename filenameNew : CStr) (replaceFn : LineReplaceFn) :
    Libze LibzeError := do
  if (← call host (.file (.fopenWrite filenameNew))) ≠ 0 then
    return ← libzeErrorSet .unknown "Failed to open (null).\n"
  match ← fopenRead host filename with
  | .error _ => libzeErrorSet .unknown (format ["Failed to open ", filename, ".\n"])
  | .ok content =>
    let _ ← replaceLines host filenameNew replaceFn (readLines content) []
    return .success

/-- The two callers of `replace_matched` up to it: the temporary file they make. -/
def makeTmpfile (host : Host) (filename backupError : CStr) : Libze (LibzeError × CStr) := do
  let ret ← fileAccessible host filename
  if ret ≠ .success then return (ret, [])
  let (err, newFilename) := libzeUtilConcat filename "." "bak" libzeMaxPathLen
  if err ≠ 0 then return (← libzeErrorSet .maxpathlen backupError, [])
  let ret ← libzeUtilCopyFile host filename newFilename
  if ret ≠ 0 then return (.ofCode ret, [])
  let (interr, template) :=
    libzeUtilConcat filename "." "zectl-sdboot.XXXXXX" libzeMaxPathLen
  if interr ≠ 0 then
    return (← libzeErrorSet .maxpathlen "Temporary boot mount unit exceeds max path length.\n", [])
  let s ← get
  if (← call host (.file (.mkstemp (host.tmpName s template)))) ≠ 0 then
    return (← libzeErrorSet .unknown "Failed to create temporary file\n", [])
  return (.success, host.tmpName s template)

/-- The label `err`. -/
def removeTmpfile (host : Host) (tmpfile message : CStr) : Libze LibzeError := do
  let ret ← libzeErrorSet .unknown message
  let _ ← call host (.file (.remove tmpfile))
  return ret

/-- The two callers of `replace_matched` from the temporary file on. The message of a failed
`close` prints the descriptor as a string; what the code does there is undefined, and the model
goes on as if the descriptor were not printed. -/
def updateFile (host : Host) (filename backupError closeError : CStr) (replaceFn : LineReplaceFn) :
    Libze LibzeError := do
  let (ret, tmpfile) ← makeTmpfile host filename backupError
  if ret ≠ .success then return ret
  let ret ← replaceMatched host filename tmpfile replaceFn
  if ret ≠ .success then
    return ← removeTmpfile host tmpfile (format ["Failed to replace lines in ", tmpfile, ".\n"])
  if (← call host (.file (.close tmpfile))) ≠ 0 then
    return ← removeTmpfile host tmpfile (format [closeError, " of ", tmpfile, ".\n"])
  if (← call host (.file (.rename tmpfile filename))) ≠ 0 then
    return ← removeTmpfile host tmpfile (format ["Failed to replace ", filename, ".\n"])
  return .success

/-- What the callbacks have in common: a line that matches is rewritten by the template,
another one is copied. No template reads what is before the output, as its first group is
never empty. -/
def rewriteLine (re : Bre) (replaceTwo line replaceLineBuf : CStr) : Libze (LibzeError × CStr) := do
  match regexec re (cString line) with
  | none =>
    let (len, copied) := strlcpy (cString line) libzeMaxPathLen
    if libzeMaxPathLen ≤ len then
      return (← libzeErrorSet .maxpathlen "Exceeded max path length for line buffer.
", copied)
    return (.success, copied)
  | some _ =>
    match libzeUtilRegexSubexprReplace re libzeMaxPathLen replaceTwo (cString line)
      libzeMaxPathLen with
    | none => return (.unknown, replaceLineBuf)
    | some (ret, replaced) =>
      if ret ≠ .success then
        return (← libzeErrorSet ret "Exceeded max path length for regex buffer.
", replaced)
      return (.success, replaced)

/-! ## What the calls leave -/

section Frame
variable {host : Host} {filename filenameNew file backupError : CStr} {replaceFn : LineReplaceFn}
  {s t : Sys}

theorem fileAccessible_files {r : LibzeError} (hr : fileAccessible host filename s = (r, t)) :
    t.files = s.files := by
  have hissues : Issues host (· = .file (.access filename)) (fileAccessible host filename) := by
    unfold fileAccessible
    repeat' first
      | exact moves_pure _
      | exact issues_errorSet _ _
      | exact issues_call rfl
      | refine moves_bind ?_ fun _ => ?_
      | split
  have hkeep := hissues.keeps (fun u => u.files = s.files) (fun _ _ _ _ hu => hu)
    (fun u c hc _ hu => by
      subst hc
      exact hu) rfl
  rwa [hr] at hkeep

/-- What a write adds to a file. An empty text adds nothing, whether it is written or not. -/
theorem readFile_fwrite {text acc : CStr} (hs : s.readFile file = some acc)
    (hdone : text = [] ∨ host.answer s (.file (.fwrite file text)) = 0) :
    (call host (.file (.fwrite file text)) s).2.readFile file = some (acc ++ text) := by
  by_cases hgranted : host.answer s (.file (.fwrite file text)) = 0
  · rw [call_granted hgranted]
    show (Call.effect host s (.file (.fwrite file text))).readFile file = some (acc ++ text)
    simp only [Call.effect, FileCall.effect, hs]
    exact readFile_putFile_self
  · obtain rfl : text = [] := hdone.resolve_right hgranted
    rw [call_refused (run_eq_of_fst rfl) hgranted, List.append_nil]
    exact hs

theorem readFile_fwrite_refused {text acc : CStr} (hs : s.readFile file = some acc)
    (hrefused : host.answer s (.file (.fwrite file text)) ≠ 0) :
    (call host (.file (.fwrite file text)) s).2.readFile file = some acc := by
  rw [call_refused (run_eq_of_fst rfl) hrefused]
  exact hs

theorem rewriteLine_issues (re : Bre) (replaceTwo line buf : CStr) {may : Call → Prop} :
    Issues host may (rewriteLine re replaceTwo line buf) := by
  unfold rewriteLine
  repeat' first
    | exact moves_pure _
    | exact issues_errorSet _ _
    | refine moves_bind ?_ fun _ => ?_
    | split

theorem replaceLines_issues (hfn : ∀ line buf, Issues host (Spares file) (replaceFn line buf))
    (hne : file ≠ filenameNew) (lines : List CStr) (buf : CStr) :
    Issues host (Spares file) (replaceLines host filenameNew replaceFn lines buf) := by
  induction lines generalizing buf with
  | nil => exact moves_pure _
  | cons line rest ih =>
    refine moves_bind (hfn line buf) fun r => moves_ite (fun _ => moves_pure _) fun _ => ?_
    exact moves_bind (issues_call (.fwrite _ hne)) fun _ => ih _

theorem replaceMatched_issues (hfn : ∀ line buf, Issues host (Spares file) (replaceFn line buf))
    (hne : file ≠ filenameNew) :
    Issues host (Spares file) (replaceMatched host filename filenameNew replaceFn) := by
  unfold replaceMatched
  refine moves_bind (issues_call (.fopenWrite hne)) fun code => ?_
  refine moves_ite (fun _ => issues_errorSet _ _) fun _ => ?_
  refine moves_bind (fopenRead_issues filename) fun r => ?_
  split
  · exact issues_errorSet _ _
  · exact moves_bind (replaceLines_issues hfn hne _ _) fun _ => moves_pure _

theorem removeTmpfile_issues {tmpfile : CStr} (hne : file ≠ tmpfile) (message : CStr) :
    Issues host (Spares file) (removeTmpfile host tmpfile message) :=
  moves_bind (issues_errorSet _ _) fun _ =>
    moves_bind (issues_call (.remove hne)) fun _ => moves_pure _

/-- A temporary file that is made is empty, and another file than the original. -/
theorem makeTmpfile_success (hrule : MkstempRule host) {tmpfile : CStr}
    (hr : makeTmpfile host filename backupError s = ((.success, tmpfile), t)) :
    ∃ content, s.readFile filename = some content ∧ t.readFile filename = some content ∧
      filename ≠ tmpfile ∧ t.readFile tmpfile = some [] := by
  unfold makeTmpfile at hr
  obtain ⟨ret, s1, haccess, hr⟩ := bind_run hr
  split at hr
  · rename_i hret
    cases hr
    exact absurd rfl hret
  rcases hconcat : libzeUtilConcat filename "." "bak" libzeMaxPathLen with ⟨err, newFilename⟩
  rw [hconcat] at hr
  dsimp only at hr
  split at hr
  · cases hr
  rename_i herr
  rw [not_not.mp herr] at hconcat
  obtain ⟨-, rfl⟩ := (libzeUtilConcat_eq_ok_iff (by decide)).mp hconcat
  obtain ⟨code, s2, hcopy, hr⟩ := bind_run hr
  split at hr
  · rename_i hcode
    obtain ⟨hret, -⟩ := Prod.mk.inj (Prod.mk.inj hr).1
    exact absurd hret (ofCode_ne_success hcode)
  rename_i hcode
  rw [not_not.mp hcode] at hcopy
  rcases htemplate : libzeUtilConcat filename "." "zectl-sdboot.XXXXXX" libzeMaxPathLen with
    ⟨interr, template⟩
  rw [htemplate] at hr
  dsimp only at hr
  split at hr
  · cases hr
  rw [run_get_bind] at hr
  obtain ⟨code', s3, hmk, hr⟩ := bind_run hr
  split at hr
  · cases hr
  rename_i hcode'
  rw [not_not.mp hcode'] at hmk
  cases hr
  obtain ⟨content, hcontent⟩ := libzeUtilCopyFile_done hcopy
  have hne : filename ≠ filename ++ "." ++ "bak" := by simp
  have hs2 := readFile_of_spares hrule (libzeUtilCopyFile_issues filename hne) hcopy hcontent
  obtain ⟨hgranted, rfl⟩ := call_done hmk
  have htmp : filename ≠ host.tmpName s2 template := fun heq =>
    hrule s2 _ (by simp [← heq, hs2]) hgranted
  refine ⟨content, ?_, ?_, htmp, readFile_putFile_self⟩
  · rw [Sys.readFile, ← fileAccessible_files haccess]
    exact hcontent
  · exact (readFile_putFile_of_ne htmp).trans hs2

end Frame

/-! ## A line on which the callback fails -/

/-- The callback returns `err` on one of the lines, after it has rewritten those before. -/
inductive FailsOn (host : Host) (filenameNew : CStr) (replaceFn : LineReplaceFn) :
    List CStr → CStr → Sys → LibzeError → Prop
  | here {line buf buf' : CStr} {rest : List CStr} {s t : Sys} {err : LibzeError}
      (hfn : replaceFn line buf s = ((err, buf'), t)) (herr : err ≠ .success) :
      FailsOn host filenameNew replaceFn (line :: rest) buf s err
  | later {line buf buf' : CStr} {rest : List CStr} {s t : Sys} {err : LibzeError}
      (hfn : replaceFn line buf s = ((.success, buf'), t))
      (hrest : FailsOn host filenameNew replaceFn rest buf'
        (call host (.file (.fwrite filenameNew buf')) t).2 err) :
      FailsOn host filenameNew replaceFn (line :: rest) buf s err

/-- The callback fails in a run of `replace_matched`. -/
def MatchedFails (host : Host) (filename filenameNew : CStr) (replaceFn : LineReplaceFn) (s : Sys)
    (err : LibzeError) : Prop :=
  ∃ content s1 s2, call host (.file (.fopenWrite filenameNew)) s = (0, s1) ∧
    fopenRead host filename s1 = (.ok content, s2) ∧
    FailsOn host filenameNew replaceFn (readLines content) [] s2 err

/-- The callback fails in a run of a caller of `replace_matched`. -/
def UpdateFails (host : Host) (filename backupError : CStr) (replaceFn : LineReplaceFn) (s : Sys)
    (err : LibzeError) : Prop :=
  ∃ tmpfile s1, makeTmpfile host filename backupError s = ((.success, tmpfile), s1) ∧
    MatchedFails host filename tmpfile replaceFn s1 err

/-- The temporary file can be closed behind the rewritten lines. -/
def CloseGranted (host : Host) (filename backupError : CStr) (replaceFn : LineReplaceFn) (s : Sys) :
    Prop :=
  ∀ tmpfile s1, makeTmpfile host filename backupError s = ((.success, tmpfile), s1) →
    host.answer (replaceMatched host filename tmpfile replaceFn s1).2 (.file (.close tmpfile)) = 0

/-- The temporary file cannot take the place of the original. -/
def Refused (host : Host) (filename backupError : CStr) (replaceFn : LineReplaceFn) (s : Sys) :
    Prop :=
  ∀ tmpfile s1, makeTmpfile host filename backupError s = ((.success, tmpfile), s1) →
    let s2 := (replaceMatched host filename tmpfile replaceFn s1).2
    let s3 := (call host (.file (.close tmpfile)) s2).2
    host.answer s3 (.file (.rename tmpfile filename)) ≠ 0

section Failure
variable {host : Host} {filename filenameNew backupError closeError : CStr}
  {replaceFn : LineReplaceFn} {s t : Sys}

theorem FailsOn.ne_success {lines : List CStr} {buf : CStr} {err : LibzeError}
    (h : FailsOn host filenameNew replaceFn lines buf s err) : err ≠ .success := by
  induction h with
  | here _ herr => exact herr
  | later _ _ ih => exact ih

/-- The loop knows: it returns what the callback returned. -/
theorem failsOn_iff {lines : List CStr} {buf : CStr} {err : LibzeError} (herr : err ≠ .success) :
    FailsOn host filenameNew replaceFn lines buf s err ↔
      (replaceLines host filenameNew replaceFn lines buf s).1 = err := by
  constructor
  · intro h
    induction h with
    | here hfn herr =>
      rw [replaceLines, run_bind, hfn]
      dsimp only
      rw [if_pos herr]
      rfl
    | later hfn _ ih =>
      rw [replaceLines, run_bind, hfn]
      exact ih herr
  · intro h
    induction lines generalizing buf s with
    | nil => exact absurd h.symm herr
    | cons line rest ih =>
      rcases hfn : replaceFn line buf s with ⟨⟨ret, buf'⟩, t⟩
      rw [replaceLines, run_bind, hfn] at h
      dsimp only at h
      by_cases hret : ret = .success
      · subst hret
        exact .later hfn (ih h)
      · rw [if_pos hret] at h
        obtain rfl : ret = err := h
        exact .here hfn hret

theorem MatchedFails.ne_success {err : LibzeError}
    (h : MatchedFails host filename filenameNew replaceFn s err) : err ≠ .success := by
  obtain ⟨_, _, _, _, _, hlines⟩ := h
  exact hlines.ne_success

/-- Whatever the loop returned, `replace_matched` returns success. -/
theorem replaceMatched_success {err : LibzeError}
    (h : MatchedFails host filename filenameNew replaceFn s err) :
    (replaceMatched host filename filenameNew replaceFn s).1 = .success := by
  obtain ⟨content, s1, s2, hopen, hread, -⟩ := h
  rw [replaceMatched, run_bind, hopen, if_neg (by simp), run_bind, hread]
  rfl

theorem replaceMatched_reports_iff :
    (∀ err, MatchedFails host filename filenameNew replaceFn s err →
      (replaceMatched host filename filenameNew replaceFn s).1 = err) ↔
    ∀ err, ¬ MatchedFails host filename filenameNew replaceFn s err := by
  constructor
  · intro h err hfail
    exact hfail.ne_success ((h err hfail).symm.trans (replaceMatched_success hfail))
  · exact fun h err hfail => absurd hfail (h err)

theorem replaceMatched_ran (hr : replaceMatched host filename filenameNew replaceFn s = (.success, t)) :
    ∃ content s1 s2, call host (.file (.fopenWrite filenameNew)) s = (0, s1) ∧
      fopenRead host filename s1 = (.ok content, s2) ∧
      (replaceLines host filenameNew replaceFn (readLines content) [] s2).2 = t := by
  unfold replaceMatched at hr
  obtain ⟨code, s1, hopen, hr⟩ := bind_run hr
  split at hr
  · cases hr
  rename_i hcode
  rw [not_not.mp hcode] at hopen
  obtain ⟨read, s2, hread, hr⟩ := bind_run hr
  cases read with
  | error _ => cases hr
  | ok content =>
    obtain ⟨ret, s3, hlines, hr⟩ := bind_run hr
    cases hr
    exact ⟨content, s1, s2, hopen, hread, by rw [hlines]⟩

theorem updateFile_made
    (hr : updateFile host filename backupError closeError replaceFn s = (.success, t)) :
    ∃ tmpfile s1 s2, makeTmpfile host filename backupError s = ((.success, tmpfile), s1) ∧
      replaceMatched host filename tmpfile replaceFn s1 = (.success, s2) := by
  unfold updateFile at hr
  obtain ⟨⟨ret, tmpfile⟩, s1, hmade, hr⟩ := bind_run hr
  dsimp only at hr
  split at hr
  · rename_i hret
    cases hr
    exact absurd rfl hret
  rename_i hret
  rw [not_not.mp hret] at hmade
  obtain ⟨ret', s2, hmatched, hr⟩ := bind_run hr
  split at hr
  · cases hr
  rename_i hret'
  rw [not_not.mp hret'] at hmatched
  exact ⟨tmpfile, s1, s2, hmade, hmatched⟩

/-- How a caller ends when `replace_matched` reported success. -/
inductive UpdateEnd (host : Host) (filename tmpfile : CStr) (s s2 : Sys) : LibzeError → Sys → Prop
  | replaced {s3 t : Sys} (hclose : call host (.file (.close tmpfile)) s2 = (0, s3))
      (hrename : call host (.file (.rename tmpfile filename)) s3 = (0, t)) :
      UpdateEnd host filename tmpfile s s2 .success t
  | refused {r : LibzeError} {t : Sys}
      (hcalls : host.answer s2 (.file (.close tmpfile)) ≠ 0 ∨
        host.answer (call host (.file (.close tmpfile)) s2).2 (.file (.rename tmpfile filename)) ≠ 0)
      (hr : r ≠ .success) (hfile : t.readFile filename = s.readFile filename) :
      UpdateEnd host filename tmpfile s s2 r t

theorem updateFile_end (hrule : MkstempRule host)
    (hfn : ∀ line buf, Issues host (Spares filename) (replaceFn line buf)) {tmpfile : CStr}
    {s1 s2 : Sys} {r : LibzeError}
    (hmade : makeTmpfile host filename backupError s = ((.success, tmpfile), s1))
    (hmatched : replaceMatched host filename tmpfile replaceFn s1 = (.success, s2))
    (hr : updateFile host filename backupError closeError replaceFn s = (r, t)) :
    UpdateEnd host filename tmpfile s s2 r t := by
  obtain ⟨content, hs, hs1, hne, -⟩ := makeTmpfile_success hrule hmade
  have hs2 := readFile_of_spares hrule (replaceMatched_issues hfn hne) hmatched hs1
  have hremove : ∀ {u v : Sys} {r : LibzeError} {message : CStr},
      u.readFile filename = some content → removeTmpfile host tmpfile message u = (r, v) →
      r ≠ .success ∧ v.readFile filename = s.readFile filename := by
    intro u v r message hu hrun
    have hv := readFile_of_spares hrule (removeTmpfile_issues hne message) hrun hu
    cases hrun
    exact ⟨LibzeError.noConfusion, hv.trans hs.symm⟩
  rw [updateFile, run_bind, hmade] at hr
  dsimp only at hr
  rw [if_neg (by simp), run_bind, hmatched, if_neg (by simp)] at hr
  obtain ⟨code, s3, hclose, hr⟩ := bind_run hr
  have hs3 := readFile_of_spares hrule (issues_call (.close tmpfile)) hclose hs2
  split at hr
  · rename_i hcode
    obtain ⟨hne', hfile⟩ := hremove hs3 hr
    refine .refused (.inl ?_) hne' hfile
    rw [call] at hclose
    cases hclose
    exact hcode
  rename_i hcode
  rw [not_not.mp hcode] at hclose
  obtain ⟨code', s4, hrename, hr⟩ := bind_run hr
  split at hr
  · rename_i hcode'
    have hs4 : s4.readFile filename = some content := by
      rw [call_refused hrename hcode']
      exact hs3
    obtain ⟨hne', hfile⟩ := hremove hs4 hr
    refine .refused (.inr ?_) hne' hfile
    rw [hclose]
    rw [call] at hrename
    cases hrename
    exact hcode'
  rename_i hcode'
  rw [not_not.mp hcode'] at hrename
  cases hr
  exact .replaced hclose hrename

/-- The callers report the failure exactly when the temporary file cannot take the place
of the original. -/
theorem updateFile_keeps_iff (hrule : MkstempRule host)
    (hfn : ∀ line buf, Issues host (Spares filename) (replaceFn line buf)) {r : LibzeError}
    (hclosed : CloseGranted host filename backupError replaceFn s)
    (hr : updateFile host filename backupError closeError replaceFn s = (r, t)) :
    (∀ err, UpdateFails host filename backupError replaceFn s err →
      r ≠ .success ∧ t.readFile filename = s.readFile filename) ↔
    (∀ err, ¬ UpdateFails host filename backupError replaceFn s err) ∨
      Refused host filename backupError replaceFn s := by
  have hend : ∀ tmpfile s1 err, makeTmpfile host filename backupError s = ((.success, tmpfile), s1) →
      MatchedFails host filename tmpfile replaceFn s1 err → UpdateEnd host filename tmpfile s
        (replaceMatched host filename tmpfile replaceFn s1).2 r t := fun _ _ _ hmade hmatched =>
    updateFile_end hrule hfn hmade (run_eq_of_fst (replaceMatched_success hmatched)) hr
  constructor
  · intro h
    by_cases hfails : ∃ err, UpdateFails host filename backupError replaceFn s err
    · obtain ⟨err, hfail⟩ := hfails
      obtain ⟨hne, -⟩ := h err hfail
      obtain ⟨tmpfile, s1, hmade, hmatched⟩ := hfail
      refine .inr fun tmpfile' s1' hmade' => ?_
      obtain ⟨hmk, rfl⟩ := Prod.mk.inj (hmade.symm.trans hmade')
      obtain ⟨-, rfl⟩ := Prod.mk.inj hmk
      cases hend tmpfile s1 err hmade hmatched with
      | replaced => exact absurd rfl hne
      | refused hcalls => exact hcalls.resolve_left (not_not.mpr (hclosed tmpfile s1 hmade))
    · exact .inl (not_exists.mp hfails)
  · rintro (hno | hrefused) err hfail
    · exact absurd hfail (hno err)
    · obtain ⟨tmpfile, s1, hmade, hmatched⟩ := hfail
      cases hend tmpfile s1 err hmade hmatched with
      | refused _ hne hfile => exact ⟨hne, hfile⟩
      | replaced hclose hrename =>
        have hcode := hrefused tmpfile s1 hmade
        simp only [hclose] at hcode
        exact absurd (call_done hrename).1 hcode

end Failure

end Zectl.Systemdboot.ReplaceMatched
