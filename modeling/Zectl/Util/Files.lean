import Zectl.Zfs.Steps

/-!
# Files

Opening and copying files, and what the documentation of the C library says of the
calls the plugin relies on. Reading never fails once a file is open.
-/

namespace Zectl.Util.Files

open Zectl.Lib.StateRun Zectl.Util.CString Zectl.Zfs.System Zectl.Zfs.Steps

def enoent : Nat := 2
def eacces : Nat := 13
def enotdir : Nat := 20
def enametoolong : Nat := 36

/-- `fopen` for reading: the content of the file or `errno`. -/
def fopenRead (host : Host) (path : CStr) : Libze (Except Nat CStr) := do
  match (← get).readFile path with
  | none => return .error enoent
  | some content =>
    let code ← call host (.file (.fopenRead path))
    if code ≠ 0 then return .error code
    return .ok content

/-- `fwrite`, as far as there is something to write. -/
def writeText (host : Host) (path text : CStr) : Libze Nat := do
  if text = [] then return 0
  call host (.file (.fwrite path text))

/-- `libze_util_copy_file`. What the stream holds back at the end of the file is written when it
is flushed and closed, and nobody asks whether it was. -/
def libzeUtilCopyFile (host : Host) (filename newFilename : CStr) : Libze Nat := do
  match ← fopenRead host filename with
  | .error code => return code
  | .ok content =>
    let code ← call host (.file (.fopenWrite newFilename))
    if code ≠ 0 then return code
    let passedOn := content.length - host.buffered newFilename content
    let code ← writeText host newFilename (content.take passedOn)
    if code ≠ 0 then return code
    let _ ← writeText host newFilename (content.drop passedOn)
    return 0

/-- The volume has room for what is written. -/
def GrantsWrites (host : Host) : Prop :=
  ∀ s path text, host.answer s (.file (.fwrite path text)) = 0

/-- `mkstemp` makes a file that was not there. -/
def MkstempRule (host : Host) : Prop :=
  ∀ s path, s.readFile path ≠ none → host.answer s (.file (.mkstemp path)) ≠ 0

/-! ## What a call leaves of a file -/

section Frame
variable {host : Host} {s t : Sys} {path file text : CStr}

@[simp] theorem readFile_putFile_self : (s.putFile path text).readFile path = some text := by
  simp [Sys.readFile, Sys.putFile]

theorem lookup_filter_ne {files : List (CStr × CStr)} (h : file ≠ path) :
    (files.filter fun f => f.1 ≠ path).lookup file = files.lookup file := by
  induction files with
  | nil => rfl
  | cons f files ih =>
    obtain ⟨name, content⟩ := f
    by_cases hname : name = path
    · have hne : (file == name) = false := by simpa [hname] using h
      rw [List.filter_cons_of_neg (by simpa using hname), ih, List.lookup_cons, hne]
    · rw [List.filter_cons_of_pos (by simpa using hname), List.lookup_cons, List.lookup_cons, ih]

theorem readFile_putFile_of_ne (h : file ≠ path) :
    (s.putFile path text).readFile file = s.readFile file := by
  have hne : (file == path) = false := by simpa using h
  rw [Sys.readFile, Sys.putFile, List.lookup_cons, hne, lookup_filter_ne h, Sys.readFile]

theorem readFile_removeFile_of_ne (h : file ≠ path) :
    (s.removeFile path).readFile file = s.readFile file := lookup_filter_ne h

@[simp] theorem readFile_removeFile_self : (s.removeFile path).readFile path = none := by
  rw [Sys.readFile, Sys.removeFile, List.lookup_eq_none_iff]
  intro f hf
  have hne : f.1 ≠ path := of_decide_eq_true (List.mem_filter.mp hf).2
  exact bne_iff_ne.mpr hne.symm

/-- The calls that work on other files than `file`, or only look at it. -/
inductive Spares (file : CStr) : Call → Prop
  | access (path : CStr) : Spares file (.file (.access path))
  | fopenRead (path : CStr) : Spares file (.file (.fopenRead path))
  | close (path : CStr) : Spares file (.file (.close path))
  | mkstemp (path : CStr) : Spares file (.file (.mkstemp path))
  | fopenWrite {path : CStr} (h : file ≠ path) : Spares file (.file (.fopenWrite path))
  | fwrite {path : CStr} (text : CStr) (h : file ≠ path) : Spares file (.file (.fwrite path text))
  | remove {path : CStr} (h : file ≠ path) : Spares file (.file (.remove path))

theorem Spares.readFile {c : Call} {content : CStr} (hrule : MkstempRule host)
    (hc : Spares file c) (hcode : host.answer s c = 0) (hs : s.readFile file = some content) :
    (c.effect host s).readFile file = some content := by
  cases hc with
  | access path => exact hs
  | fopenRead path => exact hs
  | close path => exact hs
  | mkstemp path =>
    have hne : file ≠ path := by
      rintro rfl
      exact hrule s file (by simp [hs]) hcode
    exact (readFile_putFile_of_ne hne).trans hs
  | fopenWrite hne => exact (readFile_putFile_of_ne hne).trans hs
  | fwrite text hne =>
    simp only [Call.effect, FileCall.effect]
    split
    · exact hs
    · exact (readFile_putFile_of_ne hne).trans hs
  | remove hne => exact (readFile_removeFile_of_ne hne).trans hs

/-- A program that spares a file leaves it as it is. -/
theorem readFile_of_spares {α : Type} {m : Libze α} {a : α} {content : CStr}
    (hrule : MkstempRule host) (h : Issues host (Spares file) m) (hr : m s = (a, t))
    (hs : s.readFile file = some content) : t.readFile file = some content := by
  have hkeep := h.keeps (fun u => u.readFile file = some content) (fun _ _ _ _ hu => hu)
    (fun u c hc hcode hu => hc.readFile hrule hcode hu) hs
  rwa [hr] at hkeep

theorem fopenRead_may {may : Call → Prop} (hread : may (.file (.fopenRead path))) :
    Issues host may (fopenRead host path) := by
  unfold fopenRead
  refine moves_bind moves_get fun s => ?_
  split
  · exact moves_pure _
  · refine moves_bind (issues_call hread) fun code => ?_
    split <;> exact moves_pure _

theorem fopenRead_issues (path : CStr) : Issues host (Spares file) (fopenRead host path) :=
  fopenRead_may (.fopenRead path)

theorem writeText_issues {may : Call → Prop} (hwrite : may (.file (.fwrite path text))) :
    Issues host may (writeText host path text) :=
  moves_ite (fun _ => moves_pure _) fun _ => issues_call hwrite

theorem libzeUtilCopyFile_issues {newFilename : CStr} (filename : CStr) (h : file ≠ newFilename) :
    Issues host (Spares file) (libzeUtilCopyFile host filename newFilename) := by
  unfold libzeUtilCopyFile
  refine moves_bind (fopenRead_issues filename) fun r => ?_
  split
  · exact moves_pure _
  · refine moves_bind (issues_call (.fopenWrite h)) fun code => moves_ite (fun _ => moves_pure _)
      fun _ => moves_bind (writeText_issues (.fwrite _ h)) fun code => ?_
    refine moves_ite (fun _ => moves_pure _) fun _ => ?_
    exact moves_bind (writeText_issues (.fwrite _ h)) fun _ => moves_pure _

theorem readFile_of_files (h : t.files = s.files) : t.readFile path = s.readFile path := by
  rw [Sys.readFile, h, Sys.readFile]

theorem fopenRead_ok {content : CStr} (hr : fopenRead host path s = (.ok content, t)) :
    s.readFile path = some content ∧ t.files = s.files := by
  rw [fopenRead, run_get_bind] at hr
  cases hread : s.readFile path with
  | none =>
    rw [hread] at hr
    cases hr
  | some read =>
    rw [hread] at hr
    obtain ⟨code, u, hopen, hr⟩ := bind_run hr
    split at hr
    · cases hr
    rename_i hcode
    rw [not_not.mp hcode] at hopen
    cases hr
    exact ⟨rfl, (congrArg Sys.files (call_done hopen).2).trans rfl⟩

theorem readFile_rename {target : CStr} (hr : call host (.file (.rename path target)) s = (0, t))
    (hs : s.readFile path = some text) : t.readFile target = some text := by
  rw [(call_done hr).2]
  show (Call.effect host s (.file (.rename path target))).readFile target = some text
  simp only [Call.effect, FileCall.effect, hs]
  exact readFile_putFile_self

theorem libzeUtilCopyFile_done {newFilename : CStr}
    (hr : libzeUtilCopyFile host path newFilename s = (0, t)) :
    ∃ content, s.readFile path = some content := by
  cases hread : s.readFile path with
  | some content => exact ⟨content, rfl⟩
  | none =>
    rw [libzeUtilCopyFile, fopenRead, run_bind, run_get_bind, hread] at hr
    cases hr

end Frame

end Zectl.Util.Files
