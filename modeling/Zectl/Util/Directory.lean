import Zectl.Util.Traverse
import Zectl.Util.Writes

/-!
# Directories

The traversals over the system of the pools and the plugin, where there are regular files and
directories only.
-/

namespace Zectl.Util.Directory

open Zectl.Lib.StateRun Zectl.Util.CString Zectl.Util.Files Zectl.Util.Writes
open Zectl.Zfs.System Zectl.Zfs.Steps
open Zectl.Util.Traverse (FileMode DirCalls TraverseCb itemPath_eq)

/-- `stat` -/
def statPath (host : Host) (path : CStr) : Libze (Except Nat FileKind) := do
  match (← get).kind path with
  | none => return .error enoent
  | some kind =>
    let code ← call host (.file (.stat path))
    if code ≠ 0 then return .error code
    return .ok kind

/-- `opendir` -/
def openDirectory (host : Host) (path : CStr) : Libze Nat := do
  match (← get).kind path with
  | none => return enoent
  | some .regular => return enotdir
  | some .directory => call host (.file (.opendir path))

/-- What `stat` tells of a file of the system. -/
def modeOf : FileKind → FileMode
  | .regular => .regular
  | .directory => .directory

theorem statPath_error {host : Host} {path : CStr} {code : Nat} {s t : Sys}
    (hr : statPath host path s = (.error code, t)) : code ≠ 0 := by
  rw [statPath, run_get_bind] at hr
  cases hkind : s.kind path with
  | none =>
    rw [hkind] at hr
    cases hr
    decide
  | some kind =>
    rw [hkind] at hr
    obtain ⟨code, u, hstat, hr⟩ := bind_run hr
    split at hr
    · rename_i hcode
      cases hr
      exact hcode
    · cases hr

/-- The calls of the hooks. -/
def hostCalls (host : Host) : DirCalls Sys where
  access path := call host (.file (.access path))
  opendir := openDirectory host
  readdir path s := host.readdir s path
  closedir path := call host (.file (.closedir path))
  stat path := do return (← statPath host path).map modeOf
  stat_ne path s := by
    intro h
    rw [run_bind] at h
    cases hstat : statPath host path s with
    | mk r t =>
      rw [hstat] at h
      cases r with
      | ok kind => cases h
      | error code =>
        cases h
        exact statPath_error hstat rfl
  mkdir path := call host (.file (.mkdir path))
  remove path := call host (.file (.remove path))
  rmdir path := call host (.file (.rmdir path))

section Programs
variable (host : Host)

abbrev traverseEntries := Traverse.traverseEntries (hostCalls host)

abbrev recursiveTraverse := Traverse.recursiveTraverse (hostCalls host)

abbrev mkdirExisting := Traverse.mkdirExisting (hostCalls host)

abbrev copyCb := Traverse.copyCb (hostCalls host) (libzeUtilCopyFile host)

abbrev copyTree := Traverse.copyTree (hostCalls host) (libzeUtilCopyFile host)

abbrev rmdirCb := Traverse.rmdirCb (hostCalls host)

abbrev removeTree := Traverse.removeTree (hostCalls host)

/-- `libze_util_copydir` -/
def libzeUtilCopydir : CStr → CStr → Libze Nat := copyTree host libzeMaxPathLen

/-- `libze_util_rmdir` -/
def libzeUtilRmdir : CStr → Libze Nat := Traverse.libzeUtilRmdir (hostCalls host)

/-- `libze_util_mkdir` -/
def libzeUtilMkdir : CStr → Libze Nat := Traverse.libzeUtilMkdir (hostCalls host)

end Programs

/-! ## The steps of a traversal -/

section Steps
variable {host : Host} {cb : TraverseCb Sys} {dir name path : CStr} {rest : List CStr}
  {s t : Sys} {may : Call → Prop}

theorem statPath_ok {st : FileKind} (hr : statPath host path s = (.ok st, t)) :
    s.kind path = some st ∧ t.files = s.files := by
  rw [statPath, run_get_bind] at hr
  cases hkind : s.kind path with
  | none =>
    rw [hkind] at hr
    cases hr
  | some kind =>
    rw [hkind] at hr
    obtain ⟨code, u, hstat, hr⟩ := bind_run hr
    split at hr
    · cases hr
    rename_i hcode
    rw [not_not.mp hcode] at hstat
    cases hr
    exact ⟨rfl, (congrArg Sys.files (call_done hstat).2).trans rfl⟩

theorem statPath_issues (hstat : may (.file (.stat path))) :
    Issues host may (statPath host path) := by
  apply moves_bind moves_get
  intro s
  split
  · exact moves_pure _
  · apply moves_bind (issues_call hstat)
    intro code
    split <;> exact moves_pure _

theorem openDirectory_issues (hopen : may (.file (.opendir path))) :
    Issues host may (openDirectory host path) := by
  apply moves_bind moves_get
  intro s
  split
  · exact moves_pure _
  · exact moves_pure _
  · exact issues_call hopen

theorem stat_issues (hstat : may (.file (.stat path))) :
    Issues host may ((hostCalls host).stat path) :=
  moves_bind (statPath_issues hstat) fun _ => moves_pure _

theorem mkdirExisting_issues (hmkdir : may (.file (.mkdir path))) (hstat : may (.file (.stat path))) :
    Issues host may (mkdirExisting host path) := by
  apply moves_bind (issues_call hmkdir)
  intro code
  apply moves_ite (fun _ => moves_pure _)
  intro _
  apply moves_bind (stat_issues hstat)
  intro r
  split <;> exact moves_pure _

theorem libzeUtilMkdir_issues (hmkdir : ∀ p, may (.file (.mkdir p)))
    (hstat : ∀ p, may (.file (.stat p))) : Issues host may (libzeUtilMkdir host path) := by
  have hall : ∀ paths, Issues host may (Traverse.mkdirAll (hostCalls host) paths) := by
    intro paths
    induction paths with
    | nil => exact moves_pure _
    | cons path rest ih =>
      apply moves_bind (mkdirExisting_issues (hmkdir path) (hstat path))
      intro err
      exact moves_ite (fun _ => moves_pure _) fun _ => ih
  exact hall _

theorem traverseEntries_issues (hstat : ∀ p, may (.file (.stat p)))
    (hcb : ∀ name ∈ rest, ∀ st, Issues host may (cb dir ('/' :: name) st)) :
    Issues host may (traverseEntries host cb dir rest) := by
  induction rest with
  | nil => exact moves_pure _
  | cons name rest ih =>
    rw [traverseEntries, Traverse.traverseEntries_cons]
    apply moves_ite _ fun _ => moves_pure _
    intro _
    apply moves_bind (stat_issues (hstat _))
    intro r
    split
    · exact moves_pure _
    · apply moves_bind (hcb name List.mem_cons_self _)
      intro code
      apply moves_ite (fun _ => moves_pure _)
      intro _
      exact ih fun name hname => hcb name (List.mem_cons_of_mem _ hname)

theorem recursiveTraverse_issues (hstat : ∀ p, may (.file (.stat p)))
    (hopen : may (.file (.opendir dir))) (hclose : may (.file (.closedir dir)))
    (hcb : ∀ name st, Issues host may (cb dir ('/' :: name) st)) :
    Issues host may (recursiveTraverse host cb dir) := by
  apply moves_ite (fun _ => moves_pure _)
  intro _
  apply moves_bind (openDirectory_issues hopen)
  intro code
  apply moves_ite (fun _ => moves_pure _)
  intro _
  apply moves_bind moves_get
  intro s
  apply moves_bind (traverseEntries_issues hstat fun name _ => hcb name)
  intro ret
  apply moves_bind (issues_call hclose)
  intro code
  split <;> exact moves_pure _

theorem stat_ok {st : FileMode} (hr : (hostCalls host).stat path s = (.ok st, t)) :
    ∃ kind, st = modeOf kind ∧ statPath host path s = (.ok kind, t) := by
  obtain ⟨r, u, hstat, hr⟩ := bind_run hr
  cases r with
  | error code => cases hr
  | ok kind =>
    cases hr
    exact ⟨kind, rfl, hstat⟩

/-- An entry of a traversal that succeeds, and the rest of it. -/
theorem traverseEntries_zero (hr : traverseEntries host cb dir (name :: rest) s = (0, t)) :
    dir.length + 1 + name.length < libzeMaxPathLen ∧ ∃ kind s1 s2,
      statPath host (dir ++ '/' :: name) s = (.ok kind, s1) ∧
      cb dir ('/' :: name) (modeOf kind) s1 = (0, s2) ∧
      traverseEntries host cb dir rest s2 = (0, t) := by
  rw [traverseEntries, Traverse.traverseEntries_cons] at hr
  split at hr
  · rename_i hfit
    obtain ⟨r, s1, hstat, hr⟩ := bind_run hr
    split at hr
    · cases hr
      exact absurd rfl (Traverse.stat_error_ne hstat)
    · obtain ⟨kind, rfl, hkind⟩ := stat_ok hstat
      obtain ⟨code, s2, hcb, hrest⟩ := bind_run hr
      split at hrest
      · cases hrest
      · rename_i hcode
        rw [not_not.mp hcode] at hcb
        exact ⟨hfit, kind, s1, s2, hkind, hcb, hrest⟩
  · cases hr

/-- A traversal that succeeds has seen every entry. -/
theorem recursiveTraverse_zero (hr : recursiveTraverse host cb dir s = (0, t)) :
    ∃ s1 s2, openDirectory host dir s = (0, s1) ∧
      traverseEntries host cb dir (host.readdir s1 dir) s1 = (0, s2) ∧
      call host (.file (.closedir dir)) s2 = (0, t) := by
  unfold recursiveTraverse Traverse.recursiveTraverse at hr
  split at hr
  · cases hr
  obtain ⟨code, s1, hopen, hr⟩ := bind_run hr
  split at hr
  · rename_i hcode
    cases hr
    exact absurd rfl hcode
  rename_i hcode
  rw [not_not.mp hcode] at hopen
  rw [run_get_bind] at hr
  obtain ⟨ret, s2, hentries, hr⟩ := bind_run hr
  obtain ⟨code', s3, hclose, hr⟩ := bind_run hr
  split at hr
  · rename_i hfail
    cases hr
    exact absurd rfl hfail.1
  · rename_i hfail
    cases hr
    have hzero : code' = 0 := by
      by_contra hne
      exact hfail ⟨hne, rfl⟩
    rw [hzero] at hclose
    exact ⟨s1, s2, hopen, hentries, hclose⟩

theorem openDirectory_zero (hr : openDirectory host path s = (0, t)) : t.files = s.files := by
  rw [openDirectory, run_get_bind] at hr
  cases hkind : s.kind path with
  | none =>
    rw [hkind] at hr
    cases hr
  | some kind =>
    rw [hkind] at hr
    cases kind with
    | regular => cases hr
    | directory => exact (congrArg Sys.files (call_done hr).2).trans rfl

end Steps

end Zectl.Util.Directory
