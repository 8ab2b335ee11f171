import Zectl.Libze.Init
import Zectl.Util.Files

/-!
# A small system

A host that refuses only what libzfs documents, a handle with `rpool/ROOT/a` running
and activated, and its datasets. Concrete runs in the other modules start from here.
-/

namespace Zectl.Libze.Sample

open Zectl.Util.CString Zectl.Util.Files Zectl.Zfs.System Zectl.Zfs.Forest Zectl.Libze.Init

def sampleNow : CStr := "2024-05-01-12:00:00"

theorem sampleNow_chars : ∀ c ∈ sampleNow, c.isDigit ∨ c = '-' ∨ c = ':' := by
  intro c hc
  have hall : sampleNow.all (fun c => c.isDigit || c = '-' || c = ':') = true := by decide
  simpa [or_assoc] using List.all_eq_true.mp hall c hc

/-- A host with the given answers and `/` for every value that is not set. -/
def plainHost (answer : Sys → Call → Nat) : Host where
  answer
  inherited _ _ _ := "/"
  nativeProps := [.mountpoint, .canmount]
  zfsPropReadonly _ := false
  propText _ value := value
  propStore _ value := value
  promoted _ datasets := datasets
  promoted_filesystems _ _ := rfl
  now _ := ⟨sampleNow, sampleNow_chars, by decide⟩
  tmpName _ template := template
  uninitialized _ := false

/-- Everything succeeds. -/
def allowing : Host := plainHost fun _ _ => 0

/-- Everything succeeds but destroying what is in use and taking a name in use. -/
def obliging : Host :=
  plainHost fun s c =>
    match c with
    | .zfs (.destroy n) => if inUse s n then 1 else 0
    | .zfs (.clone _ target _) | .zfs (.rename _ target) => if target ∈ s.names then 1 else 0
    | .file (.mkstemp path) => if (s.readFile path).isSome then 1 else 0
    | _ => 0

theorem obliging_destroyRule : DestroyRule obliging := by
  intro s n _
  cases hused : inUse s n <;> simp [obliging, plainHost, hused]

theorem obliging_grantsWrites : GrantsWrites obliging := fun _ _ _ => rfl

theorem obliging_mkstempRule : MkstempRule obliging := by
  intro s path hpath
  obtain ⟨content, hcontent⟩ := Option.ne_none_iff_exists'.mp hpath
  simp [obliging, plainHost, hcontent]

/-- As `obliging`, with one call refused. -/
def refusing (c : Call) : Host := plainHost fun s c' => if c' = c then 1 else obliging.answer s c'

def sampleBootpool : Bootpool where
  zpoolName := "bpool"
  rootPath := "bpool/boot"
  rootPathFull := "bpool/boot/"
  datasetPrefix := []
  full_eq := by decide
  full_fits := by decide

def sampleHandle (bootpool : Option Bootpool) (lzFuncs : Bool) : Handle where
  envPool := "rpool"
  envRoot := "rpool/ROOT"
  envActivated := "a"
  envActivatedPath := "rpool/ROOT/a"
  envRunning := "a"
  envRunningPath := "rpool/ROOT/a"
  bootpool
  lzFuncs
  pool_eq := by decide
  root_slash := by decide
  runningPath_eq := by decide
  running_flat := by decide
  runningPath_fits := by decide
  activatedPath_eq := ⟨"rpool/ROOT", by decide⟩
  activated_flat := by decide
  activatedPath_fits := by decide

/-- The boot environments `a` and `b` on both pools, then the datasets given. -/
def sampleSys (more : List Dataset) : Sys where
  datasets := [{ name := "rpool" }, { name := "rpool/ROOT" },
    { name := "rpool/ROOT/a", mountedAt := some "/" }, { name := "rpool/ROOT/b" },
    { name := "bpool" }, { name := "bpool/boot" }, { name := "bpool/boot/a" },
    { name := "bpool/boot/b" }] ++ more
  bootfs := "rpool/ROOT/a"

def sampleFile (content : CStr) : Sys := { sampleSys [] with files := [("/loader.conf", content)] }

end Zectl.Libze.Sample
