import Mathlib.Data.List.Dedup
import Mathlib.Data.List.TakeWhile
import Zectl.Util.Directory

/-!
# What a copied directory holds

When `libze_util_copydir` succeeds it has opened every file of the source and has written all
of it below the destination, but for what a stream has held back to its flush when that is
refused. It never removes what the destination held before.
-/

namespace Zectl.Util.CopyDir

open Zectl.Lib.StateRun Zectl.Lib.PathOrder Zectl.Util.CString Zectl.Util.Files Zectl.Util.Writes
open Zectl.Util.Directory Zectl.Zfs.System Zectl.Zfs.Steps
open Zectl.Util.Traverse (FileMode itemPath_eq)

/-- A name that a directory can have an entry under. -/
structure IsName (name : CStr) : Prop where
  ne_nil : name ≠ []
  flat : '/' ∉ name
  ne_dot : name ≠ ['.']
  ne_dotdot : name ≠ ['.', '.']

/-- There is a file below the directory at `rel`, and nothing above it is a file. -/
inductive FileAt (s : Sys) : CStr → CStr → Prop
  | entry {dir name : CStr} (hname : IsName name)
      (hfile : (s.readFile (dir ++ '/' :: name)).isSome) : FileAt s dir name
  | sub {dir name rel : CStr} (hname : IsName name)
      (hdir : s.readFile (dir ++ '/' :: name) = none) (hrel : FileAt s (dir ++ '/' :: name) rel) :
      FileAt s dir (name ++ '/' :: rel)

/-- A directory cannot be opened for writing. -/
def OpenRule (host : Host) : Prop :=
  ∀ s path, s.isDir path = true → host.answer s (.file (.fopenWrite path)) ≠ 0

/-- The first name on a path. -/
def headName (rel : CStr) : CStr := rel.takeWhile (· ≠ '/')

section Paths
variable {s t : Sys} {dir name rel path rest : CStr}

theorem headName_flat (h : '/' ∉ name) : headName name = name :=
  List.takeWhile_eq_self_iff.mpr fun c hc => by
    simpa using fun heq : c = '/' => h (heq ▸ hc)

theorem headName_append (h : '/' ∉ name) : headName (name ++ '/' :: rel) = name := by
  have hall : ∀ c ∈ name, decide (c ≠ '/') = true := fun c hc => by
    simpa using fun heq : c = '/' => h (heq ▸ hc)
  rw [headName, List.takeWhile_append_of_pos hall, List.takeWhile_cons_of_neg (by simp),
    List.append_nil]

theorem belowPath_append : belowPath? dir (dir ++ '/' :: rest) = some rest := by
  have hpre : (dir ++ ['/']).isPrefixOf (dir ++ '/' :: rest) = true :=
    List.isPrefixOf_iff_prefix.mpr ⟨rest, by simp⟩
  have hdrop : (dir ++ '/' :: rest).drop (dir.length + 1) = rest := by
    rw [List.append_cons]
    exact List.drop_left' (by simp)
  rw [belowPath?, if_pos hpre, hdrop]

theorem directoryName_of_name (h : IsName name) :
    directoryName (dir ++ '/' :: name) = dir ++ '/' :: name := by
  rw [directoryName, splitLast_append h.flat]
  exact if_neg (by simp [h.ne_nil, h.ne_dot, h.ne_dotdot])

theorem mem_paths_of_readFile (h : (s.readFile path).isSome) : path ∈ s.paths := by
  obtain ⟨content, hcontent⟩ := Option.isSome_iff_exists.mp h
  have hmem : (path, content) ∈ s.files := by
    obtain ⟨l1, l2, heq, -⟩ := List.lookup_eq_some_iff.mp hcontent
    rw [heq]
    simp
  exact List.mem_append_left _ (List.mem_map.mpr ⟨_, hmem, rfl⟩)

theorem isDir_of_below (hname : IsName name)
    (h : (s.readFile (dir ++ '/' :: name ++ '/' :: rel)).isSome) :
    s.isDir (dir ++ '/' :: name) = true := by
  have hmem := mem_paths_of_readFile h
  rw [Sys.isDir, directoryName_of_name hname]
  refine decide_eq_true (.inr ⟨_, hmem, ?_⟩)
  rw [belowPath_append]
  rfl

theorem FileAt.isName (h : FileAt s dir rel) : IsName (headName rel) := by
  cases h with
  | entry hname _ => rwa [headName_flat hname.flat]
  | sub hname _ _ => rwa [headName_append hname.flat]

theorem FileAt.isSome (h : FileAt s dir rel) : (s.readFile (dir ++ '/' :: rel)).isSome := by
  induction h with
  | entry _ hfile => exact hfile
  | @sub dir name rel _ _ _ ih =>
    rwa [List.append_assoc, List.cons_append] at ih

theorem FileAt.mem_entries (h : FileAt s dir rel) : headName rel ∈ s.entries dir := by
  have hmem := mem_paths_of_readFile h.isSome
  rw [Sys.entries, List.mem_dedup]
  refine List.mem_cons_of_mem _ (List.mem_cons_of_mem _ (List.mem_filter.mpr ⟨?_, ?_⟩))
  · refine List.mem_filterMap.mpr ⟨_, hmem, ?_⟩
    rw [belowPath_append]
    rfl
  · simpa using h.isName.ne_nil

theorem flat_of_mem_entries (h : name ∈ s.entries dir) : '/' ∉ name := by
  rw [Sys.entries, List.mem_dedup] at h
  rcases List.mem_cons.mp h with rfl | h
  · decide
  rcases List.mem_cons.mp h with rfl | h
  · decide
  obtain ⟨p, -, hp⟩ := List.mem_filterMap.mp (List.mem_filter.mp h).1
  obtain ⟨rest, -, rfl⟩ := Option.map_eq_some_iff.mp hp
  intro hmem
  simpa using List.mem_takeWhile_imp hmem

end Paths

/-! ## Files stay files -/

section Stay
variable {host : Host} {s t : Sys} {dir rel : CStr} {c : Call}

theorem FileAt.of_reads (h : FileAt s dir rel) (hread : ∀ path, t.readFile path = s.readFile path) :
    FileAt t dir rel := by
  induction h with
  | entry hname hfile => exact .entry hname (by rwa [hread])
  | sub hname hdir _ ih => exact .sub hname (by rwa [hread]) ih

theorem FileAt.of_files (h : FileAt s dir rel) (hfiles : t.files = s.files) : FileAt t dir rel :=
  h.of_reads fun _ => readFile_of_files hfiles

theorem FileAt.effect (hrule : OpenRule host) (hc : Adds c) (hcode : host.answer s c = 0)
    (h : FileAt s dir rel) : FileAt (c.effect host s) dir rel := by
  induction h with
  | entry hname hfile => exact .entry hname (hc.isSome hfile)
  | sub hname hdir hrel ih =>
    apply FileAt.sub hname _ ih
    apply hc.eq_none _ hdir
    intro heq
    rw [heq] at hcode
    exact hrule s _ (isDir_of_below hname hrel.isSome) hcode

theorem FileAt.stays {α : Type} {m : Libze α} {a : α} (hrule : OpenRule host)
    (hm : Issues host Adds m) (hr : m s = (a, t)) (h : FileAt s dir rel) : FileAt t dir rel := by
  have hkeep := hm.keeps (fun u => FileAt u dir rel) (fun u _ _ _ hu => hu.of_files rfl)
    (fun u c hc hcode hu => hu.effect hrule hc hcode) h
  rwa [hr] at hkeep

end Stay

/-! ## Where a copy reads and writes -/

/-- The files that are opened for reading are among those `inside`. -/
def ReadsIn (inside : CStr → Prop) : Call → Prop
  | .file (.fopenRead p) => inside p
  | _ => True

/-- The call reads files of the one kind, or makes and changes files of the other. -/
def CopiesIn (source dest : CStr → Prop) (c : Call) : Prop := ReadsIn source c ∧ SavesIn dest c

/-- The paths below `dest` that begin with one of the names. -/
def BelowNames (dest : CStr) (names : List CStr) (p : CStr) : Prop :=
  ∃ rel, p = dest ++ '/' :: rel ∧ headName rel ∈ names

def Below (dest p : CStr) : Prop := ∃ rel, p = dest ++ '/' :: rel

section Copies
variable {host : Host} {source source' inside inside' : CStr → Prop}
  {descend : CStr → CStr → Libze Nat} {dir dest name src dst : CStr} {s t : Sys} {c : Call}
  {may : Call → Prop}

theorem ReadsIn.mono (hc : ReadsIn source c) (himp : ∀ p, source p → source' p) :
    ReadsIn source' c := by
  unfold ReadsIn at hc ⊢
  split
  · exact himp _ hc
  · trivial

theorem CopiesIn.mono (hc : CopiesIn source inside c) (hread : ∀ p, source p → source' p)
    (hwrite : ∀ p, inside p → inside' p) : CopiesIn source' inside' c :=
  ⟨hc.1.mono hread, hc.2.1.mono hwrite, hc.2.2⟩

theorem Below.sub (h : Below (dest ++ '/' :: name) src) : Below dest src := by
  obtain ⟨rel, rfl⟩ := h
  exact ⟨name ++ '/' :: rel, by simp⟩

theorem Below.names {names : List CStr} (hflat : '/' ∉ name) (hname : name ∈ names)
    (h : Below (dest ++ '/' :: name) src) : BelowNames dest names src := by
  obtain ⟨rel, rfl⟩ := h
  exact ⟨name ++ '/' :: rel, by simp, by rwa [headName_append hflat]⟩

theorem copyFile_issues (hread : may (.file (.fopenRead src))) (hopen : may (.file (.fopenWrite dst)))
    (hwrite : ∀ text, may (.file (.fwrite dst text))) :
    Issues host may (libzeUtilCopyFile host src dst) := by
  apply moves_bind (fopenRead_may hread)
  intro r
  split
  · exact moves_pure _
  · apply moves_bind (issues_call hopen)
    intro code
    apply moves_ite (fun _ => moves_pure _)
    intro _
    apply moves_bind (writeText_issues (hwrite _))
    intro code
    apply moves_ite (fun _ => moves_pure _)
    intro _
    exact moves_bind (writeText_issues (hwrite _)) fun _ => moves_pure _

theorem copyCb_copies (hsource : source (dir ++ '/' :: name)) (hinside : inside (dest ++ '/' :: name))
    (hdescend : Issues host (CopiesIn source inside)
      (descend (dir ++ '/' :: name) (dest ++ '/' :: name)))
    (st : FileMode) :
    Issues host (CopiesIn source inside) (copyCb host descend dest dir ('/' :: name) st) := by
  apply moves_bind (mkdirExisting_issues ⟨trivial, trivial, trivial⟩ ⟨trivial, trivial, trivial⟩)
  intro err
  apply moves_ite (fun _ => moves_pure _)
  intro _
  rw [itemPath_eq, itemPath_eq]
  split
  · rename_i hitem hnew
    obtain rfl := Option.some.inj (Option.ite_none_right_eq_some.mp hitem).2
    obtain rfl := Option.some.inj (Option.ite_none_right_eq_some.mp hnew).2
    split
    · exact moves_ite (fun _ => moves_pure _) fun _ => hdescend
    · exact copyFile_issues ⟨hsource, trivial, trivial⟩ ⟨trivial, hinside, trivial⟩
        fun _ => ⟨trivial, hinside, trivial⟩
    · exact moves_pure _
  · exact moves_pure _

theorem copyTree_copiesIn (depth : Nat) (dir dest : CStr) :
    Issues host (CopiesIn (Below dir) (Below dest)) (copyTree host depth dir dest) := by
  induction depth generalizing dir dest with
  | zero => exact moves_pure _
  | succ depth ih =>
    apply recursiveTraverse_issues (fun _ => ⟨trivial, trivial, trivial⟩) ⟨trivial, trivial, trivial⟩
      ⟨trivial, trivial, trivial⟩
    intro name st
    apply copyCb_copies ⟨name, rfl⟩ ⟨name, rfl⟩
    apply (ih (dir ++ '/' :: name) (dest ++ '/' :: name)).weaken
    exact fun c hc => hc.mono (fun _ => Below.sub) fun _ => Below.sub

theorem copyEntry_touches (depth : Nat) (st : FileMode) : Issues host (TouchesIn (Below dest))
    (copyCb host (copyTree host depth) dest dir ('/' :: name) st) := by
  have hdescend : Issues host (CopiesIn (Below dir) (Below dest))
      (copyTree host depth (dir ++ '/' :: name) (dest ++ '/' :: name)) :=
    (copyTree_copiesIn depth _ _).weaken fun c hc =>
      hc.mono (fun _ => Below.sub) fun _ => Below.sub
  exact (copyCb_copies ⟨name, rfl⟩ ⟨name, rfl⟩ hdescend st).weaken fun _ hc => hc.2.1

/-- One entry of a directory is copied under its own name. -/
theorem copyEntry_copiesIn {names : List CStr} (depth : Nat) (hflat : '/' ∉ name)
    (hname : name ∈ names) (st : FileMode) :
    Issues host (CopiesIn (BelowNames dir names) (BelowNames dest names))
      (copyCb host (copyTree host depth) dest dir ('/' :: name) st) := by
  have hown : ∀ dir, BelowNames dir names (dir ++ '/' :: name) := fun dir =>
    ⟨name, rfl, by rwa [headName_flat hflat]⟩
  apply copyCb_copies (hown dir) (hown dest)
  apply (copyTree_copiesIn depth (dir ++ '/' :: name) (dest ++ '/' :: name)).weaken
  exact fun c hc => hc.mono (fun _ => Below.names hflat hname) fun _ => Below.names hflat hname

/-- The entries of a directory are copied to paths of their own. -/
theorem copyEntries_copiesIn {names : List CStr} (depth : Nat) (hflat : ∀ n ∈ names, '/' ∉ n) :
    Issues host (CopiesIn (BelowNames dir names) (BelowNames dest names))
      (traverseEntries host (copyCb host (copyTree host depth) dest) dir names) := by
  apply traverseEntries_issues fun _ => ⟨trivial, trivial, trivial⟩
  intro name hname st
  exact copyEntry_copiesIn depth (hflat name hname) hname st

theorem copyTree_saves (depth : Nat) (dir dest : CStr) :
    Issues host (SavesIn (Below dest)) (copyTree host depth dir dest) :=
  (copyTree_copiesIn depth dir dest).weaken fun _ hc => hc.2

/-- A removal works below its directory. -/
theorem removeTree_touches (depth : Nat) (dir : CStr) :
    Issues host (TouchesIn (Below dir)) (removeTree host depth dir) := by
  induction depth generalizing dir with
  | zero => exact moves_pure _
  | succ depth ih =>
    apply recursiveTraverse_issues (fun _ => trivial) trivial trivial
    intro name st
    unfold Traverse.rmdirCb
    rw [itemPath_eq]
    split
    · exact moves_pure _
    · rename_i hitem
      obtain rfl := Option.some.inj (Option.ite_none_right_eq_some.mp hitem).2
      split
      · apply moves_ite (fun _ => moves_pure _)
        intro _
        apply moves_bind ((ih (dir ++ '/' :: name)).weaken fun c hc => hc.mono fun _ => Below.sub)
        intro ret
        exact moves_ite (fun _ => moves_pure _) fun _ => issues_call trivial
      · exact issues_call ⟨name, rfl⟩
      · exact moves_pure _

theorem libzeUtilRmdir_touches : Issues host (TouchesIn (Below dir)) (libzeUtilRmdir host dir) := by
  apply moves_bind (issues_call trivial)
  intro code
  apply moves_ite (fun _ => moves_pure _)
  intro _
  apply moves_bind (removeTree_touches _ dir)
  intro ret
  exact moves_ite (fun _ => moves_pure _) fun _ => issues_call trivial

end Copies

/-! ## One file -/

/-- The file was read in the run, and all it held is in the other one. -/
def CopiedFile (s t : Sys) (src dst : CStr) : Prop :=
  ∃ content, ReadAs s t src content ∧ WrittenAs s t dst content

section File
variable {host : Host} {src dst text acc : CStr} {s t u v : Sys}

theorem CopiedFile.extend (h : CopiedFile u v src dst) (hsu : Ran s u)
    (hunread : (.file (.fopenRead src), 0) ∉ since s u) (huv : u.trace <:+ v.trace)
    (hvt : v.trace <:+ t.trace) (hkeep : t.readFile dst = v.readFile dst) :
    CopiedFile s t src dst := by
  obtain ⟨content, hread, hwritten⟩ := h
  exact ⟨content, hread.extend hsu hunread huv hvt,
    hwritten.extend hsu.suffix huv hvt hkeep⟩

/-- A text is written in full or not at all. -/
theorem writeText_cases {code : Nat} (hr : writeText host dst text s = (code, t))
    (hs : s.readFile dst = some acc) :
    Ran s t ∧ (code = 0 ∧ t.readFile dst = some (acc ++ text) ∧ WritesGranted s t dst ∨
      code ≠ 0 ∧ text ≠ [] ∧ t.readFile dst = some acc ∧ ¬ WritesGranted s t dst) := by
  have hran : Ran s t :=
    ran_of_issues (@writeText_issues host dst text (fun _ => True) trivial) hr
  refine ⟨hran, ?_⟩
  unfold writeText at hr
  split at hr
  · rename_i hnil
    cases hr
    exact .inl ⟨rfl, by rw [hs, hnil, List.append_nil], fun text code hmem => by simp at hmem⟩
  rename_i hne
  have htrace : t.trace = [(.file (.fwrite dst text), code)] ++ s.trace := call_trace hr
  by_cases hcode : code = 0
  · subst hcode
    refine .inl ⟨rfl, ?_, fun text' code' hmem => ?_⟩
    · rw [(call_done hr).2]
      show (Call.effect host s (.file (.fwrite dst text))).readFile dst = some (acc ++ text)
      simp only [Call.effect, FileCall.effect, hs]
      exact readFile_putFile_self
    · rw [since_of_trace htrace] at hmem
      exact congrArg Prod.snd (List.mem_singleton.mp hmem)
  · refine .inr ⟨hcode, hne, ?_, fun hgranted => hcode (hgranted text code ?_)⟩
    · rw [call_refused hr hcode]
      exact hs
    · rw [since_of_trace htrace]
      exact List.mem_singleton_self _

theorem fopenRead_zero {code : Nat} (hr : fopenRead host src s = (.error code, t)) : code ≠ 0 := by
  rw [fopenRead, run_get_bind] at hr
  cases hs : s.readFile src with
  | none =>
    rw [hs] at hr
    cases hr
    decide
  | some content =>
    rw [hs] at hr
    obtain ⟨code, u, -, hr⟩ := bind_run hr
    split at hr
    · rename_i hcode
      cases hr
      exact hcode
    · cases hr

/-- A copy that succeeds has read the file, and has written as much of it as was not held back to
a flush that was refused. -/
theorem libzeUtilCopyFile_zero (hr : libzeUtilCopyFile host src dst s = (0, t)) :
    Ran s t ∧ ∃ content text, ReadAs s t src content ∧ WrittenAs s t dst text ∧
      (text = content ↔ WritesGranted s t dst) := by
  refine ⟨ran_of_issues (@copyFile_issues host src dst (fun _ => True) trivial trivial
    fun _ => trivial) hr, ?_⟩
  obtain ⟨r, s1, hread, hr⟩ := bind_run hr
  cases r with
  | error code =>
    cases hr
    exact absurd rfl (fopenRead_zero hread)
  | ok content =>
  obtain ⟨code, s2, hopen, hr⟩ := bind_run hr
  split at hr
  · rename_i hcode
    cases hr
    exact absurd rfl hcode
  rename_i hcode
  rw [not_not.mp hcode] at hopen
  dsimp only at hr
  generalize content.length - host.buffered dst content = passedOn at hr
  obtain ⟨early, s3, hearly, hr⟩ := bind_run hr
  split at hr
  · rename_i hrefused
    cases hr
    exact absurd rfl hrefused
  rename_i hearlyDone
  obtain ⟨late, s4, hlate, hr⟩ := bind_run hr
  cases hr
  have hran1 := fopenRead_ran hread
  have hran2 := call_ran hopen
  have hwritten := fopenWrite_written hopen
  obtain ⟨hran3, ⟨-, hfile3, hgranted3⟩ | ⟨hne, -⟩⟩ := writeText_cases hearly hwritten.2
  swap
  · exact absurd (not_not.mp hearlyDone) hne
  rw [List.nil_append] at hfile3
  obtain ⟨hran4, hlate⟩ := writeText_cases hlate hfile3
  have hran12 := hran1.trans hran2
  have hran34 := hran3.trans hran4
  have hread' : ReadAs s t src content :=
    (fopenRead_readAs hread).extend (.refl s) ((Untouched.refl s).unread src) hran1.suffix
      (hran2.trans hran34).suffix
  have hopened : (.file (.fopenWrite dst), 0) ∈ since s t := by
    rw [since_append hran12.suffix hran34.suffix, since_append hran1.suffix hran2.suffix]
    exact List.mem_append_right _ (List.mem_append_left _ hwritten.1)
  have hbefore : WritesGranted s s2 dst := by
    have hquiet1 : Issues host (· = .file (.fopenRead src)) (fopenRead host src) := fopenRead_may rfl
    have hquiet2 : Issues host (· = .file (.fopenWrite dst)) (call host (.file (.fopenWrite dst))) :=
      issues_call rfl
    exact (writesGranted_append hran1 hran2).mpr ⟨writesGranted_of_issues hquiet1 (by simp) hread,
      writesGranted_of_issues hquiet2 (by simp) hopen⟩
  have hiff : WritesGranted s t dst ↔ WritesGranted s3 t dst := by
    rw [writesGranted_append hran12 hran34, writesGranted_append hran3 hran4]
    exact ⟨fun h => h.2.2, fun h => ⟨hbefore, hgranted3, h⟩⟩
  rw [hiff]
  obtain ⟨-, hfile, hgranted⟩ | ⟨-, hne, hfile, hrefused⟩ := hlate
  · rw [List.take_append_drop] at hfile
    exact ⟨content, content, hread', ⟨hopened, hfile⟩, iff_of_true rfl hgranted⟩
  · refine ⟨content, content.take passedOn, hread', ⟨hopened, hfile⟩, iff_of_false ?_ hrefused⟩
    intro heq
    have hlength := congrArg List.length heq
    have hpos := List.length_pos_iff.mpr hne
    rw [List.length_take] at hlength
    rw [List.length_drop] at hpos
    omega

/-! ## One copy in a run -/

/-- The call neither reads the one file nor changes the other. -/
def Elsewhere (src dst : CStr) (c : Call) : Prop := ReadsIn (· ≠ src) c ∧ TouchesIn (· ≠ dst) c

theorem elsewhere_of_idle {c : Call} (hc : Idle c) : Elsewhere src dst c := by
  refine ⟨?_, hc.touches.mono fun _ h => h.elim⟩
  cases c with
  | file f =>
    cases f with
    | fopenRead path => exact False.elim hc
    | _ => trivial
  | _ => trivial

/-- From `u` to `v` the file is copied, without an error; it was not opened before, and the copy
is not changed behind that. -/
structure CopyRun (host : Host) (src dst : CStr) (s u v t : Sys) : Prop where
  start : Ran s u
  before : ∀ e ∈ since s u, Elsewhere src dst e.1
  copied : libzeUtilCopyFile host src dst u = (0, v)
  rest : Ran v t
  after : ∀ e ∈ since v t, TouchesIn (· ≠ dst) e.1

/-- The file is copied once. -/
def CopiedOnce (host : Host) (s t : Sys) (src dst : CStr) : Prop :=
  ∃ u v, CopyRun host src dst s u v t

theorem since_of_issues {α : Type} {may : Call → Prop} {m : Libze α} {a : α}
    (hm : Issues host may m) (hr : m s = (a, t)) : ∀ e ∈ since s t, may e.1 := by
  have hissued := hm.since s
  rwa [hr] at hissued

theorem forall_since {may : Call → Prop} (hst : Ran s t) (htu : Ran t u)
    (h : ∀ e ∈ since s t, may e.1) (h' : ∀ e ∈ since t u, may e.1) : ∀ e ∈ since s u, may e.1 := by
  rw [since_append hst.suffix htu.suffix]
  intro e he
  exact (List.mem_append.mp he).elim (h' e) (h e)

theorem CopiedOnce.extend (h : CopiedOnce host u v src dst) (hsu : Ran s u)
    (hbefore : ∀ e ∈ since s u, Elsewhere src dst e.1) (hvt : Ran v t)
    (hafter : ∀ e ∈ since v t, TouchesIn (· ≠ dst) e.1) : CopiedOnce host s t src dst := by
  obtain ⟨u', v', hrun⟩ := h
  exact ⟨u', v', hsu.trans hrun.start, forall_since hsu hrun.start hbefore hrun.before, hrun.copied,
    hrun.rest.trans hvt, forall_since hrun.rest hvt hrun.after hafter⟩

/-- It is copied in full exactly when no write to the copy was refused. -/
theorem CopiedOnce.copied_iff (h : CopiedOnce host s t src dst) :
    CopiedFile s t src dst ↔ WritesGranted s t dst := by
  obtain ⟨u, v, hstart, hbefore, hcopy, hrest, hafter⟩ := h
  obtain ⟨hran, content, text, hread, hwritten, hiff⟩ := libzeUtilCopyFile_zero hcopy
  have hunread : (.file (.fopenRead src), 0) ∉ since s u := fun hmem => (hbefore _ hmem).1 rfl
  have hread' : ReadAs s t src content := hread.extend hstart hunread hran.suffix hrest.suffix
  have hkeep : t.readFile dst = v.readFile dst :=
    readFile_of_trace host hrest hafter fun hne => hne rfl
  have hwritten' : WrittenAs s t dst text :=
    hwritten.extend hstart.suffix hran.suffix hrest.suffix hkeep
  have hgranted : WritesGranted s t dst ↔ WritesGranted u v dst := by
    rw [writesGranted_append hstart (hran.trans hrest), writesGranted_append hran hrest]
    have hbefore' : WritesGranted s u dst :=
      writesGranted_of_touches (fun e he => (hbefore e he).2) fun hne => hne rfl
    have hafter' : WritesGranted v t dst := writesGranted_of_touches hafter fun hne => hne rfl
    exact ⟨fun h => h.2.1, fun h => ⟨hbefore', h, hafter'⟩⟩
  rw [hgranted, ← hiff]
  constructor
  · rintro ⟨content', hread'', hwritten''⟩
    rw [hread''.unique hread'] at hwritten''
    exact Option.some.inj (hwritten'.2.symm.trans hwritten''.2)
  · rintro rfl
    exact ⟨text, hread', hwritten'⟩

theorem CopiedOnce.isSome (h : CopiedOnce host s t src dst) : (t.readFile dst).isSome := by
  obtain ⟨u, v, -, -, hcopy, hrest, hafter⟩ := h
  obtain ⟨-, content, text, -, hwritten, -⟩ := libzeUtilCopyFile_zero hcopy
  rw [readFile_of_trace host hrest hafter fun hne => hne rfl, hwritten.2]
  rfl

end File

section Copy
variable {host : Host} {descend : CStr → CStr → Libze Nat} {dir dest name rel : CStr} {s t : Sys}

theorem FileAt.kind (h : FileAt s dir rel) : s.kind (dir ++ '/' :: headName rel) =
    some (if headName rel = rel then .regular else .directory) := by
  cases h with
  | entry hname hfile =>
    rw [headName_flat hname.flat, if_pos rfl, Sys.kind]
    exact if_pos hfile
  | @sub _ name rel hname hdir hrel =>
    have hnot : (s.files.lookup (dir ++ '/' :: name)).isSome = false := by
      rw [Option.isSome_eq_false_iff, Option.isNone_iff_eq_none]
      exact hdir
    rw [headName_append hname.flat, if_neg (by simp), Sys.kind, hnot,
      isDir_of_below hname hrel.isSome]
    rfl

theorem copyCb_zero {kind : FileKind}
    (hr : copyCb host descend dest dir ('/' :: name) (modeOf kind) s = (0, t)) :
    ∃ s1, mkdirExisting host dest s = (0, s1) ∧
      (kind = .regular →
        libzeUtilCopyFile host (dir ++ '/' :: name) (dest ++ '/' :: name) s1 = (0, t)) ∧
      (kind = .directory → (name = ['.'] ∨ name = ['.', '.']) ∧ s1 = t ∨
        descend (dir ++ '/' :: name) (dest ++ '/' :: name) s1 = (0, t)) := by
  obtain ⟨err, s1, hmkdir, hr⟩ := bind_run hr
  split at hr
  · rename_i herr
    cases hr
    exact absurd rfl herr
  rename_i herr
  rw [not_not.mp herr] at hmkdir
  refine ⟨s1, hmkdir, ?_⟩
  rw [itemPath_eq, itemPath_eq] at hr
  by_cases hitem : dir.length + ('/' :: name).length < libzeMaxPathLen
  · by_cases hnew : dest.length + ('/' :: name).length < libzeMaxPathLen
    · rw [if_pos hitem, if_pos hnew] at hr
      constructor
      · rintro rfl
        exact hr
      · rintro rfl
        dsimp only [modeOf] at hr
        split at hr
        · rename_i hdots
          have hname : name = ['.'] ∨ name = ['.', '.'] := by simpa using hdots
          exact .inl ⟨hname, (Prod.mk.inj hr).2⟩
        · exact .inr hr
    · rw [if_pos hitem, if_neg hnew] at hr
      cases hr
  · rw [if_neg hitem] at hr
    cases hr

/-- Looking at an entry and making the directory for it. -/
theorem entry_start {path : CStr} {kind : FileKind} {s1 s2 : Sys}
    (hstat : statPath host path s = (.ok kind, s1)) (hmkdir : mkdirExisting host dest s1 = (0, s2)) :
    Ran s s2 ∧ (∀ src dst, ∀ e ∈ since s s2, Elsewhere src dst e.1) ∧
      ∀ path, s2.readFile path = s.readFile path := by
  have hran1 : Ran s s1 := ran_of_issues (@statPath_issues host _ (fun _ => True) trivial) hstat
  have hran2 : Ran s1 s2 :=
    ran_of_issues (@mkdirExisting_issues host _ (fun _ => True) trivial trivial) hmkdir
  refine ⟨hran1.trans hran2, fun src dst => ?_, fun path => ?_⟩
  · exact forall_since hran1 hran2 (since_of_issues (statPath_issues ⟨trivial, trivial⟩) hstat)
      (since_of_issues (mkdirExisting_issues ⟨trivial, trivial⟩ ⟨trivial, trivial⟩) hmkdir)
  · have hkeep := @readFile_of_touches host (fun _ => False) s1 s2 path _ _ _
      (mkdirExisting_issues trivial trivial) hmkdir id
    rw [hkeep, readFile_of_files (statPath_ok hstat).2]

/-- One entry. -/
theorem copyEntry_copies {s1 : Sys} {kind : FileKind}
    (ih : ∀ {dir dest rel s t}, descend dir dest s = (0, t) → FileAt s dir rel →
      CopiedOnce host s t (dir ++ '/' :: rel) (dest ++ '/' :: rel))
    (hstat : statPath host (dir ++ '/' :: headName rel) s = (.ok kind, s1))
    (hr : copyCb host descend dest dir ('/' :: headName rel) (modeOf kind) s1 = (0, t))
    (h : FileAt s dir rel) : CopiedOnce host s t (dir ++ '/' :: rel) (dest ++ '/' :: rel) := by
  have hkind := (statPath_ok hstat).1
  obtain ⟨s2, hmkdir, hregular, hdirectory⟩ := copyCb_zero hr
  obtain ⟨hran, helse, hsame⟩ := entry_start hstat hmkdir
  rw [h.kind, Option.some.injEq] at hkind
  cases h with
  | entry hname hfile =>
    rw [headName_flat hname.flat] at hkind hregular
    have hcopy := hregular (by rw [← hkind, if_pos rfl])
    exact ⟨s2, t, hran, helse _ _, hcopy, .refl t, by simp⟩
  | @sub _ name rel hname hdir hrel =>
    rw [headName_append hname.flat] at hkind hdirectory
    obtain ⟨hdots, -⟩ | hrun := hdirectory (by rw [← hkind, if_neg (by simp)])
    · exact (hdots.elim hname.ne_dot hname.ne_dotdot).elim
    have hcopied := ih hrun (hrel.of_reads hsame)
    rw [List.append_assoc, List.append_assoc] at hcopied
    exact hcopied.extend hran (helse _ _) (.refl t) (by simp)

theorem not_belowNames {names : List CStr} (hmem : headName rel ∉ names) :
    ¬ BelowNames dir names (dir ++ '/' :: rel) := by
  rintro ⟨rel', heq, hmem'⟩
  have hsame : rel = rel' := by simpa using heq
  exact hmem (hsame ▸ hmem')

theorem copyEntries_copies {names : List CStr} {depth : Nat}
    (ih : ∀ {dir dest rel s t}, copyTree host depth dir dest s = (0, t) → FileAt s dir rel →
      CopiedOnce host s t (dir ++ '/' :: rel) (dest ++ '/' :: rel))
    (hrule : OpenRule host) (hnodup : names.Nodup) (hflat : ∀ n ∈ names, '/' ∉ n)
    (hr : traverseEntries host (copyCb host (copyTree host depth) dest) dir names s = (0, t))
    (hmem : headName rel ∈ names) (h : FileAt s dir rel) :
    CopiedOnce host s t (dir ++ '/' :: rel) (dest ++ '/' :: rel) := by
  induction names generalizing s with
  | nil => cases hmem
  | cons name rest ihrest =>
    obtain ⟨-, kind, s1, s2, hstat, hcb, hrest⟩ := traverseEntries_zero hr
    obtain ⟨hnotin, hnodup⟩ := List.nodup_cons.mp hnodup
    have hflat' : ∀ n ∈ rest, '/' ∉ n := fun n hn => hflat n (List.mem_cons_of_mem _ hn)
    have hran1 : Ran s s1 := ran_of_issues (@statPath_issues host _ (fun _ => True) trivial) hstat
    have hentry := @copyEntry_copiesIn host dir dest name [name] depth (hflat name List.mem_cons_self)
      (List.mem_singleton_self _) (modeOf kind)
    have hran2 : Ran s1 s2 := ran_of_issues hentry hcb
    have hcopies := @copyEntries_copiesIn host dir dest rest depth hflat'
    have hran3 : Ran s2 t := ran_of_issues hcopies hrest
    by_cases hhead : headName rel = name
    · subst hhead
      have hcopied := copyEntry_copies ih hstat hcb h
      refine hcopied.extend (.refl s) (by simp) hran3 fun e he => ?_
      have hcall := since_of_issues hcopies hrest e he
      apply hcall.2.1.mono
      rintro p hp rfl
      exact not_belowNames hnotin hp
    · have hother : headName rel ∉ [name] := fun hmem => hhead (List.mem_singleton.mp hmem)
      have hfile : FileAt s2 dir rel := by
        have hstay := h.of_files (statPath_ok hstat).2
        exact hstay.stays hrule (hentry.weaken fun _ hc => hc.2.2) hcb
      have hcopied := ihrest hnodup hflat' hrest
        (List.mem_of_ne_of_mem hhead hmem) hfile
      refine hcopied.extend (hran1.trans hran2) ?_ (.refl t) (by simp)
      refine forall_since hran1 hran2
        (since_of_issues (statPath_issues ⟨trivial, trivial⟩) hstat) fun e he => ?_
      obtain ⟨hreads, htouches, -⟩ := since_of_issues hentry hcb e he
      refine ⟨hreads.mono ?_, htouches.mono ?_⟩
      · rintro p hp rfl
        exact not_belowNames hother hp
      · rintro p hp rfl
        exact not_belowNames hother hp

/-- A copy that succeeds has copied every file. -/
theorem copyTree_copies (hrule : OpenRule host) (depth : Nat)
    (hr : copyTree host depth dir dest s = (0, t)) (h : FileAt s dir rel) :
    CopiedOnce host s t (dir ++ '/' :: rel) (dest ++ '/' :: rel) := by
  induction depth generalizing dir dest rel s t with
  | zero => cases hr
  | succ depth ih =>
    obtain ⟨s1, s2, hopen, hentries, hclose⟩ := recursiveTraverse_zero hr
    have hran1 : Ran s s1 :=
      ran_of_issues (@openDirectory_issues host _ (fun _ => True) trivial) hopen
    have hfile := h.of_files (openDirectory_zero hopen)
    have hperm := host.readdir_perm s1 dir
    have hflat : ∀ n ∈ host.readdir s1 dir, '/' ∉ n := fun n hn =>
      flat_of_mem_entries (hperm.mem_iff.mp hn)
    have hcopied := copyEntries_copies ih hrule (hperm.nodup_iff.mpr (List.nodup_dedup _)) hflat
      hentries (hperm.mem_iff.mpr hfile.mem_entries) hfile
    have hclosed : Issues host (TouchesIn (· ≠ dest ++ '/' :: rel))
        (call host (.file (.closedir dir))) := issues_call trivial
    exact hcopied.extend hran1
      (since_of_issues (openDirectory_issues ⟨trivial, trivial⟩) hopen) (call_ran hclose)
      (since_of_issues hclosed hclose)

end Copy

/-! ## Copies between directories that are apart -/

/-- The files below a directory. -/
def below (s : Sys) (dir rel : CStr) : Option CStr := s.readFile (dir ++ '/' :: rel)

abbrev Tree := CStr → Option CStr

/-- A file of the tree, and nothing above it is a file. -/
inductive FileIn : Tree → CStr → Prop
  | entry {tree : Tree} {name : CStr} (hname : IsName name) (hfile : (tree name).isSome) :
      FileIn tree name
  | sub {tree : Tree} {name rel : CStr} (hname : IsName name) (hdir : tree name = none)
      (hrel : FileIn (fun r => tree (name ++ '/' :: r)) rel) : FileIn tree (name ++ '/' :: rel)

/-- What a file system can hold below a directory. -/
def IsTree (tree : Tree) : Prop := ∀ rel, (tree rel).isSome → FileIn tree rel

/-- Nothing lies below both directories. -/
def Apart (dir dest : CStr) : Prop := ∀ rel, ¬ Below dest (dir ++ '/' :: rel)

section Apart
variable {host : Host} {dir dest rel : CStr} {s t : Sys}

theorem below_sub (s : Sys) (dir name : CStr) :
    below s (dir ++ '/' :: name) = fun rel => below s dir (name ++ '/' :: rel) := by
  funext rel
  rw [below, below, List.append_assoc, List.cons_append]

theorem fileAt_of_fileIn {tree : Tree} (h : FileIn tree rel) (hs : below s dir = tree) :
    FileAt s dir rel := by
  induction h generalizing dir with
  | @entry tree name hname hfile =>
    subst hs
    exact .entry hname hfile
  | @sub tree name rel hname hdir _ ih =>
    subst hs
    exact .sub hname hdir (ih (below_sub s dir name))

theorem Apart.sub (h : Apart dir dest) (name : CStr) :
    Apart (dir ++ '/' :: name) (dest ++ '/' :: name) := by
  rintro rel ⟨rel', heq⟩
  rw [List.append_assoc, List.append_assoc] at heq
  exact h (name ++ '/' :: rel) ⟨_, heq⟩

/-- One entry. -/
theorem copyEntry_keeps {depth : Nat} {name : CStr} {kind : FileKind} {s1 : Sys}
    (ih : ∀ {dir dest rel s t}, Apart dir dest → copyTree host depth dir dest s = (0, t) →
      below s dir rel = none → below t dest rel = below s dest rel) (hapart : Apart dir dest)
    (hstat : statPath host (dir ++ '/' :: name) s = (.ok kind, s1))
    (hr : copyCb host (copyTree host depth) dest dir ('/' :: name) (modeOf kind) s1 = (0, t))
    (hnone : below s dir rel = none) : below t dest rel = below s dest rel := by
  have hkind := (statPath_ok hstat).1
  obtain ⟨s2, hmkdir, hregular, hdirectory⟩ := copyCb_zero hr
  obtain ⟨-, -, hs2⟩ := entry_start hstat hmkdir
  cases kind with
  | regular =>
    have hne : rel ≠ name := by
      rintro rfl
      unfold Sys.kind at hkind
      split at hkind
      · rename_i hsome
        have hlookup : s.files.lookup (dir ++ '/' :: rel) = none := hnone
        simp [hlookup] at hsome
      · split at hkind <;> cases hkind
    have hkeep := @readFile_of_touches host (· = dest ++ '/' :: name) s2 t (dest ++ '/' :: rel) _ _ _
      (copyFile_issues trivial rfl fun _ => rfl) (hregular rfl) (by simpa using hne)
    exact hkeep.trans (hs2 _)
  | directory =>
    obtain ⟨-, rfl⟩ | hrun := hdirectory rfl
    · exact hs2 _
    by_cases hbelow : Below (dest ++ '/' :: name) (dest ++ '/' :: rel)
    · obtain ⟨rel', heq⟩ := hbelow
      have hrel : rel = name ++ '/' :: rel' := by simpa using heq
      subst hrel
      have hsource : below s2 (dir ++ '/' :: name) rel' = none := by
        rw [below, hs2, List.append_assoc]
        exact hnone
      have hkeep := ih (hapart.sub name) hrun hsource
      rw [below, below, hs2, List.append_assoc] at hkeep
      exact hkeep
    · have hkeep := readFile_of_touches
        ((copyTree_saves depth _ _).weaken fun _ hc => hc.1) hrun hbelow
      exact hkeep.trans (hs2 _)

/-- Where the source has no file the copy writes none. -/
theorem copyTree_keeps {depth : Nat} (hapart : Apart dir dest)
    (hr : copyTree host depth dir dest s = (0, t)) (hnone : below s dir rel = none) :
    below t dest rel = below s dest rel := by
  induction depth generalizing dir dest rel s t with
  | zero => cases hr
  | succ depth ih =>
    obtain ⟨s1, s2, hopen, hentries, hclose⟩ := recursiveTraverse_zero hr
    have hs1 : ∀ path, s1.readFile path = s.readFile path := fun path =>
      readFile_of_files (openDirectory_zero hopen)
    have ht : ∀ path, t.readFile path = s2.readFile path := by
      intro path
      rw [(call_done hclose).2]
      rfl
    have hloop : ∀ names u, below u dir rel = none →
        traverseEntries host (copyCb host (copyTree host depth) dest) dir names u = (0, s2) →
        below s2 dest rel = below u dest rel := by
      intro names
      induction names with
      | nil =>
        intro u _ hnames
        cases hnames
        rfl
      | cons name rest ihrest =>
        intro u hu hnames
        obtain ⟨-, kind, u1, u2, hstat, hcb, hrest⟩ := traverseEntries_zero hnames
        have hu2 : below u2 dir rel = none := by
          have hkeep := readFile_of_touches (copyEntry_touches depth (modeOf kind)) hcb (hapart rel)
          rw [below, hkeep, readFile_of_files (statPath_ok hstat).2]
          exact hu
        rw [ihrest u2 hu2 hrest, copyEntry_keeps ih hapart hstat hcb hu]
    have hs : below s1 dir rel = none := (hs1 _).trans hnone
    rw [below, ht]
    exact (hloop _ s1 hs hentries).trans (hs1 _)

/-- The files the destination has behind a copy: those of the source and its own. -/
theorem copyTree_present {depth : Nat} (hrule : OpenRule host) (hapart : Apart dir dest)
    (htree : IsTree (below s dir)) (hr : copyTree host depth dir dest s = (0, t)) (rel : CStr) :
    (below t dest rel).isSome ↔ (below s dir rel).isSome ∨ (below s dest rel).isSome := by
  cases hsource : below s dir rel with
  | none =>
    rw [copyTree_keeps hapart hr hsource]
    simp
  | some content =>
    have hfile := fileAt_of_fileIn (htree rel (by rw [hsource]; rfl)) rfl
    exact iff_of_true (copyTree_copies hrule depth hr hfile).isSome (.inl rfl)

/-- What the destination holds behind a copy all of whose writes were granted: the files of the
source, and of its own files those whose names the source does not use. -/
theorem copyTree_below {depth : Nat} (hrule : OpenRule host) (hapart : Apart dir dest)
    (htree : IsTree (below s dir)) (hr : copyTree host depth dir dest s = (0, t))
    (hgranted : ∀ rel, WritesGranted s t (dest ++ '/' :: rel)) (rel : CStr) :
    below t dest rel = (below s dir rel).or (below s dest rel) := by
  cases hsource : below s dir rel with
  | none => exact copyTree_keeps hapart hr hsource
  | some content =>
    have hfile := fileAt_of_fileIn (htree rel (by rw [hsource]; rfl)) rfl
    obtain ⟨content', hread, hwritten⟩ :=
      (copyTree_copies hrule depth hr hfile).copied_iff.mpr (hgranted rel)
    have hcontent := hread.content (copyTree_saves depth dir dest) hr (fun _ hc => hc.1) (hapart rel)
    rw [Option.some_or, ← hsource]
    exact hwritten.2.trans hcontent.symm

end Apart

end Zectl.Util.CopyDir
