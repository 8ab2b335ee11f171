import Zectl.Util.CopyDir

/-!
# What a removed directory leaves

When a removal succeeds no file is left below its directory, at whatever depth it lay. The same
holds when `libze_util_rmdir` returns `ENOENT`, which its caller passes over, as long as what is
there is found: an access that is refused for another reason gives that code as well.
-/

namespace Zectl.Util.EmptiedDir

open Zectl.Lib.StateRun Zectl.Lib.PathOrder Zectl.Util.CString Zectl.Util.Files Zectl.Util.Writes
open Zectl.Util.Directory Zectl.Util.CopyDir Zectl.Zfs.System Zectl.Zfs.Steps
open Zectl.Util.Traverse (FileMode itemPath_eq)

/-- What is there is found. -/
structure FoundRule (host : Host) : Prop where
  access : ∀ s path, s.kind path ≠ none → host.answer s (.file (.access path)) = 0
  stat : ∀ s path, s.kind path ≠ none → host.answer s (.file (.stat path)) ≠ enoent
  opendir : ∀ s path, s.kind path ≠ none → host.answer s (.file (.opendir path)) ≠ enoent

/-- The call looks at files and directories, or takes one of those `inside` away. -/
def TakesIn (inside : CStr → Prop) : Call → Prop
  | .file (.remove p) | .file (.rmdir p) => inside p
  | .file (.access _) | .file (.stat _) | .file (.opendir _) | .file (.closedir _) => True
  | _ => False

section Takes
variable {host : Host} {inside inside' : CStr → Prop} {descend : CStr → Libze Nat} {st : FileMode}
  {s t : Sys} {dir path name : CStr} {c : Call}

theorem TakesIn.mono (hc : TakesIn inside c) (himp : ∀ p, inside p → inside' p) :
    TakesIn inside' c := by
  match c, hc with
  | .file (.remove p), hp | .file (.rmdir p), hp => exact himp p hp
  | .file (.access _), _ | .file (.stat _), _ | .file (.opendir _), _ | .file (.closedir _), _ =>
    trivial

theorem TakesIn.touches (hc : TakesIn inside c) : TouchesIn inside c := by
  match c, hc with
  | .file (.remove p), hp => exact hp
  | .file (.rmdir _), _ | .file (.access _), _ | .file (.stat _), _ | .file (.opendir _), _
  | .file (.closedir _), _ => trivial

theorem TakesIn.readFile (hc : TakesIn inside c) (h : s.readFile path = none) :
    (c.effect host s).readFile path = none := by
  match c, hc with
  | .file (.remove p), _ =>
    by_cases hp : path = p
    · rw [hp]
      exact readFile_removeFile_self
    · exact (readFile_removeFile_of_ne hp).trans h
  | .file (.access _), _ | .file (.stat _), _ | .file (.opendir _), _ | .file (.closedir _), _
  | .file (.rmdir _), _ => exact h

theorem TakesIn.mem_paths (hc : TakesIn inside c) (hpath : ¬ inside path) (h : path ∈ s.paths) :
    path ∈ (c.effect host s).paths := by
  have hne : ∀ {p}, inside p → path ≠ p := fun hp heq => hpath (heq ▸ hp)
  match c, hc with
  | .file (.remove p), hp =>
    obtain hfile | hdir := List.mem_append.mp h
    · obtain ⟨f, hf, rfl⟩ := List.mem_map.mp hfile
      have hkept : f ∈ s.files.filter fun f => f.1 ≠ p :=
        List.mem_filter.mpr ⟨hf, decide_eq_true (hne hp)⟩
      exact List.mem_append_left _ (List.mem_map_of_mem hkept)
    · exact List.mem_append_right _ hdir
  | .file (.rmdir p), hp =>
    obtain hfile | hdir := List.mem_append.mp h
    · exact List.mem_append_left _ hfile
    · exact List.mem_append_right _ (List.mem_filter.mpr ⟨hdir, decide_eq_true (hne hp)⟩)
  | .file (.access _), _ | .file (.stat _), _ | .file (.opendir _), _ | .file (.closedir _), _ =>
    exact h

/-- A file that is gone stays gone. -/
theorem none_of_takes {α : Type} {m : Libze α} {a : α} (hm : Issues host (TakesIn inside) m)
    (hr : m s = (a, t)) (h : s.readFile path = none) : t.readFile path = none := by
  have hkeep := hm.keeps (fun u => u.readFile path = none) (fun _ _ _ _ hu => hu)
    (fun _ _ hc _ hu => hc.readFile hu) h
  rwa [hr] at hkeep

/-- What is outside stays. -/
theorem mem_paths_of_takes {α : Type} {m : Libze α} {a : α} (hm : Issues host (TakesIn inside) m)
    (hr : m s = (a, t)) (hpath : ¬ inside path) (h : path ∈ s.paths) : path ∈ t.paths := by
  have hkeep := hm.keeps (fun u => path ∈ u.paths) (fun _ _ _ _ hu => hu)
    (fun _ _ hc _ hu => hc.mem_paths hpath hu) h
  rwa [hr] at hkeep

theorem rmdirCb_takes
    (hdescend : Issues host (TakesIn (Below (dir ++ '/' :: name))) (descend (dir ++ '/' :: name)))
    (hinside : ∀ p, p = dir ++ '/' :: name ∨ Below (dir ++ '/' :: name) p → inside p) :
    Issues host (TakesIn inside) (rmdirCb host descend dir ('/' :: name) st) := by
  unfold rmdirCb Traverse.rmdirCb
  rw [itemPath_eq]
  split
  · exact moves_pure _
  · rename_i hitem
    obtain rfl := Option.some.inj (Option.ite_none_right_eq_some.mp hitem).2
    cases st with
    | directory =>
      apply moves_ite (fun _ => moves_pure _)
      intro _
      apply moves_bind (hdescend.weaken fun c hc => hc.mono fun p hp => hinside p (.inr hp))
      intro ret
      exact moves_ite (fun _ => moves_pure _) fun _ => issues_call (hinside _ (.inl rfl))
    | regular => exact issues_call (hinside _ (.inl rfl))
    | other => exact moves_pure _

theorem removeTree_takes (depth : Nat) (dir : CStr) :
    Issues host (TakesIn (Below dir)) (removeTree host depth dir) := by
  induction depth generalizing dir with
  | zero => exact moves_pure _
  | succ depth ih =>
    apply recursiveTraverse_issues (fun _ => trivial) trivial trivial
    intro name st
    apply rmdirCb_takes (ih _)
    rintro p (rfl | ⟨rel, rfl⟩)
    · exact ⟨name, rfl⟩
    · exact ⟨name ++ '/' :: rel, by simp⟩

/-- One entry of a directory is removed under its own name. -/
theorem removeEntry_takes {depth : Nat} (hflat : '/' ∉ name) :
    Issues host (TakesIn (BelowNames dir [name]))
      (rmdirCb host (removeTree host depth) dir ('/' :: name) st) := by
  apply rmdirCb_takes (removeTree_takes depth _)
  rintro p (rfl | ⟨rel, rfl⟩)
  · exact ⟨name, rfl, by rw [headName_flat hflat]; exact List.mem_singleton_self _⟩
  · exact ⟨name ++ '/' :: rel, by simp, by rw [headName_append hflat]; exact List.mem_singleton_self _⟩

theorem libzeUtilRmdir_takes :
    Issues host (TakesIn fun p => p = dir ∨ Below dir p) (libzeUtilRmdir host dir) := by
  apply moves_bind (issues_call trivial)
  intro code
  apply moves_ite (fun _ => moves_pure _)
  intro _
  apply moves_bind ((removeTree_takes _ dir).weaken fun c hc => hc.mono fun p => .inr)
  intro ret
  exact moves_ite (fun _ => moves_pure _) fun _ => issues_call (.inl rfl)

end Takes

/-! ## What is listed is there -/

/-- Something in the directory has this first name. -/
def Listed (s : Sys) (dir name : CStr) : Prop :=
  ∃ rel, dir ++ '/' :: rel ∈ s.paths ∧ headName rel = name

section Listed
variable {host : Host} {s t : Sys} {dir name rel : CStr}

theorem headName_split (rel : CStr) : rel = headName rel ∨ ∃ rest, rel = headName rel ++ '/' :: rest := by
  have hsplit : headName rel ++ rel.dropWhile (· ≠ '/') = rel := List.takeWhile_append_dropWhile
  cases hrest : rel.dropWhile (· ≠ '/') with
  | nil =>
    rw [hrest, List.append_nil] at hsplit
    exact .inl hsplit.symm
  | cons c rest =>
    have hne : rel.dropWhile (· ≠ '/') ≠ [] := by
      rw [hrest]
      exact List.cons_ne_nil _ _
    have hc : c = '/' := by
      have hnot := List.head_dropWhile_not (fun c : Char => decide (c ≠ '/')) hne
      simpa only [hrest, List.head_cons, decide_eq_false_iff_not, not_not] using hnot
    rw [hrest, hc] at hsplit
    exact .inr ⟨rest, hsplit.symm⟩

theorem isDir_of_listed (h : Listed s dir name) (hdir : directoryName path = dir) :
    s.isDir path = true := by
  obtain ⟨rel, hmem, -⟩ := h
  rw [Sys.isDir, hdir]
  exact decide_eq_true (.inr ⟨_, hmem, by rw [belowPath_append]; rfl⟩)

theorem kind_of_isDir (h : s.isDir path = true) : s.kind path ≠ none := by
  rw [Sys.kind, h]
  split <;> simp

theorem kind_of_mem (h : path ∈ s.paths) (hdir : directoryName path = path) :
    s.kind path ≠ none := by
  obtain hfile | hmem := List.mem_append.mp h
  · obtain ⟨f, hf, rfl⟩ := List.mem_map.mp hfile
    have hsome : (s.files.lookup f.1).isSome := by
      rw [List.lookup_isSome_iff]
      exact ⟨f, hf, by simp⟩
    rw [Sys.kind, if_pos hsome]
    simp
  · apply kind_of_isDir
    rw [Sys.isDir, hdir]
    exact decide_eq_true (.inl hmem)

theorem directoryName_dots (hname : name = ['.'] ∨ name = ['.', '.']) :
    directoryName (dir ++ '/' :: name) = dir := by
  have hflat : '/' ∉ name := by
    obtain rfl | rfl := hname <;> decide
  rw [directoryName, splitLast_append hflat]
  exact if_pos (.inr hname)

/-- A name that `readdir` gave is found as long as something has it. -/
theorem kind_of_listed (h : Listed s dir name) (hne : name ≠ []) (hflat : '/' ∉ name) :
    s.kind (dir ++ '/' :: name) ≠ none := by
  by_cases hdots : name = ['.'] ∨ name = ['.', '.']
  · exact kind_of_isDir (isDir_of_listed h (directoryName_dots hdots))
  have hname : IsName name := ⟨hne, hflat, fun h => hdots (.inl h), fun h => hdots (.inr h)⟩
  obtain ⟨rel, hmem, hhead⟩ := h
  obtain heq | ⟨rest, heq⟩ := headName_split rel
  · rw [hhead] at heq
    exact kind_of_mem (heq ▸ hmem) (directoryName_of_name hname)
  · apply kind_of_isDir
    rw [Sys.isDir, directoryName_of_name hname]
    refine decide_eq_true (.inr ⟨_, hmem, ?_⟩)
    rw [heq, hhead, ← List.cons_append, ← List.append_assoc, belowPath_append]
    rfl

/-- What `readdir` gives besides the directory itself and the one above it. -/
theorem listed_of_mem_entries (h : name ∈ s.entries dir) :
    name = ['.'] ∨ name = ['.', '.'] ∨ Listed s dir name ∧ name ≠ [] := by
  rw [Sys.entries, List.mem_dedup] at h
  rcases List.mem_cons.mp h with rfl | h
  · exact .inl rfl
  rcases List.mem_cons.mp h with rfl | h
  · exact .inr (.inl rfl)
  obtain ⟨hmem, hne⟩ := List.mem_filter.mp h
  obtain ⟨p, hp, hname⟩ := List.mem_filterMap.mp hmem
  obtain ⟨rest, hrest, rfl⟩ := Option.map_eq_some_iff.mp hname
  refine .inr (.inr ⟨⟨rest, ?_, rfl⟩, of_decide_eq_true hne⟩)
  unfold belowPath? at hrest
  split at hrest
  · rename_i hpre
    obtain ⟨tail, rfl⟩ := List.isPrefixOf_iff_prefix.mp hpre
    have hdrop : (dir ++ ['/'] ++ tail).drop (dir.length + 1) = tail := List.drop_left' (by simp)
    rw [hdrop] at hrest
    cases hrest
    simpa using hp
  · cases hrest

end Listed

/-! ## One entry -/

section Entry
variable {host : Host} {descend : CStr → Libze Nat} {dir name rel : CStr} {s t : Sys}

theorem rmdirCb_zero {kind : FileKind}
    (hr : rmdirCb host descend dir ('/' :: name) (modeOf kind) s = (0, t)) :
    (kind = .regular → call host (.file (.remove (dir ++ '/' :: name))) s = (0, t)) ∧
    (kind = .directory → (name = ['.'] ∨ name = ['.', '.']) ∧ s = t ∨
      ∃ s1, descend (dir ++ '/' :: name) s = (0, s1) ∧
        call host (.file (.rmdir (dir ++ '/' :: name))) s1 = (0, t)) := by
  unfold rmdirCb Traverse.rmdirCb at hr
  rw [itemPath_eq] at hr
  by_cases hitem : dir.length + ('/' :: name).length < libzeMaxPathLen
  · rw [if_pos hitem] at hr
    constructor
    · rintro rfl
      exact hr
    · rintro rfl
      dsimp only [modeOf] at hr
      split at hr
      · rename_i hdots
        have hname : name = ['.'] ∨ name = ['.', '.'] := by simpa using hdots
        exact .inl ⟨hname, (Prod.mk.inj hr).2⟩
      obtain ⟨ret, s1, hrun, hr⟩ := bind_run hr
      split at hr
      · rename_i hret
        cases hr
        exact absurd rfl hret
      rename_i hret
      rw [not_not.mp hret] at hrun
      exact .inr ⟨s1, hrun, hr⟩
  · rw [if_neg hitem] at hr
    cases hr

theorem FileAt.of_below (h : FileAt s dir rel)
    (hread : ∀ rel, t.readFile (dir ++ '/' :: rel) = s.readFile (dir ++ '/' :: rel)) :
    FileAt t dir rel := by
  induction h with
  | entry hname hfile => exact .entry hname (by rwa [hread])
  | @sub dir name rel hname hdir _ ih =>
    apply FileAt.sub hname (by rwa [hread]) (ih _)
    intro rel'
    have hread' := hread (name ++ '/' :: rel')
    rwa [← List.cons_append, ← List.append_assoc] at hread'

/-- What is done to the other entries of a directory leaves a file where it is. -/
theorem FileAt.aside (h : FileAt s dir rel)
    (hread : ∀ rel', headName rel' = headName rel →
      t.readFile (dir ++ '/' :: rel') = s.readFile (dir ++ '/' :: rel')) : FileAt t dir rel := by
  cases h with
  | entry hname hfile => exact .entry hname (by rwa [hread _ rfl])
  | @sub _ name rel hname hdir hrel =>
    have hname' := headName_flat hname.flat
    have hhead : ∀ rel', headName (name ++ '/' :: rel') = name := fun _ => headName_append hname.flat
    apply FileAt.sub hname
    · rwa [hread _ (by rw [hname', hhead])]
    · apply FileAt.of_below hrel
      intro rel'
      have hread' := hread (name ++ '/' :: rel') (by rw [hhead, hhead])
      rwa [← List.cons_append, ← List.append_assoc] at hread'

/-- The entry a file lies under takes it away. -/
theorem removeEntry_removes {s1 : Sys} {kind : FileKind}
    (ih : ∀ {dir rel s t}, descend dir s = (0, t) → FileAt s dir rel →
      t.readFile (dir ++ '/' :: rel) = none)
    (hstat : statPath host (dir ++ '/' :: headName rel) s = (.ok kind, s1))
    (hr : rmdirCb host descend dir ('/' :: headName rel) (modeOf kind) s1 = (0, t)) (h : FileAt s dir rel) :
    t.readFile (dir ++ '/' :: rel) = none := by
  obtain ⟨hkind, hfiles⟩ := statPath_ok hstat
  obtain ⟨hregular, hdirectory⟩ := rmdirCb_zero hr
  rw [h.kind, Option.some.injEq] at hkind
  cases h with
  | entry hname hfile =>
    rw [headName_flat hname.flat] at hkind hregular
    rw [(call_done (hregular (by rw [← hkind, if_pos rfl]))).2]
    exact readFile_removeFile_self
  | @sub _ name rel hname hdir hrel =>
    rw [headName_append hname.flat] at hkind hdirectory
    obtain ⟨hdots, -⟩ | ⟨s2, hrun, hrmdir⟩ := hdirectory (by rw [← hkind, if_neg (by simp)])
    · exact (hdots.elim hname.ne_dot hname.ne_dotdot).elim
    have hgone := ih hrun (hrel.of_files hfiles)
    rw [List.append_assoc, List.cons_append] at hgone
    rw [(call_done hrmdir).2]
    exact hgone

end Entry

/-! ## All of them -/

section Removal
variable {host : Host} {dir rel name : CStr} {names : List CStr} {code depth : Nat} {s t : Sys}

/-- The names a traversal has still to visit. -/
def Pending (s : Sys) (dir : CStr) (names : List CStr) : Prop :=
  ∀ n ∈ names, '/' ∉ n ∧ (n = ['.'] ∨ n = ['.', '.'] ∨ Listed s dir n ∧ n ≠ [])

theorem pending_readdir : Pending s dir (host.readdir s dir) := by
  intro n hn
  have hmem := (host.readdir_perm s dir).mem_iff.mp hn
  exact ⟨flat_of_mem_entries hmem, listed_of_mem_entries hmem⟩

theorem Pending.kind (h : Pending s dir (name :: names)) (hfile : FileAt s dir rel) :
    s.kind (dir ++ '/' :: name) ≠ none := by
  obtain ⟨hflat, hname⟩ := h name List.mem_cons_self
  have hlisted : Listed s dir (headName rel) := ⟨rel, mem_paths_of_readFile hfile.isSome, rfl⟩
  obtain hdots | hdots | ⟨hlist, hne⟩ := hname
  · exact kind_of_isDir (isDir_of_listed hlisted (directoryName_dots (.inl hdots)))
  · exact kind_of_isDir (isDir_of_listed hlisted (directoryName_dots (.inr hdots)))
  · exact kind_of_listed hlist hne hflat

theorem stat_error {path : CStr} (hr : (hostCalls host).stat path s = (.error code, t)) :
    statPath host path s = (.error code, t) := by
  obtain ⟨r, u, hstat, hr⟩ := bind_run hr
  cases r with
  | error err =>
    cases hr
    exact hstat
  | ok kind => cases hr

theorem statPath_found {path : CStr} (hfound : FoundRule host) (h : s.kind path ≠ none)
    (hr : statPath host path s = (.error code, t)) : code ≠ enoent := by
  rw [statPath, run_get_bind] at hr
  cases hkind : s.kind path with
  | none => exact absurd hkind h
  | some kind =>
    rw [hkind] at hr
    obtain ⟨code', u, hstat, hr⟩ := bind_run hr
    split at hr
    · cases hr
      rw [call] at hstat
      cases hstat
      exact hfound.stat s path h
    · cases hr

theorem openDirectory_found {path : CStr} (hfound : FoundRule host) (h : s.kind path ≠ none)
    (hr : openDirectory host path s = (code, t)) : code ≠ enoent := by
  rw [openDirectory, run_get_bind] at hr
  cases hkind : s.kind path with
  | none => exact absurd hkind h
  | some kind =>
    rw [hkind] at hr
    cases kind with
    | regular =>
      cases hr
      decide
    | directory =>
      obtain rfl : host.answer s (.file (.opendir path)) = code := congrArg Prod.fst hr
      exact hfound.opendir s path h

theorem Pending.rest {inside : CStr → Prop} {α : Type} {m : Libze α} {a : α}
    (hm : Issues host (TakesIn inside) m) (hr : m s = (a, t))
    (hinside : ∀ rel, inside (dir ++ '/' :: rel) → headName rel ∉ names)
    (h : Pending s dir names) : Pending t dir names := by
  intro n hn
  obtain ⟨hflat, hdots | hdots | ⟨⟨rel, hmem, hhead⟩, hne⟩⟩ := h n hn
  · exact ⟨hflat, .inl hdots⟩
  · exact ⟨hflat, .inr (.inl hdots)⟩
  · have hout : ¬ inside (dir ++ '/' :: rel) := fun hin => hinside rel hin (hhead ▸ hn)
    exact ⟨hflat, .inr (.inr ⟨⟨rel, mem_paths_of_takes hm hr hout hmem, hhead⟩, hne⟩)⟩

/-- The loop fails with another code, or it has removed every file under the names. -/
theorem removeEntries_removes (hfound : FoundRule host)
    (ih : ∀ {dir rel s t}, removeTree host depth dir s = (0, t) → FileAt s dir rel →
      t.readFile (dir ++ '/' :: rel) = none)
    (hnodup : names.Nodup) (hpending : Pending s dir names)
    (hr : traverseEntries host (rmdirCb host (removeTree host depth)) dir names s = (code, t))
    (hcode : code = 0 ∨ code = enoent) (hmem : headName rel ∈ names) (h : FileAt s dir rel) :
    t.readFile (dir ++ '/' :: rel) = none := by
  induction names generalizing s with
  | nil => cases hmem
  | cons name rest ihrest =>
    rw [traverseEntries, Traverse.traverseEntries_cons] at hr
    split at hr
    swap
    · cases hr
      exact absurd hcode (by decide)
    obtain ⟨r, s1, hstat, hr⟩ := bind_run hr
    cases r with
    | error err =>
      cases hr
      have herr := stat_error hstat
      exact absurd hcode (not_or.mpr ⟨statPath_error herr,
        statPath_found hfound (hpending.kind h) herr⟩)
    | ok st =>
    obtain ⟨kind, rfl, hkind⟩ := stat_ok hstat
    dsimp only at hr
    obtain ⟨ret, s2, hcb, hloop⟩ := bind_run hr
    split at hloop
    · cases hloop
      exact absurd hcode (by decide)
    rename_i hret
    rw [not_not.mp hret] at hcb
    obtain ⟨hnotin, hnodup⟩ := List.nodup_cons.mp hnodup
    have hflat := (hpending name List.mem_cons_self).1
    have hentry := @removeEntry_takes host (modeOf kind) dir name depth hflat
    by_cases hhead : headName rel = name
    · subst hhead
      have hrest : Issues host (TakesIn fun _ => True)
          (traverseEntries host (rmdirCb host (removeTree host depth)) dir rest) :=
        traverseEntries_issues (fun _ => trivial) fun _ _ _ =>
          rmdirCb_takes (removeTree_takes depth _) fun _ _ => trivial
      exact none_of_takes hrest hloop (removeEntry_removes ih hkind hcb h)
    · have hstat' := @statPath_issues host (dir ++ '/' :: name) (TakesIn fun _ => False) trivial
      have hfile : FileAt s2 dir rel := by
        apply FileAt.aside (h.of_files (statPath_ok hkind).2)
        intro rel' hrel'
        apply readFile_of_touches (hentry.weaken fun _ hc => hc.touches) hcb
        rintro ⟨rel'', heq, hmem'⟩
        obtain rfl : rel' = rel'' := by simpa using heq
        exact hhead (hrel'.symm.trans (List.mem_singleton.mp hmem'))
      have hpending' : Pending s2 dir rest := by
        have hpending1 : Pending s1 dir rest :=
          Pending.rest hstat' hkind (fun _ hin => hin.elim) fun n hn =>
            hpending n (List.mem_cons_of_mem _ hn)
        apply Pending.rest hentry hcb _ hpending1
        rintro rel' ⟨rel'', heq, hmem'⟩ hin
        obtain rfl : rel' = rel'' := by simpa using heq
        exact hnotin (List.mem_singleton.mp hmem' ▸ hin)
      exact ihrest hnodup hpending' hloop (List.mem_of_ne_of_mem hhead hmem) hfile

/-- A removal that succeeds has removed every file, and it does not say `ENOENT` of what it
finds. -/
theorem removeTree_removes (hfound : FoundRule host) (depth : Nat)
    (hr : removeTree host depth dir s = (code, t))
    (hcode : code = 0 ∨ code = enoent ∧ s.kind dir ≠ none) (h : FileAt s dir rel) :
    t.readFile (dir ++ '/' :: rel) = none := by
  induction depth generalizing dir rel s t code with
  | zero =>
    cases hr
    exact absurd (hcode.imp_right And.left) (by decide)
  | succ depth ih =>
    have hcode' := hcode.imp_right And.left
    unfold removeTree Traverse.removeTree Traverse.recursiveTraverse at hr
    split at hr
    · cases hr
      exact absurd hcode' (by decide)
    obtain ⟨opened, s1, hopen, hr⟩ := bind_run hr
    split at hr
    · rename_i hne
      cases hr
      exfalso
      obtain hzero | ⟨henoent, hkind⟩ := hcode
      · exact hne hzero
      · exact openDirectory_found hfound hkind hopen henoent
    rename_i hopened
    rw [not_not.mp hopened] at hopen
    have hfile := h.of_files (openDirectory_zero hopen)
    rw [run_get_bind] at hr
    obtain ⟨ret, s2, hentries, hr⟩ := bind_run hr
    obtain ⟨closed, s3, hclose, hr⟩ := bind_run hr
    have hret : ret = 0 ∨ ret = enoent := by
      split at hr
      · rename_i hzero
        exact .inl hzero.2
      · cases hr
        exact hcode'
    have hgone := removeEntries_removes hfound (fun hr => ih hr (.inl rfl))
      ((host.readdir_perm s1 dir).nodup_iff.mpr (List.nodup_dedup _)) pending_readdir hentries hret
      ((host.readdir_perm s1 dir).mem_iff.mpr hfile.mem_entries) hfile
    have ht : t = s3 := by
      split at hr <;> cases hr <;> rfl
    have hlook : Issues host (TakesIn fun _ => False) (call host (.file (.closedir dir))) :=
      issues_call trivial
    rw [ht]
    exact none_of_takes hlook hclose hgone

/-- Behind a removal that reports a success or `ENOENT` nothing is left below the directory. -/
theorem libzeUtilRmdir_removes (hfound : FoundRule host) (hname : IsName name)
    (htree : IsTree (below s (dir ++ '/' :: name)))
    (hr : libzeUtilRmdir host (dir ++ '/' :: name) s = (code, t))
    (hcode : code = 0 ∨ code = enoent) (rel : CStr) : below t (dir ++ '/' :: name) rel = none := by
  cases hs : below s (dir ++ '/' :: name) rel with
  | none => exact none_of_takes libzeUtilRmdir_takes hr hs
  | some content =>
    have hfile : FileAt s (dir ++ '/' :: name) rel :=
      fileAt_of_fileIn (htree rel (by rw [hs]; rfl)) rfl
    have hkind : s.kind (dir ++ '/' :: name) ≠ none :=
      kind_of_isDir (isDir_of_below hname hfile.isSome)
    obtain ⟨access, s1, hcall, hr⟩ := bind_run hr
    have hgranted : access = 0 := by
      cases hcall
      exact hfound.access s _ hkind
    subst hgranted
    rw [if_neg (by simp)] at hr
    obtain ⟨ret, s2, htree', hr⟩ := bind_run hr
    have hs1 : s1.kind (dir ++ '/' :: name) ≠ none := by
      rw [(call_done hcall).2]
      exact hkind
    have hfile1 : FileAt s1 (dir ++ '/' :: name) rel := by
      rw [(call_done hcall).2]
      exact hfile.of_files rfl
    by_cases hret : ret = 0
    · rw [if_neg (by simpa using hret)] at hr
      have hgone := removeTree_removes hfound _ htree' (.inl hret) hfile1
      have hrmdir : Issues host (TakesIn fun _ => True)
          (call host (.file (.rmdir (dir ++ '/' :: name)))) := issues_call trivial
      exact none_of_takes hrmdir hr hgone
    · rw [if_pos hret] at hr
      cases hr
      exact removeTree_removes hfound _ htree' (hcode.imp_right fun h => ⟨h, hs1⟩) hfile1

end Removal

end Zectl.Util.EmptiedDir
