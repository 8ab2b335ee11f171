import Zectl.Command.HookCalls
import Zectl.Systemdboot.BootStore

/-!
# Commands with their hooks

A command of the library changes the pools and calls hooks of the plugin, which change the
partition and answer the command. Here both run side by side: the hooks that the command has
called run on the partition, in this order, and return there what the command was told. Behind
every run of commands that create, destroy and rename environments the pool and the partition
agree on what can be booted.
-/

namespace Zectl.Systemdboot.JoinedRun

open Relation
open Zectl.Lib.StateRun Zectl.Lib.NamedStore Zectl.Util.CString Zectl.Util.Files Zectl.Util.Writes
open Zectl.Util.Directory Zectl.Util.CopyDir Zectl.Util.EmptiedDir Zectl.Zfs.System Zectl.Zfs.Steps Zectl.Zfs.Forest
open Zectl.Libze.Init Zectl.Libze.Sample Zectl.Libze.Validate Zectl.Libze.Activate Zectl.Libze.Create
open Zectl.Libze.Destroy Zectl.Libze.Rename Zectl.Libze.Snapshot Zectl.Command.Calls
open Zectl.Command.HookCalls Zectl.Systemdboot.Rewritten Zectl.Systemdboot.Fstab Zectl.Systemdboot.Entry
open Zectl.Systemdboot.PreSnapshotOutcome Zectl.Systemdboot.PostCreate
open Zectl.Systemdboot.SavedKernels Zectl.Systemdboot.Hooks Zectl.Systemdboot.PostRename
open Zectl.Systemdboot.BootStore

/-- The pools, and the files of the partition. -/
structure Disks where
  pool : Sys
  esp : Sys

/-- The hooks of a command on the partition, each on what the one before it has left. -/
inductive Followed (plugin : Host) (efi : CStr) (h : Handle) :
    Sys → List (Hook × Nat) → List (Change BeName Tree) → Sys → Prop
  | done (s : Sys) : Followed plugin efi h s [] [] s
  | hook {s t : Sys} {mountpointBuf : CStr} {k : Hook} {code : Nat} {hooks : List (Hook × Nat)}
      {change : Change BeName Tree} {changes : List (Change BeName Tree)}
      (hcode : (exportedPlugin plugin h mountpointBuf k s).1 = .ofCode code)
      (hdone : Done plugin efi h mountpointBuf s k change)
      (hrest : Followed plugin efi h (exportedPlugin plugin h mountpointBuf k s).2 hooks changes t) :
      Followed plugin efi h s ((k, code) :: hooks) (change :: changes) t

/-- What the plugin relies on. -/
structure PluginRules (plugin : Host) : Prop where
  opens : OpenRule plugin
  template : TemplateRule plugin
  found : FoundRule plugin
  renames : RenameRule plugin

/-- A command has the plugin and no boot pool. -/
structure Booting (efi root : CStr) (h : Handle) : Prop where
  root : h.envRoot = root
  efi : propertyOf h "efi" = efi
  plugin : h.lzFuncs = true
  noBootpool : h.bootpool = none

def datasetOf (root : CStr) (b : BeName) : CStr := root ++ '/' :: b.text

/-- The name is one of an environment, and not of a snapshot of one. -/
def IsPlain (root : CStr) (b : BeName) : Prop := isSnapshotName (datasetOf root b) = false

/-- What a creation copies is there: the activated environment, or saved kernels. -/
def Sourced (root : CStr) (s : Sys) : Change BeName Tree → Prop
  | .copy active _ => IsPlain root active ∧ datasetOf root active ∈ s.names
  | .restore saved _ => saved ≠ noFiles
  | _ => True

/-- A command with its hooks. A creation, a destruction and a rename succeed; an activation and
a snapshot may end in any way. -/
inductive Step (host plugin : Host) (efi root : CStr) (d d' : Disks) : Prop
  | create {h : Handle} {options : CreateOptions} {b : BeName} {changes : List (Change BeName Tree)}
      (hbooting : Booting efi root h) (hname : options.beName = b.text)
      (hrun : libzeCreate host h options d.pool = (.success, d'.pool))
      (hhooks : Followed plugin efi h d.esp (hooksBetween d.pool d'.pool) changes d'.esp)
      (hsourced : ∀ change ∈ changes, Sourced root d.pool change)
  | destroy {h : Handle} {options : DestroyOptions} {b : BeName}
      {changes : List (Change BeName Tree)} (hbooting : Booting efi root h)
      (hname : options.beName = b.text) (hflat : isSnapshotName b.text = false)
      (hforest : IsForest d.pool.names)
      (hrun : libzeDestroy host h options d.pool = (.success, d'.pool))
      (hhooks : Followed plugin efi h d.esp (hooksBetween d.pool d'.pool) changes d'.esp)
  | rename {h : Handle} {old new : BeName} {changes : List (Change BeName Tree)}
      (hbooting : Booting efi root h)
      (hrun : libzeRename host h old.text new.text d.pool = (.success, d'.pool))
      (hhooks : Followed plugin efi h d.esp (hooksBetween d.pool d'.pool) changes d'.esp)
  | activate {h : Handle} {be : CStr} {r : LibzeError} {changes : List (Change BeName Tree)}
      (hbooting : Booting efi root h) (hrun : libzeActivate host h be d.pool = (r, d'.pool))
      (hhooks : Followed plugin efi h d.esp (hooksBetween d.pool d'.pool) changes d'.esp)
  | snapshot {h : Handle} {be : CStr} {r : LibzeError} {changes : List (Change BeName Tree)}
      (hbooting : Booting efi root h) (hrun : libzeSnapshot host h be d.pool = (r, d'.pool))
      (hhooks : Followed plugin efi h d.esp (hooksBetween d.pool d'.pool) changes d'.esp)
  | between (hpool : d'.pool.names = d.pool.names) (hesp : d'.esp.files = d.esp.files)

/-- Of every name: the pool has the environment, the partition has its entry and it has kernels
of it, or none of these. -/
structure Agree (efi root : CStr) (d : Disks) : Prop where
  entries : ∀ b, IsPlain root b →
    (datasetOf root b ∈ d.pool.names ↔ (d.esp.readFile (entryPath efi b.text)).isSome)
  kernels : ∀ b : BeName, (d.esp.readFile (entryPath efi b.text)).isSome ↔
    ∃ rel, (below d.esp (kernelDir efi b.text) rel).isSome

/-! ## The changes of a command -/

section Changes
variable {host plugin : Host} {efi root : CStr} {h : Handle} {s t : Sys} {d d' : Disks}
  {hooks : List (Hook × Nat)} {changes : List (Change BeName Tree)} {b : BeName}

theorem Followed.store_after (hrules : PluginRules plugin) (hefi : propertyOf h "efi" = efi)
    (hhooks : Followed plugin efi h s hooks changes t) :
    names.store efi t = names.after (names.store efi s) changes := by
  induction hhooks with
  | done => rfl
  | hook _ hdone _ ih =>
    rw [ih, done_apply (fun _ => names_carries hrules.opens) hrules.template hrules.found
      hrules.renames hefi hdone]
    rfl

/-- A single hook makes a single change. -/
theorem Followed.single {k : Hook} {code : Nat}
    (hhooks : Followed plugin efi h s [(k, code)] changes t) :
    ∃ mountpointBuf change, changes = [change] ∧ Done plugin efi h mountpointBuf s k change := by
  cases hhooks with
  | hook _ hdone hrest =>
    cases hrest
    exact ⟨_, _, rfl, hdone⟩

/-- Hooks that change nothing in the store. -/
def Watches : Hook → Prop
  | .preActivate | .midActivate _ _ | .postActivate _ | .preSnapshot _ _ => True
  | _ => False

theorem watches_of_activateCall {be : CStr} {k : Hook} (hc : ActivateCall h be (.hook k)) :
    Watches k := by
  cases hc with
  | before | behind => trivial
  | pass hc =>
    cases hc with
    | lookup hc => exact hc.elim
  | mid hc =>
    cases hc with
    | hook => trivial
    | around _ hc =>
      cases hc with
      | hook => trivial

theorem watches_of_snapshotCall {k : Hook} (hc : SnapshotCall (.hook k)) : Watches k := by
  cases hc with
  | hook => trivial
  | look hc => exact hc.elim

theorem Followed.keeps (hwatch : ∀ k ∈ hooks, Watches k.1)
    (hhooks : Followed plugin efi h s hooks changes t) : ∀ change ∈ changes, change = .keep := by
  induction hhooks with
  | done => exact fun _ hmem => nomatch hmem
  | hook _ hdone _ ih =>
    have hfirst := hwatch _ (List.mem_cons_self ..)
    intro change hmem
    obtain rfl | hmem := List.mem_cons.mp hmem
    · cases hdone with
      | preActivate | midActivate | postActivate | preSnapshot => rfl
      | postDestroy | postRename | postCreate | restored => exact hfirst.elim
    · exact ih (fun k hk => hwatch k (List.mem_cons_of_mem _ hk)) change hmem

theorem after_keeps {w : Store BeName (Set CStr)} (hkeep : ∀ change ∈ changes, change = .keep) :
    names.after w changes = w := by
  induction changes with
  | nil => rfl
  | cons change rest ih =>
    rw [hkeep change (List.mem_cons_self ..)]
    exact ih fun c hc => hkeep c (List.mem_cons_of_mem _ hc)

theorem destroy_change {mountpointBuf : CStr} {change : Change BeName Tree}
    (hdone : Done plugin efi h mountpointBuf s (.postDestroy b.text) change) :
    change = .drop b := by
  generalize hk : Hook.postDestroy b.text = k at hdone
  cases hdone with
  | postDestroy => rw [BeName.ext (Hook.postDestroy.inj hk)]
  | preActivate | midActivate | postActivate | preSnapshot | postRename | postCreate | restored =>
    cases hk

theorem rename_change {old new : BeName} {mountpointBuf : CStr} {change : Change BeName Tree}
    (hdone : Done plugin efi h mountpointBuf s (.postRename old.text new.text) change) :
    old ≠ new ∧ change = .move old new := by
  generalize hk : Hook.postRename old.text new.text = k at hdone
  cases hdone with
  | postRename hne =>
    obtain ⟨hold, hnew⟩ := Hook.postRename.inj hk
    rw [BeName.ext hold, BeName.ext hnew]
    exact ⟨hne, rfl⟩
  | preActivate | midActivate | postActivate | preSnapshot | postDestroy | postCreate | restored =>
    cases hk

theorem create_change {dir mountpointBuf : CStr} {isSnap : Bool} {change : Change BeName Tree}
    (hdone : Done plugin efi h mountpointBuf s (.postCreate b.text dir isSnap) change) :
    (∃ active, change = .copy active b) ∨ ∃ saved, change = .restore saved b := by
  generalize hk : Hook.postCreate b.text dir isSnap = k at hdone
  cases hdone with
  | @postCreate active =>
    rw [BeName.ext (Hook.postCreate.inj hk).1]
    exact .inl ⟨active, rfl⟩
  | restored =>
    rw [BeName.ext (Hook.postCreate.inj hk).1]
    exact .inr ⟨_, rfl⟩
  | preActivate | midActivate | postActivate | preSnapshot | postDestroy | postRename =>
    cases hk

/-! ## The agreement behind a command -/

theorem agree_iff : Agree efi root d ↔
    (∀ b, IsPlain root b → (datasetOf root b ∈ d.pool.names ↔ b ∈ (names.store efi d.esp).listed)) ∧
      Exact (names.of noFiles) (names.store efi d.esp) := by
  constructor
  · intro hagree
    exact ⟨hagree.entries, fun b => (hagree.kernels b).trans names_ne_iff.symm⟩
  · rintro ⟨hentries, hexact⟩
    exact ⟨hentries, fun b => (hexact b).trans names_ne_iff⟩

theorem merge_ne (x y : Set CStr) (hx : x ≠ names.of noFiles) :
    names.merge x y ≠ names.of noFiles := by
  rw [names_noFiles, ← Set.nonempty_iff_ne_empty] at hx ⊢
  exact hx.inl

/-- One change of the store that the environments follow. -/
theorem Agree.change {change : Change BeName Tree} (hagree : Agree efi root d)
    (hstore : names.store efi d'.esp = names.after (names.store efi d.esp) [change])
    (hsupplied : Supplied (names.of noFiles) (names.store efi d.esp) (change.map names.of))
    (hpool : ∀ b, IsPlain root b → (datasetOf root b ∈ d'.pool.names ↔
      b ∈ ((store efi d.esp).apply overlay noFiles change).listed)) : Agree efi root d' := by
  obtain ⟨-, hexact⟩ := agree_iff.mp hagree
  have hafter : names.after (names.store efi d.esp) [change] =
      (names.store efi d.esp).apply names.merge (names.of noFiles) (change.map names.of) := rfl
  rw [agree_iff, hstore, hafter]
  refine ⟨fun b hb => (hpool b hb).trans ?_, hexact.apply merge_ne hsupplied⟩
  cases change <;> rfl

/-- Neither the environments nor the store change. -/
theorem Agree.same (hagree : Agree efi root d)
    (hstore : names.store efi d'.esp = names.store efi d.esp)
    (hpool : ∀ b, IsPlain root b →
      (datasetOf root b ∈ d'.pool.names ↔ datasetOf root b ∈ d.pool.names)) :
    Agree efi root d' := by
  rw [agree_iff] at hagree ⊢
  rw [hstore]
  exact ⟨fun b hb => (hpool b hb).trans (hagree.1 b hb), hagree.2⟩

theorem Booting.datasetOf (hbooting : Booting efi root h) (b : BeName) :
    datasetOf root b = h.beDataset b.text := by
  rw [JoinedRun.datasetOf, ← hbooting.root]
  rfl

theorem text_eq_iff {x : BeName} : x.text = b.text ↔ x = b := BeName.ext_iff.symm

theorem Agree.step (hrules : PluginRules plugin) (hagree : Agree efi root d)
    (hstep : Step host plugin efi root d d') : Agree efi root d' := by
  cases hstep with
  | @create h options b changes hbooting hname hrun hhooks hsourced =>
    obtain ⟨dir, isSnap, hran⟩ := libzeCreate_ran hbooting.plugin hbooting.noBootpool hrun
    rw [hran.hooksBetween, hname] at hhooks
    have hstore := hhooks.store_after hrules hbooting.efi
    obtain ⟨_, change, rfl, hdone⟩ := hhooks.single
    have hsource := hsourced change (List.mem_singleton_self change)
    have hpool : ∀ x, IsPlain root x → (JoinedRun.datasetOf root x ∈ d'.pool.names ↔
        x = b ∨ x ∈ (store efi d.esp).listed) := by
      intro x hx
      have hentry := hagree.entries x hx
      rw [IsPlain, hbooting.datasetOf] at hx
      rw [hbooting.datasetOf] at hentry ⊢
      rw [libzeCreate_environments hbooting.noBootpool hrun x.flat hx, hname, text_eq_iff, hentry]
      exact or_comm
    obtain ⟨active, rfl⟩ | ⟨saved, rfl⟩ := create_change hdone
    · exact hagree.change hstore ((hagree.entries active hsource.1).mp hsource.2) hpool
    · exact hagree.change hstore (names_ne_iff.mpr (noFiles_ne_iff.mp hsource)) hpool
  | @destroy h options b changes hbooting hname hflat hforest hrun hhooks =>
    have hplain : isSnapshotName options.beName = false := by rw [hname, hflat]
    have hran := libzeDestroy_ran hbooting.plugin hbooting.noBootpool hplain hrun
    rw [hran.hooksBetween, hname] at hhooks
    have hstore := hhooks.store_after hrules hbooting.efi
    obtain ⟨_, change, rfl, hdone⟩ := hhooks.single
    obtain rfl := destroy_change hdone
    refine hagree.change hstore trivial fun x hx => ?_
    have hentry := hagree.entries x hx
    rw [IsPlain, hbooting.datasetOf] at hx
    rw [hbooting.datasetOf] at hentry ⊢
    rw [libzeDestroy_environments hforest hbooting.noBootpool hplain hrun x.flat hx, hname, hentry]
    exact and_congr_right fun _ => not_congr text_eq_iff
  | @rename h old new changes hbooting hrun hhooks =>
    obtain ⟨hran, hbe, -⟩ := libzeRename_ran hbooting.plugin hbooting.noBootpool hrun
    rw [hran.hooksBetween] at hhooks
    have hstore := hhooks.store_after hrules hbooting.efi
    obtain ⟨_, change, rfl, hdone⟩ := hhooks.single
    obtain ⟨hne, rfl⟩ := rename_change hdone
    have hold : old ∈ (store efi d.esp).listed := by
      obtain ⟨hthere, hfs⟩ := exists_filesystem hbe.exist.root
      rw [← hbooting.datasetOf] at hthere hfs
      exact (hagree.entries old hfs).mp hthere
    refine hagree.change hstore ⟨hne.symm, hold⟩ fun x hx => ?_
    have hentry := hagree.entries x hx
    rw [IsPlain, hbooting.datasetOf] at hx
    rw [hbooting.datasetOf] at hentry ⊢
    rw [libzeRename_environments hbooting.plugin hbooting.noBootpool hrun x.flat hx, text_eq_iff,
      hentry]
    exact or_congr Iff.rfl (and_congr_right fun _ => not_congr text_eq_iff)
  | @activate h be r changes hbooting hrun hhooks =>
    have hwatch : ∀ k ∈ hooksBetween d.pool d'.pool, Watches k.1 := fun k hk =>
      watches_of_activateCall (may_of_mem_hooksBetween (libzeActivate_calls be) hrun hk)
    refine hagree.same ((hhooks.store_after hrules hbooting.efi).trans
      (after_keeps (hhooks.keeps hwatch))) fun x hx => ?_
    exact mem_names_iff (filesystems_of_issues (libzeActivate_calls be)
      (fun c hc => activateCall_filesystems hc) hrun) hx
  | @snapshot h be r changes hbooting hrun hhooks =>
    have hwatch : ∀ k ∈ hooksBetween d.pool d'.pool, Watches k.1 := fun k hk =>
      watches_of_snapshotCall (may_of_mem_hooksBetween (libzeSnapshot_calls be) hrun hk)
    refine hagree.same ((hhooks.store_after hrules hbooting.efi).trans
      (after_keeps (hhooks.keeps hwatch))) fun x hx => ?_
    exact mem_names_iff (filesystems_of_issues (libzeSnapshot_calls be)
      (fun c hc => snapshotCall_filesystems hc) hrun) hx
  | between hpool hesp =>
    refine hagree.same (names.store_of_files hesp) fun x _ => ?_
    rw [hpool]

/-- Behind every run of commands the environments of the pool are those with an entry and kernels
on the partition. -/
theorem agree_of_run (hrules : PluginRules plugin) (hagree : Agree efi root d)
    (hrun : ReflTransGen (Step host plugin efi root) d d') : Agree efi root d' :=
  invariant_of_steps (Agree efi root) (fun _ _ hstep hu => hu.step hrules hstep) hrun hagree

end Changes

/-! ## A rename on both sides -/

theorem nameB_flat : '/' ∉ ("b" : CStr) := by decide

def nameB : BeName := ⟨"b", nameB_flat⟩

/-- A kernel and the entry of `a` and of `b`. -/
def espSys : Sys :=
  { sampleSys [] with
    files := [("/efi/env/org.zectl-a/old", "1"), ("/efi/env/org.zectl-b/old", "1"),
      ("/efi/loader/entries/org.zectl-a.conf", "title a\n"),
      ("/efi/loader/entries/org.zectl-b.conf", "title b\n")] }

/-- The pool behind the rename. -/
def renamedPool : Sys := (libzeRename obliging pluginHandle nameB.text nameN.text (sampleSys [])).2

/-- The partition behind it. -/
@[irreducible] def renamedEsp : Sys :=
  (exportedPlugin tidy pluginHandle [] (.postRename nameB.text nameN.text) espSys).2

theorem espSys_read {path : CStr} (hread : (espSys.readFile path).isSome) :
    path ∈ [kernelDir "/efi" nameA.text ++ '/' :: ("old" : CStr),
      kernelDir "/efi" nameB.text ++ '/' :: ("old" : CStr), entryPath "/efi" nameA.text,
      entryPath "/efi" nameB.text] := by
  have hpaths : espSys.paths = [kernelDir "/efi" nameA.text ++ '/' :: ("old" : CStr),
      kernelDir "/efi" nameB.text ++ '/' :: ("old" : CStr), entryPath "/efi" nameA.text,
      entryPath "/efi" nameB.text] := by
    decide +kernel
  rw [← hpaths]
  exact mem_paths_of_readFile hread

theorem espSys_agree : Agree "/efi" "rpool/ROOT" ⟨sampleSys [], espSys⟩ := by
  have hentry : ∀ b : BeName, (espSys.readFile (entryPath "/efi" b.text)).isSome ↔
      b = nameA ∨ b = nameB := by
    intro b
    constructor
    · intro hread
      have hmem := espSys_read hread
      simp only [List.mem_cons, List.not_mem_nil, or_false] at hmem
      obtain hpath | hpath | hpath | hpath := hmem
      · exact absurd hpath.symm kernelDir_ne_entryPath
      · exact absurd hpath.symm kernelDir_ne_entryPath
      · exact .inl (entryPath_inj hpath)
      · exact .inr (entryPath_inj hpath)
    · rintro (rfl | rfl)
      · decide +kernel
      · decide +kernel
  have hkernel : ∀ b : BeName, (∃ rel, (below espSys (kernelDir "/efi" b.text) rel).isSome) ↔
      b = nameA ∨ b = nameB := by
    intro b
    constructor
    · rintro ⟨rel, hread⟩
      have hmem := espSys_read hread
      by_contra hnot
      obtain ⟨hna, hnb⟩ := not_or.mp hnot
      have hapart : ∀ b' : BeName, b ≠ b' →
          ¬ Below (kernelDir "/efi" b'.text) (kernelDir "/efi" b.text ++ '/' :: rel) :=
        fun b' hne => kernelDir_disjoint hne ⟨rel, rfl⟩
      simp only [List.mem_cons, List.not_mem_nil, or_false] at hmem
      obtain hpath | hpath | hpath | hpath := hmem
      · exact hapart nameA hna ⟨_, hpath⟩
      · exact hapart nameB hnb ⟨_, hpath⟩
      · exact kernelDir_ne_entryPath hpath
      · exact kernelDir_ne_entryPath hpath
    · rintro (rfl | rfl)
      · exact ⟨"old", by decide +kernel⟩
      · exact ⟨"old", by decide +kernel⟩
  constructor
  · intro b _
    show datasetOf "rpool/ROOT" b ∈ (sampleSys []).names ↔ _
    rw [hentry]
    simp [sampleSys, Sys.names, datasetOf, BeName.ext_iff, nameA, nameB]
  · intro b
    exact (hentry b).trans (hkernel b).symm

theorem tidy_rules : PluginRules tidy :=
  ⟨tidy_openRule, fun _ _ => ⟨_, rfl⟩, tidy_foundRule, tidy_renameRule⟩

theorem pluginHandle_booting : Booting "/efi" "rpool/ROOT" pluginHandle :=
  ⟨rfl, plugin_efi, rfl, rfl⟩

theorem esp_followed : Followed tidy "/efi" pluginHandle espSys
    [(.postRename nameB.text nameN.text, 0)] [.move nameB nameN] renamedEsp := by
  have hok : (postRename tidy pluginHandle nameB.text nameN.text espSys).1 = .success := by
    decide +kernel
  have hcode : (exportedPlugin tidy pluginHandle [] (.postRename nameB.text nameN.text) espSys).1 =
      .ofCode 0 := by
    decide +kernel
  unfold renamedEsp
  exact .hook hcode (.postRename (by decide) hok) (.done _)

theorem agree_of_run_sample : Agree "/efi" "rpool/ROOT" ⟨renamedPool, renamedEsp⟩ := by
  have hrun : libzeRename obliging pluginHandle nameB.text nameN.text (sampleSys []) =
      (.success, renamedPool) := by
    unfold renamedPool
    exact run_eq_of_fst (by decide +kernel)
  have hhooks := esp_followed
  rw [← (libzeRename_ran rfl rfl hrun).1.hooksBetween] at hhooks
  have hstep : Step obliging tidy "/efi" "rpool/ROOT" ⟨sampleSys [], espSys⟩
      ⟨renamedPool, renamedEsp⟩ :=
    .rename pluginHandle_booting hrun hhooks
  exact agree_of_run tidy_rules espSys_agree (.single hstep)

end Zectl.Systemdboot.JoinedRun
