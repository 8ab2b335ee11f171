import Zectl.Libze.Granted

/-!
# One environment on two pools

With a boot pool every environment has a dataset on each pool. Each of the three
operations changes the root pool first and has no rollback, so the two datasets of a
name stay together as long as libzfs refuses no call in between.
-/

namespace Zectl.Libze.Pairing

open Zectl.Lib.StateRun Zectl.Lib.PathOrder Zectl.Util.CString Zectl.Zfs.System Zectl.Zfs.Steps
open Zectl.Zfs.Forest Zectl.Libze.Init Zectl.Libze.Sample Zectl.Libze.Validate Zectl.Libze.Clone
open Zectl.Libze.Destroy Zectl.Libze.DestroyOutcome Zectl.Libze.Rename Zectl.Libze.Create
open Zectl.Libze.Granted

open Relation (ReflTransGen)

/-- Both datasets of a name are there, or neither is. -/
def Paired (h : Handle) (bp : Bootpool) (n : CStr) (s : Sys) : Prop :=
  h.beDataset n ∈ s.names ↔ bp.beDataset n ∈ s.names

instance (h : Handle) (bp : Bootpool) (n : CStr) (s : Sys) : Decidable (Paired h bp n s) :=
  inferInstanceAs (Decidable (h.beDataset n ∈ s.names ↔ bp.beDataset n ∈ s.names))

def poolOf (n : CStr) : CStr := n.takeWhile (· ≠ '/')

/-- A name of an environment: valid components, or one component only. -/
structure IsBeName (nested : Bool) (n : CStr) : Prop where
  valid : validName n = true
  flat : '@' ∉ n
  single : nested = false → '/' ∉ n

/-- The environments lie below filesystems of two different pools. -/
structure TwoPools (h : Handle) (bp : Bootpool) : Prop where
  root_flat : '@' ∉ h.envRoot
  boot_flat : '@' ∉ bp.rootPathFull
  apart : poolOf h.envRoot ≠ poolOf bp.rootPathFull

inductive Op where
  | create (options : CreateOptions)
  | destroy (options : DestroyOptions)
  | rename (be newBe : CStr)

def Op.run (host : Host) (h : Handle) : Op → Libze LibzeError
  | .create options => libzeCreate host h options
  | .destroy options => libzeDestroy host h options
  | .rename be newBe => libzeRename host h be newBe

/-- One call of an operation, whatever the outcomes of its calls. -/
def OpStep (h : Handle) (s t : Sys) : Prop :=
  ∃ (host : Host) (op : Op) (r : LibzeError), op.run host h s = (r, t)

/-- A destroy without `force` is refused at a mounted dataset between the two pools, and a
recursive create at a name that is too long. -/
def Op.Clear (host : Host) (h : Handle) (bp : Bootpool) (s : Sys) : Op → Prop
  | .create options => NamesFit host h options s
  | .destroy options => MeetsNoMount options s (h.beDataset options.beName) ∧
      MeetsNoMount options s (bp.beDataset options.beName)
  | .rename _ _ => True

/-- One call of an operation in which libzfs refuses nothing. -/
def GrantedStep (h : Handle) (bp : Bootpool) (s t : Sys) : Prop :=
  ∃ (host : Host) (op : Op) (r : LibzeError), KeepsPools host ∧ SnapshotRule host ∧
    op.Clear host h bp s ∧ op.run host h s = (r, t) ∧ Unrefused s t

/-! ## Names behind a prefix -/

section Prefix
variable {pfx pfx' be newBe n : CStr} {names : List CStr}

/-- What a rename of one environment does to the names behind the same prefix. -/
theorem mem_renamed_iff :
    pfx ++ n ∈ names.map (renamePath (pfx ++ be) (pfx ++ newBe)) ↔
      (pfx ++ n ∈ names ∧ ¬ AtOrBelow be n) ∨
        ∃ r, n = newBe ++ r ∧ AtOrBelow be (be ++ r) ∧ pfx ++ (be ++ r) ∈ names := by
  rw [List.mem_map]
  constructor
  · rintro ⟨m, hm, heq⟩
    unfold renamePath at heq
    split at heq
    · rename_i hbelow
      obtain ⟨r, rfl⟩ := hbelow.isPrefix
      rw [List.drop_left, List.append_assoc, List.append_cancel_left_eq] at heq
      rw [List.append_assoc] at hm hbelow
      exact .inr ⟨r, heq.symm, under_append_left.mp hbelow, hm⟩
    · rename_i hnot
      subst heq
      exact .inl ⟨hm, fun hbelow => hnot (under_append_left.mpr hbelow)⟩
  · rintro (⟨hm, hnot⟩ | ⟨r, rfl, hbelow, hm⟩)
    · exact ⟨_, hm, if_neg fun hbelow => hnot (under_append_left.mp hbelow)⟩
    · refine ⟨_, hm, ?_⟩
      rw [renamePath, if_pos (under_append_left.mpr hbelow), ← List.append_assoc, List.drop_left,
        List.append_assoc]

/-- The names behind a prefix, read off the list. -/
theorem append_mem_iff {m : CStr} : pfx ++ m ∈ names ↔
    m ∈ (names.filter fun x => pfx.isPrefixOf x).map (List.drop pfx.length) := by
  rw [List.mem_map]
  constructor
  · intro hm
    exact ⟨_, List.mem_filter.mpr ⟨hm, by simp⟩, List.drop_left⟩
  · rintro ⟨x, hx, rfl⟩
    obtain ⟨hmem, hpre⟩ := List.mem_filter.mp hx
    obtain ⟨r, rfl⟩ := List.isPrefixOf_iff_prefix.mp hpre
    rwa [List.drop_left]

theorem poolOf_append (hslash : '/' ∈ pfx) (rest : CStr) : poolOf (pfx ++ rest) = poolOf pfx := by
  induction pfx with
  | nil => cases hslash
  | cons x pfx ih =>
    by_cases hx : x = '/'
    · simp [poolOf, hx]
    · have hmem : '/' ∈ pfx := by simpa [Ne.symm hx] using hslash
      have hrest := ih hmem
      unfold poolOf at hrest ⊢
      simpa [hx] using hrest

/-- A rename on another pool leaves a name alone. -/
theorem mem_renamed_apart_iff {n be newBe : CStr} (hslash : '/' ∈ pfx) (hslash' : '/' ∈ pfx')
    (hapart : poolOf pfx ≠ poolOf pfx') :
    pfx ++ n ∈ names.map (renamePath (pfx' ++ be) (pfx' ++ newBe)) ↔ pfx ++ n ∈ names := by
  rw [List.mem_map]
  constructor
  · rintro ⟨m, hm, heq⟩
    unfold renamePath at heq
    split at heq
    · have hpool := congrArg poolOf heq
      rw [List.append_assoc, poolOf_append hslash', poolOf_append hslash] at hpool
      exact absurd hpool.symm hapart
    · rwa [← heq]
  · intro hm
    refine ⟨_, hm, if_neg fun hbelow => ?_⟩
    obtain ⟨r, hr⟩ := hbelow.isPrefix
    have hpool := congrArg poolOf hr
    rw [List.append_assoc, poolOf_append hslash', poolOf_append hslash] at hpool
    exact absurd hpool.symm hapart

end Prefix

/-! ## The calls that rename -/

section Renames
variable {host : Host} {h : Handle} {bp : Bootpool} {be newBe n : CStr} {s t : Sys}

theorem names_of_rename {c : ZfsCall} {a b : CStr} (hc : c = .rename a b)
    (hr : call host (.zfs c) s = (0, t)) : t.names = s.names.map (renamePath a b) := by
  rw [(call_done hr).2, hc]
  simp [Sys.names, Call.effect, ZfsCall.effect]

theorem names_of_hook {hook : Hook} {code : Nat} (hr : call host (.hook hook) s = (code, t)) :
    t.names = s.names := by
  by_cases hcode : code = 0
  · subst hcode
    rw [(call_done hr).2]
    rfl
  · rw [call_refused hr hcode]
    rfl

/-- A rename in which libzfs refuses nothing renames on neither pool or on both. -/
inductive Renames (h : Handle) (bp : Bootpool) (be newBe : CStr) (s t : Sys) : Prop
  | nothing (hnames : t.names = s.names)
  | both (hexist : Exists h s be)
      (hnames : t.names = (s.names.map (renamePath (h.beDataset be) (h.beDataset newBe))).map
        (renamePath (bp.beDataset be) (bp.beDataset newBe)))

theorem renames {r : LibzeError} (hbp : h.bootpool = some bp) (hquiet : Unrefused s t)
    (hr : libzeRename host h be newBe s = (r, t)) : Renames h bp be newBe s t := by
  cases renameBe hr with
  | refused _ ht => exact .nothing ht.same.names
  | rootFailed _ hs hroot hcode _ ht =>
    refine .nothing (ht.same.names.trans ?_)
    rw [(samePools_of_refused hroot hcode).names, hs.same.names]
  | @rootRenamed _ s1 s2 s3 _ hbe hs hroot hboot hpost =>
    have hnames2 := names_of_rename rfl hroot
    rw [hs.same.names] at hnames2
    obtain ⟨hlast, hsuffix⟩ : t.names = s3.names ∧ s3.trace <:+ t.trace := by
      obtain ⟨_, _, rfl⟩ | ⟨code, _, hcall, _⟩ := hpost
      · exact ⟨rfl, List.suffix_rfl⟩
      · exact ⟨names_of_hook hcall, call_suffix hcall⟩
    obtain ⟨hnone, _⟩ | ⟨bp', code, u, hbp', hcall, hlook⟩ := renameBootDataset_cases hboot
    · rw [hnone] at hbp
      cases hbp
    cases hbp.symm.trans hbp'
    obtain rfl := hquiet.granted (hs.suffix.trans (call_suffix hroot)) hcall
      (hlook.suffix.trans hsuffix)
    refine .both hbe.exist ?_
    rw [hlast, hlook.same.names, names_of_rename rfl hcall, hnames2]

end Renames

/-! ## One operation, and runs of them -/

section Pairs
variable {host : Host} {h : Handle} {bp : Bootpool} {be newBe n : CStr} {s t : Sys}

theorem TwoPools.flat (hpools : TwoPools h bp) (hn : '@' ∉ n) :
    isSnapshotName (h.beDataset n) = false ∧ isSnapshotName (bp.beDataset n) = false := by
  have hroot := hpools.root_flat
  have hboot := hpools.boot_flat
  simp [isSnapshotName, Handle.beDataset, Bootpool.beDataset, hroot, hboot, hn]

/-- The prefix of the environments on the root pool. -/
theorem beDataset_eq (h : Handle) (n : CStr) : h.beDataset n = (h.envRoot ++ ['/']) ++ n := by
  simp [Handle.beDataset]

theorem TwoPools.prefixes (hpools : TwoPools h bp) : '/' ∈ h.envRoot ++ ['/'] ∧
    '/' ∈ bp.rootPathFull ∧ poolOf (h.envRoot ++ ['/']) ≠ poolOf bp.rootPathFull := by
  refine ⟨by simp, by simp [bp.full_eq], ?_⟩
  rw [poolOf_append h.root_slash]
  exact hpools.apart

theorem TwoPools.ne (hpools : TwoPools h bp) (a b : CStr) : h.beDataset a ≠ bp.beDataset b := by
  intro heq
  have hpool := congrArg poolOf heq
  rw [beDataset_eq, Bootpool.beDataset, poolOf_append hpools.prefixes.1,
    poolOf_append hpools.prefixes.2.1] at hpool
  exact hpools.prefixes.2.2 hpool

/-- Nothing of one pool is below a dataset of the other. -/
theorem TwoPools.not_below (hpools : TwoPools h bp) (a b : CStr) :
    ¬ AtOrBelow (h.beDataset a) (bp.beDataset b) ∧ ¬ AtOrBelow (bp.beDataset a) (h.beDataset b) := by
  constructor
  · intro hbelow
    obtain ⟨rest, hrest⟩ := hbelow.isPrefix
    refine hpools.ne (a ++ rest) b ?_
    rw [← hrest, Handle.beDataset, Handle.beDataset, List.append_assoc, List.cons_append]
  · intro hbelow
    obtain ⟨rest, hrest⟩ := hbelow.isPrefix
    refine hpools.ne b (a ++ rest) ?_
    rw [← hrest, Bootpool.beDataset, Bootpool.beDataset, List.append_assoc]

/-! ### Creating -/

theorem not_slash_behind {pfx m : CStr} (hn : validName n = true) : pfx ++ n ≠ m ++ "/".toList := by
  intro heq
  obtain rfl | ⟨rest, x, rfl⟩ := List.eq_nil_or_concat n
  · cases hn
  · have hx : x = '/' := by
      rw [List.concat_eq_append, ← List.append_assoc] at heq
      simpa using (List.append_inj_right' heq rfl)
    rw [hx, List.concat_eq_append] at hn
    cases (validFrom_append (.inl rfl) hn).2.2

/-- A clone is named as an environment on the root pool only if it is its dataset. -/
theorem eq_of_isCloneName_root (hn : validName n = true)
    (hclone : IsCloneName (h.beDataset be) (h.beDataset n)) : n = be := by
  obtain heq | heq | ⟨path, -, heq⟩ := hclone
  · simpa [Handle.beDataset] using heq
  · simp [Handle.beDataset] at heq
  · rw [beDataset_eq h n] at heq
    exact absurd heq (not_slash_behind hn)

theorem eq_of_isCloneName_boot (hn : validName n = true)
    (hclone : IsCloneName (bp.beDataset be) (bp.beDataset n)) : n = be := by
  obtain heq | heq | ⟨path, -, heq⟩ := hclone
  · simpa [Bootpool.beDataset] using heq
  · exact absurd heq (bootBeDataset_ne_nil bp n)
  · exact absurd heq (not_slash_behind hn)

/-- Clones on one pool are not named as environments on the other. -/
theorem TwoPools.not_isCloneName (hpools : TwoPools h bp) (be n : CStr) :
    ¬ IsCloneName (h.beDataset be) (bp.beDataset n) ∧
      ¬ IsCloneName (bp.beDataset be) (h.beDataset n) := by
  constructor
  · intro hclone
    obtain heq | heq | ⟨path, -, heq⟩ := hclone
    · exact hpools.ne be n heq.symm
    · exact bootBeDataset_ne_nil bp n heq
    · apply hpools.ne (be ++ path ++ "/".toList) n
      rw [heq]
      simp [Handle.beDataset]
  · intro hclone
    obtain heq | heq | ⟨path, -, heq⟩ := hclone
    · exact hpools.ne n be heq
    · simp [Handle.beDataset] at heq
    · apply hpools.ne n (be ++ path ++ "/".toList)
      rw [heq]
      simp [Bootpool.beDataset]

/-- What a create clones is named after the new environment on one of the pools. -/
theorem isCloneName_of_create {options : CreateOptions} {r : LibzeError} {target : CStr}
    (hbp : h.bootpool = some bp) (hr : libzeCreate host h options s = (r, t))
    (hclone : ClonedTo (since s t) target) : IsCloneName (h.beDataset options.beName) target ∨
      IsCloneName (bp.beDataset options.beName) target := by
  have hcalls := (@libzeCreate_issues host h options).since s
  rw [hr] at hcalls
  obtain ⟨snap, props, hmem⟩ := hclone
  cases hcalls _ hmem with
  | lookup hc => exact absurd hc id
  | root hc =>
    cases hc with
    | lookup hc => exact absurd hc id
    | clone _ htarget => exact .inl htarget
  | boot hsome hc =>
    cases hbp.symm.trans hsome
    cases hc with
    | lookup hc => exact absurd hc id
    | clone _ htarget => exact .inr htarget
  | mount hc => cases hc

/-- Of the names of environments a create clones only the new one. -/
theorem not_clonedTo {options : CreateOptions} {r : LibzeError} (hbp : h.bootpool = some bp)
    (hpools : TwoPools h bp) (hn : validName n = true) (hne : n ≠ options.beName)
    (hr : libzeCreate host h options s = (r, t)) :
    ¬ ClonedTo (since s t) (h.beDataset n) ∧ ¬ ClonedTo (since s t) (bp.beDataset n) := by
  constructor
  · intro hclone
    obtain hroot | hboot := isCloneName_of_create hbp hr hclone
    · exact hne (eq_of_isCloneName_root hn hroot)
    · exact (hpools.not_isCloneName options.beName n).2 hboot
  · intro hclone
    obtain hroot | hboot := isCloneName_of_create hbp hr hclone
    · exact (hpools.not_isCloneName options.beName n).1 hroot
    · exact hne (eq_of_isCloneName_boot hn hboot)

theorem paired_of_create {options : CreateOptions} {r : LibzeError} {nested : Bool}
    (hbp : h.bootpool = some bp) (hpools : TwoPools h bp) (hn : IsBeName nested n)
    (hrule : KeepsPools host) (hsnap : SnapshotRule host) (hwf : WellFormed s)
    (hfits : NamesFit host h options s) (hquiet : Unrefused s t)
    (hr : libzeCreate host h options s = (r, t)) (hs : Paired h bp n s) : Paired h bp n t := by
  obtain ⟨hroot, hboot⟩ := hpools.flat hn.flat
  obtain hsame | ⟨hrootMade, hbootMade⟩ := libzeCreate_both hbp hrule hsnap hwf hfits hquiet hr
  · unfold Paired
    rw [hsame _ hroot, hsame _ hboot]
    exact hs
  by_cases hne : n = options.beName
  · subst hne
    exact iff_of_true hrootMade hbootMade
  · obtain ⟨hnotRoot, hnotBoot⟩ := not_clonedTo hbp hpools hn.valid hne hr
    unfold Paired
    rw [libzeCreate_names hr hroot, libzeCreate_names hr hboot, or_iff_left hnotRoot,
      or_iff_left hnotBoot]
    exact hs

/-! ### Destroying -/

theorem below_root_iff : AtOrBelow (h.beDataset be) (h.beDataset n) ↔ AtOrBelow be n := by
  rw [beDataset_eq, beDataset_eq]
  exact under_append_left

theorem below_boot_iff : AtOrBelow (bp.beDataset be) (bp.beDataset n) ↔ AtOrBelow be n :=
  under_append_left

/-- A destroy takes no name of an environment beside its own. -/
theorem not_destroyed_beside {options : DestroyOptions} {r : LibzeError} (hbp : h.bootpool = some bp)
    (hpools : TwoPools h bp) (hn : '@' ∉ n) (hnot : ¬ AtOrBelow options.beName n)
    (hr : libzeDestroy host h options s = (r, t)) :
    (.zfs (.destroy (h.beDataset n)), 0) ∉ since s t ∧
      (.zfs (.destroy (bp.beDataset n)), 0) ∉ since s t := by
  have hcalls := (libzeDestroy_issues host h options).since s
  rw [hr] at hcalls
  obtain ⟨hroot, hboot⟩ := hpools.flat hn
  have hinside : ∀ m, (.zfs (.destroy m), 0) ∈ since s t → InsideBe h options.beName m := by
    intro m hmem
    cases hcalls _ hmem with
    | lookup hc => exact absurd hc id
    | pool _ hc => exact hc
  constructor
  · intro hmem
    obtain hbelow | ⟨bp', hsome, hbelow⟩ | hsnap := hinside _ hmem
    · exact hnot (below_root_iff.mp hbelow)
    · cases hbp.symm.trans hsome
      exact (hpools.not_below _ _).2 hbelow
    · rw [hroot] at hsnap
      cases hsnap
  · intro hmem
    obtain hbelow | ⟨bp', hsome, hbelow⟩ | hsnap := hinside _ hmem
    · exact (hpools.not_below _ _).1 hbelow
    · cases hbp.symm.trans hsome
      exact hnot (below_boot_iff.mp hbelow)
    · rw [hboot] at hsnap
      cases hsnap

theorem paired_of_destroy {options : DestroyOptions} {r : LibzeError} (hbp : h.bootpool = some bp)
    (hpools : TwoPools h bp) (hn : '@' ∉ n) (hrule : KeepsPools host) (hwf : WellFormed s)
    (hroot : MeetsNoMount options s (h.beDataset options.beName))
    (hboot : MeetsNoMount options s (bp.beDataset options.beName)) (hquiet : Unrefused s t)
    (hr : libzeDestroy host h options s = (r, t)) (hs : Paired h bp n s) : Paired h bp n t := by
  unfold Paired
  by_cases hbelow : AtOrBelow options.beName n
  · have hname : isSnapshotName options.beName = false :=
      isSnapshotName_of_atOrBelow hbelow (by simpa [isSnapshotName] using hn)
    obtain hsame | ⟨hrootGone, hbootGone⟩ :=
      libzeDestroy_both hbp hrule hwf hroot hboot hquiet hname hr
    · rw [hsame]
      exact hs
    · exact iff_of_false (hrootGone _ (below_root_iff.mpr hbelow))
        (hbootGone _ (below_boot_iff.mpr hbelow))
  · obtain ⟨hkept, hkept'⟩ := not_destroyed_beside hbp hpools hn hbelow hr
    rw [libzeDestroy_names hr, libzeDestroy_names hr, and_iff_left hkept, and_iff_left hkept']
    exact hs

/-! ### Renaming -/

/-- What is below one environment has a name of the same kind below another. -/
theorem IsBeName.below {nested : Bool} {rest : CStr} (hn : IsBeName nested (newBe ++ '/' :: rest))
    (hvalid : validName be = true) (hflat : '@' ∉ be) : IsBeName nested (be ++ '/' :: rest) where
  valid := validFrom_join hvalid hflat (validFrom_append (.inl rfl) hn.valid).2.2
  flat := by
    have hrest := hn.flat
    simp only [List.mem_append, List.mem_cons, not_or] at hrest ⊢
    exact ⟨hflat, hrest.2⟩
  single hnested := absurd (List.mem_append_right newBe List.mem_cons_self) (hn.single hnested)

/-- Where an environment is paired, what is behind its name is paired with it. -/
theorem paired_behind {nested : Bool} {rest : CStr} (hbelow : AtOrBelow be (be ++ rest))
    (hn : IsBeName nested (newBe ++ rest)) (hvalid : validName be = true) (hflat : '@' ∉ be)
    (hbe : Paired h bp be s) (hs : ∀ m, IsBeName nested m → Paired h bp m s) :
    Paired h bp (be ++ rest) s := by
  cases rest with
  | nil =>
    rw [List.append_nil]
    exact hbe
  | cons c rest =>
    have hsep : IsDatasetSep c := by
      obtain heq | ⟨d, r', hd, heq⟩ := hbelow
      · simp at heq
      · rw [List.append_cancel_left_eq] at heq
        exact (List.cons.inj heq).1 ▸ hd
    obtain rfl | rfl := hsep
    · exact hs _ (hn.below hvalid hflat)
    · exact absurd (List.mem_append_right _ List.mem_cons_self) hn.flat

theorem paired_of_rename {nested : Bool} {r : LibzeError} (hbp : h.bootpool = some bp)
    (hpools : TwoPools h bp) (hn : IsBeName nested n) (hwf : WellFormed s) (hquiet : Unrefused s t)
    (hr : libzeRename host h be newBe s = (r, t)) (hs : ∀ m, IsBeName nested m → Paired h bp m s) :
    Paired h bp n t := by
  obtain ⟨hrootSlash, hbootSlash, hapart⟩ := hpools.prefixes
  cases renames hbp hquiet hr with
  | nothing hnames =>
    unfold Paired
    rw [hnames]
    exact hs n hn
  | both hexist hnames =>
    obtain ⟨hmem, hfs⟩ := exists_filesystem hexist.root
    have hvalid : validName be = true :=
      (validFrom_append (.inl rfl) (hwf.forest.valid _ hmem)).2.2
    have hflat : '@' ∉ be := by
      simp only [isSnapshotName, Handle.beDataset, List.mem_append, List.mem_cons,
        decide_eq_false_iff_not, not_or] at hfs
      exact hfs.2.2
    have hbe : Paired h bp be s := iff_of_true hmem (exists_filesystem (hexist.boot bp hbp)).1
    -- what is behind the new name now was behind the old one before, on both pools
    have hsource : ∀ rest, n = newBe ++ rest → AtOrBelow be (be ++ rest) →
        Paired h bp (be ++ rest) s := by
      intro rest heq hbelow
      exact paired_behind hbelow (heq ▸ hn) hvalid hflat hbe hs
    have hpair := hs n hn
    unfold Paired at hpair hsource ⊢
    simp only [beDataset_eq, Bootpool.beDataset] at hpair hsource hnames ⊢
    rw [hnames, mem_renamed_apart_iff hrootSlash hbootSlash hapart, mem_renamed_iff, mem_renamed_iff,
      mem_renamed_apart_iff hbootSlash hrootSlash hapart.symm]
    simp only [mem_renamed_apart_iff hbootSlash hrootSlash hapart.symm]
    refine or_congr (and_congr_left fun _ => hpair) (exists_congr fun rest => ?_)
    exact and_congr_right fun heq => and_congr_right fun hbelow => hsource rest heq hbelow

/-! ### One operation, and runs of them -/

theorem Op.issues (op : Op) (host : Host) (h : Handle) :
    Issues host (fun _ => True) (op.run host h) := by
  cases op with
  | create options => exact (@libzeCreate_issues host h options).weaken fun _ _ => trivial
  | destroy options => exact (libzeDestroy_issues host h options).weaken fun _ _ => trivial
  | rename be newBe => exact (@libzeRename_issues host h be newBe).weaken fun _ _ => trivial

/-- An operation in which libzfs refuses nothing keeps all names paired. -/
theorem paired_of_grantedStep {nested : Bool} (hbp : h.bootpool = some bp) (hpools : TwoPools h bp)
    (hstep : GrantedStep h bp s t)
    (hs : WellFormed s ∧ ∀ n, IsBeName nested n → Paired h bp n s) :
    WellFormed t ∧ ∀ n, IsBeName nested n → Paired h bp n t := by
  obtain ⟨host, op, r, hrule, hsnap, hclear, hr, hquiet⟩ := hstep
  obtain ⟨hwf, hpaired⟩ := hs
  refine ⟨wellFormed_of_issues (op.issues host h) hrule hwf hr, fun n hn => ?_⟩
  cases op with
  | create options =>
    exact paired_of_create hbp hpools hn hrule hsnap hwf hclear hquiet hr (hpaired n hn)
  | destroy options =>
    exact paired_of_destroy hbp hpools hn.flat hrule hwf hclear.1 hclear.2 hquiet hr (hpaired n hn)
  | rename be newBe => exact paired_of_rename hbp hpools hn hwf hquiet hr hpaired

/-- Every name stays paired in every run of operations in which libzfs refuses nothing. -/
theorem paired_of_run (h : Handle) (bp : Bootpool) (nested : Bool) (s t : Sys)
    (hbp : h.bootpool = some bp) (hpools : TwoPools h bp) (hwf : WellFormed s)
    (hrun : ReflTransGen (GrantedStep h bp) s t)
    (hs : ∀ n, IsBeName nested n → Paired h bp n s) : ∀ n, IsBeName nested n → Paired h bp n t :=
  (invariant_of_steps (fun u => WellFormed u ∧ ∀ n, IsBeName nested n → Paired h bp n u)
    (fun _ _ hstep hu => paired_of_grantedStep hbp hpools hstep hu) hrun ⟨hwf, hs⟩).2

/-- As `obliging`, with what would spoil the pools refused too. -/
def keeping : Host where
  __ := obliging
  answer s c :=
    if WellFormed s ∧ ¬ WellFormed (c.effect obliging s) then 1 else
    match c with
    | .zfs (.snapshot name _) =>
      if (splitLast '@' name).any fun p => s.datasetExists p.1 .filesystem then 0 else 1
    | c => obliging.answer s c

theorem keeping_keepsPools : KeepsPools keeping := by
  intro s c hs hanswer
  have heffect : c.effect keeping s = c.effect obliging s := by cases c <;> rfl
  rw [heffect]
  by_contra hnot
  have hrefused : keeping.answer s (.zfs c) = 1 := if_pos ⟨hs, hnot⟩
  rw [hrefused] at hanswer
  cases hanswer

theorem keeping_snapshotRule : SnapshotRule keeping := by
  intro s ds suffix recursive hsuffix hanswer
  have hcut : splitLast '@' (ds ++ '@' :: suffix) = some (ds, suffix) :=
    splitLast_eq_some.mpr ⟨rfl, hsuffix⟩
  by_contra hnot
  unfold keeping at hanswer
  simp [hcut, hnot] at hanswer

def pairedHandle : Handle := sampleHandle (some sampleBootpool) true

/-- `c` has been created. -/
@[irreducible] def createdSys : Sys :=
  (libzeCreate keeping pairedHandle ⟨false, false, "c", []⟩ (sampleSys [])).2

/-- Then `b` has been destroyed. -/
@[irreducible] def destroyedSys : Sys := (libzeDestroy keeping pairedHandle ⟨"b", true, true⟩ createdSys).2

theorem unrefused_of_all (hall : (since s t).all (fun e => e.2 = 0) = true) : Unrefused s t := by
  intro c code hmem
  simpa using List.all_eq_true.mp hall _ hmem

theorem created_step : GrantedStep pairedHandle sampleBootpool (sampleSys []) createdSys := by
  have hfits : NamesFit keeping pairedHandle ⟨false, false, "c", []⟩ (sampleSys []) :=
    fun hrec => absurd hrec (by decide)
  refine ⟨keeping, .create ⟨false, false, "c", []⟩, .success, keeping_keepsPools,
    keeping_snapshotRule, hfits, ?_, unrefused_of_all (by decide +kernel)⟩
  unfold createdSys
  exact run_eq_of_fst (by decide +kernel)

theorem destroyed_step : GrantedStep pairedHandle sampleBootpool createdSys destroyedSys := by
  refine ⟨keeping, .destroy ⟨"b", true, true⟩, .success, keeping_keepsPools,
    keeping_snapshotRule, ⟨.inl rfl, .inl rfl⟩, ?_, unrefused_of_all (by decide +kernel)⟩
  unfold destroyedSys
  exact run_eq_of_fst (by decide +kernel)

/-- All names of the small system are paired. -/
theorem sample_paired (n : CStr) : Paired pairedHandle sampleBootpool n (sampleSys []) := by
  unfold Paired
  rw [beDataset_eq, Bootpool.beDataset, append_mem_iff, append_mem_iff]
  have hsame : ((sampleSys []).names.filter fun x => (pairedHandle.envRoot ++ ['/']).isPrefixOf x).map
        (List.drop (pairedHandle.envRoot ++ ['/']).length) =
      ((sampleSys []).names.filter fun x => sampleBootpool.rootPathFull.isPrefixOf x).map
        (List.drop sampleBootpool.rootPathFull.length) := by decide +kernel
  rw [hsame]

theorem paired_of_run_sample : Paired pairedHandle sampleBootpool "b" destroyedSys ∧
    Paired pairedHandle sampleBootpool "c" destroyedSys := by
  have hall := paired_of_run pairedHandle sampleBootpool true (sampleSys []) destroyedSys rfl
    ⟨by decide, by decide, by decide⟩ (by decide +kernel)
    (.tail (.single created_step) destroyed_step) fun n _ => sample_paired n
  exact ⟨hall "b" ⟨by decide, by decide, by decide⟩, hall "c" ⟨by decide, by decide, by decide⟩⟩

/-- After a rename that the boot pool refuses, `b` is on the boot pool only. -/
theorem not_paired_after_refusal :
    ¬ ∀ (h : Handle) (bp : Bootpool) (n : CStr) (s t : Sys), h.bootpool = some bp →
      TwoPools h bp → WellFormed s → IsBeName true n → (∀ m, IsBeName true m → Paired h bp m s) →
      ReflTransGen (OpStep h) s t → Paired h bp n t := by
  intro hall
  let host := refusing (.zfs (.rename "bpool/boot/b" "bpool/boot/c"))
  have hstep : OpStep pairedHandle (sampleSys []) (libzeRename host pairedHandle "b" "c" (sampleSys [])).2 :=
    ⟨host, .rename "b" "c", .success, run_eq_of_fst (by decide +kernel)⟩
  have hpair := hall pairedHandle sampleBootpool "b" (sampleSys []) _ rfl
    ⟨by decide, by decide, by decide⟩ (by decide +kernel) ⟨by decide, by decide, by decide⟩
    (fun m _ => sample_paired m) (.single hstep)
  exact absurd hpair (by decide +kernel)

end Pairs

end Zectl.Libze.Pairing
