import Zectl.Libze.Activate
import Zectl.Libze.Create

/-!
# What is left of a temporary mount

`mid_activate` and `post_create` change the mount point of an environment, mount it, run a
hook and take both back. The clean-up runs only behind a hook that succeeded, and it does
nothing for a dataset that is not mounted, so the mount point stays changed when the mount
fails and dataset and mount point both stay when the hook fails.
-/

namespace Zectl.Libze.MountOutcome

open Zectl.Lib.StateRun Zectl.Util.CString Zectl.Zfs.System Zectl.Zfs.Steps Zectl.Libze.Init
open Zectl.Libze.Validate Zectl.Libze.Mount Zectl.Libze.Activate Zectl.Libze.Create
open Zectl.Libze.Sample

/-- The dataset is not mounted and its mount point is `/`. -/
structure Settled (host : Host) (ds : CStr) (s : Sys) : Prop where
  unmounted : s.isMounted ds = false
  mountpoint : (s.propValue host ds .mountpoint).map Prod.fst = some ['/']

/-- The calls that take the temporary mount back. -/
def IsRestore (ds : CStr) (c : Call) : Prop :=
  c = .zfs (.unmount ds) ∨ c = .zfs (.propSetList ds [(.canmount, "noauto"), (.mountpoint, "/")])

/-- Those of them that were made between two states succeeded. -/
def Restores (ds : CStr) (s t : Sys) : Prop := ∀ e ∈ since s t, IsRestore ds e.1 → e.2 = 0

/-- What libzfs and `mkdtemp` document of mount points: they are stored as given, inheriting
follows the pools, and only the last characters of a template are replaced. -/
structure MountpointRules (host : Host) : Prop where
  stored : ∀ value, host.propStore .mountpoint value = value
  inherited : ∀ s t, SamePools s t → host.inherited s = host.inherited t
  mkdtemp : ∀ s template, (host.tmpName s template).length = template.length

/-- The calls from the mount point to the hook. -/
def hookCalls (ds dir : CStr) (hook : CStr → Hook) : List Call :=
  [.zfs (.propSet ds .mountpoint dir), .zfs (.mount ds), .hook (hook dir)]

/-- Once the mount point has been set, the mount and the hook succeed. -/
def Completes (host : Host) (beName ds : CStr) (hook : CStr → Hook) (s : Sys) : Prop :=
  ∀ template dir tmpl t,
    libzeUtilConcat "/tmp/ze." beName ".XXXXXX" zfsMaxDatasetNameLen = (0, template) →
    mkdtemp host template s = ((dir, tmpl), t) →
    host.answer t (.zfs (.propSet ds .mountpoint dir)) = 0 → Grants host (hookCalls ds dir hook) t

section Calls
variable {host : Host} {ds dir : CStr} {d : Dataset} {s t u : Sys}

theorem Settled.samePools (hrules : MountpointRules host) (hs : Settled host ds s)
    (h : SamePools s t) : Settled host ds t := by
  constructor
  · have hunmounted := hs.unmounted
    rwa [Sys.isMounted, h.find]
  · have hmountpoint := hs.mountpoint
    rw [Sys.propValue] at hmountpoint ⊢
    rwa [h.find, ← hrules.inherited s t h]

theorem Restores.later (h : Restores ds s t) (hsu : s.trace <:+ u.trace) : Restores ds u t := by
  intro e he
  have hle : t.trace.length - u.trace.length ≤ t.trace.length - s.trace.length := by
    have hlen := hsu.length_le
    omega
  exact h e ((List.take_prefix_take_left hle).subset he)

theorem Restores.code (h : Restores ds s t) {c : Call} {code : Nat} {s1 s2 : Sys}
    (hs : s.trace <:+ s1.trace) (hr : call host c s1 = (code, s2)) (ht : s2.trace <:+ t.trace)
    (hc : IsRestore ds c) : code = 0 :=
  h _ (mem_since hs hr ht) hc

/-- A mount point that was set is the value of the property. -/
theorem propValue_of_find {value : CStr}
    (hfind : s.find ds = some (d.setProp .mountpoint value)) :
    s.propValue host ds .mountpoint = some (value, .localSet) := by
  rw [Sys.propValue, hfind]
  simp only [Dataset.entry, Dataset.setProp, List.find?_cons, decide_true]

theorem tempUnmountBe_unmounted (h : s.isMounted ds = false) :
    tempUnmountBe host dir ds s = (.success, s) := by
  rw [tempUnmountBe, run_get_bind, if_pos (by simp [h])]
  rfl

theorem exists_find_of_isMounted (h : s.isMounted ds = true) : ∃ d, s.find ds = some d := by
  cases hfind : s.find ds with
  | none => simp [Sys.isMounted, hfind] at h
  | some d => exact ⟨d, rfl⟩

/-- The dataset after its unmount and the restoring of its properties. -/
theorem settled_of_restore (hrules : MountpointRules host) (hfind : s.find ds = some d)
    (hunmounted : d.mountedAt = none)
    (hr : call host (.zfs (.propSetList ds [(.canmount, "noauto"), (.mountpoint, "/")])) s = (0, t)) :
    Settled host ds t := by
  have hfound : t.find ds = some ((d.setProp .canmount (host.propStore .canmount "noauto")).setProp
      .mountpoint (host.propStore .mountpoint "/")) := by
    rw [find_call_done hr]
    exact find_mapDataset_self (fun _ => rfl) hfind
  constructor
  · rw [Sys.isMounted, hfound]
    simp [Dataset.setProp, hunmounted]
  · rw [propValue_of_find hfound, hrules.stored]
    rfl

/-- A mounted dataset is put back when the calls for it succeed. -/
theorem settled_of_tempUnmountBe (hrules : MountpointRules host) (h : s.isMounted ds = true)
    {ret : LibzeError} (hr : tempUnmountBe host dir ds s = (ret, t)) (hrest : Restores ds s t) :
    Settled host ds t := by
  obtain ⟨d, hfind⟩ := exists_find_of_isMounted h
  rw [tempUnmountBe, run_get_bind, if_neg (by simp [h])] at hr
  obtain ⟨code1, s1, hunmount, hr⟩ := bind_run hr
  by_cases hcode1 : code1 = 0
  · subst hcode1
    rw [if_neg (by simp)] at hr
    obtain ⟨code2, s2, hrmdir, hr⟩ := bind_run hr
    obtain ⟨code3, s3, hset, hr⟩ := bind_run hr
    have hsuffix2 : s.trace <:+ s2.trace := (call_suffix hunmount).trans (call_suffix hrmdir)
    have hfind1 : s1.find ds = some { d with mountedAt := none } := by
      rw [find_call_done hunmount]
      exact find_mapDataset_self (fun _ => rfl) hfind
    have hfind2 : s2.find ds = some { d with mountedAt := none } := by
      by_cases hcode2 : code2 = 0
      · subst hcode2
        rw [find_call_done hrmdir]
        exact hfind1
      · rwa [(samePools_of_refused hrmdir hcode2).find]
    by_cases hcode3 : code3 = 0
    · subst hcode3
      cases hr
      exact settled_of_restore hrules hfind2 rfl hset
    · rw [if_pos hcode3] at hr
      cases hr
      exact absurd (hrest.code hsuffix2 hset List.suffix_rfl (.inr rfl)) hcode3
  · rw [if_pos hcode1] at hr
    cases hr
    exact absurd (hrest.code List.suffix_rfl hunmount List.suffix_rfl (.inl rfl)) hcode1

/-! ## The run around the hook -/

/-- The dataset has the directory as its mount point. -/
def Placed (ds dir : CStr) (s : Sys) : Prop :=
  ∃ d : Dataset, s.find ds = some (d.setProp .mountpoint dir)

theorem Placed.samePools (hs : Placed ds dir s) (h : SamePools s t) : Placed ds dir t := by
  obtain ⟨d, hfind⟩ := hs
  exact ⟨d, by rwa [h.find]⟩

theorem Placed.not_settled (hs : Placed ds dir s) (hdir : dir ≠ ['/']) : ¬ Settled host ds s := by
  obtain ⟨d, hfind⟩ := hs
  intro hsettled
  have hvalue := hsettled.mountpoint
  rw [propValue_of_find hfind] at hvalue
  exact hdir (Option.some.inj hvalue)

theorem find_of_settled (hs : Settled host ds s) : ∃ d, s.find ds = some d := by
  have hvalue := hs.mountpoint
  cases hfind : s.find ds with
  | none => simp [Sys.propValue, hfind] at hvalue
  | some d => exact ⟨d, rfl⟩

theorem placed_of_propSet (hrules : MountpointRules host) (hs : Settled host ds s)
    (hr : call host (.zfs (.propSet ds .mountpoint dir)) s = (0, t)) :
    Placed ds dir t ∧ t.isMounted ds = false := by
  obtain ⟨d, hfind⟩ := find_of_settled hs
  have hfound := (find_call_done hr ds).trans (find_mapDataset_self (fun _ => rfl) hfind)
  rw [hrules.stored] at hfound
  refine ⟨⟨d, hfound⟩, ?_⟩
  have hunmounted := hs.unmounted
  rw [Sys.isMounted, hfind] at hunmounted
  rw [Sys.isMounted, hfound]
  exact hunmounted

theorem mounted_of_mount (hs : Placed ds dir s)
    (hr : call host (.zfs (.mount ds)) s = (0, t)) : t.isMounted ds = true := by
  obtain ⟨d, hfind⟩ := hs
  have hfound := (find_call_done hr ds).trans (find_mapDataset_self (fun _ => rfl) hfind)
  rw [propValue_of_find hfind] at hfound
  rw [Sys.isMounted, hfound]
  rfl

end Calls

section Run
variable {host : Host} {h : Handle} {beName ds dir template tmpl message : CStr}
variable {hook : CStr → Hook} {s t : Sys}

theorem samePools_mkdtemp (hr : mkdtemp host template s = ((dir, tmpl), t)) : SamePools s t := by
  unfold mkdtemp at hr
  rw [run_get_bind] at hr
  obtain ⟨code, u, hcall, hr⟩ := bind_run hr
  have hsame : SamePools s u := by
    by_cases hcode : code = 0
    · subst hcode
      rw [(call_done hcall).2]
      exact ⟨rfl, rfl, rfl⟩
    · exact samePools_of_refused hcall hcode
  split at hr
  · cases hr
    exact hsame
  · cases hr
    exact hsame

/-- No temporary directory is the root. -/
theorem mkdtemp_ne_root (hrules : MountpointRules host)
    (hcat : libzeUtilConcat "/tmp/ze." beName ".XXXXXX" zfsMaxDatasetNameLen = (0, template))
    (hr : mkdtemp host template s = ((dir, tmpl), t)) : dir ≠ ['/'] := by
  have hlong : 1 < template.length := by
    rw [((libzeUtilConcat_eq_ok_iff nameLen_pos).mp hcat).2]
    simp
  unfold mkdtemp at hr
  rw [run_get_bind] at hr
  obtain ⟨code, u, -, hr⟩ := bind_run hr
  split at hr
  · cases hr
    simp
  · cases hr
    intro hroot
    have hlen := hrules.mkdtemp s template
    rw [hroot] at hlen
    simp at hlen
    omega

/-- The clean-up of `temp_mount_be` keeps the error and does nothing to an unmounted dataset. -/
theorem cleanUp_run (hs : s.isMounted ds = false) :
    ∃ u, (do
      let ret ← libzeErrorSet .unknown message
      let _ ← tempUnmountBe host dir ds
      return (ret, dir) : Libze (LibzeError × CStr)) s = ((.unknown, dir), u) ∧ SamePools s u := by
  have hlater : ∀ err text, ({ s with libzeError := err, libzeErrorMessage := text } : Sys).isMounted
      ds = false := fun _ _ => hs
  rw [run_bind, libzeErrorSet, run_bind, tempUnmountBe_unmounted (hlater _ _)]
  exact ⟨_, rfl, rfl, rfl, rfl⟩

/-- The three ends of a temporary mount: the mount point is not set, it is set but the dataset
is not mounted, or it is mounted. -/
theorem tempMountBe_run (hrules : MountpointRules host) (hs : Settled host ds s)
    (hcat : libzeUtilConcat "/tmp/ze." beName ".XXXXXX" zfsMaxDatasetNameLen = (0, template))
    (hr : mkdtemp host template s = ((dir, tmpl), t)) :
    (host.answer t (.zfs (.propSet ds .mountpoint dir)) ≠ 0 ∧
      ∃ u, tempMountBe host beName ds s = ((.unknown, dir), u) ∧ Settled host ds u) ∨
    (host.answer t (.zfs (.propSet ds .mountpoint dir)) = 0 ∧
      host.answer (issue host [.zfs (.propSet ds .mountpoint dir)] t) (.zfs (.mount ds)) ≠ 0 ∧
      ∃ u, tempMountBe host beName ds s = ((.unknown, dir), u) ∧ Placed ds dir u) ∨
    (Grants host [.zfs (.propSet ds .mountpoint dir), .zfs (.mount ds)] t ∧
      ∃ u, tempMountBe host beName ds s = ((.success, dir), u) ∧ u.isMounted ds = true ∧
        u = issue host [.zfs (.propSet ds .mountpoint dir), .zfs (.mount ds)] t) := by
  have hst := hs.samePools hrules (samePools_mkdtemp hr)
  rw [tempMountBe, hcat]
  dsimp only
  rw [if_neg (by simp), run_bind, hr, run_bind]
  rcases hset : call host (.zfs (.propSet ds .mountpoint dir)) t with ⟨code1, t1⟩
  have hcode1 : host.answer t (.zfs (.propSet ds .mountpoint dir)) = code1 := congrArg Prod.fst hset
  by_cases hset0 : code1 = 0
  · right
    obtain ⟨hplaced, hunmounted⟩ := placed_of_propSet hrules hst (hset0 ▸ hset)
    have hissue : issue host [.zfs (.propSet ds .mountpoint dir)] t = t1 := congrArg Prod.snd hset
    rw [hissue, if_neg (by simpa using hset0), run_bind]
    rcases hmount : call host (.zfs (.mount ds)) t1 with ⟨code2, t2⟩
    have hcode2 : host.answer t1 (.zfs (.mount ds)) = code2 := congrArg Prod.fst hmount
    by_cases hmount0 : code2 = 0
    · right
      have hissue2 : issue host [.zfs (.propSet ds .mountpoint dir), .zfs (.mount ds)] t = t2 := by
        show (call host _ (call host _ t).2).2 = t2
        rw [hset, hmount]
      constructor
      · show _ ∧ host.answer (call host _ t).2 _ = 0 ∧ True
        rw [hset]
        exact ⟨hcode1.trans hset0, hcode2.trans hmount0, trivial⟩
      · rw [if_neg (by simpa using hmount0)]
        exact ⟨t2, rfl, mounted_of_mount hplaced (hmount0 ▸ hmount), hissue2.symm⟩
    · left
      have hsame := samePools_of_refused hmount hmount0
      have hunmounted2 : t2.isMounted ds = false := by
        rwa [Sys.isMounted, hsame.find]
      obtain ⟨u, hrun, hsame2⟩ := cleanUp_run hunmounted2
      rw [if_pos (by simpa using hmount0), hrun]
      exact ⟨hcode1.trans hset0, hcode2 ▸ hmount0, u, rfl, hplaced.samePools (hsame.trans hsame2)⟩
  · left
    have hst1 := hst.samePools hrules (samePools_of_refused hset hset0)
    obtain ⟨u, hrun, hsame⟩ := cleanUp_run hst1.unmounted
    rw [if_pos (by simpa using hset0), hrun]
    exact ⟨hcode1 ▸ hset0, u, rfl, hst1.samePools hrules hsame⟩

/-- Of the calls around the hook the first decides whether the others are made. -/
theorem completes_iff
    (hcat : libzeUtilConcat "/tmp/ze." beName ".XXXXXX" zfsMaxDatasetNameLen = (0, template))
    (hdir : mkdtemp host template s = ((dir, tmpl), t)) : Completes host beName ds hook s ↔
      (host.answer t (.zfs (.propSet ds .mountpoint dir)) = 0 →
        Grants host (hookCalls ds dir hook) t) := by
  constructor
  · exact fun hall => hall template dir tmpl t hcat hdir
  · intro hgrants template' dir' tmpl' t' hcat' hdir'
    obtain rfl : template = template' := congrArg Prod.snd (hcat.symm.trans hcat')
    rw [hdir] at hdir'
    cases hdir'
    exact hgrants

/-- The dataset is settled again exactly when mount and hook succeed once its mount point is set. -/
theorem hookInMount_settled_iff (hrules : MountpointRules host) (hs : Settled host ds s)
    (hroot : libzeIsRootBe h ds = false) {ret : LibzeError} {v : Sys}
    (hr : hookInMount host h beName ds hook message s = (ret, v)) (hrest : Restores ds s v) :
    Settled host ds v ↔ Completes host beName ds hook s := by
  have hmount : mountForHook host h beName ds s = tempMountBe host beName ds s := by
    rw [mountForHook, if_neg (by simp [hroot])]
  rw [hookInMount, run_bind, hmount] at hr
  rcases hcat : libzeUtilConcat "/tmp/ze." beName ".XXXXXX" zfsMaxDatasetNameLen with ⟨code, template⟩
  by_cases hcode : code = 0
  · subst hcode
    rcases hdir : mkdtemp host template s with ⟨⟨dir, tmpl⟩, t⟩
    rw [completes_iff hcat hdir]
    have hnotroot := mkdtemp_ne_root hrules hcat hdir
    rcases tempMountBe_run hrules hs hcat hdir with ⟨hrefused, u, hrun, hsettled⟩ |
      ⟨hgranted, hrefused, u, hrun, hplaced⟩ | ⟨hgrants, u, hrun, hmounted, hu⟩
    · rw [hrun] at hr
      cases hr
      exact ⟨fun _ hset => absurd hset hrefused, fun _ => hsettled⟩
    · rw [hrun] at hr
      cases hr
      constructor
      · exact fun hback => absurd hback (hplaced.not_settled hnotroot)
      · exact fun hall => absurd (hall hgranted).2.1 hrefused
    · have hsuffix : s.trace <:+ u.trace := by
        have hissues := @tempMountBe_issues host ds hook beName
        exact hissues.suffix hrun
      have hcalls : Grants host (hookCalls ds dir hook) t ↔ host.answer u (.hook (hook dir)) = 0 := by
        have happend := @grants_append host t [.zfs (.propSet ds .mountpoint dir), .zfs (.mount ds)]
          [.hook (hook dir)]
        rw [hu]
        exact happend.trans ⟨fun hall => hall.2.1, fun hhook => ⟨hgrants, hhook, trivial⟩⟩
      rw [hrun] at hr
      dsimp only at hr
      rw [if_neg (by simp), run_bind] at hr
      rcases hhook : call host (.hook (hook dir)) u with ⟨code, w⟩
      have hcodehook : host.answer u (.hook (hook dir)) = code := congrArg Prod.fst hhook
      rw [hcalls, hcodehook]
      rw [hhook] at hr
      have hwmounted : w.isMounted ds = true := by
        by_cases hzero : code = 0
        · subst hzero
          rwa [Sys.isMounted, find_call_done hhook]
        · rwa [Sys.isMounted, (samePools_of_refused hhook hzero).find]
      by_cases hzero : code = 0
      · rw [if_neg (by simpa using hzero), if_neg (by simp [hroot])] at hr
        have hback := settled_of_tempUnmountBe hrules hwmounted hr
          (hrest.later (hsuffix.trans (call_suffix hhook)))
        exact ⟨fun _ _ => hzero, fun _ => hback⟩
      · rw [if_pos (by simpa using hzero)] at hr
        cases hr
        constructor
        · intro hback
          have hunmounted : w.isMounted ds = false := hback.unmounted
          rw [hwmounted] at hunmounted
          cases hunmounted
        · exact fun hall => absurd (hall hgrants.1) hzero
  · rw [tempMountBe, hcat] at hr
    dsimp only at hr
    rw [if_pos hcode] at hr
    cases hr
    constructor
    · intro _ template' dir tmpl t hcat'
      rw [hcat] at hcat'
      exact absurd (congrArg Prod.fst hcat') hcode
    · exact fun _ => hs.samePools hrules ⟨rfl, rfl, rfl⟩

theorem midActivate_settled_iff (hrules : MountpointRules host) (hs : Settled host ds s)
    (hroot : libzeIsRootBe h ds = false)
    (hrest : Restores ds s (midActivate host h beName ds s).2) :
    Settled host ds (midActivate host h beName ds s).2 ↔
      (h.lzFuncs = true → Completes host beName ds (.midActivate beName) s) := by
  by_cases hfuncs : h.lzFuncs = true
  · have hrun : midActivate host h beName ds s =
        hookInMount host h beName ds (.midActivate beName) "Failed to run mid-activate hook\n" s := by
      rw [midActivate, if_pos hfuncs]
    rw [hrun] at hrest ⊢
    rcases hpair : hookInMount host h beName ds (.midActivate beName)
      "Failed to run mid-activate hook\n" s with ⟨ret, v⟩
    rw [hpair] at hrest
    dsimp only at hrest ⊢
    rw [hookInMount_settled_iff hrules hs hroot hpair hrest]
    exact ⟨fun hall _ => hall, fun hall => hall hfuncs⟩
  · have hrun : midActivate host h beName ds s = (.success, s) := by
      rw [midActivate, if_neg hfuncs]
      show (if libzeIsRootBe h ds = true then pure .success else tempUnmountBe host "/" ds) s = _
      rw [if_neg (by simp [hroot]), tempUnmountBe_unmounted hs.unmounted]
    rw [hrun]
    exact ⟨fun _ hall => absurd hall hfuncs, fun _ => hs⟩

/-- The new environment is opened first, and nothing is mounted when that fails. -/
def Opens (host : Host) (h : Handle) (beName : CStr) (s t : Sys) : Prop :=
  ∃ ds bpool, openBootEnvironment host h beName s = ((.success, ds, bpool), t)

theorem postCreate_settled_iff {isSnap : Bool} (hrules : MountpointRules host)
    (hs : Settled host (h.beDataset beName) s)
    (hroot : libzeIsRootBe h (h.beDataset beName) = false)
    (hrest : Restores (h.beDataset beName) s (postCreate host h beName isSnap s).2) :
    Settled host (h.beDataset beName) (postCreate host h beName isSnap s).2 ↔
      (h.lzFuncs = true → ∀ t, Opens host h beName s t → Completes host beName (h.beDataset beName)
        (fun dir => .postCreate beName dir isSnap) t) := by
  by_cases hfuncs : h.lzFuncs = true
  · rw [postCreate, if_neg (by simp [hfuncs])] at hrest ⊢
    rw [run_bind] at hrest ⊢
    rcases hopen : openBootEnvironment host h beName s with ⟨⟨ret, ds, bpool⟩, t⟩
    have hlooked := Issues.looked (openBootEnvironment_issues host h beName) hopen
    have hst := hs.samePools hrules hlooked.same
    rw [hopen] at hrest
    dsimp only at hrest ⊢
    by_cases hret : ret = .success
    · subst hret
      obtain ⟨hds, -⟩ := openBootEnvironment_success hopen
      subst hds
      rw [if_neg (by simp)] at hrest ⊢
      rcases hpair : hookInMount host h beName (h.beDataset beName)
        (fun dir => .postCreate beName dir isSnap) "Failed to run post-create hook\n" t with ⟨ret, v⟩
      rw [hpair] at hrest
      dsimp only at hrest ⊢
      rw [hookInMount_settled_iff hrules hst hroot hpair (hrest.later hlooked.suffix)]
      constructor
      · rintro hall - t' ⟨ds', bpool', hopen'⟩
        rw [hopen] at hopen'
        cases hopen'
        exact hall
      · exact fun hall => hall hfuncs t ⟨_, _, hopen⟩
    · rw [if_pos hret]
      constructor
      · rintro - - t' ⟨ds', bpool', hopen'⟩
        rw [hopen] at hopen'
        cases hopen'
        exact absurd rfl hret
      · exact fun _ => hst.samePools hrules ⟨rfl, rfl, rfl⟩
  · rw [postCreate, if_pos hfuncs]
    exact ⟨fun _ hall => absurd hall hfuncs, fun _ => hs⟩

end Run

/-- What `mid_activate` and `post_create` promise of the environment on every exit holds exactly
when, once the mount point is changed, the mount and the hook succeed. -/
theorem settled_iff_completes {host : Host} {h : Handle} {beName : CStr} {s : Sys}
    (hrules : MountpointRules host) (hs : Settled host (h.beDataset beName) s)
    (hroot : libzeIsRootBe h (h.beDataset beName) = false) :
    (Restores (h.beDataset beName) s (midActivate host h beName (h.beDataset beName) s).2 →
      (Settled host (h.beDataset beName) (midActivate host h beName (h.beDataset beName) s).2 ↔
        (h.lzFuncs = true →
          Completes host beName (h.beDataset beName) (.midActivate beName) s))) ∧
    ∀ isSnap, Restores (h.beDataset beName) s (postCreate host h beName isSnap s).2 →
      (Settled host (h.beDataset beName) (postCreate host h beName isSnap s).2 ↔
        (h.lzFuncs = true → ∀ t, Opens host h beName s t →
          Completes host beName (h.beDataset beName) (fun dir => .postCreate beName dir isSnap) t)) :=
  ⟨midActivate_settled_iff hrules hs hroot, fun _ => postCreate_settled_iff hrules hs hroot⟩

theorem plainHost_mountpointRules (answer : Sys → Call → Nat) :
    MountpointRules (plainHost answer) where
  stored _ := rfl
  inherited _ _ _ := rfl
  mkdtemp _ _ := rfl

/-- A host on which the hook of the activation fails. -/
def hookless : Host := refusing (.hook (.midActivate "b" "/tmp/ze.b.XXXXXX"))

instance (host : Host) (ds : CStr) (s : Sys) : Decidable (Settled host ds s) :=
  decidable_of_iff (s.isMounted ds = false ∧
    (s.propValue host ds .mountpoint).map Prod.fst = some ['/']) ⟨fun h => ⟨h.1, h.2⟩, fun h => ⟨h.1, h.2⟩⟩

instance (ds : CStr) (s t : Sys) : Decidable (Restores ds s t) :=
  inferInstanceAs (Decidable (∀ e ∈ since s t, (_ ∨ _) → _))

theorem settled_iff_completes_sample :
    Settled allowing "rpool/ROOT/b"
        (midActivate allowing (sampleHandle none true) "b" "rpool/ROOT/b" (sampleSys [])).2 ↔
      ((sampleHandle none true).lzFuncs = true →
        Completes allowing "b" "rpool/ROOT/b" (.midActivate "b") (sampleSys [])) :=
  (@settled_iff_completes allowing (sampleHandle none true) "b" (sampleSys [])
    (plainHost_mountpointRules _) (by decide +kernel) (by decide +kernel)).1 (by decide +kernel)

/-- The hook fails and the environment stays mounted under `/tmp`. -/
theorem not_settled_hookless :
    Settled hookless "rpool/ROOT/b" (sampleSys []) ∧
    Restores "rpool/ROOT/b" (sampleSys [])
      (midActivate hookless (sampleHandle none true) "b" "rpool/ROOT/b" (sampleSys [])).2 ∧
    ¬ Settled hookless "rpool/ROOT/b"
      (midActivate hookless (sampleHandle none true) "b" "rpool/ROOT/b" (sampleSys [])).2 := by
  decide +kernel

end Zectl.Libze.MountOutcome
