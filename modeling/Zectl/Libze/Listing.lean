import Zectl.Lib.KeyedList
import Zectl.Libze.Sample

/-!
# Listing the boot environments

`libze_list` collects one entry for each filesystem below the root of the environments,
under the creation time as its key, and drops what the iteration returns.
-/

namespace Zectl.Libze.Listing

open Zectl.Lib.StateRun Zectl.Lib.Visit Zectl.Lib.KeyedList Zectl.Util.CString Zectl.Zfs.System
open Zectl.Zfs.Steps Zectl.Zfs.Forest Zectl.Libze.Init Zectl.Libze.Sample

/-- What `libze_list_cb` collects for an environment. -/
structure BeEntry where
  dataset : CStr
  name : CStr
  mountpoint : CStr
  creation : CStr
  nextboot : Bool
  active : Bool
  deriving DecidableEq

/-- The creation time of a dataset in seconds, as text, and what `strftime` writes for one. -/
structure Clock where
  creation : CStr → CStr
  strftime : CStr → Option CStr

/-- `zfs_prop_get` for a property that libzfs computes. -/
def zfsPropGetNative (host : Host) (zhdl prop value : CStr) : Libze (Nat × CStr) := do
  let r ← call host (.zfs (.propGet zhdl (.other prop)))
  if r ≠ 0 then return (r, [])
  return (0, value)

/-- The mount point of a mounted dataset. -/
def listMountpoint (host : Host) (zhdl : CStr) (isMounted : Bool) : Libze (Nat × CStr) := do
  if isMounted then zfsPropGet host zhdl .mountpoint else return (0, "-")

def beEntry (h : Handle) (dataset name mountpoint creation : CStr) (isMounted : Bool) : BeEntry where
  dataset
  name
  mountpoint
  creation
  nextboot := h.envActivatedPath = dataset
  active := isMounted ∧ h.envRunningPath = dataset

/-- `libze_list_cb` -/
def libzeListCb (host : Host) (clock : Clock) (h : Handle) (zhdl : CStr)
    (outnvl : List (CStr × BeEntry)) : Libze (Int × List (CStr × BeEntry)) := do
  let (r, dataset) ←
    zfsPropGetNative host zhdl "name" (zhdl.take (zfsMaxDatasetNameLen - 1))
  if r ≠ 0 then
    return ((← libzeErrorSet .unknown (format ["Failed get 'name' property for ", zhdl,
      ".\n"])).code, outnvl)
  let (code, beName) := libzeBootEnvName dataset zfsMaxDatasetNameLen
  if code ≠ 0 then
    return ((← libzeErrorSet .unknown (format ["Failed get boot environment for ", zhdl,
      ".\n"])).code, outnvl)
  let isMounted := (← get).isMounted zhdl
  let (r, _) ← zfsPropGetNative host zhdl "mounted" (if isMounted then "yes" else "no")
  if r ≠ 0 then
    return ((← libzeErrorSet .unknown (format ["Failed get 'mounted' for ", zhdl, ".\n"])).code,
      outnvl)
  let (r, mountpoint) ← listMountpoint host zhdl isMounted
  if r ≠ 0 then
    return ((← libzeErrorSet .unknown (format ["Failed get 'mountpoint' for ", zhdl,
      ".\n"])).code, outnvl)
  let (r, propBuffer) ← zfsPropGetNative host zhdl "creation" (clock.creation zhdl)
  if r ≠ 0 then
    return ((← libzeErrorSet .unknown (format ["Failed get 'creation' for ", zhdl, ".\n"])).code,
      outnvl)
  match clock.strftime propBuffer with
  | none =>
    return ((← libzeErrorSet .unknown (format ["Failed get time from creation for ", zhdl,
      ".\n"])).code, outnvl)
  | some creation =>
    return (0, put outnvl (propBuffer, beEntry h dataset beName mountpoint creation isMounted))

/-- `libze_list` -/
def libzeList (host : Host) (clock : Clock) (h : Handle) :
    Libze (LibzeError × List (CStr × BeEntry)) := do
  if (← zfsOpen host h.envRoot .filesystem) ≠ 0 then
    return (← libzeErrorSet .libzfs (format ["Failed to open handle to ", h.envRoot, ".\n"]), [])
  let (_, outnvl) ← gather (libzeListCb host clock h) (childFilesystems (← get) h.envRoot) []
  return (.success, outnvl)

/-! ## Reads that succeed -/

def readCall (zhdl prop : CStr) : Call := .zfs (.propGet zhdl (.other prop))

/-- The reads for a dataset. -/
def readCalls (zhdl : CStr) (isMounted : Bool) : List Call :=
  readCall zhdl "name" :: readCall zhdl "mounted" ::
    ((if isMounted then [Call.zfs (.propGet zhdl .mountpoint)] else []) ++
      [readCall zhdl "creation"])

/-- What the callback needs for a dataset. -/
structure Readable (host : Host) (clock : Clock) (zhdl : CStr) (s : Sys) : Prop where
  name : (libzeBootEnvName (zhdl.take (zfsMaxDatasetNameLen - 1)) zfsMaxDatasetNameLen).1 = 0
  reads : Grants host (readCalls zhdl (s.isMounted zhdl)) s
  time : clock.strftime (clock.creation zhdl) ≠ none

/-- Every dataset is readable when its turn comes. -/
def AllReadable (host : Host) (clock : Clock) : List CStr → Sys → Prop
  | [], _ => True
  | zhdl :: rest, s => Readable host clock zhdl s ∧
    AllReadable host clock rest (issue host (readCalls zhdl (s.isMounted zhdl)) s)

section Callback
variable {host : Host} {clock : Clock} {h : Handle} {zhdl prop value : CStr} {s t : Sys}

theorem zfsPropGetNative_granted (hread : host.answer s (readCall zhdl prop) = 0) :
    zfsPropGetNative host zhdl prop value s = ((0, value), (call host (readCall zhdl prop) s).2) := by
  rw [zfsPropGetNative, run_bind]
  have hcall := run_eq_of_fst (x := call host (readCall zhdl prop)) hread
  rw [readCall] at hcall
  rw [hcall, if_neg (by simp)]
  rfl

theorem zfsPropGetNative_run {r : Nat} {v : CStr}
    (hr : zfsPropGetNative host zhdl prop value s = ((r, v), t)) :
    r = host.answer s (readCall zhdl prop) ∧ t = (call host (readCall zhdl prop) s).2 ∧
      (r = 0 → v = value) := by
  by_cases hread : host.answer s (readCall zhdl prop) = 0
  · rw [zfsPropGetNative_granted hread] at hr
    cases hr
    exact ⟨hread.symm, rfl, fun _ => rfl⟩
  · rw [zfsPropGetNative, run_bind] at hr
    have hcode : (call host (.zfs (.propGet zhdl (.other prop))) s).1 ≠ 0 := hread
    rw [if_pos hcode] at hr
    cases hr
    exact ⟨rfl, rfl, fun hzero => absurd hzero hcode⟩

theorem samePools_readCall : SamePools s (call host (readCall zhdl prop) s).2 :=
  Issues.samePools (issues_call (show IsLookup (readCall zhdl prop) from trivial)) s

/-- The mount point of a dataset that is there can be read when the call succeeds. -/
theorem listMountpoint_run (hmem : zhdl ∈ s.names) (isMounted : Bool) :
    let calls := if isMounted then [Call.zfs (.propGet zhdl .mountpoint)] else []
    (Grants host calls s → ∃ value, listMountpoint host zhdl isMounted s =
      ((0, value), issue host calls s)) ∧
    (¬ Grants host calls s → (listMountpoint host zhdl isMounted s).1.1 ≠ 0) := by
  cases isMounted with
  | false => exact ⟨fun _ => ⟨_, rfl⟩, fun hno => absurd trivial hno⟩
  | true =>
    have hcode : (call host (.zfs (.propGet zhdl .mountpoint)) s).1 =
        host.answer s (.zfs (.propGet zhdl .mountpoint)) := rfl
    constructor
    · intro hgrants
      obtain ⟨hread, -⟩ := hgrants
      have hsame : SamePools s (call host (.zfs (.propGet zhdl .mountpoint)) s).2 :=
        Issues.samePools (issues_call (show IsLookup (.zfs (.propGet zhdl .mountpoint))
          from trivial)) s
      obtain ⟨d, -, hfind⟩ := find_of_mem hmem
      have hvalue : ∃ v src, (call host (.zfs (.propGet zhdl .mountpoint)) s).2.propValue host zhdl
          .mountpoint = some (v, src) := by
        rw [Sys.propValue, hsame.find, hfind]
        dsimp only
        split
        · exact ⟨_, _, rfl⟩
        · exact ⟨_, _, rfl⟩
      obtain ⟨v, src, hv⟩ := hvalue
      refine ⟨v, ?_⟩
      show zfsPropGet host zhdl .mountpoint s = _
      rw [zfsPropGet, run_bind, if_neg (by rw [hcode, hread]; simp), run_get_bind, hv]
      rfl
    · intro hno
      have hread : host.answer s (.zfs (.propGet zhdl .mountpoint)) ≠ 0 := by
        intro hread
        exact hno ⟨hread, trivial⟩
      show (zfsPropGet host zhdl .mountpoint s).1.1 ≠ 0
      rw [zfsPropGet, run_bind, if_pos (by rwa [hcode])]
      rwa [← hcode] at hread

theorem libzeListCb_readable (hmem : zhdl ∈ s.names) (hread : Readable host clock zhdl s)
    (acc : List (CStr × BeEntry)) :
    ∃ e : BeEntry, e.dataset = zhdl.take (zfsMaxDatasetNameLen - 1) ∧
      libzeListCb host clock h zhdl acc s = ((0, put acc (clock.creation zhdl, e)),
        issue host (readCalls zhdl (s.isMounted zhdl)) s) := by
  obtain ⟨hname, ⟨hread1, hread2, hrest⟩, htime⟩ := hread
  obtain ⟨hmounted, hread3, -⟩ := grants_append.mp hrest
  obtain ⟨creation, hcreation⟩ := Option.ne_none_iff_exists'.mp htime
  have hsame1 : SamePools s (call host (readCall zhdl "name") s).2 := samePools_readCall
  have hsame2 : SamePools s (call host (readCall zhdl "mounted")
      (call host (readCall zhdl "name") s).2).2 := hsame1.trans samePools_readCall
  have hisMounted : (call host (readCall zhdl "name") s).2.isMounted zhdl = s.isMounted zhdl := by
    rw [Sys.isMounted, hsame1.find, Sys.isMounted]
  obtain ⟨value, hmountpoint⟩ :=
    (listMountpoint_run (hsame2.names ▸ hmem) (s.isMounted zhdl)).1 hmounted
  unfold libzeListCb
  rw [run_bind, zfsPropGetNative_granted hread1]
  dsimp only
  rw [if_neg (by simp), if_neg (by rw [hname]; simp), run_get_bind, run_bind,
    zfsPropGetNative_granted hread2]
  dsimp only
  rw [if_neg (by simp), run_bind, hisMounted, hmountpoint]
  dsimp only
  rw [if_neg (by simp), run_bind, zfsPropGetNative_granted hread3]
  dsimp only
  rw [if_neg (by simp), hcreation]
  have hissue : issue host (readCalls zhdl (s.isMounted zhdl)) s = issue host
      ((if s.isMounted zhdl then [Call.zfs (.propGet zhdl .mountpoint)] else []) ++
        [readCall zhdl "creation"])
      (call host (readCall zhdl "mounted") (call host (readCall zhdl "name") s).2).2 := rfl
  rw [hissue, issue_append]
  let name := (libzeBootEnvName (zhdl.take (zfsMaxDatasetNameLen - 1)) zfsMaxDatasetNameLen).2
  exact ⟨beEntry h _ name value creation (s.isMounted zhdl), rfl, rfl⟩

/-- A read that fails, and only that, fails the callback, which then adds nothing. -/
theorem libzeListCb_unreadable (hmem : zhdl ∈ s.names) (hno : ¬ Readable host clock zhdl s)
    (acc : List (CStr × BeEntry)) :
    (libzeListCb host clock h zhdl acc s).1.1 ≠ 0 ∧ (libzeListCb host clock h zhdl acc s).1.2 = acc := by
  rcases hrun : libzeListCb host clock h zhdl acc s with ⟨⟨r, acc'⟩, t⟩
  show r ≠ 0 ∧ acc' = acc
  have hsame1 : SamePools s (call host (readCall zhdl "name") s).2 := samePools_readCall
  have hsame2 : SamePools s (call host (readCall zhdl "mounted")
      (call host (readCall zhdl "name") s).2).2 := hsame1.trans samePools_readCall
  have hisMounted : (call host (readCall zhdl "name") s).2.isMounted zhdl = s.isMounted zhdl := by
    rw [Sys.isMounted, hsame1.find, Sys.isMounted]
  unfold libzeListCb at hrun
  obtain ⟨⟨r1, dataset⟩, s1, hget1, hrun⟩ := bind_run hrun
  obtain ⟨hcode1, rfl, hdataset⟩ := zfsPropGetNative_run hget1
  dsimp only at hrun
  split at hrun
  · cases hrun
    exact ⟨by simp [LibzeError.code], rfl⟩
  rename_i hr1
  rw [hdataset (not_not.mp hr1)] at hrun
  split at hrun
  · cases hrun
    exact ⟨by simp [LibzeError.code], rfl⟩
  rename_i hname
  rw [run_get_bind, hisMounted] at hrun
  obtain ⟨⟨r2, mounted⟩, s2, hget2, hrun⟩ := bind_run hrun
  obtain ⟨hcode2, rfl, -⟩ := zfsPropGetNative_run hget2
  dsimp only at hrun
  split at hrun
  · cases hrun
    exact ⟨by simp [LibzeError.code], rfl⟩
  rename_i hr2
  obtain ⟨hgranted, hrefused⟩ :=
    @listMountpoint_run host zhdl _ (hsame2.names ▸ hmem) (s.isMounted zhdl)
  obtain ⟨⟨r3, mountpoint⟩, s3, hget3, hrun⟩ := bind_run hrun
  dsimp only at hrun
  split at hrun
  · cases hrun
    exact ⟨by simp [LibzeError.code], rfl⟩
  rename_i hr3
  have hmounted : Grants host (if s.isMounted zhdl then [Call.zfs (.propGet zhdl .mountpoint)] else [])
      (call host (readCall zhdl "mounted") (call host (readCall zhdl "name") s).2).2 := by
    by_contra hmounted
    have hne := hrefused hmounted
    rw [hget3] at hne
    exact hr3 hne
  obtain ⟨value, hvalue⟩ := hgranted hmounted
  obtain ⟨-, rfl⟩ := Prod.mk.inj (hvalue.symm.trans hget3)
  obtain ⟨⟨r4, propBuffer⟩, s4, hget4, hrun⟩ := bind_run hrun
  obtain ⟨hcode4, rfl, hbuffer⟩ := zfsPropGetNative_run hget4
  dsimp only at hrun
  split at hrun
  · cases hrun
    exact ⟨by simp [LibzeError.code], rfl⟩
  rename_i hr4
  rw [hbuffer (not_not.mp hr4)] at hrun
  cases htime : clock.strftime (clock.creation zhdl) with
  | none =>
    rw [htime] at hrun
    cases hrun
    exact ⟨by simp [LibzeError.code], rfl⟩
  | some creation =>
    apply absurd _ hno
    have hreads : Grants host (readCalls zhdl (s.isMounted zhdl)) s := by
      apply And.intro (hcode1.symm.trans (not_not.mp hr1))
      apply And.intro (hcode2.symm.trans (not_not.mp hr2))
      exact grants_append.mpr ⟨hmounted, hcode4.symm.trans (not_not.mp hr4), trivial⟩
    exact ⟨not_not.mp hname, hreads, by simp [htime]⟩

end Callback

/-! ## The list -/

section List
variable {host : Host} {clock : Clock} {h : Handle} {s t : Sys}

theorem samePools_issue {zhdl : CStr} (isMounted : Bool) :
    SamePools s (issue host (readCalls zhdl isMounted) s) := by
  have hlook : ∀ c ∈ readCalls zhdl isMounted, IsLookup c := by
    intro c hc
    cases isMounted with
    | false =>
      simp only [readCalls, Bool.false_eq_true, if_false, List.nil_append, List.mem_cons,
        List.not_mem_nil, or_false] at hc
      obtain rfl | rfl | rfl := hc
      · trivial
      · trivial
      · trivial
    | true =>
      simp only [readCalls, if_true, List.mem_append, List.mem_cons, List.not_mem_nil,
        or_false] at hc
      obtain rfl | rfl | rfl | rfl := hc
      · trivial
      · trivial
      · trivial
      · trivial
  generalize readCalls zhdl isMounted = cs at hlook
  induction cs generalizing s with
  | nil => exact .refl s
  | cons c cs ih =>
    have hfirst : SamePools s (call host c s).2 :=
      Issues.samePools (issues_call (hlook c List.mem_cons_self)) s
    exact hfirst.trans (ih fun d hd => hlook d (List.mem_cons_of_mem c hd))

/-- What the iteration collects: an entry for every dataset, or for fewer. -/
theorem gather_libzeListCb (l : List CStr) (hmem : ∀ c ∈ l, c ∈ s.names)
    (acc : List (CStr × BeEntry)) :
    (AllReadable host clock l s → ∃ es : List (CStr × BeEntry), es.map Prod.fst = l.map clock.creation ∧
      es.map (fun e => e.2.dataset) = l.map (fun c => c.take (zfsMaxDatasetNameLen - 1)) ∧
      (gather (libzeListCb host clock h) l acc s).1.2 = es.foldl put acc) ∧
    (¬ AllReadable host clock l s → ∃ es : List (CStr × BeEntry), es.length < l.length ∧
      (gather (libzeListCb host clock h) l acc s).1.2 = es.foldl put acc) := by
  induction l generalizing s acc with
  | nil => exact ⟨fun _ => ⟨[], rfl, rfl, rfl⟩, fun hno => absurd trivial hno⟩
  | cons zhdl rest ih =>
    have hzhdl := hmem zhdl List.mem_cons_self
    rw [gather, run_bind]
    by_cases hread : Readable host clock zhdl s
    · obtain ⟨e, hdataset, hrun⟩ := libzeListCb_readable (h := h) hzhdl hread acc
      rw [hrun]
      dsimp only
      rw [if_neg (by simp)]
      have hsame : SamePools s (issue host (readCalls zhdl (s.isMounted zhdl)) s) :=
        samePools_issue _
      obtain ⟨hall, hsome⟩ := ih (fun c hc => hsame.names ▸ hmem c (List.mem_cons_of_mem zhdl hc))
        (put acc (clock.creation zhdl, e))
      constructor
      · intro hreads
        obtain ⟨es, hkeys, hdatasets, hout⟩ := hall hreads.2
        refine ⟨(clock.creation zhdl, e) :: es, ?_, ?_, hout⟩
        · rw [List.map_cons, List.map_cons, hkeys]
        · rw [List.map_cons, List.map_cons, hdatasets, hdataset]
      · intro hno
        obtain ⟨es, hlen, hout⟩ := hsome fun hrest => hno ⟨hread, hrest⟩
        exact ⟨(clock.creation zhdl, e) :: es, by simpa using hlen, hout⟩
    · obtain ⟨hcode, hacc⟩ := libzeListCb_unreadable (h := h) hzhdl hread acc
      rcases hrun : libzeListCb host clock h zhdl acc s with ⟨⟨r, acc'⟩, t⟩
      rw [hrun] at hcode hacc
      dsimp only at hcode hacc ⊢
      rw [if_pos hcode]
      exact ⟨fun hreads => absurd hreads.1 hread, fun _ => ⟨[], by simp, hacc⟩⟩

/-- One entry for each environment, with its own dataset. -/
def Complete (h : Handle) (s : Sys) (outnvl : List (CStr × BeEntry)) : Prop :=
  (outnvl.map fun e => e.2.dataset).Perm (childFilesystems s h.envRoot)

/-- The environments can be read one after the other, and no two were created in the same
second. -/
structure Listable (host : Host) (clock : Clock) (l : List CStr) (s : Sys) : Prop where
  reads : AllReadable host clock l s
  creations : (l.map clock.creation).Nodup
  fits : ∀ c ∈ l, c.length < zfsMaxDatasetNameLen

theorem complete_of_listable {es : List (CStr × BeEntry)} {l : List CStr}
    (hlist : Listable host clock l t) (hkeys : es.map Prod.fst = l.map clock.creation)
    (hdatasets : es.map (fun e => e.2.dataset) =
      l.map (fun c => c.take (zfsMaxDatasetNameLen - 1))) :
    (es.foldl put []).map (fun e => e.2.dataset) = l := by
  have hnodup : (([] ++ es).map Prod.fst).Nodup := by
    rw [List.nil_append, hkeys]
    exact hlist.creations
  have hown : l.map (fun c => c.take (zfsMaxDatasetNameLen - 1)) = l := by
    conv_rhs => rw [← List.map_id l]
    apply List.map_congr_left
    intro c hc
    exact take_of_fits (hlist.fits c hc)
  rw [foldl_put_of_nodup hnodup, List.nil_append, hdatasets, hown]

theorem listable_of_complete {l : List CStr} (hmem : ∀ c ∈ l, c ∈ t.names)
    (hperm : ((gather (libzeListCb host clock h) l [] t).1.2.map fun e => e.2.dataset).Perm l) :
    Listable host clock l t := by
  obtain ⟨hall, hsome⟩ := @gather_libzeListCb host clock h _ l hmem []
  have hlength := hperm.length_eq
  rw [List.length_map] at hlength
  by_cases hreads : AllReadable host clock l t
  · obtain ⟨es, hkeys, hdatasets, hout⟩ := hall hreads
    have hes : es.length = l.length := by
      simpa using congrArg List.length hkeys
    rw [hout] at hlength hperm
    have hnodup : (([] ++ es).map Prod.fst).Nodup := by
      apply (length_foldl_put_iff (by simp)).mp
      simp only [List.length_nil]
      omega
    rw [foldl_put_of_nodup hnodup, List.nil_append, hdatasets] at hperm
    rw [List.nil_append, hkeys] at hnodup
    refine ⟨hreads, hnodup, fun c hc => ?_⟩
    obtain ⟨c', -, rfl⟩ := List.mem_map.mp (hperm.mem_iff.mpr hc)
    have htake := List.length_take_le (zfsMaxDatasetNameLen - 1) c'
    have hpos := nameLen_pos
    omega
  · obtain ⟨es, hlt, hout⟩ := hsome hreads
    have hle := length_foldl_put_le (l := []) es
    rw [hout] at hlength
    simp only [List.length_nil] at hle
    omega

theorem childFilesystems_of_open {code : Nat} (hopen : zfsOpen host h.envRoot .filesystem s = (code, t)) :
    childFilesystems t h.envRoot = childFilesystems s h.envRoot := by
  have hsame := zfsOpen_samePools hopen
  simp only [childFilesystems, children, hsame.names]

/-- A successful listing is complete exactly when every read behind the first one succeeds and
the creation times are distinct. -/
theorem complete_iff_listable (host : Host) (clock : Clock) (h : Handle) (s : Sys) :
    ((libzeList host clock h s).1.1 = .success → Complete h s (libzeList host clock h s).1.2) ↔
      ∀ t, zfsOpen host h.envRoot .filesystem s = (0, t) →
        Listable host clock (childFilesystems s h.envRoot) t := by
  rcases hopen : zfsOpen host h.envRoot .filesystem s with ⟨code, t⟩
  have hkids := childFilesystems_of_open hopen
  have hmem : ∀ c ∈ childFilesystems s h.envRoot, c ∈ t.names := by
    intro c hc
    rw [← hkids] at hc
    exact (mem_childFilesystems.mp hc).1
  by_cases hcode : code = 0
  · subst hcode
    rw [libzeList, run_bind, hopen, if_neg (by simp), run_get_bind, run_bind, hkids]
    constructor
    · intro hcomplete t' ht'
      obtain ⟨-, rfl⟩ := Prod.mk.inj ht'
      exact listable_of_complete hmem (hcomplete rfl)
    · intro hlist _
      have hlist := hlist t rfl
      obtain ⟨hall, -⟩ := @gather_libzeListCb host clock h _ _ hmem []
      obtain ⟨es, hkeys, hdatasets, hout⟩ := hall hlist.reads
      have hown := complete_of_listable hlist hkeys hdatasets
      rw [← hout] at hown
      exact List.Perm.of_eq hown
  · rw [libzeList, run_bind, hopen, if_pos hcode]
    constructor
    · intro _ t' ht'
      exact absurd (Prod.mk.inj ht').1 hcode
    · intro _ hsuccess
      cases hsuccess

/-- Every dataset was created in the same second. -/
def sameSecond : Clock where
  creation _ := "1714564800"
  strftime _ := some "2024-05-01 12:00"

/-- `a` and `b` were created in one second: the list holds `b` only. -/
theorem not_complete_in_one_second :
    ¬ ∀ (host : Host) (clock : Clock) (h : Handle) (s : Sys),
      (libzeList host clock h s).1.1 = .success → Complete h s (libzeList host clock h s).1.2 := by
  intro hall
  have hcomplete := hall allowing sameSecond (sampleHandle none false) (sampleSys [])
    (by decide +kernel)
  have hlength := hcomplete.length_eq
  exact absurd hlength (by decide +kernel)

end List

end Zectl.Libze.Listing
