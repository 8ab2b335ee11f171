import Zectl.Lib.KeyedList
import Zectl.Libze.Sample

/-!
# Cloning a tree of datasets

`libze_clone` first collects the properties of every dataset of the source tree in an
nvlist keyed by the dataset's name, then clones the datasets in the order of the list.
Allocation does not fail and `zprop_iter` visits every property.
-/

namespace Zectl.Libze.Clone

open Zectl.Lib.StateRun Zectl.Lib.Visit Zectl.Lib.Preorder Zectl.Lib.PathOrder Zectl.Lib.KeyedList
open Zectl.Util.CString Zectl.Zfs.System Zectl.Zfs.Steps Zectl.Zfs.Forest Zectl.Libze.Init
open Zectl.Libze.Sample

abbrev DsProps := List (ZfsProp × CStr)

/-- `clone_prop_cb` -/
def clonePropCb (host : Host) (zhp : CStr) (props : DsProps) (prop : ZfsProp) :
    Libze DsProps := do
  if host.zfsPropReadonly prop then return props
  if prop = .canmount then return put props (prop, "noauto")
  if (← call host (.zfs (.propGet zhp prop))) ≠ 0 then return props
  match (← get).propValue host zhp prop with
  | none => return props
  | some (value, src) =>
    if src ≠ .localSet ∧ src ≠ .received then return props
    return put props (prop, (host.propText prop value).take (zfsMaxproplen - 1))

/-- `libze_clone_cb`, to a bounded depth. -/
def libzeCloneCb (host : Host) (recursive : Bool) :
    Nat → CStr → List (CStr × DsProps) → Libze (Int × List (CStr × DsProps))
  | 0, _, outnvl => return (-1, outnvl)
  | depth + 1, zhdl, outnvl => do
    let props ← host.nativeProps.foldlM (clonePropCb host zhdl) []
    let outnvl := put outnvl (zhdl, props)
    if recursive then
      let (r, outnvl) ← gather (libzeCloneCb host recursive depth)
        (childFilesystems (← get) zhdl) outnvl
      if r ≠ 0 then
        return ((← libzeErrorSet .unknown "Failed to iterate over child datasets.\n").code, outnvl)
      return (0, outnvl)
    return (0, outnvl)

/-- The name `libze_clone` builds for the clone of one dataset, or the message when it
does not fit. -/
def cloneChildName (sourceRoot be dsName : CStr) : Except CStr CStr :=
  let (code, beChild) := libzeUtilSuffixAfterString sourceRoot dsName zfsMaxDatasetNameLen
  if code ≠ 0 then .ok [] else
  if beChild ≠ [] then
    let (code, dsChild) := libzeUtilConcat be beChild "/" zfsMaxDatasetNameLen
    if code ≠ 0 then .error "Requested child clone exceeds max length 256\n" else .ok dsChild
  else
    let (len, dsChild) := strlcpy be zfsMaxDatasetNameLen
    if zfsMaxDatasetNameLen ≤ len then .error "No child clone found\n" else .ok dsChild

/-- The loop of `libze_clone` over the collected datasets. -/
def cloneDatasets (host : Host) (sourceRoot sourceSnapSuffix be : CStr) :
    List (CStr × DsProps) → Libze LibzeError
  | [] => return .success
  | (dsName, dsProps) :: rest => do
    match cloneChildName sourceRoot be dsName with
    | .error message => return ← libzeErrorSet .maxpathlen message
    | .ok dsChild =>
      let (code, dsSnap) := libzeUtilConcat dsName "@" sourceSnapSuffix zfsMaxDatasetNameLen
      if code ≠ 0 then
        return ← libzeErrorSet .maxpathlen "Requested snapshot exceeds max length 256\n"
      if (← zfsOpen host dsSnap .snapshot) ≠ 0 then
        return ← libzeErrorSet .zfsOpen (format ["Error opening ", dsSnap])
      if (← call host (.zfs (.clone dsSnap dsChild dsProps))) ≠ 0 then
        return ← libzeErrorSet .unknown (format ["Clone error ", dsChild])
      cloneDatasets host sourceRoot sourceSnapSuffix be rest

/-- `libze_clone` -/
def libzeClone (host : Host) (sourceRoot sourceSnapSuffix be : CStr) (recursive : Bool) :
    Libze LibzeError := do
  if (← zfsOpen host sourceRoot .filesystem) ≠ 0 then
    return ← libzeErrorSet .zfsOpen (format ["Error opening ", sourceRoot])
  let (r, cdata) ← libzeCloneCb host recursive (recursionDepth (← get)) sourceRoot []
  if r ≠ 0 then return .unknown
  cloneDatasets host sourceRoot sourceSnapSuffix be cdata

/-! ## What is collected -/

section Collect
variable {host : Host} {s : Sys}

theorem clonePropCb_issues (zhp : CStr) (props : DsProps) (prop : ZfsProp) :
    Issues host IsLookup (clonePropCb host zhp props prop) := by
  unfold clonePropCb
  refine moves_ite (fun _ => moves_pure _) fun _ => ?_
  refine moves_ite (fun _ => moves_pure _) fun _ => ?_
  refine moves_bind (issues_call trivial) fun _ => moves_ite (fun _ => moves_pure _) fun _ => ?_
  refine moves_bind moves_get fun _ => ?_
  split
  · exact moves_pure _
  · exact moves_ite (fun _ => moves_pure _) (fun _ => moves_pure _)

theorem libzeCloneCb_issues (recursive : Bool) (depth : Nat) (zhdl : CStr)
    (outnvl : List (CStr × DsProps)) :
    Issues host IsLookup (libzeCloneCb host recursive depth zhdl outnvl) := by
  induction depth generalizing zhdl outnvl with
  | zero => exact moves_pure _
  | succ depth ih =>
    refine moves_bind (moves_foldlM (fun _ _ _ => clonePropCb_issues _ _ _) _) fun props => ?_
    refine moves_ite (fun _ => ?_) (fun _ => moves_pure _)
    refine moves_bind moves_get fun _ => moves_bind (moves_gather (fun c _ out => ih c out) _) ?_
    intro r
    refine moves_ite (fun _ => ?_) (fun _ => moves_pure _)
    exact moves_bind (issues_errorSet _ _) fun _ => moves_pure _

/-- The datasets the callback visits. -/
def visited (s : Sys) (recursive : Bool) (depth : Nat) (zhdl : CStr) : List CStr :=
  if recursive then preorder (childFilesystems s) depth zhdl else [zhdl]

/-- The callback adds an entry for each dataset it visits and cannot fail. -/
theorem libzeCloneCb_run (recursive : Bool) (depth : Nat) {zhdl : CStr}
    (hs : IsForest s.names) (henough : Enough s zhdl depth) (outnvl : List (CStr × DsProps)) :
    ∃ (t : Sys) (items : List (CStr × DsProps)), libzeCloneCb host recursive depth zhdl outnvl s =
      ((0, items.foldl put outnvl), t) ∧ SamePools s t ∧
      items.map Prod.fst = visited s recursive depth zhdl := by
  induction depth generalizing s zhdl outnvl with
  | zero => obtain ⟨h, _⟩ | ⟨h, _⟩ := henough <;> omega
  | succ depth ih =>
    rcases hprops : host.nativeProps.foldlM (clonePropCb host zhdl) [] s with ⟨props, s1⟩
    have hs1 : SamePools s s1 :=
      Issues.samePools_of (moves_foldlM (fun _ _ _ => clonePropCb_issues _ _ _) _) hprops
    cases recursive with
    | false =>
      refine ⟨s1, [(zhdl, props)], ?_, hs1, rfl⟩
      rw [libzeCloneCb, run_bind, hprops]
      rfl
    | true =>
      have hsame : childFilesystems s1 zhdl = childFilesystems s zhdl := by
        rw [childFilesystems, children, hs1.names]
        rfl
      have hchildren : ∀ c ∈ childFilesystems s zhdl, ∀ acc u, SamePools s u →
          ∃ (v : Sys) (items : List (CStr × DsProps)),
            libzeCloneCb host true depth c acc u = ((0, items.foldl put acc), v) ∧
            SamePools s v ∧ items.map Prod.fst = preorder (childFilesystems s) depth c := by
        intro c hc acc u hu
        obtain ⟨hmem, hparent, _⟩ := mem_childFilesystems.mp hc
        have hchild := henough.child hs (mem_children.mpr ⟨hmem, hparent⟩)
        obtain ⟨v, items, hrun, hv, hitems⟩ :=
          ih (hu.names ▸ hs) (hchild.of_subset fun n hn => hu.names ▸ hn) acc
        have hkids : childFilesystems u = childFilesystems s := by
          funext x
          rw [childFilesystems, children, hu.names]
          rfl
        exact ⟨v, items, hrun, hu.trans hv, by rw [hitems, visited, if_pos rfl, hkids]⟩
      obtain ⟨t, items, hrun, ht, hitems⟩ :=
        gather_folds (SamePools s) put _ Prod.fst hchildren (put outnvl (zhdl, props)) hs1
      refine ⟨t, (zhdl, props) :: items, ?_, ht, ?_⟩
      · rw [libzeCloneCb, run_bind, hprops]
        dsimp only
        rw [if_pos rfl, run_get_bind, hsame, run_bind, hrun]
        rfl
      · rw [List.map_cons, hitems]
        rfl

/-- The collected list names the visited datasets in turn. -/
theorem collected (recursive : Bool) {zhdl : CStr} (hs : IsForest s.names) :
    ∃ t cdata, libzeCloneCb host recursive (recursionDepth s) zhdl [] s = ((0, cdata), t) ∧
      SamePools s t ∧ cdata.map Prod.fst = if recursive then subtree s zhdl else [zhdl] := by
  obtain ⟨t, items, hrun, ht, hitems⟩ := @libzeCloneCb_run host s recursive (recursionDepth s) zhdl
    hs (enough_recursionDepth s zhdl) []
  have hnodup : (items.map Prod.fst).Nodup := by
    rw [hitems, visited]
    split
    · exact hs.ranked.preorder_nodup _ _
    · exact List.nodup_singleton _
  refine ⟨t, items, ?_, ht, hitems⟩
  rw [hrun, foldl_put_of_nodup (by simpa using hnodup), List.nil_append]

end Collect

/-! ## The names of the clones -/

section Names
variable {root be n suffix : CStr}

/-- What the code names the clone of a dataset at or below `root`. -/
def cloneTarget (root be n : CStr) : CStr :=
  if n = root then be else be ++ n.drop (root.length + 1) ++ "/".toList

/-- A filesystem below another has a path of its own behind a slash. -/
theorem exists_path (hn : validName n = true) (hfs : isSnapshotName n = false)
    (hbelow : AtOrBelow root n) (hne : n ≠ root) :
    ∃ path, n = root ++ '/' :: path ∧ validName path = true := by
  obtain rfl | ⟨c, r, hc, rfl⟩ := hbelow
  · exact absurd rfl hne
  obtain rfl | rfl := hc
  · refine ⟨r, rfl, ?_⟩
    have hvalid := (validFrom_append (.inl rfl) hn).2.2
    exact hvalid
  · simp [isSnapshotName] at hfs

theorem cloneTarget_below {path : CStr} :
    cloneTarget root be (root ++ '/' :: path) = be ++ path ++ "/".toList := by
  rw [cloneTarget, if_neg (by simp)]
  simp

theorem libzeUtilSuffixAfterString_eq (hn : n.length < zfsMaxDatasetNameLen)
    (hroot : root.length + 1 < zfsMaxDatasetNameLen) :
    libzeUtilSuffixAfterString root n zfsMaxDatasetNameLen = (0, n.drop (root.length + 1)) := by
  have hdrop : (n.drop (root.length + 1)).length < zfsMaxDatasetNameLen := by
    rw [List.length_drop]
    omega
  simp only [libzeUtilSuffixAfterString, strlcpy, take_of_fits hn, take_of_fits hdrop]
  rw [if_neg (by omega), if_neg (by omega), if_neg (by omega)]

theorem cloneChildName_eq (hn : validName n = true) (hfs : isSnapshotName n = false)
    (hbelow : AtOrBelow root n) (hlen : n.length < zfsMaxDatasetNameLen)
    (hroot : root.length + 1 < zfsMaxDatasetNameLen)
    (hfits : (be ++ n.drop root.length).length < zfsMaxDatasetNameLen) :
    cloneChildName root be n = .ok (cloneTarget root be n) := by
  rw [cloneChildName, libzeUtilSuffixAfterString_eq hlen hroot]
  dsimp only
  rw [if_neg (by decide)]
  by_cases hne : n = root
  · subst hne
    have hbe : be.length < zfsMaxDatasetNameLen := by simpa using hfits
    have hdrop : n.drop (n.length + 1) = [] := List.drop_eq_nil_of_le (by omega)
    rw [hdrop, if_neg (by simp), cloneTarget, if_pos rfl]
    simp only [strlcpy, take_of_fits hbe]
    rw [if_neg (by omega)]
  · obtain ⟨path, rfl, hpath⟩ := exists_path hn hfs hbelow hne
    have hpathNe : path ≠ [] := by
      rintro rfl
      cases hpath
    have hcat : libzeUtilConcat be path "/" zfsMaxDatasetNameLen = (0, be ++ path ++ "/".toList) := by
      refine libzeUtilConcat_buf ?_
      rw [List.drop_left] at hfits
      simp only [List.length_append, List.length_cons] at hfits ⊢
      have hslash : ("/" : CStr).length = 1 := rfl
      omega
    have hdrop : (root ++ '/' :: path).drop (root.length + 1) = path := by simp
    rw [hdrop, if_pos hpathNe, hcat, cloneTarget_below]
    dsimp only
    rw [if_neg (by decide)]

end Names

/-! ## The calls of a clone -/

/-- What the code can name a clone: `be`, something that ends in a slash, or nothing. -/
def IsCloneName (be target : CStr) : Prop :=
  target = be ∨ target = [] ∨ ∃ path, path ≠ [] ∧ target = be ++ path ++ "/".toList

theorem isCloneName_of_ok {root be n target : CStr} (h : cloneChildName root be n = .ok target) :
    IsCloneName be target := by
  unfold cloneChildName at h
  rcases hsuffix : libzeUtilSuffixAfterString root n zfsMaxDatasetNameLen with ⟨code, path⟩
  rw [hsuffix] at h
  dsimp only at h
  split at h
  · cases h
    exact .inr (.inl rfl)
  split at h
  · rename_i hpath
    rcases hcat : libzeUtilConcat be path "/" zfsMaxDatasetNameLen with ⟨code, buf⟩
    rw [hcat] at h
    dsimp only at h
    split at h
    · cases h
    · rename_i hcode
      cases h
      rw [not_not.mp hcode] at hcat
      exact .inr (.inr ⟨path, hpath, ((libzeUtilConcat_eq_ok_iff (by decide)).mp hcat).2⟩)
  · split at h
    · cases h
    · rename_i hlen
      cases h
      exact .inl (take_of_fits (Nat.lt_of_not_le hlen))

/-- What `libze_clone` may call. -/
inductive CloneCall (be : CStr) : Call → Prop
  | lookup {c : Call} (hc : IsLookup c) : CloneCall be c
  | clone {snap target : CStr} (props : DsProps) (htarget : IsCloneName be target) :
      CloneCall be (.zfs (.clone snap target props))

section Calls
variable {host : Host} {root suffix be : CStr}

theorem cloneDatasets_issues (items : List (CStr × DsProps)) :
    Issues host (CloneCall be) (cloneDatasets host root suffix be items) := by
  have herr : ∀ (err : LibzeError) (message : CStr), Issues host (CloneCall be)
      (libzeErrorSet err message >>= fun e => pure e) := fun err message =>
    moves_bind (issues_errorSet err message) fun _ => moves_pure _
  induction items with
  | nil => exact moves_pure _
  | cons e rest ih =>
    unfold cloneDatasets
    cases hchild : cloneChildName root be e.1 with
    | error message => exact herr _ _
    | ok target =>
      refine moves_ite (fun _ => herr _ _) fun _ => ?_
      refine moves_bind (issues_zfsOpen (.lookup trivial)) fun _ => ?_
      refine moves_ite (fun _ => herr _ _) fun _ => ?_
      refine moves_bind (issues_call (.clone _ (isCloneName_of_ok hchild))) fun _ => ?_
      exact moves_ite (fun _ => herr _ _) fun _ => ih

theorem libzeClone_issues (recursive : Bool) :
    Issues host (CloneCall be) (libzeClone host root suffix be recursive) := by
  unfold libzeClone
  refine moves_bind (issues_zfsOpen (.lookup trivial)) fun _ => moves_ite (fun _ => ?_) fun _ => ?_
  · exact moves_bind (issues_errorSet _ _) fun _ => moves_pure _
  · refine moves_bind moves_get fun _ => ?_
    refine moves_bind ((libzeCloneCb_issues _ _ _ _).weaken fun c => .lookup) fun _ => ?_
    exact moves_ite (fun _ => moves_pure _) fun _ => cloneDatasets_issues _

theorem CloneCall.grows {c : Call} (hc : CloneCall be c) (s : Sys) :
    Grows s (c.effect host s) := by
  cases hc with
  | lookup hc =>
    rw [lookup_effect hc]
    exact (SameShape.refl s).grows
  | clone =>
    show Grows s { s with datasets := s.datasets ++ [_] }
    rw [Grows, List.map_append]
    exact List.prefix_append _ _

/-- Collecting below a dataset leaves the entry in front of it alone. -/
theorem libzeCloneCb_head (recursive : Bool) (depth : Nat) {zhdl : CStr} {e : CStr × DsProps}
    (hlen : e.1.length < zhdl.length) {rest : List (CStr × DsProps)} {s : Sys} :
    ∃ rest', (libzeCloneCb host recursive depth zhdl (e :: rest) s).1.2 = e :: rest' := by
  induction depth generalizing zhdl rest s with
  | zero => exact ⟨rest, rfl⟩
  | succ depth ih =>
    rcases hprops : host.nativeProps.foldlM (clonePropCb host zhdl) [] s with ⟨props, s1⟩
    have hadd : ∃ rest', put (e :: rest) (zhdl, props) = e :: rest' := by
      have hne : e.1 ≠ zhdl := fun heq => by
        rw [heq] at hlen
        omega
      rw [put, List.filter_cons_of_pos (by simpa using hne)]
      exact ⟨_, rfl⟩
    have hkids : ∀ c ∈ childFilesystems s1 zhdl, e.1.length < c.length := by
      intro c hc
      have hlt := parentOf_length_lt (mem_childFilesystems.mp hc).2.1
      omega
    have hchild : ∀ c ∈ childFilesystems s1 zhdl, ∀ out u, (∃ rest', out = e :: rest') →
        ∃ rest', (libzeCloneCb host recursive depth c out u).1.2 = e :: rest' := by
      intro c hc out u hout
      obtain ⟨rest', rfl⟩ := hout
      exact ih (hkids c hc)
    have hgather := gather_keeps (fun out => ∃ rest', out = e :: rest') (s := s1) hchild hadd
    rw [libzeCloneCb, run_bind, hprops]
    dsimp only
    split
    · rw [run_get_bind, run_bind]
      rcases hout : gather (libzeCloneCb host recursive depth) (childFilesystems s1 zhdl)
        (put (e :: rest) (zhdl, props)) s1 with ⟨⟨r, out⟩, s2⟩
      rw [hout] at hgather
      dsimp only
      split
      · exact hgather
      · exact hgather
    · exact hadd

/-- The collected list starts with the source itself. -/
theorem libzeCloneCb_source {recursive : Bool} {depth : Nat} {zhdl : CStr}
    {cdata : List (CStr × DsProps)} {s t : Sys}
    (hr : libzeCloneCb host recursive depth zhdl [] s = ((0, cdata), t)) :
    ∃ props rest, cdata = (zhdl, props) :: rest := by
  cases depth with
  | zero => cases hr
  | succ depth =>
    rcases hprops : host.nativeProps.foldlM (clonePropCb host zhdl) [] s with ⟨props, s1⟩
    rw [libzeCloneCb, run_bind, hprops] at hr
    dsimp only at hr
    have hchild : ∀ c ∈ childFilesystems s1 zhdl, ∀ out u,
        (∃ rest, out = (zhdl, props) :: rest) →
        ∃ rest, (libzeCloneCb host recursive depth c out u).1.2 = (zhdl, props) :: rest := by
      intro c hc out u hout
      obtain ⟨rest, rfl⟩ := hout
      exact libzeCloneCb_head recursive depth (parentOf_length_lt (mem_childFilesystems.mp hc).2.1)
    have hgather := gather_keeps (fun out => ∃ rest, out = (zhdl, props) :: rest) (s := s1) hchild
      ⟨[], rfl⟩
    split at hr
    · rw [run_get_bind] at hr
      obtain ⟨⟨r, out⟩, s2, hout, hr⟩ := bind_run hr
      have hhead : ∃ rest, out = (zhdl, props) :: rest := by
        have hsame : put [] (zhdl, props) = [(zhdl, props)] := rfl
        rw [← hsame, hout] at hgather
        exact hgather
      dsimp only at hr
      obtain ⟨rest, rfl⟩ := hhead
      split at hr
      · obtain ⟨e, s3, he, hr⟩ := bind_run hr
        cases he
        cases hr
      · cases hr
        exact ⟨props, rest, rfl⟩
    · cases hr
      exact ⟨props, [], rfl⟩

/-- A successful clone has cloned the source itself to `be`. -/
theorem libzeClone_success {recursive : Bool} {s t : Sys}
    (hr : libzeClone host root suffix be recursive s = (.success, t)) :
    ∃ u v props, Looked s u ∧ be.length < zfsMaxDatasetNameLen ∧
      call host (.zfs (.clone (root ++ '@' :: suffix) be props)) u = (0, v) ∧ Grows v t := by
  unfold libzeClone at hr
  obtain ⟨code, s1, hopen, hr⟩ := bind_run hr
  have hs1 : Looked s s1 := zfsOpen_looked hopen
  split at hr
  · cases hr
  rw [run_get_bind] at hr
  obtain ⟨⟨r, cdata⟩, s2, hcb, hr⟩ := bind_run hr
  have hs2 := hs1.trans ((libzeCloneCb_issues recursive _ root []).looked hcb)
  dsimp only at hr
  split at hr
  · cases hr
  rename_i hzero
  rw [not_not.mp hzero] at hcb
  obtain ⟨props, rest, rfl⟩ := libzeCloneCb_source hcb
  rw [cloneDatasets] at hr
  rcases hchild : cloneChildName root be root with message | target
  · rw [hchild] at hr
    cases hr
  rw [hchild] at hr
  dsimp only at hr
  rcases hcat : libzeUtilConcat root "@" suffix zfsMaxDatasetNameLen with ⟨code, snap⟩
  rw [hcat] at hr
  dsimp only at hr
  split at hr
  · cases hr
  rename_i hcode
  rw [not_not.mp hcode] at hcat
  obtain ⟨hlen, rfl⟩ := (libzeUtilConcat_eq_ok_iff nameLen_pos).mp hcat
  obtain ⟨code, s3, hopen', hr⟩ := bind_run hr
  have hs3 := hs2.trans (zfsOpen_looked hopen')
  split at hr
  · cases hr
  obtain ⟨code, v, hcall, hr⟩ := bind_run hr
  split at hr
  · cases hr
  rename_i hcode
  rw [not_not.mp hcode] at hcall
  have hsnap : root ++ ("@" : CStr) ++ suffix = root ++ '@' :: suffix := by simp
  rw [hsnap] at hcall hlen
  simp only [List.length_append, List.length_cons] at hlen
  -- a source whose snapshot fits leaves room for the suffix of its own name
  obtain ⟨rfl, hbe⟩ : target = be ∧ be.length < zfsMaxDatasetNameLen := by
    rw [cloneChildName, libzeUtilSuffixAfterString_eq (by omega) (by omega)] at hchild
    dsimp only at hchild
    rw [if_neg (by decide), List.drop_eq_nil_of_le (by omega), if_neg (by decide)] at hchild
    split at hchild
    · cases hchild
    · rename_i hfits
      cases hchild
      have hbe := Nat.lt_of_not_le hfits
      exact ⟨take_of_fits hbe, hbe⟩
  exact ⟨s3, v, props, hs3, hbe, hcall, (cloneDatasets_issues rest).grows (fun s c hc => hc.grows s) hr⟩

end Calls

/-! ## The clones of a run -/

/-- The clones among the calls of a run, from the first to the last. -/
def clones (calls : List (Call × Nat)) : List (CStr × CStr) :=
  calls.reverse.filterMap fun e =>
    match e.1 with
    | .zfs (.clone snap target _) => some (snap, target)
    | _ => none

/-- Every filesystem of the tree is cloned once, after those above it, from its own
snapshot and to the same path below `be`. -/
def ClonesTree (s : Sys) (root suffix be : CStr) (made : List (CStr × CStr)) : Prop :=
  ∃ order : List CStr, order.Nodup ∧ order.Pairwise (fun a b => ¬ AtOrBelow b a) ∧
    (∀ n, n ∈ order ↔ n ∈ s.names ∧ isSnapshotName n = false ∧ AtOrBelow root n) ∧
    made = order.map fun n => (n ++ '@' :: suffix, be ++ n.drop root.length)

/-- Snapshots are opened and cloned as requested. -/
def GrantsClones (host : Host) : Prop :=
  (∀ s n, host.answer s (.zfs (.open n)) = 0) ∧
    ∀ s snap target props, host.answer s (.zfs (.clone snap target props)) = 0

/-- The names of a recursive clone fit and every dataset of the tree has the snapshot. -/
structure Cloneable (s : Sys) (root suffix be : CStr) : Prop where
  source : s.datasetExists root .filesystem = true
  snapshots : ∀ n ∈ s.names, isSnapshotName n = false → AtOrBelow root n →
    n ++ '@' :: suffix ∈ s.names
  fits : ∀ n ∈ s.names, isSnapshotName n = false → AtOrBelow root n →
    (n ++ '@' :: suffix).length < zfsMaxDatasetNameLen ∧
      (be ++ n.drop root.length).length < zfsMaxDatasetNameLen

section Run
variable {host : Host} {root suffix be : CStr} {s : Sys}

theorem clones_append (later earlier : List (Call × Nat)) :
    clones (later ++ earlier) = clones earlier ++ clones later := by
  rw [clones, List.reverse_append, List.filterMap_append]
  rfl

theorem clones_of_lookups {calls : List (Call × Nat)} (h : ∀ e ∈ calls, IsLookup e.1) :
    clones calls = [] := by
  refine List.filterMap_eq_nil_iff.mpr fun e he => ?_
  have hlook := h e (List.mem_reverse.mp he)
  match e, hlook with
  | (.zfs (.poolOpen _), _), _ => rfl
  | (.zfs (.open _), _), _ => rfl
  | (.zfs (.propGet _ _), _), _ => rfl

/-- The name of a snapshot that fits is built. -/
theorem concat_snapshot {n : CStr} (hlen : (n ++ '@' :: suffix).length < zfsMaxDatasetNameLen) :
    libzeUtilConcat n "@" suffix zfsMaxDatasetNameLen = (0, n ++ '@' :: suffix) := by
  have heq : n ++ ("@" : CStr) ++ suffix = n ++ '@' :: suffix := by simp
  rw [← heq] at hlen ⊢
  exact libzeUtilConcat_buf hlen

/-- The loop clones the datasets of the list in turn. -/
theorem cloneDatasets_clones (hhost : GrantsClones host) (items : List (CStr × DsProps))
    (hok : ∀ n ∈ items.map Prod.fst, cloneChildName root be n = .ok (cloneTarget root be n) ∧
      (n ++ '@' :: suffix).length < zfsMaxDatasetNameLen ∧ n ++ '@' :: suffix ∈ s.names) :
    ∃ t new, cloneDatasets host root suffix be items s = (.success, t) ∧
      t.trace = new ++ s.trace ∧
      clones new = (items.map Prod.fst).map fun n => (n ++ '@' :: suffix, cloneTarget root be n) := by
  induction items generalizing s with
  | nil => exact ⟨s, [], rfl, rfl, rfl⟩
  | cons e rest ih =>
    obtain ⟨dsName, props⟩ := e
    obtain ⟨hchild, hlen, hsnap⟩ := hok dsName List.mem_cons_self
    have hexist : s.datasetExists (dsName ++ '@' :: suffix) .snapshot = true := by
      simp [Sys.datasetExists, hsnap, isSnapshotName]
    obtain ⟨s1, hopen⟩ := zfsOpen_granted hexist (hhost.1 s _)
    have hlook : Looked s s1 := zfsOpen_looked hopen
    obtain ⟨new1, htrace1, hnew1⟩ := hlook.trace
    let c : Call := .zfs (.clone (dsName ++ '@' :: suffix) (cloneTarget root be dsName) props)
    have hcall : call host c s1 = _ := call_granted (hhost.2 s1 _ _ _)
    let s2 : Sys := { c.effect host s1 with trace := (c, 0) :: s1.trace }
    have hmem : ∀ n ∈ s.names, n ∈ s2.names := by
      intro n hn
      rw [← hlook.same.names] at hn
      show n ∈ (s1.datasets ++ [_]).map Dataset.name
      rw [List.map_append]
      exact List.mem_append_left _ hn
    obtain ⟨t, new, hrun, htrace, hclones⟩ := @ih s2 fun n hn => by
      obtain ⟨h1, h2, h3⟩ := hok n (List.mem_cons_of_mem _ hn)
      exact ⟨h1, h2, hmem _ h3⟩
    refine ⟨t, new ++ ((c, 0) :: new1), ?_, ?_, ?_⟩
    · rw [cloneDatasets, hchild]
      dsimp only
      rw [concat_snapshot hlen]
      dsimp only
      rw [if_neg (by decide), run_bind, hopen]
      dsimp only
      rw [if_neg (by decide), run_bind, hcall]
      dsimp only
      rw [if_neg (by decide)]
      exact hrun
    · rw [htrace]
      show new ++ ((c, 0) :: s1.trace) = _
      rw [htrace1, List.append_assoc, List.cons_append]
    · rw [clones_append, hclones, ← List.singleton_append, clones_append, clones_of_lookups hnew1]
      rfl

theorem Cloneable.mem_tree (hc : Cloneable s root suffix be) (hs : IsForest s.names) {n : CStr} :
    n ∈ subtree s root ↔ n ∈ s.names ∧ isSnapshotName n = false ∧ AtOrBelow root n := by
  have hsource : root ∈ s.names ∧ isSnapshotName root = false := by
    simpa [Sys.datasetExists] using hc.source
  exact mem_subtree hs hsource.1 hsource.2

/-- A recursive clone makes one clone of each filesystem of the tree from its own
snapshot, from the top, under the names of `cloneTarget`. -/
theorem libzeClone_clones (hhost : GrantsClones host) (hs : IsForest s.names)
    (hc : Cloneable s root suffix be) :
    ∃ t, libzeClone host root suffix be true s = (.success, t) ∧
      clones (since s t) =
        (subtree s root).map fun n => (n ++ '@' :: suffix, cloneTarget root be n) := by
  obtain ⟨s1, hopen⟩ := zfsOpen_granted hc.source (hhost.1 s root)
  have hlook1 : Looked s s1 := zfsOpen_looked hopen
  obtain ⟨s2, cdata, hcb, hsame, hcdata⟩ := @collected host s1 true root (hlook1.same.names ▸ hs)
  have hlook : Looked s s2 := hlook1.trans ((libzeCloneCb_issues true _ _ _).looked hcb)
  have hnames := hlook.same.names
  have hsubtree : cdata.map Prod.fst = subtree s root := by
    rw [hcdata, if_pos rfl, subtree_of_names hlook1.same.names]
  have hok : ∀ n ∈ cdata.map Prod.fst, cloneChildName root be n = .ok (cloneTarget root be n) ∧
      (n ++ '@' :: suffix).length < zfsMaxDatasetNameLen ∧ n ++ '@' :: suffix ∈ s2.names := by
    intro n hn
    obtain ⟨hmem, hfs, hbelow⟩ := (hc.mem_tree hs).mp (hsubtree ▸ hn)
    obtain ⟨hsnap, hbe⟩ := hc.fits n hmem hfs hbelow
    have hlen : n.length + 1 < zfsMaxDatasetNameLen := by
      simp only [List.length_append, List.length_cons] at hsnap
      omega
    have hroot := hbelow.length_le
    refine ⟨cloneChildName_eq (hs.valid n hmem) hfs hbelow (by omega) (by omega) hbe, hsnap, ?_⟩
    rw [hnames]
    exact hc.snapshots n hmem hfs hbelow
  obtain ⟨t, new, hrun, htrace, hclones⟩ := cloneDatasets_clones hhost cdata hok
  obtain ⟨before, hbefore, hlookups⟩ := hlook.trace
  refine ⟨t, ?_, ?_⟩
  · rw [libzeClone, run_bind, hopen]
    dsimp only
    rw [if_neg (by decide), run_get_bind, run_bind, hcb]
    dsimp only
    rw [if_neg (by decide)]
    exact hrun
  · have hall : t.trace = (new ++ before) ++ s.trace := by rw [htrace, hbefore, List.append_assoc]
    rw [since_of_trace hall, clones_append, clones_of_lookups hlookups, hclones, hsubtree]
    rfl

/-- The name built below the root is the wanted one for the root only. -/
theorem cloneTarget_eq_iff {n : CStr} (hn : validName n = true) (hfs : isSnapshotName n = false)
    (hbelow : AtOrBelow root n) : cloneTarget root be n = be ++ n.drop root.length ↔ n = root := by
  constructor
  · intro heq
    by_contra hne
    obtain ⟨path, rfl, hpath⟩ := exists_path hn hfs hbelow hne
    rw [cloneTarget_below, List.drop_left, List.append_assoc, List.append_cancel_left_eq] at heq
    cases path with
    | nil => cases hpath
    | cons x rest =>
      -- a component cannot start with the slash that the code has put behind it
      obtain ⟨rfl, _⟩ := List.cons.inj heq
      cases hpath
  · rintro rfl
    rw [cloneTarget, if_pos rfl, List.drop_length, List.append_nil]

/-- A recursive clone reproduces the tree exactly when there is nothing to recurse
into. -/
theorem libzeClone_clonesTree_iff (host : Host) (root suffix be : CStr) (s : Sys)
    (hhost : GrantsClones host) (hs : IsForest s.names) (hc : Cloneable s root suffix be) :
    ClonesTree s root suffix be (clones (since s (libzeClone host root suffix be true s).2)) ↔
      ∀ n ∈ s.names, isSnapshotName n = false → AtOrBelow root n → n = root := by
  obtain ⟨t, hrun, hclones⟩ := libzeClone_clones hhost hs hc
  rw [hrun, hclones]
  constructor
  · rintro ⟨order, _, _, hmem, hmade⟩ n hn hfs hbelow
    have hin : (n ++ '@' :: suffix, be ++ n.drop root.length) ∈
        order.map fun n => (n ++ '@' :: suffix, be ++ n.drop root.length) :=
      List.mem_map.mpr ⟨n, (hmem n).mpr ⟨hn, hfs, hbelow⟩, rfl⟩
    rw [← hmade] at hin
    obtain ⟨m, hm, heq⟩ := List.mem_map.mp hin
    obtain ⟨hsnap, htarget⟩ := Prod.mk.inj heq
    obtain rfl := List.append_cancel_right hsnap
    exact (cloneTarget_eq_iff (hs.valid _ hn) hfs hbelow).mp htarget
  · intro honly
    have hranked := hs.ranked
    refine ⟨subtree s root, hranked.preorder_nodup _ _, ?_, fun n => hc.mem_tree hs, ?_⟩
    · refine (hranked.preorder_pairwise _ _).imp_of_mem fun ha _ hno hbelow => hno ?_
      exact hs.descends ((hc.mem_tree hs).mp ha).1 hbelow
    · refine List.map_congr_left fun n hn => ?_
      obtain ⟨hmem, hfs, hbelow⟩ := (hc.mem_tree hs).mp hn
      rw [(cloneTarget_eq_iff (hs.valid n hmem) hfs hbelow).mpr (honly n hmem hfs hbelow)]

theorem libzeClone_clonesTree_iff_sample :
    ClonesTree (sampleSys [{ name := "rpool/ROOT/a@s" }]) "rpool/ROOT/a" "s" "rpool/ROOT/c"
        (clones (since (sampleSys [{ name := "rpool/ROOT/a@s" }]) (libzeClone allowing
          "rpool/ROOT/a" "s" "rpool/ROOT/c" true (sampleSys [{ name := "rpool/ROOT/a@s" }])).2)) ↔
      ∀ n ∈ (sampleSys [{ name := "rpool/ROOT/a@s" }]).names, isSnapshotName n = false →
        AtOrBelow "rpool/ROOT/a" n → n = ("rpool/ROOT/a" : CStr) :=
  libzeClone_clonesTree_iff allowing "rpool/ROOT/a" "s" "rpool/ROOT/c" _
    ⟨fun _ _ => rfl, fun _ _ _ _ => rfl⟩ (by decide +kernel)
    ⟨by decide, by decide +kernel, by decide +kernel⟩

/-- The clone of `rpool/ROOT/a/home` becomes `rpool/ROOT/chome/`. -/
theorem not_clonesTree_with_child :
    ¬ ∀ (host : Host) (root suffix be : CStr) (s : Sys), GrantsClones host → IsForest s.names →
      Cloneable s root suffix be →
      ClonesTree s root suffix be (clones (since s (libzeClone host root suffix be true s).2)) := by
  intro hall
  let s : Sys := sampleSys [{ name := "rpool/ROOT/a@s" }, { name := "rpool/ROOT/a/home" },
    { name := "rpool/ROOT/a/home@s" }]
  obtain ⟨order, _, _, hmem, hmade⟩ := hall allowing "rpool/ROOT/a" "s" "rpool/ROOT/c" s
    ⟨fun _ _ => rfl, fun _ _ _ _ => rfl⟩ (by decide +kernel)
    ⟨by decide, by decide +kernel, by decide +kernel⟩
  have hclones : clones (since s
      (libzeClone allowing "rpool/ROOT/a" "s" "rpool/ROOT/c" true s).2) =
      [(("rpool/ROOT/a@s" : CStr), ("rpool/ROOT/c" : CStr)),
        (("rpool/ROOT/a/home@s" : CStr), ("rpool/ROOT/chome/" : CStr))] := by
    decide +kernel
  have hhome : ("rpool/ROOT/a/home" : CStr) ∈ order := (hmem _).mpr (by decide +kernel)
  have hwanted := List.mem_map_of_mem (f := fun n => (n ++ '@' :: ("s" : CStr),
    ("rpool/ROOT/c" : CStr) ++ n.drop ("rpool/ROOT/a" : CStr).length)) hhome
  rw [← hmade, hclones] at hwanted
  exact absurd hwanted (by decide +kernel)

end Run

end Zectl.Libze.Clone
