import Zectl.Systemdboot.Hooks

/-!
# The buffers of the callers

`libze_be_prop_get` writes up to `ZFS_MAXPROPLEN` bytes whatever buffer it is given, and
`libze_boot_env_name` up to the length it is told. What matters is the size of the buffer
that each caller declares.
-/

namespace Zectl.Systemdboot.PropBuffers

open Zectl.Lib.StateRun Zectl.Util.CString Zectl.Zfs.System Zectl.Libze.Init
open Zectl.Systemdboot.Entry Zectl.Systemdboot.PreSnapshot Zectl.Systemdboot.PostCreate
open Zectl.Systemdboot.Hooks

/-- `libze_nvlist_prop_get`, with the text it leaves in the buffer. -/
def libzeNvlistPropGet (props : List (CStr × CStr)) (property ns : CStr) :
    Libze (LibzeError × CStr) := do
  let (code, propBuf) := libzeUtilConcat ns ":" property zfsMaxproplen
  if code ≠ 0 then
    return (← libzeErrorSet .maxpathlen "Exceeded length of property.\n", [])
  match props.lookup propBuf with
  | none => return (.success, (strlcpy [] zfsMaxproplen).2)
  | some stringProp =>
    let (len, resultProp) := strlcpy stringProp zfsMaxproplen
    if zfsMaxproplen ≤ len then
      return (← libzeErrorSet .unknown "Property is too large.\n", resultProp)
    return (.success, resultProp)

/-- The functions that read a property or the name of the activated environment. -/
inductive Caller where
  | bootPoolSet | modifyFstab | updateLoaderDefault | postActivate | postCreate | postDestroy
  | postRename | preSnapshot
  deriving DecidableEq, Repr

/-- A call of `libze_be_prop_get` and the declared size of its buffer. -/
structure PropCall where
  property : CStr
  ns : CStr
  size : Nat

/-- A call of `libze_boot_env_name`: the length it is told and the declared size. -/
structure NameCall where
  buflen : Nat
  size : Nat

def Caller.propCalls : Caller → List PropCall
  | .bootPoolSet =>
    [⟨"bootpoolroot", zePropNamespace, zfsMaxDatasetNameLen⟩,
      ⟨"bootpoolprefix", zePropNamespace, zfsMaxDatasetNameLen⟩]
  | .modifyFstab | .updateLoaderDefault => []
  | .postActivate | .postDestroy | .postRename => [⟨"efi", namespaceBuf, zfsMaxproplen⟩]
  | .postCreate =>
    [⟨"boot", namespaceBuf, zfsMaxproplen⟩, ⟨"efi", namespaceBuf, zfsMaxproplen⟩,
      ⟨"kernelsnapshotdirectory", namespaceBuf, libzeMaxPathLen⟩]
  | .preSnapshot =>
    [⟨"efi", namespaceBuf, zfsMaxproplen⟩, ⟨"boot", namespaceBuf, zfsMaxproplen⟩,
      ⟨"kernelsnapshotdirectory", namespaceBuf, libzeMaxPathLen⟩]

def Caller.nameCalls : Caller → List NameCall
  | .modifyFstab | .updateLoaderDefault | .postActivate | .postDestroy =>
    [⟨zfsMaxDatasetNameLen, zfsMaxDatasetNameLen⟩]
  -- `loader_replace`
  | .postCreate => [⟨zfsMaxDatasetNameLen, libzeMaxPathLen⟩]
  | .bootPoolSet | .postRename | .preSnapshot => []

/-- What a call that succeeds has stored is shorter than the buffer. -/
def PropCall.Fits (zeProps : List (CStr × CStr)) (c : PropCall) : Prop :=
  ∀ s t text, libzeNvlistPropGet zeProps c.property c.ns s = ((.success, text), t) →
    text.length < c.size

def NameCall.Fits (envActivatedPath : CStr) (c : NameCall) : Prop :=
  ∀ text, libzeBootEnvName envActivatedPath c.buflen = (0, text) → text.length < c.size

/-- Every call of every caller keeps to its buffer. -/
structure BuffersHold (zeProps : List (CStr × CStr)) (envActivatedPath : CStr) : Prop where
  props : ∀ (caller : Caller), ∀ c ∈ caller.propCalls, c.Fits zeProps
  names : ∀ (caller : Caller), ∀ c ∈ caller.nameCalls, c.Fits envActivatedPath

/-- The value of a property, empty when it is not there. -/
def valueOf (zeProps : List (CStr × CStr)) (property ns : CStr) : CStr :=
  (zeProps.lookup (ns ++ ':' :: property)).getD []

section Calls
variable {zeProps : List (CStr × CStr)} {property ns : CStr} {path : CStr}

theorem concat_property (hname : (ns ++ ':' :: property).length < zfsMaxproplen) :
    libzeUtilConcat ns ":" property zfsMaxproplen = (0, ns ++ ':' :: property) := by
  have hshape : ns ++ [':'] ++ property = ns ++ ':' :: property := by simp
  rw [← hshape] at hname ⊢
  exact libzeUtilConcat_buf hname

theorem valueOf_short (hvals : ∀ e ∈ zeProps, e.2.length < zfsMaxproplen) :
    (valueOf zeProps property ns).length < zfsMaxproplen := by
  unfold valueOf
  cases hlookup : zeProps.lookup (ns ++ ':' :: property) with
  | none => decide
  | some value =>
    obtain ⟨before, after, heq, -⟩ := List.lookup_eq_some_iff.mp hlookup
    have hmem : (ns ++ ':' :: property, value) ∈ zeProps := by
      rw [heq]
      simp
    exact hvals _ hmem

/-- A property whose name and value fit is read without an error. -/
theorem libzeNvlistPropGet_eq (hname : (ns ++ ':' :: property).length < zfsMaxproplen)
    (hvals : ∀ e ∈ zeProps, e.2.length < zfsMaxproplen) :
    libzeNvlistPropGet zeProps property ns = pure (.success, valueOf zeProps property ns) := by
  have hshort := @valueOf_short zeProps property ns hvals
  unfold libzeNvlistPropGet
  rw [concat_property hname]
  dsimp only [strlcpy]
  rw [if_neg (by decide)]
  unfold valueOf at hshort ⊢
  cases hlookup : zeProps.lookup (ns ++ ':' :: property) with
  | none => rfl
  | some value =>
    rw [hlookup, Option.getD_some] at hshort
    dsimp only
    rw [if_neg (Nat.not_le.mpr hshort), take_of_fits hshort, Option.getD_some]

/-- The getter of `libze_init` is this one in the namespace of the program. -/
theorem libzeBePropGet_eq_nvlist (h : Handle) :
    libzeBePropGet h property = libzeNvlistPropGet h.zeProps property zePropNamespace := by
  unfold libzeBePropGet libzeNvlistPropGet
  rcases libzeUtilConcat zePropNamespace ":" property zfsMaxproplen with ⟨code, propBuf⟩
  dsimp only [strlcpy]
  by_cases hcode : code ≠ 0
  · rw [if_pos hcode, if_pos hcode]
  rw [if_neg hcode, if_neg hcode]
  cases h.zeProps.lookup propBuf with
  | none => rfl
  | some value =>
    by_cases hlong : zfsMaxproplen ≤ value.length
    · simp only [hlong, if_true]
    · simp only [hlong, if_false, take_of_fits (Nat.not_le.mp hlong)]

/-- The getter of the hooks is this one in the namespace of the plugin. -/
theorem pluginPropGet_eq_nvlist (h : Handle)
    (hname : (namespaceBuf ++ ':' :: property).length < zfsMaxproplen) :
    pluginPropGet h property = libzeNvlistPropGet h.zeProps property namespaceBuf := by
  have hsame : propertyOf h property = valueOf h.zeProps property namespaceBuf := by
    simp [propertyOf, valueOf, format]
  unfold pluginPropGet libzeNvlistPropGet
  rw [hsame, concat_property hname]
  dsimp only [strlcpy]
  rw [if_neg (not_not.mpr rfl)]
  unfold valueOf
  cases h.zeProps.lookup (namespaceBuf ++ ':' :: property) with
  | none => rfl
  | some value =>
    rw [Option.getD_some]
    dsimp only
    by_cases hlong : zfsMaxproplen ≤ value.length
    · rw [if_pos hlong, if_pos hlong]
    · rw [if_neg hlong, if_neg hlong, take_of_fits (Nat.not_le.mp hlong)]

theorem fits_iff {c : PropCall} (hname : (c.ns ++ ':' :: c.property).length < zfsMaxproplen)
    (hvals : ∀ e ∈ zeProps, e.2.length < zfsMaxproplen) :
    c.Fits zeProps ↔ (valueOf zeProps c.property c.ns).length < c.size := by
  unfold PropCall.Fits
  rw [libzeNvlistPropGet_eq hname hvals]
  constructor
  · exact fun hfits => hfits ⟨[], [], [], [], .success, [], []⟩ _ _ rfl
  · rintro hsize s t text ⟨⟩
    exact hsize

/-- The name of an environment is shorter than its path by the slash. -/
theorem name_fits {c : NameCall} (hpath : path.length < zfsMaxDatasetNameLen)
    (hsize : zfsMaxDatasetNameLen ≤ c.size + 1) : c.Fits path := by
  intro text hrun
  obtain ⟨-, -, before, rfl⟩ := libzeBootEnvName_eq_ok_iff.mp hrun
  rw [List.length_append, List.length_cons] at hpath
  omega

theorem nameCalls_size (caller : Caller) :
    ∀ c ∈ caller.nameCalls, zfsMaxDatasetNameLen ≤ c.size + 1 := by
  have hall : (caller.nameCalls.all fun c => zfsMaxDatasetNameLen ≤ c.size + 1) = true := by
    cases caller <;> rfl
  exact fun c hc => of_decide_eq_true (List.all_eq_true.mp hall c hc)

theorem propCalls_name (caller : Caller) :
    ∀ c ∈ caller.propCalls, (c.ns ++ ':' :: c.property).length < zfsMaxproplen := by
  have hall : (caller.propCalls.all fun c =>
      (c.ns ++ ':' :: c.property).length < zfsMaxproplen) = true := by
    cases caller <;> decide +kernel
  exact fun c hc => of_decide_eq_true (List.all_eq_true.mp hall c hc)

end Calls

/-! ## The calls of the hooks -/

/-- The calls that read a property in a hook. -/
def hookCalls : Hook → List PropCall
  | .preActivate | .midActivate _ _ => []
  | .postActivate _ => Caller.postActivate.propCalls
  | .postCreate _ _ _ => Caller.postCreate.propCalls
  | .postDestroy _ => Caller.postDestroy.propCalls
  | .postRename _ _ => Caller.postRename.propCalls
  | .preSnapshot _ _ => Caller.preSnapshot.propCalls

/-- Two sets of properties that none of the calls can tell apart. -/
def Agree (calls : List PropCall) (zeProps zeProps' : List (CStr × CStr)) : Prop :=
  ∀ c ∈ calls,
    libzeNvlistPropGet zeProps c.property c.ns = libzeNvlistPropGet zeProps' c.property c.ns

section Reads
variable {host : Host} {h : Handle} {zeProps zeProps' : List (CStr × CStr)} {mountpointBuf : CStr}

theorem pluginPropGet_agree (h : Handle) (caller : Caller) {c : PropCall}
    (hsame : Agree caller.propCalls zeProps zeProps') (hc : c ∈ caller.propCalls)
    (hns : c.ns = namespaceBuf) :
    pluginPropGet { h with zeProps := zeProps } c.property =
      pluginPropGet { h with zeProps := zeProps' } c.property := by
  have hname := propCalls_name caller c hc
  have hread := hsame c hc
  rw [hns] at hname hread
  rw [pluginPropGet_eq_nvlist _ hname, pluginPropGet_eq_nvlist _ hname, hread]

/-- A hook reads no property but in its calls: it does the same on properties that these cannot
tell apart. -/
theorem exportedPlugin_agree {hook : Hook} (hsame : Agree (hookCalls hook) zeProps zeProps') :
    exportedPlugin host { h with zeProps := zeProps } mountpointBuf hook =
      exportedPlugin host { h with zeProps := zeProps' } mountpointBuf hook := by
  cases hook with
  | preActivate | midActivate _ _ => rfl
  | postActivate beName =>
    have hefi := pluginPropGet_agree h .postActivate hsame List.mem_cons_self rfl
    show postActivate host _ beName = postActivate host _ beName
    unfold postActivate
    rw [hefi]
    rfl
  | postDestroy beName =>
    have hefi := pluginPropGet_agree h .postDestroy hsame List.mem_cons_self rfl
    show postDestroy host _ beName = postDestroy host _ beName
    unfold postDestroy
    rw [hefi]
  | postRename beNameOld beNameNew =>
    have hefi := pluginPropGet_agree h .postRename hsame List.mem_cons_self rfl
    show postRename host _ beNameOld beNameNew = postRename host _ beNameOld beNameNew
    unfold postRename
    rw [hefi]
    rfl
  | postCreate beName beMountpoint fromSnapshot =>
    have hboot := pluginPropGet_agree h .postCreate hsame List.mem_cons_self rfl
    have hefi := pluginPropGet_agree h .postCreate hsame
      (List.mem_cons_of_mem _ List.mem_cons_self) rfl
    have hkernels := pluginPropGet_agree h .postCreate hsame
      (List.mem_cons_of_mem _ (List.mem_cons_of_mem _ List.mem_cons_self)) rfl
    show postCreate host _ _ = postCreate host _ _
    unfold postCreate
    rw [hboot, hefi, hkernels]
    rfl
  | preSnapshot beName isRoot =>
    have hefi := pluginPropGet_agree h .preSnapshot hsame List.mem_cons_self rfl
    have hboot := pluginPropGet_agree h .preSnapshot hsame
      (List.mem_cons_of_mem _ List.mem_cons_self) rfl
    have hkernels := pluginPropGet_agree h .preSnapshot hsame
      (List.mem_cons_of_mem _ (List.mem_cons_of_mem _ List.mem_cons_self)) rfl
    show preSnapshot host _ _ _ _ = preSnapshot host _ _ _ _
    unfold preSnapshot
    rw [hefi, hboot, hkernels]
    rfl

end Reads

/-! ## The buffers -/

/-- The buffers hold exactly when the values read into the smaller ones fit. -/
theorem buffersHold_iff {zeProps : List (CStr × CStr)} {envActivatedPath : CStr}
    (hvals : ∀ e ∈ zeProps, e.2.length < zfsMaxproplen)
    (hpath : envActivatedPath.length < zfsMaxDatasetNameLen) :
    BuffersHold zeProps envActivatedPath ↔
      (valueOf zeProps "bootpoolroot" zePropNamespace).length < zfsMaxDatasetNameLen ∧
      (valueOf zeProps "bootpoolprefix" zePropNamespace).length < zfsMaxDatasetNameLen ∧
      (valueOf zeProps "kernelsnapshotdirectory" namespaceBuf).length < libzeMaxPathLen := by
  have hnames : ∀ (caller : Caller), ∀ c ∈ caller.nameCalls, c.Fits envActivatedPath :=
    fun caller c hc => name_fits hpath (nameCalls_size caller c hc)
  have hprops : ∀ (caller : Caller), ∀ c ∈ caller.propCalls, c.Fits zeProps ↔
      (valueOf zeProps c.property c.ns).length < c.size := fun caller c hc =>
    fits_iff (propCalls_name caller c hc) hvals
  constructor
  · intro h
    have hfits := fun caller c hc => (hprops caller c hc).mp (h.props caller c hc)
    refine ⟨?_, ?_, ?_⟩
    · exact hfits .bootPoolSet _ List.mem_cons_self
    · exact hfits .bootPoolSet _ (List.mem_cons_of_mem _ List.mem_cons_self)
    · exact hfits .postCreate _
        (List.mem_cons_of_mem _ (List.mem_cons_of_mem _ List.mem_cons_self))
  · rintro ⟨hroot, hpre, hkernels⟩
    constructor
    · intro caller c hc
      rw [hprops caller c hc]
      have hlong := @valueOf_short zeProps c.property c.ns hvals
      cases caller <;> simp only [Caller.propCalls, List.mem_cons, List.not_mem_nil, or_false] at hc
      · obtain rfl | rfl := hc
        · exact hroot
        · exact hpre
      · rw [hc] at hlong ⊢
        exact hlong
      · obtain rfl | rfl | rfl := hc
        · exact hlong
        · exact hlong
        · exact hkernels
      · rw [hc] at hlong ⊢
        exact hlong
      · rw [hc] at hlong ⊢
        exact hlong
      · obtain rfl | rfl | rfl := hc
        · exact hlong
        · exact hlong
        · exact hkernels
    · exact hnames

/-- A name of 300 characters. -/
def longRoot : CStr := List.replicate 300 'a'

theorem not_buffersHold : (∀ e ∈ [("org.zectl:bootpoolroot".toList, longRoot)],
      e.2.length < zfsMaxproplen) ∧
    ¬ BuffersHold [("org.zectl:bootpoolroot", longRoot)] "zroot/ROOT/default" ∧
    ¬ BuffersHold [("org.zectl.systemdboot:kernelsnapshotdirectory", longRoot)]
      "zroot/ROOT/default" := by
  refine ⟨?_, ?_, ?_⟩
  · intro e he
    obtain rfl := List.mem_singleton.mp he
    decide +kernel
  · intro h
    have hfits := h.props .bootPoolSet _ List.mem_cons_self ⟨[], [], [], [], .success, [], []⟩
    have hrun : (libzeNvlistPropGet [("org.zectl:bootpoolroot", longRoot)] "bootpoolroot"
        zePropNamespace ⟨[], [], [], [], .success, [], []⟩).1 = (.success, longRoot) := by
      decide +kernel
    exact absurd (hfits _ _ (run_eq_of_fst hrun)) (by decide +kernel)
  · intro h
    have hfits := h.props .preSnapshot _ (List.mem_cons_of_mem _ (List.mem_cons_of_mem _
      List.mem_cons_self)) ⟨[], [], [], [], .success, [], []⟩
    have hrun : (libzeNvlistPropGet [("org.zectl.systemdboot:kernelsnapshotdirectory", longRoot)]
        "kernelsnapshotdirectory" namespaceBuf ⟨[], [], [], [], .success, [], []⟩).1 =
          (.success, longRoot) := by
      decide +kernel
    exact absurd (hfits _ _ (run_eq_of_fst hrun)) (by decide +kernel)

/-- The properties that are read into the smaller buffers. -/
def sampleProps : List (CStr × CStr) :=
  [("org.zectl:bootpoolroot", "bpool/boot"), ("org.zectl:bootpoolprefix", "env"),
    ("org.zectl.systemdboot:kernelsnapshotdirectory", "/etc/kernels")]

theorem buffersHold_iff_sample : BuffersHold sampleProps "zroot/ROOT/default" ↔
    (valueOf sampleProps "bootpoolroot" zePropNamespace).length < zfsMaxDatasetNameLen ∧
    (valueOf sampleProps "bootpoolprefix" zePropNamespace).length < zfsMaxDatasetNameLen ∧
    (valueOf sampleProps "kernelsnapshotdirectory" namespaceBuf).length < libzeMaxPathLen :=
  buffersHold_iff (by decide +kernel) (by decide +kernel)

end Zectl.Systemdboot.PropBuffers
